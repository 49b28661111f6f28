import ViewGen.Proofs.CompiledElements
import ViewGen.Proofs.DeclaredNames

/-!
# Styles as attributes

Styles are set when all elements are compiled.  Each styled element is looked up by its key, and
what is found under the key gets the style, in place of any it has.  So a style reaches its own
element if the key is its own.  Where the document gives a key to several elements, the one that is
compiled last is found for all of them, and the last of their styles stays.

## Main definitions

* `CompileOptions.Styled` — a markup element before and after a style is set on it
* `Node.styleAt` — the style that reaches an element
* `Node.StylesApart` — no style of another element is set under the key of an element

## Main statements

* `Draft.rel_setStyles` — of all styles that are set on an element the last one stays
* `Places.get?_lookup_iff` — an element is found under its key if no later one has the key
* `Node.styleAt_of_stylesApart` — an element with a key of its own is reached by its own style
* `inline_styles_follow_keys` — every compiled element of a component has the style that reaches it

## Design notes

An element that has no key in the document is given one of its own, so its own style reaches it
whatever keys other elements have.
-/

namespace ViewGen

open Compile (Yields)

/-! ## Setting a style -/

/-- Of two values that are set for an attribute the second one stays. -/
theorem Markup.set_set (m : Markup) (name : String) (value new : MarkupValue) :
    (m.set name value).set name new = m.set name new :=
  congrArg (fun attributes => { m with attributes })
    (Dict.insert_insert m.attributes name value new)

/-- A property of a style attribute is what an entry of a style becomes. -/
def CompileOptions.Declares (options : CompileOptions) (entry : String × StyleValue)
    (property : String × Expr) : Prop :=
  property.1 = Text.camel entry.1 ∧ options.styleValue entry.2 = .ok property.2

/-- A style attribute lists the entries of the style in order. -/
theorem forall₂_of_styleProperties {options : CompileOptions} {style : List (String × StyleValue)}
    {properties : List (String × Expr)} (h : styleProperties options style = .ok properties) :
    List.Forall₂ options.Declares style properties := by
  induction style generalizing properties with
  | nil =>
      obtain rfl := Except.ok.inj h
      exact .nil
  | cons entry rest ih =>
      obtain ⟨e, others, he, hothers, rfl⟩ := styleProperties_cons_iff.mp h
      exact .cons ⟨rfl, he⟩ (ih hothers)

/-- A markup element before and after a style is set on it.  A style without entries leaves the
element as it is. -/
inductive CompileOptions.Styled (options : CompileOptions) :
    List (String × StyleValue) → Markup → Markup → Prop
  | blank {m : Markup} : Styled options [] m m
  | given {style : List (String × StyleValue)} {properties : List (String × Expr)} {m : Markup} :
      style ≠ [] → List.Forall₂ options.Declares style properties →
        Styled options style m (m.set "style" (.expr (.object properties)))

theorem CompileOptions.Styled.eq_of_nil {options : CompileOptions} {m m' : Markup}
    (h : options.Styled [] m m') : m' = m := by
  cases h with
  | blank => rfl
  | given hstyle => exact absurd rfl hstyle

/-- A style that is set later stays, and without one the style that was set first. -/
theorem CompileOptions.Styled.after {options : CompileOptions}
    {style later : List (String × StyleValue)} {properties : List (String × Expr)} {m m' : Markup}
    (hstyle : style ≠ []) (hproperties : List.Forall₂ options.Declares style properties)
    (h : options.Styled later (m.set "style" (.expr (.object properties))) m') :
    options.Styled (if later = [] then style else later) m m' := by
  cases h with
  | blank =>
      rw [if_pos rfl]
      exact .given hstyle hproperties
  | given hlater hothers =>
      rw [if_neg hlater, Markup.set_set]
      exact .given hlater hothers

namespace Draft

theorem ne_empty_of_mem_styled {d : Draft} {e : Element Node} (h : e ∈ d.styled) :
    e.style ≠ [] ∧ e.key ≠ "" := by
  simpa using (List.mem_filter.mp h).2

theorem lookup_setOn (d : Draft) (key name : String) (value : MarkupValue) :
    (d.setOn key name value).workspace.lookup = d.workspace.lookup := by
  obtain ⟨arena, hset⟩ := d.exists_setOn key name value
  rw [hset]
  rfl

/-- An attribute is set on the element that is found under the key. -/
theorem get?_setOn (d : Draft) (key name : String) (value : MarkupValue) (id : ElementId) :
    (d.setOn key name value).arena.get? id =
      if d.workspace.lookup.get? key = some id then (d.arena.get? id).map (·.set name value)
      else d.arena.get? id := by
  unfold setOn
  cases hfound : d.workspace.lookup.get? key with
  | none => rw [if_neg (by simp)]
  | some found =>
      simp only [Option.some.injEq]
      exact d.arena.get?_set found id name value

/-- The style that is set last on what is found at a position, while elements are styled. -/
def lastStyle (d : Draft) (styled : List (Element Node)) (id : ElementId) :
    List (String × StyleValue) :=
  ((styled.filter fun e => d.workspace.lookup.get? e.key = some id).map (·.style)).getLast?.getD []

theorem lastStyle_setOn (d : Draft) (key name : String) (value : MarkupValue)
    (styled : List (Element Node)) (id : ElementId) :
    (d.setOn key name value).lastStyle styled id = d.lastStyle styled id := by
  rw [lastStyle, lookup_setOn, lastStyle]

theorem lastStyle_cons_of_found {d : Draft} {e : Element Node} {id : ElementId}
    (hfound : d.workspace.lookup.get? e.key = some id) {rest : List (Element Node)}
    (hrest : ∀ o ∈ rest, o.style ≠ []) :
    d.lastStyle (e :: rest) id =
      if d.lastStyle rest id = [] then e.style else d.lastStyle rest id := by
  unfold lastStyle
  rw [List.filter_cons_of_pos (by simpa using hfound), List.map_cons, List.getLast?_cons]
  cases hlast : ((rest.filter fun o => d.workspace.lookup.get? o.key = some id).map
      (·.style)).getLast? with
  | none => rfl
  | some style =>
      obtain ⟨o, ho, rfl⟩ := List.mem_map.mp (List.mem_of_getLast? hlast)
      exact (if_neg (hrest o (List.mem_of_mem_filter ho))).symm

/-- **Of all styles that are set on an element the last one stays.** -/
theorem rel_setStyles {options : CompileOptions} {styled : List (Element Node)}
    (hstyled : ∀ e ∈ styled, e.style ≠ []) {d d' : Draft}
    (h : d.setStyles options styled = .ok d') (id : ElementId) :
    Option.Rel (options.Styled (d.lastStyle styled id)) (d.arena.get? id) (d'.arena.get? id) := by
  induction styled generalizing d with
  | nil =>
      obtain rfl := Except.ok.inj h
      cases d.arena.get? id with
      | none => exact .none
      | some m => exact .some .blank
  | cons e rest ih =>
      obtain ⟨he, hrest⟩ := List.forall_mem_cons.mp hstyled
      obtain ⟨properties, hproperties, hset⟩ := bind_eq_ok_iff.mp h
      have hlater := ih hrest hset
      by_cases hfound : d.workspace.lookup.get? e.key = some id
      · -- The element is found here; its style stays unless a later one is set in its place.
        rw [lastStyle_cons_of_found hfound hrest]
        rw [get?_setOn, if_pos hfound, lastStyle_setOn] at hlater
        generalize d.arena.get? id = before, d'.arena.get? id = after at hlater ⊢
        cases before with
        | none =>
            cases hlater
            exact .none
        | some m =>
            cases hlater with
            | some hm' => exact .some (hm'.after he (forall₂_of_styleProperties hproperties))
      · rw [get?_setOn, if_neg hfound, lastStyle_setOn] at hlater
        rw [lastStyle, List.filter_cons_of_neg (by simpa using hfound)]
        exact hlater

end Draft

/-! ## What is found under a key -/

theorem eq_take_append_cons_drop {α : Type} {l : List α} {i : Nat} {x : α} (hi : l[i]? = some x) :
    l = l.take i ++ x :: l.drop (i + 1) := by
  obtain ⟨hlt, rfl⟩ := List.getElem?_eq_some_iff.mp hi
  rw [List.getElem_cons_drop, List.take_append_drop]

/-- The last entry that fits is the last one behind an entry that fits, or that entry. -/
theorem getLast?_filter_of_getElem? {α : Type} {l : List α} {p : α → Bool} {i : Nat} {x : α}
    (hi : l[i]? = some x) (hx : p x = true) :
    (l.filter p).getLast? = some (((l.drop (i + 1)).filter p).getLast?.getD x) := by
  have hsplit : l.filter p = (l.take i).filter p ++ x :: (l.drop (i + 1)).filter p := by
    rw [← List.filter_cons_of_pos hx, ← List.filter_append, ← eq_take_append_cons_drop hi]
  rw [hsplit, List.getLast?_append, List.getLast?_cons, Option.some_or]

namespace Places

variable {options : CompileOptions} {w w' : Workspace} {places : List (ElementId × Element Node)}

/-- No two elements have one position. -/
theorem eq_of_id_eq (h : Places options w w' places) {place other : ElementId × Element Node}
    (hplace : place ∈ places) (hother : other ∈ places) (hid : place.1 = other.1) :
    place = other := by
  have hnodup : (places.map (·.1)).Nodup :=
    List.pairwise_map.mpr (h.sorted.imp fun hlt => Nat.ne_of_lt hlt)
  exact List.inj_on_of_nodup_map hnodup hplace hother hid

theorem lt_of_mem_drop (h : Places options w w' places) {i : Nat}
    {place later : ElementId × Element Node} (hi : places[i]? = some place)
    (hlater : later ∈ places.drop (i + 1)) : place.1 < later.1 := by
  have hsorted := h.sorted
  rw [eq_take_append_cons_drop hi] at hsorted
  exact List.rel_of_pairwise_cons (List.pairwise_append.mp hsorted).2.1 hlater

theorem get?_lookup (h : Places options w w' places) (hlookup : w.lookup = []) {key : String}
    (hkey : key ≠ "") : w'.lookup.get? key =
      (places.filter fun place => place.2.key = key).getLast?.map (·.1) := by
  rw [h.lookup, get?_foldl_record places w.lookup hkey, hlookup]
  exact Option.or_none

/-- **An element is found under its key if no later one has the key**, and it is found under no
other key. -/
theorem get?_lookup_iff (h : Places options w w' places) (hlookup : w.lookup = []) {i : Nat}
    {id : ElementId} {e : Element Node} (hi : places[i]? = some (id, e)) {key : String}
    (hkey : key ≠ "") :
    w'.lookup.get? key = some id ↔
      e.key = key ∧ key ∉ (places.drop (i + 1)).map (·.2.key) := by
  rw [h.get?_lookup hlookup hkey]
  constructor
  · intro hlast
    obtain ⟨place, hplace, hid⟩ := Option.map_eq_some_iff.mp hlast
    obtain ⟨hmem, hsame⟩ := List.mem_filter.mp (List.mem_of_getLast? hplace)
    obtain rfl := h.eq_of_id_eq hmem (List.mem_of_getElem? hi) hid
    rw [getLast?_filter_of_getElem? hi hsame] at hplace
    refine ⟨by simpa using hsame, fun hlater => ?_⟩
    -- The last of the later elements with the key would be found, and it is at a later position.
    obtain ⟨later, hdrop, hlater⟩ := List.mem_map.mp hlater
    have hthere : (places.drop (i + 1)).filter (fun place => place.2.key = key) ≠ [] :=
      List.ne_nil_of_mem (List.mem_filter.mpr ⟨hdrop, by simpa using hlater⟩)
    rw [List.getLast?_eq_some_getLast hthere] at hplace
    have hdrop := List.mem_of_mem_filter (List.getLast_mem hthere)
    rw [Option.getD_some, Option.some.injEq] at hplace
    rw [hplace] at hdrop
    exact Nat.lt_irrefl _ (h.lt_of_mem_drop hi hdrop)
  · rintro ⟨rfl, hlast⟩
    have hnone : (places.drop (i + 1)).filter (fun place => place.2.key = e.key) = [] := by
      refine List.filter_eq_nil_iff.mpr fun later hlater hsame => hlast ?_
      exact List.mem_map.mpr ⟨later, hlater, by simpa using hsame⟩
    rw [getLast?_filter_of_getElem? hi (by simp), hnone]
    rfl

end Places

/-! ## The style that reaches an element -/

namespace Node

/-- The styles of the elements with a key, outer elements first. -/
def stylesUnder (n : Node) (key : String) : List (List (String × StyleValue)) :=
  ((n.elements.filter fun e => e.key = key).map (·.style)).filter fun style => !style.isEmpty

/-- The style that reaches an element, which is compiled at a position among the others.  One
without a key is reached by its own.  One with a key is found under it if no later element has the
same key, and then the last style of an element with the key stays. -/
def styleAt (slots : SlotHandling) (n : Node) (i : Nat) (e : Element Node) :
    List (String × StyleValue) :=
  if e.key = "" then e.style
  else if e.key ∈ ((n.compiled slots).drop (i + 1)).map (·.key) then []
  else (n.stylesUnder e.key).getLast?.getD []

/-- No style of another element is set under the key of an element: it has no key in the document,
or one of its own, or there are no styles under its key. -/
def StylesApart (n : Node) (e : Element Node) : Prop :=
  e.key = "" ∨ (n.elements.map (·.key)).count e.key = 1 ∨
    ∀ o ∈ n.elements, o.key = e.key → o.style = []

instance (n : Node) (e : Element Node) : Decidable (n.StylesApart e) :=
  inferInstanceAs (Decidable (_ ∨ _ ∨ ∀ o ∈ n.elements, o.key = e.key → o.style = []))

variable {slots : SlotHandling} {n : Node} {e : Element Node} {i : Nat}

theorem mem_elements_of_compiled (hi : (n.compiled slots)[i]? = some e) : e ∈ n.elements :=
  (subperm_compiled n).subset (List.mem_of_getElem? hi)

/-- No later element has a key that belongs to one element. -/
theorem notMem_later_of_count (hi : (n.compiled slots)[i]? = some e)
    (hcount : (n.elements.map (·.key)).count e.key = 1) :
    e.key ∉ ((n.compiled slots).drop (i + 1)).map (·.key) := by
  have hle : ((n.compiled slots).map (·.key)).count e.key ≤
      (n.elements.map (·.key)).count e.key := by
    simpa only [List.count, List.countP_map] using (subperm_compiled n).countP_le _
  rw [hcount, eq_take_append_cons_drop hi, List.map_append, List.map_cons, List.count_append,
    List.count_cons_self] at hle
  exact List.count_eq_zero.mp (by omega)

/-- The only style under a key that belongs to one element is that of the element. -/
theorem stylesUnder_of_count (he : e ∈ n.elements)
    (hcount : (n.elements.map (·.key)).count e.key = 1) :
    (n.stylesUnder e.key).getLast?.getD [] = e.style := by
  have hlength : (n.elements.filter fun o => o.key = e.key).length = 1 := by
    rw [← hcount, List.count_eq_countP, List.countP_map, List.countP_eq_length_filter]
    congr 1
  obtain ⟨o, ho⟩ := List.length_eq_one_iff.mp hlength
  have hmem : e ∈ n.elements.filter fun o => o.key = e.key :=
    List.mem_filter.mpr ⟨he, by simp⟩
  rw [ho, List.mem_singleton] at hmem
  subst hmem
  rw [stylesUnder, ho]
  cases hstyle : e.style <;> simp [hstyle]

/-- **An element with a key of its own is reached by its own style**, and by none if it has none. -/
theorem styleAt_of_stylesApart (hi : (n.compiled slots)[i]? = some e) (h : n.StylesApart e) :
    n.styleAt slots i e = e.style := by
  unfold styleAt
  split
  · rfl
  rcases h with hblank | hcount | hnone
  · contradiction
  · rw [if_neg (notMem_later_of_count hi hcount)]
    exact stylesUnder_of_count (mem_elements_of_compiled hi) hcount
  · have hstyles : n.stylesUnder e.key = [] := by
      refine List.filter_eq_nil_iff.mpr fun style hstyle => ?_
      obtain ⟨o, ho, rfl⟩ := List.mem_map.mp hstyle
      obtain ⟨ho, hkey⟩ := List.mem_filter.mp ho
      simp [hnone o ho (by simpa using hkey)]
    rw [hstyles, hnone e (mem_elements_of_compiled hi) rfl]
    split <;> rfl

end Node

/-- The elements that are styled under a key have the styles under it. -/
theorem Draft.map_style_styled (d : Draft) {key : String} (hkey : key ≠ "") :
    (d.styled.filter fun e => e.key = key).map (·.style) = d.component.node.stylesUnder key := by
  have hstyled : (d.styled.filter fun e => e.key = key) =
      (d.component.node.elements.filter fun e => e.key = key).filter
        fun e => !e.style.isEmpty := by
    rw [styled, List.filter_filter, List.filter_filter]
    refine List.filter_congr fun e _ => ?_
    by_cases heq : e.key = key
    · simp [heq, hkey]
    · simp [heq]
  rw [hstyled, Node.stylesUnder, List.filter_map]
  rfl

namespace Places

variable {options : CompileOptions} {w : Workspace} {d : Draft}
  {places : List (ElementId × Element Node)} {id : ElementId}

/-- **On a tree with keys the last style that is set on an element is the one that reaches it.** -/
theorem lastStyle_eq {slots : SlotHandling} (h : Places options w d.workspace places)
    (hlookup : w.lookup = []) (hmap : places.map (·.2) = d.component.node.compiled slots) {i : Nat}
    {e : Element Node} (hi : places[i]? = some (id, e)) (hkey : e.key ≠ "") :
    d.lastStyle d.styled id = d.component.node.styleAt slots i e := by
  have hkeys : (places.drop (i + 1)).map (·.2.key) =
      ((d.component.node.compiled slots).drop (i + 1)).map (·.key) := by
    rw [← hmap, ← List.map_drop, List.map_map]
    rfl
  have hfound : ∀ o ∈ d.styled, d.workspace.lookup.get? o.key = some id ↔
      e.key = o.key ∧ o.key ∉ ((d.component.node.compiled slots).drop (i + 1)).map (·.key) := by
    intro o ho
    rw [← hkeys]
    exact h.get?_lookup_iff hlookup hi (Draft.ne_empty_of_mem_styled ho).2
  unfold Draft.lastStyle Node.styleAt
  rw [if_neg hkey]
  split
  · next hlater =>
    have hnone : (d.styled.filter fun o => d.workspace.lookup.get? o.key = some id) = [] := by
      refine List.filter_eq_nil_iff.mpr fun o ho hlast => ?_
      obtain ⟨hsame, hlast⟩ := (hfound o ho).mp (by simpa using hlast)
      exact hlast (hsame ▸ hlater)
    rw [hnone]
    rfl
  · next hlast =>
    have hsame : (d.styled.filter fun o => d.workspace.lookup.get? o.key = some id) =
        d.styled.filter fun o => o.key = e.key := by
      refine List.filter_congr fun o ho => ?_
      rw [decide_eq_decide, hfound o ho]
      exact ⟨fun h => h.1.symm, fun h => ⟨h.symm, h ▸ hlast⟩⟩
    rw [hsame, Draft.map_style_styled d hkey]

/-- No style is set at any other position. -/
theorem lastStyle_of_notMem (h : Places options w d.workspace places) (hlookup : w.lookup = [])
    (hid : id ∉ places.map (·.1)) : d.lastStyle d.styled id = [] := by
  have hnone : (d.styled.filter fun o => d.workspace.lookup.get? o.key = some id) = [] := by
    refine List.filter_eq_nil_iff.mpr fun o ho hfound => hid ?_
    rw [decide_eq_true_eq, h.get?_lookup hlookup (Draft.ne_empty_of_mem_styled ho).2] at hfound
    obtain ⟨place, hplace, rfl⟩ := Option.map_eq_some_iff.mp hfound
    exact List.mem_map_of_mem (List.mem_of_mem_filter (List.mem_of_getLast? hplace))
  rw [Draft.lastStyle, hnone]
  rfl

end Places

/-! ## Trees before and after keys are given out -/

section Rekeyed

variable {used : List String} {es es' : List (Element Node)} {key : String}

theorem mem_keys_iff_of_rekeyed (h : List.Forall₂ (Element.Rekeyed used) es es') (hne : key ≠ "")
    (hkey : key ∈ used) : key ∈ es'.map (·.key) ↔ key ∈ es.map (·.key) := by
  rw [← List.count_pos_iff, count_key_of_rekeyed h hne hkey, List.count_pos_iff]

theorem styles_eq_of_rekeyed (h : List.Forall₂ (Element.Rekeyed used) es es') (hne : key ≠ "")
    (hkey : key ∈ used) :
    (es'.filter fun e => e.key = key).map (·.style) =
      (es.filter fun e => e.key = key).map (·.style) := by
  induction h with
  | nil => rfl
  | @cons e e' es es' he _ ih =>
      have hsame := he.key_eq_iff hne hkey
      by_cases heq : e.key = key
      · rw [List.filter_cons_of_pos (by simpa using hsame.mpr heq),
          List.filter_cons_of_pos (by simpa using heq), List.map_cons, List.map_cons, he.style_eq,
          ih]
      · rw [List.filter_cons_of_neg (by simpa using fun h => heq (hsame.mp h)),
          List.filter_cons_of_neg (by simpa using heq), ih]

end Rekeyed

theorem rel_of_getElem? {α β : Type} {R : α → β → Prop} {l : List α} {l' : List β}
    (h : List.Forall₂ R l l') {i : Nat} {x : α} {y : β} (hx : l[i]? = some x)
    (hy : l'[i]? = some y) : R x y := by
  obtain ⟨hlt, rfl⟩ := List.getElem?_eq_some_iff.mp hx
  obtain ⟨hlt', rfl⟩ := List.getElem?_eq_some_iff.mp hy
  exact (List.forall₂_iff_get.mp h).2 i hlt hlt'

/-- **Keys that are given out do not change which style reaches an element.** -/
theorem Node.styleAt_withKeys {slots : SlotHandling} {n : Node} {i : Nat} {e e' : Element Node}
    (hi : (n.compiled slots)[i]? = some e) (hi' : (n.withKeys.compiled slots)[i]? = some e') :
    n.withKeys.styleAt slots i e' = n.styleAt slots i e := by
  have hcompiled := forall₂_compiled_withKeys slots n
  obtain ⟨used, hkeyed⟩ := n.exists_keyed_withKeys
  have he := rel_of_getElem? hcompiled hi hi'
  by_cases hblank : e.key = ""
  · have hown := count_key_of_blank (mem_elements_of_compiled hi') (he.key_of_blank hblank).2
    rw [styleAt_of_stylesApart hi' (.inr (.inl hown)), styleAt_of_stylesApart hi (.inl hblank),
      he.style_eq]
  · have hgiven := mem_givenKeys (mem_elements_of_compiled hi) hblank
    have hlater := mem_keys_iff_of_rekeyed (List.forall₂_drop (i + 1) hcompiled) hblank hgiven
    have hstyles : n.withKeys.stylesUnder e.key = n.stylesUnder e.key := by
      rw [stylesUnder, styles_eq_of_rekeyed hkeyed.forall₂ hblank hgiven, stylesUnder]
    unfold styleAt
    rw [he.key_of_given hblank, if_neg hblank, if_neg hblank, hstyles]
    simp only [hlater]

/-! ## Function components -/

theorem Draft.component_addComponent (d : Draft) (body : List Statement) :
    (d.addComponent body).component = d.component := by
  have htokens : d.addTokens.component = d.component := by
    rw [addTokens]
    split <;> rfl
  exact htokens

theorem Draft.arena_putImports (d : Draft) (name : String) (kind : DependencyKind)
    (after : List String) : (d.putImports name kind after).arena = d.arena := by
  unfold putImports
  split <;> rfl

/-- A component that is declared has a place for each element that is compiled. -/
theorem exists_places_functionComponentPass {framework : Framework} {options : CompileOptions}
    (hinject : options.InjectsAfter) {d d' : Draft}
    (hrun : (functionComponentPass framework options).run d = .ok d') :
    d'.component = d.component ∧ ∃ imports places,
      places.map (·.2) = d.component.node.compiled options.slots ∧
        Places options { d.workspace with imports } d'.workspace places := by
  obtain ⟨runtime, hruntime⟩ := Draft.exists_runtime_of_declareComponent hrun
  obtain ⟨imports, body, w, -, hbody, rfl⟩ := (Draft.declareComponent_iff hruntime).mp hrun
  obtain ⟨useState, registered, hyields⟩ := yields_functionBody_iff runtime options d.component
    { d.workspace with imports }
  obtain ⟨root, hroot, -⟩ := (hyields body w).mp hbody
  obtain ⟨places, hmap, hplaces⟩ := exists_places_node hinject d.component.node hroot
  refine ⟨Draft.component_addComponent _ _, registered, places, hmap, ?_⟩
  rw [Draft.workspace_addComponent]
  exact hplaces

/-- The passes after the styles leave the elements as they are. -/
theorem exists_styled_of_runPasses {o : GeneratorOptions} {later : List Pass}
    (hlater : later = [o.stylePass] ∨ later = [o.stylePass, propTypesPass]) {d d' : Draft}
    (hrun : runPasses (later ++ [importPass]) d = .ok d') :
    ∃ styled, o.stylePass.run d = .ok styled ∧ d'.arena = styled.arena := by
  obtain ⟨rest, hrest, hpasses⟩ : ∃ rest, (∀ p ∈ rest, p = propTypesPass ∨ p = importPass) ∧
      later ++ [importPass] = o.stylePass :: rest := by
    rcases hlater with rfl | rfl
    · exact ⟨[importPass], by simp, rfl⟩
    · exact ⟨[propTypesPass, importPass], by simp, rfl⟩
  rw [hpasses] at hrun
  obtain ⟨styled, hstyled, hrun⟩ := runPasses_cons_iff.mp hrun
  have hkeeps : ∀ p ∈ rest, ∀ e e', e.arena = styled.arena → p.run e = .ok e' →
      e'.arena = styled.arena := by
    intro p hp e e' he hrun
    rcases hrest p hp with rfl | rfl
    · obtain rfl := Except.ok.inj hrun
      rw [← he]
      unfold Draft.declareProps
      split <;> rfl
    · obtain rfl := Except.ok.inj hrun
      rw [Draft.arena_putImports, Draft.arena_putImports, Draft.arena_putImports, he]
  obtain ⟨applied, chunks, happlied, -, rfl⟩ := exists_orderChunks_of_runPasses hkeeps rfl hrun
  exact ⟨styled, hstyled, happlied⟩

/-- **Every compiled element of a component has the style that reaches it.**  The component is
declared, and from then on each element keeps its position and everything but its style attribute.
What is at other positions stays as it is.  The style that reaches an element is its own, unless the
document gives its key to other elements too and there are styles under it. -/
theorem inline_styles_follow_keys (o : GeneratorOptions) (hframework : o.framework ≠ .vue)
    (hplace : o.stylePlace = .inlineStyles) (c : Component) {r : CompiledComponent}
    (h : (Generator.ofOptions o).generate c = .ok r) :
    ∃ (declared d : Draft) (ids : List ElementId),
      (functionComponentPass o.framework o.compileOptions).run
        { component := { c with node := c.node.withKeys }
          fileName := o.fileName.getD (kebabName c.name) } = .ok declared ∧
      runPasses o.passes
        { component := c, fileName := o.fileName.getD (kebabName c.name) } = .ok d ∧
      r = ⟨(Generator.ofOptions o).emit d, d.imports⟩ ∧
      ids.length = (c.node.compiled o.slots).length ∧ ids.Pairwise (· < ·) ∧
      (∀ id, id ∉ ids → d.arena.get? id = declared.arena.get? id) ∧
      ∀ i e id, (c.node.compiled o.slots)[i]? = some e → ids[i]? = some id →
        (∃ m m', declared.arena.get? id = some m ∧ o.compileOptions.Shows e id m ∧
          d.arena.get? id = some m' ∧
          o.compileOptions.Styled (c.node.styleAt o.slots i e) m m') ∧
        (c.node.StylesApart e → c.node.styleAt o.slots i e = e.style) := by
  obtain ⟨d, hrun, rfl⟩ := Generator.exists_runPasses_of_generate h
  obtain ⟨later, declared, hlater, -, hdeclared, hlast⟩ :=
    exists_declared_of_runPasses hframework hrun
  obtain ⟨styled, hstyled, harena⟩ := exists_styled_of_runPasses hlater hlast
  rw [GeneratorOptions.stylePass, hplace] at hstyled
  obtain ⟨hcomponent, imports, places, hmap, hplaces⟩ :=
    exists_places_functionComponentPass o.injectsAfter_compileOptions hdeclared
  have hset : ∀ id, Option.Rel (o.compileOptions.Styled (declared.lastStyle declared.styled id))
      (declared.arena.get? id) (d.arena.get? id) := by
    rw [harena]
    exact Draft.rel_setStyles (fun e he => (Draft.ne_empty_of_mem_styled he).1) hstyled
  have hrekeyed := forall₂_compiled_withKeys o.slots c.node
  refine ⟨declared, d, places.map (·.1), hdeclared, hrun, rfl, ?_, ?_, ?_, ?_⟩
  · have hlength := congrArg List.length hmap
    rw [List.length_map] at hlength ⊢
    rw [hlength]
    exact hrekeyed.length_eq.symm
  · exact List.pairwise_map.mpr hplaces.sorted
  · intro id hid
    have hsame := hset id
    rw [hplaces.lastStyle_of_notMem rfl hid] at hsame
    generalize declared.arena.get? id = before, d.arena.get? id = after at hsame ⊢
    cases hsame with
    | none => rfl
    | some hm => rw [hm.eq_of_nil]
  · intro i e id hi hid
    refine ⟨?_, Node.styleAt_of_stylesApart hi⟩
    rw [List.getElem?_map] at hid
    obtain ⟨⟨id, e'⟩, hplace, rfl⟩ := Option.map_eq_some_iff.mp hid
    have hi' : (c.node.withKeys.compiled o.slots)[i]? = some e' := by
      have hcompiled : places.map (·.2) = c.node.withKeys.compiled o.slots := hmap
      rw [← hcompiled, List.getElem?_map, hplace]
      rfl
    have he := rel_of_getElem? hrekeyed hi hi'
    obtain ⟨m, hm, hshows⟩ := hplaces.shown _ (List.mem_of_getElem? hplace)
    have hlast : declared.lastStyle declared.styled id = c.node.styleAt o.slots i e := by
      rw [hplaces.lastStyle_eq rfl (hcomponent ▸ hmap) hplace he.key_ne_empty, hcomponent]
      exact Node.styleAt_withKeys hi hi'
    have hm' := hset id
    rw [hlast, show declared.arena.get? id = some m from hm] at hm'
    generalize d.arena.get? id = after at hm' ⊢
    cases hm' with
    | some hm' => exact ⟨m, _, hm, hshows.of_rekeyed he, rfl, hm'⟩

/-- A legend with styles in all places: on the root, on a title, on a title that is shown if it is
given, on each of its entries, and on the fallback of a slot.  The first title has the key that an
entry would be given.  Two marks share a key, and have no style. -/
def legend : Component where
  name := "Legend"
  props := [("title", { type := .string }), ("color", { type := .string })]
  node := .element {
    tag := "div"
    style := [("padding", .static (.number 4)), ("border-color", .dynamic ⟨"color", .prop⟩)]
    children := [
      .element { tag := "h2", key := "li1", style := [("color", .static (.text "red"))] },
      .conditional {
        node := .element { tag := "h2", style := [("color", .dynamic ⟨"color", .prop⟩)] }
        subject := ⟨"title", .prop⟩ },
      .loop {
        template := {
          tag := "li"
          style := [("margin", .static (.number 0))]
          children := [.element { tag := "b", key := "mark" },
            .element { tag := "b", key := "mark" }] }
        source := .inline [.text "x", .text "y"] },
      .slot { fallback := some (.element {
        tag := "i"
        style := [("color", .static (.text "grey"))] }) }] }

/-- Options for the legend, with which the fallback is compiled. -/
def legendOptions : GeneratorOptions where
  slots := .fallbackWhenEmpty

/-- Every element of the legend has its own style. -/
theorem legend_styled_apart :
    ∃ (declared d : Draft) (ids : List ElementId),
      (Generator.ofOptions legendOptions).generate legend =
        .ok ⟨(Generator.ofOptions legendOptions).emit d, d.imports⟩ ∧
      ids.length = 7 ∧
      ∀ (i : Nat) e id,
        (legend.node.compiled legendOptions.slots)[i]? = some e → ids[i]? = some id →
        ∃ m m', declared.arena.get? id = some m ∧ d.arena.get? id = some m' ∧
          legendOptions.compileOptions.Shows e id m ∧
          legendOptions.compileOptions.Styled e.style m m' := by
  have hvalidate : legend.validate = .ok () := rfl
  have hresolve : legend.resolve = .ok () := rfl
  have hapart : ∀ e ∈ legend.node.compiled legendOptions.slots, legend.node.StylesApart e := by
    decide
  obtain ⟨r, hgenerate⟩ : ∃ r, (Generator.ofOptions legendOptions).generate legend = .ok r := by
    rcases Generator.generate_cases legendOptions legend with
      ⟨x, hx, -⟩ | ⟨x, -, hx, -⟩ | ⟨-, -, hr⟩
    · exact absurd (hvalidate.symm.trans hx) (by simp)
    · exact absurd (hresolve.symm.trans hx) (by simp)
    · exact hr
  obtain ⟨declared, d, ids, -, -, hr, hlength, -, -, hids⟩ :=
    inline_styles_follow_keys legendOptions (by decide) rfl legend hgenerate
  refine ⟨declared, d, ids, hr ▸ hgenerate, hlength, fun i e id hi hid => ?_⟩
  obtain ⟨⟨m, m', hm, hshows, hm', hstyled⟩, hown⟩ := hids i e id hi hid
  rw [hown (hapart e (List.mem_of_getElem? hi))] at hstyled
  exact ⟨m, m', hm, hm', hshows, hstyled⟩

/-- A warning of two elements with one key, the first of which has a style. -/
def warning : Component where
  name := "Warning"
  node := .element {
    tag := "div"
    children := [
      .element { tag := "p", key := "text", style := [("color", .static (.text "red"))] },
      .element { tag := "em", key := "text" }] }

/-- The second element of the warning is found under the key of both, so the style of the first one
is set on it. -/
theorem warning_styles_other_element :
    ∃ d, (Generator.ofOptions {}).generate warning =
        .ok ⟨(Generator.ofOptions {}).emit d, d.imports⟩ ∧
      runPasses ({} : GeneratorOptions).passes
        { component := warning, fileName := "warning" } = .ok d ∧
      (warning.node.compiled .forwardChildren).map
          (fun e : Element Node => (e.tag, e.style.length)) =
        [("p", 1), ("em", 0), ("div", 0)] ∧
      (d.arena.get? 0).map (fun m => (m.name, m.attributes.keys)) = some ("p", []) ∧
      (d.arena.get? 1).map (fun m => (m.name, m.attributes.keys)) = some ("em", ["style"]) :=
  ⟨_, rfl, rfl, rfl, rfl, rfl⟩

end ViewGen
