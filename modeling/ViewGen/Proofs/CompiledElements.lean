import Mathlib.Data.List.Perm.Subperm
import ViewGen.Proofs.KeyAssignment
import ViewGen.Proofs.MarkupTags

/-!
# Where elements are compiled to

An element is added to the arena after everything inside it, and its position is recorded under its
key.  So the elements that are compiled come in an order of their own, which is not that of the
document, and of several elements with one key the one that comes last in it is found.

## Main definitions

* `Node.compiled` — the elements that are compiled, each after those inside it
* `CompileOptions.Shows` — a markup element is what an element is compiled to
* `CompileOptions.CompiledBetween` — an element was compiled on the way from one workspace to another
* `Places` — the positions of elements that were compiled one after the other
* `Recorded` — the positions that were recorded for elements, one after the other

## Main statements

* `exists_recorded_node` — a compilation records each element that is compiled
* `exists_places_node` — a compilation has a place for each element that is compiled
* `get?_foldl_record` — the last element with a key is found under it
* `subperm_compiled` — every element is compiled once at most
* `yields_of_assignKeys_node` — keys do not matter to anything but the lookup

## Design notes

An element that is repeated gets a key for its items once it is compiled, so it is shown either as
it was added or with that one attribute more.
-/

namespace ViewGen

open Compile (Yields)

/-! ## The elements that are compiled -/

mutual

/-- The elements of a tree that are compiled, each after the elements inside it.  The fallback of a
slot is compiled if it can be shown. -/
def Node.compiled (slots : SlotHandling) : Node → List (Element Node)
  | .element e => compiledOf slots e
  | .loop ⟨e, _, _⟩ => compiledOf slots e
  | .conditional ⟨n, _, _, _⟩ => Node.compiled slots n
  | .slot ⟨_, some n⟩ => if slots = .fallbackWhenEmpty then Node.compiled slots n else []
  | .slot ⟨_, none⟩ => []
  | .static _ | .dynamic _ | .raw _ => []

/-- The elements inside an element that are compiled, and then the element. -/
def compiledOf (slots : SlotHandling) : Element Node → List (Element Node)
  | ⟨tag, name, key, selfClosing, attrs, events, style, children, dependency⟩ =>
    compiledOfAttrs slots attrs ++ compiledOfAll slots children ++
      [⟨tag, name, key, selfClosing, attrs, events, style, children, dependency⟩]

/-- The elements inside attributes that are compiled. -/
def compiledOfAttrs (slots : SlotHandling) : List (String × Attribute Node) → List (Element Node)
  | [] => []
  | (_, .slot n) :: rest => Node.compiled slots n ++ compiledOfAttrs slots rest
  | (_, .static _) :: rest => compiledOfAttrs slots rest
  | (_, .dynamic _) :: rest => compiledOfAttrs slots rest
  | (_, .imported _) :: rest => compiledOfAttrs slots rest

/-- The elements inside nodes that are compiled. -/
def compiledOfAll (slots : SlotHandling) : List Node → List (Element Node)
  | [] => []
  | n :: rest => Node.compiled slots n ++ compiledOfAll slots rest

end

section Subperm

variable {slots : SlotHandling}

mutual

/-- **Every element is compiled once at most.** -/
theorem subperm_compiled : ∀ n : Node, (n.compiled slots).Subperm n.elements
  | .static _ => .refl _
  | .dynamic _ => .refl _
  | .raw _ => .refl _
  | .element e => subperm_compiledOf e
  | .loop ⟨template, _, _⟩ => subperm_compiledOf template
  | .conditional ⟨node, _, _, _⟩ => subperm_compiled node
  | .slot ⟨_, none⟩ => .refl _
  | .slot ⟨_, some fallback⟩ => by
      rw [Node.compiled, Node.elements]
      split
      · exact subperm_compiled fallback
      · exact List.nil_subperm

theorem subperm_compiledOf : ∀ e : Element Node, (compiledOf slots e).Subperm (Node.elementsOf e)
  | ⟨tag, name, key, selfClosing, attrs, events, style, children, dependency⟩ => by
      have hinside := (subperm_compiledOfAttrs attrs).append (subperm_compiledOfAll children)
      rw [compiledOf, Node.elementsOf]
      exact (List.perm_append_singleton _ _).subperm.trans ((List.subperm_cons _).mpr hinside)

theorem subperm_compiledOfAttrs : ∀ attrs : List (String × Attribute Node),
    (compiledOfAttrs slots attrs).Subperm (Node.elementsOfAttrs attrs)
  | [] => .refl _
  | (_, .static _) :: rest => subperm_compiledOfAttrs rest
  | (_, .dynamic _) :: rest => subperm_compiledOfAttrs rest
  | (_, .imported _) :: rest => subperm_compiledOfAttrs rest
  | (_, .slot content) :: rest => (subperm_compiled content).append (subperm_compiledOfAttrs rest)

theorem subperm_compiledOfAll : ∀ ns : List Node,
    (compiledOfAll slots ns).Subperm (Node.elementsOfAll ns)
  | [] => .refl _
  | n :: rest => (subperm_compiled n).append (subperm_compiledOfAll rest)

end

end Subperm

/-! ## Places -/

/-- Record an element under its key, if it has one. -/
def record (lookup : Dict ElementId) (place : ElementId × Element Node) : Dict ElementId :=
  if place.2.key.isEmpty then lookup else lookup.insert place.2.key place.1

/-- **The last element with a key is found under it**, and what was found before if there is
none. -/
theorem get?_foldl_record (places : List (ElementId × Element Node)) (lookup : Dict ElementId)
    {key : String} (hkey : key ≠ "") : (places.foldl record lookup).get? key =
      ((places.filter fun place => place.2.key = key).getLast?.map (·.1)).or (lookup.get? key) := by
  induction places generalizing lookup with
  | nil => rfl
  | cons place rest ih =>
      have hstep : (record lookup place).get? key =
          if place.2.key = key then some place.1 else lookup.get? key := by
        unfold record
        split
        · next hempty =>
          have hother : place.2.key ≠ key := by
            rw [String.isEmpty_iff.mp hempty]
            exact Ne.symm hkey
          rw [if_neg hother]
        · exact Dict.get?_insert lookup place.2.key place.1 key
      rw [List.foldl_cons, ih, hstep]
      by_cases hplace : place.2.key = key
      · rw [if_pos hplace, List.filter_cons_of_pos (by simpa using hplace), List.getLast?_cons]
        cases (rest.filter fun place => place.2.key = key).getLast? <;> rfl
      · rw [if_neg hplace, List.filter_cons_of_neg (by simpa using hplace)]

/-- A markup element is what an element is compiled to at a position, in some workspace; the key of
an item may have been set on it. -/
def CompileOptions.Shows (options : CompileOptions) (e : Element Node) (id : ElementId)
    (m : Markup) : Prop :=
  ∃ w w' added, Yields (compileElement options e) w id w' ∧ w'.arena.get? id = some added ∧
    (m = added ∨ ∃ key, m = added.set "key" (.expr key))

/-- Raw markup is turned into something by adding elements to the arena alone. -/
def CompileOptions.AddsMarkup (options : CompileOptions) : Prop :=
  ∀ turn, options.injectMarkup = some turn → ∀ markup a, Arena.Extends a (turn markup a).2

theorem CompileOptions.InjectsAfter.addsMarkup {options : CompileOptions}
    (h : options.InjectsAfter) : options.AddsMarkup :=
  fun turn hturn markup a => (h turn hturn markup a).1.keeps

/-- Between two workspaces an element was compiled and given a position.  In the second workspace it
is still there as it was compiled, or with the key of an item set on it. -/
def CompileOptions.CompiledBetween (options : CompileOptions) (w w' : Workspace)
    (place : ElementId × Element Node) : Prop :=
  ∃ v v' added, w.Keeps v ∧ Yields (compileElement options place.2) v place.1 v' ∧ v'.Keeps w' ∧
    v'.arena.get? place.1 = some added ∧
    (w'.arena.get? place.1 = some added ∨
      ∃ key, w'.arena.get? place.1 = some (added.set "key" (.expr key)))

namespace CompileOptions.CompiledBetween

variable {options : CompileOptions} {w w' w'' : Workspace} {place : ElementId × Element Node}

theorem of_later_start (h : options.CompiledBetween w' w'' place) (hkeeps : w.Keeps w') :
    options.CompiledBetween w w'' place := by
  obtain ⟨v, v', added, hv, hyields, hv', hadded, hplace⟩ := h
  exact ⟨v, v', added, hkeeps.trans hv, hyields, hv', hadded, hplace⟩

/-- What is compiled later leaves the element as it is. -/
theorem of_earlier_end (h : options.CompiledBetween w w' place) (hkeeps : w'.Keeps w'')
    (hsame : w''.arena.get? place.1 = w'.arena.get? place.1) :
    options.CompiledBetween w w'' place := by
  obtain ⟨v, v', added, hv, hyields, hv', hadded, hplace⟩ := h
  rw [← hsame] at hplace
  exact ⟨v, v', added, hv, hyields, hv'.trans hkeeps, hadded, hplace⟩

theorem exists_get? (h : options.CompiledBetween w w' place) :
    ∃ m, w'.arena.get? place.1 = some m ∧ options.Shows place.2 place.1 m := by
  obtain ⟨v, v', added, -, hyields, -, hadded, hplace | ⟨key, hplace⟩⟩ := h
  · exact ⟨added, hplace, v, v', added, hyields, hadded, .inl rfl⟩
  · exact ⟨added.set "key" (.expr key), hplace, v, v', added, hyields, hadded, .inr ⟨key, rfl⟩⟩

end CompileOptions.CompiledBetween

/-- Elements were compiled one after the other, at these positions. -/
structure Places (options : CompileOptions) (w w' : Workspace)
    (places : List (ElementId × Element Node)) : Prop where
  imports : w.imports.Grows w'.imports
  keeps : w.arena.Extends w'.arena
  sorted : places.Pairwise fun place later => place.1 < later.1
  within : ∀ place ∈ places, w.arena.size ≤ place.1 ∧ place.1 < w'.arena.size
  lookup : w'.lookup = places.foldl record w.lookup
  compiled : ∀ place ∈ places, options.CompiledBetween w w' place

namespace Places

variable {options : CompileOptions} {w w' w'' : Workspace}
  {places others : List (ElementId × Element Node)}

theorem workspace_keeps (h : Places options w w' places) : w.Keeps w' :=
  ⟨h.imports, h.keeps.keeps⟩

theorem shown (h : Places options w w' places) :
    ∀ place ∈ places, ∃ m, w'.arena.get? place.1 = some m ∧ options.Shows place.2 place.1 m :=
  fun place hplace => (h.compiled place hplace).exists_get?

/-- Nothing was compiled. -/
theorem none (himports : w.imports.Grows w'.imports) (harena : w.arena.Extends w'.arena)
    (hlookup : w'.lookup = w.lookup) : Places options w w' [] :=
  ⟨himports, harena, .nil, fun _ h => absurd h List.not_mem_nil, hlookup,
    fun _ h => absurd h List.not_mem_nil⟩

theorem trans (h : Places options w w' places) (h' : Places options w' w'' others) :
    Places options w w'' (places ++ others) where
  imports := h.imports.trans h'.imports
  keeps := h.keeps.trans h'.keeps
  sorted := by
    refine List.pairwise_append.mpr ⟨h.sorted, h'.sorted, fun place hplace later hlater => ?_⟩
    exact Nat.lt_of_lt_of_le (h.within place hplace).2 (h'.within later hlater).1
  within := by
    intro place hplace
    rcases List.mem_append.mp hplace with hplace | hplace
    · obtain ⟨hle, hlt⟩ := h.within place hplace
      exact ⟨hle, Nat.lt_of_lt_of_le hlt h'.keeps.size_le⟩
    · obtain ⟨hle, hlt⟩ := h'.within place hplace
      exact ⟨Nat.le_trans h.keeps.size_le hle, hlt⟩
  lookup := by rw [h'.lookup, h.lookup, List.foldl_append]
  compiled := by
    intro place hplace
    rcases List.mem_append.mp hplace with hplace | hplace
    · obtain ⟨m, hm, -⟩ := h.shown place hplace
      exact (h.compiled place hplace).of_earlier_end h'.workspace_keeps (by rw [hm, h'.keeps hm])
    · exact (h'.compiled place hplace).of_later_start h.workspace_keeps

/-- An element is added after what is inside it, and recorded. -/
theorem add {e : Element Node} {m : Markup} {key : String} (h : Places options w w' places)
    (hkey : e.key = key)
    (hyields : Yields (compileElement options e) w w'.arena.size (w'.add key m)) :
    Places options w (w'.add key m) (places ++ [(w'.arena.size, e)]) where
  imports := h.imports
  keeps := h.keeps.trans (w'.arena.extends_push m)
  sorted := by
    refine List.pairwise_append.mpr ⟨h.sorted, List.pairwise_singleton _ _, ?_⟩
    intro place hplace later hlater
    rw [List.mem_singleton.mp hlater]
    exact (h.within place hplace).2
  within := by
    have hsize : (w'.add key m).arena.size = w'.arena.size + 1 := w'.arena.size_push m
    rw [hsize]
    intro place hplace
    rcases List.mem_append.mp hplace with hplace | hplace
    · exact ⟨(h.within place hplace).1, Nat.lt_succ_of_lt (h.within place hplace).2⟩
    · rw [List.mem_singleton.mp hplace]
      exact ⟨h.keeps.size_le, Nat.lt_succ_self _⟩
  lookup := by
    subst hkey
    rw [List.foldl_append, ← h.lookup]
    rfl
  compiled := by
    intro place hplace
    rcases List.mem_append.mp hplace with hplace | hplace
    · obtain ⟨inside, hinside, -⟩ := h.shown place hplace
      refine (h.compiled place hplace).of_earlier_end (keeps_add w' key m) ?_
      rw [hinside]
      exact w'.arena.extends_push m hinside
    · rw [List.mem_singleton.mp hplace]
      exact ⟨w, _, m, .refl w, hyields, .refl _, w'.arena.get?_push_self m,
        .inl (w'.arena.get?_push_self m)⟩

/-- The key of an item is set on the element that was compiled last. -/
theorem setKey {e : Element Node} {id : ElementId} (h : Places options w w' (places ++ [(id, e)]))
    (hyields : Yields (compileElement options e) w id w') (key : Expr) :
    Places options w { w' with arena := w'.arena.set id "key" (.expr key) }
      (places ++ [(id, e)]) where
  imports := h.imports
  keeps := h.keeps.set (h.within (id, e) (by simp)).1 _ _
  sorted := h.sorted
  within := by
    intro place hplace
    rw [Arena.size_set]
    exact h.within place hplace
  lookup := h.lookup
  compiled := by
    intro place hplace
    have hset : w'.Keeps { w' with arena := w'.arena.set id "key" (.expr key) } :=
      ⟨.refl _, w'.arena.keeps_set id _ _⟩
    rcases List.mem_append.mp hplace with hbefore | hlast
    · have hlt : place.1 < id :=
        (List.pairwise_append.mp h.sorted).2.2 place hbefore (id, e) (by simp)
      refine (h.compiled place hplace).of_earlier_end hset ?_
      rw [Arena.get?_set, if_neg (Nat.ne_of_gt hlt)]
    · obtain ⟨m, hm, -⟩ := h.shown place hplace
      rw [List.mem_singleton] at hlast
      subst hlast
      refine ⟨w, w', m, .refl w, hyields, hset, hm, .inr ⟨key, ?_⟩⟩
      rw [Arena.get?_set, if_pos rfl, hm]
      rfl

end Places

/-- Elements were recorded one after the other.  If raw markup is only ever added, they were compiled
at the positions that were recorded. -/
structure Recorded (options : CompileOptions) (w w' : Workspace)
    (places : List (ElementId × Element Node)) : Prop where
  lookup : w'.lookup = places.foldl record w.lookup
  places : options.AddsMarkup → Places options w w' places

namespace Recorded

variable {options : CompileOptions} {w w' w'' : Workspace}
  {places others : List (ElementId × Element Node)}

theorem refl (w : Workspace) : Recorded options w w [] :=
  ⟨rfl, fun _ => .none (.refl _) (.refl _) rfl⟩

theorem trans (h : Recorded options w w' places) (h' : Recorded options w' w'' others) :
    Recorded options w w'' (places ++ others) :=
  ⟨by rw [h'.lookup, h.lookup, List.foldl_append],
    fun hadds => (h.places hadds).trans (h'.places hadds)⟩

theorem add {e : Element Node} {m : Markup} {key : String} (h : Recorded options w w' places)
    (hkey : e.key = key)
    (hyields : Yields (compileElement options e) w w'.arena.size (w'.add key m)) :
    Recorded options w (w'.add key m) (places ++ [(w'.arena.size, e)]) where
  lookup := by
    subst hkey
    rw [List.foldl_append, ← h.lookup]
    rfl
  places hadds := (h.places hadds).add hkey hyields

theorem setKey {e : Element Node} {id : ElementId}
    (h : Recorded options w w' (places ++ [(id, e)]))
    (hyields : Yields (compileElement options e) w id w') (key : Expr) :
    Recorded options w { w' with arena := w'.arena.set id "key" (.expr key) }
      (places ++ [(id, e)]) :=
  ⟨h.lookup, fun hadds => (h.places hadds).setKey hyields key⟩

/-- Fixing a tag records nothing. -/
theorem tag {name tag : String} {dependency : Option Dependency}
    (h : Yields (Compile.tag options name dependency) w tag w') : Recorded options w w' [] := by
  obtain ⟨harena, hlookup⟩ := arena_tag h
  exact ⟨hlookup, fun _ => .none ((stepsIn_imports options).tag h) (harena ▸ .refl _) hlookup⟩

/-- Neither does turning raw markup into something. -/
theorem inject {markup : String} {t : Target}
    (h : Yields (Compile.inject options markup) w t w') : Recorded options w w' [] := by
  cases hturn : options.injectMarkup with
  | none =>
      rw [Compile.inject, hturn] at h
      obtain ⟨-, rfl⟩ := Compile.yields_pure.mp h
      exact .refl _
  | some turn =>
      obtain ⟨-, rfl⟩ := (Compile.yields_inject hturn).mp h
      exact ⟨rfl, fun hadds => .none (.refl _) (hadds turn hturn markup w.arena) rfl⟩

end Recorded

section Trees

variable {options : CompileOptions}

mutual

/-- **A compilation records each element that is compiled**, in order. -/
theorem exists_recorded_node :
    ∀ (n : Node) {w w' : Workspace} {t : Target}, Yields (compileNode options n) w t w' →
      ∃ places, places.map (·.2) = n.compiled options.slots ∧ Recorded options w w' places
  | .static value, w, w', t, h => by
      obtain ⟨-, rfl⟩ := yields_node_static.mp h
      exact ⟨[], rfl, .refl _⟩
  | .dynamic r, w, w', t, h => by
      obtain ⟨e, -, -, rfl⟩ := yields_node_dynamic.mp h
      exact ⟨[], rfl, .refl _⟩
  | .raw markup, w, w', t, h => ⟨[], rfl, .inject (yields_node_raw.mp h)⟩
  | .element e, w, w', t, h => by
      obtain ⟨id, hid, -⟩ := yields_node_element.mp h
      obtain ⟨inner, hinner, hrecorded⟩ := exists_recorded_element e hid
      exact ⟨_, by simpa [Node.compiled] using hinner, hrecorded⟩
  | .loop ⟨template, source, names⟩, w, w', t, h => by
      obtain ⟨items, id, w₁, key, -, hid, -, rfl, -⟩ := yields_node_loop.mp h
      obtain ⟨inner, hinner, hrecorded⟩ := exists_recorded_element template hid
      exact ⟨_, by simpa [Node.compiled] using hinner, hrecorded.setKey hid key⟩
  | .conditional ⟨node, subject, value, condition⟩, w, w', t, h => by
      obtain ⟨s, inner, -, hinner, -⟩ := yields_node_conditional.mp h
      exact exists_recorded_node node hinner
  | .slot ⟨name, none⟩, w, w', t, h => by
      obtain ⟨forwarded, -, -, rfl⟩ := (yields_node_slot_forward (.inr rfl)).mp h
      exact ⟨[], rfl, .refl _⟩
  | .slot ⟨name, some fallback⟩, w, w', t, h => by
      rw [Node.compiled]
      cases hslots : options.slots with
      | forwardChildren =>
          obtain ⟨forwarded, -, -, rfl⟩ := (yields_node_slot_forward (.inl hslots)).mp h
          exact ⟨[], rfl, .refl _⟩
      | fallbackWhenEmpty =>
          obtain ⟨forwarded, inner, -, hinner, -⟩ := (yields_node_slot_fallback hslots).mp h
          obtain ⟨places, hmap, hrecorded⟩ := exists_recorded_node fallback hinner
          rw [hslots] at hmap
          exact ⟨places, hmap, hrecorded⟩

/-- An element is recorded after the elements inside it. -/
theorem exists_recorded_element :
    ∀ (e : Element Node) {w w' : Workspace} {id : ElementId},
      Yields (compileElement options e) w id w' →
        ∃ inner, (inner ++ [(id, e)]).map (·.2) = compiledOf options.slots e ∧
          Recorded options w w' (inner ++ [(id, e)])
  | ⟨tag, name, key, selfClosing, attrs, events, style, children, dependency⟩, w, w', id, h => by
      obtain ⟨bound, w₁, m, w₂, m', cs, w₃, hbound, hm, hm', hcs, rfl, rfl⟩ := yields_element.mp h
      obtain ⟨before, hbefore, hattrs⟩ := exists_recorded_attrs attrs hm
      obtain ⟨inside, hinside, hchildren⟩ := exists_recorded_children children hcs
      refine ⟨before ++ inside, ?_, ?_⟩
      · rw [compiledOf, List.map_append, List.map_append, hbefore, hinside]
        rfl
      · exact (((Recorded.tag hbound).trans hattrs).trans hchildren).add rfl h

theorem exists_recorded_attrs :
    ∀ (attrs : List (String × Attribute Node)) {m m' : Markup} {w w' : Workspace},
      Yields (compileAttrs options m attrs) w m' w' →
        ∃ places, places.map (·.2) = compiledOfAttrs options.slots attrs ∧
          Recorded options w w' places
  | [], m, m', w, w', h => by
      obtain ⟨-, rfl⟩ := yields_attrs_nil.mp h
      exact ⟨[], rfl, .refl _⟩
  | (name, .static value) :: rest, m, m', w, w', h =>
      exists_recorded_attrs rest (yields_attrs_static.mp h)
  | (name, .dynamic r) :: rest, m, m', w, w', h => by
      obtain ⟨e, -, hrest⟩ := yields_attrs_dynamic.mp h
      exact exists_recorded_attrs rest hrest
  | (name, .imported id) :: rest, m, m', w, w', h =>
      exists_recorded_attrs rest (yields_attrs_imported.mp h)
  | (name, .slot content) :: rest, m, m', w, w', h => by
      obtain ⟨t, w₁, ht, hrest⟩ := yields_attrs_slot.mp h
      obtain ⟨before, hbefore, hcontent⟩ := exists_recorded_node content ht
      obtain ⟨others, hothers, hrecorded⟩ := exists_recorded_attrs rest hrest
      refine ⟨before ++ others, ?_, hcontent.trans hrecorded⟩
      rw [compiledOfAttrs, List.map_append, hbefore, hothers]

theorem exists_recorded_children :
    ∀ (children : List Node) {cs : List MarkupChild} {w w' : Workspace},
      Yields (compileChildren options children) w cs w' →
        ∃ places, places.map (·.2) = compiledOfAll options.slots children ∧
          Recorded options w w' places
  | [], cs, w, w', h => by
      obtain ⟨-, rfl⟩ := yields_children_nil.mp h
      exact ⟨[], rfl, .refl _⟩
  | n :: rest, cs, w, w', h => by
      obtain ⟨t, w₁, others, ht, hothers, -⟩ := yields_children_cons.mp h
      obtain ⟨before, hbefore, hn⟩ := exists_recorded_node n ht
      obtain ⟨later, hlater, hrecorded⟩ := exists_recorded_children rest hothers
      refine ⟨before ++ later, ?_, hn.trans hrecorded⟩
      rw [compiledOfAll, List.map_append, hbefore, hlater]

end

/-- **A compilation has a place for each element that is compiled.** -/
theorem exists_places_node (hinject : options.InjectsAfter) (n : Node) {w w' : Workspace}
    {t : Target} (h : Yields (compileNode options n) w t w') :
    ∃ places, places.map (·.2) = n.compiled options.slots ∧ Places options w w' places := by
  obtain ⟨places, hmap, hrecorded⟩ := exists_recorded_node n h
  exact ⟨places, hmap, hrecorded.places hinject.addsMarkup⟩

end Trees

/-! ## Keys -/

section Keys

variable {options : CompileOptions}

/-- Fixing a tag does not read the lookup. -/
theorem yields_tag_withLookup {name tag : String} {dependency : Option Dependency}
    {w w' : Workspace} (h : Yields (Compile.tag options name dependency) w tag w')
    (lookup : Dict ElementId) :
    Yields (Compile.tag options name dependency) { w with lookup } tag { w' with lookup } := by
  cases dependency with
  | none =>
      obtain ⟨rfl, rfl⟩ := yields_tag_none.mp h
      exact yields_tag_none.mpr ⟨rfl, rfl⟩
  | some d =>
      obtain ⟨bound, hbound, rfl⟩ := yields_tag_some.mp h
      refine yields_tag_some.mpr ⟨bound, ?_, rfl⟩
      split at hbound
      · next hbind =>
        obtain ⟨rfl, rfl⟩ := Compile.yields_register.mp hbound
        rw [if_pos hbind]
        exact Compile.yields_register.mpr ⟨rfl, rfl⟩
      · next hbind =>
        obtain ⟨rfl, rfl⟩ := Compile.yields_pure.mp hbound
        rw [if_neg hbind]
        exact Compile.yields_pure.mpr ⟨rfl, rfl⟩

/-- Neither does turning raw markup into something. -/
theorem yields_inject_withLookup {markup : String} {t : Target} {w w' : Workspace}
    (h : Yields (Compile.inject options markup) w t w') (lookup : Dict ElementId) :
    Yields (Compile.inject options markup) { w with lookup } t { w' with lookup } := by
  cases hturn : options.injectMarkup with
  | none =>
      rw [Compile.inject, hturn] at h ⊢
      obtain ⟨rfl, rfl⟩ := Compile.yields_pure.mp h
      exact Compile.yields_pure.mpr ⟨rfl, rfl⟩
  | some turn =>
      obtain ⟨rfl, rfl⟩ := (Compile.yields_inject hturn).mp h
      exact (Compile.yields_inject hturn).mpr ⟨rfl, rfl⟩

mutual

/-- **Keys do not matter to anything but the lookup.**  What a tree with keys is compiled to is what
the tree is compiled to, with any lookup. -/
theorem yields_of_assignKeys_node : ∀ (n : Node) {supply : KeySupply} {w w' : Workspace}
    {t : Target}, Yields (compileNode options (n.assignKeys.run supply).1) w t w' →
      ∀ lookup, ∃ lookup', Yields (compileNode options n) { w with lookup } t
        { w' with lookup := lookup' }
  | .static value, supply, w, w', t, h, lookup => by
      obtain ⟨rfl, rfl⟩ := yields_node_static.mp h
      exact ⟨lookup, yields_node_static.mpr ⟨rfl, rfl⟩⟩
  | .dynamic r, supply, w, w', t, h, lookup => by
      obtain ⟨e, he, rfl, rfl⟩ := yields_node_dynamic.mp h
      exact ⟨lookup, yields_node_dynamic.mpr ⟨e, he, rfl, rfl⟩⟩
  | .raw markup, supply, w, w', t, h, lookup =>
      ⟨lookup, yields_node_raw.mpr (yields_inject_withLookup (yields_node_raw.mp h) lookup)⟩
  | .element e, supply, w, w', t, h, lookup => by
      obtain ⟨id, hid, rfl⟩ := yields_node_element.mp h
      obtain ⟨lookup', hid'⟩ := yields_of_assignKeys_element e hid lookup
      exact ⟨lookup', yields_node_element.mpr ⟨id, hid', rfl⟩⟩
  | .loop ⟨template, source, names⟩, supply, w, w', t, h, lookup => by
      obtain ⟨items, id, w₁, key, hitems, hid, hkey, rfl, rfl⟩ := yields_node_loop.mp h
      obtain ⟨lookup', hid'⟩ := yields_of_assignKeys_element template hid lookup
      exact ⟨lookup', yields_node_loop.mpr ⟨items, id, _, key, hitems, hid', hkey, rfl, rfl⟩⟩
  | .conditional ⟨node, subject, value, condition⟩, supply, w, w', t, h, lookup => by
      obtain ⟨s, inner, hs, hinner, rfl⟩ := yields_node_conditional.mp h
      obtain ⟨lookup', hinner'⟩ := yields_of_assignKeys_node node hinner lookup
      exact ⟨lookup', yields_node_conditional.mpr ⟨s, inner, hs, hinner', rfl⟩⟩
  | .slot ⟨name, none⟩, supply, w, w', t, h, lookup => by
      obtain ⟨forwarded, hforwarded, rfl, rfl⟩ := (yields_node_slot_forward (.inr rfl)).mp h
      exact ⟨lookup, (yields_node_slot_forward (.inr rfl)).mpr ⟨forwarded, hforwarded, rfl, rfl⟩⟩
  | .slot ⟨name, some fallback⟩, supply, w, w', t, h, lookup => by
      cases hslots : options.slots with
      | forwardChildren =>
          obtain ⟨forwarded, hforwarded, rfl, rfl⟩ :=
            (yields_node_slot_forward (.inl hslots)).mp h
          exact ⟨lookup, (yields_node_slot_forward (.inl hslots)).mpr
            ⟨forwarded, hforwarded, rfl, rfl⟩⟩
      | fallbackWhenEmpty =>
          obtain ⟨forwarded, inner, hforwarded, hinner, rfl⟩ :=
            (yields_node_slot_fallback hslots).mp h
          obtain ⟨lookup', hinner'⟩ := yields_of_assignKeys_node fallback hinner lookup
          exact ⟨lookup', (yields_node_slot_fallback hslots).mpr
            ⟨forwarded, inner, hforwarded, hinner', rfl⟩⟩

theorem yields_of_assignKeys_element : ∀ (e : Element Node) {supply : KeySupply}
    {w w' : Workspace} {id : ElementId},
    Yields (compileElement options ((assignElementKeys e).run supply).1) w id w' →
      ∀ lookup, ∃ lookup', Yields (compileElement options e) { w with lookup } id
        { w' with lookup := lookup' }
  | ⟨tag, name, key, selfClosing, attrs, events, style, children, dependency⟩, supply, w, w', id,
      h, lookup => by
      rw [run_assignElementKeys] at h
      obtain ⟨bound, w₁, m, w₂, m', cs, w₃, hbound, hm, hm', hcs, rfl, rfl⟩ := yields_element.mp h
      have htag := yields_tag_withLookup hbound lookup
      obtain ⟨lookup₂, hattrs⟩ := yields_of_assignKeys_attrs attrs hm lookup
      obtain ⟨lookup₃, hchildren⟩ := yields_of_assignKeys_children children hcs lookup₂
      exact ⟨_, yields_element.mpr ⟨bound, _, m, _, m', cs, _, htag, hattrs, hm', hchildren, rfl,
        rfl⟩⟩

theorem yields_of_assignKeys_attrs : ∀ (attrs : List (String × Attribute Node))
    {supply : KeySupply} {m m' : Markup} {w w' : Workspace},
    Yields (compileAttrs options m ((assignAttrKeys attrs).run supply).1) w m' w' →
      ∀ lookup, ∃ lookup', Yields (compileAttrs options m attrs) { w with lookup } m'
        { w' with lookup := lookup' }
  | [], supply, m, m', w, w', h, lookup => by
      obtain ⟨rfl, rfl⟩ := yields_attrs_nil.mp h
      exact ⟨lookup, yields_attrs_nil.mpr ⟨rfl, rfl⟩⟩
  | (name, .static value) :: rest, supply, m, m', w, w', h, lookup => by
      obtain ⟨lookup', hrest⟩ := yields_of_assignKeys_attrs rest (yields_attrs_static.mp h) lookup
      exact ⟨lookup', yields_attrs_static.mpr hrest⟩
  | (name, .dynamic r) :: rest, supply, m, m', w, w', h, lookup => by
      obtain ⟨e, he, hrest⟩ := yields_attrs_dynamic.mp h
      obtain ⟨lookup', hrest⟩ := yields_of_assignKeys_attrs rest hrest lookup
      exact ⟨lookup', yields_attrs_dynamic.mpr ⟨e, he, hrest⟩⟩
  | (name, .imported id) :: rest, supply, m, m', w, w', h, lookup => by
      obtain ⟨lookup', hrest⟩ := yields_of_assignKeys_attrs rest (yields_attrs_imported.mp h) lookup
      exact ⟨lookup', yields_attrs_imported.mpr hrest⟩
  | (name, .slot content) :: rest, supply, m, m', w, w', h, lookup => by
      obtain ⟨t, w₁, ht, hrest⟩ := yields_attrs_slot.mp h
      obtain ⟨lookup₁, ht⟩ := yields_of_assignKeys_node content ht lookup
      obtain ⟨lookup', hrest⟩ := yields_of_assignKeys_attrs rest hrest lookup₁
      exact ⟨lookup', yields_attrs_slot.mpr ⟨t, _, ht, hrest⟩⟩

theorem yields_of_assignKeys_children : ∀ (children : List Node) {supply : KeySupply}
    {cs : List MarkupChild} {w w' : Workspace},
    Yields (compileChildren options ((assignAllKeys children).run supply).1) w cs w' →
      ∀ lookup, ∃ lookup', Yields (compileChildren options children) { w with lookup } cs
        { w' with lookup := lookup' }
  | [], supply, cs, w, w', h, lookup => by
      obtain ⟨rfl, rfl⟩ := yields_children_nil.mp h
      exact ⟨lookup, yields_children_nil.mpr ⟨rfl, rfl⟩⟩
  | n :: rest, supply, cs, w, w', h, lookup => by
      obtain ⟨t, w₁, others, ht, hothers, rfl⟩ := yields_children_cons.mp h
      obtain ⟨lookup₁, ht⟩ := yields_of_assignKeys_node n ht lookup
      obtain ⟨lookup', hothers⟩ := yields_of_assignKeys_children rest hothers lookup₁
      exact ⟨lookup', yields_children_cons.mpr ⟨t, _, others, ht, hothers, rfl⟩⟩

end

/-- What an element with a key is compiled to is what the element is compiled to. -/
theorem CompileOptions.Shows.of_rekeyed {used : List String} {e e' : Element Node}
    (he : e.Rekeyed used e') {id : ElementId} {m : Markup} (h : options.Shows e' id m) :
    options.Shows e id m := by
  obtain ⟨supply, -, rfl⟩ := he
  obtain ⟨w, w', added, hyields, hadded, hm⟩ := h
  obtain ⟨lookup', hyields⟩ := yields_of_assignKeys_element e hyields w.lookup
  exact ⟨w, _, added, hyields, hadded, hm⟩

mutual

/-- The elements of a tree with keys that are compiled are those of the tree, with keys. -/
theorem forall₂_compiled_assignKeys {used : List String} (slots : SlotHandling) :
    ∀ (n : Node) (supply : KeySupply), used ⊆ supply.used →
      List.Forall₂ (Element.Rekeyed used) (n.compiled slots)
        ((n.assignKeys.run supply).1.compiled slots)
  | .static _, _, _ => .nil
  | .dynamic _, _, _ => .nil
  | .raw _, _, _ => .nil
  | .element e, supply, h => forall₂_compiledOf_assignKeys slots e supply h
  | .loop ⟨template, _, _⟩, supply, h => forall₂_compiledOf_assignKeys slots template supply h
  | .conditional ⟨node, _, _, _⟩, supply, h => forall₂_compiled_assignKeys slots node supply h
  | .slot ⟨_, none⟩, _, _ => .nil
  | .slot ⟨_, some fallback⟩, supply, h => by
      have hfallback := forall₂_compiled_assignKeys slots fallback supply h
      cases slots with
      | forwardChildren => exact .nil
      | fallbackWhenEmpty => exact hfallback

theorem forall₂_compiledOf_assignKeys {used : List String} (slots : SlotHandling) :
    ∀ (e : Element Node) (supply : KeySupply), used ⊆ supply.used →
      List.Forall₂ (Element.Rekeyed used) (compiledOf slots e)
        (compiledOf slots ((assignElementKeys e).run supply).1)
  | ⟨tag, name, key, selfClosing, attrs, events, style, children, dependency⟩, supply, h => by
      let e : Element Node :=
        ⟨tag, name, key, selfClosing, attrs, events, style, children, dependency⟩
      have he : e.Rekeyed used ((assignElementKeys e).run supply).1 := ⟨supply, h, rfl⟩
      have hkept : supply.used ⊆ (supply.keyFor e).2.used := by
        by_cases hkey : key = ""
        · rw [KeySupply.keyFor_of_blank hkey, (supply.next_fresh tag).2.2]
          exact List.subset_cons_self _ _
        · rw [KeySupply.keyFor_of_given hkey]
          exact List.Subset.refl _
      have hattrs := forall₂_compiledOfAttrs_assignKeys slots attrs (supply.keyFor e).2
        (List.Subset.trans h hkept)
      have hchildren := forall₂_compiledOfAll_assignKeys slots children
        ((assignAttrKeys attrs).run (supply.keyFor e).2).2
        (List.Subset.trans (List.Subset.trans h hkept)
          (keyed_assignAttrKeys attrs (supply.keyFor e).2).subset)
      rw [run_assignElementKeys e supply] at he ⊢
      exact List.rel_append (List.rel_append hattrs hchildren) (.cons he .nil)

theorem forall₂_compiledOfAttrs_assignKeys {used : List String} (slots : SlotHandling) :
    ∀ (attrs : List (String × Attribute Node)) (supply : KeySupply), used ⊆ supply.used →
      List.Forall₂ (Element.Rekeyed used) (compiledOfAttrs slots attrs)
        (compiledOfAttrs slots ((assignAttrKeys attrs).run supply).1)
  | [], _, _ => .nil
  | (_, .static _) :: rest, supply, h => forall₂_compiledOfAttrs_assignKeys slots rest supply h
  | (_, .dynamic _) :: rest, supply, h => forall₂_compiledOfAttrs_assignKeys slots rest supply h
  | (_, .imported _) :: rest, supply, h => forall₂_compiledOfAttrs_assignKeys slots rest supply h
  | (_, .slot content) :: rest, supply, h =>
      List.rel_append (forall₂_compiled_assignKeys slots content supply h)
        (forall₂_compiledOfAttrs_assignKeys slots rest (content.assignKeys.run supply).2
          (List.Subset.trans h (keyed_assignKeys content supply).subset))

theorem forall₂_compiledOfAll_assignKeys {used : List String} (slots : SlotHandling) :
    ∀ (ns : List Node) (supply : KeySupply), used ⊆ supply.used →
      List.Forall₂ (Element.Rekeyed used) (compiledOfAll slots ns)
        (compiledOfAll slots ((assignAllKeys ns).run supply).1)
  | [], _, _ => .nil
  | n :: rest, supply, h =>
      List.rel_append (forall₂_compiled_assignKeys slots n supply h)
        (forall₂_compiledOfAll_assignKeys slots rest (n.assignKeys.run supply).2
          (List.Subset.trans h (keyed_assignKeys n supply).subset))

end

theorem forall₂_compiled_withKeys (slots : SlotHandling) (n : Node) :
    List.Forall₂ (Element.Rekeyed n.givenKeys) (n.compiled slots) (n.withKeys.compiled slots) :=
  forall₂_compiled_assignKeys slots n ⟨n.givenKeys, []⟩ (List.Subset.refl _)

end Keys

end ViewGen
