import ViewGen.Proofs.CompiledElements
import ViewGen.Proofs.DeclarationOrder

/-!
# Well-formed arenas

A workspace is well formed when its elements refer backwards, no element has two attributes of one
name, and the lookup leads to elements that are there.  Compilation keeps it well formed, and so do
the passes that set attributes on compiled elements.  Printing then comes to an end: it goes from an
element to elements before it, and never to a position where there is none.

## Main definitions

* `Workspace.WellFormed`, `Draft.WellFormed` — the invariant
* `Arena.Inside` — an element stands inside another one
* `Draft.Stable` — a property of drafts that no write of a late pass destroys

## Main statements

* `Workspace.WellFormed.of_yields_node` — compilation keeps a workspace well formed
* `LatePass.keeps_stable` — late passes keep every stable property
* `Arena.Descends.wellFounded_inside` — elements are not nested without end
* `compiled_arena_wellFormed` — the invariant from compilation to printing

## Design notes

Elements are written to after they were added: the key of a loop's template, styles and classes.
All these writes go through one insertion into the attributes, and their values refer to no element,
so one lemma about an insertion serves compilation and passes alike.
-/

namespace ViewGen

open Compile (Yields)

/-! ## Attributes -/

/-- No element has two attributes of one name. -/
def Arena.Distinct (a : Arena) : Prop :=
  ∀ ⦃id m⦄, a.get? id = some m → m.attributes.keys.Nodup

namespace Arena.Distinct

variable {a : Arena}

theorem push (h : a.Distinct) {m : Markup} (hm : m.attributes.keys.Nodup) :
    (a.push m).Distinct := by
  intro id m' hm'
  rw [get?_push] at hm'
  split at hm'
  · obtain rfl := Option.some.inj hm'
    exact hm
  · exact h hm'

theorem set (h : a.Distinct) (id : ElementId) (name : String) (value : MarkupValue) :
    (a.set id name value).Distinct := by
  intro inner m hm
  rw [get?_set] at hm
  split at hm
  · obtain ⟨m₀, hm₀, rfl⟩ := Option.map_eq_some_iff.mp hm
    exact Dict.nodup_keys_insert (h hm₀) name value
  · exact h hm

end Arena.Distinct

/-- Raw markup is a text, or the inner markup of an element. -/
def CompileOptions.InjectsPlainly (options : CompileOptions) : Prop :=
  options.injectMarkup = none ∨ options.injectMarkup = some innerMarkup

variable {options : CompileOptions}

theorem CompileOptions.InjectsPlainly.injectsAfter (h : options.InjectsPlainly) :
    options.InjectsAfter := by
  rcases h with hnone | hinner
  · intro turn hturn
    exact absurd (hnone.symm.trans hturn) (by simp)
  · exact injectsAfter_of_innerMarkup hinner

/-- Events set attributes one by one. -/
theorem nodup_events {events : List (String × List Handler)} {m m' : Markup}
    (hm : m.attributes.keys.Nodup) (h : Compile.events options m events = .ok m') :
    m'.attributes.keys.Nodup := by
  induction events generalizing m with
  | nil =>
      obtain rfl := Except.ok.inj h
      exact hm
  | cons entry rest ih =>
      obtain ⟨event, handlers⟩ := entry
      cases handlers with
      | nil =>
          rw [events_skip] at h
          exact ih hm h
      | cons handler others =>
          obtain ⟨run, -, hrest⟩ := events_cons_iff.mp h
          exact ih (Dict.nodup_keys_insert hm _ _) hrest

mutual

/-- Compilation adds no element with two attributes of one name. -/
theorem distinct_node (hinject : options.InjectsPlainly) :
    ∀ (n : Node) {w w' : Workspace} {t : Target}, w.arena.Distinct →
      Yields (compileNode options n) w t w' → w'.arena.Distinct
  | .static value, w, w', t, hw, h => by
      obtain ⟨-, rfl⟩ := yields_node_static.mp h
      exact hw
  | .dynamic r, w, w', t, hw, h => by
      obtain ⟨e, -, -, rfl⟩ := yields_node_dynamic.mp h
      exact hw
  | .raw markup, w, w', t, hw, h => by
      have hraw := yields_node_raw.mp h
      rcases hinject with hnone | hinner
      · rw [Compile.inject, hnone] at hraw
        obtain ⟨-, rfl⟩ := Compile.yields_pure.mp hraw
        exact hw
      · obtain ⟨-, rfl⟩ := (Compile.yields_inject hinner).mp hraw
        exact hw.push (List.nodup_singleton _)
  | .element e, w, w', t, hw, h => by
      obtain ⟨id, hid, -⟩ := yields_node_element.mp h
      exact distinct_element hinject e hw hid
  | .loop ⟨template, source, names⟩, w, w', t, hw, h => by
      obtain ⟨items, id, w₁, key, -, hid, -, rfl, -⟩ := yields_node_loop.mp h
      exact (distinct_element hinject template hw hid).set id "key" _
  | .conditional ⟨node, subject, value, condition⟩, w, w', t, hw, h => by
      obtain ⟨s, inner, -, hinner, -⟩ := yields_node_conditional.mp h
      exact distinct_node hinject node hw hinner
  | .slot ⟨name, none⟩, w, w', t, hw, h => by
      obtain ⟨forwarded, -, -, rfl⟩ := (yields_node_slot_forward (.inr rfl)).mp h
      exact hw
  | .slot ⟨name, some fallback⟩, w, w', t, hw, h => by
      cases hslots : options.slots with
      | forwardChildren =>
          obtain ⟨forwarded, -, -, rfl⟩ := (yields_node_slot_forward (.inl hslots)).mp h
          exact hw
      | fallbackWhenEmpty =>
          obtain ⟨forwarded, inner, -, hinner, -⟩ := (yields_node_slot_fallback hslots).mp h
          exact distinct_node hinject fallback hw hinner

theorem distinct_element (hinject : options.InjectsPlainly) :
    ∀ (e : Element Node) {w w' : Workspace} {id : ElementId}, w.arena.Distinct →
      Yields (compileElement options e) w id w' → w'.arena.Distinct
  | ⟨tag, name, key, selfClosing, attrs, events, style, children, dependency⟩, w, w', id, hw,
    h => by
      obtain ⟨bound, w₁, m, w₂, m', cs, w₃, hbound, hm, hm', hcs, -, rfl⟩ := yields_element.mp h
      have hw₁ : w₁.arena.Distinct := by
        rw [(arena_tag hbound).1]
        exact hw
      -- Attributes and events are inserted into an element that has none at first.
      have hnone : (Markup.attributes { name := bound, selfClosing }).keys.Nodup := List.nodup_nil
      obtain ⟨hw₂, hnames⟩ := distinct_attrs hinject attrs hw₁ hnone hm
      have hdistinct : m'.attributes.keys.Nodup := nodup_events hnames hm'
      exact (distinct_children hinject children hw₂ hcs).push hdistinct

theorem distinct_attrs (hinject : options.InjectsPlainly) :
    ∀ (attrs : List (String × Attribute Node)) {m m' : Markup} {w w' : Workspace},
      w.arena.Distinct → m.attributes.keys.Nodup → Yields (compileAttrs options m attrs) w m' w' →
        w'.arena.Distinct ∧ m'.attributes.keys.Nodup
  | [], m, m', w, w', hw, hm, h => by
      obtain ⟨rfl, rfl⟩ := yields_attrs_nil.mp h
      exact ⟨hw, hm⟩
  | (name, .static value) :: rest, m, m', w, w', hw, hm, h =>
      distinct_attrs hinject rest hw (Dict.nodup_keys_insert hm _ _) (yields_attrs_static.mp h)
  | (name, .dynamic r) :: rest, m, m', w, w', hw, hm, h => by
      obtain ⟨e, -, hrest⟩ := yields_attrs_dynamic.mp h
      exact distinct_attrs hinject rest hw (Dict.nodup_keys_insert hm _ _) hrest
  | (name, .imported id) :: rest, m, m', w, w', hw, hm, h =>
      distinct_attrs hinject rest hw (Dict.nodup_keys_insert hm _ _) (yields_attrs_imported.mp h)
  | (name, .slot content) :: rest, m, m', w, w', hw, hm, h => by
      obtain ⟨t, w₁, ht, hrest⟩ := yields_attrs_slot.mp h
      exact distinct_attrs hinject rest (distinct_node hinject content hw ht)
        (Dict.nodup_keys_insert hm _ _) hrest

theorem distinct_children (hinject : options.InjectsPlainly) :
    ∀ (children : List Node) {cs : List MarkupChild} {w w' : Workspace}, w.arena.Distinct →
      Yields (compileChildren options children) w cs w' → w'.arena.Distinct
  | [], cs, w, w', hw, h => by
      obtain ⟨-, rfl⟩ := yields_children_nil.mp h
      exact hw
  | n :: rest, cs, w, w', hw, h => by
      obtain ⟨t, w₁, others, ht, hothers, -⟩ := yields_children_cons.mp h
      exact distinct_children hinject rest (distinct_node hinject n hw ht) hothers

end

/-! ## Workspaces -/

/-- Elements refer backwards and have no attribute twice, and the lookup leads to elements that are
there. -/
structure Workspace.WellFormed (w : Workspace) : Prop where
  descends : w.arena.Descends
  distinct : w.arena.Distinct
  lookup : ∀ entry ∈ w.lookup, entry.2 < w.arena.size

/-- Recording places leads to these places, and to what was recorded before. -/
theorem mem_foldl_record {places : List (ElementId × Element Node)} {lookup : Dict ElementId}
    {entry : String × ElementId} (h : entry ∈ places.foldl record lookup) :
    entry ∈ lookup ∨ ∃ place ∈ places, entry.2 = place.1 := by
  induction places generalizing lookup with
  | nil => exact .inl h
  | cons place rest ih =>
      rcases ih h with hrecorded | ⟨later, hlater, heq⟩
      · unfold record at hrecorded
        split at hrecorded
        · exact .inl hrecorded
        · rcases Dict.mem_insert hrecorded with hold | rfl
          · exact .inl hold
          · exact .inr ⟨place, List.mem_cons_self, rfl⟩
      · exact .inr ⟨later, List.mem_cons_of_mem place hlater, heq⟩

namespace Workspace.WellFormed

theorem empty (imports : ImportTable) : ({ imports } : Workspace).WellFormed :=
  ⟨Arena.descends_empty, fun id m h => by simp [Arena.get?] at h,
    fun _ h => absurd h List.not_mem_nil⟩

/-- The import table has no part in it. -/
theorem withImports {w : Workspace} (h : w.WellFormed) (imports : ImportTable) :
    { w with imports }.WellFormed :=
  ⟨h.descends, h.distinct, h.lookup⟩

/-- **Compilation keeps a workspace well formed.** -/
theorem of_yields_node (hinject : options.InjectsPlainly) {n : Node} {w w' : Workspace}
    {t : Target} (hw : w.WellFormed) (h : Yields (compileNode options n) w t w') :
    w'.WellFormed := by
  obtain ⟨hgrows, -⟩ := grows_node hinject.injectsAfter n h
  obtain ⟨places, -, hplaces⟩ := exists_places_node hinject.injectsAfter n h
  refine ⟨hgrows.descends hw.descends, distinct_node hinject n hw.distinct h,
    fun entry hentry => ?_⟩
  rw [hplaces.lookup] at hentry
  rcases mem_foldl_record hentry with hold | ⟨place, hplace, heq⟩
  · exact Nat.lt_of_lt_of_le (hw.lookup entry hold) hgrows.keeps.size_le
  · rw [heq]
    exact (hplaces.within place hplace).2

end Workspace.WellFormed

/-! ## Drafts -/

/-- A well-formed workspace whose elements are the only ones that chunks refer to. -/
structure Draft.WellFormed (d : Draft) : Prop where
  workspace : d.workspace.WellFormed
  chunks : ∀ c ∈ d.chunks, ∀ id ∈ c.elementIds, id < d.arena.size

/-- A property of drafts that is kept by every write of a late pass: attributes and chunks that
refer to no element, imports, and links between chunks. -/
structure Draft.Stable (P : Draft → Prop) : Prop where
  setOn : ∀ {d : Draft} (key name : String) {value : MarkupValue}, value.elementIds = [] → P d →
    P (d.setOn key name value)
  put : ∀ {d : Draft} {c : Chunk}, c.elementIds = [] → P d → P (d.put c)
  withImports : ∀ {d : Draft} (imports : ImportTable), P d → P (d.withImports imports)
  linkAfter : ∀ {d : Draft} (name link : String), P d →
    P { d with chunks := linkAfter name link d.chunks }

/-- The properties that stay with an element refer to no element. -/
theorem elementIds_styledElements {taken : List String} {styled : List (Element Node)}
    {styles : List StyledElement} (h : styledElements options taken styled = .ok styles) :
    ∀ s ∈ styles, elementIdsOfProperties s.properties = [] := by
  induction styled generalizing taken styles with
  | nil =>
      obtain rfl := Except.ok.inj h
      exact fun s hs => absurd hs List.not_mem_nil
  | cons e rest ih =>
      obtain ⟨properties, hproperties, hrest⟩ := bind_eq_ok_iff.mp h
      obtain ⟨others, hothers, hstyles⟩ := bind_eq_ok_iff.mp hrest
      obtain rfl := Except.ok.inj hstyles
      exact List.forall_mem_cons.mpr ⟨elementIds_styleProperties hproperties, ih hothers⟩

namespace Draft.Stable

variable {P : Draft → Prop}

theorem setStyles (hP : Stable P) {styled : List (Element Node)} {d d' : Draft} (hd : P d)
    (h : d.setStyles options styled = .ok d') : P d' := by
  induction styled generalizing d with
  | nil => exact Except.ok.inj h ▸ hd
  | cons e rest ih =>
      obtain ⟨properties, hproperties, hrest⟩ := bind_eq_ok_iff.mp h
      have hplain : (MarkupValue.expr (.object properties)).elementIds = [] :=
        elementIds_styleProperties hproperties
      exact ih (hP.setOn e.key "style" hplain hd) hrest

theorem setStyled (hP : Stable P) (classAttribute bound : String) {s : StyledElement}
    (hs : elementIdsOfProperties s.properties = []) {d : Draft} (hd : P d) :
    P (d.setStyled classAttribute bound s) := by
  have hproperties : (MarkupValue.expr (.object s.properties)).elementIds = [] := hs
  have hclass : P (if s.hasRule then d.setOn s.key classAttribute
      (.expr (.member (.ident bound) s.className)) else d) := by
    split
    · exact hP.setOn _ _ rfl hd
    · exact hd
  change P (if s.properties.isEmpty then _ else Draft.setOn _ _ _ _)
  split
  · exact hclass
  · exact hP.setOn _ _ hproperties hclass

theorem foldl_setStyled (hP : Stable P) (classAttribute bound : String)
    {styles : List StyledElement} (hstyles : ∀ s ∈ styles, elementIdsOfProperties s.properties = [])
    {d : Draft} (hd : P d) : P (styles.foldl (Draft.setStyled classAttribute bound) d) := by
  induction styles generalizing d with
  | nil => exact hd
  | cons s rest ih =>
      obtain ⟨hs, hrest⟩ := List.forall_mem_cons.mp hstyles
      exact ih hrest (hP.setStyled classAttribute bound hs hd)

theorem moveStyles (hP : Stable P) {classAttribute : String} {d d' : Draft} (hd : P d)
    (h : d.moveStyles classAttribute options = .ok d') : P d' := by
  obtain ⟨styles, hstyles, hmoved⟩ := bind_eq_ok_iff.mp h
  have hplain := elementIds_styledElements hstyles
  by_cases hempty : (styleSheet styles).isEmpty
  · rw [if_pos hempty] at hmoved
    obtain rfl := Except.ok.inj hmoved
    exact hP.foldl_setStyled classAttribute "" hplain hd
  · rw [if_neg hempty] at hmoved
    obtain rfl := Except.ok.inj hmoved
    exact hP.put rfl (hP.foldl_setStyled classAttribute _ hplain (hP.withImports _ hd))

theorem declareProps (hP : Stable P) {d : Draft} (hd : P d) : P d.declareProps := by
  unfold Draft.declareProps
  split
  · exact hd
  · exact hP.linkAfter _ _ (hP.put (elementIds_propStatements _ _ _) (hP.withImports _ hd))

theorem putImports (hP : Stable P) {d : Draft} (hd : P d) (name : String) (kind : DependencyKind)
    (after : List String) : P (d.putImports name kind after) := by
  unfold Draft.putImports
  split
  · exact hd
  · refine hP.put ?_ hd
    show elementIdsOfBlock _ = []
    rw [elementIdsOfBlock_eq, List.flatMap_map, List.flatMap_eq_nil_iff]
    exact fun _ _ => rfl

end Draft.Stable

/-- **Late passes keep every stable property.** -/
theorem LatePass.keeps_stable {p : Pass} (hp : LatePass p) {P : Draft → Prop}
    (hP : Draft.Stable P) {d d' : Draft} (hd : P d) (h : p.run d = .ok d') : P d' := by
  cases hp with
  | inlineStyle options => exact hP.setStyles hd h
  | styleSheet classAttribute options => exact hP.moveStyles hd h
  | propTypes => exact Except.ok.inj h ▸ hP.declareProps hd
  | imports =>
      obtain rfl := Except.ok.inj h
      exact hP.putImports (hP.putImports (hP.putImports hd _ _ _) _ _ _) _ _ _

namespace Draft.WellFormed

variable {d : Draft}

/-- A chunk can be put in that refers to elements that are there. -/
theorem put (h : d.WellFormed) {c : Chunk} (hc : ∀ id ∈ c.elementIds, id < d.arena.size) :
    (d.put c).WellFormed := by
  refine ⟨h.workspace, fun e he => ?_⟩
  rcases Chunk.mem_of_mem_put he with rfl | hold
  · exact hc
  · exact h.chunks e hold

/-- An attribute can be set whose value refers to no element. -/
theorem setOn (h : d.WellFormed) (key name : String) {value : MarkupValue}
    (hvalue : value.elementIds = []) : (d.setOn key name value).WellFormed := by
  rw [Draft.setOn]
  split
  · next id _ =>
    have hsize : (d.arena.set id name value).size = d.arena.size := d.arena.size_set id name value
    refine
      ⟨⟨h.workspace.descends.set id name hvalue, h.workspace.distinct.set id name value, ?_⟩, ?_⟩
    · exact fun entry hentry => Nat.lt_of_lt_of_eq (h.workspace.lookup entry hentry) hsize.symm
    · exact fun c hc inner hinner => Nat.lt_of_lt_of_eq (h.chunks c hc inner hinner) hsize.symm
  · exact h

theorem stable : Draft.Stable Draft.WellFormed where
  setOn := fun key name _ hvalue h => h.setOn key name hvalue
  put := fun hc h => h.put fun id hid => absurd (hc ▸ hid) List.not_mem_nil
  withImports := fun imports h => ⟨h.workspace.withImports imports, h.chunks⟩
  linkAfter := by
    intro d name link h
    refine ⟨h.workspace, fun e he => ?_⟩
    rcases mem_of_mem_linkAfter he with hold | ⟨c, hc, -, rfl⟩
    · exact h.chunks e hold
    · exact h.chunks c hc

/-- A component can be added whose body refers to elements that are there. -/
theorem addComponent (h : d.WellFormed) {body : List Statement}
    (hbody : ∀ id ∈ elementIdsOfBlock body, id < d.arena.size) :
    (d.addComponent body).WellFormed := by
  have htokens : d.addTokens.WellFormed := by
    rw [Draft.addTokens]
    split
    · exact h
    · exact stable.put (elementIds_tokensConstant _) h
  refine stable.put rfl (htokens.put fun id hid => ?_)
  rw [Draft.arena_addTokens]
  simp only [Chunk.elementIds, Chunk.script, elementIdsOfBlock, Statement.elementIds,
    Expr.elementIds, List.append_nil] at hid
  exact hbody id hid

/-- Declaring a component keeps a draft well formed. -/
theorem of_functionComponentPass (hinject : options.InjectsPlainly) {framework : Framework}
    {d' : Draft} (h : d.WellFormed)
    (hrun : (functionComponentPass framework options).run d = .ok d') : d'.WellFormed := by
  obtain ⟨runtime, hruntime⟩ := Draft.exists_runtime_of_declareComponent hrun
  obtain ⟨imports, body, w, -, hbody, rfl⟩ := (Draft.declareComponent_iff hruntime).mp hrun
  obtain ⟨useState, registered, hyields⟩ := yields_functionBody_iff runtime options d.component
    { d.workspace with imports }
  obtain ⟨root, hroot, rfl⟩ := (hyields body w).mp hbody
  obtain ⟨hgrows, hids⟩ := grows_node hinject.injectsAfter d.component.node hroot
  have hcompiled : { d with workspace := w }.WellFormed :=
    ⟨(h.workspace.withImports registered).of_yields_node hinject hroot,
      fun c hc id hid => Nat.lt_of_lt_of_le (h.chunks c hc id hid) hgrows.keeps.size_le⟩
  refine hcompiled.addComponent fun id hid => ?_
  rw [elementIds_functionBodyOf] at hid
  exact hids h.workspace.descends id hid

/-- Putting the chunks in order keeps a draft well formed. -/
theorem of_orderChunks (h : d.WellFormed) {chunks : List Chunk}
    (horder : orderChunks d.chunks = .ok chunks) : { d with chunks }.WellFormed :=
  ⟨h.workspace, fun c hc => h.chunks c ((perm_of_orderChunks horder).mem_iff.mp hc)⟩

end Draft.WellFormed

/-! ## Printing -/

/-- An element stands inside another one: it is printed as a part of it. -/
def Arena.Inside (a : Arena) (inner outer : ElementId) : Prop :=
  ∃ m, a.get? outer = some m ∧ inner ∈ m.elementIds

/-- Elements that refer backwards are not nested without end. -/
theorem Arena.Descends.wellFounded_inside {a : Arena} (h : a.Descends) : WellFounded a.Inside :=
  Subrelation.wf (fun ⟨_, hm, hinner⟩ => h hm _ hinner) Nat.lt_wfRel.wf

/-- **Arenas stay well formed from compilation to printing.**  Where raw markup is a text or inner
markup, and for every workspace and draft that is well formed to begin with:

* a compilation that succeeds leaves the elements that were there as they are and the workspace well
  formed, and its result refers to elements that are there;
* styles, prop types and imports leave a draft well formed;
* after the component was declared and such passes have run, no element stands inside itself,
  however deep, and printing a chunk finds every element it looks up. -/
theorem compiled_arena_wellFormed
    (hinject : options.injectMarkup = none ∨ options.injectMarkup = some innerMarkup) :
    (∀ (n : Node) (w w' : Workspace) (t : Target), w.WellFormed →
      Yields (compileNode options n) w t w' →
        w.arena.Extends w'.arena ∧ w'.WellFormed ∧ ∀ id ∈ t.elementIds, id < w'.arena.size) ∧
      (∀ p, LatePass p → ∀ d d' : Draft, d.WellFormed → p.run d = .ok d' → d'.WellFormed) ∧
      (∀ (framework : Framework) (later : List Pass) (d d' : Draft), d.WellFormed →
        (∀ p ∈ later, LatePass p) →
        runPasses (functionComponentPass framework options :: later) d = .ok d' →
          d'.WellFormed ∧ WellFounded d'.arena.Inside ∧
            ∀ c ∈ d'.chunks, c.PrintsInside d'.arena) := by
  have hlate : ∀ p, LatePass p → ∀ d d' : Draft, d.WellFormed → p.run d = .ok d' → d'.WellFormed :=
    fun p hp d d' hd hrun => hp.keeps_stable Draft.WellFormed.stable hd hrun
  refine ⟨?_, hlate, ?_⟩
  · intro n w w' t hw h
    obtain ⟨hgrows, hids⟩ := grows_node (CompileOptions.InjectsPlainly.injectsAfter hinject) n h
    exact ⟨hgrows.keeps, hw.of_yields_node hinject h, hids hw.descends⟩
  · intro framework later d d' hd hlater hrun
    obtain ⟨declared, hdeclared, hrest⟩ := runPasses_cons_iff.mp hrun
    obtain ⟨applied, chunks, happlied, horder, rfl⟩ := exists_orderChunks_of_runPasses
      (fun p hp => hlate p (hlater p hp)) (hd.of_functionComponentPass hinject hdeclared) hrest
    have hd' := happlied.of_orderChunks horder
    have hdescends : applied.arena.Descends := hd'.workspace.descends
    exact ⟨hd', hdescends.wellFounded_inside,
      fun c hc => hdescends.printsInside (hd'.chunks c hc)⟩

/-- A gallery with a header in an attribute, and a styled entry for each picture with raw markup in
it. -/
def gallery : Component where
  name := "Gallery"
  node := .element {
    tag := "Frame"
    key := "frame"
    attrs := [("header", .slot (.element { tag := "h2" }))]
    children := [.loop {
      template := {
        tag := "li"
        key := "entry"
        style := [("color", .static (.text "red"))]
        children := [.raw "<b>new</b>"] }
      source := .inline [.text "x", .text "y"] }] }

/-- The gallery is compiled to four elements, each after those inside it, and its chunks are printed
without a lookup that fails once the entries have their class. -/
theorem gallery_wellFormed :
    let options : CompileOptions := { injectMarkup := some innerMarkup }
    (∃ t w', Yields (compileNode options gallery.node) {} t w' ∧ t.elementIds = [3] ∧
      w'.arena.size = 4 ∧ w'.lookup = [("entry", 2), ("frame", 3)] ∧ w'.WellFormed) ∧
      ∃ d', runPasses [functionComponentPass .react options, styleSheetPass "className" options]
          { component := gallery, fileName := "gallery" } = .ok d' ∧
        (d'.arena.get? 2).map (fun m => m.attributes.keys) = some ["key", "className"] ∧
        d'.WellFormed ∧ WellFounded d'.arena.Inside ∧ ∀ c ∈ d'.chunks, c.PrintsInside d'.arena := by
  intro options
  obtain ⟨hcompile, -, hprint⟩ := @compiled_arena_wellFormed options (.inr rfl)
  refine ⟨⟨_, _, rfl, rfl, rfl, rfl, (hcompile gallery.node {} _ _ (.empty {}) rfl).2.1⟩, ?_⟩
  have hstart : ({ component := gallery, fileName := "gallery" } : Draft).WellFormed :=
    ⟨.empty {}, fun c hc => absurd hc List.not_mem_nil⟩
  have hlate : ∀ p ∈ [styleSheetPass "className" options], LatePass p := by
    intro p hp
    rw [List.mem_singleton.mp hp]
    exact .styleSheet "className" options
  have hrun : runPasses [functionComponentPass .react options, styleSheetPass "className" options]
      { component := gallery, fileName := "gallery" } = .ok _ := rfl
  exact ⟨_, hrun, rfl, hprint .react _ _ _ hstart hlate hrun⟩

end ViewGen
