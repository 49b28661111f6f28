import ViewGen.Draft.Keys
import ViewGen.Proofs.CompilationRuns
import ViewGen.Proofs.CompileArena
import ViewGen.Proofs.Resolution

/-!
# The tags of compiled elements

The tag of an element is fixed while the import table is still growing: attributes, children and
everything that is compiled later can bind more names.  Since bindings are only added and elements
only get more attributes, a tag still means the dependency of its element at any later moment.

## Main definitions

* `ImportTable.Tags` — a name that can be written as the tag of an element
* `Workspace.Keeps` — bindings and elements are kept, and elements may have got more attributes
* `NodeTagged`, `ElementTagged`, … — a piece of output stands for a piece of the tree, and every tag
  in it is related to the tag and the dependency of its element

## Main statements

* `stepsIn_keeps` — a compilation keeps what the workspace had
* `tagged_node` — the tags of a compiled tree mean the dependencies of its elements, in every
  workspace that keeps what the compilation left
* `NodeTagged.of_assignKeys` — keys do not matter to tags

## Design notes

The relations are stated for an arbitrary later workspace, so that one induction over the tree
covers the siblings of an element as well as the passes after the compilation.  An attribute can be
set again later, by another attribute, an event or a style; this is why an element is compared with
the list of all attributes that were set on it, those of the tree first.
-/

namespace ViewGen

open Compile (Yields)

/-! ## Tags -/

/-- A name that can be written as the tag of an element: its own tag if it has no dependency, and
otherwise a name that its dependency is bound to and that is not reserved. -/
def ImportTable.Tags (t : ImportTable) (tag : String) : Option Dependency → String → Prop
  | none, written => written = tag
  | some d, written => t.holds written d = true ∧ written ∉ t.reserved

namespace ImportTable

variable {t u : ImportTable} {name : String} {d : Dependency}

/-- A bound name is not reserved. -/
theorem Proper.notMem_reserved (h : t.Proper) (hholds : t.holds name d = true) :
    name ∉ t.reserved := by
  intro hreserved
  obtain ⟨e, he, -⟩ := holds_iff.mp hholds
  exact h.disjoint name hreserved (Dict.mem_keys_of_get? he)

/-- The name that an import was given can be written as a tag at any later moment. -/
theorem tags_register (h : (t.register name d).2.Grows u) (hu : u.Proper) :
    u.Tags name (some d) (t.register name d).1 := by
  have hholds : u.holds (t.register name d).1 d = true :=
    holds_of_grows h d.sameImport_refl (t.holds_register name d)
  exact ⟨hholds, hu.notMem_reserved hholds⟩

end ImportTable

/-! ## What is kept -/

/-- An element with more attributes set on it. -/
def Markup.withAttributes (m : Markup) (late : List (String × MarkupValue)) : Markup :=
  { m with attributes := m.attributes.insertAll late }

theorem Markup.withAttributes_append (m : Markup) (late later : List (String × MarkupValue)) :
    m.withAttributes (late ++ later) = (m.withAttributes late).withAttributes later := by
  rw [withAttributes, Dict.insertAll_append]
  rfl

/-- All elements are in their places, with more attributes perhaps. -/
def Arena.Keeps (a b : Arena) : Prop :=
  ∀ ⦃id m⦄, a.get? id = some m → ∃ late, b.get? id = some (m.withAttributes late)

namespace Arena

theorem Extends.keeps {a b : Arena} (h : a.Extends b) : a.Keeps b :=
  fun _ _ hm => ⟨[], h hm⟩

theorem Keeps.refl (a : Arena) : a.Keeps a :=
  (Extends.refl a).keeps

theorem Keeps.trans {a b c : Arena} (hab : a.Keeps b) (hbc : b.Keeps c) : a.Keeps c := by
  intro id m hm
  obtain ⟨late, hlate⟩ := hab hm
  obtain ⟨later, hlater⟩ := hbc hlate
  exact ⟨late ++ later, by rw [hlater, Markup.withAttributes_append]⟩

theorem keeps_set (a : Arena) (id : ElementId) (name : String) (value : MarkupValue) :
    a.Keeps (a.set id name value) := by
  intro inner m hm
  rw [get?_set, hm]
  split
  · exact ⟨[(name, value)], rfl⟩
  · exact ⟨[], rfl⟩

end Arena

/-- Bindings and elements are kept. -/
structure Workspace.Keeps (w w' : Workspace) : Prop where
  imports : w.imports.Grows w'.imports
  arena : w.arena.Keeps w'.arena

theorem Workspace.Keeps.refl (w : Workspace) : w.Keeps w :=
  ⟨.refl _, .refl _⟩

theorem Workspace.Keeps.trans {w w' w'' : Workspace} (h : w.Keeps w') (h' : w'.Keeps w'') :
    w.Keeps w'' :=
  ⟨h.imports.trans h'.imports, h.arena.trans h'.arena⟩

/-- Raw markup is turned into something without changing more than attributes of the elements that
are there. -/
def CompileOptions.KeepsElements (options : CompileOptions) : Prop :=
  ∀ turn, options.injectMarkup = some turn → ∀ markup a, Arena.Keeps a (turn markup a).2

variable {options : CompileOptions}

theorem CompileOptions.InjectsAfter.keepsElements (h : options.InjectsAfter) :
    options.KeepsElements :=
  fun turn hturn markup a => (h turn hturn markup a).1.keeps.keeps

/-- An element is added to what is there. -/
theorem keeps_add (w : Workspace) (key : String) (m : Markup) : w.Keeps (w.add key m) :=
  ⟨.refl _, (w.arena.extends_push m).keeps⟩

/-- **A compilation keeps what the workspace had**, as each of its steps does. -/
theorem stepsIn_keeps (hinject : options.KeepsElements) : options.StepsIn Workspace.Keeps where
  refl := .refl
  trans := .trans
  register w name d := ⟨w.imports.grows_register name d, .refl _⟩
  add := keeps_add
  set w id name value := ⟨.refl _, w.arena.keeps_set id name value⟩
  inject turn hturn markup w := ⟨.refl _, hinject turn hturn markup w.arena⟩

/-! ## Trees and their output -/

section Relations

variable (options : CompileOptions) (a : Arena) (P : String → Option Dependency → String → Prop)

mutual

/-- A node is compiled to something whose tags are related to the elements of the node. -/
inductive NodeTagged : Node → Target → Prop
  | static {value} : NodeTagged (.static value) (.text value.display)
  | raw {markup t} : NodeTagged (.raw markup) t
  | dynamic {r e} : NodeTagged (.dynamic r) (.expr e)
  | element {e id m} : a.get? id = some m → ElementTagged e m →
      NodeTagged (.element e) (.element id)
  | loop {template source names items id m} : a.get? id = some m → ElementTagged template m →
      NodeTagged (.loop ⟨template, source, names⟩)
        (.expr (.call (.member items "map") [.arrow names.bound (.element id)]))
  | conditional {node subject value condition test inner} : NodeTagged node inner →
      NodeTagged (.conditional ⟨node, subject, value, condition⟩)
        (.expr (.logical .and test inner.toExpr))
  | slot {name fallback e} : options.slots = .forwardChildren ∨ fallback = none →
      NodeTagged (.slot ⟨name, fallback⟩) (.expr e)
  | slotFallback {name fallback e inner} : options.slots = .fallbackWhenEmpty →
      NodeTagged fallback inner →
      NodeTagged (.slot ⟨name, some fallback⟩) (.expr (.logical .or e inner.toExpr))

/-- An element is compiled to one with a related tag; `late` are the attributes that were set after
its own. -/
inductive ElementTagged : Element Node → Markup → Prop
  | intro {e m written late} : P e.tag e.dependency m.name → AttrsTagged e.attrs written →
      m.attributes = Dict.ofList (written ++ late) → ChildrenTagged e.children m.children →
      ElementTagged e m

/-- The attributes that are set for the attributes of an element. -/
inductive AttrsTagged : List (String × Attribute Node) → List (String × MarkupValue) → Prop
  | nil : AttrsTagged [] []
  | plain {name given value rest written} : (∀ content, given ≠ .slot content) →
      AttrsTagged rest written → AttrsTagged ((name, given) :: rest) ((name, value) :: written)
  | slot {name content t rest written} : NodeTagged content t → AttrsTagged rest written →
      AttrsTagged ((name, .slot content) :: rest) ((name, t.toValue) :: written)

/-- What children are compiled to. -/
inductive ChildrenTagged : List Node → List MarkupChild → Prop
  | nil : ChildrenTagged [] []
  | cons {n t rest children} : NodeTagged n t → ChildrenTagged rest children →
      ChildrenTagged (n :: rest) (t.toChild :: children)

end

end Relations

/-- The tag that a compilation fixes can be written at any later moment. -/
theorem tags_of_yields_tag (hbind : options.bindImports = true) (hcustom : options.customTag = none)
    {tag written : String} {dependency : Option Dependency} {w w' : Workspace}
    (h : Yields (Compile.tag options tag dependency) w written w') {t : ImportTable}
    (hgrows : w'.imports.Grows t) (ht : t.Proper) : t.Tags tag dependency written := by
  cases dependency with
  | none => exact (yields_tag_none.mp h).1
  | some d =>
      obtain ⟨bound, hbound, hwritten⟩ := yields_tag_some.mp h
      rw [if_pos hbind] at hbound
      obtain ⟨rfl, rfl⟩ := Compile.yields_register.mp hbound
      rw [CompileOptions.writtenTag, hcustom] at hwritten
      rw [hwritten]
      exact ImportTable.tags_register hgrows ht

/-- Events set more attributes and change nothing else. -/
theorem exists_withAttributes_events {events : List (String × List Handler)} {m m' : Markup}
    (h : Compile.events options m events = .ok m') : ∃ late, m' = m.withAttributes late := by
  induction events generalizing m with
  | nil => exact ⟨[], (Except.ok.inj h).symm⟩
  | cons entry rest ih =>
      obtain ⟨event, handlers⟩ := entry
      cases handlers with
      | nil =>
          rw [events_skip] at h
          exact ih h
      | cons handler others =>
          obtain ⟨run, -, hrest⟩ := events_cons_iff.mp h
          obtain ⟨late, rfl⟩ := ih hrest
          exact ⟨(eventAttribute event, .expr run) :: late, rfl⟩

/-- Tags are fixed by binding dependencies, and are read in a later workspace, where those that can
be written are related to their elements. -/
structure CompileOptions.ReadsTags (options : CompileOptions) (final : Workspace)
    (P : String → Option Dependency → String → Prop) : Prop where
  keeps : options.KeepsElements
  binds : options.bindImports = true
  plain : options.customTag = none
  proper : final.imports.Proper
  tags : ∀ tag dependency written, final.imports.Tags tag dependency written →
    P tag dependency written

section Trees

variable {final : Workspace} {P : String → Option Dependency → String → Prop}

mutual

/-- **The tags of a compiled tree mean the dependencies of its elements**, in every workspace that
keeps what the compilation left. -/
theorem tagged_node (hreads : options.ReadsTags final P) :
    ∀ (n : Node) {w w' : Workspace} {t : Target}, Yields (compileNode options n) w t w' →
      w'.Keeps final → NodeTagged options final.arena P n t
  | .static value, w, w', t, h, hfinal => by
      obtain ⟨rfl, -⟩ := yields_node_static.mp h
      exact .static
  | .dynamic r, w, w', t, h, hfinal => by
      obtain ⟨e, -, rfl, -⟩ := yields_node_dynamic.mp h
      exact .dynamic
  | .raw markup, w, w', t, h, hfinal => .raw
  | .element e, w, w', t, h, hfinal => by
      obtain ⟨id, hid, rfl⟩ := yields_node_element.mp h
      obtain ⟨m, hm, htagged⟩ := tagged_element hreads e hid hfinal
      exact .element hm htagged
  | .loop ⟨template, source, names⟩, w, w', t, h, hfinal => by
      obtain ⟨items, id, w₁, key, -, hid, -, rfl, rfl⟩ := yields_node_loop.mp h
      have hset : w₁.Keeps { w₁ with arena := w₁.arena.set id "key" (.expr key) } :=
        ⟨.refl _, w₁.arena.keeps_set id _ _⟩
      obtain ⟨m, hm, htagged⟩ :=
        tagged_element hreads template hid (hset.trans hfinal)
      exact .loop hm htagged
  | .conditional ⟨node, subject, value, condition⟩, w, w', t, h, hfinal => by
      obtain ⟨s, inner, -, hinner, rfl⟩ := yields_node_conditional.mp h
      exact .conditional (tagged_node hreads node hinner hfinal)
  | .slot ⟨name, none⟩, w, w', t, h, hfinal => by
      obtain ⟨forwarded, -, rfl, -⟩ := (yields_node_slot_forward (.inr rfl)).mp h
      exact .slot (.inr rfl)
  | .slot ⟨name, some fallback⟩, w, w', t, h, hfinal => by
      cases hslots : options.slots with
      | forwardChildren =>
          obtain ⟨forwarded, -, rfl, -⟩ := (yields_node_slot_forward (.inl hslots)).mp h
          exact .slot (.inl hslots)
      | fallbackWhenEmpty =>
          obtain ⟨forwarded, inner, -, hinner, rfl⟩ := (yields_node_slot_fallback hslots).mp h
          exact .slotFallback hslots
            (tagged_node hreads fallback hinner hfinal)

/-- The element that was added for an element of the tree is still there, with its tag. -/
theorem tagged_element (hreads : options.ReadsTags final P) :
    ∀ (e : Element Node) {w w' : Workspace} {id : ElementId},
      Yields (compileElement options e) w id w' → w'.Keeps final →
        ∃ m, final.arena.get? id = some m ∧ ElementTagged options final.arena P e m
  | ⟨tag, name, key, selfClosing, attrs, events, style, children, dependency⟩, w, w', id, h,
      hfinal => by
      obtain ⟨bound, w₁, m, w₂, m', cs, w₃, hbound, hm, hm', hcs, rfl, rfl⟩ := yields_element.mp h
      -- What is there before the element is added is kept too.
      have hadded : w₃.Keeps final := (keeps_add w₃ key _).trans hfinal
      have hattrs : w₂.Keeps final :=
        ((stepsIn_keeps hreads.keeps).children children hcs).trans hadded
      have hfixed : w₁.Keeps final := ((stepsIn_keeps hreads.keeps).attrs attrs hm).trans hattrs
      obtain ⟨written, rfl, hwritten⟩ :=
        tagged_attrs hreads attrs hm hattrs
      obtain ⟨listeners, rfl⟩ := exists_withAttributes_events hm'
      obtain ⟨late, hlate⟩ := hfinal.arena (w₃.arena.get?_push_self _)
      have htag := tags_of_yields_tag hreads.binds hreads.plain hbound hfixed.imports hreads.proper
      have hattributes : ((Dict.insertAll [] written).insertAll listeners).insertAll late =
          Dict.ofList (written ++ (listeners ++ late)) := by
        rw [Dict.ofList_eq_insertAll, Dict.insertAll_append, Dict.insertAll_append]
      exact ⟨_, hlate, .intro (hreads.tags _ _ _ htag) hwritten hattributes
        (tagged_children hreads children hcs hadded)⟩

/-- Attributes are set one after the other. -/
theorem tagged_attrs (hreads : options.ReadsTags final P) :
    ∀ (attrs : List (String × Attribute Node)) {m m' : Markup} {w w' : Workspace},
      Yields (compileAttrs options m attrs) w m' w' → w'.Keeps final →
        ∃ written, m' = m.withAttributes written ∧
          AttrsTagged options final.arena P attrs written
  | [], m, m', w, w', h, hfinal => by
      obtain ⟨rfl, -⟩ := yields_attrs_nil.mp h
      exact ⟨[], rfl, .nil⟩
  | (name, .static value) :: rest, m, m', w, w', h, hfinal => by
      obtain ⟨written, rfl, hwritten⟩ := tagged_attrs hreads rest
        (yields_attrs_static.mp h) hfinal
      exact ⟨(name, value.toValue) :: written, rfl, .plain (by simp) hwritten⟩
  | (name, .dynamic r) :: rest, m, m', w, w', h, hfinal => by
      obtain ⟨e, -, hrest⟩ := yields_attrs_dynamic.mp h
      obtain ⟨written, rfl, hwritten⟩ :=
        tagged_attrs hreads rest hrest hfinal
      exact ⟨(name, .expr e) :: written, rfl, .plain (by simp) hwritten⟩
  | (name, .imported id) :: rest, m, m', w, w', h, hfinal => by
      obtain ⟨written, rfl, hwritten⟩ := tagged_attrs hreads rest
        (yields_attrs_imported.mp h) hfinal
      exact ⟨(name, .expr (.ident id)) :: written, rfl, .plain (by simp) hwritten⟩
  | (name, .slot content) :: rest, m, m', w, w', h, hfinal => by
      obtain ⟨t, w₁, ht, hrest⟩ := yields_attrs_slot.mp h
      obtain ⟨written, rfl, hwritten⟩ :=
        tagged_attrs hreads rest hrest hfinal
      have hcontent := tagged_node hreads content ht
        (((stepsIn_keeps hreads.keeps).attrs rest hrest).trans hfinal)
      exact ⟨(name, t.toValue) :: written, rfl, .slot hcontent hwritten⟩

/-- Children are compiled one after the other. -/
theorem tagged_children (hreads : options.ReadsTags final P) :
    ∀ (children : List Node) {cs : List MarkupChild} {w w' : Workspace},
      Yields (compileChildren options children) w cs w' → w'.Keeps final →
        ChildrenTagged options final.arena P children cs
  | [], cs, w, w', h, hfinal => by
      obtain ⟨rfl, -⟩ := yields_children_nil.mp h
      exact .nil
  | n :: rest, cs, w, w', h, hfinal => by
      obtain ⟨t, w₁, others, ht, hothers, rfl⟩ := yields_children_cons.mp h
      have hkeeps : w₁.Keeps final :=
        ((stepsIn_keeps hreads.keeps).children rest hothers).trans hfinal
      exact .cons (tagged_node hreads n ht hkeeps)
        (tagged_children hreads rest hothers hfinal)

end

end Trees

/-! ## Keys -/

section Keys

variable {a : Arena} {P : String → Option Dependency → String → Prop}

mutual

/-- **Keys do not matter to tags.**  What a tree with keys is compiled to stands for the tree. -/
theorem NodeTagged.of_assignKeys : ∀ (n : Node) {supply : KeySupply} {t : Target},
    NodeTagged options a P (n.assignKeys.run supply).1 t → NodeTagged options a P n t
  | .static value, supply, t, h => h
  | .dynamic r, supply, t, h => h
  | .raw markup, supply, t, h => h
  | .element e, supply, t, h => by
      cases h with
      | element hm he => exact .element hm (ElementTagged.of_assignKeys e he)
  | .loop ⟨template, source, names⟩, supply, t, h => by
      cases h with
      | loop hm he => exact .loop hm (ElementTagged.of_assignKeys template he)
  | .conditional ⟨node, subject, value, condition⟩, supply, t, h => by
      cases h with
      | conditional hinner => exact .conditional (NodeTagged.of_assignKeys node hinner)
  | .slot ⟨name, none⟩, supply, t, h => h
  | .slot ⟨name, some fallback⟩, supply, t, h => by
      cases h with
      | slot hforward =>
          exact .slot (hforward.imp_right fun hnone => absurd hnone (by simp))
      | slotFallback hslots hinner =>
          exact .slotFallback hslots (NodeTagged.of_assignKeys fallback hinner)

theorem ElementTagged.of_assignKeys : ∀ (e : Element Node) {supply : KeySupply} {m : Markup},
    ElementTagged options a P ((assignElementKeys e).run supply).1 m →
      ElementTagged options a P e m
  | ⟨tag, name, key, selfClosing, attrs, events, style, children, dependency⟩, supply, m, h => by
      obtain ⟨key', supply₁, supply₂, hkeyed⟩ := exists_run_assignElementKeys
        ⟨tag, name, key, selfClosing, attrs, events, style, children, dependency⟩ supply
      rw [hkeyed] at h
      cases h with
      | intro htag hattrs hattributes hchildren =>
          exact .intro htag (AttrsTagged.of_assignKeys attrs hattrs) hattributes
            (ChildrenTagged.of_assignKeys children hchildren)

theorem AttrsTagged.of_assignKeys : ∀ (attrs : List (String × Attribute Node))
    {supply : KeySupply} {written : List (String × MarkupValue)},
    AttrsTagged options a P ((assignAttrKeys attrs).run supply).1 written →
      AttrsTagged options a P attrs written
  | [], supply, written, h => h
  | (name, .static value) :: rest, supply, written, h => by
      cases h with
      | plain hplain hrest => exact .plain hplain (AttrsTagged.of_assignKeys rest hrest)
  | (name, .dynamic r) :: rest, supply, written, h => by
      cases h with
      | plain hplain hrest => exact .plain hplain (AttrsTagged.of_assignKeys rest hrest)
  | (name, .imported id) :: rest, supply, written, h => by
      cases h with
      | plain hplain hrest => exact .plain hplain (AttrsTagged.of_assignKeys rest hrest)
  | (name, .slot content) :: rest, supply, written, h => by
      cases h with
      | plain hplain _ => exact absurd rfl (hplain _)
      | slot hcontent hrest =>
          exact .slot (NodeTagged.of_assignKeys content hcontent)
            (AttrsTagged.of_assignKeys rest hrest)

theorem ChildrenTagged.of_assignKeys : ∀ (children : List Node) {supply : KeySupply}
    {cs : List MarkupChild},
    ChildrenTagged options a P ((assignAllKeys children).run supply).1 cs →
      ChildrenTagged options a P children cs
  | [], supply, cs, h => h
  | n :: rest, supply, cs, h => by
      cases h with
      | cons hn hrest =>
          exact .cons (NodeTagged.of_assignKeys n hn) (ChildrenTagged.of_assignKeys rest hrest)

end

theorem NodeTagged.of_withKeys {n : Node} {t : Target}
    (h : NodeTagged options a P n.withKeys t) : NodeTagged options a P n t :=
  NodeTagged.of_assignKeys n h

end Keys

end ViewGen
