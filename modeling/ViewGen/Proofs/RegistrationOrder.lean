import ViewGen.Proofs.ComponentImports
import ViewGen.Proofs.TemplatePrinting

/-!
# The order in which dependencies are registered

The name that an import is given depends on the imports before it, so two ways to write a tree agree
on all names only if they come upon its dependencies in the same order.  Compiling a tree and
writing it as a template both register what the elements ask for in the order of the document: an
element before the nodes passed as its attributes, and these before its children.

## Main definitions

* `ImportTable.Registers` — a table is another one after some requests, one after the other

## Main statements

* `registers_node` — a compilation that shows fallbacks registers what the elements of the tree ask
  for, in order
* `Template.registers_node` — so does writing a template
* `back_ends_bind_alike` — the two end with the same table

## Design notes

`ImportTable.Answered` says only that nothing else is bound.  Here every request has to be made, so
fallbacks must be compiled and imports must be bound.
-/

namespace ViewGen

open Compile (Yields yields_pure yields_register)

namespace ImportTable

/-- The second table is the first one after the requests were registered, one after the other. -/
def Registers (requests : Dict Dependency) (t u : ImportTable) : Prop :=
  u = t.after (registrations requests)

theorem Registers.nil (t : ImportTable) : Registers [] t t :=
  rfl

theorem Registers.single (t : ImportTable) (name : String) (d : Dependency) :
    Registers [(name, d)] t (t.register name d).2 :=
  rfl

theorem Registers.trans {requests others : Dict Dependency} {t u v : ImportTable}
    (h : Registers requests t u) (h' : Registers others u v) :
    Registers (requests ++ others) t v := by
  unfold Registers at *
  subst h h'
  simp only [registrations, after, List.map_append, List.foldl_append]

end ImportTable

open ImportTable (Registers)

/-! ## Compilation -/

section Compilation

variable {options : CompileOptions}

/-- Options with which every dependency of a tree is registered. -/
structure CompileOptions.BindsAll (options : CompileOptions) : Prop where
  imports : options.bindImports = true
  fallbacks : options.slots = .fallbackWhenEmpty

theorem registers_tag (h : options.BindsAll) {name tag : String} {dependency : Option Dependency}
    {w w' : Workspace} (hyields : Yields (Compile.tag options name dependency) w tag w') :
    Registers (dependency.toList.map (name, ·)) w.imports w'.imports := by
  cases dependency with
  | none =>
      obtain ⟨-, rfl⟩ := yields_tag_none.mp hyields
      exact .nil _
  | some d =>
      obtain ⟨bound, hbound, -⟩ := yields_tag_some.mp hyields
      rw [if_pos h.imports] at hbound
      obtain ⟨-, rfl⟩ := yields_register.mp hbound
      exact .single _ _ _

mutual

/-- **A compilation registers what the elements of the tree ask for**, in order. -/
theorem registers_node (h : options.BindsAll) : ∀ (n : Node) {w w' : Workspace} {t : Target},
    Yields (compileNode options n) w t w' →
      Registers (elementRequests n.elements) w.imports w'.imports
  | .static value, w, w', t, hyields => by
      obtain ⟨-, rfl⟩ := yields_node_static.mp hyields
      exact .nil _
  | .dynamic r, w, w', t, hyields => by
      obtain ⟨e, -, -, rfl⟩ := yields_node_dynamic.mp hyields
      exact .nil _
  | .raw markup, w, w', t, hyields => by
      have hraw := yields_node_raw.mp hyields
      cases hturn : options.injectMarkup with
      | none =>
          rw [Compile.inject, hturn] at hraw
          obtain ⟨-, rfl⟩ := yields_pure.mp hraw
          exact .nil _
      | some turn =>
          obtain ⟨-, rfl⟩ := (Compile.yields_inject hturn).mp hraw
          exact .nil _
  | .element e, w, w', t, hyields => by
      obtain ⟨id, hid, -⟩ := yields_node_element.mp hyields
      exact registers_element h e hid
  | .loop ⟨template, source, names⟩, w, w', t, hyields => by
      obtain ⟨items, id, w₁, key, -, hid, -, rfl, -⟩ := yields_node_loop.mp hyields
      have htemplate := registers_element h template hid
      exact htemplate
  | .conditional ⟨node, subject, value, condition⟩, w, w', t, hyields => by
      obtain ⟨s, inner, -, hinner, -⟩ := yields_node_conditional.mp hyields
      exact registers_node h node hinner
  | .slot ⟨name, none⟩, w, w', t, hyields => by
      obtain ⟨forwarded, -, -, rfl⟩ := (yields_node_slot_forward (.inr rfl)).mp hyields
      exact .nil _
  | .slot ⟨name, some fallback⟩, w, w', t, hyields => by
      obtain ⟨forwarded, inner, -, hinner, -⟩ := (yields_node_slot_fallback h.fallbacks).mp hyields
      exact registers_node h fallback hinner

theorem registers_element (h : options.BindsAll) :
    ∀ (e : Element Node) {w w' : Workspace} {id : ElementId},
      Yields (compileElement options e) w id w' →
        Registers (elementRequests (Node.elementsOf e)) w.imports w'.imports
  | ⟨tag, name, key, selfClosing, attrs, events, style, children, dependency⟩, w, w', id,
      hyields => by
      obtain ⟨bound, w₁, m, w₂, m', cs, w₃, hbound, hm, -, hcs, -, rfl⟩ := yields_element.mp hyields
      have hinside := (registers_attrs h attrs hm).trans (registers_children h children hcs)
      rw [elementRequests_elementsOf]
      exact (registers_tag h hbound).trans hinside

theorem registers_attrs (h : options.BindsAll) :
    ∀ (attrs : List (String × Attribute Node)) {m m' : Markup} {w w' : Workspace},
      Yields (compileAttrs options m attrs) w m' w' →
        Registers (elementRequests (Node.elementsOfAttrs attrs)) w.imports w'.imports
  | [], m, m', w, w', hyields => by
      obtain ⟨-, rfl⟩ := yields_attrs_nil.mp hyields
      exact .nil _
  | (name, .static value) :: rest, m, m', w, w', hyields =>
      registers_attrs h rest (yields_attrs_static.mp hyields)
  | (name, .dynamic r) :: rest, m, m', w, w', hyields => by
      obtain ⟨e, -, hrest⟩ := yields_attrs_dynamic.mp hyields
      exact registers_attrs h rest hrest
  | (name, .imported id) :: rest, m, m', w, w', hyields =>
      registers_attrs h rest (yields_attrs_imported.mp hyields)
  | (name, .slot content) :: rest, m, m', w, w', hyields => by
      obtain ⟨t, w₁, ht, hrest⟩ := yields_attrs_slot.mp hyields
      have hboth := (registers_node h content ht).trans (registers_attrs h rest hrest)
      rwa [← elementRequests_append] at hboth

theorem registers_children (h : options.BindsAll) :
    ∀ (children : List Node) {cs : List MarkupChild} {w w' : Workspace},
      Yields (compileChildren options children) w cs w' →
        Registers (elementRequests (Node.elementsOfAll children)) w.imports w'.imports
  | [], cs, w, w', hyields => by
      obtain ⟨-, rfl⟩ := yields_children_nil.mp hyields
      exact .nil _
  | n :: rest, cs, w, w', hyields => by
      obtain ⟨t, w₁, others, ht, hothers, -⟩ := yields_children_cons.mp hyields
      have hboth := (registers_node h n ht).trans (registers_children h rest hothers)
      rwa [← elementRequests_append] at hboth

end

end Compilation

/-! ## Templates -/

namespace Template

variable {print : Expr → String}

theorem registers_tag {name bound : String} {dependency : Option Dependency} {t t' : Template}
    (h : Writing.Yields (tag name dependency) t bound t') :
    Registers (dependency.toList.map (name, ·)) t.imports t'.imports := by
  cases dependency with
  | none =>
      obtain ⟨-, rfl⟩ := yields_tag_none.mp h
      exact .nil _
  | some d =>
      obtain ⟨-, rfl⟩ := yields_tag_some.mp h
      exact .single _ _ _

mutual

/-- **Writing a template registers what the elements of the tree ask for**, in order.  Directives
make no difference. -/
theorem registers_node : ∀ (n : Node) {directives : List String} {level : Nat} {t t' : Template}
    {text : String}, Writing.Yields (nodeWith print directives n level) t text t' →
      Registers (elementRequests n.elements) t.imports t'.imports
  | .static value, directives, level, t, t', text, h => by
      simp only [nodeWith] at h
      obtain ⟨-, rfl⟩ := yields_static.mp h
      exact .nil _
  | .dynamic r, directives, level, t, t', text, h => by
      simp only [nodeWith] at h
      obtain ⟨e, -, -, rfl⟩ := yields_dynamic.mp h
      exact .nil _
  | .raw markup, directives, level, t, t', text, h => by
      simp only [nodeWith] at h
      obtain ⟨-, rfl⟩ := yields_raw.mp h
      exact .nil _
  | .element e, directives, level, t, t', text, h => registers_element e h
  | .loop ⟨template, source, names⟩, directives, level, t, t', text, h => by
      simp only [nodeWith] at h
      obtain ⟨_, -, htemplate⟩ := yields_loop.mp h
      exact registers_element template htemplate
  | .conditional ⟨inner, subject, value, condition⟩, directives, level, t, t', text, h => by
      obtain ⟨directive, ⟨-, hinner⟩ | ⟨-, content, hinner, -⟩⟩ := yields_conditional_cases h
      · exact registers_node inner hinner
      · exact registers_node inner hinner
  | .slot ⟨name, none⟩, directives, level, t, t', text, h => by
      simp only [nodeWith] at h
      obtain ⟨-, rfl⟩ := yields_slot_none.mp h
      exact .nil _
  | .slot ⟨name, some fallback⟩, directives, level, t, t', text, h => by
      simp only [nodeWith] at h
      obtain ⟨content, hcontent, -⟩ := yields_slot_some.mp h
      rw [← nodeWith_nil] at hcontent
      exact registers_node fallback hcontent

theorem registers_element : ∀ (e : Element Node) {directives : List String} {level : Nat}
    {t t' : Template} {text : String}, Writing.Yields (element print e directives level) t text t' →
      Registers (elementRequests (Node.elementsOf e)) t.imports t'.imports
  | ⟨name, label, key, selfClosing, attrs, handlers, rules, children, dependency⟩, directives,
      level, t, t', text, h => by
      obtain ⟨bound, t₁, written, slots, t₂, styles, listeners, texts, hbound, hattrs, -, -,
        hchildren, -⟩ := yields_element.mp h
      have hinside := (registers_attributes attrs hattrs).trans (registers_nodes children hchildren)
      rw [elementRequests_elementsOf]
      exact (registers_tag hbound).trans hinside

theorem registers_attributes : ∀ (attrs : List (String × Attribute Node)) {level : Nat}
    {t t' : Template} {written slots : List String},
    Writing.Yields (attributes print level attrs) t (written, slots) t' →
      Registers (elementRequests (Node.elementsOfAttrs attrs)) t.imports t'.imports
  | [], level, t, t', written, slots, h => by
      obtain ⟨-, -, rfl⟩ := yields_attributes_nil.mp h
      exact .nil _
  | (name, .static value) :: rest, level, t, t', written, slots, h => by
      obtain ⟨others, hrest, -⟩ := yields_attributes_static.mp h
      exact registers_attributes rest hrest
  | (name, .dynamic r) :: rest, level, t, t', written, slots, h => by
      obtain ⟨e, others, -, hrest, -⟩ := yields_attributes_dynamic.mp h
      exact registers_attributes rest hrest
  | (name, .imported id) :: rest, level, t, t', written, slots, h => by
      obtain ⟨others, hrest, -⟩ := yields_attributes_imported.mp h
      exact registers_attributes rest hrest
  | (name, .slot content) :: rest, level, t, t', written, slots, h => by
      obtain ⟨inner, t₁, others, hinner, hrest, -⟩ := yields_attributes_slot.mp h
      rw [← nodeWith_nil] at hinner
      have hboth := (registers_node content hinner).trans (registers_attributes rest hrest)
      rwa [← elementRequests_append] at hboth

theorem registers_nodes : ∀ (ns : List Node) {level : Nat} {t t' : Template} {texts : List String},
    Writing.Yields (nodes print ns level) t texts t' →
      Registers (elementRequests (Node.elementsOfAll ns)) t.imports t'.imports
  | [], level, t, t', texts, h => by
      obtain ⟨-, rfl⟩ := yields_nodes_nil.mp h
      exact .nil _
  | n :: rest, level, t, t', texts, h => by
      obtain ⟨text, t₁, others, htext, hothers, -⟩ := yields_nodes_cons.mp h
      rw [← nodeWith_nil] at htext
      have hboth := (registers_node n htext).trans (registers_nodes rest hothers)
      rwa [← elementRequests_append] at hboth

end

end Template

/-! ## Both -/

/-- **Compiling a tree and writing it as a template bind its dependencies alike.**  Started with the
same table, both succeed on every tree and leave the same table: the one they were given after the
requests of the elements, in the order of the document. -/
theorem back_ends_bind_alike {options : CompileOptions} (hoptions : options.BindsAll)
    (hqualifiers : options.qualifiers = functionQualifiers) (n : Node) {w : Workspace}
    {t : Template} (htables : t.imports = w.imports) (print : Expr → String) (level : Nat) :
    ∃ target w' text t', Yields (compileNode options n) w target w' ∧
      Writing.Yields (Template.node print n level) t text t' ∧ w'.imports = t'.imports ∧
      w'.imports = w.imports.after (ImportTable.registrations (elementRequests n.elements)) := by
  have hmaps : options.MapsAll := fun kind => hqualifiers ▸ isSome_functionQualifiers kind
  obtain ⟨target, w', hcompiled⟩ := exists_yields_node hmaps n w
  have halike : Template.Alike print print := fun _ _ => rfl
  obtain ⟨text, t', hwritten, -⟩ := Template.exists_node halike n level t
  have hcompile := registers_node hoptions n hcompiled
  have hwrite : Registers (elementRequests n.elements) t.imports t'.imports := by
    rw [← Template.nodeWith_nil] at hwritten
    exact Template.registers_node n hwritten
  refine ⟨target, w', text, t', hcompiled, hwritten, ?_, hcompile⟩
  rw [htables] at hwrite
  exact Eq.trans hcompile hwrite.symm

/-- A panel with a button of another package in each place where a node can stand. -/
def clashingPanel : Node :=
  .element {
    tag := "Panel"
    dependency := some (.package "ui" none)
    attrs := [("icon", .slot (.element {
      tag := "Button", dependency := some (.package "lib" none) }))]
    children := [
      .loop {
        template := { tag := "Button", dependency := some (.package "ui" none) }
        source := .inline [] },
      .conditional {
        node := .slot { fallback := some (.element {
          tag := "Button", dependency := some (.package "kit" none) }) }
        subject := ⟨"open", .prop⟩ }] }

/-- The panel is bound alike where its own name is bound already and one of the names for its
buttons is reserved: the button that comes first keeps its name. -/
theorem clashingPanel_binds_alike :
    let options : CompileOptions := { slots := .fallbackWhenEmpty }
    let start : ImportTable := {
      entries := [("Panel", .ofProject "./panel")], reserved := ["KitButton"] }
    options.BindsAll ∧ options.qualifiers = functionQualifiers ∧
      ∃ target w' text t', Yields (compileNode options clashingPanel) { imports := start } target w' ∧
        Writing.Yields (Template.node Template.exprText clashingPanel 0) { imports := start } text
          t' ∧
        w'.imports = t'.imports ∧
        t'.imports.entries.map (fun entry => (entry.1, entry.2.path)) =
          [("Panel", "./panel"), ("UiPanel", "ui"), ("Button", "lib"), ("UiButton", "ui"),
            ("KitButton2", "kit")] := by
  intro options start
  have hoptions : options.BindsAll := ⟨rfl, rfl⟩
  obtain ⟨target, w', text, t', hcompiled, hwritten, hsame, htable⟩ :=
    back_ends_bind_alike hoptions rfl clashingPanel (w := { imports := start })
      (t := { imports := start }) rfl Template.exprText 0
  refine ⟨hoptions, rfl, target, w', text, t', hcompiled, hwritten, hsame, ?_⟩
  rw [← hsame, htable]
  decide +kernel

end ViewGen
