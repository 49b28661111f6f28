import ViewGen.Draft.FunctionComponent
import ViewGen.Proofs.CompileSteps
import ViewGen.Proofs.ImportHistory

/-!
# What every step of a compilation does, a compilation does

A compilation does four things to its workspace: it registers imports, adds elements, sets an
attribute of an element, and has raw markup turned into something.  A relation that holds between
the workspaces before and after each of them, and that can be composed, holds between those before
and after the compilation of a tree.

## Main definitions

* `CompileOptions.StepsIn` — all steps of compilations are in a relation

## Main statements

* `CompileOptions.StepsIn.node`, … — then all compilations are
* `stepsIn_imports` — import tables grow, whatever raw markup is turned into

## Design notes

The four kinds of trees are gone through here, once for all relations.  What a compilation yields is
left out; statements about it need an induction of their own.
-/

namespace ViewGen

open Compile (Yields)

/-- The steps of a compilation are in a relation that can be composed. -/
structure CompileOptions.StepsIn (options : CompileOptions) (R : Workspace → Workspace → Prop) :
    Prop where
  refl : ∀ w, R w w
  trans : ∀ {w w' w''}, R w w' → R w' w'' → R w w''
  register : ∀ w name d, R w { w with imports := (w.imports.register name d).2 }
  add : ∀ w key m, R w (w.add key m)
  set : ∀ w id name value, R w { w with arena := w.arena.set id name value }
  inject : ∀ turn, options.injectMarkup = some turn → ∀ markup w,
    R w { w with arena := (turn markup w.arena).2 }

namespace CompileOptions.StepsIn

variable {options : CompileOptions} {R : Workspace → Workspace → Prop}

theorem tag (hR : options.StepsIn R) {name tag : String} {dependency : Option Dependency}
    {w w' : Workspace} (h : Yields (Compile.tag options name dependency) w tag w') : R w w' := by
  cases dependency with
  | none =>
      obtain ⟨-, rfl⟩ := yields_tag_none.mp h
      exact hR.refl w'
  | some d =>
      obtain ⟨bound, hbound, -⟩ := yields_tag_some.mp h
      split at hbound
      · obtain ⟨-, rfl⟩ := Compile.yields_register.mp hbound
        exact hR.register w name d
      · obtain ⟨-, rfl⟩ := Compile.yields_pure.mp hbound
        exact hR.refl w'

mutual

/-- **A compilation is in every relation that its steps are in.** -/
theorem node (hR : options.StepsIn R) :
    ∀ (n : Node) {w w' : Workspace} {t : Target}, Yields (compileNode options n) w t w' → R w w'
  | .static value, w, w', t, h => by
      obtain ⟨-, rfl⟩ := yields_node_static.mp h
      exact hR.refl w'
  | .dynamic r, w, w', t, h => by
      obtain ⟨e, -, -, rfl⟩ := yields_node_dynamic.mp h
      exact hR.refl w'
  | .raw markup, w, w', t, h => by
      have hraw := yields_node_raw.mp h
      cases hturn : options.injectMarkup with
      | none =>
          rw [Compile.inject, hturn] at hraw
          obtain ⟨-, rfl⟩ := Compile.yields_pure.mp hraw
          exact hR.refl w'
      | some turn =>
          obtain ⟨-, rfl⟩ := (Compile.yields_inject hturn).mp hraw
          exact hR.inject turn hturn markup w
  | .element e, w, w', t, h => by
      obtain ⟨id, hid, -⟩ := yields_node_element.mp h
      exact element hR e hid
  | .loop ⟨template, source, names⟩, w, w', t, h => by
      obtain ⟨items, id, w₁, key, -, hid, -, rfl, -⟩ := yields_node_loop.mp h
      exact hR.trans (element hR template hid) (hR.set w₁ id _ _)
  | .conditional ⟨inside, subject, value, condition⟩, w, w', t, h => by
      obtain ⟨s, inner, -, hinner, -⟩ := yields_node_conditional.mp h
      exact node hR inside hinner
  | .slot ⟨name, none⟩, w, w', t, h => by
      obtain ⟨forwarded, -, -, rfl⟩ := (yields_node_slot_forward (.inr rfl)).mp h
      exact hR.refl w'
  | .slot ⟨name, some fallback⟩, w, w', t, h => by
      cases hslots : options.slots with
      | forwardChildren =>
          obtain ⟨forwarded, -, -, rfl⟩ := (yields_node_slot_forward (.inl hslots)).mp h
          exact hR.refl w'
      | fallbackWhenEmpty =>
          obtain ⟨forwarded, inner, -, hinner, -⟩ := (yields_node_slot_fallback hslots).mp h
          exact node hR fallback hinner

theorem element (hR : options.StepsIn R) :
    ∀ (e : Element Node) {w w' : Workspace} {id : ElementId},
      Yields (compileElement options e) w id w' → R w w'
  | ⟨_, _, key, _, attributes, _, _, inside, _⟩, w, w', id, h => by
      obtain ⟨bound, w₁, m, w₂, m', cs, w₃, hbound, hm, -, hcs, -, rfl⟩ := yields_element.mp h
      have hattrs : R w₁ w₂ := attrs hR attributes hm
      have hchildren : R w₂ w₃ := children hR inside hcs
      exact hR.trans (hR.trans (hR.trans (hR.tag hbound) hattrs) hchildren) (hR.add w₃ key _)

theorem attrs (hR : options.StepsIn R) :
    ∀ (attributes : List (String × Attribute Node)) {m m' : Markup} {w w' : Workspace},
      Yields (compileAttrs options m attributes) w m' w' → R w w'
  | [], m, m', w, w', h => by
      obtain ⟨-, rfl⟩ := yields_attrs_nil.mp h
      exact hR.refl w'
  | (name, .static value) :: rest, m, m', w, w', h => attrs hR rest (yields_attrs_static.mp h)
  | (name, .dynamic r) :: rest, m, m', w, w', h => by
      obtain ⟨e, -, hrest⟩ := yields_attrs_dynamic.mp h
      exact attrs hR rest hrest
  | (name, .imported id) :: rest, m, m', w, w', h => attrs hR rest (yields_attrs_imported.mp h)
  | (name, .slot content) :: rest, m, m', w, w', h => by
      obtain ⟨t, w₁, ht, hrest⟩ := yields_attrs_slot.mp h
      exact hR.trans (node hR content ht) (attrs hR rest hrest)

theorem children (hR : options.StepsIn R) :
    ∀ (inside : List Node) {cs : List MarkupChild} {w w' : Workspace},
      Yields (compileChildren options inside) w cs w' → R w w'
  | [], cs, w, w', h => by
      obtain ⟨-, rfl⟩ := yields_children_nil.mp h
      exact hR.refl w'
  | n :: rest, cs, w, w', h => by
      obtain ⟨t, w₁, others, ht, hothers, -⟩ := yields_children_cons.mp h
      exact hR.trans (node hR n ht) (children hR rest hothers)

end

theorem hooks (hR : options.StepsIn R) {runtime : Runtime} {states : Dict StateDefinition}
    {statements : List Statement} {w w' : Workspace}
    (h : Yields (Compile.hooks runtime states) w statements w') : R w w' := by
  rw [Compile.hooks] at h
  split at h
  · obtain ⟨-, rfl⟩ := Compile.yields_pure.mp h
    exact hR.refl w'
  · obtain ⟨useState, w₁, hregister, hhooks⟩ := Compile.yields_bind_iff.mp h
    obtain ⟨-, rfl⟩ := Compile.yields_register.mp hregister
    obtain ⟨-, rfl⟩ := Compile.yields_pure.mp hhooks
    exact hR.register w _ _

/-- The body of a function is compiled in such steps once the runtime is registered. -/
theorem functionBody (hR : options.StepsIn R) {runtime : Runtime} {c : Component}
    {body : List Statement} {w w' : Workspace}
    (h : Yields (Compile.functionBody runtime options c) w body w') :
    R { w with imports := (w.imports.register runtime.pragma runtime.package).2 } w' := by
  obtain ⟨pragma, w₁, hpragma, hrest⟩ := Compile.yields_bind_iff.mp h
  obtain ⟨statements, w₂, hhooks, hrest⟩ := Compile.yields_bind_iff.mp hrest
  obtain ⟨root, w₃, hroot, hreturn⟩ := Compile.yields_bind_iff.mp hrest
  obtain ⟨-, rfl⟩ := Compile.yields_register.mp hpragma
  obtain ⟨-, rfl⟩ := Compile.yields_pure.mp hreturn
  exact hR.trans (hR.hooks hhooks) (hR.node c.node hroot)

end CompileOptions.StepsIn

/-- Every step lets the import table grow, or leaves it as it is. -/
theorem stepsIn_imports (options : CompileOptions) :
    options.StepsIn fun w w' => w.imports.Grows w'.imports where
  refl w := .refl w.imports
  trans h h' := h.trans h'
  register w name d := w.imports.grows_register name d
  add w _ _ := .refl w.imports
  set w _ _ _ := .refl w.imports
  inject _ _ _ w := .refl w.imports

end ViewGen
