import ViewGen.Proofs.DerivedNames
import ViewGen.Proofs.TagBindings

/-!
# The runtime under its own name

Markup in a script compiles to calls of the framework's runtime, under a fixed name that has to be
in scope.  The runtime is the first import of a function component, so no other import can have
taken that name; but the name of the component is kept before it, and the two can be the same.

## Main statements

* `Draft.grows_of_declareComponent` — the table of a declared component is that with its name and
  the runtime, and what was registered later
* `runtime_bound_iff` — the runtime is bound to its own name exactly when the component does not have
  that name
-/

namespace ViewGen

open ImportTable

theorem ImportTable.reserve?_empty (name : String) :
    reserve? {} name = some { reserved := [name] } := by
  simp [reserve?, Dict.has]

namespace Runtime

/-- The table of a function component once its runtime is registered. -/
def imports (runtime : Runtime) (name : String) : ImportTable :=
  (register { reserved := [name] } runtime.pragma runtime.package).2

variable (runtime : Runtime) (name : String)

theorem grows_imports : ({ reserved := [name] } : ImportTable).Grows (runtime.imports name) :=
  grows_register _ _ _

theorem proper_imports : (runtime.imports name).Proper := by
  have hreserved := grows_reserve {} name
  rw [reserve?_empty] at hreserved
  exact (runtime.grows_imports name).proper (hreserved.proper proper_empty)

/-- The runtime has its own name, if the component does not have it. -/
theorem get?_imports {runtime : Runtime} {name : String} (h : name ≠ runtime.pragma) :
    (runtime.imports name).entries.get? runtime.pragma = some runtime.package := by
  have hfree : ({ reserved := [name] } : ImportTable).isFree runtime.pragma = true :=
    isFree_iff.mpr ⟨List.not_mem_nil, by simpa using h.symm⟩
  have hholds : ({ reserved := [name] } : ImportTable).holds runtime.pragma runtime.package =
      false := rfl
  rw [imports, register, hholds, hfree]
  simp [ImportTable.bind, Dict.get?]

/-- The name of a component is the name of a runtime for one framework only. -/
theorem eq_react {framework : Framework} {runtime : Runtime} {name : String}
    (hruntime : framework.runtime? = some runtime) (h : componentName name = runtime.pragma) :
    framework = .react := by
  cases framework with
  | react => rfl
  | preact =>
      obtain rfl := Option.some.inj hruntime
      obtain ⟨c, hhead, hupper⟩ := exists_head?_componentName name
      rw [h] at hhead
      obtain rfl : 'h' = c := Option.some.inj hhead
      exact absurd hupper (by decide)
  | vue => exact absurd hruntime (by simp [Framework.runtime?])

end Runtime

namespace Draft

/-- A component that is declared with an empty table keeps its name and registers the runtime before
anything else. -/
theorem grows_of_declareComponent {framework : Framework} {runtime : Runtime}
    (hruntime : framework.runtime? = some runtime) {options : CompileOptions} {d d' : Draft}
    (hempty : d.imports = {}) (hrun : d.declareComponent framework options = .ok d') :
    (runtime.imports (componentName d.component.name)).Grows d'.imports := by
  obtain ⟨imports, body, w, hreserve, hbody, rfl⟩ := (declareComponent_iff hruntime).mp hrun
  have hreserved : imports = { reserved := [componentName d.component.name] } := by
    rw [reserve, hempty, reserve?_empty] at hreserve
    exact (congrArg Draft.imports (Except.ok.inj hreserve)).symm
  subst hreserved
  have hgrows := (stepsIn_imports options).functionBody hbody
  dsimp only at hgrows
  rw [Draft.imports, workspace_addComponent]
  exact hgrows

end Draft

/-- **The runtime is bound to its own name exactly when this is not the name of the component.**  A
component for Preact has another name in any case.  A component that is called `React` has it for
itself: nothing is bound to it then, and the runtime of React is imported under a name that the
markup does not use. -/
theorem runtime_bound_iff {framework : Framework} {runtime : Runtime}
    (hruntime : framework.runtime? = some runtime) (options : CompileOptions) {d d' : Draft}
    (hempty : d.imports = {}) (hrun : (functionComponentPass framework options).run d = .ok d') :
    (d'.imports.entries.get? runtime.pragma = some runtime.package ↔
      componentName d.component.name ≠ runtime.pragma) ∧
    (framework = .preact → d'.imports.entries.get? runtime.pragma = some runtime.package) ∧
    (componentName d.component.name = runtime.pragma →
      runtime.pragma = "React" ∧ d'.imports.entries.get? "React" = none ∧
        d'.imports.entries.get? "ReactReact" =
          some { runtime.package with renamedFrom := some "React" }) := by
  have hgrows := Draft.grows_of_declareComponent hruntime hempty hrun
  have hbound : componentName d.component.name ≠ runtime.pragma →
      d'.imports.entries.get? runtime.pragma = some runtime.package :=
    fun hne => get?_of_grows hgrows (Runtime.get?_imports hne)
  have hunbound : d'.imports.entries.get? (componentName d.component.name) = none := by
    have hreserved := (runtime.grows_imports (componentName d.component.name)).trans hgrows
    have hproper := hgrows.proper (runtime.proper_imports _)
    exact Dict.get?_eq_none_iff.mpr
      (hproper.disjoint _ (hreserved.reserved.subset List.mem_cons_self))
  refine ⟨⟨fun hget heq => ?_, hbound⟩, ?_, fun heq => ?_⟩
  · rw [heq, hget] at hunbound
    exact absurd hunbound (by simp)
  · rintro rfl
    refine hbound fun heq => ?_
    exact absurd (Runtime.eq_react hruntime heq) (by decide)
  · obtain rfl := Runtime.eq_react hruntime heq
    obtain rfl := Option.some.inj hruntime
    rw [heq] at hgrows hunbound
    exact ⟨rfl, hunbound, get?_of_grows hgrows (by decide)⟩

/-- A cart that shows an element of another package, which is called like the runtime. -/
def reactCart : Component where
  name := "react cart"
  node := .element {
    tag := "div"
    children := [.element { tag := "React", dependency := some (.package "kit" none) }] }

/-- The cart is declared, and its runtime has the name that the element asks for. -/
theorem reactCart_binds_runtime :
    Framework.react.runtime? = some ⟨"React", .package "react" reactVersion,
        (Dependency.package "react" reactVersion).byName⟩ ∧
      ∃ d', (functionComponentPass .react {}).run { component := reactCart, fileName := "" } =
          .ok d' ∧
        d'.imports.entries.keys = ["React", "KitReact"] ∧
        d'.imports.entries.get? "React" = some (.package "react" reactVersion) := by
  have hrun : (functionComponentPass .react {}).run { component := reactCart, fileName := "" } =
      .ok _ := rfl
  refine ⟨rfl, _, hrun, by decide, ?_⟩
  exact (runtime_bound_iff rfl {} rfl hrun).1.mpr (by decide)

/-- A component that has the name of the runtime. -/
def reactComponent : Component where
  name := "React"
  node := .element { tag := "div" }

/-- The component is declared, and nothing is bound to the name of the runtime. -/
theorem reactComponent_unbinds_runtime :
    ∃ d', (functionComponentPass .react {}).run { component := reactComponent, fileName := "" } =
        .ok d' ∧
      d'.imports.entries.keys = ["ReactReact"] ∧ d'.imports.entries.get? "React" = none := by
  exact ⟨_, rfl, by decide, by decide⟩

end ViewGen
