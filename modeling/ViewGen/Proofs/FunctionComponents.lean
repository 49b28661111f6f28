import ViewGen.Draft.FunctionComponent
import ViewGen.Proofs.CompileSteps

/-!
# What declaring a function component does

The function of a component has the hooks of its states and the compiled root in its body.
Declaring the component keeps its name from the imports and adds up to three chunks.

## Main definitions

* `functionBodyOf` — the body that goes with a compiled root

## Main statements

* `yields_functionBody_iff` — the body is compiled exactly when the root is
* `declareComponent_iff` — a component is declared exactly when its name can be kept and its body
  compiled
-/

namespace ViewGen

open Compile (Yields yields_bind_iff yields_pure yields_register)

/-- The body of a function: the hooks of the states, and the compiled root. -/
def functionBodyOf (useState : String) (c : Component) (root : Target) : List Statement :=
  stateHooks useState c.states ++ [.returning root.toExpr]

/-- The hooks bind the states in all cases; an import is registered for them when there are any. -/
theorem exists_yields_hooks_iff (runtime : Runtime) (states : Dict StateDefinition)
    (w : Workspace) :
    ∃ useState imports, ∀ hooks w', Yields (Compile.hooks runtime states) w hooks w' ↔
      hooks = stateHooks useState states ∧ w' = { w with imports } := by
  rw [Compile.hooks]
  cases states with
  | nil => exact ⟨"useState", w.imports, fun hooks w' => yields_pure⟩
  | cons state rest =>
      refine ⟨(w.imports.register "useState" runtime.hooks).1,
        (w.imports.register "useState" runtime.hooks).2, fun hooks w' => ?_⟩
      simp only [List.isEmpty_cons, Bool.false_eq_true, if_false, yields_bind_iff, yields_register,
        yields_pure]
      constructor
      · rintro ⟨useState, w₁, ⟨rfl, rfl⟩, rfl, rfl⟩
        exact ⟨rfl, rfl⟩
      · rintro ⟨rfl, rfl⟩
        exact ⟨_, _, ⟨rfl, rfl⟩, rfl, rfl⟩

/-- **The body of a function is compiled exactly when the root is**, on a workspace with the imports
of the framework. -/
theorem yields_functionBody_iff (runtime : Runtime) (options : CompileOptions) (c : Component)
    (w : Workspace) :
    ∃ useState imports, ∀ body w', Yields (Compile.functionBody runtime options c) w body w' ↔
      ∃ root, Yields (compileNode options c.node) { w with imports } root w' ∧
        body = functionBodyOf useState c root := by
  obtain ⟨useState, imports, hhooks⟩ := exists_yields_hooks_iff runtime c.states
    { w with imports := (w.imports.register runtime.pragma runtime.package).2 }
  refine ⟨useState, imports, fun body w' => ?_⟩
  rw [Compile.functionBody]
  simp only [yields_bind_iff, yields_register, yields_pure]
  constructor
  · rintro ⟨_, _, ⟨-, rfl⟩, hooks, w₁, hw₁, root, _, hroot, rfl, rfl⟩
    obtain ⟨rfl, rfl⟩ := (hhooks hooks w₁).mp hw₁
    exact ⟨root, hroot, rfl⟩
  · rintro ⟨root, hroot, rfl⟩
    exact ⟨_, _, ⟨rfl, rfl⟩, _, _, (hhooks _ _).mpr ⟨rfl, rfl⟩, root, w', hroot, rfl, rfl⟩

namespace Draft

/-- The chunk that was put in is found under its name. -/
theorem chunk?_put_self (d : Draft) (c : Chunk) : (d.put c).chunk? c.name = some c := by
  rw [chunk?, put]
  induction d.chunks with
  | nil => simp [Chunk.put]
  | cons first rest ih =>
      rw [Chunk.put]
      split
      · simp
      · next hne => rwa [List.find?_cons_of_neg (by simpa using hne)]

/-- Under all other names the same chunks are found as before. -/
theorem chunk?_put_of_ne (d : Draft) {c : Chunk} {name : String} (h : c.name ≠ name) :
    (d.put c).chunk? name = d.chunk? name := by
  rw [chunk?, chunk?, put]
  dsimp only
  induction d.chunks with
  | nil => simp [Chunk.put, h]
  | cons first rest ih =>
      rw [Chunk.put]
      split
      · next heq => rw [List.find?_cons_of_neg (by simpa using h),
          List.find?_cons_of_neg (by simpa [heq] using h)]
      · rw [List.find?_cons, List.find?_cons, ih]

theorem workspace_addTokens (d : Draft) : d.addTokens.workspace = d.workspace := by
  rw [addTokens]
  split <;> rfl

/-- A component is added as chunks alone. -/
theorem workspace_addComponent (d : Draft) (body : List Statement) :
    (d.addComponent body).workspace = d.workspace :=
  d.workspace_addTokens

theorem arena_addTokens (d : Draft) : d.addTokens.arena = d.arena :=
  congrArg Workspace.arena d.workspace_addTokens

/-- Keeping a name changes the reservations alone. -/
theorem eq_withImports_of_reserve {d d' : Draft} {name : String} (h : d.reserve name = .ok d') :
    ∃ imports, d' = d.withImports imports := by
  rw [reserve] at h
  split at h
  · exact ⟨_, (Except.ok.inj h).symm⟩
  · exact absurd h (by simp)

/-- A name can be kept unless an import has it. -/
theorem exists_reserve {d : Draft} {name : String} (h : d.imports.entries.has name = false) :
    ∃ imports, d.reserve name = .ok (d.withImports imports) := by
  by_cases hkept : d.imports.reserved.contains name
  · exact ⟨d.imports, by rw [reserve, ImportTable.reserve?, h, if_neg (by simp), if_pos hkept]⟩
  · exact ⟨_, by rw [reserve, ImportTable.reserve?, h, if_neg (by simp), if_neg hkept]⟩

/-- A component is declared only for a framework that has functions for components. -/
theorem exists_runtime_of_declareComponent {framework : Framework} {options : CompileOptions}
    {d d' : Draft} (h : d.declareComponent framework options = .ok d') :
    ∃ runtime, framework.runtime? = some runtime := by
  rw [declareComponent, bind_eq_ok_iff] at h
  obtain ⟨d₁, -, h⟩ := h
  cases hruntime : framework.runtime? with
  | none =>
      rw [hruntime] at h
      exact absurd h (by simp [throw, throwThe, MonadExceptOf.throw])
  | some runtime => exact ⟨runtime, rfl⟩

/-- **A component is declared exactly when its name can be kept and its body compiled.** -/
theorem declareComponent_iff {framework : Framework} {runtime : Runtime}
    (hruntime : framework.runtime? = some runtime) {options : CompileOptions} {d d' : Draft} :
    d.declareComponent framework options = .ok d' ↔
      ∃ imports body w,
        d.reserve (componentName d.component.name) = .ok (d.withImports imports) ∧
        Yields (Compile.functionBody runtime options d.component) { d.workspace with imports }
          body w ∧
        d' = { d with workspace := w }.addComponent body := by
  rw [declareComponent, bind_eq_ok_iff]
  simp only [hruntime]
  constructor
  · rintro ⟨d₁, hd₁, h⟩
    obtain ⟨imports, rfl⟩ := eq_withImports_of_reserve hd₁
    obtain ⟨body, hbody, h⟩ := bind_eq_ok_iff.mp h
    exact ⟨imports, body, _, hd₁, Prod.ext hbody rfl, (Except.ok.inj h).symm⟩
  · rintro ⟨imports, body, w, hreserve, hbody, rfl⟩
    refine ⟨_, hreserve, ?_⟩
    have hrun : (Compile.functionBody runtime options (d.withImports imports).component).run
        (d.withImports imports).workspace = (.ok body, w) := hbody
    rw [hrun]
    rfl

end Draft

end ViewGen
