import ViewGen.Proofs.DraftInvariants

/-!
# When a component is generated

The passes of every generator succeed on every component, whatever it refers to.  So a generation
fails only when one of the two checks before it does, and with the error of that check.

## Main statements

* `exists_runPasses` — the passes succeed and leave a sound draft
* `generate_succeeds_iff_checked` — a generation succeeds exactly when both checks do
-/

namespace ViewGen

namespace GeneratorOptions

variable (o : GeneratorOptions)

theorem mapsAll_compileOptions : o.compileOptions.MapsAll :=
  isSome_functionQualifiers

theorem injectsAfter_compileOptions : o.compileOptions.InjectsAfter :=
  injectsAfter_of_innerMarkup rfl

theorem turns_stylePass : o.stylePass.Turns Draft.Sound Draft.Sound := by
  rw [stylePass]
  split
  · exact turns_inlineStylePass o.mapsAll_compileOptions
  · exact turns_styleSheetPass o.mapsAll_compileOptions _

/-- The passes of a generator lead from a draft whose component can be declared to a sound one. -/
theorem turn_passes : Passes.Turn o.passes Draft.Nameable Draft.Sound := by
  have himports : Passes.Turn [importPass] Draft.Sound Draft.Sound :=
    (Passes.turn_nil _).cons turns_importPass
  have hcomponent : ∀ {framework : Framework} {runtime : Runtime},
      framework.runtime? = some runtime →
      (functionComponentPass framework o.compileOptions).Turns Draft.Nameable Draft.Sound :=
    fun hruntime => turns_functionComponentPass hruntime o.mapsAll_compileOptions
      o.injectsAfter_compileOptions
  rw [passes]
  cases o.framework with
  | vue =>
      have hvue : vuePass.Turns Draft.Nameable Draft.Sound := fun d hd => turns_vuePass d hd.1
      exact (himports.cons hvue).cons turns_keyPass
  | preact => exact ((himports.cons o.turns_stylePass).cons (hcomponent rfl)).cons turns_keyPass
  | react =>
      exact (((himports.cons turns_propTypesPass).cons o.turns_stylePass).cons
        (hcomponent rfl)).cons turns_keyPass

/-- **The passes succeed on every component**, from every table without its name, and leave a sound
draft. -/
theorem exists_runPasses_from (c : Component) (fileName : String) {imports : ImportTable}
    (h : imports.entries.has (componentName c.name) = false) :
    ∃ d, runPasses o.passes { component := c, fileName, workspace := { imports } } = .ok d ∧
      d.Sound :=
  o.turn_passes.exists_runPasses ⟨(Draft.Sound.start c fileName).withImports imports, h⟩

theorem exists_runPasses (c : Component) (fileName : String) :
    ∃ d, runPasses o.passes { component := c, fileName } = .ok d ∧ d.Sound :=
  o.exists_runPasses_from c fileName rfl

end GeneratorOptions

namespace Generator

variable (o : GeneratorOptions) (c : Component)

theorem exists_compile (fileName : String) : ∃ r, (ofOptions o).compile c fileName = .ok r := by
  obtain ⟨d, hd, -⟩ := o.exists_runPasses c fileName
  exact ⟨_, bind_eq_ok_iff.mpr ⟨d, hd, rfl⟩⟩

/-- A generation fails with the error of the first check that fails, and in no other case. -/
theorem generate_cases :
    (∃ x, c.validate = .error x ∧ (ofOptions o).generate c = .error (.document x)) ∨
      (∃ x, c.validate = .ok () ∧ c.resolve = .error x ∧
        (ofOptions o).generate c = .error (.scope x)) ∨
      c.validate = .ok () ∧ c.resolve = .ok () ∧ ∃ r, (ofOptions o).generate c = .ok r := by
  cases hvalidate : c.validate with
  | error x =>
      refine .inl ⟨x, rfl, ?_⟩
      rw [generate, hvalidate]
      rfl
  | ok u =>
      cases hresolve : c.resolve with
      | error x =>
          refine .inr (.inl ⟨x, rfl, rfl, ?_⟩)
          rw [generate, hvalidate, hresolve]
          rfl
      | ok u =>
          obtain ⟨r, hr⟩ := exists_compile o c
            ((ofOptions o).options.fileName.getD (kebabName c.name))
          refine .inr (.inr ⟨rfl, rfl, r, ?_⟩)
          rw [generate, hvalidate, hresolve]
          exact hr

/-- **A component is generated exactly when both checks accept it.**  When they do not, the error is
that of the first check that fails; no pass, no order of chunks and no printing ever adds an error
of its own.  Printing looks up elements that are there: in scripts every position that is looked up
has an element, and in templates no position is looked up, since the way elements are printed makes
no difference. -/
theorem generate_succeeds_iff_checked (o : GeneratorOptions) (c : Component) :
    ((∃ r, (ofOptions o).generate c = .ok r) ↔ c.validate = .ok () ∧ c.resolve = .ok ()) ∧
      (∀ e, (ofOptions o).generate c = .error e ↔
        (∃ x, c.validate = .error x ∧ e = .document x) ∨
          c.validate = .ok () ∧ ∃ x, c.resolve = .error x ∧ e = .scope x) ∧
      (∀ fileName, ∃ d, runPasses o.passes { component := c, fileName } = .ok d ∧
        ∀ chunk ∈ d.chunks, chunk.PrintsInside d.arena) ∧
      (∀ print, Template.Alike print Template.exprText → ∀ n level t,
        (Template.node print n level).run t = (Template.node Template.exprText n level).run t) := by
  refine ⟨?_, ?_, ?_, ?_⟩
  · rcases generate_cases o c with ⟨x, hx, h⟩ | ⟨x, hvalid, hx, h⟩ | ⟨hvalid, hresolved, hr⟩
    · simp [h, hx]
    · simp [h, hx]
    · exact iff_of_true hr ⟨hvalid, hresolved⟩
  · intro e
    rcases generate_cases o c with ⟨x, hx, h⟩ | ⟨x, hvalid, hx, h⟩ | ⟨hvalid, hresolved, r, hr⟩
    · simp [h, hx, eq_comm]
    · simp [h, hvalid, hx, eq_comm]
    · simp [hr, hvalid, hresolved]
  · intro fileName
    obtain ⟨d, hd, hsound⟩ := o.exists_runPasses c fileName
    exact ⟨d, hd, fun chunk hchunk =>
      hsound.descends.printsInside (hsound.fits chunk hchunk).elements⟩
  · intro print halike n level t
    obtain ⟨text, t', htext, htext'⟩ := Template.exists_node halike n level t
    exact htext.trans htext'.symm

/-- A paragraph that refers to a prop. -/
def greeting : Component where
  name := "Greeting"
  props := [("name", { type := .string })]
  node := .element {
    tag := "p"
    children := [.static (.text "Hello, "), .dynamic ⟨"name", .prop⟩] }

/-- The paragraph is generated as a template, and would be written in the same way by a printer that
has no text for elements. -/
theorem greeting_generated :
    (greeting.validate = .ok () ∧ greeting.resolve = .ok ()) ∧
      (∃ r, (ofOptions { framework := .vue }).generate greeting = .ok r) ∧
      (Template.node (fun e => if e.elementIds.isEmpty then Template.exprText e else "")
          greeting.node 0).run { imports := {} } =
        (Template.node Template.exprText greeting.node 0).run { imports := {} } := by
  have hchecked : greeting.validate = .ok () ∧ greeting.resolve = .ok () := ⟨rfl, rfl⟩
  obtain ⟨hgenerated, -, -, hwritten⟩ :=
    generate_succeeds_iff_checked { framework := .vue } greeting
  refine ⟨hchecked, hgenerated.mpr hchecked, hwritten _ (fun e he => ?_) _ _ _⟩
  exact if_pos (List.isEmpty_iff.mpr he)

end Generator

end ViewGen
