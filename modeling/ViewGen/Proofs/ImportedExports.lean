import ViewGen.Proofs.ImportHistory
import ViewGen.Proofs.ImportStatements

/-!
# The exports behind bound names

The import statements of a module say what its table binds, each name once.  So the export behind a
bound name is the one that its binding records: the export that was asked for when the name was
bound.

A later request can be given a name that is bound already, and then the recorded export decides.
It is the right one unless the name came about for another export of the same module: the name
that is derived for `Button` of the module `lib` is `LibButton`, and `lib` may export a `LibButton`
of its own.

## Main definitions

* `ImportTable.MayBind` — the names that a request can be given
* `ImportTable.Answers` — a binding is what a request came to

## Main statements

* `exists_answers` — every binding goes back to a request for its export
* `requested_export_imported` — when the export that was asked for is the one that is imported
-/

namespace ViewGen

/-! ## Where bindings come from -/

/-- What a binding records as exported is what was asked for, whether the binding is renamed or
not. -/
theorem Dependency.exportedName_renamed (d : Dependency) (name bound : String) :
    Dependency.exportedName { d with renamedFrom := d.renamedFrom.or (some name) } bound =
      d.exportedName name := by
  unfold exportedName
  cases d.importAlias <;> cases d.renamedFrom <;> rfl

namespace ImportTable

variable {t : ImportTable} {name : String} {d : Dependency}

/-- The names that a request can be given: its own, or a numbered form of the derived one. -/
def MayBind (path name bound : String) : Prop :=
  bound = name ∨ ∃ n, bound = Text.numbered (derivedName path name) n

theorem mayBind_chosen (t : ImportTable) (name : String) (d : Dependency) :
    MayBind d.path name (t.chosen name d) := by
  rw [chosen]
  split
  · exact .inl rfl
  · obtain ⟨m, -, hfresh⟩ := t.exists_ends_freshName name d
    exact .inr ⟨m, hfresh⟩

/-- A binding is what a request came to: the same import, with the export that was asked for, under
a name that the request can be given. -/
structure Answers (request entry : String × Dependency) : Prop where
  same : request.2.sameImport entry.2 = true
  exported : entry.2.exportedName entry.1 = request.2.exportedName request.1
  name : MayBind request.2.path request.1 entry.1

/-- Every binding after a registration was there before, or is what the registration came to. -/
theorem answers_register {entry : String × Dependency}
    (h : entry ∈ (t.register name d).2.entries) : entry ∈ t.entries ∨ Answers (name, d) entry := by
  have hbound := t.mayBind_chosen name d
  rw [← register_fst] at hbound
  revert h hbound
  rw [register]
  split
  · exact fun h _ => .inl h
  · split
    · intro h hbound
      refine (List.mem_append.mp h).imp_right fun hnew => ?_
      rw [List.mem_singleton.mp hnew]
      exact ⟨d.sameImport_refl, rfl, hbound⟩
    · dsimp only
      split
      · exact fun h _ => .inl h
      · intro h hbound
        refine (List.mem_append.mp h).imp_right fun hnew => ?_
        rw [List.mem_singleton.mp hnew]
        exact ⟨Dependency.sameImport_iff.mpr ⟨rfl, rfl, rfl, rfl⟩, d.exportedName_renamed name _,
          hbound⟩

/-- What a step asks for. -/
def Step.requests : Step → Dict Dependency
  | .register name d => [(name, d)]
  | .reserve _ => []
  | .merge other => other.entries

/-- What the steps of a run ask for. -/
def requests (steps : List Step) : Dict Dependency :=
  steps.flatMap Step.requests

theorem answers_registrations {entries : Dict Dependency} {entry : String × Dependency}
    (h : entry ∈ (t.after (registrations entries)).entries) :
    entry ∈ t.entries ∨ ∃ request ∈ entries, Answers request entry := by
  induction entries generalizing t with
  | nil => exact .inl h
  | cons request rest ih =>
      rcases ih (t := (t.register request.1 request.2).2) h with hold | ⟨other, hother, hanswers⟩
      · refine (answers_register hold).imp_right fun hanswers => ?_
        exact ⟨request, List.mem_cons_self, hanswers⟩
      · exact .inr ⟨other, List.mem_cons_of_mem request hother, hanswers⟩

/-- Every binding after a step was there before, or is what the step asks for. -/
theorem answers_apply {step : Step} {entry : String × Dependency}
    (h : entry ∈ (t.apply step).entries) :
    entry ∈ t.entries ∨ ∃ request ∈ step.requests, Answers request entry := by
  cases step with
  | register name d =>
      refine (answers_register h).imp_right fun hanswers => ?_
      exact ⟨(name, d), List.mem_singleton_self _, hanswers⟩
  | reserve name =>
      have hentries : ((t.reserve? name).getD t).entries = t.entries := by
        rw [reserve?]
        split
        · rfl
        · split <;> rfl
      exact .inl (hentries ▸ h)
  | merge other =>
      rw [apply, merge_eq_after] at h
      exact answers_registrations h

theorem answers_after {steps : List Step} {entry : String × Dependency}
    (h : entry ∈ (t.after steps).entries) :
    entry ∈ t.entries ∨ ∃ request ∈ requests steps, Answers request entry := by
  induction steps generalizing t with
  | nil => exact .inl h
  | cons step rest ih =>
      rcases ih (t := t.apply step) h with hold | ⟨request, hrequest, hanswers⟩
      · refine (answers_apply hold).imp_right fun ⟨request, hrequest, hanswers⟩ => ?_
        exact ⟨request, List.mem_append_left _ hrequest, hanswers⟩
      · exact .inr ⟨request, List.mem_append_right _ hrequest, hanswers⟩

/-- **Every binding goes back to a request for its export.** -/
theorem exists_answers {steps : List Step} {entry : String × Dependency}
    (h : entry ∈ (after {} steps).entries) : ∃ request ∈ requests steps, Answers request entry :=
  (answers_after h).resolve_left List.not_mem_nil

/-- Among the imports of a module there is one for each bound name. -/
theorem filter_importedNames (h : t.Proper) {bound : String} {e : Dependency}
    (he : t.entries.get? bound = some e) {draft draft' : Draft} (himports : draft.imports = t)
    (hnone : ∀ chunk ∈ ChunkName.imports, draft.chunk? chunk = none)
    (hrun : importPass.run draft = .ok draft') :
    draft'.importedNames.filter (fun i => i.bound = bound) = [e.importedName bound] := by
  subst himports
  exact Draft.filter_importedNames_importPass hnone hrun h.nodup he

/-- A request cannot be mistaken for another one: no request that was made for another export of the
same import can be given a name that this one can be given. -/
def Unmistakable (steps : List Step) (name : String) (d : Dependency) : Prop :=
  ∀ request ∈ requests steps, request.2.sameImport d = true →
    request.2.exportedName request.1 ≠ name →
      ∀ bound, MayBind request.2.path request.1 bound → ¬ MayBind d.path name bound

/-- **The export that was asked for is imported, unless its name stands for another one already.**
A request for a named export is given a name that one import statement binds, from the module that
was asked for.  What is imported under it is the export that was asked for exactly when the name
was not bound before, or was bound to that export.  It always is when the request cannot be mistaken
for an earlier one. -/
theorem requested_export_imported (steps : List Step) (name : String) {d : Dependency}
    (hnamed : d.named = true) (halias : d.importAlias = none) (hrenamed : d.renamedFrom = none)
    {draft : Draft} (himports : draft.imports = ((after {} steps).register name d).2)
    (hnone : ∀ chunk ∈ ChunkName.imports, draft.chunk? chunk = none) :
    let t := after {} steps
    let bound := (t.register name d).1
    ∃ draft' exported, importPass.run draft = .ok draft' ∧
      draft'.importedNames.filter (fun i => i.bound = bound) =
        [⟨d.path, some exported, bound⟩] ∧
      (exported = name ↔ ∀ e, t.entries.get? bound = some e → e.exportedName bound = name) ∧
      (Unmistakable steps name d → exported = name) := by
  intro t bound
  have hproper : (t.register name d).2.Proper :=
    (t.grows_register name d).proper (proper_after steps)
  obtain ⟨e, he, hsame⟩ := holds_iff.mp (t.holds_register name d)
  obtain ⟨hkind, hpath, henamed, -⟩ := Dependency.sameImport_iff.mp hsame
  -- The request itself asks for the export of its name.
  have hasked : d.exportedName name = name := by
    rw [Dependency.exportedName, halias, hrenamed]
    rfl
  -- A name that was bound before is bound to the same dependency as before.
  have hkept : ∀ e₀, t.entries.get? bound = some e₀ → e₀ = e := by
    intro e₀ he₀
    obtain ⟨others, hothers⟩ := (t.grows_register name d).entries
    rw [← hothers, Dict.get?_append_of_some others he₀] at he
    exact Option.some.inj he
  refine ⟨_, e.exportedName bound, rfl, ?_, ⟨?_, ?_⟩, ?_⟩
  · rw [filter_importedNames hproper he himports hnone rfl,
      Dependency.importedName_of_named (henamed.trans hnamed), hpath]
  · intro hexported e₀ he₀
    rw [hkept e₀ he₀]
    exact hexported
  · intro hbefore
    rcases answers_register (Dict.mem_of_get? he) with hmem | hanswers
    · obtain ⟨e₀, he₀⟩ := Dict.exists_get?_of_mem_keys (List.mem_map.mpr ⟨_, hmem, rfl⟩)
      rw [← hkept e₀ he₀]
      exact hbefore e₀ he₀
    · exact hanswers.exported.trans hasked
  · intro hclear
    rcases answers_register (Dict.mem_of_get? he) with hmem | hanswers
    · obtain ⟨request, hrequest, hanswers⟩ := exists_answers hmem
      by_contra hother
      have hbound := t.mayBind_chosen name d
      rw [← register_fst] at hbound
      refine hclear request hrequest (Dependency.sameImport_trans hanswers.same hsame) ?_ bound
        hanswers.name hbound
      rw [← hanswers.exported]
      exact hother
    · exact hanswers.exported.trans hasked

/-- `Button` is asked for from two modules, so that the second one is bound under a derived name. -/
def twoButtons : List Step :=
  [.register "Button" (Dependency.package "ui" none).byName,
    .register "Button" (Dependency.package "lib" none).byName]

/-- Another export of `lib` does not stand in the way of its `Button`. -/
theorem unmistakable_button :
    Unmistakable (twoButtons ++ [.register "Card" (Dependency.package "lib" none).byName]) "Button"
      (Dependency.package "lib" (some "2.0.0")).byName := by
  intro request hrequest hsame hother bound hcard hbutton
  have hrequests : requests (twoButtons ++
      [.register "Card" (Dependency.package "lib" none).byName]) =
      [("Button", (Dependency.package "ui" none).byName),
        ("Button", (Dependency.package "lib" none).byName),
        ("Card", (Dependency.package "lib" none).byName)] := rfl
  rw [hrequests] at hrequest
  simp only [List.mem_cons, List.not_mem_nil, or_false] at hrequest
  rcases hrequest with rfl | rfl | rfl
  · exact absurd hsame (by decide)
  · exact hother rfl
  · have hderived :
        derivedName "lib" "Card" = "LibCard" ∧ derivedName "lib" "Button" = "LibButton" :=
      by decide
    rcases hcard with rfl | ⟨n, rfl⟩ <;> rcases hbutton with hbutton | ⟨k, hbutton⟩
    · exact absurd hbutton (by decide)
    · obtain ⟨suffix, hsuffix⟩ := Text.exists_numbered_eq_append (derivedName "lib" "Button") k
      have hlist := congrArg String.toList (hbutton.trans hsuffix)
      simp [hderived.2] at hlist
    · obtain ⟨suffix, hsuffix⟩ := Text.exists_numbered_eq_append (derivedName "lib" "Card") n
      have hlist := congrArg String.toList (hsuffix.symm.trans hbutton)
      simp [hderived.1] at hlist
    · obtain ⟨suffix, hsuffix⟩ := Text.exists_numbered_eq_append (derivedName "lib" "Card") n
      obtain ⟨suffix', hsuffix'⟩ := Text.exists_numbered_eq_append (derivedName "lib" "Button") k
      have hlist := congrArg String.toList ((hsuffix.symm.trans hbutton).trans hsuffix')
      simp [hderived.1, hderived.2] at hlist

/-- The second `Button` is still imported as `Button` when it is asked for again, with a version. -/
theorem libButton_imported :
    let d := (Dependency.package "lib" (some "2.0.0")).byName
    let steps := twoButtons ++ [.register "Card" (Dependency.package "lib" none).byName]
    let draft := importsOnly ((after {} steps).register "Button" d).2
    ((after {} steps).register "Button" d).1 = "LibButton" ∧
      ∃ draft', importPass.run draft = .ok draft' ∧
        draft'.importedNames.filter (fun i => i.bound = "LibButton") =
          [⟨"lib", some "Button", "LibButton"⟩] := by
  intro d steps draft
  have hbound : ((after {} steps).register "Button" d).1 = "LibButton" := by decide
  obtain ⟨draft', exported, hrun, hnames, -, hclear⟩ :=
    requested_export_imported steps "Button" (d := d) rfl rfl rfl (imports_importsOnly _)
      (fun chunk _ => chunk?_importsOnly _ chunk)
  rw [hclear unmistakable_button, hbound] at hnames
  exact ⟨hbound, draft', hrun, hnames⟩

/-- **A derived name can stand in the way.**  When `LibButton` is asked for from `lib` after
`Button` was bound to that name, the two are taken for the same import, and `Button` is imported
for both. -/
theorem libButton_imports_button :
    let d := (Dependency.package "lib" none).byName
    let t := ((after {} twoButtons).register "LibButton" d).2
    ((after {} twoButtons).register "LibButton" d).1 = "LibButton" ∧
      ∃ draft', importPass.run (importsOnly t) = .ok draft' ∧
        draft'.importedNames.filter (fun i => i.bound = "LibButton") =
          [⟨"lib", some "Button", "LibButton"⟩] := by
  refine ⟨by decide, _, rfl, ?_⟩
  decide

end ImportTable

end ViewGen
