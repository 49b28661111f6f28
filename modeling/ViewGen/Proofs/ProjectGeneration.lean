import ViewGen.Proofs.Generation
import ViewGen.Proofs.IndexPage
import ViewGen.Proofs.RouterPass

/-!
# When a project is generated

A project has at least one page, so there is always something to compile; every page and component
can be compiled, the router takes any pages, and the index page is a text around the values of the
project.  So a generation fails only when the check before it does, or when it is cancelled.

## Main definitions

* `ProjectGenerator.Compiled` — the results of compiling jobs one by one
* `Project.generated` — a project put together from what was compiled

## Main statements

* `compileJobs_iff` — compiling jobs is compiling each of them
* `generate_iff` — what a generated project is put together from
* `project_generated_iff_resolved` — a project is generated exactly when it is resolved
-/

namespace ViewGen

theorem Component.pages_ne_nil (root : Component) : root.pages ≠ [] := by
  rw [pages]
  split
  · exact List.cons_ne_nil _ _
  · assumption

theorem Project.jobs_ne_nil (p : Project) : p.jobs ≠ [] := by
  intro h
  have hpages : p.root.pages.map Page.job = [] := (List.append_eq_nil_iff.mp h).1
  exact p.root.pages_ne_nil (List.map_eq_nil_iff.mp hpages)

/-- A project put together from its compiled components and its entry. -/
def Project.generated (p : Project) (compiled : List (Job × CompiledComponent))
    (entry : CompiledComponent) : GeneratedProject :=
  let imports := ImportTable.mergeAll (compiled.map (·.2.imports) ++ [entry.imports])
  { name := p.name
    files := compiled.flatMap (fun result => result.2.files.map (·.within result.1.directory)) ++
      entry.files ++ [p.manifestFile imports, ⟨"public/index.html", .html, p.indexPage⟩]
    imports }

namespace ProjectGenerator

variable {g : ProjectGenerator} {p : Project}

/-- There is a generator for every framework with markup in its scripts. -/
theorem ofOptions_iff {o : GeneratorOptions} :
    ofOptions o = .ok g ↔
      o.framework ≠ .vue ∧ g = { generator := .ofOptions { o with fileName := none } } := by
  rw [ofOptions]
  cases o.framework <;> simp [Framework.runtime?, eq_comm]

/-! ## Compiling jobs -/

/-- The results of compiling jobs one by one. -/
def Compiled (g : ProjectGenerator) : List Job → List (Job × CompiledComponent) → Prop :=
  List.Forall₂ fun job result =>
    result.1 = job ∧ g.generator.compile job.component job.fileName = .ok result.2

theorem compileJobs_cons_iff {job : Job} {rest : List Job}
    {compiled : List (Job × CompiledComponent)} :
    g.compileJobs false (job :: rest) = .ok compiled ↔
      ∃ c others, g.generator.compile job.component job.fileName = .ok c ∧
        g.compileJobs false rest = .ok others ∧ compiled = (job, c) :: others := by
  have hstep : g.compileJobs false (job :: rest) =
      (g.generator.compile job.component job.fileName >>= fun c =>
        g.compileJobs false rest >>= fun others => .ok ((job, c) :: others)) := rfl
  rw [hstep]
  constructor
  · intro h
    obtain ⟨c, hc, h⟩ := bind_eq_ok_iff.mp h
    obtain ⟨others, hothers, rfl⟩ := bind_ok_eq_ok_iff.mp h
    exact ⟨c, others, hc, hothers, rfl⟩
  · rintro ⟨c, others, hc, hothers, rfl⟩
    exact bind_eq_ok_iff.mpr ⟨c, hc, bind_ok_eq_ok_iff.mpr ⟨others, hothers, rfl⟩⟩

/-- **Compiling jobs is compiling each of them.** -/
theorem compileJobs_iff {jobs : List Job} {compiled : List (Job × CompiledComponent)} :
    g.compileJobs false jobs = .ok compiled ↔ g.Compiled jobs compiled := by
  induction jobs generalizing compiled with
  | nil =>
      rw [Compiled, List.forall₂_nil_left_iff]
      exact ⟨fun h => (Except.ok.inj h).symm, fun h => h ▸ rfl⟩
  | cons job rest ih =>
      rw [compileJobs_cons_iff, Compiled, List.forall₂_cons_left_iff]
      constructor
      · rintro ⟨c, others, hc, hothers, rfl⟩
        exact ⟨(job, c), others, ⟨rfl, hc⟩, ih.mp hothers, rfl⟩
      · rintro ⟨⟨_, c⟩, others, ⟨rfl, hc⟩, hothers, rfl⟩
        exact ⟨c, others, hc, ih.mpr hothers, rfl⟩

theorem exists_compileJobs {o : GeneratorOptions} (hg : ofOptions o = .ok g) (jobs : List Job) :
    ∃ compiled, g.compileJobs false jobs = .ok compiled := by
  obtain ⟨-, rfl⟩ := ofOptions_iff.mp hg
  induction jobs with
  | nil => exact ⟨[], rfl⟩
  | cons job rest ih =>
      obtain ⟨others, hothers⟩ := ih
      obtain ⟨c, hc⟩ := Generator.exists_compile { o with fileName := none } job.component
        job.fileName
      exact ⟨_, compileJobs_cons_iff.mpr ⟨c, others, hc, hothers, rfl⟩⟩

/-- The first of some jobs is cancelled before it is compiled. -/
theorem compileJobs_cancelled {jobs : List Job} (h : jobs ≠ []) :
    g.compileJobs true jobs = .error .cancelled := by
  cases jobs with
  | nil => exact absurd rfl h
  | cons job rest => rfl

/-! ## The entry -/

/-- The entry has names for all pages, and is made of the elements of the router over them. -/
theorem exists_entry (g : ProjectGenerator) (root : Component) (routes : List Route) :
    ∃ names,
      g.entry root routes = .ok {
        files := g.generator.emission.files (routerArena routes names)
          (Draft.ofEntry root "index" routes names (routerTable routes)).chunks "src/index"
        imports := routerTable routes } ∧
      (routerTable routes).HoldsPages routes names := by
  obtain ⟨names, hrun, hpages⟩ := exists_ofEntry root "index" routes
  exact ⟨names, bind_eq_ok_iff.mpr ⟨_, hrun, rfl⟩, hpages⟩

/-! ## The project -/

/-- The index page is never in the way of a generation. -/
theorem generate_eq (g : ProjectGenerator) (p : Project) (cancel : Bool) :
    g.generate p cancel = (p.resolve.mapError .ofCheck >>= fun _ =>
      g.compileJobs cancel p.jobs >>= fun compiled =>
        g.entry p.root (p.root.pages.map Page.route) >>= fun entry =>
          .ok (p.generated compiled entry)) := by
  rw [generate, p.indexFile_eq]
  rfl

theorem generate_of_unresolved {x : CheckError} (h : p.resolve = .error x) (cancel : Bool) :
    g.generate p cancel = .error (.ofCheck x) := by
  rw [generate_eq, h]
  rfl

theorem generate_cancelled (h : p.resolve = .ok ()) : g.generate p true = .error .cancelled := by
  rw [generate_eq, h, compileJobs_cancelled p.jobs_ne_nil]
  rfl

/-- **What a generated project is put together from.** -/
theorem generate_iff {r : GeneratedProject} :
    g.generate p = .ok r ↔
      p.resolve = .ok () ∧ ∃ compiled entry, g.Compiled p.jobs compiled ∧
        g.entry p.root (p.root.pages.map Page.route) = .ok entry ∧
        r = p.generated compiled entry := by
  rw [generate_eq]
  constructor
  · intro h
    obtain ⟨u, hresolve, h⟩ := bind_eq_ok_iff.mp h
    obtain ⟨compiled, hcompiled, h⟩ := bind_eq_ok_iff.mp h
    obtain ⟨entry, hentry, h⟩ := bind_eq_ok_iff.mp h
    refine ⟨?_, compiled, entry, compileJobs_iff.mp hcompiled, hentry, (Except.ok.inj h).symm⟩
    cases hcheck : p.resolve with
    | error x => simp [hcheck, Except.mapError] at hresolve
    | ok u => rfl
  · rintro ⟨hresolve, compiled, entry, hcompiled, hentry, rfl⟩
    rw [hresolve]
    refine bind_eq_ok_iff.mpr ⟨(), rfl, bind_eq_ok_iff.mpr ⟨compiled, ?_, ?_⟩⟩
    · exact compileJobs_iff.mpr hcompiled
    · exact bind_eq_ok_iff.mpr ⟨entry, hentry, rfl⟩

theorem exists_generate {o : GeneratorOptions} (hg : ofOptions o = .ok g)
    (h : p.resolve = .ok ()) : ∃ r, g.generate p = .ok r := by
  obtain ⟨compiled, hcompiled⟩ := exists_compileJobs hg p.jobs
  obtain ⟨names, hentry, -⟩ := g.exists_entry p.root (p.root.pages.map Page.route)
  exact ⟨_, generate_iff.mpr ⟨h, compiled, _, compileJobs_iff.mp hcompiled, hentry, rfl⟩⟩

/-- **A project is generated exactly when it is resolved.**  When it is not, the error is that of
the check, cancelled or not; a project that is resolved fails when it is cancelled, and in no other
way. -/
theorem project_generated_iff_resolved (o : GeneratorOptions) (hframework : o.framework ≠ .vue)
    (p : Project) :
    ∃ g, ofOptions o = .ok g ∧
      ((∃ r, g.generate p = .ok r) ↔ p.resolve = .ok ()) ∧
      (∀ e, g.generate p = .error e ↔ ∃ x, p.resolve = .error x ∧ e = .ofCheck x) ∧
      (∀ e, g.generate p true = .error e ↔
        (∃ x, p.resolve = .error x ∧ e = .ofCheck x) ∨ p.resolve = .ok () ∧ e = .cancelled) ∧
      ∀ r, g.generate p true ≠ .ok r := by
  obtain ⟨g, hg⟩ : ∃ g, ofOptions o = .ok g := ⟨_, ofOptions_iff.mpr ⟨hframework, rfl⟩⟩
  refine ⟨g, hg, ?_⟩
  cases hresolve : p.resolve with
  | error x =>
      have hfailed : ∀ cancel, g.generate p cancel = .error (.ofCheck x) :=
        generate_of_unresolved hresolve
      simp [hfailed, eq_comm]
  | ok u =>
      obtain ⟨r, hr⟩ := exists_generate hg hresolve
      have hcancelled : g.generate p true = .error .cancelled := generate_cancelled hresolve
      simp [hr, hcancelled, eq_comm]

/-- A page with a heading that refers to the given prop; there is only the prop `title`. -/
def headed (prop : String) : Project where
  name := "Greetings"
  root := {
    name := "App"
    props := [("title", { type := .string })]
    node := .element { tag := "h1", children := [.dynamic ⟨prop, .prop⟩] } }

/-- The heading is generated for Preact unless it is cancelled; a misspelt one is refused with the
same error, cancelled or not. -/
theorem headed_generated_if_declared :
    (∃ g, ofOptions { framework := .preact } = .ok g ∧
      (∃ r, g.generate (headed "title") = .ok r) ∧
      g.generate (headed "title") true = .error .cancelled) ∧
    ∃ g, ofOptions { framework := .preact } = .ok g ∧ ∀ cancel,
      g.generate (headed "titel") cancel =
        .error (.scope (.unresolved ⟨"titel", .prop⟩
          ((Location.root.field "children").index 0) "App")) := by
  constructor
  · obtain ⟨g, hg, hgenerated, -, hcancelled, -⟩ :=
      project_generated_iff_resolved { framework := .preact } (by decide) (headed "title")
    have hresolve : (headed "title").resolve = .ok () := rfl
    exact ⟨g, hg, hgenerated.mpr hresolve, (hcancelled _).mpr (.inr ⟨hresolve, rfl⟩)⟩
  · obtain ⟨g, hg, -, hfailed, hcancelled, -⟩ :=
      project_generated_iff_resolved { framework := .preact } (by decide) (headed "titel")
    refine ⟨g, hg, fun cancel => ?_⟩
    cases cancel with
    | false => exact (hfailed _).mpr ⟨_, rfl, rfl⟩
    | true => exact (hcancelled _).mpr (.inl ⟨_, rfl, rfl⟩)

end ProjectGenerator

end ViewGen
