import Mathlib.Data.List.Nodup
import ViewGen.Proofs.ComponentImports
import ViewGen.Proofs.ProjectGeneration

/-!
# Which files of a project have the same path

The files of one component have one name and different extensions, and every component has a script
among them.  So two components have files with the same path exactly when they have the same name
in the same directory.  Pages are kept apart from components, and both from the entry, the manifest
and the index page, by their directories.

## Main definitions

* `filePath` — the path of a file by its name and its type
* `NamedAfter` — files of one name and of different types, with a script among them

## Main statements

* `filePath_inj` — a path tells the name and the type
* `namedAfter_of_compile` — the files of a function component are named after it
* `project_paths_distinct_iff` — the paths of a project are distinct exactly when the file names of
  its pages are, and those of its components

## Design notes

Components of one project have different names, but their files are named in lower case and without
punctuation, so that different names can come to the same file name.
-/

namespace ViewGen

/-! ## Paths -/

/-- The path of a file by its name and its type. -/
def filePath (stem : String) (t : FileType) : String :=
  stem ++ "." ++ t.extension

/-- What stands after the last of some separators, and before it. -/
theorem append_cons_inj_of_notMem {α : Type} {a : α} {xs ys xs' ys' : List α} (hys : a ∉ ys)
    (hys' : a ∉ ys') (h : xs ++ a :: ys = xs' ++ a :: ys') : xs = xs' ∧ ys = ys' := by
  rcases List.append_eq_append_iff.mp h with ⟨between, rfl, hrest⟩ | ⟨between, rfl, hrest⟩
  · cases between with
    | nil => exact ⟨(List.append_nil xs).symm, (List.cons.inj hrest).2⟩
    | cons b rest =>
        obtain ⟨-, rfl⟩ := List.cons.inj hrest
        exact absurd (List.mem_append_right _ List.mem_cons_self) hys
  · cases between with
    | nil => exact ⟨List.append_nil xs', (List.cons.inj hrest).2.symm⟩
    | cons b rest =>
        obtain ⟨-, rfl⟩ := List.cons.inj hrest
        exact absurd (List.mem_append_right _ List.mem_cons_self) hys'

theorem FileType.extension_injective : Function.Injective extension := by
  intro s t h
  cases s <;> cases t <;> first | rfl | exact absurd h (by decide)

/-- A path tells the name and the type of its file, since no extension has a dot in it. -/
theorem filePath_inj {stem stem' : String} {t t' : FileType} :
    filePath stem t = filePath stem' t' ↔ stem = stem' ∧ t = t' := by
  constructor
  · intro h
    have hdot : ∀ t : FileType, '.' ∉ t.extension.toList := by
      intro t
      cases t <;> decide
    have hchars : stem.toList ++ '.' :: t.extension.toList =
        stem'.toList ++ '.' :: t'.extension.toList := by
      have htoList := congrArg String.toList h
      simpa [filePath, String.toList_append] using htoList
    obtain ⟨hstem, hextension⟩ := append_cons_inj_of_notMem (hdot t) (hdot t') hchars
    exact ⟨String.toList_inj.mp hstem,
      FileType.extension_injective (String.toList_inj.mp hextension)⟩
  · rintro ⟨rfl, rfl⟩
    rfl

/-- Files of one name and of different types, with a script among them. -/
structure NamedAfter (stem : String) (files : List GeneratedFile) : Prop where
  paths : ∀ f ∈ files, f.path = filePath stem f.fileType
  types : (files.map (·.fileType)).Nodup
  script : ∃ f ∈ files, f.fileType = .js

namespace NamedAfter

variable {stem stem' : String} {files files' : List GeneratedFile}

theorem within (h : NamedAfter stem files) (directory : String) :
    NamedAfter (directory ++ "/" ++ stem) (files.map (·.within directory)) where
  paths := by
    intro f hf
    obtain ⟨inner, hinner, rfl⟩ := List.mem_map.mp hf
    rw [GeneratedFile.within, h.paths inner hinner]
    simp only [filePath, String.append_assoc]
  types := by
    rw [List.map_map]
    exact h.types
  script := by
    obtain ⟨f, hf, hjs⟩ := h.script
    exact ⟨_, List.mem_map_of_mem hf, hjs⟩

theorem nodup_paths (h : NamedAfter stem files) : (files.map (·.path)).Nodup := by
  have hpaths : files.map (·.path) = (files.map (·.fileType)).map (filePath stem) := by
    rw [List.map_map]
    exact List.map_congr_left h.paths
  rw [hpaths]
  exact h.types.map fun t t' heq => (filePath_inj.mp heq).2

theorem exists_script (h : NamedAfter stem files) : ∃ f ∈ files, f.path = filePath stem .js := by
  obtain ⟨f, hf, hjs⟩ := h.script
  exact ⟨f, hf, hjs ▸ h.paths f hf⟩

/-- Files of two names have no path in common, and files of one name do. -/
theorem paths_ne_iff (h : NamedAfter stem files) (h' : NamedAfter stem' files') :
    (∀ x ∈ files.map (·.path), ∀ y ∈ files'.map (·.path), x ≠ y) ↔ stem ≠ stem' := by
  constructor
  · rintro hne rfl
    obtain ⟨f, hf, hscript⟩ := h.exists_script
    obtain ⟨f', hf', hscript'⟩ := h'.exists_script
    exact hne _ (List.mem_map_of_mem hf) _ (List.mem_map_of_mem hf') (hscript.trans hscript'.symm)
  · intro hstem x hx y hy heq
    obtain ⟨f, hf, rfl⟩ := List.mem_map.mp hx
    obtain ⟨f', hf', rfl⟩ := List.mem_map.mp hy
    rw [h.paths f hf, h'.paths f' hf', filePath_inj] at heq
    exact hstem heq.1

/-- Groups of files have different paths exactly when they have different names. -/
theorem nodup_flatMap_iff {α : Type} {stem : α → String} {files : α → List GeneratedFile}
    {items : List α} (h : ∀ x ∈ items, NamedAfter (stem x) (files x)) :
    ((items.flatMap files).map (·.path)).Nodup ↔ (items.map stem).Nodup := by
  rw [List.map_flatMap, List.nodup_iff_pairwise_ne, List.nodup_iff_pairwise_ne,
    List.pairwise_flatMap, List.pairwise_map]
  constructor
  · rintro ⟨-, hpairs⟩
    exact hpairs.imp_of_mem fun hx hy hne => ((h _ hx).paths_ne_iff (h _ hy)).mp hne
  · intro hstems
    refine ⟨fun x hx => (h x hx).nodup_paths, ?_⟩
    exact hstems.imp_of_mem fun hx hy hne => ((h _ hx).paths_ne_iff (h _ hy)).mpr hne

end NamedAfter

/-! ## The files of a component -/

namespace Emission

/-- The texts that go into the file of a type. -/
def textsOf (e : Emission) (arena : Arena) (chunks : List Chunk) (t : FileType) : List String :=
  e.texts arena (chunks.filter fun c => c.fileType = t)

theorem files_eq (e : Emission) (arena : Arena) (chunks : List Chunk) (fileName : String) :
    e.files arena chunks fileName =
      (FileType.all.filter fun t => !(e.textsOf arena chunks t).isEmpty).map fun t =>
        ⟨filePath fileName t, t, e.assemble t (e.textsOf arena chunks t)⟩ := by
  rw [files]
  induction FileType.all with
  | nil => rfl
  | cons t rest ih =>
      rw [List.filterMap_cons, ih, List.filter_cons]
      cases htexts : e.textsOf arena chunks t with
      | nil =>
          have hfile : e.file? arena chunks fileName t = none := by
            rw [file?, ← textsOf, htexts]
          rw [hfile]
          rfl
      | cons text texts =>
          have hfile : e.file? arena chunks fileName t =
              some ⟨filePath fileName t, t, e.assemble t (text :: texts)⟩ := by
            rw [file?, ← textsOf, htexts]
            rfl
          simp [hfile, htexts]

/-- The files of chunks are named after the given name, if one of the chunks is a script that is not
empty. -/
theorem namedAfter_files (e : Emission) {arena : Arena} {chunks : List Chunk} {c : Chunk}
    (hc : c ∈ chunks) (hjs : c.fileType = .js) (htext : c.fileText e.style arena ≠ "")
    (fileName : String) : NamedAfter fileName (e.files arena chunks fileName) := by
  have hscript : c.fileText e.style arena ∈ e.textsOf arena chunks .js := by
    refine List.mem_filter.mpr ⟨List.mem_map_of_mem (List.mem_filter.mpr ⟨hc, ?_⟩), ?_⟩
    · simpa using hjs
    · simpa using htext
  rw [files_eq]
  refine ⟨?_, ?_, ?_⟩
  · intro f hf
    obtain ⟨t, -, rfl⟩ := List.mem_map.mp hf
    rfl
  · have hall : FileType.all.Nodup := by decide
    rw [List.map_map]
    exact (hall.filter _).map fun _ _ h => h
  · refine ⟨_, List.mem_map_of_mem (List.mem_filter.mpr ⟨?_, ?_⟩), rfl⟩
    · exact List.mem_cons_self
    · simpa using List.ne_nil_of_mem hscript

end Emission

theorem fileText_constant_ne_empty (name : String) (pattern : Pattern) (value : Expr)
    (after : List String) (style : Style) (arena : Arena) :
    (Chunk.script name [.constant pattern value] after).fileText style arena ≠ "" := by
  show Statement.text style (arena.elementText style arena.size) 0 (.constant pattern value) ≠ ""
  simp [Statement.text]

/-- Passes that come late do not change the name of the files. -/
theorem fileName_of_runPasses {o : GeneratorOptions} (hframework : o.framework ≠ .vue)
    {c : Component} {fileName : String} {d : Draft}
    (hrun : runPasses o.passes { component := c, fileName } = .ok d) : d.fileName = fileName := by
  obtain ⟨later, declared, -, hlater, hdeclared, hlast⟩ :=
    exists_declared_of_runPasses hframework hrun
  obtain ⟨runtime, hruntime⟩ := Draft.exists_runtime_of_declareComponent hdeclared
  have hfirst : declared.fileName = fileName :=
    (answered_functionComponentPass hruntime hdeclared).1
  have hstep : ∀ p ∈ later ++ [importPass], ∀ e e' : Draft, e.fileName = fileName →
      p.run e = .ok e' → e'.fileName = fileName :=
    fun p hp e e' he he' => ((hlater p hp).answered he').1.trans he
  obtain ⟨applied, chunks, happlied, -, rfl⟩ := exists_orderChunks_of_runPasses hstep hfirst hlast
  exact happlied

/-- The function of a component stays among the chunks. -/
theorem exists_function_of_runPasses {o : GeneratorOptions} (hframework : o.framework ≠ .vue)
    {c : Component} {fileName : String} {d : Draft}
    (hrun : runPasses o.passes { component := c, fileName } = .ok d) :
    ∃ body links, Chunk.script ChunkName.component
      [.constant (.name (componentName c.name)) (.arrowBlock ["props"] body)] links ∈ d.chunks := by
  obtain ⟨later, declared, -, hlater, hdeclared, hlast⟩ :=
    exists_declared_of_runPasses hframework hrun
  obtain ⟨runtime, hruntime⟩ := Draft.exists_runtime_of_declareComponent hdeclared
  obtain ⟨imports, body, w, -, -, rfl⟩ := (Draft.declareComponent_iff hruntime).mp hdeclared
  have hmarkup : ChunkName.component ∈ ChunkName.markup := by decide
  have hkept := (keeps_runPasses hlater hlast).chunks _
    (List.mem_of_find?_eq_some (chunk?_addComponent _ body)) hmarkup
  exact ⟨body, _, hkept⟩

/-- **The files of a function component are named after it**, and there is a script among them. -/
theorem namedAfter_of_compile {o : GeneratorOptions} (hframework : o.framework ≠ .vue)
    {c : Component} {fileName : String} {r : CompiledComponent}
    (h : (Generator.ofOptions o).compile c fileName = .ok r) : NamedAfter fileName r.files := by
  obtain ⟨d, hrun, h⟩ := bind_eq_ok_iff.mp h
  obtain rfl := Except.ok.inj h
  obtain ⟨body, links, hchunk⟩ := exists_function_of_runPasses hframework hrun
  have hemit : (Generator.ofOptions o).emit d =
      (Generator.ofOptions o).emission.files d.arena d.chunks fileName := by
    unfold Generator.emit
    split
    · next hvue => exact absurd hvue hframework
    · rw [fileName_of_runPasses hframework hrun]
  rw [hemit]
  exact Emission.namedAfter_files _ hchunk rfl (fileText_constant_ne_empty _ _ _ _ _ _) fileName

/-- The files of an entry are named after it. -/
theorem ProjectGenerator.namedAfter_of_entry {g : ProjectGenerator} {root : Component}
    {routes : List Route} {entry : CompiledComponent} (h : g.entry root routes = .ok entry) :
    NamedAfter "src/index" entry.files := by
  obtain ⟨names, hentry, -⟩ := g.exists_entry root routes
  obtain rfl := Except.ok.inj (hentry.symm.trans h)
  have hchunk : routerChunk (routes.length + 1) ∈
      (Draft.ofEntry root "index" routes names (routerTable routes)).chunks :=
    List.mem_append_right _ List.mem_cons_self
  exact Emission.namedAfter_files _ hchunk rfl (fileText_constant_ne_empty _ _ _ _ _ _) _

/-! ## The files of a project -/

/-- The directory and the name of the files of a job. -/
def Job.stem (j : Job) : String :=
  j.directory ++ "/" ++ j.fileName

/-- The names of the files that are not compiled from components. -/
def fixedStems : List String :=
  ["src/index", "package", "public/index"]

theorem Project.directory_of_mem_jobs {p : Project} {j : Job} (h : j ∈ p.jobs) :
    j.directory = "src/views" ∨ j.directory = "src/components" := by
  rcases List.mem_append.mp h with hpage | hcomponent
  · obtain ⟨page, -, rfl⟩ := List.mem_map.mp hpage
    exact .inl rfl
  · obtain ⟨c, -, rfl⟩ := List.mem_map.mp hcomponent
    exact .inr rfl

/-- The letter after `src/` tells a job from the files that are not compiled. -/
theorem Project.stem_notMem_fixedStems {p : Project} {j : Job} (h : j ∈ p.jobs) :
    j.stem ∉ fixedStems := by
  intro hfixed
  have hletter : ∀ stem ∈ fixedStems, stem.toList[4]? ∉ [some 'v', some 'c'] := by decide
  apply hletter j.stem hfixed
  rw [Job.stem]
  rcases directory_of_mem_jobs h with hdirectory | hdirectory
  · simp [hdirectory, String.toList_append]
  · simp [hdirectory, String.toList_append]

/-- The files of the jobs have different names exactly when the pages do and the components do. -/
theorem Project.nodup_stems_iff (p : Project) :
    (p.jobs.map Job.stem).Nodup ↔
      (p.root.pages.map Page.fileName).Nodup ∧
        (p.components.map fun c => kebabName c.name).Nodup := by
  have hpages : (p.root.pages.map Page.job).map Job.stem =
      (p.root.pages.map Page.fileName).map ("src/views" ++ "/" ++ ·) := by
    rw [List.map_map, List.map_map]
    rfl
  have hcomponents : (p.components.map Component.job).map Job.stem =
      (p.components.map fun c => kebabName c.name).map ("src/components" ++ "/" ++ ·) := by
    rw [List.map_map, List.map_map]
    rfl
  have hinjective : ∀ directory : String, Function.Injective (directory ++ ·) :=
    fun directory _ _ h => (String.append_right_inj directory).mp h
  rw [jobs, List.map_append, hpages, hcomponents, List.nodup_append,
    List.nodup_map_iff (hinjective _), List.nodup_map_iff (hinjective _)]
  refine and_congr_right fun _ => and_iff_left fun x hx y hy heq => ?_
  obtain ⟨page, -, rfl⟩ := List.mem_map.mp hx
  obtain ⟨component, -, rfl⟩ := List.mem_map.mp hy
  have hletter := congrArg (fun s => s.toList[4]?) heq
  simp [String.toList_append] at hletter

/-- The files that are not compiled from components have paths of their own. -/
theorem Project.nodup_fixedPaths (p : Project) (imports : ImportTable) {files : List GeneratedFile}
    (h : NamedAfter "src/index" files) :
    ((files ++ [p.manifestFile imports, ⟨"public/index.html", .html, p.indexPage⟩]).map
        (·.path)).Nodup ∧
      ∀ f ∈ files ++ [p.manifestFile imports, ⟨"public/index.html", .html, p.indexPage⟩],
        ∃ stem ∈ fixedStems, ∃ t, f.path = filePath stem t := by
  have hmanifest : (p.manifestFile imports).path = filePath "package" .json := rfl
  have hindex : (⟨"public/index.html", .html, p.indexPage⟩ : GeneratedFile).path =
      filePath "public/index" .html := rfl
  constructor
  · have hpair : ["package.json", "public/index.html"].Nodup := by decide
    rw [List.map_append, List.nodup_append]
    refine ⟨h.nodup_paths, hpair, fun x hx y hy heq => ?_⟩
    obtain ⟨f, hf, rfl⟩ := List.mem_map.mp hx
    have hstem : ∀ {stem : String} {t : FileType}, f.path = filePath stem t →
        "src/index" = stem := by
      intro stem t hpath
      exact (filePath_inj.mp ((h.paths f hf).symm.trans hpath)).1
    rcases List.mem_pair.mp hy with rfl | rfl
    · exact absurd (hstem (heq.trans hmanifest)) (by decide)
    · exact absurd (hstem (heq.trans hindex)) (by decide)
  · intro f hf
    rcases List.mem_append.mp hf with hf | hf
    · exact ⟨"src/index", by decide, f.fileType, h.paths f hf⟩
    · rcases List.mem_pair.mp hf with rfl | rfl
      · exact ⟨"package", by decide, .json, hmanifest⟩
      · exact ⟨"public/index", by decide, .html, hindex⟩

namespace ProjectGenerator

/-- The results of jobs belong to the jobs in their order. -/
theorem Compiled.map_fst {g : ProjectGenerator} {jobs : List Job}
    {compiled : List (Job × CompiledComponent)} (h : g.Compiled jobs compiled) :
    compiled.map Prod.fst = jobs := by
  induction h with
  | nil => rfl
  | cons hjob _ ih => rw [List.map_cons, hjob.1, ih]

theorem Compiled.namedAfter {o : GeneratorOptions} {g : ProjectGenerator}
    (hg : ofOptions o = .ok g) {jobs : List Job} {compiled : List (Job × CompiledComponent)}
    (h : g.Compiled jobs compiled) :
    ∀ result ∈ compiled, NamedAfter result.1.stem
      (result.2.files.map (·.within result.1.directory)) := by
  obtain ⟨hframework, rfl⟩ := ofOptions_iff.mp hg
  induction h with
  | nil => exact fun result hresult => absurd hresult List.not_mem_nil
  | cons hjob _ ih =>
      refine List.forall_mem_cons.mpr ⟨?_, ih⟩
      obtain ⟨rfl, hcompile⟩ := hjob
      exact (namedAfter_of_compile (o := { o with fileName := none }) hframework hcompile).within _

/-- The path of a compiled file is none of those that are not compiled. -/
theorem Compiled.path_ne {o : GeneratorOptions} {g : ProjectGenerator} (hg : ofOptions o = .ok g)
    {p : Project} {compiled : List (Job × CompiledComponent)} (h : g.Compiled p.jobs compiled)
    {f : GeneratedFile}
    (hf : f ∈ compiled.flatMap fun result => result.2.files.map (·.within result.1.directory))
    {stem : String} (hstem : stem ∈ fixedStems) (t : FileType) : f.path ≠ filePath stem t := by
  intro hpath
  obtain ⟨result, hresult, hf⟩ := List.mem_flatMap.mp hf
  have hjob : result.1 ∈ p.jobs := h.map_fst ▸ List.mem_map_of_mem hresult
  have hsame := ((h.namedAfter hg result hresult).paths f hf).symm.trans hpath
  exact p.stem_notMem_fixedStems hjob ((filePath_inj.mp hsame).1 ▸ hstem)

/-- Two files of a project have the same path exactly when two jobs have the same directory and file
name. -/
theorem nodup_paths_iff {o : GeneratorOptions} {g : ProjectGenerator} (hg : ofOptions o = .ok g)
    {p : Project} {r : GeneratedProject} (h : g.generate p = .ok r) :
    (r.files.map (·.path)).Nodup ↔ (p.jobs.map Job.stem).Nodup := by
  obtain ⟨-, compiled, entry, hcompiled, hentry, rfl⟩ := generate_iff.mp h
  have hgroups := hcompiled.namedAfter hg
  have hstems : compiled.map (fun result => result.1.stem) = p.jobs.map Job.stem := by
    rw [← hcompiled.map_fst, List.map_map]
    rfl
  obtain ⟨hnodup, hfixed⟩ := p.nodup_fixedPaths
    (ImportTable.mergeAll (compiled.map (·.2.imports) ++ [entry.imports]))
    (namedAfter_of_entry hentry)
  rw [Project.generated, List.append_assoc, List.map_append, List.nodup_append,
    NamedAfter.nodup_flatMap_iff hgroups, hstems]
  refine and_iff_left ⟨hnodup, fun x hx y hy heq => ?_⟩
  obtain ⟨f, hf, rfl⟩ := List.mem_map.mp hx
  obtain ⟨f', hf', rfl⟩ := List.mem_map.mp hy
  obtain ⟨stem, hstem, t, hpath⟩ := hfixed f' hf'
  exact hcompiled.path_ne hg hf hstem t (heq.trans hpath)

/-- **The files of a project have different paths exactly when its pages have different file names
and its components do.**  That the names of components differ is not enough. -/
theorem project_paths_distinct_iff (o : GeneratorOptions) (g : ProjectGenerator)
    (hg : ofOptions o = .ok g) (p : Project) (r : GeneratedProject) (h : g.generate p = .ok r) :
    (r.files.map (·.path)).Nodup ↔
      (p.root.pages.map Page.fileName).Nodup ∧
        (p.components.map fun c => kebabName c.name).Nodup :=
  (nodup_paths_iff hg h).trans p.nodup_stems_iff

/-- A project of two components, the first of which is `Card`. -/
def cardShop (second : String) : Project where
  name := "Shop"
  root := { name := "App", node := .element { tag := "div" } }
  components := [
    { name := "Card", node := .element { tag := "div" } },
    { name := second, node := .element { tag := "p" } }]

/-- A card and a chart go into different files. -/
theorem cardShop_paths_distinct :
    ∃ g r, ofOptions { stylePlace := .cssModules } = .ok g ∧
      g.generate (cardShop "Chart") = .ok r ∧ (r.files.map (·.path)).Nodup := by
  have hg : ofOptions { stylePlace := .cssModules } = .ok _ := ofOptions_iff.mpr ⟨by decide, rfl⟩
  obtain ⟨r, hr⟩ := exists_generate hg (rfl : (cardShop "Chart").resolve = .ok ())
  exact ⟨_, r, hg, hr, (project_paths_distinct_iff _ _ hg _ r hr).mpr ⟨by decide, by decide⟩⟩

/-- `Card` and `card` are different names, so the project is accepted; both are written to the same
file. -/
theorem cardShop_overwrites_file :
    ∃ g r, ofOptions { stylePlace := .cssModules } = .ok g ∧
      g.generate (cardShop "card") = .ok r ∧ ¬ (r.files.map (·.path)).Nodup := by
  have hg : ofOptions { stylePlace := .cssModules } = .ok _ := ofOptions_iff.mpr ⟨by decide, rfl⟩
  obtain ⟨r, hr⟩ := exists_generate hg (rfl : (cardShop "card").resolve = .ok ())
  refine ⟨_, r, hg, hr, fun hnodup => ?_⟩
  exact absurd ((nodup_paths_iff hg hr).mp hnodup) (by decide)

end ProjectGenerator

end ViewGen
