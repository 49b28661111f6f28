import ViewGen.Proofs.JsonText
import ViewGen.Proofs.ProjectFiles

/-!
# The packages in the manifest of a project

The manifest lists the packages behind the imports of a whole project.  The tables of its modules
are merged first, and a merge can rename an import or find it under another name, but it neither
loses one nor makes one up: what a table imports from is the same under any name.  What the manifest
lists is read from the text of `package.json`, as a package manager would read it.

## Main definitions

* `ImportTable.HasImport` — a table imports something of a kind from a path
* `ImportTable.FirstSegments` — the beginning of a path, up to a slash
* `ImportTable.IsPackageOf` — the package that a path belongs to

## Main statements

* `ImportTable.hasImport_mergeAll` — merged tables import from where one of them did
* `ImportTable.packageName_eq_iff` — the name of a package is the beginning of its path
* `ProjectGenerator.parse?_manifestFile` — the manifest is read back from its text
* `ProjectGenerator.manifest_lists_packages` — the manifest lists the packages that the modules of a
  project import from, once each
-/

namespace ViewGen

namespace ImportTable

/-! ## What a table imports from -/

/-- The table imports something of the given kind from the given path, under any name. -/
def HasImport (t : ImportTable) (kind : DependencyKind) (path : String) : Prop :=
  ∃ entry ∈ t.entries, entry.2.kind = kind ∧ entry.2.path = path

variable {kind : DependencyKind} {path : String}

theorem not_hasImport_empty : ¬ ({} : ImportTable).HasImport kind path := by
  rintro ⟨entry, hentry, -⟩
  exact absurd hentry List.not_mem_nil

theorem hasImport_bind {t : ImportTable} {name : String} {d : Dependency} :
    (t.bind name d).HasImport kind path ↔
      t.HasImport kind path ∨ d.kind = kind ∧ d.path = path := by
  simp [HasImport, bind, or_and_right, exists_or]

/-- **A registration adds what it asks for**, whatever name it is given. -/
theorem hasImport_register (t : ImportTable) (name : String) (d : Dependency) :
    (t.register name d).2.HasImport kind path ↔
      t.HasImport kind path ∨ d.kind = kind ∧ d.path = path := by
  rcases t.register_cases name d with ⟨hregister, hholds⟩ | ⟨e, hsame, -, hregister⟩
  · -- The import was found, so there is an entry for it already.
    rw [hregister]
    obtain ⟨e, he, hsame⟩ := holds_iff.mp hholds
    obtain ⟨hkind, hpath, -⟩ := Dependency.sameImport_iff.mp hsame
    refine ⟨.inl, ?_⟩
    rintro (hold | ⟨rfl, rfl⟩)
    · exact hold
    · exact ⟨_, Dict.mem_of_get? he, hkind, hpath⟩
  · -- The import that is bound may have another original name, but the same origin.
    obtain ⟨hkind, hpath, -⟩ := Dependency.sameImport_iff.mp hsame
    rw [hregister, hasImport_bind, hkind, hpath]

theorem hasImport_registrations (t : ImportTable) (entries : Dict Dependency) :
    (t.after (registrations entries)).HasImport kind path ↔
      t.HasImport kind path ∨ ∃ entry ∈ entries, entry.2.kind = kind ∧ entry.2.path = path := by
  induction entries generalizing t with
  | nil => simp [registrations, after]
  | cons entry rest ih =>
      have hstep : t.after (registrations (entry :: rest)) =
          (t.register entry.1 entry.2).2.after (registrations rest) := rfl
      simp only [hstep, ih, hasImport_register, or_assoc, List.mem_cons, exists_eq_or_imp]

theorem hasImport_merge (t other : ImportTable) :
    (t.merge other).HasImport kind path ↔ t.HasImport kind path ∨ other.HasImport kind path := by
  rw [merge_eq_after, hasImport_registrations]
  rfl

/-- **Merged tables import from where one of them did.** -/
theorem hasImport_mergeAll (tables : List ImportTable) :
    (mergeAll tables).HasImport kind path ↔ ∃ t ∈ tables, t.HasImport kind path := by
  have hfold : ∀ (tables : List ImportTable) (t : ImportTable),
      (tables.foldl merge t).HasImport kind path ↔
        t.HasImport kind path ∨ ∃ u ∈ tables, u.HasImport kind path := by
    intro tables
    induction tables with
    | nil => simp
    | cons u rest ih =>
        intro t
        simp only [List.foldl_cons, ih, hasImport_merge, or_assoc, List.mem_cons, exists_eq_or_imp]
  rw [mergeAll, hfold, or_iff_right not_hasImport_empty]

/-! ## Packages -/

/-- The first `k` segments of a path: the whole path if there are fewer than `k` slashes in it, and
otherwise what stands before the slash with number `k`. -/
def FirstSegments (k : Nat) (path name : List Char) : Prop :=
  path.count '/' < k ∧ name = path ∨
    ∃ rest, path = name ++ '/' :: rest ∧ name.count '/' + 1 = k

/-- The package that a path belongs to: its first segment, or its first two if it starts with an
`@`. -/
def IsPackageOf (path name : String) : Prop :=
  FirstSegments (if path.toList.head? = some '@' then 2 else 1) path.toList name.toList

theorem FirstSegments.cons {k : Nat} {path name : List Char} (h : FirstSegments k path name)
    {c : Char} (hc : c ≠ '/') : FirstSegments k (c :: path) (c :: name) := by
  rcases h with ⟨hcount, rfl⟩ | ⟨rest, rfl, hcount⟩
  · exact .inl ⟨by rwa [List.count_cons_of_ne hc], rfl⟩
  · exact .inr ⟨rest, rfl, by rwa [List.count_cons_of_ne hc]⟩

theorem FirstSegments.slash {k : Nat} {path name : List Char} (h : FirstSegments k path name) :
    FirstSegments (k + 1) ('/' :: path) ('/' :: name) := by
  rcases h with ⟨hcount, rfl⟩ | ⟨rest, rfl, hcount⟩
  · exact .inl ⟨by rw [List.count_cons_self]; omega, rfl⟩
  · exact .inr ⟨rest, rfl, by rw [List.count_cons_self]; omega⟩

/-- There is one beginning of each length. -/
theorem FirstSegments.unique {k : Nat} {path name other : List Char} (h : FirstSegments k path name)
    (h' : FirstSegments k path other) : name = other := by
  -- A beginning that goes on after another one holds the slash that the other stops at.
  have hlonger : ∀ {name rest longer rest' : List Char},
      name ++ '/' :: rest = longer ++ '/' :: rest' → longer.count '/' = name.count '/' →
        ∀ more, longer = name ++ more → more = [] := by
    rintro name rest _ rest' hpath hcount more rfl
    cases more with
    | nil => rfl
    | cons c more =>
        rw [List.append_assoc, List.append_cancel_left_eq, List.cons_append] at hpath
        obtain ⟨rfl, -⟩ := List.cons.inj hpath
        rw [List.count_append, List.count_cons_self] at hcount
        omega
  rcases h with ⟨hcount, rfl⟩ | ⟨rest, rfl, hcount⟩ <;>
    rcases h' with ⟨hcount', hother⟩ | ⟨rest', hother, hcount'⟩
  · exact hother.symm
  · rw [hother, List.count_append, List.count_cons_self] at hcount
    omega
  · rw [List.count_append, List.count_cons_self] at hcount'
    omega
  · have hsame : name.count '/' = other.count '/' := by omega
    rcases List.append_eq_append_iff.mp hother with ⟨more, hmore, -⟩ | ⟨more, hmore, -⟩
    · rw [hmore, hlonger hother hsame.symm more hmore, List.append_nil]
    · rw [hmore, hlonger hother.symm hsame more hmore, List.append_nil]

theorem exists_pieces_eq_cons (p : Char → Bool) (cs : List Char) :
    ∃ first others, Text.pieces p cs = first :: others := by
  cases cs with
  | nil => exact ⟨[], [], rfl⟩
  | cons c rest =>
      rw [Text.pieces]
      split
      · exact ⟨_, _, rfl⟩
      · split
        · exact ⟨_, _, rfl⟩
        · exact ⟨_, _, rfl⟩

/-- The pieces between slashes, joined again up to one of them, are the first segments. -/
theorem firstSegments_pieces (k : Nat) (path : List Char) :
    FirstSegments (k + 1) path
      (['/'].intercalate ((Text.pieces (· == '/') path).take (k + 1))) := by
  induction path generalizing k with
  | nil => exact .inl ⟨Nat.succ_pos k, by simp [Text.pieces]⟩
  | cons c path ih =>
      obtain ⟨first, others, hpieces⟩ := exists_pieces_eq_cons (· == '/') path
      by_cases hc : c = '/'
      · -- The piece before a slash is empty, and the slash is joined to it unless it is the last.
        subst hc
        have hcut : Text.pieces (· == '/') ('/' :: path) = [] :: first :: others := by
          rw [Text.pieces, hpieces]
          rfl
        rw [hcut]
        cases k with
        | zero => exact .inr ⟨path, by simp, by simp⟩
        | succ k =>
            have hrest := (ih k).slash
            rw [hpieces, List.take_succ_cons] at hrest
            rw [List.take_succ_cons, List.take_succ_cons, List.intercalate_cons_cons]
            exact hrest
      · have hextend : Text.pieces (· == '/') (c :: path) = (c :: first) :: others := by
          rw [Text.pieces, hpieces, if_neg (by simpa using hc)]
        have hrest := (ih k).cons hc
        rw [hpieces, List.take_succ_cons] at hrest
        rw [hextend, List.take_succ_cons]
        cases hothers : others.take k with
        | nil =>
            rw [hothers, List.intercalate_singleton] at hrest
            rwa [List.intercalate_singleton]
        | cons next last =>
            rw [hothers, List.intercalate_cons_cons] at hrest
            rwa [List.intercalate_cons_cons]

/-- **The name of a package is the beginning of its path.** -/
theorem packageName_eq_iff {path name : String} :
    packageName path = name ↔ IsPackageOf path name := by
  have hname : IsPackageOf path (packageName path) := by
    have hchars : ∀ k, ("/".intercalate ((Text.split (· == '/') path).take k)).toList =
        ['/'].intercalate ((Text.pieces (· == '/') path.toList).take k) := by
      intro k
      rw [String.toList_intercalate, Text.split, ← List.map_take, List.map_map]
      simp
    unfold IsPackageOf packageName
    dsimp only
    by_cases hscoped : path.toList.head? = some '@'
    · rw [if_pos hscoped, if_pos (by simpa using hscoped), hchars]
      exact firstSegments_pieces 1 path.toList
    · rw [if_neg hscoped, if_neg (by simpa using hscoped), hchars]
      exact firstSegments_pieces 0 path.toList
  constructor
  · rintro rfl
    exact hname
  · intro h
    exact String.toList_inj.mp (hname.unique h)

/-! ## Versions -/

/-- List the package of an import, if it is from one that is not listed. -/
def addPackage (versions : Dict String) (entry : String × Dependency) : Dict String :=
  if entry.2.kind == .package && !versions.has (packageName entry.2.path) then
    versions ++ [(packageName entry.2.path, entry.2.version.getD "latest")]
  else versions

theorem packageVersions_eq (t : ImportTable) :
    t.packageVersions = t.entries.foldl addPackage [] :=
  rfl

/-- An import is listed, or is not from a package, or its package was listed before. -/
theorem keys_addPackage (versions : Dict String) (entry : String × Dependency) :
    (addPackage versions entry).keys =
      if entry.2.kind = .package ∧ packageName entry.2.path ∉ versions.keys then
        versions.keys ++ [packageName entry.2.path]
      else versions.keys := by
  unfold addPackage
  simp only [Bool.and_eq_true, beq_iff_eq, Bool.not_eq_true', Dict.has_eq_false_iff]
  split
  · exact List.map_append
  · rfl

theorem nodup_keys_foldl_addPackage (entries : List (String × Dependency)) {versions : Dict String}
    (h : versions.keys.Nodup) : (entries.foldl addPackage versions).keys.Nodup := by
  induction entries generalizing versions with
  | nil => exact h
  | cons entry rest ih =>
      refine ih ?_
      rw [keys_addPackage]
      split
      · next hnew =>
        refine List.nodup_append.mpr ⟨h, List.nodup_singleton _, fun name hname other hother => ?_⟩
        rw [List.mem_singleton.mp hother]
        exact fun heq => hnew.2 (heq ▸ hname)
      · exact h

theorem mem_keys_foldl_addPackage (entries : List (String × Dependency)) {versions : Dict String}
    {name : String} : name ∈ (entries.foldl addPackage versions).keys ↔
      name ∈ versions.keys ∨
        ∃ entry ∈ entries, entry.2.kind = .package ∧ packageName entry.2.path = name := by
  induction entries generalizing versions with
  | nil => simp
  | cons entry rest ih =>
      have hstep : name ∈ (addPackage versions entry).keys ↔ name ∈ versions.keys ∨
          entry.2.kind = .package ∧ packageName entry.2.path = name := by
        rw [keys_addPackage]
        split
        · next hnew => simp [hnew.1, eq_comm]
        · next hold =>
          refine ⟨.inl, ?_⟩
          rintro (hlisted | ⟨hkind, rfl⟩)
          · exact hlisted
          · exact Decidable.not_not.mp fun hunlisted => hold ⟨hkind, hunlisted⟩
      simp only [List.foldl_cons, ih, hstep, or_assoc, List.mem_cons, exists_eq_or_imp]

theorem mem_keys_packageVersions {t : ImportTable} {name : String} :
    name ∈ t.packageVersions.keys ↔ ∃ path, t.HasImport .package path ∧ IsPackageOf path name := by
  have hnone : name ∉ Dict.keys ([] : Dict String) := List.not_mem_nil
  rw [packageVersions_eq, mem_keys_foldl_addPackage, or_iff_right hnone]
  constructor
  · rintro ⟨entry, hentry, hkind, hname⟩
    exact ⟨entry.2.path, ⟨entry, hentry, hkind, rfl⟩, packageName_eq_iff.mp hname⟩
  · rintro ⟨path, ⟨entry, hentry, hkind, rfl⟩, hname⟩
    exact ⟨entry, hentry, hkind, packageName_eq_iff.mpr hname⟩

theorem nodup_keys_packageVersions (t : ImportTable) : t.packageVersions.keys.Nodup := by
  rw [packageVersions_eq]
  exact nodup_keys_foldl_addPackage t.entries List.nodup_nil

end ImportTable

/-! ## The manifest -/

namespace ProjectGenerator

/-- A generation that succeeds was not cancelled. -/
theorem cancel_eq_false_of_generate {g : ProjectGenerator} {p : Project} {cancel : Bool}
    {r : GeneratedProject} (h : g.generate p cancel = .ok r) : cancel = false := by
  cases cancel with
  | false => rfl
  | true =>
      cases hresolve : p.resolve with
      | error x =>
          rw [generate_of_unresolved hresolve] at h
          exact absurd h (by simp)
      | ok u =>
          rw [generate_cancelled hresolve] at h
          exact absurd h (by simp)

theorem keys_map_str (versions : Dict String) :
    Dict.keys (versions.map fun version => (version.1, Json.str version.2)) = versions.keys := by
  simp [Dict.keys, List.map_map, Function.comp_def]

theorem textualFields_map_str (versions : Dict String) :
    Json.textualFields (versions.map fun version => (version.1, Json.str version.2)) = true := by
  induction versions with
  | nil => rfl
  | cons version rest ih => exact ih

/-- **The manifest is read back from its text.** -/
theorem parse?_manifestFile (p : Project) (imports : ImportTable) :
    Json.parse? (p.manifestFile imports).content = some (p.manifest imports) := by
  refine Json.parse?_pretty ?_ Json.gap_feed
  simp [Project.manifest, Json.textual, Json.textualFields, textualFields_map_str]

/-- Compiled files go to directories below `src`, whatever they are called. -/
theorem Compiled.path_ne_manifest {g : ProjectGenerator} {p : Project}
    {compiled : List (Job × CompiledComponent)} (h : g.Compiled p.jobs compiled)
    {f : GeneratedFile}
    (hf : f ∈ compiled.flatMap fun result => result.2.files.map (·.within result.1.directory)) :
    f.path ≠ "package.json" := by
  obtain ⟨result, hresult, hf⟩ := List.mem_flatMap.mp hf
  obtain ⟨inner, -, rfl⟩ := List.mem_map.mp hf
  have hjob : result.1 ∈ p.jobs := h.map_fst ▸ List.mem_map_of_mem hresult
  intro hpath
  have hletter := congrArg (fun s => s.toList.head?) hpath
  rcases Project.directory_of_mem_jobs hjob with hdirectory | hdirectory
  · simp [GeneratedFile.within, hdirectory, String.toList_append] at hletter
  · simp [GeneratedFile.within, hdirectory, String.toList_append] at hletter

/-- The file of the manifest is the only one with its path. -/
theorem mem_manifest_iff {g : ProjectGenerator} {p : Project}
    {compiled : List (Job × CompiledComponent)} (h : g.Compiled p.jobs compiled)
    {routes : List Route} {entry : CompiledComponent} (hentry : g.entry p.root routes = .ok entry)
    (f : GeneratedFile) :
    f ∈ (p.generated compiled entry).files ∧ f.path = "package.json" ↔
      f = p.manifestFile (p.generated compiled entry).imports := by
  constructor
  · rintro ⟨hf, hpath⟩
    rcases List.mem_append.mp hf with hf | hf
    · rcases List.mem_append.mp hf with hf | hf
      · exact absurd hpath (h.path_ne_manifest hf)
      · have hsame : filePath "src/index" f.fileType = filePath "package" .json :=
          ((namedAfter_of_entry hentry).paths f hf).symm.trans hpath
        exact absurd (filePath_inj.mp hsame).1 (by decide)
    · rcases List.mem_pair.mp hf with rfl | rfl
      · rfl
      · exact absurd (show "public/index.html" = "package.json" from hpath) (by decide)
  · rintro rfl
    exact ⟨List.mem_append_right _ List.mem_cons_self, rfl⟩

/-- **The manifest lists the packages that the modules of a project import from, once each.**  The
modules are the pages, the components and the entry, each with a table of its own.  The manifest is
the one file `package.json`, and its packages are those that are read from the text of that file. -/
theorem manifest_lists_packages (g : ProjectGenerator) (p : Project) (cancel : Bool)
    (r : GeneratedProject) (h : g.generate p cancel = .ok r) :
    ∃ compiled entry content fields dependencies,
      g.Compiled p.jobs compiled ∧ g.entry p.root (p.root.pages.map Page.route) = .ok entry ∧
      (∀ f, f ∈ r.files ∧ f.path = "package.json" ↔ f = ⟨"package.json", .json, content⟩) ∧
      Json.parse? content = some (.obj fields) ∧ (Dict.keys fields).Nodup ∧
      Dict.get? fields "dependencies" = some (.obj dependencies) ∧
      (Dict.keys dependencies).Nodup ∧
      ∀ name, name ∈ Dict.keys dependencies ↔
        ∃ table ∈ compiled.map (·.2.imports) ++ [entry.imports], ∃ path,
          table.HasImport .package path ∧ ImportTable.IsPackageOf path name := by
  obtain rfl := cancel_eq_false_of_generate h
  obtain ⟨-, compiled, entry, hcompiled, hentry, rfl⟩ := generate_iff.mp h
  have hkeys := keys_map_str (p.generated compiled entry).imports.packageVersions
  refine ⟨compiled, entry, _, _, _, hcompiled, hentry, mem_manifest_iff hcompiled hentry,
    parse?_manifestFile p _, ?_, rfl, ?_, fun name => ?_⟩
  · simp [Dict.keys]
  · exact hkeys ▸ ImportTable.nodup_keys_packageVersions _
  · rw [show Dict.keys _ = _ from hkeys, ImportTable.mem_keys_packageVersions]
    constructor
    · rintro ⟨path, himport, hname⟩
      obtain ⟨table, htable, himport⟩ := (ImportTable.hasImport_mergeAll _).mp himport
      exact ⟨table, htable, path, himport, hname⟩
    · rintro ⟨table, htable, path, himport, hname⟩
      exact ⟨path, (ImportTable.hasImport_mergeAll _).mpr ⟨table, htable, himport⟩, hname⟩

/-- A page and a component with buttons of the same name from different packages, one of them
scoped; the component has a button of the project itself too. -/
def buttonShop : Project where
  name := "Shop"
  root := {
    name := "App"
    node := .element { tag := "Button", dependency := some (.package "@acme/ui/forms" none) } }
  components := [{
    name := "Bar"
    node := .element {
      tag := "Button"
      dependency := some (.package "kit/buttons" (some "2.0.0"))
      children := [.element { tag := "Button", dependency := some (.ofProject "./button") }] } }]

/-- The shop is generated, and the text of its `package.json` lists the packages of both buttons
beside those of its framework and its router. -/
theorem buttonShop_lists_packages :
    ∃ g r compiled entry content fields dependencies, ofOptions {} = .ok g ∧
      g.generate buttonShop = .ok r ∧ g.Compiled buttonShop.jobs compiled ∧
      g.entry buttonShop.root (buttonShop.root.pages.map Page.route) = .ok entry ∧
      (∀ f, f ∈ r.files ∧ f.path = "package.json" ↔ f = ⟨"package.json", .json, content⟩) ∧
      Json.parse? content = some (.obj fields) ∧
      Dict.get? fields "dependencies" = some (.obj dependencies) ∧
      Dict.keys dependencies = ["react", "@acme/ui", "kit", "react-dom", "react-router-dom"] ∧
      ∀ name, name ∈ Dict.keys dependencies ↔
        ∃ table ∈ compiled.map (·.2.imports) ++ [entry.imports], ∃ path,
          table.HasImport .package path ∧ ImportTable.IsPackageOf path name := by
  have hg : ofOptions {} = .ok _ := ofOptions_iff.mpr ⟨by decide, rfl⟩
  obtain ⟨r, hr⟩ := exists_generate hg (rfl : buttonShop.resolve = .ok ())
  obtain ⟨compiled, entry, content, fields, dependencies, hcompiled, hentry, hfile, hread, -, hget,
      -, hkeys⟩ :=
    manifest_lists_packages _ buttonShop false r hr
  have hversions : r.imports.packageVersions.keys =
      ["react", "@acme/ui", "kit", "react-dom", "react-router-dom"] := by
    have hrun : ((generate { generator := .ofOptions {} } buttonShop).toOption.map
        fun r => r.imports.packageVersions.keys) =
          some ["react", "@acme/ui", "kit", "react-dom", "react-router-dom"] := by
      decide +kernel
    rw [show generate _ buttonShop = .ok r from hr] at hrun
    exact Option.some.inj hrun
  have hmanifest : buttonShop.manifest r.imports = .obj fields := by
    obtain ⟨-, results, start, -, -, rfl⟩ := generate_iff.mp hr
    have hcontent := (hfile (buttonShop.manifestFile _)).mp
      ⟨List.mem_append_right _ List.mem_cons_self, rfl⟩
    obtain rfl : _ = content := congrArg GeneratedFile.content hcontent
    exact Option.some.inj ((parse?_manifestFile _ _).symm.trans hread)
  refine ⟨_, r, compiled, entry, content, fields, dependencies, hg, hr, hcompiled, hentry, hfile,
    hread, hget, ?_, hkeys⟩
  obtain rfl := Json.obj.inj hmanifest
  obtain rfl := Json.obj.inj (Option.some.inj hget)
  exact (keys_map_str _).trans hversions

end ProjectGenerator

end ViewGen
