import ViewGen.Import.Declarations
import ViewGen.Proofs.Dictionaries
import ViewGen.Proofs.FunctionComponents

/-!
# What the import statements say

The import pass groups the bindings of a table by kind and by module.  Its declarations are built
one binding at a time: a named import joins the first declaration of its module, a default one the
first that has none yet.  Read back name by name, the declarations are the bindings of the table
again, each of them once, and there is no declaration more than the default imports of a module make
necessary.

## Main definitions

* `ImportedName`, `Draft.importedNames` — what the import statements of a module bind
* `Declares` — declarations say what some bindings say, in as few declarations as that takes

## Main statements

* `Declares.addImport`, `declares_importDeclarations` — one more binding, and all bindings of a kind
* `perm_importedNames_importPass` — the import statements bind what the table binds
* `imports_declared_once` — what the import pass adds to a draft without imports
-/

namespace ViewGen

/-! ## What import statements bind -/

/-- A name bound by an import statement: the module, the export that it names unless it is the
default one, and the name it is bound to. -/
structure ImportedName where
  source : String
  imported : Option String
  bound : String
  deriving DecidableEq

/-- The names that a declaration binds. -/
def ImportDeclaration.names (d : ImportDeclaration) : List ImportedName :=
  d.default.toList.map (⟨d.source, none, ·⟩) ++
    d.named.map fun s => ⟨d.source, some s.imported, s.bound⟩

/-- The names that a statement imports. -/
def Statement.importedNames : Statement → List ImportedName
  | .importing d => d.names
  | _ => []

/-- The statements of a chunk; none if there is no such chunk. -/
def Draft.chunkStatements (d : Draft) (name : String) : List Statement :=
  ((d.chunk? name).bind Chunk.statements?).getD []

/-- The names that the statements of a chunk import. -/
def Draft.chunkImports (d : Draft) (name : String) : List ImportedName :=
  (d.chunkStatements name).flatMap Statement.importedNames

/-- The names that the import chunks of a draft import. -/
def Draft.importedNames (d : Draft) : List ImportedName :=
  ChunkName.imports.flatMap d.chunkImports

/-- What an import statement has to say for a binding.  The export of a named import is its alias, or
else the name that it was renamed from, or else the name that is bound. -/
def Dependency.importedName (d : Dependency) (bound : String) : ImportedName where
  source := d.path
  imported :=
    match d.named, d.importAlias, d.renamedFrom with
    | false, _, _ => none
    | true, some exported, _ => some exported
    | true, none, some original => some original
    | true, none, none => some bound
  bound := bound

theorem Dependency.importedName_of_named {d : Dependency} (h : d.named = true) (bound : String) :
    d.importedName bound = ⟨d.path, some (d.exportedName bound), bound⟩ := by
  rw [importedName, exportedName, h]
  cases d.importAlias with
  | some exported => rfl
  | none =>
      cases d.renamedFrom with
      | some original => rfl
      | none => rfl

theorem Dependency.importedName_of_default {d : Dependency} (h : d.named = false)
    (bound : String) : d.importedName bound = ⟨d.path, none, bound⟩ := by
  rw [importedName, h]

/-- A binding is declared as a default import exactly if it is not named. -/
theorem Dependency.imported_eq_none_iff {d : Dependency} {bound : String} :
    (d.importedName bound).imported = none ↔ d.named = false := by
  cases hnamed : d.named with
  | false => simp [importedName_of_default hnamed]
  | true => simp [importedName_of_named hnamed]

theorem perm_names_addNamed (source : String) (specifier : ImportSpecifier)
    (declarations : List ImportDeclaration) :
    ((addNamed source specifier declarations).flatMap ImportDeclaration.names).Perm
      (⟨source, some specifier.imported, specifier.bound⟩ ::
        declarations.flatMap ImportDeclaration.names) := by
  induction declarations with
  | nil => exact .refl _
  | cons d rest ih =>
      rw [addNamed]
      split
      · next hsource =>
        have hnames : ImportDeclaration.names { d with named := d.named ++ [specifier] } =
            d.names ++ [⟨source, some specifier.imported, specifier.bound⟩] := by
          simp [ImportDeclaration.names, hsource]
        rw [List.flatMap_cons, List.flatMap_cons, hnames, List.append_assoc]
        exact List.perm_middle
      · rw [List.flatMap_cons, List.flatMap_cons]
        exact (ih.append_left d.names).trans List.perm_middle

theorem perm_names_addDefault (source bound : String) (declarations : List ImportDeclaration) :
    ((addDefault source bound declarations).flatMap ImportDeclaration.names).Perm
      (⟨source, none, bound⟩ :: declarations.flatMap ImportDeclaration.names) := by
  induction declarations with
  | nil => exact .refl _
  | cons d rest ih =>
      rw [addDefault]
      split
      · next hfree =>
        obtain ⟨hsource, hdefault⟩ := hfree
        have hnames : ImportDeclaration.names { d with default := some bound } =
            ⟨source, none, bound⟩ :: d.names := by
          simp [ImportDeclaration.names, hsource, hdefault]
        rw [List.flatMap_cons, List.flatMap_cons, hnames]
        exact .refl _
      · rw [List.flatMap_cons, List.flatMap_cons]
        exact (ih.append_left d.names).trans List.perm_middle

/-- One more import binds one more name. -/
theorem perm_names_addImport (declarations : List ImportDeclaration) (bound : String)
    (d : Dependency) :
    ((addImport declarations bound d).flatMap ImportDeclaration.names).Perm
      (d.importedName bound :: declarations.flatMap ImportDeclaration.names) := by
  rw [addImport]
  cases hnamed : d.named with
  | true =>
      rw [if_pos rfl, Dependency.importedName_of_named hnamed]
      exact perm_names_addNamed d.path _ declarations
  | false =>
      rw [if_neg Bool.false_ne_true, Dependency.importedName_of_default hnamed]
      exact perm_names_addDefault d.path bound declarations

/-! ## How many declarations there are -/

/-- How many declarations there are for a module. -/
def declarationCount (path : String) (declarations : List ImportDeclaration) : Nat :=
  declarations.countP fun d => d.source = path

/-- How many declarations for a module bind its default export. -/
def defaultCount (path : String) (declarations : List ImportDeclaration) : Nat :=
  declarations.countP fun d => d.source = path ∧ d.default.isSome

theorem declarationCount_cons (path : String) (d : ImportDeclaration)
    (rest : List ImportDeclaration) :
    declarationCount path (d :: rest) =
      declarationCount path rest + if d.source = path then 1 else 0 := by
  simp [declarationCount, List.countP_cons]

theorem defaultCount_cons (path : String) (d : ImportDeclaration)
    (rest : List ImportDeclaration) :
    defaultCount path (d :: rest) =
      defaultCount path rest + if d.source = path ∧ d.default.isSome then 1 else 0 := by
  simp [defaultCount, List.countP_cons]

theorem defaultCount_le (path : String) (declarations : List ImportDeclaration) :
    defaultCount path declarations ≤ declarationCount path declarations := by
  refine List.countP_mono_left fun d _ h => ?_
  simp only [decide_eq_true_eq] at h ⊢
  exact h.1

/-- A named import needs a declaration only if its module has none. -/
theorem declarationCount_addNamed (path source : String) (specifier : ImportSpecifier)
    (declarations : List ImportDeclaration) :
    declarationCount path (addNamed source specifier declarations) =
      if path = source then max (declarationCount path declarations) 1
      else declarationCount path declarations := by
  induction declarations with
  | nil =>
      rw [addNamed, declarationCount_cons]
      by_cases hpath : path = source
      · simp [hpath, declarationCount]
      · simp [hpath, Ne.symm hpath, declarationCount]
  | cons d rest ih =>
      rw [addNamed]
      split
      · next hsource =>
        rw [declarationCount_cons, declarationCount_cons, hsource]
        by_cases hpath : path = source
        · rw [if_pos hpath, if_pos hpath.symm]
          omega
        · rw [if_neg hpath]
      · next hsource =>
        rw [declarationCount_cons, declarationCount_cons, ih]
        by_cases hpath : path = source
        · rw [if_pos hpath, if_pos hpath, if_neg fun heq => hsource (heq.trans hpath)]
          omega
        · rw [if_neg hpath, if_neg hpath]

/-- A default import needs a declaration only if all those of its module have a default import. -/
theorem declarationCount_addDefault (path source bound : String)
    (declarations : List ImportDeclaration) :
    declarationCount path (addDefault source bound declarations) =
      if path = source then max (declarationCount path declarations)
        (defaultCount path declarations + 1)
      else declarationCount path declarations := by
  induction declarations with
  | nil =>
      rw [addDefault, declarationCount_cons]
      by_cases hpath : path = source
      · simp [hpath, declarationCount, defaultCount]
      · simp [hpath, Ne.symm hpath, declarationCount]
  | cons d rest ih =>
      have hle := defaultCount_le path rest
      rw [addDefault]
      split
      · next hfree =>
        obtain ⟨hsource, hdefault⟩ := hfree
        rw [declarationCount_cons, declarationCount_cons, defaultCount_cons, hsource, hdefault]
        by_cases hpath : path = source
        · simp only [hpath, if_true, Option.isSome_none, Bool.false_eq_true, and_false, if_false]
          rw [hpath] at hle
          omega
        · rw [if_neg hpath]
      · next hfree =>
        rw [declarationCount_cons, declarationCount_cons, defaultCount_cons, ih]
        by_cases hpath : path = source
        · rw [if_pos hpath, if_pos hpath]
          by_cases hsource : d.source = path
          · have htaken : d.default.isSome := by
              rw [Option.isSome_iff_ne_none]
              exact fun hnone => hfree ⟨hsource.trans hpath, hnone⟩
            rw [if_pos hsource, if_pos ⟨hsource, htaken⟩]
            omega
          · rw [if_neg hsource, if_neg fun h => hsource h.1]
            omega
        · rw [if_neg hpath, if_neg hpath]

/-- Each declaration binds the default export of its module at most once. -/
theorem countP_default_names (path : String) (declarations : List ImportDeclaration) :
    (declarations.flatMap ImportDeclaration.names).countP
      (fun i => i.source = path ∧ i.imported = none) = defaultCount path declarations := by
  induction declarations with
  | nil => rfl
  | cons d rest ih =>
      have hnamed : (d.named.map fun s => ImportedName.mk d.source (some s.imported) s.bound).countP
          (fun i => i.source = path ∧ i.imported = none) = 0 := by
        rw [List.countP_eq_zero]
        intro i hi
        obtain ⟨s, -, rfl⟩ := List.mem_map.mp hi
        simp
      rw [List.flatMap_cons, List.countP_append, ih, defaultCount_cons, ImportDeclaration.names,
        List.countP_append, hnamed]
      cases d.default with
      | none => simp
      | some bound =>
          by_cases hsource : d.source = path
          · simp [hsource, Nat.add_comm]
          · simp [hsource]

/-- The modules that some bindings import. -/
def importedPaths (entries : Dict Dependency) : List String :=
  entries.map fun entry => entry.2.path

/-- How many of some bindings are default imports of a module. -/
def defaultImports (path : String) (entries : Dict Dependency) : Nat :=
  entries.countP fun entry => entry.2.path = path ∧ entry.2.named = false

theorem defaultImports_eq_zero {path : String} {entries : Dict Dependency}
    (h : path ∉ importedPaths entries) : defaultImports path entries = 0 := by
  refine List.countP_eq_zero.mpr fun entry hentry hdefault => h ?_
  simp only [decide_eq_true_eq] at hdefault
  exact List.mem_map.mpr ⟨entry, hentry, hdefault.1⟩

theorem defaultImports_concat (path bound : String) (entries : Dict Dependency) (d : Dependency) :
    defaultImports path (entries ++ [(bound, d)]) =
      defaultImports path entries + if d.path = path ∧ d.named = false then 1 else 0 := by
  simp [defaultImports, List.countP_append, List.countP_cons]

/-- The declarations say what the bindings say, each name once.  For a module that is imported at
all there are as many declarations as it has default imports, and at least one; for any other module
there is none. -/
structure Declares (declarations : List ImportDeclaration) (entries : Dict Dependency) : Prop where
  names : (declarations.flatMap ImportDeclaration.names).Perm
    (entries.map fun entry => entry.2.importedName entry.1)
  count : ∀ path, declarationCount path declarations =
    if path ∈ importedPaths entries then max (defaultImports path entries) 1 else 0

namespace Declares

variable {declarations : List ImportDeclaration} {entries : Dict Dependency}

theorem nil : Declares [] [] :=
  ⟨.refl _, fun _ => rfl⟩

/-- The default imports of a module are in different declarations. -/
theorem defaultCount_eq (h : Declares declarations entries) (path : String) :
    defaultCount path declarations = defaultImports path entries := by
  rw [← countP_default_names, h.names.countP_eq, List.countP_map]
  refine List.countP_congr fun entry _ => ?_
  have hsource : (entry.2.importedName entry.1).source = entry.2.path := rfl
  simp [hsource, Dependency.imported_eq_none_iff]

/-- **One more binding.**  Its declaration is there already, unless it is the first of its module or
a default import beside others. -/
theorem addImport (h : Declares declarations entries) (bound : String) (d : Dependency) :
    Declares (addImport declarations bound d) (entries ++ [(bound, d)]) := by
  constructor
  · rw [List.map_append]
    refine (perm_names_addImport declarations bound d).trans ?_
    exact (h.names.cons _).trans (List.perm_append_singleton _ _).symm
  · intro path
    have hcount := h.count path
    have hdefault := h.defaultCount_eq path
    have hmem : path ∈ importedPaths (entries ++ [(bound, d)]) ↔
        path ∈ importedPaths entries ∨ path = d.path := by
      simp [importedPaths]
    by_cases hpath : path = d.path
    · -- If the module is new, then so far it has no declaration and no default import.
      have hbefore : max (declarationCount path declarations) 1 =
            max (defaultImports path entries) 1 ∧
          max (declarationCount path declarations) (defaultImports path entries + 1) =
            defaultImports path entries + 1 := by
        split at hcount
        · omega
        · next hnew =>
          have hnone := defaultImports_eq_zero hnew
          omega
      rw [if_pos (hmem.mpr (.inr hpath)), defaultImports_concat, ViewGen.addImport]
      cases d.named with
      | true =>
          rw [if_pos rfl, declarationCount_addNamed, if_pos hpath, hbefore.1]
          simp
      | false =>
          rw [if_neg Bool.false_ne_true, declarationCount_addDefault, if_pos hpath, hdefault,
            hbefore.2, if_pos ⟨hpath.symm, rfl⟩]
          omega
    · have hsame : declarationCount path (ViewGen.addImport declarations bound d) =
          declarationCount path declarations := by
        rw [ViewGen.addImport]
        split
        · rw [declarationCount_addNamed, if_neg hpath]
        · rw [declarationCount_addDefault, if_neg hpath]
      rw [hsame, hcount, defaultImports_concat]
      simp [hmem, hpath, Ne.symm hpath]

end Declares

/-- The bindings of a table to dependencies of one kind. -/
def ImportTable.entriesOfKind (t : ImportTable) (kind : DependencyKind) : Dict Dependency :=
  t.entries.filter fun entry => entry.2.kind = kind

/-- **The declarations for one kind declare what the table binds to dependencies of that kind.** -/
theorem declares_importDeclarations (kind : DependencyKind) (t : ImportTable) :
    Declares (importDeclarations kind t) (t.entriesOfKind kind) := by
  have hfold : ∀ (entries done : Dict Dependency) (declarations : List ImportDeclaration),
      Declares declarations done →
      Declares (entries.foldl (fun declarations entry =>
          if entry.2.kind = kind then addImport declarations entry.1 entry.2 else declarations)
        declarations) (done ++ entries.filter fun entry => entry.2.kind = kind) := by
    intro entries
    induction entries with
    | nil =>
        intro done declarations h
        rw [List.filter_nil, List.append_nil]
        exact h
    | cons entry rest ih =>
        intro done declarations h
        rw [List.foldl_cons]
        by_cases hkind : entry.2.kind = kind
        · rw [if_pos hkind, List.filter_cons_of_pos (by simpa using hkind)]
          have hrest := ih _ _ (h.addImport entry.1 entry.2)
          rwa [List.append_assoc, List.singleton_append] at hrest
        · rw [if_neg hkind, List.filter_cons_of_neg (by simpa using hkind)]
          exact ih done declarations h
  exact hfold t.entries [] [] .nil

/-- Every binding is of one of the three kinds. -/
theorem ImportTable.perm_entriesOfKind (t : ImportTable) :
    (t.entriesOfKind .package ++ (t.entriesOfKind .custom ++ t.entriesOfKind .project)).Perm
      t.entries := by
  unfold entriesOfKind
  induction t.entries with
  | nil => exact .refl _
  | cons entry rest ih =>
      cases hkind : entry.2.kind with
      | package =>
          simp only [List.filter_cons, hkind, decide_true, if_true]
          exact ih.cons _
      | custom =>
          simp only [List.filter_cons, hkind, decide_true, if_true]
          exact List.perm_middle.trans (ih.cons _)
      | project =>
          simp only [List.filter_cons, hkind, decide_true, if_true]
          exact ((List.perm_middle.append_left _).trans List.perm_middle).trans (ih.cons _)

/-! ## The import pass -/

/-- The chunk for the imports of a kind. -/
def DependencyKind.importChunk : DependencyKind → String
  | .package => ChunkName.packageImports
  | .custom => ChunkName.customImports
  | .project => ChunkName.projectImports

namespace Draft

variable {d d' : Draft}

theorem imports_putImports (d : Draft) (name : String) (kind : DependencyKind)
    (after : List String) : (d.putImports name kind after).imports = d.imports := by
  unfold putImports
  split <;> rfl

theorem chunk?_putImports_of_ne (d : Draft) {name other : String} (h : name ≠ other)
    (kind : DependencyKind) (after : List String) :
    (d.putImports name kind after).chunk? other = d.chunk? other := by
  unfold putImports
  split
  · rfl
  · exact d.chunk?_put_of_ne h

theorem chunkStatements_putImports_of_ne (d : Draft) {name other : String} (h : name ≠ other)
    (kind : DependencyKind) (after : List String) :
    (d.putImports name kind after).chunkStatements other = d.chunkStatements other := by
  rw [chunkStatements, chunkStatements, d.chunk?_putImports_of_ne h]

/-- A chunk of imports holds the declarations of its kind, if it was not there before. -/
theorem chunkStatements_putImports {name : String} (h : d.chunk? name = none)
    (kind : DependencyKind) (after : List String) :
    (d.putImports name kind after).chunkStatements name =
      (importDeclarations kind d.imports).map .importing := by
  unfold putImports
  split
  · next hnone => rw [hnone, chunkStatements, h]; rfl
  · have hchunk : (d.put (.script name
        ((importDeclarations kind d.imports).map .importing) after)).chunk? name = _ :=
      d.chunk?_put_self _
    rw [chunkStatements, hchunk]
    rfl

/-- **The import pass writes the declarations of each kind into a chunk of their own.** -/
theorem chunkStatements_importPass (hnone : ∀ name ∈ ChunkName.imports, d.chunk? name = none)
    (hrun : importPass.run d = .ok d') (kind : DependencyKind) :
    d'.chunkStatements kind.importChunk = (importDeclarations kind d.imports).map .importing := by
  obtain rfl := Except.ok.inj hrun
  -- Each of the three steps adds its own chunk and leaves the table and the other two chunks.
  simp only [ChunkName.imports, List.mem_cons, List.not_mem_nil, or_false, forall_eq_or_imp,
    forall_eq] at hnone
  obtain ⟨hpackage, hcustom, hproject⟩ := hnone
  have hfirst : ChunkName.packageImports ≠ ChunkName.customImports := by decide
  have hsecond : ChunkName.customImports ≠ ChunkName.projectImports := by decide
  have houter : ChunkName.packageImports ≠ ChunkName.projectImports := by decide
  cases kind with
  | package =>
      rw [DependencyKind.importChunk, chunkStatements_putImports_of_ne _ houter.symm,
        chunkStatements_putImports_of_ne _ hfirst.symm, chunkStatements_putImports hpackage]
  | custom =>
      rw [← chunk?_putImports_of_ne d hfirst .package []] at hcustom
      rw [DependencyKind.importChunk, chunkStatements_putImports_of_ne _ hsecond.symm,
        chunkStatements_putImports hcustom, imports_putImports]
  | project =>
      rw [← chunk?_putImports_of_ne d houter .package [],
        ← chunk?_putImports_of_ne _ hsecond .custom [ChunkName.packageImports]] at hproject
      rw [DependencyKind.importChunk, chunkStatements_putImports hproject, imports_putImports,
        imports_putImports]

theorem imports_importPass (hrun : importPass.run d = .ok d') : d'.imports = d.imports := by
  obtain rfl := Except.ok.inj hrun
  rw [imports_putImports, imports_putImports, imports_putImports]

/-- The import pass leaves all other chunks as they are. -/
theorem chunk?_importPass_of_notMem (hrun : importPass.run d = .ok d') {name : String}
    (h : name ∉ ChunkName.imports) : d'.chunk? name = d.chunk? name := by
  obtain rfl := Except.ok.inj hrun
  simp only [ChunkName.imports, List.mem_cons, List.not_mem_nil, or_false, not_or] at h
  rw [chunk?_putImports_of_ne _ (Ne.symm h.2.2), chunk?_putImports_of_ne _ (Ne.symm h.2.1),
    chunk?_putImports_of_ne _ (Ne.symm h.1)]

/-- **The import statements bind what the table binds**, each name once. -/
theorem perm_importedNames_importPass (hnone : ∀ name ∈ ChunkName.imports, d.chunk? name = none)
    (hrun : importPass.run d = .ok d') :
    d'.importedNames.Perm (d.imports.entries.map fun entry => entry.2.importedName entry.1) := by
  have hchunk : ∀ kind : DependencyKind, (d'.chunkImports kind.importChunk).Perm
      ((d.imports.entriesOfKind kind).map fun entry => entry.2.importedName entry.1) := by
    intro kind
    rw [chunkImports, chunkStatements_importPass hnone hrun, List.flatMap_map]
    exact (declares_importDeclarations kind d.imports).names
  have hall := d.imports.perm_entriesOfKind.map fun entry => entry.2.importedName entry.1
  rw [List.map_append, List.map_append] at hall
  refine List.Perm.trans ?_ hall
  simp only [importedNames, ChunkName.imports, List.flatMap_cons, List.flatMap_nil, List.append_nil]
  exact (hchunk .package).append ((hchunk .custom).append (hchunk .project))

/-- Where no name is bound twice, one import statement binds each of them. -/
theorem filter_importedNames_importPass
    (hnone : ∀ name ∈ ChunkName.imports, d.chunk? name = none) (hrun : importPass.run d = .ok d')
    (hnodup : d.imports.entries.keys.Nodup) {bound : String} {e : Dependency}
    (he : d.imports.entries.get? bound = some e) :
    d'.importedNames.filter (fun i => i.bound = bound) = [e.importedName bound] := by
  have hnames := perm_importedNames_importPass hnone hrun
  refine List.perm_singleton.mp ((hnames.filter _).trans ?_)
  have hentry := Dict.filter_key_eq hnodup he
  rw [List.filter_map]
  exact .of_eq (congrArg (List.map fun entry => entry.2.importedName entry.1) hentry)

/-- **Imports are declared without loss or duplication.**  The import pass succeeds on every draft
without chunks of imports, and leaves the table and all other chunks as they are.  The chunk of each
kind holds declarations alone, which say what the table binds to dependencies of that kind, name by
name and with no declaration more than that takes.  So where the table binds no name twice, each of
its bindings is in one statement of the module, and that statement names the module, the export and
the name of the binding. -/
theorem imports_declared_once (hnone : ∀ name ∈ ChunkName.imports, d.chunk? name = none) :
    ∃ d', importPass.run d = .ok d' ∧ d'.imports = d.imports ∧
      (∀ name ∉ ChunkName.imports, d'.chunk? name = d.chunk? name) ∧
      (∀ kind : DependencyKind, ∃ declarations,
        d'.chunkStatements kind.importChunk = declarations.map .importing ∧
          Declares declarations (d.imports.entriesOfKind kind)) ∧
      (d.imports.entries.keys.Nodup → ∀ entry ∈ d.imports.entries,
        d'.importedNames.filter (fun i => i.bound = entry.1) =
          [entry.2.importedName entry.1]) := by
  refine ⟨_, rfl, imports_importPass rfl, fun name => chunk?_importPass_of_notMem rfl,
    fun kind => ?_, fun hnodup entry hentry => ?_⟩
  · exact ⟨_, chunkStatements_importPass hnone rfl kind, declares_importDeclarations kind d.imports⟩
  · exact filter_importedNames_importPass hnone rfl hnodup ((Dict.get?_eq_some_iff hnodup).mpr hentry)

end Draft

namespace ImportTable

/-- A draft that has nothing but imports. -/
def importsOnly (t : ImportTable) : Draft where
  component := { name := "Page", node := .raw "" }
  fileName := "page"
  workspace := { imports := t }

theorem imports_importsOnly (t : ImportTable) : (importsOnly t).imports = t := rfl

theorem chunk?_importsOnly (t : ImportTable) (chunk : String) :
    (importsOnly t).chunk? chunk = none := rfl

/-- Two default imports of the package `react`, three named ones, of which the first has an alias and
was renamed, the second was renamed and the third is neither, and a default import from a module of
the project with the same path. -/
def mixedImports : ImportTable where
  entries := [
    ("React", .package "react" none),
    ("Local", .ofProject "react"),
    ("useAlias", { (Dependency.package "react" none).byName with
      importAlias := some "alias"
      renamedFrom := some "original" }),
    ("useState", { (Dependency.package "react" none).byName with renamedFrom := some "state" }),
    ("useMemo", (Dependency.package "react" none).byName),
    ("Runtime", .package "react" none)]

/-- The package takes two declarations and the module of the project one, and each named import has
the export that it stands for. -/
theorem mixedImports_declared :
    (∀ name ∈ ChunkName.imports, (importsOnly mixedImports).chunk? name = none) ∧
      mixedImports.entries.keys.Nodup ∧
      ∃ d' packages modules, importPass.run (importsOnly mixedImports) = .ok d' ∧
        d'.chunkStatements ChunkName.packageImports = packages.map .importing ∧
        declarationCount "react" packages = 2 ∧
        d'.chunkStatements ChunkName.projectImports = modules.map .importing ∧
        declarationCount "react" modules = 1 ∧
        d'.importedNames.filter (fun i => i.bound = "useAlias") =
          [⟨"react", some "alias", "useAlias"⟩] ∧
        d'.importedNames.filter (fun i => i.bound = "useState") =
          [⟨"react", some "state", "useState"⟩] ∧
        d'.importedNames.filter (fun i => i.bound = "useMemo") =
          [⟨"react", some "useMemo", "useMemo"⟩] ∧
        d'.importedNames.filter (fun i => i.bound = "Runtime") =
          [⟨"react", none, "Runtime"⟩] := by
  have hnone : ∀ name ∈ ChunkName.imports, (importsOnly mixedImports).chunk? name = none :=
    fun name _ => chunk?_importsOnly mixedImports name
  have hnodup : mixedImports.entries.keys.Nodup := by decide
  obtain ⟨d', hrun, -, -, hkinds, hbound⟩ := Draft.imports_declared_once hnone
  obtain ⟨packages, hpackages, hpackagesDeclare⟩ := hkinds .package
  obtain ⟨modules, hmodules, hmodulesDeclare⟩ := hkinds .project
  refine ⟨hnone, hnodup, d', packages, modules, hrun, hpackages, ?_, hmodules, ?_, ?_, ?_, ?_, ?_⟩
  · rw [hpackagesDeclare.count]
    decide
  · rw [hmodulesDeclare.count]
    decide
  · exact hbound hnodup ("useAlias", _) (.tail _ (.tail _ (.head _)))
  · exact hbound hnodup ("useState", _) (.tail _ (.tail _ (.tail _ (.head _))))
  · exact hbound hnodup ("useMemo", _) (.tail _ (.tail _ (.tail _ (.tail _ (.head _)))))
  · exact hbound hnodup ("Runtime", _)
      (.tail _ (.tail _ (.tail _ (.tail _ (.tail _ (.head _))))))

end ImportTable

end ViewGen
