import ViewGen.Draft.Basic

/-!
# Import declarations

The import table as statements: one chunk for each kind of dependency, and in it one declaration for
each module, unless a module is imported as a whole under several names.

## Main definitions

* `addImport` — one more import among the declarations
* `importDeclarations` — the declarations for one kind of dependency
* `importPass` — the pass, which runs last
-/

namespace ViewGen

/-- Add a named import to the first declaration of its module, or as a declaration of its own. -/
def addNamed (source : String) (specifier : ImportSpecifier) :
    List ImportDeclaration → List ImportDeclaration
  | [] => [{ source, named := [specifier] }]
  | d :: rest =>
    if d.source = source then { d with named := d.named ++ [specifier] } :: rest
    else d :: addNamed source specifier rest

/-- Add a default import to the first declaration of its module that has none, or as a declaration
of its own. -/
def addDefault (source bound : String) : List ImportDeclaration → List ImportDeclaration
  | [] => [{ source, default := some bound }]
  | d :: rest =>
    if d.source = source ∧ d.default = none then { d with default := some bound } :: rest
    else d :: addDefault source bound rest

/-- The name that a module exports for a binding. -/
def Dependency.exportedName (d : Dependency) (bound : String) : String :=
  (d.importAlias.or d.renamedFrom).getD bound

/-- One more import among the declarations. -/
def addImport (declarations : List ImportDeclaration) (bound : String) (d : Dependency) :
    List ImportDeclaration :=
  if d.named then addNamed d.path ⟨d.exportedName bound, bound⟩ declarations
  else addDefault d.path bound declarations

/-- The declarations for one kind of dependency. -/
def importDeclarations (kind : DependencyKind) (t : ImportTable) : List ImportDeclaration :=
  t.entries.foldl (fun declarations (bound, d) =>
    if d.kind = kind then addImport declarations bound d else declarations) []

/-- Add the chunk of imports for one kind of dependency, if there are any. -/
def Draft.putImports (d : Draft) (name : String) (kind : DependencyKind) (after : List String) :
    Draft :=
  match importDeclarations kind d.imports with
  | [] => d
  | declarations => d.put (.script name (declarations.map .importing) after)

/-- Turn the import table into statements. -/
def importPass : Pass where
  name := "import-statements"
  run d :=
    let d := d.putImports ChunkName.packageImports .package []
    let d := d.putImports ChunkName.customImports .custom [ChunkName.packageImports]
    .ok (d.putImports ChunkName.projectImports .project
      [ChunkName.packageImports, ChunkName.customImports])

end ViewGen
