/-!
# Dependencies

What a generated module imports, and from where.

## Main definitions

* `Dependency` — an import
* `Dependency.sameImport` — two dependencies that ask for the same import
-/

namespace ViewGen

/-- Where a dependency comes from: a published package, a module of the generated project, or
something that the caller provides. -/
inductive DependencyKind where
  | package
  | project
  | custom
  deriving DecidableEq

/-- The name of a kind in documents. -/
def DependencyKind.name : DependencyKind → String
  | .package => "package"
  | .project => "local"
  | .custom => "custom"

/-- An import that the generated code needs. `renamedFrom` is the name that was asked for when it is
bound under another one, and `importAlias` the name that the module exports when it differs from the
tag that uses it. -/
structure Dependency where
  kind : DependencyKind
  path : String
  version : Option String := none
  named : Bool := false
  renamedFrom : Option String := none
  importAlias : Option String := none
  deriving DecidableEq

namespace Dependency

/-- A published package. -/
def package (path : String) (version : Option String) : Dependency :=
  { kind := .package, path, version }

/-- A module of the generated project. -/
def ofProject (path : String) : Dependency :=
  { kind := .project, path }

/-- Something that the caller provides. -/
def custom (path : String) : Dependency :=
  { kind := .custom, path }

/-- The same module, imported by name. -/
def byName (d : Dependency) : Dependency :=
  { d with named := true }

/-- Two dependencies that ask for the same import: all but the version and what was recorded when a
binding was renamed. -/
def sameImport (d e : Dependency) : Bool :=
  d.kind == e.kind && d.path == e.path && d.named == e.named && d.importAlias == e.importAlias

end Dependency

end ViewGen
