import ViewGen.Dict
import ViewGen.Document.Dependency
import ViewGen.Naming
import ViewGen.Text.Fresh

/-!
# The import table

The imports of a generated module, by the name that each is bound to.

## Main definitions

* `ImportTable` — bindings in the order they were made, and names that no import may take
* `ImportTable.register` — bind an import, under another name when the requested one is taken
* `ImportTable.reserve?` — keep a name for a declaration of the module itself
* `ImportTable.merge` — register all imports of another table
* `ImportTable.packageVersions` — the packages behind the imports, for the manifest

## Design notes

A binding is never changed or removed. An import that is bound already is found again, under the
name it was asked for or under the one it was given instead.
-/

namespace ViewGen

/-- Imports by the name they are bound to, and names kept for the module itself. -/
structure ImportTable where
  entries : Dict Dependency := []
  reserved : List String := []

namespace ImportTable

/-- A name that is neither bound nor reserved. -/
def isFree (t : ImportTable) (name : String) : Bool :=
  !t.entries.has name && !t.reserved.contains name

/-- A name that is bound to the import that a dependency asks for. -/
def holds (t : ImportTable) (name : String) (d : Dependency) : Bool :=
  match t.entries.get? name with
  | some e => e.sameImport d
  | none => false

/-- A name that a dependency can have: it is free or already bound to the same import. -/
def suits (t : ImportTable) (d : Dependency) (name : String) : Bool :=
  t.isFree name || t.holds name d

/-- A table with one more binding. -/
def bind (t : ImportTable) (name : String) (d : Dependency) : ImportTable :=
  { t with entries := t.entries ++ [(name, d)] }

/-- The name for an import whose requested name is taken: the words of its path, capitalized, before
the requested name. -/
def derivedName (path name : String) : String :=
  Text.pascal (plainWords path) ++ name

/-- How many names are in use. -/
def size (t : ImportTable) : Nat :=
  t.entries.length + t.reserved.length

/-- The first numbered form of the derived name that a dependency can have. -/
def freshName (t : ImportTable) (name : String) (d : Dependency) : String :=
  let base := derivedName d.path name
  (Text.firstNumbered base (t.size + 1) (t.suits d)).getD base

/-- Bind an import and return the name it is bound to. The requested name is kept when it is free or
already bound to the same import; otherwise a name is derived from the path, and the requested name
is recorded as the one that the module exports. -/
def register (t : ImportTable) (name : String) (d : Dependency) : String × ImportTable :=
  if t.holds name d then (name, t)
  else if t.isFree name then (name, t.bind name d)
  else
    let bound := t.freshName name d
    if t.holds bound d then (bound, t)
    else (bound, t.bind bound { d with renamedFrom := d.renamedFrom.or (some name) })

/-- Keep a name for a declaration of the module itself, unless an import has it. -/
def reserve? (t : ImportTable) (name : String) : Option ImportTable :=
  if t.entries.has name then none
  else if t.reserved.contains name then some t
  else some { t with reserved := t.reserved ++ [name] }

/-- Register all imports of another table; its reservations do not count. -/
def merge (t other : ImportTable) : ImportTable :=
  other.entries.foldl (fun t (name, d) => (t.register name d).2) t

/-- Register all imports of several tables. -/
def mergeAll (tables : List ImportTable) : ImportTable :=
  tables.foldl merge {}

/-- The package that a path belongs to: `preact/hooks` is part of `preact`, and `@scope/pkg/sub` of
`@scope/pkg`. -/
def packageName (path : String) : String :=
  let segments := Text.split (· == '/') path
  "/".intercalate (segments.take (if path.toList.head? == some '@' then 2 else 1))

/-- The packages behind the imports with their versions, `latest` where none is given. Of several
imports of one package the first decides. -/
def packageVersions (t : ImportTable) : Dict String :=
  t.entries.foldl (fun versions (_, d) =>
    if d.kind == .package && !versions.has (packageName d.path) then
      versions ++ [(packageName d.path, d.version.getD "latest")]
    else versions) []

end ImportTable

end ViewGen
