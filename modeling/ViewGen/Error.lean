import ViewGen.Document.Scoping

/-!
# What can go wrong in a generation

## Main definitions

* `GenError` — why a generation fails
* `GenError.message` — the wording
* `GenError.rootCause` — the cause behind failing passes
-/

namespace ViewGen

/-- Why a generation fails. -/
inductive GenError where
  | document (error : DocumentError)
  | scope (error : ScopeError)
  | unmapped (reference : Reference)
  | cyclicChunks (cycle : List String)
  | nameTaken (name : String)
  | pass (name : String) (cause : GenError)
  | invalidSelector (kind value : String)
  | rendering
  | invalidTemplate
  | publishing (publisher message : String)
  | cancelled

namespace GenError

/-- A failed check of a document. -/
def ofCheck : CheckError → GenError
  | .document error => .document error
  | .scope error => .scope error

/-- The wording of an error. -/
def message : GenError → String
  | .document error => error.message
  | .scope error => error.message
  | .unmapped reference =>
    "No identifier prefix configured for " ++ reference.kind.name ++ " reference '" ++
      reference.id ++ "'"
  | .cyclicChunks cycle => "Chunks cannot be ordered, cycle through: " ++ " -> ".intercalate cycle
  | .nameTaken name => "'" ++ name ++ "' is already bound to an import"
  | .pass name cause => "Plugin '" ++ name ++ "' failed: " ++ cause.message
  | .invalidSelector kind value => "Invalid " ++ kind ++ " '" ++ value ++ "'"
  | .rendering => "Template error"
  | .invalidTemplate => "Invalid template"
  | .publishing publisher message => "Publishing with " ++ publisher ++ " failed: " ++ message
  | .cancelled => "Generation cancelled"

/-- The cause behind failing passes. -/
def rootCause : GenError → GenError
  | .pass _ cause => cause.rootCause
  | e => e

end GenError

end ViewGen
