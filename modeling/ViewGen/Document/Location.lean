/-!
# Locations

Where in a document something stands: the steps that lead there from the root.

## Main definitions

* `Location` — steps from the root
* `Location.text` — `root.children[1].node`
-/

namespace ViewGen

/-- One step from a value to a part of it. -/
inductive Step where
  | field (name : String)
  | index (position : Nat)
  deriving DecidableEq

/-- The text of a step. -/
def Step.text : Step → String
  | .field name => "." ++ name
  | .index position => "[" ++ toString position ++ "]"

/-- Steps from the root. -/
structure Location where
  steps : List Step := []
  deriving DecidableEq

namespace Location

/-- The root itself. -/
def root : Location := ⟨[]⟩

/-- The location of a named part. -/
def field (l : Location) (name : String) : Location :=
  ⟨l.steps ++ [.field name]⟩

/-- The location of an item. -/
def index (l : Location) (position : Nat) : Location :=
  ⟨l.steps ++ [.index position]⟩

/-- A location as messages show it. -/
def text (l : Location) : String :=
  "root" ++ String.join (l.steps.map Step.text)

end Location

end ViewGen
