import ViewGen.Decimal.Text
import ViewGen.Text.Blank

/-!
# Values inside a document

The parts of a document that have no nodes inside: literal scalars, references to declared names,
conditions on them, event handlers and style values.

## Main definitions

* `Scalar` — a literal
* `Reference` — a dotted name with the kind of declaration it points at
* `Test` — conditions that are all, or some of them, to hold
* `Handler` — one step of what happens on an event
-/

namespace ViewGen

/-- A literal scalar. -/
inductive Scalar where
  | bool (b : Bool)
  | number (x : Float)
  | text (s : String)

namespace Scalar

/-- The text a scalar shows. -/
def display : Scalar → String
  | .bool b => if b then "true" else "false"
  | .number x => Number.text x
  | .text s => s

/-- The text of a scalar that is a text. -/
def text? : Scalar → Option String
  | .text s => some s
  | _ => none

end Scalar

/-- The kinds of declarations that a reference can point at: a prop, a state, a name bound by an
enclosing loop, or a design token. -/
inductive ReferenceKind where
  | prop
  | state
  | loop
  | token
  deriving DecidableEq

/-- The name of a kind in documents and messages. -/
def ReferenceKind.name : ReferenceKind → String
  | .prop => "prop"
  | .state => "state"
  | .loop => "local"
  | .token => "token"

/-- A reference to a declared name. In a dotted id such as `item.title` only the first segment is
the declared name; the others address a member of its value. -/
structure Reference where
  id : String
  kind : ReferenceKind
  deriving DecidableEq

namespace Reference

/-- The segments of a dotted name. -/
def segments (id : String) : List String :=
  Text.split (· == '.') id

/-- The declared name that a reference points at. -/
def rootName (r : Reference) : String :=
  (segments r.id).headD ""

end Reference

/-- How a condition looks at its subject. -/
inductive Operation where
  | equal
  | notEqual
  | greater
  | greaterOrEqual
  | less
  | lessOrEqual
  | truthy
  | falsy
  deriving DecidableEq

namespace Operation

/-- The name of an operation in documents. -/
def name : Operation → String
  | .equal => "==="
  | .notEqual => "!=="
  | .greater => ">"
  | .greaterOrEqual => ">="
  | .less => "<"
  | .lessOrEqual => "<="
  | .truthy => "truthy"
  | .falsy => "falsy"

/-- The operations that look at the subject alone. -/
def isUnary : Operation → Bool
  | .truthy | .falsy => true
  | _ => false

end Operation

/-- A condition on a subject. -/
structure Condition where
  operation : Operation
  operand : Option Scalar

/-- Whether all conditions of a test are to hold or any of them. -/
inductive Quantifier where
  | all
  | any
  deriving DecidableEq

/-- The name of a quantifier in documents. -/
def Quantifier.name : Quantifier → String
  | .all => "all"
  | .any => "any"

/-- Conditions on one subject. -/
structure Test where
  conditions : List Condition
  quantifier : Quantifier

/-- One step of what happens on an event. -/
inductive Handler where
  | setState (state : String) (value : Scalar)
  | callProp (prop : String) (arguments : List Scalar)

/-- The value that stands for the negation of the current one. -/
def Handler.toggle : String := "$toggle"

/-- The value of a style property. -/
inductive StyleValue where
  | static (value : Scalar)
  | dynamic (reference : Reference)

end ViewGen
