import ViewGen.Dict
import ViewGen.Document.Value

/-!
# Script and markup

The syntax of a generated module: expressions, statements, and the markup elements that expressions
refer to.

## Main definitions

* `Expr`, `Statement` — a script
* `Markup` — a markup element
* `Arena` — all markup elements of a module, by position

## Design notes

Markup elements are kept apart from the expressions and referred to by their position, so that an
attribute can be set on an element after the tree around it has been built.
-/

namespace ViewGen

/-- The position of a markup element in its arena. -/
abbrev ElementId := Nat

/-- The comparisons of a script. -/
inductive Comparison where
  | equal
  | notEqual
  | greater
  | greaterOrEqual
  | less
  | lessOrEqual
  deriving DecidableEq

/-- The sign of a comparison. -/
def Comparison.sign : Comparison → String
  | .equal => "==="
  | .notEqual => "!=="
  | .greater => ">"
  | .greaterOrEqual => ">="
  | .less => "<"
  | .lessOrEqual => "<="

/-- The connectives of a script. -/
inductive Connective where
  | and
  | or
  deriving DecidableEq

/-- The sign of a connective. -/
def Connective.sign : Connective → String
  | .and => "&&"
  | .or => "||"

/-- What a constant declaration binds: a name, or the names of an array pattern. -/
inductive Pattern where
  | name (name : String)
  | array (names : List String)
  deriving DecidableEq

/-- A name imported by name, with the name it is bound to. -/
structure ImportSpecifier where
  imported : String
  bound : String
  deriving DecidableEq

/-- An import declaration: `import Default, { named as bound } from 'source'`. -/
structure ImportDeclaration where
  source : String
  default : Option String := none
  named : List ImportSpecifier := []
  deriving DecidableEq

mutual

/-- An expression of a script. -/
inductive Expr where
  | ident (name : String)
  | member (object : Expr) (property : String)
  | str (s : String)
  | num (x : Float)
  | bool (b : Bool)
  | null
  | array (items : List Expr)
  | object (properties : List (String × Expr))
  | compare (comparison : Comparison) (left right : Expr)
  | logical (connective : Connective) (left right : Expr)
  | not (argument : Expr)
  | call (callee : Expr) (arguments : List Expr)
  | arrow (params : List String) (body : Expr)
  | arrowBlock (params : List String) (body : List Statement)
  | element (id : ElementId)

/-- A statement of a script. -/
inductive Statement where
  | importing (declaration : ImportDeclaration)
  | constant (pattern : Pattern) (value : Expr)
  | expr (e : Expr)
  | returning (e : Expr)
  | exporting (e : Expr)
  | assign (target value : Expr)

end

namespace Expr

/-- The members of an expression along some names. -/
def members (object : Expr) (names : List String) : Expr :=
  names.foldl .member object

/-- The expression of a dotted path: `props.user.name`. -/
def path (dotted : String) : Expr :=
  match Reference.segments dotted with
  | [] => .ident ""
  | first :: rest => (Expr.ident first).members rest

/-- The expression of a scalar. -/
def ofScalar : Scalar → Expr
  | .bool b => .bool b
  | .number x => .num x
  | .text s => .str s

end Expr

/-- The value of a markup attribute: a text, an expression in braces, or nothing but the name. -/
inductive MarkupValue where
  | text (s : String)
  | expr (e : Expr)
  | flag

/-- A child of a markup element. -/
inductive MarkupChild where
  | text (s : String)
  | element (id : ElementId)
  | expr (e : Expr)

/-- A markup element. -/
structure Markup where
  name : String
  attributes : Dict MarkupValue := []
  children : List MarkupChild := []
  selfClosing : Bool := false

/-- An element with an attribute set: in place when it has one of that name. -/
def Markup.set (m : Markup) (name : String) (value : MarkupValue) : Markup :=
  { m with attributes := m.attributes.insert name value }

/-- The markup elements of a module. -/
structure Arena where
  elements : Array Markup := #[]

namespace Arena

/-- How many elements there are. -/
def size (a : Arena) : Nat :=
  a.elements.size

/-- The element at a position. -/
def get? (a : Arena) (id : ElementId) : Option Markup :=
  a.elements[id]?

/-- Add an element; its position is the old size. -/
def push (a : Arena) (m : Markup) : Arena :=
  ⟨a.elements.push m⟩

/-- Set an attribute of the element at a position. -/
def set (a : Arena) (id : ElementId) (name : String) (value : MarkupValue) : Arena :=
  ⟨a.elements.modify id (·.set name value)⟩

end Arena

end ViewGen
