import ViewGen.Document.Value
import ViewGen.Script.Basic

/-!
# How nodes are compiled

## Main definitions

* `Target` — what a node compiles to
* `Qualifier` — how a kind of reference is written
* `CompileOptions` — what differs from one kind of module to another
-/

namespace ViewGen

/-- What a node compiles to. -/
inductive Target where
  | text (s : String)
  | expr (e : Expr)
  | element (id : ElementId)

namespace Target

/-- A compiled node in the place of an expression: a text becomes a literal. -/
def toExpr : Target → Expr
  | .text s => .str s
  | .expr e => e
  | .element id => .element id

/-- A compiled node in the place of a child. -/
def toChild : Target → MarkupChild
  | .text s => .text s
  | .expr e => .expr e
  | .element id => .element id

/-- A compiled node in the place of an attribute's value. -/
def toValue : Target → MarkupValue
  | .text s => .text s
  | .expr e => .expr e
  | .element id => .expr (.element id)

end Target

/-- How a kind of reference is written: by its name alone, or as a member of something. -/
inductive Qualifier where
  | bare
  | within (path : String)

/-- The constant that holds the design tokens. -/
def tokensName : String := "TOKENS"

/-- References inside a function component: props are members of `props`, tokens of the constant
that holds them, and all others are in scope. -/
def functionQualifiers : ReferenceKind → Option Qualifier
  | .prop => some (.within "props")
  | .state | .loop => some .bare
  | .token => some (.within tokensName)

/-- References inside a template: only tokens are members of something. -/
def templateQualifiers : ReferenceKind → Option Qualifier
  | .prop | .state | .loop => some .bare
  | .token => some (.within tokensName)

/-- What becomes of the fallback of a slot. -/
inductive SlotHandling where
  | forwardChildren
  | fallbackWhenEmpty
  deriving DecidableEq

/-- What differs from one kind of module to another. A kind of reference without a qualifier cannot
be written. -/
structure CompileOptions where
  bindImports : Bool := true
  qualifiers : ReferenceKind → Option Qualifier := functionQualifiers
  customTag : Option (String → String) := none
  injectMarkup : Option (String → Arena → Target × Arena) := none
  slots : SlotHandling := .forwardChildren
  childrenProp : String := "children"

end ViewGen
