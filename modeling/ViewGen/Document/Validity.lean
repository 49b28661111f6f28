import ViewGen.Document.Component
import ViewGen.Document.Error

/-!
# Valid documents

What a typed document has to fulfil beyond its types: names and element types that are not blank,
roots that can be shown, conditions with the operands they need, and component names used once.

## Main definitions

* `Component.validate`, `Project.validate` — the first violation, if any, in document order
-/

namespace ViewGen

/-- A condition that takes no operand has none, and every other one has one. -/
def Condition.validate (c : Condition) (location : Location) : Except DocumentError Unit :=
  match c.operation.isUnary, c.operand.isSome with
  | true, true => .error (.malformed location .truthinessWithOperand)
  | false, false => .error (.malformed location .comparisonWithoutOperand)
  | _, _ => .ok ()

/-- Every condition of a list is valid; the first stands at `position`. -/
def validateConditions (location : Location) : Nat → List Condition → Except DocumentError Unit
  | _, [] => .ok ()
  | position, c :: cs => do
    c.validate ((location.field "conditions").index position)
    validateConditions location (position + 1) cs

/-- A test has conditions, and they are valid. -/
def Test.validate (t : Test) (location : Location) : Except DocumentError Unit :=
  if t.conditions.isEmpty then .error (.malformed location .conditionWithoutOperands)
  else validateConditions location 0 t.conditions

/-- The condition of a conditional is looked at only when it decides. -/
def validateDeciding (value : Option Scalar) (condition : Option Test) (location : Location) :
    Except DocumentError Unit :=
  match value, condition with
  | none, some test => test.validate location
  | _, _ => .ok ()

mutual

/-- A node and everything inside it is valid. -/
def Node.validate : Node → Location → Except DocumentError Unit
  | .static _, _ | .dynamic _, _ | .raw _, _ => .ok ()
  | .element e, location => validateElement e location
  | .loop ⟨template, _, _⟩, location => validateElement template (location.field "node")
  | .conditional ⟨node, _, value, condition⟩, location => do
    validateDeciding value condition (location.field "condition")
    Node.validate node (location.field "node")
  | .slot ⟨_, some fallback⟩, location => Node.validate fallback (location.field "fallback")
  | .slot ⟨_, none⟩, _ => .ok ()

/-- An element and everything inside it is valid. -/
def validateElement : Element Node → Location → Except DocumentError Unit
  | ⟨tag, _, _, _, attrs, _, _, children, _⟩, location => do
    if Text.allBlank tag then throw (.malformed location .elementTypeBlank)
    validateAttrs (location.field "attrs") attrs
    validateNodes (location.field "children") 0 children

/-- The nodes inside attributes are valid. -/
def validateAttrs (location : Location) :
    List (String × Attribute Node) → Except DocumentError Unit
  | [] => .ok ()
  | (name, .slot content) :: rest => do
    Node.validate content (location.field name)
    validateAttrs location rest
  | (_, .static _) :: rest => validateAttrs location rest
  | (_, .dynamic _) :: rest => validateAttrs location rest
  | (_, .imported _) :: rest => validateAttrs location rest

/-- Nodes are valid; the first stands at `position`. -/
def validateNodes (location : Location) : Nat → List Node → Except DocumentError Unit
  | _, [] => .ok ()
  | position, n :: rest => do
    Node.validate n (location.index position)
    validateNodes location (position + 1) rest

end

/-- A component has a name and a root that can be shown, and its tree is valid. -/
def Component.validate (c : Component) : Except DocumentError Unit := do
  if Text.allBlank c.name then throw (.malformed .root .componentNameBlank)
  if !c.node.isRoot then throw (.malformed .root (.rootUnsupported c.name c.node.kind))
  c.node.validate .root

/-- The components are valid and their names new. -/
def validateComponents (seen : List String) : List Component → Except DocumentError Unit
  | [] => .ok ()
  | c :: rest => do
    if seen.contains c.name then throw (.duplicateComponent c.name)
    c.validate
    validateComponents (c.name :: seen) rest

/-- A project's components are valid and their names differ. -/
def Project.validate (p : Project) : Except DocumentError Unit := do
  p.root.validate
  validateComponents [p.root.name] p.components

end ViewGen
