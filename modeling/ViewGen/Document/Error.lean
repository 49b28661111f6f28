import ViewGen.Document.Location
import ViewGen.Document.Value

/-!
# What can be wrong with a document

## Main definitions

* `Defect` — why a part of a document is malformed
* `DocumentError` — a document that cannot be read or is not valid
* `ScopeError` — a name that is used without a declaration
-/

namespace ViewGen

/-- Why a part of a document is malformed. -/
inductive Defect where
  | noObject
  | noArray
  | noTypeTag
  | noContent
  | rawNotText
  | staticNotScalar
  | referenceIncomplete
  | loopWithoutNode
  | loopTemplateNoElement
  | loopWithoutSource
  | loopSourceUnsupported (kind : String)
  | conditionalWithoutNode
  | conditionalWithoutReference
  | conditionalReferenceNotDynamic
  | elementWithoutType
  | slotAttributeWithoutContent
  | handlersNoArray
  | handlerUnsupported (kind : String)
  | childrenNoArray
  | componentWithoutNode
  | projectWithoutRoot
  | componentNameBlank
  | rootUnsupported (component kind : String)
  | elementTypeBlank
  | conditionWithoutOperands
  | truthinessWithOperand
  | comparisonWithoutOperand
  deriving DecidableEq

/-- The wording of a defect. -/
def Defect.message : Defect → String
  | .noObject => "expected an object"
  | .noArray => "expected an array"
  | .noTypeTag => "missing string 'type' tag"
  | .noContent => "node has no content"
  | .rawNotText => "raw content must be a string"
  | .staticNotScalar => "static content must be a string, number or boolean"
  | .referenceIncomplete => "dynamic reference needs a string id and referenceType"
  | .loopWithoutNode => "repeat has no node"
  | .loopTemplateNoElement => "repeat template must be an element"
  | .loopWithoutSource => "repeat has no dataSource"
  | .loopSourceUnsupported kind => "dataSource of type '" ++ kind ++ "' is not supported"
  | .conditionalWithoutNode => "conditional has no node"
  | .conditionalWithoutReference => "conditional has no reference"
  | .conditionalReferenceNotDynamic => "conditional reference must be dynamic"
  | .elementWithoutType => "element has no elementType"
  | .slotAttributeWithoutContent => "slot attribute has no content"
  | .handlersNoArray => "event handlers must be an array"
  | .handlerUnsupported kind => "unsupported event handler '" ++ kind ++ "'"
  | .childrenNoArray => "children must be an array"
  | .componentWithoutNode => "component has no node"
  | .projectWithoutRoot => "project has no root component"
  | .componentNameBlank => "component name is empty"
  | .rootUnsupported component kind =>
    "component " ++ component ++ " has a '" ++ kind ++
      "' root; expected element, repeat or conditional"
  | .elementTypeBlank => "element type is empty"
  | .conditionWithoutOperands => "condition has no operands"
  | .truthinessWithOperand => "truthiness tests take no operand"
  | .comparisonWithoutOperand => "comparison is missing its operand"

/-- A document that cannot be read or is not valid. -/
inductive DocumentError where
  | unreadable
  | malformed (location : Location) (defect : Defect)
  | unsupportedNode (location : Location) (kind : String)
  | unsupportedAttribute (location : Location) (name kind : String)
  | duplicateComponent (name : String)
  deriving DecidableEq

/-- The wording of an error. -/
def DocumentError.message : DocumentError → String
  | .unreadable => "Invalid UIDL JSON"
  | .malformed location defect => "Malformed UIDL at " ++ location.text ++ ": " ++ defect.message
  | .unsupportedNode location kind =>
    "Unsupported node type '" ++ kind ++ "' at " ++ location.text
  | .unsupportedAttribute location name kind =>
    "Unsupported attribute '" ++ name ++ "' of type '" ++ kind ++ "' at " ++ location.text
  | .duplicateComponent name => "Component name '" ++ name ++ "' is used more than once"

/-- A name that is used without a declaration. -/
inductive ScopeError where
  | unresolved (reference : Reference) (location : Location) (component : String)
  | unknownState (event state : String) (location : Location) (component : String)
  | unknownProp (event prop : String) (location : Location) (component : String)
  deriving DecidableEq

/-- The wording of an error. -/
def ScopeError.message : ScopeError → String
  | .unresolved reference location component =>
    "Unresolved " ++ reference.kind.name ++ " reference '" ++ reference.id ++ "' at " ++
      location.text ++ " in component " ++ component
  | .unknownState event state location component =>
    "Event '" ++ event ++ "' at " ++ location.text ++ " modifies undeclared state '" ++ state ++
      "' in component " ++ component
  | .unknownProp event prop location component =>
    "Event '" ++ event ++ "' at " ++ location.text ++ " calls undeclared prop '" ++ prop ++
      "' in component " ++ component

end ViewGen
