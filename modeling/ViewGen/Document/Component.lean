import ViewGen.Document.Node

/-!
# Components and projects

## Main definitions

* `Component` — a tree with the props, states and tokens it may refer to
* `Project` — an application root with further components
-/

namespace ViewGen

/-- The type of a prop or a state. -/
inductive PropType where
  | string
  | number
  | bool
  | array
  | object
  | func
  | children
  deriving DecidableEq

/-- The name of a type in documents. -/
def PropType.name : PropType → String
  | .string => "string"
  | .number => "number"
  | .bool => "boolean"
  | .array => "array"
  | .object => "object"
  | .func => "func"
  | .children => "children"

/-- The declaration of a prop. -/
structure PropDefinition where
  type : PropType
  default : Option Scalar := none
  required : Bool := false

/-- How the page of a route is named and reached. -/
structure PageOptions where
  componentName : Option String := none
  navLink : Option String := none
  fileName : Option String := none

/-- A value that a state can take; for the state of routes, a page. -/
structure StateValue where
  value : String
  pageOptions : Option PageOptions := none

/-- The declaration of a state. -/
structure StateDefinition where
  type : PropType
  default : Scalar
  values : List StateValue := []

/-- A component. -/
structure Component where
  name : String
  node : Node
  props : Dict PropDefinition := []
  states : Dict StateDefinition := []
  tokens : Dict Scalar := []

/-- The state of a project's root that selects the page. -/
def routeState : String := "route"

/-- A meta tag of the index page. -/
structure MetaTag where
  name : String
  content : String

/-- What a project says about its index page. -/
structure ProjectGlobals where
  title : String := ""
  language : Option String := none
  metaTags : List MetaTag := []

/-- A project: an application root with further components. -/
structure Project where
  name : String
  globals : ProjectGlobals := {}
  root : Component
  components : List Component := []

end ViewGen
