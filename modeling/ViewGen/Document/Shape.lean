import ViewGen.Document.Decoding
import ViewGen.Document.Error
import ViewGen.Document.Validity
import ViewGen.Json.Reader

/-!
# The shape of a document

Checks on the tree of a document before it is read into types, so that a node or an attribute of an
unknown kind is reported with its location, and the ways to read a document from text.

## Main definitions

* `Json.checkNode` — a tree has the shape of a node
* `Component.parse`, `Project.parse` — a document from text: sorted tree, shape, types, validity
* `Component.ofText?`, `Project.ofText?`, `Node.ofText?` — a document from text into types at once

## Design notes

The checks recurse on a number of levels, like the readers. A tree without arrays and objects is no
object, so running out of levels and finding no object are the same outcome.
-/

namespace ViewGen

namespace Json

/-- The outcome of a check. -/
abbrev Shape := Except DocumentError Unit

/-- A malformed part of a document. -/
def malformed {α : Type} (location : Location) (defect : Defect) : Except DocumentError α :=
  .error (.malformed location defect)

/-- The fields of an object. -/
def asObject (j : Json) (location : Location) : Except DocumentError (List (String × Json)) :=
  match j with
  | .obj fields => .ok fields
  | _ => malformed location .noObject

/-- The type tag among the fields of an object. -/
def typeTag (fields : List (String × Json)) (location : Location) : Except DocumentError String :=
  match fields.lookup "type" with
  | some (.str kind) => .ok kind
  | _ => malformed location .noTypeTag

/-- The type tag of an object. -/
def tagOf (j : Json) (location : Location) : Except DocumentError String := do
  typeTag (← j.asObject location) location

/-- The value of a field that has to be there. -/
def needField (fields : List (String × Json)) (name : String) (location : Location)
    (defect : Defect) : Except DocumentError Json :=
  match fields.lookup name with
  | some j => .ok j
  | none => malformed location defect

/-- A scalar. -/
def checkScalar (j : Json) (location : Location) : Shape :=
  match j with
  | .str _ | .int _ | .float _ | .bool _ => .ok ()
  | _ => malformed location .staticNotScalar

/-- A reference with an id and a kind. -/
def checkReference (j : Json) (location : Location) : Shape := do
  let fields ← j.asObject location
  match fields.lookup "id", fields.lookup "referenceType" with
  | some (.str _), some (.str _) => .ok ()
  | _, _ => malformed location .referenceIncomplete

/-- The tag of a loop's source. -/
def checkSource (j : Json) (location : Location) : Shape := do
  let kind ← j.tagOf location
  if kind = "dynamic" ∨ kind = "static" then .ok ()
  else malformed location (.loopSourceUnsupported kind)

/-- The values of a style; `element` is where the element's content stands. -/
def checkStyle (element location : Location) : List (String × Json) → Shape
  | [] => .ok ()
  | (name, j) :: rest => do
    let kind ← j.tagOf (location.field name)
    if kind = "static" ∨ kind = "dynamic" then checkStyle element location rest
    else .error (.unsupportedAttribute element ("style." ++ name) kind)

/-- The handlers of one event; the first stands at `position`. -/
def checkHandlers (location : Location) : Nat → List Json → Shape
  | _, [] => .ok ()
  | position, j :: rest => do
    let kind ← j.tagOf (location.index position)
    if kind = "stateChange" ∨ kind = "propCall" then checkHandlers location (position + 1) rest
    else malformed (location.index position) (.handlerUnsupported kind)

/-- The handlers of all events. -/
def checkEvents (location : Location) : List (String × Json) → Shape
  | [] => .ok ()
  | (name, .arr handlers) :: rest => do
    checkHandlers (location.field name) 0 handlers
    checkEvents location rest
  | (name, _) :: _ => malformed (location.field name) .handlersNoArray

/-- A check of a part that may be missing. -/
def ifPresent (fields : List (String × Json)) (name : String) (check : Json → Shape) : Shape :=
  match fields.lookup name with
  | some j => check j
  | none => .ok ()

/-- Attributes, given the check of a node; `element` is where the element's content stands. -/
def checkAttrs (node : Json → Location → Shape) (element location : Location) :
    List (String × Json) → Shape
  | [] => .ok ()
  | (name, j) :: rest => do
    let here := location.field name
    let fields ← j.asObject here
    match ← typeTag fields here with
    | "static" | "dynamic" | "import" => checkAttrs node element location rest
    | "slot" =>
      let content ← needField fields "content" here .slotAttributeWithoutContent
      node content (here.field "content")
      checkAttrs node element location rest
    | kind => .error (.unsupportedAttribute element name kind)

/-- Children, given the check of a node; the first stands at `position`. -/
def checkChildren (node : Json → Location → Shape) (location : Location) :
    Nat → List Json → Shape
  | _, [] => .ok ()
  | position, j :: rest => do
    node j (location.index position)
    checkChildren node location (position + 1) rest

/-- The content of an element, given the check of a node. -/
def checkElement (node : Json → Location → Shape) (j : Json) (location : Location) : Shape := do
  let fields ← j.asObject location
  match fields.lookup "elementType" with
  | some (.str _) =>
    ifPresent fields "attrs" fun attrs => do
      let attrs ← attrs.asObject (location.field "attrs")
      checkAttrs node location (location.field "attrs") attrs
    ifPresent fields "style" fun style => do
      let style ← style.asObject (location.field "style")
      checkStyle location (location.field "style") style
    ifPresent fields "events" fun events => do
      let events ← events.asObject (location.field "events")
      checkEvents (location.field "events") events
    ifPresent fields "children" fun children =>
      match children with
      | .arr items => checkChildren node (location.field "children") 0 items
      | _ => malformed (location.field "children") .childrenNoArray
  | _ => malformed location .elementWithoutType

/-- The content of a loop, given the check of a node. -/
def checkLoop (node : Json → Location → Shape) (j : Json) (location : Location) : Shape := do
  let fields ← j.asObject location
  let template ← needField fields "node" location .loopWithoutNode
  node template (location.field "node")
  if (← template.tagOf (location.field "node")) ≠ "element" then
    malformed (location.field "node") .loopTemplateNoElement
  let source ← needField fields "dataSource" location .loopWithoutSource
  source.checkSource (location.field "dataSource")

/-- The content of a conditional, given the check of a node. -/
def checkConditional (node : Json → Location → Shape) (j : Json) (location : Location) :
    Shape := do
  let fields ← j.asObject location
  let inner ← needField fields "node" location .conditionalWithoutNode
  node inner (location.field "node")
  let reference ← needField fields "reference" location .conditionalWithoutReference
  if (← reference.tagOf (location.field "reference")) ≠ "dynamic" then
    malformed (location.field "reference") .conditionalReferenceNotDynamic

/-- The content of a slot, given the check of a node. -/
def checkSlot (node : Json → Location → Shape) (j : Json) (location : Location) : Shape := do
  let fields ← j.asObject location
  ifPresent fields "fallback" fun fallback => node fallback (location.field "fallback")

/-- The shape of a node with at most the given number of levels. -/
def checkNodeWithin : Nat → Json → Location → Shape
  | 0, _, location => malformed location .noObject
  | levels + 1, j, location => do
    let node := checkNodeWithin levels
    let fields ← j.asObject location
    let kind ← typeTag fields location
    if !Node.kinds.contains kind then throw (.unsupportedNode location kind)
    let content ← needField fields "content" location .noContent
    let inner := location.field "content"
    match kind with
    | "static" => content.checkScalar inner
    | "raw" => if content.str?.isSome then .ok () else malformed inner .rawNotText
    | "dynamic" => content.checkReference inner
    | "element" => content.checkElement node inner
    | "repeat" => content.checkLoop node inner
    | "conditional" => content.checkConditional node inner
    | "slot" => content.checkSlot node inner
    | _ => .error (.unsupportedNode location kind)

/-- The shape of a node. -/
def checkNode (j : Json) (location : Location) : Shape :=
  checkNodeWithin j.depth j location

/-- The shape of a component. -/
def checkComponent (j : Json) (location : Location) : Shape := do
  let fields ← j.asObject location
  let node ← needField fields "node" location .componentWithoutNode
  node.checkNode (location.field "node")

/-- The shapes of components; the first stands at `position`. -/
def checkComponents (location : Location) : Nat → List Json → Shape
  | _, [] => .ok ()
  | position, j :: rest => do
    j.checkComponent (location.index position)
    checkComponents location (position + 1) rest

/-- The shape of a project. -/
def checkProject (j : Json) : Shape := do
  let fields ← j.asObject .root
  let root ← needField fields "root" .root .projectWithoutRoot
  root.checkComponent (Location.root.field "root")
  ifPresent fields "components" fun components =>
    match components with
    | .arr items => checkComponents (Location.root.field "components") 0 items
    | _ => malformed (Location.root.field "components") .noArray

end Json

/-- Something that has to be readable. -/
def orUnreadable {α : Type} : Option α → Except DocumentError α
  | some a => .ok a
  | none => .error .unreadable

/-- A component from text, by way of the sorted tree: its shape is checked first, then it is read
into types, and then its validity is checked. -/
def Component.parse (text : String) : Except DocumentError Component := do
  let tree ← orUnreadable (Json.parseSorted? text)
  tree.checkComponent .root
  let component ← orUnreadable (Component.read tree.depth tree)
  component.validate
  return component

/-- A project from text, by way of the sorted tree. -/
def Project.parse (text : String) : Except DocumentError Project := do
  let tree ← orUnreadable (Json.parseSorted? text)
  tree.checkProject
  let project ← orUnreadable (Project.read tree.depth tree)
  project.validate
  return project

/-- A component from text, read into types at once. -/
def Component.ofText? (text : String) : Option Component :=
  (Json.parse? text).bind (Component.read Json.depthLimit)

/-- A project from text, read into types at once. -/
def Project.ofText? (text : String) : Option Project :=
  (Json.parse? text).bind (Project.read Json.depthLimit)

/-- A node from text, read into types at once. -/
def Node.ofText? (text : String) : Option Node :=
  (Json.parse? text).bind (Node.read .direct Json.depthLimit)

end ViewGen
