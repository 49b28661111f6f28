import ViewGen.Decimal.Reading
import ViewGen.Document.Component
import ViewGen.Json.Record

/-!
# Documents from JSON trees

Every reader takes the number of levels of arrays and objects it may still enter, and fails on the
first thing that does not fit. A tree that was checked before is read with as many levels as it has.
Readers of what can stand in a node also take the arrival of the value.

## Main definitions

* `Node.read`, `Component.read`, `Project.read` — the readers
* `Json.variant?` — a value whose tag selects the reader of its content

## Design notes

The recursion is on the levels: nodes nest only inside arrays and objects, so a reader that enters
one has a level less for what is inside.
-/

namespace ViewGen

/-- A value whose tag selects the reader of its content. -/
def Json.variant? {α : Type} (arrival : Arrival) (levels : Nat)
    (readers : List (String × (Arrival → Json → Option α))) (j : Json) : Option α :=
  (j.tagged? arrival levels readers).bind fun (read, inner, content) => read inner content

/-- Read a scalar; an integer is rounded to a double. -/
def Scalar.read : Json → Option Scalar
  | .bool b => some (.bool b)
  | .int n => some (.number (floatOfInt n))
  | .float x => some (.number x)
  | .str s => some (.text s)
  | _ => none

/-- The kinds of references by name. -/
def ReferenceKind.table : List (String × ReferenceKind) :=
  [ReferenceKind.prop, .state, .loop, .token].map fun k => (k.name, k)

/-- Read a reference. -/
def Reference.read (arrival : Arrival) (levels : Nat) (j : Json) : Option Reference := do
  let r ← j.record? levels ["id", "referenceType"]
  return {
    id := ← r.required "id" Json.str?
    kind := ← r.required "referenceType" (Json.name? arrival (levels - 1) ReferenceKind.table) }

/-- The operations by name. -/
def Operation.table : List (String × Operation) :=
  [Operation.equal, .notEqual, .greater, .greaterOrEqual, .less, .lessOrEqual, .truthy, .falsy].map
    fun o => (o.name, o)

/-- Read a condition. -/
def Condition.read (arrival : Arrival) (levels : Nat) (j : Json) : Option Condition := do
  let r ← j.record? levels ["operation", "operand"]
  return {
    operation := ← r.required "operation" (Json.name? arrival (levels - 1) Operation.table)
    operand := ← r.optional "operand" Scalar.read }

/-- The quantifiers by name. -/
def Quantifier.table : List (String × Quantifier) :=
  [Quantifier.all, .any].map fun q => (q.name, q)

/-- Read a test. -/
def Test.read (arrival : Arrival) (levels : Nat) (j : Json) : Option Test := do
  let r ← j.record? levels ["conditions", "matchType"]
  return {
    conditions := ← r.required "conditions"
      (Json.list? (levels - 1) (Condition.read arrival (levels - 1 - 1)))
    quantifier := ← r.orDefault "matchType" .all
      (Json.name? arrival (levels - 1) Quantifier.table) }

/-- Read the fields of a handler that sets a state. -/
def Handler.readSetState (levels : Nat) (j : Json) : Option Handler := do
  let r ← j.record? levels ["modifies", "newState"]
  return .setState (← r.required "modifies" Json.str?) (← r.required "newState" Scalar.read)

/-- Read the fields of a handler that calls a prop. -/
def Handler.readCallProp (levels : Nat) (j : Json) : Option Handler := do
  let r ← j.record? levels ["calls", "args"]
  return .callProp (← r.required "calls" Json.str?)
    (← r.orDefault "args" [] (Json.list? levels Scalar.read))

/-- The readers of the fields of a handler, by its kind. -/
def Handler.readers (levels : Nat) : List (String × (Json → Option Handler)) :=
  [("stateChange", Handler.readSetState levels), ("propCall", Handler.readCallProp levels)]

/-- Read a handler. Its kind is a label among its other fields, or before them in an array, so all
of it is kept until the kind is known. -/
def Handler.read (arrival : Arrival) (levels : Nat) (j : Json) : Option Handler :=
  if j.readable && j.depth ≤ levels then
    match j with
    | .obj fields =>
      match fields.filter (fun field => field.1 == "type") with
      | [(_, tag)] => do
        let read ← tag.label? arrival (Handler.readers levels)
        read (.obj (fields.filter fun field => field.1 != "type"))
      | _ => none
    | .arr (tag :: items) => do
      let read ← tag.label? arrival (Handler.readers levels)
      read (.arr items)
    | _ => none
  else none

/-- Read a style value. -/
def StyleValue.read (arrival : Arrival) (levels : Nat) (j : Json) : Option StyleValue :=
  j.variant? arrival levels
    [("static", fun _ content => (Scalar.read content).map .static),
     ("dynamic", fun inner content => (Reference.read inner (levels - 1) content).map .dynamic)]

/-- The kinds of dependencies by name. -/
def DependencyKind.table : List (String × DependencyKind) :=
  [DependencyKind.package, .project, .custom].map fun k => (k.name, k)

/-- Read what a dependency says about its binding into the dependency. -/
def Dependency.readBinding (levels : Nat) (d : Dependency) (j : Json) : Option Dependency := do
  let r ← j.record? levels ["named", "originalName", "importAlias"]
  return { d with
    named := ← r.orDefault "named" false Json.bool?
    renamedFrom := ← r.optional "originalName" Json.str?
    importAlias := ← r.optional "importAlias" Json.str? }

/-- Read a dependency. -/
def Dependency.read (arrival : Arrival) (levels : Nat) (j : Json) : Option Dependency := do
  let r ← j.record? levels ["type", "path", "version", "meta"]
  let d : Dependency := {
    kind := ← r.required "type" (Json.name? arrival (levels - 1) DependencyKind.table)
    path := ← r.required "path" Json.str?
    version := ← r.optional "version" Json.str? }
  r.orDefault "meta" d (Dependency.readBinding (levels - 1) d)

/-- Read a loop's source. -/
def LoopSource.read (arrival : Arrival) (levels : Nat) (j : Json) : Option LoopSource :=
  j.variant? arrival levels
    [("dynamic", fun inner content => (Reference.read inner (levels - 1) content).map .reference),
     ("static", fun _ content => (content.list? (levels - 1) Scalar.read).map .inline)]

/-- Read a loop's names. -/
def LoopNames.read (levels : Nat) (j : Json) : Option LoopNames := do
  let r ← j.record? levels ["iteratorName", "iteratorKey", "useIndex"]
  return {
    iterator := ← r.optional "iteratorName" Json.str?
    key := ← r.optional "iteratorKey" Json.str?
    useIndex := ← r.orDefault "useIndex" false Json.bool? }

/-- Read the identifier of an imported attribute, which has to stand in an object. -/
def readImported (levels : Nat) (j : Json) : Option String := do
  let r ← j.objectRecord? levels ["id"]
  r.required "id" Json.str?

mutual

/-- Read a node. -/
def Node.read : Arrival → Nat → Json → Option Node
  | _, 0, _ => none
  | arrival, levels + 1, j =>
    j.variant? arrival (levels + 1)
      [("static", fun _ content => (Scalar.read content).map .static),
       ("dynamic", fun inner content => (Reference.read inner levels content).map .dynamic),
       ("raw", fun _ content => content.str?.map .raw),
       ("element", fun inner content => (readElement inner levels content).map .element),
       ("repeat", fun inner content => (readLoop inner levels content).map .loop),
       ("conditional", fun inner content =>
         (readConditional inner levels content).map .conditional),
       ("slot", fun inner content => (readSlot inner levels content).map .slot)]

/-- Read an element. -/
def readElement : Arrival → Nat → Json → Option (Element Node)
  | _, 0, _ => none
  | arrival, levels + 1, j => do
    let r ← j.record? (levels + 1) ["elementType", "name", "key", "selfClosing", "attrs", "events",
      "style", "children", "dependency"]
    return {
      tag := ← r.required "elementType" Json.str?
      name := ← r.optional "name" Json.str?
      key := ← r.orDefault "key" "" Json.str?
      selfClosing := ← r.orDefault "selfClosing" false Json.bool?
      attrs := ← r.orDefault "attrs" [] (readAttrs arrival levels)
      events := ← r.orDefault "events" []
        (Json.dict? levels (Json.list? (levels - 1) (Handler.read arrival (levels - 1 - 1))))
      style := ← r.orDefault "style" [] (Json.dict? levels (StyleValue.read arrival (levels - 1)))
      children := ← r.orDefault "children" [] (readNodes arrival levels)
      dependency := ← r.optional "dependency" (Dependency.read arrival levels) }

/-- Read attributes. -/
def readAttrs : Arrival → Nat → Json → Option (Dict (Attribute Node))
  | _, 0, _ => none
  | arrival, levels + 1, j => j.dict? (levels + 1) (readAttribute arrival levels)

/-- Read an attribute. -/
def readAttribute : Arrival → Nat → Json → Option (Attribute Node)
  | _, 0, _ => none
  | arrival, levels + 1, j =>
    j.variant? arrival (levels + 1)
      [("static", fun _ content => (Scalar.read content).map .static),
       ("dynamic", fun inner content => (Reference.read inner levels content).map .dynamic),
       ("import", fun _ content => (readImported levels content).map .imported),
       ("slot", fun inner content => (Node.read inner levels content).map .slot)]

/-- Read nodes. -/
def readNodes : Arrival → Nat → Json → Option (List Node)
  | _, 0, _ => none
  | arrival, levels + 1, j => j.list? (levels + 1) (Node.read arrival levels)

/-- Read an element that stands in a tag of its own. -/
def readTemplate : Arrival → Nat → Json → Option (Element Node)
  | _, 0, _ => none
  | arrival, levels + 1, j =>
    j.variant? arrival (levels + 1) [("element", fun inner => readElement inner levels)]

/-- Read a loop. -/
def readLoop : Arrival → Nat → Json → Option (Loop Node)
  | _, 0, _ => none
  | arrival, levels + 1, j => do
    let r ← j.record? (levels + 1) ["node", "dataSource", "meta"]
    return {
      template := ← r.required "node" (readTemplate arrival levels)
      source := ← r.required "dataSource" (LoopSource.read arrival levels)
      names := ← r.orDefault "meta" {} (LoopNames.read levels) }

/-- Read a conditional. -/
def readConditional : Arrival → Nat → Json → Option (Conditional Node)
  | _, 0, _ => none
  | arrival, levels + 1, j => do
    let r ← j.record? (levels + 1) ["node", "reference", "value", "condition"]
    return {
      node := ← r.required "node" (Node.read arrival levels)
      subject := ← r.required "reference"
        (Json.variant? arrival levels
          [("dynamic", fun inner => Reference.read inner (levels - 1))])
      value := ← r.optional "value" Scalar.read
      condition := ← r.optional "condition" (Test.read arrival levels) }

/-- Read a slot. -/
def readSlot : Arrival → Nat → Json → Option (Slot Node)
  | _, 0, _ => none
  | arrival, levels + 1, j => do
    let r ← j.record? (levels + 1) ["name", "fallback"]
    return {
      name := ← r.optional "name" Json.str?
      fallback := ← r.optional "fallback" (Node.read arrival levels) }

end

/-- The types of props by name. -/
def PropType.table : List (String × PropType) :=
  [PropType.string, .number, .bool, .array, .object, .func, .children].map fun t => (t.name, t)

/-- Read the declaration of a prop. -/
def PropDefinition.read (levels : Nat) (j : Json) : Option PropDefinition := do
  let r ← j.record? levels ["type", "defaultValue", "required"]
  return {
    type := ← r.required "type" (Json.name? .direct (levels - 1) PropType.table)
    default := ← r.optional "defaultValue" Scalar.read
    required := ← r.orDefault "required" false Json.bool? }

/-- Read page options. -/
def PageOptions.read (levels : Nat) (j : Json) : Option PageOptions := do
  let r ← j.record? levels ["componentName", "navLink", "fileName"]
  return {
    componentName := ← r.optional "componentName" Json.str?
    navLink := ← r.optional "navLink" Json.str?
    fileName := ← r.optional "fileName" Json.str? }

/-- Read a value that a state can take. -/
def StateValue.read (levels : Nat) (j : Json) : Option StateValue := do
  let r ← j.record? levels ["value", "pageOptions"]
  return {
    value := ← r.required "value" Json.str?
    pageOptions := ← r.optional "pageOptions" (PageOptions.read (levels - 1)) }

/-- Read the declaration of a state. -/
def StateDefinition.read (levels : Nat) (j : Json) : Option StateDefinition := do
  let r ← j.record? levels ["type", "defaultValue", "values"]
  return {
    type := ← r.required "type" (Json.name? .direct (levels - 1) PropType.table)
    default := ← r.required "defaultValue" Scalar.read
    values := ← r.orDefault "values" []
      (Json.list? (levels - 1) (StateValue.read (levels - 1 - 1))) }

/-- Read a component. -/
def Component.read (levels : Nat) (j : Json) : Option Component := do
  let r ← j.record? levels ["name", "node", "propDefinitions", "stateDefinitions", "designTokens"]
  return {
    name := ← r.required "name" Json.str?
    node := ← r.required "node" (Node.read .direct (levels - 1))
    props := ← r.orDefault "propDefinitions" []
      (Json.dict? (levels - 1) (PropDefinition.read (levels - 1 - 1)))
    states := ← r.orDefault "stateDefinitions" []
      (Json.dict? (levels - 1) (StateDefinition.read (levels - 1 - 1)))
    tokens := ← r.orDefault "designTokens" [] (Json.dict? (levels - 1) Scalar.read) }

/-- Read a meta tag. -/
def MetaTag.read (levels : Nat) (j : Json) : Option MetaTag := do
  let r ← j.record? levels ["name", "content"]
  return {
    name := ← r.required "name" Json.str?
    content := ← r.required "content" Json.str? }

/-- Read what a project says about its index page. -/
def ProjectGlobals.read (levels : Nat) (j : Json) : Option ProjectGlobals := do
  let r ← j.record? levels ["title", "language", "meta"]
  return {
    title := ← r.orDefault "title" "" Json.str?
    language := ← r.optional "language" Json.str?
    metaTags := ← r.orDefault "meta" []
      (Json.list? (levels - 1) (MetaTag.read (levels - 1 - 1))) }

/-- Read a project. -/
def Project.read (levels : Nat) (j : Json) : Option Project := do
  let r ← j.record? levels ["name", "globals", "root", "components"]
  return {
    name := ← r.required "name" Json.str?
    globals := ← r.orDefault "globals" {} (ProjectGlobals.read (levels - 1))
    root := ← r.required "root" (Component.read (levels - 1))
    components := ← r.orDefault "components" []
      (Json.list? (levels - 1) (Component.read (levels - 1 - 1))) }

end ViewGen
