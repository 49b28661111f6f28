import ViewGen.Document.Component
import ViewGen.Json.Basic

/-!
# Documents as JSON trees

The tree that a document is written as: fields in a fixed order, dictionaries in their own order,
and a field left out when it has no value and is one of those that may be missing.

## Main definitions

* `Node.toJson`, `Component.toJson`, `Project.toJson` — the trees
* `Json.tag` — a kind with its content

## Design notes

A number stays a number in the tree, also one that is not finite and has no text in JSON. Documents
that are read from a text have finite numbers only.
-/

namespace ViewGen

/-- A kind with its content. -/
def Json.tag (kind : String) (content : Json) : Json :=
  .obj [("type", .str kind), ("content", content)]

/-- A field that is left out when it has no value. -/
def Json.present (name : String) (value : Option Json) : List (String × Json) :=
  match value with
  | some j => [(name, j)]
  | none => []

/-- A value that may be null. -/
def Json.orNull (value : Option Json) : Json :=
  value.getD .null

/-- A dictionary whose values are written by `write`. -/
def Json.ofDict {α : Type} (write : α → Json) (d : Dict α) : Json :=
  .obj (d.map fun (k, a) => (k, write a))

/-- The tree of a scalar. -/
def Scalar.toJson : Scalar → Json
  | .bool b => .bool b
  | .number x => .float x
  | .text s => .str s

/-- The tree of a reference. -/
def Reference.toJson (r : Reference) : Json :=
  .obj [("id", .str r.id), ("referenceType", .str r.kind.name)]

/-- The tree of a condition. -/
def Condition.toJson (c : Condition) : Json :=
  .obj (("operation", .str c.operation.name) ::
    Json.present "operand" (c.operand.map Scalar.toJson))

/-- The tree of a test. -/
def Test.toJson (t : Test) : Json :=
  .obj [("conditions", .arr (t.conditions.map Condition.toJson)),
    ("matchType", .str t.quantifier.name)]

/-- The tree of a handler. -/
def Handler.toJson : Handler → Json
  | .setState state value =>
    .obj [("type", .str "stateChange"), ("modifies", .str state), ("newState", value.toJson)]
  | .callProp prop arguments =>
    .obj [("type", .str "propCall"), ("calls", .str prop),
      ("args", .arr (arguments.map Scalar.toJson))]

/-- The tree of a style value. -/
def StyleValue.toJson : StyleValue → Json
  | .static value => .tag "static" value.toJson
  | .dynamic reference => .tag "dynamic" reference.toJson

/-- The tree of a dependency. -/
def Dependency.toJson (d : Dependency) : Json :=
  .obj ([("type", .str d.kind.name), ("path", .str d.path)] ++
    Json.present "version" (d.version.map .str) ++
    [("meta", .obj (("named", .bool d.named) ::
      (Json.present "originalName" (d.renamedFrom.map .str) ++
        Json.present "importAlias" (d.importAlias.map .str))))])

/-- The tree of a loop's source. -/
def LoopSource.toJson : LoopSource → Json
  | .reference r => .tag "dynamic" r.toJson
  | .inline items => .tag "static" (.arr (items.map Scalar.toJson))

/-- The tree of a loop's names. -/
def LoopNames.toJson (n : LoopNames) : Json :=
  .obj [("iteratorName", Json.orNull (n.iterator.map .str)),
    ("iteratorKey", Json.orNull (n.key.map .str)), ("useIndex", .bool n.useIndex)]

mutual

/-- The tree of a node. -/
def Node.toJson : Node → Json
  | .static value => .tag "static" value.toJson
  | .dynamic reference => .tag "dynamic" reference.toJson
  | .raw markup => .tag "raw" (.str markup)
  | .element e => .tag "element" (elementToJson e)
  | .loop ⟨template, source, names⟩ =>
    .tag "repeat" (.obj [("node", .tag "element" (elementToJson template)),
      ("dataSource", source.toJson), ("meta", names.toJson)])
  | .conditional ⟨node, subject, value, condition⟩ =>
    .tag "conditional" (.obj ([("node", Node.toJson node),
        ("reference", .tag "dynamic" subject.toJson)] ++
      Json.present "value" (value.map Scalar.toJson) ++
      Json.present "condition" (condition.map Test.toJson)))
  | .slot ⟨name, some fallback⟩ =>
    .tag "slot" (.obj (Json.present "name" (name.map .str) ++ [("fallback", Node.toJson fallback)]))
  | .slot ⟨name, none⟩ => .tag "slot" (.obj (Json.present "name" (name.map .str)))

/-- The tree of an element. -/
def elementToJson : Element Node → Json
  | ⟨tag, name, key, selfClosing, attrs, events, style, children, dependency⟩ =>
    .obj ([("elementType", .str tag)] ++ Json.present "name" (name.map .str) ++
      [("key", .str key), ("selfClosing", .bool selfClosing), ("attrs", .obj (attrsToJson attrs)),
        ("events", Json.ofDict (fun handlers => .arr (handlers.map Handler.toJson)) events),
        ("style", Json.ofDict StyleValue.toJson style),
        ("children", .arr (nodesToJson children))] ++
      Json.present "dependency" (dependency.map Dependency.toJson))

/-- The fields of some attributes. -/
def attrsToJson : List (String × Attribute Node) → List (String × Json)
  | [] => []
  | (name, .static value) :: rest => (name, .tag "static" value.toJson) :: attrsToJson rest
  | (name, .dynamic reference) :: rest =>
    (name, .tag "dynamic" reference.toJson) :: attrsToJson rest
  | (name, .imported id) :: rest =>
    (name, .tag "import" (.obj [("id", .str id)])) :: attrsToJson rest
  | (name, .slot content) :: rest => (name, .tag "slot" (Node.toJson content)) :: attrsToJson rest

/-- The trees of some nodes. -/
def nodesToJson : List Node → List Json
  | [] => []
  | n :: rest => Node.toJson n :: nodesToJson rest

end

/-- The tree of a prop's declaration. -/
def PropDefinition.toJson (d : PropDefinition) : Json :=
  .obj ([("type", .str d.type.name)] ++ Json.present "defaultValue" (d.default.map Scalar.toJson) ++
    [("required", .bool d.required)])

/-- The tree of page options. -/
def PageOptions.toJson (o : PageOptions) : Json :=
  .obj [("componentName", Json.orNull (o.componentName.map .str)),
    ("navLink", Json.orNull (o.navLink.map .str)), ("fileName", Json.orNull (o.fileName.map .str))]

/-- The tree of a state's value. -/
def StateValue.toJson (v : StateValue) : Json :=
  .obj [("value", .str v.value),
    ("pageOptions", Json.orNull (v.pageOptions.map PageOptions.toJson))]

/-- The tree of a state's declaration. -/
def StateDefinition.toJson (d : StateDefinition) : Json :=
  .obj [("type", .str d.type.name), ("defaultValue", d.default.toJson),
    ("values", .arr (d.values.map StateValue.toJson))]

/-- The tree of a component. -/
def Component.toJson (c : Component) : Json :=
  .obj [("name", .str c.name), ("node", c.node.toJson),
    ("propDefinitions", Json.ofDict PropDefinition.toJson c.props),
    ("stateDefinitions", Json.ofDict StateDefinition.toJson c.states),
    ("designTokens", Json.ofDict Scalar.toJson c.tokens)]

/-- The tree of a meta tag. -/
def MetaTag.toJson (t : MetaTag) : Json :=
  .obj [("name", .str t.name), ("content", .str t.content)]

/-- The tree of what a project says about its index page. -/
def ProjectGlobals.toJson (g : ProjectGlobals) : Json :=
  .obj [("title", .str g.title), ("language", Json.orNull (g.language.map .str)),
    ("meta", .arr (g.metaTags.map MetaTag.toJson))]

/-- The tree of a project. -/
def Project.toJson (p : Project) : Json :=
  .obj [("name", .str p.name), ("globals", p.globals.toJson), ("root", p.root.toJson),
    ("components", .arr (p.components.map Component.toJson))]

end ViewGen
