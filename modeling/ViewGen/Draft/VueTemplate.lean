import ViewGen.Draft.Styles
import ViewGen.Text.Entity

/-!
# Vue components

The template of a component as markup, and the options object beside it as a script.

## Main definitions

* `Template` — what writing a template needs: the import table and the components used so far
* `Template.node`, `Template.element` — the markup
* `vueScript` — the options object
* `vuePass` — the pass

## Design notes

A template is written with the text of expressions given as a function, as the text of elements is
given to `Expr.text`. The pass gives `Template.exprText`.
-/

namespace ViewGen

/-- What writing a template reads and extends. -/
structure Template where
  imports : ImportTable
  components : List String := []

/-- A computation that writes a part of a template. -/
abbrev Writing (α : Type) := StateT Template (Except GenError) α

namespace Template

/-- How references are written in a template. -/
def options : CompileOptions :=
  { qualifiers := templateQualifiers }

/-- The text of an expression in a template. -/
def exprText (e : Expr) : String :=
  Arena.exprText {} { asciiOnly := false } e

/-- The value of an attribute in double quotes. -/
def quoted (s : String) : String :=
  "\"" ++ Text.escapeAttribute s ++ "\""

variable (print : Expr → String)

/-- A bound attribute: `:name="expression"`. -/
def bound (name : String) (e : Expr) : String :=
  ":" ++ name ++ "=" ++ quoted (print e)

/-- Whether a text has two opening braces in a row. -/
def opensInterpolation : List Char → Bool
  | '{' :: '{' :: _ => true
  | _ :: rest => opensInterpolation rest
  | [] => false

/-- A literal text. One that could be taken for an interpolation is kept from being compiled. -/
def literalText (s : String) : String :=
  if opensInterpolation s.toList then "<span v-pre>" ++ Text.escapeText s ++ "</span>"
  else Text.escapeText s

/-- An interpolation. -/
def interpolation (e : Expr) : String :=
  "\x7b\x7b " ++ print e ++ " \x7d\x7d"

/-- The assignment or call of a handler. -/
def handler : Handler → Except GenError String
  | .setState state value => do
    let target ← options.reference ⟨state, .state⟩
    let value := match value with
      | .text s => if s = Handler.toggle then .not target else .str s
      | _ => Expr.ofScalar value
    return print target ++ " = " ++ print value
  | .callProp prop arguments => do
    let callee ← options.reference ⟨prop, .prop⟩
    return print (.call callee (arguments.map Expr.ofScalar))

/-- The assignments and calls of handlers. -/
def handlers : List Handler → Except GenError (List String)
  | [] => .ok []
  | h :: rest => do
    let statement ← handler print h
    let statements ← handlers rest
    return statement :: statements

/-- The attributes for events that have handlers. -/
def events : List (String × List Handler) → Except GenError (List String)
  | [] => .ok []
  | (_, []) :: rest => events rest
  | (event, h :: hs) :: rest => do
    let statements ← handlers print (h :: hs)
    let others ← events rest
    return ("@" ++ event ++ "=" ++ quoted ("; ".intercalate statements)) :: others

/-- The literal values of a style. -/
def rules (style : Dict StyleValue) : List String :=
  style.filterMap fun (property, value) =>
    match value with
    | .static value => some (Text.kebab property ++ ": " ++ cssValue property value)
    | .dynamic _ => none

/-- The attributes for a style: literal values as text, references bound. -/
def style (style : Dict StyleValue) : Except GenError (List String) := do
  let properties ← styleProperties options (styleReferences style)
  let rules := rules style
  let plain := if rules.isEmpty then [] else ["style=" ++ quoted ("; ".intercalate rules)]
  let dynamic := if properties.isEmpty then [] else [bound print "style" (.object properties)]
  return plain ++ dynamic

/-- The tag of an element. One with a dependency is imported and listed as a component. -/
def tag (name : String) : Option Dependency → Writing String
  | none => pure name
  | some d => do
    let t ← get
    let (bound, imports) := t.imports.register name d
    let components := if t.components.contains bound then t.components else t.components ++ [bound]
    set ({ imports, components } : Template)
    return bound

/-- The directives of a loop. -/
def loopDirectives (source : LoopSource) (names : LoopNames) : Except GenError (List String) := do
  let source ← options.source source
  let item := names.iteratorName
  let binding := if names.bindsIndex then "(" ++ item ++ ", " ++ LoopNames.index ++ ")" else item
  let key ← options.reference ⟨names.keyPath, .loop⟩
  return ["v-for=" ++ quoted (binding ++ " in " ++ print source), bound print "key" key]

/-- The directive of a conditional. -/
def conditionDirective (subject : Reference) (test : Test) : Except GenError String := do
  let subject ← options.reference subject
  return "v-if=" ++ quoted (print (test.expr subject))

/-- The blanks before a line at a level of nesting. -/
def pad (level : Nat) : String :=
  String.ofList (List.replicate (2 * level) ' ')

/-- Whether a child has to stay on the line of its parent. -/
def isInline : Node → Bool
  | .static _ | .dynamic _ | .raw _ => true
  | _ => false

/-- The markup of an element from its parts. -/
def elementText (level : Nat) (tag : String) (attributes : List String) (selfClosing inline : Bool)
    (children : List String) : String :=
  let opening := "<" ++ tag ++ String.join (attributes.map (" " ++ ·))
  let closing := "</" ++ tag ++ ">"
  if children.isEmpty then
    if selfClosing then opening ++ " />" else opening ++ ">" ++ closing
  else if inline then opening ++ ">" ++ String.join children ++ closing
  else
    opening ++ ">" ++ String.join (children.map fun child => "\n" ++ pad (level + 1) ++ child) ++
      "\n" ++ pad level ++ closing

/-- The start tag of a slot. -/
def slotOpening : Option String → String
  | some name => "<slot name=" ++ quoted name ++ ">"
  | none => "<slot>"

mutual

/-- Write a node at a level of nesting. -/
def node : Node → Nat → Writing String
  | .static value, _ => pure (literalText value.display)
  | .dynamic r, _ => do
    let e ← options.reference r
    return interpolation print e
  | .raw markup, _ => pure markup
  | .element e, level => element e [] level
  | .loop ⟨template, source, names⟩, level => do
    let directives ← loopDirectives print source names
    element template directives level
  | .conditional ⟨.element e, subject, value, condition⟩, level => do
    let directive ← conditionDirective print subject
      (Conditional.test { node := Node.element e, subject, value, condition })
    element e [directive] level
  | .conditional ⟨inner, subject, value, condition⟩, level => do
    let directive ← conditionDirective print subject
      (Conditional.test { node := inner, subject, value, condition })
    let content ← node inner (level + 1)
    return "<template " ++ directive ++ ">" ++ content ++ "</template>"
  | .slot ⟨name, some fallback⟩, level => do
    let content ← node fallback (level + 1)
    return slotOpening name ++ content ++ "</slot>"
  | .slot ⟨name, none⟩, _ => pure (slotOpening name ++ "</slot>")

/-- Write an element with the given directives before its attributes. Nodes passed as attributes
come before the children. -/
def element : Element Node → List String → Nat → Writing String
  | ⟨name, _, _, selfClosing, attrs, events', style', children, dependency⟩, directives, level => do
    let tag ← tag name dependency
    let (attributes, slots) ← attributes level attrs
    let styles ← style print style'
    let events ← events print events'
    let inline := children.any isInline
    let children ← nodes children (level + 1)
    return elementText level tag (directives ++ attributes ++ styles ++ events) selfClosing inline
      (slots ++ children)

/-- Write attributes; nodes passed as attributes are returned apart. -/
def attributes (level : Nat) :
    List (String × Attribute Node) → Writing (List String × List String)
  | [] => pure ([], [])
  | (name, .static value) :: rest => do
    let written := match value with
      | .text s => name ++ "=" ++ quoted s
      | _ => bound print name (Expr.ofScalar value)
    let (attributes, slots) ← attributes level rest
    return (written :: attributes, slots)
  | (name, .dynamic r) :: rest => do
    let e ← options.reference r
    let (attributes, slots) ← attributes level rest
    return (bound print name e :: attributes, slots)
  | (name, .imported id) :: rest => do
    let (attributes, slots) ← attributes level rest
    return (bound print name (.ident id) :: attributes, slots)
  | (name, .slot content) :: rest => do
    let content ← node content (level + 1)
    let (attributes, slots) ← attributes level rest
    return (attributes, ("<template #" ++ name ++ ">" ++ content ++ "</template>") :: slots)

/-- Write nodes. -/
def nodes : List Node → Nat → Writing (List String)
  | [], _ => pure []
  | n :: rest, level => do
    let text ← node n level
    let texts ← nodes rest level
    return text :: texts

end

end Template

/-! ## The options object -/

/-- The constructor of a type. Children are passed as slots and have none. -/
def PropType.constructor? : PropType → Option String
  | .string => some "String"
  | .number => some "Number"
  | .bool => some "Boolean"
  | .array => some "Array"
  | .object => some "Object"
  | .func => some "Function"
  | .children => none

/-- The options of a prop. -/
def PropDefinition.vueOptions? (p : PropDefinition) : Option Expr :=
  p.type.constructor?.map fun constructor =>
    .object ([("type", .ident constructor)] ++
      (if p.required then [("required", .bool true)] else []) ++
      (p.default.map fun value => ("default", Expr.ofScalar value)).toList)

/-- A property that is left out when its object is empty. -/
def unlessEmpty (name : String) (properties : List (String × Expr)) : List (String × Expr) :=
  if properties.isEmpty then [] else [(name, .object properties)]

/-- The data of a component: its states, and the design tokens if there are any. -/
def vueData (c : Component) : List (String × Expr) :=
  c.states.map (fun (state, definition) => (state, Expr.ofScalar definition.default)) ++
    (if c.tokens.isEmpty then [] else [(tokensName, .ident tokensName)])

/-- The options object of a component. -/
def vueOptions (c : Component) (components : List String) : List (String × Expr) :=
  [("name", .str (componentName c.name))] ++
    unlessEmpty "components" (components.map fun name => (name, .ident name)) ++
    unlessEmpty "props"
      (c.props.filterMap fun (name, p) => p.vueOptions?.map fun options => (name, options)) ++
    (if (vueData c).isEmpty then [] else [("data", .arrow [] (.object (vueData c)))])

/-- The script of a component: its tokens if it has any, and the export of the options object. -/
def vueScript (c : Component) (components : List String) : List Statement :=
  (if c.tokens.isEmpty then [] else [c.tokensConstant]) ++
    [.exporting (.object (vueOptions c components))]

/-- Write the template and the script of the component. -/
def Draft.writeVue (d : Draft) : Except GenError Draft := do
  let (markup, template) ←
    (Template.node Template.exprText d.component.node 0).run { imports := d.imports }
  let d := d.withImports template.imports
  let d := d.put { name := ChunkName.template, fileType := .html, content := .markup markup }
  return d.put (.script ChunkName.templateScript (vueScript d.component template.components)
    ChunkName.imports)

/-- Write the template and the script of the component. -/
def vuePass : Pass where
  name := "vue-component"
  run := Draft.writeVue

end ViewGen
