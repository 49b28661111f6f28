import ViewGen.Draft.Basic
import ViewGen.Text.Fresh

/-!
# Styles

The styles of elements, either as style attributes or in a style sheet. Both are set on elements
that are compiled already, found by their keys.

## Main definitions

* `inlineStylePass` — every style as an attribute
* `styleSheetPass` — literal values in a style sheet, references in attributes
* `cssValue` — a literal value as it stands in a style sheet
-/

namespace ViewGen

/-- Set an attribute of the element that was compiled under a key, if there is one. -/
def Draft.setOn (d : Draft) (key name : String) (value : MarkupValue) : Draft :=
  match d.workspace.lookup.get? key with
  | some id => d.withArena (d.arena.set id name value)
  | none => d

/-- The properties of a style attribute. -/
def styleProperties (options : CompileOptions) :
    List (String × StyleValue) → Except GenError (List (String × Expr))
  | [] => .ok []
  | (property, value) :: rest => do
    let e ← match value with
      | .static value => pure (Expr.ofScalar value)
      | .dynamic r => options.reference r
    let properties ← styleProperties options rest
    return (Text.camel property, e) :: properties

/-- Set the style attributes of elements. -/
def Draft.setStyles (options : CompileOptions) (d : Draft) :
    List (Element Node) → Except GenError Draft
  | [] => .ok d
  | e :: rest => do
    let properties ← styleProperties options e.style
    Draft.setStyles options (d.setOn e.key "style" (.expr (.object properties))) rest

/-- Every style as an attribute of its element. -/
def inlineStylePass (options : CompileOptions) : Pass where
  name := "inline-styles"
  run d := d.setStyles options d.styled

/-! ## Style sheets -/

/-- Style properties that take plain numbers. -/
def unitlessProperties : List String :=
  ["flex", "flexGrow", "flexShrink", "fontWeight", "lineHeight", "opacity", "order", "zIndex"]

/-- A literal value as it stands in a style sheet: numbers are pixels unless the property takes
plain numbers. -/
def cssValue (property : String) : Scalar → String
  | .number x =>
    if unitlessProperties.contains property then Number.text x else Number.text x ++ "px"
  | value => value.display

/-- The class of an element: its key in camel case, with a number when it is taken. -/
def className (key : String) (taken : List String) : String :=
  let base := Text.camel key
  (Text.firstNumbered base (taken.length + 1) fun name => !taken.contains name).getD base

/-- The literal values of a style as declarations, each on a line. -/
def declarations (style : Dict StyleValue) : String :=
  String.join (style.map fun (property, value) =>
    match value with
    | .static value => "  " ++ Text.kebab property ++ ": " ++ cssValue property value ++ ";\n"
    | .dynamic _ => "")

/-- The references of a style. -/
def styleReferences (style : Dict StyleValue) : List (String × StyleValue) :=
  style.filter fun (_, value) =>
    match value with
    | .static _ => false
    | .dynamic _ => true

/-- What a style comes to: the class of its rule, if there is one, and the properties that stay with
the element. -/
structure StyledElement where
  key : String
  className : String
  declarations : String
  properties : List (String × Expr)

/-- What the styles of elements come to; `taken` holds the classes given out before. -/
def styledElements (options : CompileOptions) :
    List String → List (Element Node) → Except GenError (List StyledElement)
  | _, [] => .ok []
  | taken, e :: rest => do
    let name := className e.key taken
    let properties ← styleProperties options (styleReferences e.style)
    let others ← styledElements options (name :: taken) rest
    return ⟨e.key, name, declarations e.style, properties⟩ :: others

/-- The rule of a style. -/
def StyledElement.rule (s : StyledElement) : String :=
  "." ++ s.className ++ " \x7b\n" ++ s.declarations ++ "\x7d\n"

/-- Whether a style has a rule. -/
def StyledElement.hasRule (s : StyledElement) : Bool :=
  !s.declarations.isEmpty

/-- The style sheet: the rules in order, with blank lines between them. -/
def styleSheet (styles : List StyledElement) : String :=
  "\n".intercalate ((styles.filter (·.hasRule)).map (·.rule))

/-- Point an element at its class and set what stays with it. -/
def Draft.setStyled (classAttribute styles : String) (d : Draft) (s : StyledElement) : Draft :=
  let d := if s.hasRule then
    d.setOn s.key classAttribute (.expr (.member (.ident styles) s.className)) else d
  if s.properties.isEmpty then d else d.setOn s.key "style" (.expr (.object s.properties))

/-- Move literal values into a style sheet and point each element at its class. -/
def Draft.moveStyles (classAttribute : String) (options : CompileOptions) (d : Draft) :
    Except GenError Draft := do
  let styles ← styledElements options [] d.styled
  let sheet := styleSheet styles
  if sheet.isEmpty then
    return styles.foldl (Draft.setStyled classAttribute "") d
  else
    let (bound, d) := d.register "styles" (.ofProject ("./" ++ d.fileName ++ ".css"))
    let d := styles.foldl (Draft.setStyled classAttribute bound) d
    return d.put { name := ChunkName.styleSheet, fileType := .css, content := .text sheet }

/-- Literal values in a style sheet, references in attributes. -/
def styleSheetPass (classAttribute : String) (options : CompileOptions) : Pass where
  name := "css-modules"
  run := Draft.moveStyles classAttribute options

end ViewGen
