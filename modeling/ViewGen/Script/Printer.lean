import ViewGen.Naming
import ViewGen.Script.Literal
import ViewGen.Script.Basic

/-!
# Printing scripts

From syntax to text: blanks, line breaks, parentheses and quotes.

## Main definitions

* `Style` — the width of an indent and whether literals are kept to ASCII
* `Expr.text`, `Statement.text`, `Markup.text` — the text of one piece of syntax
* `Arena.exprText`, `Arena.programText` — with the elements that it refers to printed in place

## Design notes

`Expr.text` is given the text of elements as a function, so it recurses on expressions alone. The
text of elements is then built up in rounds; as many rounds as there are elements are enough, since
no element stands inside itself.
-/

namespace ViewGen

/-- How a script is printed. -/
structure Style where
  indentWidth : Nat := 2
  asciiOnly : Bool := true

namespace Style

/-- The blanks before a line at a level of nesting. -/
def pad (style : Style) (level : Nat) : String :=
  String.ofList (List.replicate (level * style.indentWidth) ' ')

/-- A string literal. -/
def literal (style : Style) (s : String) : String :=
  Literal.quote style.asciiOnly s

/-- The key of a property: bare when it is an identifier. -/
def key (style : Style) (name : String) : String :=
  if isIdentifier name then name else style.literal name

end Style

/-- Whether an object is printed on one line or with a line for each property. -/
inductive Layout where
  | inline
  | block
  deriving DecidableEq

/-- How strongly the parts of an expression hang together, the weakest first. -/
inductive Strength where
  | arrow
  | or
  | and
  | comparison
  | unary
  | member
  | primary
  deriving DecidableEq

/-- The rank of a strength. -/
def Strength.rank : Strength → Nat
  | .arrow => 0
  | .or => 1
  | .and => 2
  | .comparison => 3
  | .unary => 4
  | .member => 5
  | .primary => 6

/-- The strength of a connective. -/
def Connective.strength : Connective → Strength
  | .and => .and
  | .or => .or

/-- The strength of an expression. -/
def Expr.strength : Expr → Strength
  | .arrow _ _ | .arrowBlock _ _ => .arrow
  | .logical connective _ _ => connective.strength
  | .compare _ _ _ => .comparison
  | .not _ => .unary
  | .member _ _ | .call _ _ => .member
  | _ => .primary

/-- The element that an expression stands for, if it is nothing but an element. -/
def Expr.element? : Expr → Option ElementId
  | .element id => some id
  | _ => none

/-- The text of an operand, in parentheses when the operand is weaker than its place allows. -/
def parenthesize (least : Strength) (operand : Expr) (text : String) : String :=
  if operand.strength.rank < least.rank then "(" ++ text ++ ")" else text

/-- An expression in braces. -/
def braced (text : String) : String :=
  "\x7b" ++ text ++ "\x7d"

/-- The text of a pattern. -/
def Pattern.text : Pattern → String
  | .name bound => bound
  | .array names => "[" ++ ", ".intercalate names ++ "]"

/-- The text of an import specifier. -/
def ImportSpecifier.text (s : ImportSpecifier) : String :=
  if s.imported = s.bound then s.bound else s.imported ++ " as " ++ s.bound

/-- The text of an import declaration. -/
def ImportDeclaration.text (style : Style) (d : ImportDeclaration) : String :=
  let named := if d.named.isEmpty then []
    else ["\x7b " ++ ", ".intercalate (d.named.map ImportSpecifier.text) ++ " \x7d"]
  match d.default.toList ++ named with
  | [] => "import " ++ style.literal d.source ++ ";"
  | clauses => "import " ++ ", ".intercalate clauses ++ " from " ++ style.literal d.source ++ ";"

/-- The text of parameters. -/
def paramsText (params : List String) : String :=
  "(" ++ ", ".intercalate params ++ ") => "

/-- The text of the expression that an arrow returns; an object is put in parentheses, since its
braces would be taken for a block. -/
def bodyText (body : Expr) (text : String) : String :=
  match body with
  | .object _ => "(" ++ text ++ ")"
  | _ => text

/-- The text of an export. -/
def exportText (text : String) : String :=
  "export default " ++ text ++ ";"

mutual

/-- The text of an expression at a level of nesting, given the text of elements. -/
def Expr.text (style : Style) (element : ElementId → Nat → String) (layout : Layout)
    (level : Nat) : Expr → String
  | .ident name => name
  | .member object property =>
    let object := parenthesize .member object (Expr.text style element .inline level object)
    if isIdentifier property then object ++ "." ++ property
    else object ++ "[" ++ style.literal property ++ "]"
  | .str s => style.literal s
  | .num x => Number.text x
  | .bool b => if b then "true" else "false"
  | .null => "null"
  | .array items => "[" ++ ", ".intercalate (exprTexts style element level items) ++ "]"
  | .object [] => "\x7b\x7d"
  | .object (property :: properties) =>
    match layout with
    | .inline =>
      "\x7b " ++ ", ".intercalate (propertyTexts style element level (property :: properties)) ++
        " \x7d"
    | .block =>
      "\x7b\n" ++ propertyLines style element (level + 1) (property :: properties) ++
        style.pad level ++ "\x7d"
  | .compare comparison left right =>
    parenthesize .unary left (Expr.text style element .inline level left) ++ " " ++
      comparison.sign ++ " " ++
      parenthesize .unary right (Expr.text style element .inline level right)
  | .logical connective left right =>
    parenthesize connective.strength left (Expr.text style element .inline level left) ++ " " ++
      connective.sign ++ " " ++
      parenthesize connective.strength right (Expr.text style element .inline level right)
  | .not argument =>
    "!" ++ parenthesize .unary argument (Expr.text style element .inline level argument)
  | .call callee arguments =>
    parenthesize .member callee (Expr.text style element .inline level callee) ++
      "(" ++ ", ".intercalate (exprTexts style element level arguments) ++ ")"
  | .arrow params body =>
    paramsText params ++ bodyText body (Expr.text style element .inline level body)
  | .arrowBlock params body =>
    paramsText params ++ "\x7b\n" ++ statementLines style element (level + 1) body ++
      style.pad level ++ "\x7d"
  | .element id => element id level

/-- The texts of expressions. -/
def exprTexts (style : Style) (element : ElementId → Nat → String) (level : Nat) :
    List Expr → List String
  | [] => []
  | e :: rest => Expr.text style element .inline level e :: exprTexts style element level rest

/-- The texts of properties on one line. -/
def propertyTexts (style : Style) (element : ElementId → Nat → String) (level : Nat) :
    List (String × Expr) → List String
  | [] => []
  | (name, value) :: rest =>
    (style.key name ++ ": " ++ Expr.text style element .inline level value) ::
      propertyTexts style element level rest

/-- The lines of properties, one for each. -/
def propertyLines (style : Style) (element : ElementId → Nat → String) (level : Nat) :
    List (String × Expr) → String
  | [] => ""
  | (name, value) :: rest =>
    style.pad level ++ style.key name ++ ": " ++ Expr.text style element .block level value ++
      ",\n" ++ propertyLines style element level rest

/-- The text of a statement at a level of nesting, given the text of elements. -/
def Statement.text (style : Style) (element : ElementId → Nat → String) (level : Nat) :
    Statement → String
  | .importing declaration => declaration.text style
  | .constant pattern value =>
    "const " ++ pattern.text ++ " = " ++ Expr.text style element .block level value ++ ";"
  | .expr e => Expr.text style element .inline level e ++ ";"
  | .returning e =>
    match e.element? with
    | some id =>
      "return (\n" ++ style.pad (level + 1) ++ element id (level + 1) ++ "\n" ++ style.pad level ++
        ");"
    | none => "return " ++ Expr.text style element .inline level e ++ ";"
  | .exporting e => exportText (Expr.text style element .block level e)
  | .assign target value =>
    Expr.text style element .inline level target ++ " = " ++
      Expr.text style element .block level value ++ ";"

/-- The lines of statements, one for each. -/
def statementLines (style : Style) (element : ElementId → Nat → String) (level : Nat) :
    List Statement → String
  | [] => ""
  | s :: rest =>
    style.pad level ++ Statement.text style element level s ++ "\n" ++
      statementLines style element level rest

end

/-- The entity that stands for a double quote. -/
def quoteEntity : String := "&quot;"

/-- A text inside double quotes, with the double quotes in it replaced by entities. -/
def quotedValue (s : String) : String :=
  "\"" ++ String.ofList (s.toList.flatMap fun c => if c == '"' then quoteEntity.toList else [c]) ++
    "\""

/-- The value of an attribute that is a text: in double quotes, or as a literal in braces when there
is a backslash in it. -/
def textValue (style : Style) (s : String) : String :=
  if s.toList.contains '\\' then braced (style.literal s) else quotedValue s

/-- The text of an attribute. -/
def attributeText (style : Style) (element : ElementId → Nat → String) (level : Nat)
    (name : String) : MarkupValue → String
  | .text s => name ++ "=" ++ textValue style s
  | .expr e => name ++ "=" ++ braced (e.text style element .inline level)
  | .flag => name

/-- Characters that cannot stand in the text between tags. -/
def breaksText (c : Char) : Bool :=
  c == '{' || c == '}' || c == '<' || c == '>' || c == '\\'

/-- A text between tags; as a literal in braces when it could be taken for something else. -/
def plainText (style : Style) (s : String) : String :=
  if s.toList.any breaksText then braced (style.literal s) else s

/-- The text of a child. -/
def MarkupChild.code (style : Style) (element : ElementId → Nat → String) (level : Nat) :
    MarkupChild → String
  | .text s => plainText style s
  | .element id => element id level
  | .expr e => braced (e.text style element .inline level)

/-- Whether a child is a text. -/
def MarkupChild.isText : MarkupChild → Bool
  | .text _ => true
  | _ => false

/-- The text of an element at a level of nesting, given the text of the elements inside. Children
stand on lines of their own unless one of them is a text, whose blanks a line break would change. -/
def Markup.text (style : Style) (element : ElementId → Nat → String) (level : Nat)
    (m : Markup) : String :=
  let opening := "<" ++ m.name ++
    String.join (m.attributes.map fun (name, value) =>
      " " ++ attributeText style element level name value)
  let closing := "</" ++ m.name ++ ">"
  if m.children.isEmpty then
    if m.selfClosing then opening ++ " />" else opening ++ ">" ++ closing
  else if m.children.any MarkupChild.isText then
    opening ++ ">" ++ String.join (m.children.map (·.code style element level)) ++ closing
  else
    opening ++ ">" ++
      String.join (m.children.map fun child =>
        "\n" ++ style.pad (level + 1) ++ child.code style element (level + 1)) ++
      "\n" ++ style.pad level ++ closing

namespace Arena

/-- The text of an element, with at most `rounds` elements nested in each other. -/
def elementText (a : Arena) (style : Style) : Nat → ElementId → Nat → String
  | 0, _, _ => ""
  | rounds + 1, id, level =>
    match a.get? id with
    | some m => m.text style (elementText a style rounds) level
    | none => ""

/-- The text of an expression. -/
def exprText (a : Arena) (style : Style) (e : Expr) : String :=
  e.text style (a.elementText style a.size) .inline 0

/-- The text of a statement. -/
def statementText (a : Arena) (style : Style) (s : Statement) : String :=
  s.text style (a.elementText style a.size) 0

end Arena

/-- Whether a statement is an import. -/
def Statement.isImport : Statement → Bool
  | .importing _ => true
  | _ => false

/-- The text of statements: a blank line between them, except between two imports. -/
def Arena.programText (a : Arena) (style : Style) : List Statement → String
  | [] => ""
  | [s] => a.statementText style s
  | s :: t :: rest =>
    a.statementText style s ++ (if s.isImport && t.isImport then "\n" else "\n\n") ++
      a.programText style (t :: rest)

end ViewGen
