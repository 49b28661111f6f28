import ViewGen.Json.Reader
import ViewGen.Text.Blank

/-!
# Tags of page templates

A template is a text with tags in double braces. This module cuts it into texts and tags.

## Main definitions

* `PageTag` — a tag: a value, a helper, or the start, the turn or the end of a block
* `PageTag.parse?` — the tag with given characters between its braces
* `PageToken.scan?` — the texts and tags of a template
* `PageToken.dropTagLines` — take away the lines on which a block tag stands alone

## Design notes

The word `else` needs no blank after it: a name that goes on after it, such as `elsewhere`, turns to
a branch under the helper `where`, and only a path that goes on with a separator is a value. A
backslash before two opening braces makes them text; of several backslashes there, one is taken away
and the tag stays a tag. A tag with one more pair of braces is a value like any other.
-/

namespace ViewGen

/-- Where a value is found: the names of members, from the current item on. -/
abbrev DataPath := List String

/-- What a block is repeated for: nothing that the tag says, a constant, or a value of the data. -/
inductive EachSource where
  | absent
  | constant
  | path (path : DataPath)

/-- A tag of a template. `otherwise` turns to the branch of a block that is shown when there are no
items, possibly under a helper. -/
inductive PageTag where
  | value (path : DataPath)
  | helper (name : String)
  | openEach (source : EachSource)
  | otherwise (helper : Option String)
  | closeEach

/-- A piece of a template: a text or a tag. -/
inductive PageToken where
  | text (chars : List Char)
  | tag (tag : PageTag)

/-! ## Names and paths -/

namespace PageTag

/-- Whether a tag belongs to a block. -/
def isBlock : PageTag → Bool
  | .value _ | .helper _ => false
  | .openEach _ | .otherwise _ | .closeEach => true

/-- The characters of a name. -/
def isNameChar (c : Char) : Bool :=
  c.isAlphanum || c == '_' || c == '-' || c == '$' || 128 ≤ c.toNat

/-- Characters without the blanks on both sides. -/
def trim (chars : List Char) : List Char :=
  Text.dropEndWhile Char.isWhitespace (chars.dropWhile Char.isWhitespace)

/-- A path: names with points or slashes between them. The name `this` stands for where the path
already is, and so does `./` before the path. -/
def path? (chars : List Char) : Option DataPath :=
  let chars :=
    match chars with
    | '.' :: '/' :: rest => rest
    | _ => chars
  let names := Text.pieces (fun c => c == '.' || c == '/') chars
  if names.all fun name => !name.isEmpty && name.all isNameChar then
    some ((names.map String.ofList).filter (· != "this"))
  else none

/-- The names that belong to helpers. -/
def helperNames : List String :=
  ["if", "unless", "each", "with", "lookup", "raw", "log", "eq", "ne", "gt", "gte", "lt", "lte",
    "and", "or", "not", "len"]

/-- A tag for a value. The name of a helper, and a name after an at sign, call the helper. -/
def value? (chars : List Char) : Option PageTag :=
  let name := String.ofList chars
  match chars with
  | '@' :: rest => (path? rest).map fun _ => .helper name
  | _ => if helperNames.contains name then some (.helper name) else (path? chars).map .value

/-- A tag for another branch, given what follows the word for it: nothing, or the name of a
helper. -/
def otherwise? (chars : List Char) : Option PageTag :=
  let name := trim chars
  if name.isEmpty then some (.otherwise none)
  else if name.all isNameChar then some (.otherwise (some (String.ofList name)))
  else none

/-! ## Blocks -/

/-- What follows an exponent, or the same characters if there is none. -/
def afterExponent (chars : List Char) : List Char :=
  match chars with
  | 'E' :: rest =>
    let digits :=
      match rest with
      | '-' :: digits => digits
      | _ => rest
    if digits.head?.any Char.isDigit then digits.dropWhile Char.isDigit else chars
  | _ => chars

/-- What follows a number, if the characters begin with one that no name goes on from. -/
def afterNumber? (chars : List Char) : Option (List Char) :=
  let digits :=
    match chars with
    | '-' :: digits => digits
    | _ => chars
  let rest :=
    match digits.dropWhile Char.isDigit with
    | '.' :: rest => rest.dropWhile Char.isDigit
    | rest => rest
  let rest := afterExponent rest
  if digits.head?.any Char.isDigit && !rest.head?.any isNameChar then some rest else none

/-- What a block is repeated for. Constants come before paths, and two words are reserved. -/
def source? (chars : List Char) : Option EachSource :=
  let word := String.ofList (chars.takeWhile isNameChar)
  if chars.isEmpty then some .absent
  else if word == "as" || word == "else" then none
  else if word == "null" || word == "true" || word == "false" then
    if chars.all isNameChar then some .constant else none
  else
    match afterNumber? chars with
    | some rest =>
      if rest.isEmpty && (Json.parseSorted? (String.ofList chars)).isSome then some .constant
      else none
    | none => (path? chars).map .path

/-- The word of a block. -/
def eachWord : List Char := ['e', 'a', 'c', 'h']

/-- The tag with the given characters between its braces. -/
def parse? (chars : List Char) : Option PageTag :=
  match trim chars with
  | '#' :: rest =>
    let rest := trim rest
    if rest.takeWhile isNameChar = eachWord then
      (source? (trim (rest.dropWhile isNameChar))).map .openEach
    else none
  | '/' :: rest => if trim rest = eachWord then some .closeEach else none
  | '{' :: rest => if rest.getLast? = some '}' then value? (trim rest.dropLast) else none
  | '^' :: rest => otherwise? rest
  | 'e' :: 'l' :: 's' :: 'e' :: rest =>
    (otherwise? rest).or (value? ('e' :: 'l' :: 's' :: 'e' :: rest))
  | chars => value? chars

/-- Whether the characters of a tag begin with a brace of their own that is not closed yet. -/
def missesBrace (chars : List Char) : Bool :=
  let chars := trim chars
  chars.head? == some '{' && chars.getLast? != some '}'

end PageTag

/-! ## Tokens -/

namespace PageToken

/-- A text before some tokens, unless it is empty. The text is given in reverse. -/
def flush (text : List Char) (tokens : List PageToken) : List PageToken :=
  if text.isEmpty then tokens else .text text.reverse :: tokens

/-- Backslashes before a text that is given in reverse. -/
def addSlashes (slashes : Nat) (text : List Char) : List Char :=
  List.replicate slashes '\\' ++ text

mutual

/-- The tokens of a template, after the text that was read in reverse and some backslashes. -/
def scanText (text : List Char) (slashes : Nat) : List Char → Option (List PageToken)
  | '\\' :: rest => scanText text (slashes + 1) rest
  | '{' :: '{' :: rest =>
    match slashes, rest with
    | 0, rest => (scanTag [] rest).map (flush text)
    | 1, '{' :: '{' :: rest => scanText ('{' :: '{' :: '{' :: '{' :: text) 0 rest
    | 1, rest => scanText ('{' :: '{' :: text) 0 rest
    | n + 2, rest => (scanTag [] rest).map (flush (addSlashes (n + 1) text))
  | c :: rest => scanText (c :: addSlashes slashes text) 0 rest
  | [] => some (flush (addSlashes slashes text) [])

/-- The tokens of a template inside a tag, of which the given characters were read in reverse. -/
def scanTag (tag : List Char) : List Char → Option (List PageToken)
  | '}' :: '}' :: rest =>
    match PageTag.missesBrace tag.reverse, rest with
    | true, '}' :: rest => do
      let tag ← PageTag.parse? (tag.reverse ++ ['}'])
      let tokens ← scanText [] 0 rest
      return .tag tag :: tokens
    | _, rest => do
      let tag ← PageTag.parse? tag.reverse
      let tokens ← scanText [] 0 rest
      return .tag tag :: tokens
  | c :: rest => scanTag (c :: tag) rest
  | [] => none

end

/-- The texts and tags of a template, if every tag in it is closed and known. -/
def scan? (text : String) : Option (List PageToken) :=
  scanText [] 0 text.toList

/-! ## Lines -/

/-- Blanks inside a line. -/
def isInlineBlank (c : Char) : Bool :=
  c == ' ' || c == '\t'

/-- The characters that end a line. -/
def isLineEnd (c : Char) : Bool :=
  c == '\n' || c == '\r'

/-- Whether a text begins with the end of a blank line. -/
def startsWithBlankLine (chars : List Char) : Bool :=
  (chars.dropWhile isInlineBlank).head?.any isLineEnd

/-- A text without the blanks and the line break at its start. A carriage return alone is no line
break. -/
def dropBlankLine (chars : List Char) : List Char :=
  match chars.dropWhile isInlineBlank with
  | '\n' :: rest => rest
  | '\r' :: '\n' :: rest => rest
  | rest => rest

/-- Whether the last line of a text is blank so far. `before` says the same of what comes before the
text. -/
def endsInBlankLine (before : Bool) (chars : List Char) : Bool :=
  match (Text.dropEndWhile isInlineBlank chars).getLast? with
  | some c => isLineEnd c
  | none => before

/-- Whether the first of some tokens is a block tag alone on its line. `blank` says whether the line
is blank before it. -/
def startWithLoneTag (blank : Bool) : List PageToken → Bool
  | .tag t :: .text after :: _ => t.isBlock && blank && startsWithBlankLine after
  | _ => false

/-- Take away the lines on which a block tag stands alone. `blank` says whether the line is blank
before the tokens, and `lone` whether they follow such a tag. -/
def dropTagLines (blank lone : Bool) : List PageToken → List PageToken
  | [] => []
  | .tag t :: rest => .tag t :: dropTagLines false (startWithLoneTag blank (.tag t :: rest)) rest
  | .text chars :: rest =>
    let blank := endsInBlankLine blank chars
    let chars := if lone then dropBlankLine chars else chars
    let chars :=
      if startWithLoneTag blank rest then Text.dropEndWhile isInlineBlank chars else chars
    .text chars :: dropTagLines blank false rest

end PageToken

end ViewGen
