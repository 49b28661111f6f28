import ViewGen.Decimal.Text
import ViewGen.Dict
import ViewGen.Error
import ViewGen.Page.Tag

/-!
# Page templates

Texts with tags in double braces: a tag that holds a name stands for a value of the data, and what
is between the tags `#each items` and `/each` is repeated for every item. Between them an `else` tag
may start what is shown when there are no items.

## Main definitions

* `PagePart` — a template as a tree
* `PagePart.parse?` — the tree of a text, if tags and blocks are closed
* `PagePart.render` — the text for given data
* `PageTemplates` — templates by name

## Design notes

A tag that belongs to a block and stands alone on its line takes the whole line with it. Rendering
is strict: a name that the data does not have is an error, and so is a block for something without
items that does not say what to show instead. Helpers get no arguments here, so only two of them
have a text: one that logs nothing, and one that shows what is inside it.
-/

namespace ViewGen

/-- A part of a template. -/
inductive PagePart where
  | text (s : String)
  | value (path : DataPath)
  | helper (name : String) (body : List PagePart)
  | each (source : EachSource) (body : List PagePart) (otherwise : Option (List PagePart))

/-! ## Parts -/

/-- The branches of a block: its body, branches under a helper, and the last one. -/
inductive PageBranch where
  | body
  | helper (name : String)
  | last
  deriving DecidableEq

/-- The branch that a tag turns to. -/
def PageBranch.ofHelper : Option String → PageBranch
  | some name => .helper name
  | none => .last

/-- A block that is open: what it is repeated for, the parts before it in reverse, its finished
branches in reverse, and the branch that is being read. -/
structure OpenBlock where
  source : EachSource
  before : List PagePart
  finished : List (PageBranch × List PagePart)
  branch : PageBranch

namespace OpenBlock

/-- Turn to another branch, given the parts of the present one. No branch follows the last one. -/
def turn? (block : OpenBlock) (parts : List PagePart) (helper : Option String) :
    Option OpenBlock :=
  if block.branch = .last then none
  else some { block with
    finished := (block.branch, parts) :: block.finished
    branch := .ofHelper helper }

/-- The part that a block is, given the parts of its last branch. Only the first branch after the
body can be shown. -/
def close (block : OpenBlock) (parts : List PagePart) : PagePart :=
  match ((block.branch, parts) :: block.finished).reverse with
  | (_, body) :: (.helper name, parts) :: _ => .each block.source body (some [.helper name parts])
  | (_, body) :: (_, parts) :: _ => .each block.source body (some parts)
  | [(_, body)] => .each block.source body none
  | [] => .each block.source parts none

end OpenBlock

/-- Nest tokens into parts. The open blocks are given innermost first, and the parts so far of the
branch that is being read in reverse. -/
def PagePart.nest? : List OpenBlock → List PagePart → List PageToken → Option (List PagePart)
  | [], parts, [] => some parts.reverse
  | _ :: _, _, [] => none
  | blocks, parts, .text chars :: rest => nest? blocks (.text (String.ofList chars) :: parts) rest
  | blocks, parts, .tag (.value path) :: rest => nest? blocks (.value path :: parts) rest
  | blocks, parts, .tag (.helper name) :: rest => nest? blocks (.helper name [] :: parts) rest
  | blocks, parts, .tag (.openEach source) :: rest =>
    nest? (⟨source, parts, [], .body⟩ :: blocks) [] rest
  | [], _, .tag (.otherwise _) :: _ => none
  | block :: blocks, parts, .tag (.otherwise under) :: rest => do
    nest? ((← block.turn? parts.reverse under) :: blocks) [] rest
  | [], _, .tag .closeEach :: _ => none
  | block :: blocks, parts, .tag .closeEach :: rest =>
    nest? blocks (block.close parts.reverse :: block.before) rest

/-- The parts of a template, if every tag and block in it is closed. -/
def PagePart.parse? (text : String) : Option (List PagePart) := do
  let tokens ← PageToken.scan? text
  PagePart.nest? [] [] (PageToken.dropTagLines true false tokens)

/-! ## Data -/

namespace Json

/-- The position that a name of digits only stands for. -/
def position? (name : String) : Option Nat :=
  if name.toList.all Char.isDigit then name.toNat? else none

/-- A member of an object, or an item of an array by its position, which has to be one. What is not
there is absent, and what is neither object nor array has no members. -/
def member? : Json → String → Option (Option Json)
  | .obj fields, name => some (fields.lookup name)
  | .arr items, name => (position? name).map fun i => items[i]?
  | _, _ => some none

/-- The value at the end of a path, which may be absent. -/
def follow? (data : Json) (path : DataPath) : Option (Option Json) :=
  path.foldlM (fun here name => (here.map (member? · name)).getD (some none)) (some data)

mutual

/-- A value as a text in a page. -/
def pageText : Json → String
  | .null | .unreadable => ""
  | .bool b => if b then "true" else "false"
  | .int n => toString n
  | .float x => Number.dataText x
  | .str s => s
  | .arr items => "[" ++ ", ".intercalate (pageTexts items) ++ "]"
  | .obj _ => "[object]"

/-- Values as texts in a page. -/
def pageTexts : List Json → List String
  | [] => []
  | j :: rest => pageText j :: pageTexts rest

end

/-- The items of an array or of an object. -/
def pageItems? : Json → Option (List Json)
  | .arr items => some items
  | .obj fields => some (fields.map Prod.snd)
  | _ => none

end Json

/-- The items that a block is repeated for, which may be absent. -/
def EachSource.items? (data : Json) : EachSource → Option (Option (List Json))
  | .absent => none
  | .constant => some none
  | .path names => (data.follow? names).map fun value => value.bind Json.pageItems?

/-! ## Rendering -/

mutual

/-- The text of a part for some data, unless the data lacks a name. -/
def PagePart.render : PagePart → Json → Option String
  | .text s, _ => some s
  | .value path, data => (data.follow? path).join.map Json.pageText
  | .helper name body, data =>
    if name = "log" then some ""
    else if name = "raw" then PagePart.renderAll body data
    else none
  | .each source body otherwise, data => do
    match ← source.items? data with
    | some (item :: items) =>
      let texts ← (item :: items).mapM fun item => PagePart.renderAll body item
      return String.join texts
    | some [] => PagePart.renderOr (some "") otherwise data
    | none => PagePart.renderOr none otherwise data

/-- The text of several parts. -/
def PagePart.renderAll : List PagePart → Json → Option String
  | [], _ => some ""
  | part :: rest, data => do
    let text ← part.render data
    let texts ← PagePart.renderAll rest data
    return text ++ texts

/-- The text of several parts if there are any to be shown, and else a given outcome. -/
def PagePart.renderOr (missing : Option String) : Option (List PagePart) → Json → Option String
  | none, _ => missing
  | some parts, data => PagePart.renderAll parts data

end

/-- Templates by name. -/
abbrev PageTemplates := Dict (List PagePart)

namespace PageTemplates

/-- Add a template, in place of one with the same name. -/
def register (templates : PageTemplates) (name text : String) : Except GenError PageTemplates :=
  match PagePart.parse? text with
  | some parts => .ok (Dict.insert templates name parts)
  | none => .error .invalidTemplate

/-- The text of a template for some data. -/
def render (templates : PageTemplates) (name : String) (data : Json) : Except GenError String :=
  match (Dict.get? templates name).bind fun parts => PagePart.renderAll parts data with
  | some text => .ok text
  | none => .error .rendering

end PageTemplates

end ViewGen
