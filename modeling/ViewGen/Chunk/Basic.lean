import ViewGen.Script.Printer
import ViewGen.Text.Blank

/-!
# Chunks

Named pieces of generated output. Each says which file it belongs to and which other chunks it has
to come after.

## Main definitions

* `FileType` — the types of generated files, in the order in which files are listed
* `Chunk` — a named piece
-/

namespace ViewGen

/-- The types of generated files, in the order in which files are listed. -/
inductive FileType where
  | js
  | css
  | html
  | json
  | vue
  deriving DecidableEq

namespace FileType

/-- All types in order. -/
def all : List FileType :=
  [.js, .css, .html, .json, .vue]

/-- The extension of a file's name. -/
def extension : FileType → String
  | .js => "js"
  | .css => "css"
  | .html => "html"
  | .json => "json"
  | .vue => "vue"

end FileType

/-- What a chunk holds: statements, markup or any other text. -/
inductive ChunkContent where
  | script (statements : List Statement)
  | markup (text : String)
  | text (text : String)

/-- The name of a kind of content. -/
def ChunkContent.kind : ChunkContent → String
  | .script _ => "ast"
  | .markup _ => "markup"
  | .text _ => "text"

/-- A named piece of output. `after` names the chunks that it has to come after. -/
structure Chunk where
  name : String
  fileType : FileType
  content : ChunkContent
  after : List String := []

namespace Chunk

/-- A chunk of statements. -/
def script (name : String) (statements : List Statement) (after : List String) : Chunk :=
  { name, fileType := .js, content := .script statements, after }

/-- The statements of a chunk. -/
def statements? (c : Chunk) : Option (List Statement) :=
  match c.content with
  | .script statements => some statements
  | _ => none

/-- Whether a chunk holds markup. -/
def isMarkup (c : Chunk) : Bool :=
  match c.content with
  | .markup _ => true
  | _ => false

/-- The text of a chunk as it goes into a file. -/
def fileText (c : Chunk) (style : Style) (arena : Arena) : String :=
  match c.content with
  | .script statements => arena.programText style statements
  | .markup s | .text s => Text.trimEnd s

/-- Put a chunk into a list: in place of one with the same name, or at the end. -/
def put (c : Chunk) : List Chunk → List Chunk
  | [] => [c]
  | d :: rest => if d.name = c.name then c :: rest else d :: c.put rest

end Chunk

end ViewGen
