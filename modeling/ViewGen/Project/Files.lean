import ViewGen.Draft.Basic
import ViewGen.Json.Record
import ViewGen.Script.Literal

/-!
# Generated files

From ordered chunks to files: the chunks of each type are printed, joined and processed.

## Main definitions

* `GeneratedFile` — a file
* `PostProcessor` — a function on the text of a file, and the built-in ones
* `Emission.files` — one file for each type
* `Emission.singleFile` — one file with the template and the script
-/

namespace ViewGen

/-- A generated file. -/
structure GeneratedFile where
  path : String
  fileType : FileType
  content : String

/-- A named function on the text of a file. -/
structure PostProcessor where
  name : String
  process : FileType → String → String

/-- Decode the escapes of four digits in scripts. -/
def unicodeUnescape : PostProcessor where
  name := "unicode-unescape"
  process fileType code := if fileType = .js then Literal.unescape code else code

/-- End every file with exactly one line feed. -/
def trailingNewline : PostProcessor where
  name := "trailing-newline"
  process _ code := Text.trimEnd code ++ "\n"

/-- How chunks become files. -/
structure Emission where
  style : Style := {}
  postProcessors : List PostProcessor := []

namespace Emission

/-- The text of a file after all processing. -/
def process (e : Emission) (fileType : FileType) (code : String) : String :=
  e.postProcessors.foldl (fun code p => p.process fileType code) code

/-- The texts of chunks that are not empty. -/
def texts (e : Emission) (arena : Arena) (chunks : List Chunk) : List String :=
  (chunks.map (·.fileText e.style arena)).filter fun text => !text.isEmpty

/-- Texts as the content of one file. -/
def assemble (e : Emission) (fileType : FileType) (texts : List String) : String :=
  e.process fileType ("\n\n".intercalate texts)

/-- The file of one type, if any chunk has a text for it. -/
def file? (e : Emission) (arena : Arena) (chunks : List Chunk) (fileName : String)
    (fileType : FileType) : Option GeneratedFile :=
  match e.texts arena (chunks.filter fun c => c.fileType = fileType) with
  | [] => none
  | texts => some {
      path := fileName ++ "." ++ fileType.extension
      fileType
      content := e.assemble fileType texts }

/-- One file for each type that has a text. -/
def files (e : Emission) (arena : Arena) (chunks : List Chunk) (fileName : String) :
    List GeneratedFile :=
  FileType.all.filterMap (e.file? arena chunks fileName)

/-- The lines of a text moved to the right; empty lines stay empty. -/
def indented (s : String) : String :=
  "\n".intercalate ((Text.lines s).map fun line => if line.isEmpty then "" else "  " ++ line)

/-- One file with the markup in a template and everything else in a script. -/
def singleFile (e : Emission) (arena : Arena) (chunks : List Chunk) (fileName : String) :
    GeneratedFile :=
  let template := e.assemble .html (e.texts arena (chunks.filter Chunk.isMarkup))
  let script := e.assemble .js (e.texts arena (chunks.filter fun c => !c.isMarkup))
  { path := fileName ++ "." ++ FileType.vue.extension
    fileType := .vue
    content := "<template>\n" ++ indented (Text.trimEnd template) ++
      "\n</template>\n\n<script>\n" ++ Text.trimEnd script ++ "\n</script>\n" }

end Emission

end ViewGen
