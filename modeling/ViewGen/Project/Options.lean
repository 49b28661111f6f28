import ViewGen.Compile.Options
import ViewGen.Framework
import ViewGen.Json.Reader
import ViewGen.Json.Record

/-!
# Options

What a caller can ask for, and how it is written.

## Main definitions

* `GeneratorOptions` — options of a generation
* `PackOptions` — options of handing a project to a publisher
-/

namespace ViewGen

/-- Options of a generation. Without a file name, files are named after the component. -/
structure GeneratorOptions where
  framework : Framework := .react
  stylePlace : StylePlace := .inlineStyles
  asciiOnly : Bool := false
  slots : SlotHandling := .forwardChildren
  fileName : Option String := none

/-- The name of a way to handle slots. -/
def SlotHandling.name : SlotHandling → String
  | .forwardChildren => "forwardChildren"
  | .fallbackWhenEmpty => "fallbackWhenEmpty"

/-- The ways to handle slots by name. -/
def SlotHandling.table : List (String × SlotHandling) :=
  [SlotHandling.forwardChildren, .fallbackWhenEmpty].map fun s => (s.name, s)

namespace GeneratorOptions

/-- Read options. -/
def read (levels : Nat) (j : Json) : Option GeneratorOptions := do
  let r ← j.record? levels ["componentType", "styleVariation", "asciiOnly", "slotHandling",
    "fileName"]
  return {
    framework := ← r.orDefault "componentType" .react
      (Json.name? .direct (levels - 1) Framework.table)
    stylePlace := ← r.orDefault "styleVariation" .inlineStyles
      (Json.name? .direct (levels - 1) StylePlace.table)
    asciiOnly := ← r.orDefault "asciiOnly" false Json.bool?
    slots := ← r.orDefault "slotHandling" .forwardChildren
      (Json.name? .direct (levels - 1) SlotHandling.table)
    fileName := ← r.optional "fileName" Json.str? }

/-- The tree of options. -/
def toJson (o : GeneratorOptions) : Json :=
  .obj [("componentType", .str o.framework.name), ("styleVariation", .str o.stylePlace.name),
    ("asciiOnly", .bool o.asciiOnly), ("slotHandling", .str o.slots.name),
    ("fileName", (o.fileName.map Json.str).getD .null)]

/-- Options from text. -/
def ofText? (text : String) : Option GeneratorOptions :=
  (Json.parse? text).bind (read Json.depthLimit)

end GeneratorOptions

/-- Options of handing a project to a publisher. -/
structure PackOptions where
  projectType : ProjectType := .react
  publisher : PublisherType
  generator : GeneratorOptions := {}

namespace PackOptions

/-- Read options. -/
def read (levels : Nat) (j : Json) : Option PackOptions := do
  let r ← j.record? levels ["projectType", "publisher", "generator"]
  return {
    projectType := ← r.orDefault "projectType" .react
      (Json.name? .direct (levels - 1) ProjectType.table)
    publisher := ← r.required "publisher" (Json.name? .direct (levels - 1) PublisherType.table)
    generator := ← r.orDefault "generator" {} (GeneratorOptions.read (levels - 1)) }

/-- The tree of options. -/
def toJson (o : PackOptions) : Json :=
  .obj [("projectType", .str o.projectType.name), ("publisher", .str o.publisher.name),
    ("generator", o.generator.toJson)]

/-- Options from text. -/
def ofText? (text : String) : Option PackOptions :=
  (Json.parse? text).bind (read Json.depthLimit)

end PackOptions

end ViewGen
