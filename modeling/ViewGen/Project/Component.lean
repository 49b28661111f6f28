import ViewGen.Document.Shape
import ViewGen.Draft.FunctionComponent
import ViewGen.Draft.Keys
import ViewGen.Draft.PropTypes
import ViewGen.Draft.VueTemplate
import ViewGen.Import.Declarations
import ViewGen.Project.Files
import ViewGen.Project.Options

/-!
# Generating a component

## Main definitions

* `Generator` — passes and emission, fixed by the options
* `Generator.generate` — the files of a component that is checked first
* `Generator.compile` — the files of a component that has been checked
-/

namespace ViewGen

/-- Raw markup as the inner markup of an element. -/
def innerMarkup (markup : String) (a : Arena) : Target × Arena :=
  (.element a.size, a.push {
    name := "span"
    attributes := [("dangerouslySetInnerHTML", .expr (.object [("__html", .str markup)]))]
    selfClosing := true })

/-- How the nodes of function components are compiled. -/
def GeneratorOptions.compileOptions (o : GeneratorOptions) : CompileOptions :=
  { injectMarkup := some innerMarkup, slots := o.slots }

/-- The pass for styles. -/
def GeneratorOptions.stylePass (o : GeneratorOptions) : Pass :=
  match o.stylePlace with
  | .inlineStyles => inlineStylePass o.compileOptions
  | .cssModules => styleSheetPass o.framework.classAttribute o.compileOptions

/-- The passes for a component: keys, the component itself, its styles, its prop types, and the
imports at the end. A template holds its styles itself. -/
def GeneratorOptions.passes (o : GeneratorOptions) : List Pass :=
  match o.framework with
  | .vue => [keyPass, vuePass, importPass]
  | .preact =>
    [keyPass, functionComponentPass .preact o.compileOptions, o.stylePass, importPass]
  | .react =>
    [keyPass, functionComponentPass .react o.compileOptions, o.stylePass, propTypesPass, importPass]

/-- Passes and emission of a generation. -/
structure Generator where
  options : GeneratorOptions
  passes : List Pass
  emission : Emission

/-- What a generation yields for a component. -/
structure CompiledComponent where
  files : List GeneratedFile
  imports : ImportTable

/-- Whether there is a script among the files. -/
def CompiledComponent.hasCode (c : CompiledComponent) : Bool :=
  c.files.any fun f => f.fileType = .js

namespace Generator

/-- The generator for options. -/
def ofOptions (o : GeneratorOptions) : Generator where
  options := o
  passes := o.passes
  emission := {
    postProcessors :=
      if o.asciiOnly then [trailingNewline] else [unicodeUnescape, trailingNewline] }

/-- Print scripts in another style. -/
def withStyle (g : Generator) (style : Style) : Generator :=
  { g with emission := { g.emission with style } }

/-- Process files once more at the end. -/
def withPostProcessor (g : Generator) (p : PostProcessor) : Generator :=
  { g with emission := { g.emission with postProcessors := g.emission.postProcessors ++ [p] } }

/-- Run a pass once more before the imports. -/
def withPass (g : Generator) (p : Pass) : Generator :=
  { g with passes := g.passes.dropLast ++ [p] ++ g.passes.getLast?.toList }

/-- The files of a draft. -/
def emit (g : Generator) (d : Draft) : List GeneratedFile :=
  match g.options.framework with
  | .vue => [g.emission.singleFile d.arena d.chunks d.fileName]
  | _ => g.emission.files d.arena d.chunks d.fileName

/-- Generate the files of a component that has been checked. -/
def compile (g : Generator) (c : Component) (fileName : String) :
    Except GenError CompiledComponent := do
  let d ← runPasses g.passes { component := c, fileName }
  return { files := g.emit d, imports := d.imports }

/-- Check a component and generate its files. -/
def generate (g : Generator) (c : Component) : Except GenError CompiledComponent := do
  c.validate.mapError .document
  c.resolve.mapError .scope
  g.compile c (g.options.fileName.getD (kebabName c.name))

/-- Generate the files of a component that is given as text. -/
def generateText (g : Generator) (text : String) : Except GenError CompiledComponent := do
  let c ← (Component.parse text).mapError .document
  g.generate c

end Generator

end ViewGen
