import ViewGen.Chunk.Order
import ViewGen.Compile.Node
import ViewGen.Document.Component

/-!
# Drafts

A module in the making: the component it is made for, the chunks so far, and what compilation has
written. Passes turn one draft into the next.

## Main definitions

* `Draft` — a module in the making
* `Pass` — a named step
* `runPasses` — passes one after the other, and then the order of the chunks
-/

namespace ViewGen

/-- A module in the making. -/
structure Draft where
  component : Component
  fileName : String
  chunks : List Chunk := []
  workspace : Workspace := {}

namespace Draft

/-- The import table. -/
def imports (d : Draft) : ImportTable :=
  d.workspace.imports

/-- The markup elements. -/
def arena (d : Draft) : Arena :=
  d.workspace.arena

/-- The draft with another import table. -/
def withImports (d : Draft) (imports : ImportTable) : Draft :=
  { d with workspace := { d.workspace with imports } }

/-- The draft with other markup elements. -/
def withArena (d : Draft) (arena : Arena) : Draft :=
  { d with workspace := { d.workspace with arena } }

/-- The chunk of a given name. -/
def chunk? (d : Draft) (name : String) : Option Chunk :=
  d.chunks.find? fun c => c.name == name

/-- Add a chunk, in place of one with the same name. -/
def put (d : Draft) (c : Chunk) : Draft :=
  { d with chunks := c.put d.chunks }

/-- Register an import and return the name it is bound to. -/
def register (d : Draft) (name : String) (dependency : Dependency) : String × Draft :=
  let (bound, imports) := d.imports.register name dependency
  (bound, d.withImports imports)

/-- Keep a name for a declaration of the module. -/
def reserve (d : Draft) (name : String) : Except GenError Draft :=
  match d.imports.reserve? name with
  | some imports => .ok (d.withImports imports)
  | none => .error (.nameTaken name)

/-- The elements that have both a style and a key, outer ones first. -/
def styled (d : Draft) : List (Element Node) :=
  d.component.node.elements.filter fun e => !e.style.isEmpty && !e.key.isEmpty

end Draft

/-- A named step from one draft to the next. -/
structure Pass where
  name : String
  run : Draft → Except GenError Draft

/-- Run a pass; a failure carries its name. -/
def Pass.apply (p : Pass) (d : Draft) : Except GenError Draft :=
  (p.run d).mapError (.pass p.name)

/-- Run passes one after the other. -/
def applyPasses : List Pass → Draft → Except GenError Draft
  | [], d => .ok d
  | p :: rest, d => do
    let d ← p.apply d
    applyPasses rest d

/-- Run passes one after the other and put the chunks in order. -/
def runPasses (passes : List Pass) (d : Draft) : Except GenError Draft := do
  let d ← applyPasses passes d
  let chunks ← orderChunks d.chunks
  return { d with chunks }

/-- The constant that holds the design tokens of a component. -/
def Component.tokensConstant (c : Component) : Statement :=
  .constant (.name tokensName)
    (.object (c.tokens.map fun (name, value) => (name, Expr.ofScalar value)))

/-! ## Names of chunks -/

namespace ChunkName

/-- The component. -/
def component : String := "jsx-component"

/-- Its export. -/
def exporting : String := "export"

/-- The design tokens. -/
def tokens : String := "tokens"

/-- The types and defaults of the props. -/
def propTypes : String := "prop-types"

/-- The style sheet. -/
def styleSheet : String := "css-modules"

/-- Imports from packages. -/
def packageImports : String := "import-lib"

/-- Imports that the caller provides. -/
def customImports : String := "import-pack"

/-- Imports from the project. -/
def projectImports : String := "import-local"

/-- The router. -/
def router : String := "app-router"

/-- What puts the application on the page. -/
def render : String := "render"

/-- The template of a component. -/
def template : String := "component-html"

/-- The script beside a template. -/
def templateScript : String := "component-js"

/-- All imports. -/
def imports : List String :=
  [packageImports, customImports, projectImports]

end ChunkName

end ViewGen
