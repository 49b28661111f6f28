import ViewGen.Draft.Basic
import ViewGen.Framework

/-!
# Function components

The component as a function that returns markup, with a hook for every state, a constant for the
design tokens, and the export.

## Main definitions

* `Draft.addComponent` — the chunks of the component
* `Draft.declareComponent` — the component with its root compiled
* `functionComponentPass` — the pass
-/

namespace ViewGen

/-- The hooks of the states: `const [open, setOpen] = useState(false)`. -/
def stateHooks (useState : String) (states : Dict StateDefinition) : List Statement :=
  states.map fun (state, definition) =>
    .constant (.array [state, setterName state])
      (.call (.ident useState) [Expr.ofScalar definition.default])

/-- Register the hook for states when there are any, and return the hooks. -/
def Compile.hooks (runtime : Runtime) (states : Dict StateDefinition) : Compile (List Statement) :=
  if states.isEmpty then pure []
  else do
    let useState ← Compile.register "useState" runtime.hooks
    return stateHooks useState states

/-- The body of the function: the hooks, and the root of the tree. -/
def Compile.functionBody (runtime : Runtime) (options : CompileOptions) (c : Component) :
    Compile (List Statement) := do
  let _ ← Compile.register runtime.pragma runtime.package
  let hooks ← Compile.hooks runtime c.states
  let root ← compileNode options c.node
  return hooks ++ [.returning root.toExpr]

namespace Draft

/-- Add the constant of the design tokens, if there are any. -/
def addTokens (d : Draft) : Draft :=
  if d.component.tokens.isEmpty then d
  else d.put (.script ChunkName.tokens [d.component.tokensConstant] ChunkName.imports)

/-- The links of the function: all imports, and the design tokens if there are any. -/
def componentLinks (d : Draft) : List String :=
  if d.component.tokens.isEmpty then ChunkName.imports else ChunkName.imports ++ [ChunkName.tokens]

/-- Add the component, given the body of its function: its tokens if it has any, the function, and
the export. -/
def addComponent (d : Draft) (body : List Statement) : Draft :=
  let name := componentName d.component.name
  (d.addTokens.put (.script ChunkName.component
    [.constant (.name name) (.arrowBlock ["props"] body)] d.componentLinks)).put
    (.script ChunkName.exporting [.exporting (.ident name)] [ChunkName.component])

/-- Declare the component. Its name is kept from the imports. -/
def declareComponent (framework : Framework) (options : CompileOptions) (d : Draft) :
    Except GenError Draft := do
  let d ← d.reserve (componentName d.component.name)
  match framework.runtime? with
  | none => throw (.invalidSelector "JSX component type" framework.name)
  | some runtime =>
    let (result, workspace) := (Compile.functionBody runtime options d.component).run d.workspace
    let body ← result
    return { d with workspace }.addComponent body

end Draft

/-- Compile the root and declare the component. -/
def functionComponentPass (framework : Framework) (options : CompileOptions) : Pass where
  name := "react-component"
  run := Draft.declareComponent framework options

end ViewGen
