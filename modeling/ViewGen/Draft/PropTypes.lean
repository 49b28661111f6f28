import ViewGen.Draft.Basic
import ViewGen.Framework

/-!
# Prop types

The types and defaults of the props, between the component and its export.

## Main definitions

* `propTypesPass` — the pass
-/

namespace ViewGen

/-- The validator of a type. -/
def PropType.validator : PropType → String
  | .string => "string"
  | .number => "number"
  | .bool => "bool"
  | .array => "array"
  | .object => "object"
  | .func => "func"
  | .children => "node"

/-- The validator of a prop. -/
def PropDefinition.validator (propTypes : String) (p : PropDefinition) : Expr :=
  let validator := Expr.member (.ident propTypes) p.type.validator
  if p.required then .member validator "isRequired" else validator

/-- The defaults of the props that have one. -/
def propDefaults (props : Dict PropDefinition) : List (String × Expr) :=
  props.filterMap fun (name, p) => p.default.map fun value => (name, Expr.ofScalar value)

/-- The statements that set the types and defaults. -/
def propStatements (component propTypes : String) (props : Dict PropDefinition) :
    List Statement :=
  let types : Statement := .assign (.member (.ident component) "propTypes")
    (.object (props.map fun (name, p) => (name, p.validator propTypes)))
  if (propDefaults props).isEmpty then [types]
  else [types, .assign (.member (.ident component) "defaultProps") (.object (propDefaults props))]

/-- Add a link to the chunk of a given name. -/
def linkAfter (name link : String) : List Chunk → List Chunk
  | [] => []
  | c :: rest =>
    if c.name = name then { c with after := c.after ++ [link] } :: rest
    else c :: linkAfter name link rest

/-- Declare the types and defaults of the props, if there are props. -/
def Draft.declareProps (d : Draft) : Draft :=
  if d.component.props.isEmpty then d
  else
    let (propTypes, d) := d.register "PropTypes" (.package "prop-types" propTypesVersion)
    let name := componentName d.component.name
    let d := d.put (.script ChunkName.propTypes
      (propStatements name propTypes d.component.props) [ChunkName.component])
    { d with chunks := linkAfter ChunkName.exporting ChunkName.propTypes d.chunks }

/-- Declare the types and defaults of the props. -/
def propTypesPass : Pass where
  name := "prop-types"
  run d := .ok d.declareProps

end ViewGen
