import ViewGen.Compile.Expression
import ViewGen.Import.Table

/-!
# Compiling nodes

From the tree of a document to expressions and markup elements.

## Main definitions

* `Workspace` — what compilation writes to: the import table, the arena and the lookup of elements
* `compileNode`, `compileElement` — the compilation, in document order

## Design notes

The workspace is kept when compilation fails, with everything that was written up to then.
-/

namespace ViewGen

/-- What compilation writes to. The lookup gives the element compiled under a key. -/
structure Workspace where
  imports : ImportTable := {}
  arena : Arena := {}
  lookup : Dict ElementId := []

/-- A computation on a workspace that can fail. -/
abbrev Compile (α : Type) := ExceptT GenError (StateM Workspace) α

namespace Compile

/-- Register an import and return the name it is bound to. -/
def register (name : String) (d : Dependency) : Compile String :=
  fun w => let (bound, imports) := w.imports.register name d; (.ok bound, { w with imports })

/-- Add an element and return its position. -/
def addElement (m : Markup) : Compile ElementId :=
  fun w => (.ok w.arena.size, { w with arena := w.arena.push m })

/-- Record an element under a key, unless the key is empty. -/
def record (key : String) (id : ElementId) : Compile Unit :=
  fun w => (.ok (), if key.isEmpty then w else { w with lookup := w.lookup.insert key id })

/-- Set an attribute of an element. -/
def setAttribute (id : ElementId) (name : String) (value : MarkupValue) : Compile Unit :=
  fun w => (.ok (), { w with arena := w.arena.set id name value })

/-- Raw markup as a text, or as what it is turned into. -/
def inject (options : CompileOptions) (markup : String) : Compile Target :=
  match options.injectMarkup with
  | none => pure (.text markup)
  | some turn => fun w => let (target, arena) := turn markup w.arena; (.ok target, { w with arena })

/-- The tag of an element; its dependency is registered first. -/
def tag (options : CompileOptions) (name : String) : Option Dependency → Compile String
  | none => pure name
  | some d => do
    let bound ← if options.bindImports then register name d else pure name
    match options.customTag with
    | some custom => if d.kind = .project then return custom bound else return bound
    | none => return bound

/-- Add the attributes for events that have handlers. -/
def events (options : CompileOptions) (m : Markup) :
    List (String × List Handler) → Except GenError Markup
  | [] => .ok m
  | (_, []) :: rest => events options m rest
  | (event, h :: hs) :: rest => do
    let run ← options.handlers (h :: hs)
    events options (m.set (eventAttribute event) (.expr run)) rest

end Compile

mutual

/-- Compile a node. -/
def compileNode (options : CompileOptions) : Node → Compile Target
  | .static value => pure (.text value.display)
  | .dynamic r => do
    let e ← options.reference r
    return .expr e
  | .raw markup => Compile.inject options markup
  | .element e => do
    let id ← compileElement options e
    return .element id
  | .loop ⟨template, source, names⟩ => do
    let source ← options.source source
    let id ← compileElement options template
    let key ← options.reference ⟨names.keyPath, .loop⟩
    Compile.setAttribute id "key" (.expr key)
    return .expr (.call (.member source "map") [.arrow names.bound (.element id)])
  | .conditional ⟨node, subject, value, condition⟩ => do
    let subject' ← options.reference subject
    let test := Conditional.test { node := node, subject, value, condition }
    let target ← compileNode options node
    return .expr (.logical .and (test.expr subject') target.toExpr)
  | .slot ⟨name, fallback⟩ => do
    let forwarded ← options.reference ⟨name.getD options.childrenProp, .prop⟩
    match options.slots, fallback with
    | .fallbackWhenEmpty, some node =>
      let target ← compileNode options node
      return .expr (.logical .or forwarded target.toExpr)
    | _, _ => return .expr forwarded

/-- Compile an element and everything inside it. It is added after the elements inside it and then
recorded under its key. -/
def compileElement (options : CompileOptions) : Element Node → Compile ElementId
  | ⟨tag, _, key, selfClosing, attrs, events, _, children, dependency⟩ => do
    let name ← Compile.tag options tag dependency
    let m ← compileAttrs options { name, selfClosing } attrs
    let m ← Compile.events options m events
    let children ← compileChildren options children
    let id ← Compile.addElement { m with children }
    Compile.record key id
    return id

/-- Add compiled attributes to an element. -/
def compileAttrs (options : CompileOptions) (m : Markup) :
    List (String × Attribute Node) → Compile Markup
  | [] => pure m
  | (name, .static value) :: rest =>
    let value := match value with
      | .text s => .text s
      | _ => .expr (Expr.ofScalar value)
    compileAttrs options (m.set name value) rest
  | (name, .dynamic r) :: rest => do
    let e ← options.reference r
    compileAttrs options (m.set name (.expr e)) rest
  | (name, .imported id) :: rest => compileAttrs options (m.set name (.expr (.ident id))) rest
  | (name, .slot content) :: rest => do
    let target ← compileNode options content
    compileAttrs options (m.set name target.toValue) rest

/-- Compile children. -/
def compileChildren (options : CompileOptions) : List Node → Compile (List MarkupChild)
  | [] => pure []
  | n :: rest => do
    let target ← compileNode options n
    let children ← compileChildren options rest
    return target.toChild :: children

end

end ViewGen
