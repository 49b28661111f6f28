import ViewGen.Dict
import ViewGen.Document.Dependency
import ViewGen.Document.Value

/-!
# Nodes

The tree of a component. The records for elements, loops, conditionals and slots take the type of
the nodes inside them as a parameter; `Node` ties the knot.

## Main definitions

* `Element`, `Attribute`, `Loop`, `Conditional`, `Slot` — the parts with nodes inside
* `Node` — a node
* `Node.elements` — all elements of a tree, outer ones first
* `Conditional.test` — the test that a conditional stands for
-/

namespace ViewGen

/-- The value of an attribute; the slot form passes a node. -/
inductive Attribute (ν : Type) where
  | static (value : Scalar)
  | dynamic (reference : Reference)
  | imported (id : String)
  | slot (content : ν)

/-- The name of an attribute's form in documents. -/
def Attribute.kind {ν : Type} : Attribute ν → String
  | .static _ => "static"
  | .dynamic _ => "dynamic"
  | .imported _ => "import"
  | .slot _ => "slot"

/-- An element: a tag with attributes, events, style and children. `key` identifies the compiled
element, and is empty when the document gives none. -/
structure Element (ν : Type) where
  tag : String
  name : Option String := none
  key : String := ""
  selfClosing : Bool := false
  attrs : List (String × Attribute ν) := []
  events : List (String × List Handler) := []
  style : List (String × StyleValue) := []
  children : List ν := []
  dependency : Option Dependency := none

/-- Where a loop takes its items from. -/
inductive LoopSource where
  | reference (reference : Reference)
  | inline (items : List Scalar)

/-- The names that a loop binds. -/
structure LoopNames where
  iterator : Option String := none
  key : Option String := none
  useIndex : Bool := false

namespace LoopNames

/-- The name bound to the position of an item. -/
def index : String := "index"

/-- The name bound to an item. -/
def iteratorName (n : LoopNames) : String :=
  n.iterator.getD "item"

/-- What identifies an item among the others; its position when nothing else does. -/
def keyPath (n : LoopNames) : String :=
  n.key.getD index

/-- Whether the position is bound: on request, or because it identifies the item. -/
def bindsIndex (n : LoopNames) : Bool :=
  n.useIndex || n.key.isNone

/-- All names that the loop binds. -/
def bound (n : LoopNames) : List String :=
  if n.bindsIndex then [n.iteratorName, index] else [n.iteratorName]

end LoopNames

/-- An element repeated for every item of a source. -/
structure Loop (ν : Type) where
  template : Element ν
  source : LoopSource
  names : LoopNames := {}

/-- A node shown only when a test on a subject holds. -/
structure Conditional (ν : Type) where
  node : ν
  subject : Reference
  value : Option Scalar := none
  condition : Option Test := none

/-- The test of a conditional: equality with its value when it has one, otherwise its condition, and
without either the truth of the subject. -/
def Conditional.test {ν : Type} (c : Conditional ν) : Test :=
  match c.value, c.condition with
  | some value, _ => ⟨[⟨.equal, some value⟩], .all⟩
  | none, some condition => condition
  | none, none => ⟨[⟨.truthy, none⟩], .all⟩

/-- A place for content that is passed in. A named slot shows the prop of that name. -/
structure Slot (ν : Type) where
  name : Option String := none
  fallback : Option ν := none

/-- A node of a document. -/
inductive Node where
  | static (value : Scalar)
  | dynamic (reference : Reference)
  | raw (markup : String)
  | element (element : Element Node)
  | loop (loop : Loop Node)
  | conditional (conditional : Conditional Node)
  | slot (slot : Slot Node)

namespace Node

/-- The name of a node's form in documents. -/
def kind : Node → String
  | .static _ => "static"
  | .dynamic _ => "dynamic"
  | .raw _ => "raw"
  | .element _ => "element"
  | .loop _ => "repeat"
  | .conditional _ => "conditional"
  | .slot _ => "slot"

/-- The names of all forms. -/
def kinds : List String :=
  ["static", "dynamic", "raw", "element", "repeat", "conditional", "slot"]

/-- Whether a node may be the root of a component. -/
def isRoot : Node → Bool
  | .element _ | .loop _ | .conditional _ => true
  | _ => false

mutual

/-- All elements of a tree, outer ones before inner ones: loop templates, conditional nodes, slot
fallbacks and nodes passed as attributes included. -/
def elements : Node → List (Element Node)
  | .element e => elementsOf e
  | .loop ⟨e, _, _⟩ => elementsOf e
  | .conditional ⟨n, _, _, _⟩ => elements n
  | .slot ⟨_, some n⟩ => elements n
  | .slot ⟨_, none⟩ => []
  | .static _ | .dynamic _ | .raw _ => []

/-- An element and all elements inside it. -/
def elementsOf : Element Node → List (Element Node)
  | ⟨tag, name, key, selfClosing, attrs, events, style, children, dependency⟩ =>
    ⟨tag, name, key, selfClosing, attrs, events, style, children, dependency⟩ ::
      (elementsOfAttrs attrs ++ elementsOfAll children)

/-- All elements inside some attributes. -/
def elementsOfAttrs : List (String × Attribute Node) → List (Element Node)
  | [] => []
  | (_, .slot n) :: rest => elements n ++ elementsOfAttrs rest
  | (_, .static _) :: rest => elementsOfAttrs rest
  | (_, .dynamic _) :: rest => elementsOfAttrs rest
  | (_, .imported _) :: rest => elementsOfAttrs rest

/-- All elements inside some nodes. -/
def elementsOfAll : List Node → List (Element Node)
  | [] => []
  | n :: rest => elements n ++ elementsOfAll rest

end

end Node

end ViewGen
