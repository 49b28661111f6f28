import ViewGen.Draft.Basic
import ViewGen.Text.Fresh

/-!
# Keys for elements

Every element without a key gets one made of its tag and a number, so that later passes can find
what it was compiled to.

## Main definitions

* `KeySupply` — keys in use and the last number given out for each tag
* `Node.assignKeys` — a tree in which every element has a key
* `keyPass` — the pass
-/

namespace ViewGen

/-- Keys in use, and for each base the last number given out. -/
structure KeySupply where
  used : List String
  counters : Dict Nat := []

/-- A key for an element with the given tag, different from all keys in use. -/
def KeySupply.next (supply : KeySupply) (tag : String) : String × KeySupply :=
  let base := Text.camel tag
  let start := (supply.counters.get? base).getD 0
  let n := (Text.firstCounted base start (supply.used.length + 1)
    fun key => !supply.used.contains key).getD (start + 1)
  let key := base ++ toString n
  (key, ⟨key :: supply.used, supply.counters.insert base n⟩)

mutual

/-- Give every element of a tree that has no key one, outer elements first. -/
def Node.assignKeys : Node → StateM KeySupply Node
  | .element e => do
    let e ← assignElementKeys e
    return .element e
  | .loop ⟨template, source, names⟩ => do
    let template ← assignElementKeys template
    return .loop { template, source, names }
  | .conditional ⟨node, subject, value, condition⟩ => do
    let node ← Node.assignKeys node
    return .conditional { node, subject, value, condition }
  | .slot ⟨name, some fallback⟩ => do
    let fallback ← Node.assignKeys fallback
    return .slot { name, fallback := some fallback }
  | .slot ⟨name, none⟩ => return .slot { name }
  | .static value => return .static value
  | .dynamic r => return .dynamic r
  | .raw markup => return .raw markup

/-- Give an element and the elements inside it keys. -/
def assignElementKeys : Element Node → StateM KeySupply (Element Node)
  | ⟨tag, name, key, selfClosing, attrs, events, style, children, dependency⟩ => do
    let key ← if key.isEmpty then modifyGet (·.next tag) else pure key
    let attrs ← assignAttrKeys attrs
    let children ← assignAllKeys children
    return { tag, name, key, selfClosing, attrs, events, style, children, dependency }

/-- Give the elements inside attributes keys. -/
def assignAttrKeys :
    List (String × Attribute Node) → StateM KeySupply (List (String × Attribute Node))
  | [] => return []
  | (name, .slot content) :: rest => do
    let content ← Node.assignKeys content
    let rest ← assignAttrKeys rest
    return (name, .slot content) :: rest
  | (name, .static value) :: rest => do
    let rest ← assignAttrKeys rest
    return (name, .static value) :: rest
  | (name, .dynamic r) :: rest => do
    let rest ← assignAttrKeys rest
    return (name, .dynamic r) :: rest
  | (name, .imported id) :: rest => do
    let rest ← assignAttrKeys rest
    return (name, .imported id) :: rest

/-- Give the elements inside nodes keys. -/
def assignAllKeys : List Node → StateM KeySupply (List Node)
  | [] => return []
  | n :: rest => do
    let n ← Node.assignKeys n
    let rest ← assignAllKeys rest
    return n :: rest

end

/-- A tree in which every element has a key; keys that are there are kept. -/
def Node.withKeys (n : Node) : Node :=
  let used := (n.elements.map (·.key)).filter fun key => !key.isEmpty
  (n.assignKeys.run ⟨used, []⟩).1

/-- Give every element of the component a key. -/
def keyPass : Pass where
  name := "uidl-normalizer"
  run d := .ok { d with component := { d.component with node := d.component.node.withKeys } }

end ViewGen
