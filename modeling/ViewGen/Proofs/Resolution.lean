import ViewGen.Draft.Keys
import ViewGen.Document.Scoping
import ViewGen.Proofs.CompileSteps

/-!
# What it takes for a tree to be resolved

Resolution walks a tree with the loop names in scope.  One equivalence for each form of node says
when it succeeds.

## Main statements

* `resolve_loop_iff`, `resolveElement_iff`, … — what it takes, form by form
* `resolve_withKeys` — keys do not matter to resolution
-/

namespace ViewGen

-- All proofs below rewrite with the equations of these functions; they are generated here, once.
attribute [local simp] Node.resolve resolveElement resolveAttrs resolveNodes

variable {c : Component} {scope : List String} {location : Location}

/-- Two checks in a row succeed when both do. -/
theorem check_then_iff {ε : Type} {x y : Except ε Unit} :
    (x >>= fun _ => y) = .ok () ↔ x = .ok () ∧ y = .ok () := by
  rw [bind_eq_ok_iff]
  exact ⟨fun ⟨_, hx, hy⟩ => ⟨hx, hy⟩, fun ⟨hx, hy⟩ => ⟨(), hx, hy⟩⟩

/-! ## References and handlers -/

namespace Component

theorem checkReference_iff {r : Reference} :
    c.checkReference scope r location = .ok () ↔ c.declares scope r = true := by
  rw [checkReference]
  split <;> simp_all

theorem checkSource_iff {source : LoopSource} :
    c.checkSource scope location source = .ok () ↔
      ∀ r, source = .reference r → c.declares scope r = true := by
  cases source with
  | reference r =>
      rw [checkSource, checkReference_iff]
      exact ⟨fun h r' hr' => LoopSource.reference.inj hr' ▸ h, fun h => h r rfl⟩
  | inline items => simp [checkSource]

/-- What a handler sets or calls has a declaration. -/
def permits (c : Component) : Handler → Bool
  | .setState state _ => c.states.has state
  | .callProp prop _ => c.props.has prop

theorem checkHandler_iff {event : String} {h : Handler} :
    c.checkHandler event location h = .ok () ↔ c.permits h = true := by
  cases h <;> rw [checkHandler, permits] <;> split <;> simp_all

theorem checkHandlers_iff {event : String} {hs : List Handler} :
    c.checkHandlers event location hs = .ok () ↔ ∀ h ∈ hs, c.permits h = true := by
  induction hs with
  | nil => simp [checkHandlers]
  | cons h rest ih =>
      rw [checkHandlers, check_then_iff, checkHandler_iff, ih, List.forall_mem_cons]

theorem checkEvents_iff {events : List (String × List Handler)} :
    c.checkEvents location events = .ok () ↔
      ∀ entry ∈ events, ∀ h ∈ entry.2, c.permits h = true := by
  induction events with
  | nil => simp [checkEvents]
  | cons entry rest ih =>
      obtain ⟨event, handlers⟩ := entry
      rw [checkEvents, check_then_iff, checkHandlers_iff, ih, List.forall_mem_cons]

end Component

/-! ## Trees -/

theorem resolve_dynamic_iff {r : Reference} :
    Node.resolve c scope (.dynamic r) location = .ok () ↔ c.declares scope r = true := by
  rw [Node.resolve, Component.checkReference_iff]

/-- The names of a loop are in scope in its key and its template, and not in its source. -/
theorem resolve_loop_iff {template : Element Node} {source : LoopSource} {names : LoopNames} :
    Node.resolve c scope (.loop ⟨template, source, names⟩) location = .ok () ↔
      (∀ r, source = .reference r → c.declares scope r = true) ∧
        c.declares (names.bound ++ scope) ⟨names.keyPath, .loop⟩ = true ∧
        resolveElement c (names.bound ++ scope) template (location.field "node") = .ok () := by
  rw [Node.resolve, check_then_iff, check_then_iff, Component.checkSource_iff,
    Component.checkReference_iff]

theorem resolve_conditional_iff {node : Node} {subject : Reference} {value : Option Scalar}
    {condition : Option Test} :
    Node.resolve c scope (.conditional ⟨node, subject, value, condition⟩) location = .ok () ↔
      c.declares scope subject = true ∧
        node.resolve c scope (location.field "node") = .ok () := by
  rw [Node.resolve, check_then_iff, Component.checkReference_iff]

theorem resolveElement_iff {e : Element Node} :
    resolveElement c scope e location = .ok () ↔
      resolveAttrs c scope (location.field "attrs") e.attrs = .ok () ∧
        c.checkStyle scope (location.field "style") e.style = .ok () ∧
        (∀ entry ∈ e.events, ∀ h ∈ entry.2, c.permits h = true) ∧
        resolveNodes c scope (location.field "children") 0 e.children = .ok () := by
  obtain ⟨tag, name, key, selfClosing, attrs, events, style, children, dependency⟩ := e
  rw [resolveElement, check_then_iff, check_then_iff, check_then_iff, Component.checkEvents_iff]

theorem resolveAttrs_dynamic_iff {name : String} {r : Reference}
    {rest : List (String × Attribute Node)} :
    resolveAttrs c scope location ((name, .dynamic r) :: rest) = .ok () ↔
      c.declares scope r = true ∧ resolveAttrs c scope location rest = .ok () := by
  rw [resolveAttrs, check_then_iff, Component.checkReference_iff]

theorem resolveAttrs_slot_iff {name : String} {content : Node}
    {rest : List (String × Attribute Node)} :
    resolveAttrs c scope location ((name, .slot content) :: rest) = .ok () ↔
      content.resolve c scope (location.field name) = .ok () ∧
        resolveAttrs c scope location rest = .ok () := by
  rw [resolveAttrs, check_then_iff]

theorem resolveNodes_cons_iff {position : Nat} {n : Node} {rest : List Node} :
    resolveNodes c scope location position (n :: rest) = .ok () ↔
      n.resolve c scope (location.index position) = .ok () ∧
        resolveNodes c scope location (position + 1) rest = .ok () := by
  rw [resolveNodes, check_then_iff]

/-! ## Keys -/

namespace Component

theorem checkStyle_withNode (c : Component) (root : Node) (scope : List String)
    (location : Location) (style : List (String × StyleValue)) :
    { c with node := root }.checkStyle scope location style = c.checkStyle scope location style := by
  induction style with
  | nil => rfl
  | cons entry rest ih =>
      obtain ⟨name, value⟩ := entry
      cases value with
      | static value => exact ih
      | dynamic r =>
          rw [checkStyle, checkStyle, ih]
          rfl

theorem checkHandlers_withNode (c : Component) (root : Node) (event : String) (location : Location)
    (hs : List Handler) :
    { c with node := root }.checkHandlers event location hs =
      c.checkHandlers event location hs := by
  induction hs with
  | nil => rfl
  | cons h rest ih =>
      rw [checkHandlers, checkHandlers, ih]
      cases h <;> rfl

theorem checkEvents_withNode (c : Component) (root : Node) (location : Location)
    (events : List (String × List Handler)) :
    { c with node := root }.checkEvents location events = c.checkEvents location events := by
  induction events with
  | nil => rfl
  | cons entry rest ih =>
      obtain ⟨event, handlers⟩ := entry
      rw [checkEvents, checkEvents, checkHandlers_withNode, ih]

end Component

/-- An element with keys inside differs from the element in its key, its attributes and its
children. -/
theorem exists_run_assignElementKeys (e : Element Node) (supply : KeySupply) :
    ∃ key supply₁ supply₂, ((assignElementKeys e).run supply).1 =
      { e with
        key
        attrs := ((assignAttrKeys e.attrs).run supply₁).1
        children := ((assignAllKeys e.children).run supply₂).1 } := by
  obtain ⟨tag, name, key, selfClosing, attrs, events, style, children, dependency⟩ := e
  by_cases hkey : key.isEmpty
  · refine ⟨(supply.next tag).1, (supply.next tag).2,
      ((assignAttrKeys attrs).run (supply.next tag).2).2, ?_⟩
    rw [assignElementKeys, if_pos hkey]
    rfl
  · refine ⟨key, supply, ((assignAttrKeys attrs).run supply).2, ?_⟩
    rw [assignElementKeys, if_neg hkey]
    rfl

mutual

/-- Resolution reads neither the keys of elements nor the root that a component has. -/
theorem resolve_assignKeys (c : Component) (root : Node) : ∀ (n : Node) (supply : KeySupply)
    (scope : List String) (location : Location),
    (n.assignKeys.run supply).1.resolve { c with node := root } scope location =
      n.resolve c scope location
  | .static value, supply, scope, location => rfl
  | .dynamic r, supply, scope, location => rfl
  | .raw markup, supply, scope, location => rfl
  | .element e, supply, scope, location => resolve_assignElementKeys c root e supply scope location
  | .loop ⟨template, source, names⟩, supply, scope, location => by
      have htemplate := resolve_assignElementKeys c root template supply (names.bound ++ scope)
        (location.field "node")
      change Node.resolve { c with node := root } scope
        (.loop ⟨((assignElementKeys template).run supply).1, source, names⟩) location = _
      rw [Node.resolve, Node.resolve]
      dsimp only
      rw [htemplate]
      rfl
  | .conditional ⟨node, subject, value, condition⟩, supply, scope, location => by
      have hnode := resolve_assignKeys c root node supply scope (location.field "node")
      change Node.resolve { c with node := root } scope
        (.conditional ⟨(node.assignKeys.run supply).1, subject, value, condition⟩) location = _
      rw [Node.resolve, Node.resolve, hnode]
      rfl
  | .slot ⟨name, none⟩, supply, scope, location => rfl
  | .slot ⟨name, some fallback⟩, supply, scope, location => by
      have hfallback := resolve_assignKeys c root fallback supply scope (location.field "fallback")
      exact hfallback

theorem resolve_assignElementKeys (c : Component) (root : Node) :
    ∀ (e : Element Node) (supply : KeySupply) (scope : List String) (location : Location),
      resolveElement { c with node := root } scope ((assignElementKeys e).run supply).1 location =
        resolveElement c scope e location
  | ⟨tag, name, key, selfClosing, attrs, events, style, children, dependency⟩, supply, scope,
      location => by
      obtain ⟨key', supply₁, supply₂, he⟩ := exists_run_assignElementKeys
        ⟨tag, name, key, selfClosing, attrs, events, style, children, dependency⟩ supply
      rw [he, resolveElement, resolveElement,
        resolve_assignAttrKeys c root attrs supply₁ scope (location.field "attrs"),
        resolve_assignAllKeys c root children supply₂ scope (location.field "children") 0,
        Component.checkStyle_withNode, Component.checkEvents_withNode]

theorem resolve_assignAttrKeys (c : Component) (root : Node) :
    ∀ (attrs : List (String × Attribute Node)) (supply : KeySupply) (scope : List String)
      (location : Location),
      resolveAttrs { c with node := root } scope location ((assignAttrKeys attrs).run supply).1 =
        resolveAttrs c scope location attrs
  | [], supply, scope, location => rfl
  | (name, .static value) :: rest, supply, scope, location =>
      resolve_assignAttrKeys c root rest supply scope location
  | (name, .dynamic r) :: rest, supply, scope, location => by
      change resolveAttrs { c with node := root } scope location
        ((name, .dynamic r) :: ((assignAttrKeys rest).run supply).1) = _
      rw [resolveAttrs, resolveAttrs, resolve_assignAttrKeys c root rest supply scope location]
      rfl
  | (name, .imported id) :: rest, supply, scope, location =>
      resolve_assignAttrKeys c root rest supply scope location
  | (name, .slot content) :: rest, supply, scope, location => by
      change resolveAttrs { c with node := root } scope location
        ((name, .slot (content.assignKeys.run supply).1) ::
          ((assignAttrKeys rest).run (content.assignKeys.run supply).2).1) = _
      rw [resolveAttrs, resolveAttrs,
        resolve_assignKeys c root content supply scope (location.field name),
        resolve_assignAttrKeys c root rest _ scope location]

theorem resolve_assignAllKeys (c : Component) (root : Node) :
    ∀ (ns : List Node) (supply : KeySupply) (scope : List String) (location : Location)
      (position : Nat),
      resolveNodes { c with node := root } scope location position
          ((assignAllKeys ns).run supply).1 =
        resolveNodes c scope location position ns
  | [], supply, scope, location, position => rfl
  | n :: rest, supply, scope, location, position => by
      change resolveNodes { c with node := root } scope location position
        ((n.assignKeys.run supply).1 :: ((assignAllKeys rest).run (n.assignKeys.run supply).2).1) =
          _
      rw [resolveNodes, resolveNodes,
        resolve_assignKeys c root n supply scope (location.index position),
        resolve_assignAllKeys c root rest _ scope location (position + 1)]

end

/-- **Keys do not matter to resolution.** -/
theorem resolve_withKeys (c : Component) :
    { c with node := c.node.withKeys }.resolve = c.resolve :=
  resolve_assignKeys c c.node.withKeys c.node _ [] .root

end ViewGen
