import ViewGen.Document.Scoping

/-!
# Resolution with a stack of scopes

The loop names in scope need not be handed down a tree.  A walk can keep them on a stack: it pushes
the names of a loop before it goes into the loop and pops them when it comes out, also when it comes
out with an error.  Such a walk finds what resolution finds, and leaves the stack as it was.

## Main definitions

* `ScopeWalk` — a check that may fail, over a stack of scopes that outlives the failure
* `ScopeWalk.within` — a check with the names of one more loop on the stack
* `Node.walk` — the check of a tree
* `ScopeWalk.Restores` — a walk decides like a check of the names in scope, and restores the stack

## Main statements

* `ScopeWalk.Restores.bind`, `ScopeWalk.Restores.within` — what is put together from such walks is
  such a walk
* `Node.restores_walk` — the walk of a tree is one
* `Component.walk_eq_resolve` — from the empty stack, the walk of a component resolves it
-/

namespace ViewGen

/-- A check that may fail, over the names bound by the loops around it, those of the innermost loop
first. -/
abbrev ScopeWalk := ExceptT ScopeError (StateM (List (List String))) Unit

/-- Whether a reference has a declaration, given the scopes around it. -/
def Component.declaresOn (c : Component) (stack : List (List String)) (r : Reference) : Bool :=
  match r.kind with
  | .loop => stack.any (·.contains r.rootName)
  | _ => c.declares [] r

namespace ScopeWalk

/-- A reference has a declaration. -/
def reference (c : Component) (r : Reference) (location : Location) : ScopeWalk := do
  if c.declaresOn (← get) r then pure () else throw (.unresolved r location c.name)

/-- A check that looks at no loop name. -/
def closed (check : Except ScopeError Unit) : ScopeWalk :=
  ExceptT.mk (pure check)

/-- A check with the names of a loop in scope. -/
def within (names : List String) (body : ScopeWalk) : ScopeWalk := ExceptT.mk do
  modify (names :: ·)
  let result ← body.run
  modify List.tail
  pure result

/-- The references of a style are declared. -/
def style (c : Component) (location : Location) : List (String × StyleValue) → ScopeWalk
  | [] => pure ()
  | (_, .static _) :: rest => style c location rest
  | (name, .dynamic r) :: rest => do
    reference c r (location.field name)
    style c location rest

/-- The reference of a loop's source is declared. -/
def source (c : Component) (location : Location) : LoopSource → ScopeWalk
  | .reference r => reference c r location
  | .inline _ => pure ()

end ScopeWalk

mutual

/-- Every name that a node uses is declared. -/
def Node.walk (c : Component) : Node → Location → ScopeWalk
  | .static _, _ | .raw _, _ => pure ()
  | .dynamic r, location => ScopeWalk.reference c r location
  | .element e, location => walkElement c e location
  | .loop ⟨template, source, names⟩, location => do
    ScopeWalk.source c (location.field "dataSource") source
    ScopeWalk.within names.bound do
      ScopeWalk.reference c ⟨names.keyPath, .loop⟩ ((location.field "meta").field "iteratorKey")
      walkElement c template (location.field "node")
  | .conditional ⟨node, subject, _, _⟩, location => do
    ScopeWalk.reference c subject (location.field "reference")
    Node.walk c node (location.field "node")
  | .slot ⟨_, some fallback⟩, location => Node.walk c fallback (location.field "fallback")
  | .slot ⟨_, none⟩, _ => pure ()

/-- Every name that an element uses is declared. -/
def walkElement (c : Component) : Element Node → Location → ScopeWalk
  | ⟨_, _, _, _, attrs, events, style, children, _⟩, location => do
    walkAttrs c (location.field "attrs") attrs
    ScopeWalk.style c (location.field "style") style
    ScopeWalk.closed (c.checkEvents (location.field "events") events)
    walkNodes c (location.field "children") 0 children

/-- Every name that attributes use is declared. -/
def walkAttrs (c : Component) (location : Location) : List (String × Attribute Node) → ScopeWalk
  | [] => pure ()
  | (name, .dynamic r) :: rest => do
    ScopeWalk.reference c r (location.field name)
    walkAttrs c location rest
  | (name, .slot content) :: rest => do
    Node.walk c content (location.field name)
    walkAttrs c location rest
  | (_, .static _) :: rest => walkAttrs c location rest
  | (_, .imported _) :: rest => walkAttrs c location rest

/-- Every name that nodes use is declared; the first node stands at `position`. -/
def walkNodes (c : Component) (location : Location) : Nat → List Node → ScopeWalk
  | _, [] => pure ()
  | position, n :: rest => do
    Node.walk c n (location.index position)
    walkNodes c location (position + 1) rest

end

/-- Every name that a component uses is declared. -/
def Component.walk (c : Component) : ScopeWalk :=
  c.node.walk c .root

/-- Scopes on a stack are looked through one after the other, as if they were one. -/
theorem Component.declaresOn_eq (c : Component) (stack : List (List String)) (r : Reference) :
    c.declaresOn stack r = c.declares stack.flatten r := by
  obtain ⟨path, kind⟩ := r
  cases kind with
  | loop =>
      change stack.any (·.contains _) = stack.flatten.contains _
      rw [Bool.eq_iff_iff]
      simp
  | prop | state | token => rfl

namespace ScopeWalk

/-- A walk decides like a check of the names in scope, and leaves the stack as it was, whether the
check fails or not. -/
def Restores (walk : ScopeWalk) (check : List String → Except ScopeError Unit) : Prop :=
  ∀ stack, walk.run.run stack = (check stack.flatten, stack)

variable {walk next : ScopeWalk} {check check' : List String → Except ScopeError Unit}
  {c : Component} {location : Location}

theorem restores_pure : Restores (pure ()) fun _ => .ok () :=
  fun _ => rfl

theorem restores_closed (result : Except ScopeError Unit) : Restores (closed result) fun _ => result :=
  fun _ => rfl

theorem restores_reference (c : Component) (r : Reference) (location : Location) :
    Restores (reference c r location) fun scope => c.checkReference scope r location := by
  intro stack
  change _ = (c.checkReference stack.flatten r location, stack)
  change (if c.declaresOn stack r = true then pure ()
    else throw (.unresolved r location c.name) : ScopeWalk).run.run stack = _
  rw [Component.checkReference, ← c.declaresOn_eq]
  split
  · rfl
  · rfl

/-- The second of two walks finds the stack that the first one found. -/
theorem Restores.bind (hwalk : Restores walk check) (hnext : Restores next check') :
    Restores (walk >>= fun _ => next) fun scope => check scope >>= fun _ => check' scope := by
  intro stack
  change _ = (check stack.flatten >>= fun _ => check' stack.flatten, stack)
  rw [ExceptT.run_bind, StateT.run_bind, hwalk stack]
  cases check stack.flatten with
  | ok _ => exact hnext stack
  | error _ => rfl

/-- What is pushed for a loop is popped again. -/
theorem Restores.within (hwalk : Restores walk check) (names : List String) :
    Restores (within names walk) fun scope => check (names ++ scope) := by
  intro stack
  have hbody : walk.run.run (names :: stack) = (check (names ++ stack.flatten), names :: stack) :=
    hwalk (names :: stack)
  change ((walk.run.run (names :: stack)).1, (walk.run.run (names :: stack)).2.tail) =
    (check (names ++ stack.flatten), stack)
  rw [hbody, List.tail_cons]

/-! ## Walks of trees -/

theorem restores_style (entries : List (String × StyleValue)) :
    Restores (style c location entries) fun scope => c.checkStyle scope location entries := by
  induction entries with
  | nil => exact restores_pure
  | cons entry rest ih =>
      obtain ⟨name, value⟩ := entry
      cases value with
      | static value => exact ih
      | dynamic r => exact (restores_reference c r _).bind ih

theorem restores_source (s : LoopSource) :
    Restores (source c location s) fun scope => c.checkSource scope location s := by
  cases s with
  | reference r => exact restores_reference c r _
  | inline items => exact restores_pure

end ScopeWalk

open ScopeWalk

mutual

/-- **The walk of a tree decides like resolution, and restores the stack.** -/
theorem Node.restores_walk (c : Component) :
    ∀ (n : Node) (location : Location),
      Restores (n.walk c location) fun scope => n.resolve c scope location
  | .static _, _ | .raw _, _ => by
      simp only [Node.walk, Node.resolve]
      exact restores_pure
  | .dynamic r, location => by
      simp only [Node.walk, Node.resolve]
      exact restores_reference c r _
  | .element e, location => by
      simp only [Node.walk, Node.resolve]
      exact restores_walkElement c e location
  | .loop ⟨template, source, names⟩, location => by
      simp only [Node.walk, Node.resolve]
      -- The source is looked up before the names are pushed, the key and the template after.
      have hkey := restores_reference c ⟨names.keyPath, .loop⟩
        ((location.field "meta").field "iteratorKey")
      exact (restores_source source).bind
        ((hkey.bind (restores_walkElement c template (location.field "node"))).within names.bound)
  | .conditional ⟨node, subject, _, _⟩, location => by
      simp only [Node.walk, Node.resolve]
      exact (restores_reference c subject _).bind (Node.restores_walk c node (location.field "node"))
  | .slot ⟨_, some fallback⟩, location => by
      simp only [Node.walk, Node.resolve]
      exact Node.restores_walk c fallback (location.field "fallback")
  | .slot ⟨_, none⟩, _ => by
      simp only [Node.walk, Node.resolve]
      exact restores_pure

theorem restores_walkElement (c : Component) :
    ∀ (e : Element Node) (location : Location),
      Restores (walkElement c e location) fun scope => resolveElement c scope e location
  | ⟨_, _, _, _, attrs, events, style, children, _⟩, location => by
      simp only [walkElement, resolveElement]
      exact (restores_walkAttrs c (location.field "attrs") attrs).bind
        ((restores_style style).bind
          ((restores_closed _).bind (restores_walkNodes c (location.field "children") 0 children)))

theorem restores_walkAttrs (c : Component) (location : Location) :
    ∀ attrs : List (String × Attribute Node),
      Restores (walkAttrs c location attrs) fun scope => resolveAttrs c scope location attrs
  | [] => by
      simp only [walkAttrs, resolveAttrs]
      exact restores_pure
  | (name, .dynamic r) :: rest => by
      simp only [walkAttrs, resolveAttrs]
      exact (restores_reference c r _).bind (restores_walkAttrs c location rest)
  | (name, .slot content) :: rest => by
      simp only [walkAttrs, resolveAttrs]
      exact (Node.restores_walk c content (location.field name)).bind
        (restores_walkAttrs c location rest)
  | (_, .static _) :: rest => by
      simp only [walkAttrs, resolveAttrs]
      exact restores_walkAttrs c location rest
  | (_, .imported _) :: rest => by
      simp only [walkAttrs, resolveAttrs]
      exact restores_walkAttrs c location rest

theorem restores_walkNodes (c : Component) (location : Location) :
    ∀ (position : Nat) (nodes : List Node),
      Restores (walkNodes c location position nodes) fun scope =>
        resolveNodes c scope location position nodes
  | _, [] => by
      simp only [walkNodes, resolveNodes]
      exact restores_pure
  | position, n :: rest => by
      simp only [walkNodes, resolveNodes]
      exact (Node.restores_walk c n (location.index position)).bind
        (restores_walkNodes c location (position + 1) rest)

end

/-- **From the empty stack, the walk of a component resolves it**, and ends with the empty stack. -/
theorem Component.walk_eq_resolve (c : Component) : c.walk.run.run [] = (c.resolve, []) :=
  Node.restores_walk c c.node .root []

end ViewGen
