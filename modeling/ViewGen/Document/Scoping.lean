import ViewGen.Document.Component
import ViewGen.Document.Error
import ViewGen.Document.Validity

/-!
# Scoping

Every name that a component uses is declared: references to props, states and tokens by the
component, references to loop names by a loop around them, and what handlers set or call again by
the component.

## Main definitions

* `Component.declares` — whether a reference has a declaration, given the loop names in scope
* `Component.resolve`, `Project.resolve` — the first undeclared use, if any, in document order

## Design notes

The loop names in scope are handed down the tree, so that a loop has nothing to take back when it is
left.  A walk that pushes them on a stack and pops them again finds the same: see `Node.walk`.
-/

namespace ViewGen

namespace Component

/-- Whether a reference has a declaration, given the names bound by the loops around it. -/
def declares (c : Component) (scope : List String) (r : Reference) : Bool :=
  match r.kind with
  | .prop => c.props.has r.rootName
  | .state => c.states.has r.rootName
  | .token => c.tokens.has r.rootName
  | .loop => scope.contains r.rootName

/-- A reference has a declaration. -/
def checkReference (c : Component) (scope : List String) (r : Reference) (location : Location) :
    Except ScopeError Unit :=
  if c.declares scope r then .ok () else .error (.unresolved r location c.name)

/-- What a handler sets or calls is declared. -/
def checkHandler (c : Component) (event : String) (location : Location) :
    Handler → Except ScopeError Unit
  | .setState state _ =>
    if c.states.has state then .ok () else .error (.unknownState event state location c.name)
  | .callProp prop _ =>
    if c.props.has prop then .ok () else .error (.unknownProp event prop location c.name)

/-- What the handlers of one event set or call is declared. -/
def checkHandlers (c : Component) (event : String) (location : Location) :
    List Handler → Except ScopeError Unit
  | [] => .ok ()
  | h :: rest => do
    c.checkHandler event location h
    checkHandlers c event location rest

/-- What the handlers of all events set or call is declared. -/
def checkEvents (c : Component) (location : Location) :
    List (String × List Handler) → Except ScopeError Unit
  | [] => .ok ()
  | (event, handlers) :: rest => do
    c.checkHandlers event (location.field event) handlers
    checkEvents c location rest

/-- The references of a style are declared. -/
def checkStyle (c : Component) (scope : List String) (location : Location) :
    List (String × StyleValue) → Except ScopeError Unit
  | [] => .ok ()
  | (_, .static _) :: rest => checkStyle c scope location rest
  | (name, .dynamic r) :: rest => do
    c.checkReference scope r (location.field name)
    checkStyle c scope location rest

/-- The reference of a loop's source is declared. -/
def checkSource (c : Component) (scope : List String) (location : Location) :
    LoopSource → Except ScopeError Unit
  | .reference r => c.checkReference scope r location
  | .inline _ => .ok ()

end Component

mutual

/-- Every name that a node uses is declared. A loop's names are in scope in its template and its
key, and not in its source. -/
def Node.resolve (c : Component) : List String → Node → Location → Except ScopeError Unit
  | _, .static _, _ | _, .raw _, _ => .ok ()
  | scope, .dynamic r, location => c.checkReference scope r location
  | scope, .element e, location => resolveElement c scope e location
  | scope, .loop ⟨template, source, names⟩, location => do
    c.checkSource scope (location.field "dataSource") source
    let inner := names.bound ++ scope
    c.checkReference inner ⟨names.keyPath, .loop⟩ ((location.field "meta").field "iteratorKey")
    resolveElement c inner template (location.field "node")
  | scope, .conditional ⟨node, subject, _, _⟩, location => do
    c.checkReference scope subject (location.field "reference")
    Node.resolve c scope node (location.field "node")
  | scope, .slot ⟨_, some fallback⟩, location =>
    Node.resolve c scope fallback (location.field "fallback")
  | _, .slot ⟨_, none⟩, _ => .ok ()

/-- Every name that an element uses is declared. -/
def resolveElement (c : Component) :
    List String → Element Node → Location → Except ScopeError Unit
  | scope, ⟨_, _, _, _, attrs, events, style, children, _⟩, location => do
    resolveAttrs c scope (location.field "attrs") attrs
    c.checkStyle scope (location.field "style") style
    c.checkEvents (location.field "events") events
    resolveNodes c scope (location.field "children") 0 children

/-- Every name that attributes use is declared. -/
def resolveAttrs (c : Component) (scope : List String) (location : Location) :
    List (String × Attribute Node) → Except ScopeError Unit
  | [] => .ok ()
  | (name, .dynamic r) :: rest => do
    c.checkReference scope r (location.field name)
    resolveAttrs c scope location rest
  | (name, .slot content) :: rest => do
    Node.resolve c scope content (location.field name)
    resolveAttrs c scope location rest
  | (_, .static _) :: rest => resolveAttrs c scope location rest
  | (_, .imported _) :: rest => resolveAttrs c scope location rest

/-- Every name that nodes use is declared; the first node stands at `position`. -/
def resolveNodes (c : Component) (scope : List String) (location : Location) :
    Nat → List Node → Except ScopeError Unit
  | _, [] => .ok ()
  | position, n :: rest => do
    Node.resolve c scope n (location.index position)
    resolveNodes c scope location (position + 1) rest

end

/-- Every name that a component uses is declared. -/
def Component.resolve (c : Component) : Except ScopeError Unit :=
  c.node.resolve c [] .root

/-- A document that is not valid or uses an undeclared name. -/
inductive CheckError where
  | document (error : DocumentError)
  | scope (error : ScopeError)
  deriving DecidableEq

/-- The wording of an error. -/
def CheckError.message : CheckError → String
  | .document error => error.message
  | .scope error => error.message

/-- Every name that the components use is declared. -/
def resolveComponents : List Component → Except ScopeError Unit
  | [] => .ok ()
  | c :: rest => do
    c.resolve
    resolveComponents rest

/-- A project is valid and every name that its components use is declared. -/
def Project.resolve (p : Project) : Except CheckError Unit := do
  p.validate.mapError .document
  (resolveComponents (p.root :: p.components)).mapError .scope

end ViewGen
