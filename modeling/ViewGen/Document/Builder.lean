import ViewGen.Document.Component

/-!
# Building documents

Short ways to write components down.

## Main definitions

* `Element.withAttribute`, `Element.withEvent`, … — an element step by step
* `Node.ofTag`, `Node.whenEqual`, … — nodes
* `Component.withProp`, `Component.withState`, `Component.withToken` — a component step by step
-/

namespace ViewGen

namespace Element

variable {ν : Type}

/-- An element with a key. -/
def withKey (e : Element ν) (key : String) : Element ν :=
  { e with key }

/-- An element with one more attribute. -/
def withAttribute (e : Element ν) (name : String) (value : Attribute ν) : Element ν :=
  { e with attrs := Dict.insert e.attrs name value }

/-- An element with one more handler, after those that the event already has. -/
def withEvent (e : Element ν) (event : String) (handler : Handler) : Element ν :=
  { e with events := Dict.insert e.events event ((Dict.get? e.events event).getD [] ++ [handler]) }

/-- An element with one more value in its style. -/
def withStyle (e : Element ν) (property : String) (value : StyleValue) : Element ν :=
  { e with style := Dict.insert e.style property value }

/-- An element with one more child. -/
def withChild (e : Element ν) (child : ν) : Element ν :=
  { e with children := e.children ++ [child] }

/-- An element that is imported. -/
def withDependency (e : Element ν) (d : Dependency) : Element ν :=
  { e with dependency := some d }

/-- An element without an end tag when it is empty. -/
def closedItself (e : Element ν) : Element ν :=
  { e with selfClosing := true }

end Element

namespace Node

/-- An element with children. -/
def ofTag (tag : String) (children : List Node) : Node :=
  .element { tag, children }

/-- The slot without a name. -/
def defaultSlot (fallback : Option Node) : Node :=
  .slot { name := none, fallback }

/-- A slot with a name. -/
def namedSlot (name : String) (fallback : Option Node) : Node :=
  .slot { name := some name, fallback }

/-- A node that is shown when a subject equals a value. -/
def whenEqual (node : Node) (subject : Reference) (value : Scalar) : Node :=
  .conditional { node, subject, value := some value, condition := none }

/-- A node that is shown when a subject passes a test. -/
def whenTest (node : Node) (subject : Reference) (test : Test) : Node :=
  .conditional { node, subject, value := none, condition := some test }

end Node

namespace Component

/-- A component with one more prop. -/
def withProp (c : Component) (name : String) (definition : PropDefinition) : Component :=
  { c with props := c.props.insert name definition }

/-- A component with one more state. -/
def withState (c : Component) (name : String) (definition : StateDefinition) : Component :=
  { c with states := c.states.insert name definition }

/-- A component with one more design token. -/
def withToken (c : Component) (name : String) (value : Scalar) : Component :=
  { c with tokens := c.tokens.insert name value }

end Component

end ViewGen
