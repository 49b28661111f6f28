import ViewGen.Draft.Router
import ViewGen.Naming

/-!
# Pages

A page is what the root of a project shows for one value of its route.

## Main definitions

* `Page` — a page as a component of its own, with its address and the name of its files
* `Component.pages` — the pages of a root
* `Page.route` — the entry of a page in the router
-/

namespace ViewGen

/-- A page: a component of its own, its address, and the name of its files. -/
structure Page where
  path : String
  component : Component
  fileName : String

namespace Component

/-- The nodes that may be pages: the children of an element, or else the node itself. -/
def pageNodes (root : Component) : List Node :=
  match root.node with
  | .element e => e.children
  | node => [node]

/-- The options of the page for a value of the route. -/
def pageOptions (root : Component) (value : String) : PageOptions :=
  match (root.states.get? routeState).bind fun s => s.values.find? fun v => v.value == value with
  | some { pageOptions := some options, .. } => options
  | _ => {}

/-- Whether the route has a value at the start. -/
def startsAt (root : Component) (value : String) : Bool :=
  match root.states.get? routeState with
  | some s => s.default.display == value
  | none => false

/-- A node as the root of a component: inside an element if it cannot be one. -/
def wrapRoot (node : Node) : Node :=
  if node.isRoot then node else .element { tag := "div", children := [node] }

/-- The page that shows a node for a value of the route. It has all props, states and tokens of the
root but for the route itself. -/
def page (root : Component) (value : String) (node : Node) : Page :=
  let options := root.pageOptions value
  let name := options.componentName.getD value
  let fileName := options.fileName.getD (kebabName name)
  let path := match options.navLink with
    | some link => link
    | none => if root.startsAt value then "/" else "/" ++ fileName
  { path
    fileName
    component := {
      name
      node := wrapRoot node
      props := root.props
      states := root.states.filter fun state => state.1 != routeState
      tokens := root.tokens } }

/-- The page of a node, if it is shown for one value of the route. -/
def page? (root : Component) : Node → Option Page
  | .conditional c =>
    if c.subject.kind = .state ∧ c.subject.id = routeState then
      c.value.map fun value => root.page value.display c.node
    else none
  | _ => none

/-- The pages of a root. A root without routes is a page itself. -/
def pages (root : Component) : List Page :=
  match root.pageNodes.filterMap root.page? with
  | [] => [{ path := "/", component := root, fileName := kebabName root.name }]
  | pages => pages

end Component

/-- The entry of a page in the router. -/
def Page.route (p : Page) : Route where
  path := p.path
  componentName := componentName p.component.name
  importPath := "./views/" ++ p.fileName

end ViewGen
