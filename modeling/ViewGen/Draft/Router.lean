import ViewGen.Draft.Basic
import ViewGen.Framework

/-!
# The router

The entry of an application: a router over its pages, put on the page that the browser loads.

## Main definitions

* `Route` — a page with its address
* `routerPass` — the pass
-/

namespace ViewGen

/-- A page with its address and the module that it is imported from. -/
structure Route where
  path : String
  componentName : String
  importPath : String

/-- The name of the application. -/
def appName : String := "App"

/-- Something that the package of the router exports. -/
def routerExport (name : String) : Dependency :=
  { Dependency.package "react-router-dom" (some routerVersion) with
    named := true
    importAlias := some name }

/-- The element of a route. -/
def routeMarkup (route : String) (path page : String) : Markup :=
  { name := route
    attributes := [("exact", .flag), ("path", .text path), ("component", .expr (.ident page))]
    selfClosing := true }

/-- Import the pages and add an element for each of them. -/
def Draft.addRoutes (route : String) : Draft → List Route → List MarkupChild × Draft
  | d, [] => ([], d)
  | d, r :: rest =>
    let (page, d) := d.register r.componentName (.ofProject r.importPath)
    let id := d.arena.size
    let d := d.withArena (d.arena.push (routeMarkup route r.path page))
    let (children, d) := Draft.addRoutes route d rest
    (.element id :: children, d)

/-- Declare the application as a router over its pages and put it on the page. -/
def Draft.declareRouter (routes : List Route) (d : Draft) : Except GenError Draft := do
  let d ← d.reserve appName
  let (_, d) := d.register "React" (.package "react" reactVersion)
  let (reactDom, d) := d.register "ReactDOM" (.package "react-dom" reactVersion)
  let (router, d) := d.register "Router" (routerExport "BrowserRouter")
  let (route, d) := d.register "Route" (routerExport "Route")
  let (children, d) := d.addRoutes route routes
  let pages := d.arena.size
  let app := pages + 1
  let element := app + 1
  let d := d.withArena (((d.arena.push { name := "div", children }).push
    { name := router, children := [.element pages] }).push
    { name := appName, selfClosing := true })
  let d := d.put (.script ChunkName.router
    [.constant (.name appName) (.arrowBlock [] [.returning (.element app)])] ChunkName.imports)
  let render : Expr := .call (.member (.ident reactDom) "render")
    [.element element, .call (Expr.path "document.getElementById") [.str "app"]]
  return d.put (.script ChunkName.render [.expr render] [ChunkName.router])

/-- Declare the application as a router over its pages. -/
def routerPass (routes : List Route) : Pass where
  name := "react-router"
  run := Draft.declareRouter routes

end ViewGen
