import ViewGen.Draft.Router
import ViewGen.Import.Declarations
import ViewGen.Proofs.DraftInvariants
import ViewGen.Proofs.ImportStatements
import ViewGen.Proofs.TagBindings

/-!
# What the router pass leaves

The router pass starts with an empty draft, so what it leaves can be written down: the element of
every route, one element around them, the router around that, and the application itself.  Only the
names of the pages depend on the routes, and each of them is bound to the import of its page.

## Main definitions

* `Arena.pushAll` — several elements added one after the other
* `Route.registration`, `routerTable` — the import of a page, and those of a router with its pages
* `ImportTable.HoldsPages` — every name is bound to the import of its page
* `Draft.ofRouter`, `Draft.ofEntry` — the drafts that the router pass and all passes of an entry
  leave, given the names of the pages

## Main statements

* `exists_addRoutes` — every route is answered by an import and by an element
* `exists_ofRouter` — the router pass succeeds on every list of routes
* `exists_ofEntry` — and so do the passes of an entry
-/

namespace ViewGen

/-! ## Elements one after the other -/

namespace Arena

/-- Several elements added one after the other. -/
def pushAll (a : Arena) (elements : List Markup) : Arena :=
  elements.foldl push a

theorem pushAll_append (a : Arena) (elements others : List Markup) :
    a.pushAll (elements ++ others) = (a.pushAll elements).pushAll others :=
  List.foldl_append

theorem size_pushAll (a : Arena) (elements : List Markup) :
    (a.pushAll elements).size = a.size + elements.length := by
  induction elements generalizing a with
  | nil => rfl
  | cons m rest ih =>
      have hrest := ih (a.push m)
      rw [size_push] at hrest
      rw [List.length_cons, Nat.add_comm rest.length, ← Nat.add_assoc]
      exact hrest

/-- Elements that refer to no other can be added at any time. -/
theorem grows_pushAll (a : Arena) {elements : List Markup}
    (h : ∀ m ∈ elements, m.elementIds = []) : a.Grows (a.pushAll elements) := by
  induction elements generalizing a with
  | nil => exact .refl a
  | cons m rest ih =>
      obtain ⟨hm, hrest⟩ := List.forall_mem_cons.mp h
      have hpush : a.Grows (a.push m) := by
        refine ⟨a.extends_push m, fun hdescends => hdescends.push fun inner hinner => ?_⟩
        rw [hm] at hinner
        exact absurd hinner List.not_mem_nil
      exact hpush.trans (ih (a.push m) hrest)

end Arena

/-! ## Routes -/

/-- The elements of routes whose pages have the given names. -/
def routeElements (route : String) (routes : List Route) (names : List String) : List Markup :=
  List.zipWith (fun r name => routeMarkup route r.path name) routes names

/-- The import of a page. -/
def Route.registration (r : Route) : ImportTable.Step :=
  .register r.componentName (.ofProject r.importPath)

/-- Every name is bound to the import of its page. -/
def ImportTable.HoldsPages (t : ImportTable) (routes : List Route) (names : List String) : Prop :=
  List.Forall₂ (fun r name => t.holds name (.ofProject r.importPath) = true) routes names

/-- **Every route is answered by an import and by an element**, in the order of the routes. -/
theorem exists_addRoutes (route : String) (routes : List Route) (d : Draft) :
    ∃ names,
      d.addRoutes route routes = ((List.range' d.arena.size routes.length).map .element,
        (d.withImports (d.imports.after (routes.map Route.registration))).withArena
          (d.arena.pushAll (routeElements route routes names))) ∧
      (d.imports.after (routes.map Route.registration)).HoldsPages routes names := by
  induction routes generalizing d with
  | nil => exact ⟨[], rfl, .nil⟩
  | cons r rest ih =>
      let bound := d.imports.register r.componentName (.ofProject r.importPath)
      have hbound : bound.2.holds bound.1 (.ofProject r.importPath) = true :=
        d.imports.holds_register _ _
      let next := (d.withImports bound.2).withArena
        (d.arena.push (routeMarkup route r.path bound.1))
      obtain ⟨names, hrest, hnames⟩ := ih next
      have hgrows : bound.2.Grows (next.imports.after (rest.map Route.registration)) :=
        bound.2.grows_after _
      refine ⟨bound.1 :: names, ?_, .cons ?_ hnames⟩
      · have hstep : d.addRoutes route (r :: rest) =
            (.element d.arena.size :: (next.addRoutes route rest).1,
              (next.addRoutes route rest).2) := rfl
        have hsize : next.arena.size = d.arena.size + 1 := Arena.size_push _ _
        rw [hstep, hrest, hsize]
        rfl
      · exact ImportTable.holds_of_grows hgrows (Dependency.sameImport_refl _) hbound

theorem length_routeElements {t : ImportTable} {routes : List Route} {names : List String}
    (h : t.HoldsPages routes names) (route : String) :
    (routeElements route routes names).length = routes.length := by
  rw [routeElements, List.length_zipWith, ← h.length_eq, Nat.min_self]

theorem elementIds_routeElements (route : String) (routes : List Route) (names : List String) :
    ∀ m ∈ routeElements route routes names, m.elementIds = [] := by
  intro m hm
  rw [routeElements, ← List.map_uncurry_zip_eq_zipWith] at hm
  obtain ⟨pair, -, rfl⟩ := List.mem_map.mp hm
  rfl

/-! ## The draft -/

/-- The imports of a router without pages. -/
def routerImports : ImportTable where
  entries := [("React", .package "react" reactVersion),
    ("ReactDOM", .package "react-dom" reactVersion),
    ("Router", routerExport "BrowserRouter"),
    ("Route", routerExport "Route")]
  reserved := [appName]

/-- The imports of a router over pages. -/
def routerTable (routes : List Route) : ImportTable :=
  routerImports.after (routes.map Route.registration)

theorem grows_routerTable (routes : List Route) : routerImports.Grows (routerTable routes) :=
  routerImports.grows_after _

/-- The elements of a router: the routes, one around them, the router and the application. -/
def routerElements (routes : List Route) (names : List String) : List Markup :=
  routeElements "Route" routes names ++
    [{ name := "div", children := (List.range' 0 routes.length).map .element },
      { name := "Router", children := [.element routes.length] },
      { name := appName, selfClosing := true }]

/-- The arena of a router. -/
def routerArena (routes : List Route) (names : List String) : Arena :=
  .pushAll {} (routerElements routes names)

/-- The application as a constant; `element` is its router. -/
def routerChunk (element : ElementId) : Chunk :=
  .script ChunkName.router
    [.constant (.name appName) (.arrowBlock [] [.returning (.element element)])] ChunkName.imports

/-- What puts an element on the page. -/
def renderChunk (element : ElementId) : Chunk :=
  .script ChunkName.render
    [.expr (.call (.member (.ident "ReactDOM") "render")
      [.element element, .call (Expr.path "document.getElementById") [.str "app"]])]
    [ChunkName.router]

/-- Put a router around elements and declare it as the application. -/
def Draft.mount (d : Draft) (children : List MarkupChild) : Draft :=
  ((d.withArena (((d.arena.push { name := "div", children }).push
    { name := "Router", children := [.element d.arena.size] }).push
    { name := appName, selfClosing := true })).put (routerChunk (d.arena.size + 1))).put
    (renderChunk (d.arena.size + 2))

/-- The draft that the router pass leaves, given the names of the pages. -/
def Draft.ofRouter (root : Component) (fileName : String) (routes : List Route)
    (names : List String) (imports : ImportTable) : Draft where
  component := root
  fileName := fileName
  chunks := [routerChunk (routes.length + 1), renderChunk (routes.length + 2)]
  workspace := { imports, arena := routerArena routes names }

/-- **The router pass succeeds on every list of routes.** -/
theorem exists_ofRouter (root : Component) (fileName : String) (routes : List Route) :
    ∃ names,
      (routerPass routes).run { component := root, fileName } =
        .ok (.ofRouter root fileName routes names (routerTable routes)) ∧
      (routerTable routes).HoldsPages routes names := by
  -- In an empty draft the name of the application is free, and so are the names of the packages.
  let start : Draft := { component := root, fileName, workspace := { imports := routerImports } }
  have hstart : (routerPass routes).run { component := root, fileName } =
      .ok ((start.addRoutes "Route" routes).2.mount (start.addRoutes "Route" routes).1) := rfl
  obtain ⟨names, hroutes, hnames⟩ := exists_addRoutes "Route" routes start
  refine ⟨names, ?_, hnames⟩
  have hsize : ((start.withImports (routerTable routes)).withArena
      (start.arena.pushAll (routeElements "Route" routes names))).arena.size = routes.length := by
    refine (Arena.size_pushAll _ _).trans ?_
    rw [length_routeElements hnames]
    exact Nat.zero_add _
  rw [hstart, hroutes, Draft.ofRouter, routerArena, routerElements, Arena.pushAll_append]
  dsimp only
  rw [Draft.mount, show start.imports.after _ = routerTable routes from rfl, hsize]
  rfl

/-! ## The entry -/

/-- The chunk of imports for one kind of dependency, if there are any. -/
def ImportTable.chunk? (t : ImportTable) (name : String) (kind : DependencyKind)
    (after : List String) : Option Chunk :=
  match importDeclarations kind t with
  | [] => none
  | declarations => some (.script name (declarations.map .importing) after)

/-- The chunks of all imports. -/
def ImportTable.chunks (t : ImportTable) : List Chunk :=
  (t.chunk? ChunkName.packageImports .package []).toList ++
    (t.chunk? ChunkName.customImports .custom [ChunkName.packageImports]).toList ++
    (t.chunk? ChunkName.projectImports .project
      [ChunkName.packageImports, ChunkName.customImports]).toList

theorem ImportTable.chunk?_cases (t : ImportTable) (name : String) (kind : DependencyKind)
    (after : List String) :
    t.chunk? name kind after = none ∨
      ∃ statements, t.chunk? name kind after = some (.script name statements after) := by
  rw [chunk?]
  split
  · exact .inl rfl
  · exact .inr ⟨_, rfl⟩

theorem Draft.putImports_eq {d : Draft} {t : ImportTable} (h : d.imports = t) (name : String)
    (kind : DependencyKind) (after : List String) :
    d.putImports name kind after = ((t.chunk? name kind after).map d.put).getD d := by
  rw [putImports, ImportTable.chunk?, h]
  cases importDeclarations kind t with
  | nil => rfl
  | cons declaration rest => rfl

/-- The draft of an entry: the imports, the application, and what puts it on the page. -/
def Draft.ofEntry (root : Component) (fileName : String) (routes : List Route)
    (names : List String) (imports : ImportTable) : Draft :=
  { Draft.ofRouter root fileName routes names imports with
    chunks := imports.chunks ++
      [routerChunk (routes.length + 1), renderChunk (routes.length + 2)] }

/-- The imports come before the application, whichever kinds of them there are. -/
theorem runPasses_ofRouter (root : Component) (fileName : String) (routes : List Route)
    (names : List String) (imports : ImportTable) :
    runPasses [importPass] (.ofRouter root fileName routes names imports) =
      .ok (.ofEntry root fileName routes names imports) := by
  refine runPasses_cons_iff.mpr ⟨_, rfl, ?_⟩
  have hsame : (Draft.ofRouter root fileName routes names imports).imports = imports := rfl
  rw [Draft.putImports_eq ((Draft.imports_putImports _ _ _ _).trans
      ((Draft.imports_putImports _ _ _ _).trans hsame)),
    Draft.putImports_eq ((Draft.imports_putImports _ _ _ _).trans hsame),
    Draft.putImports_eq hsame, Draft.ofEntry, ImportTable.chunks]
  rcases imports.chunk?_cases ChunkName.packageImports .package [] with h₁ | ⟨s₁, h₁⟩ <;>
  rcases imports.chunk?_cases ChunkName.customImports .custom [ChunkName.packageImports]
    with h₂ | ⟨s₂, h₂⟩ <;>
  rcases imports.chunk?_cases ChunkName.projectImports .project
    [ChunkName.packageImports, ChunkName.customImports] with h₃ | ⟨s₃, h₃⟩ <;>
  · rw [h₁, h₂, h₃]
    rfl

/-- **The passes of an entry succeed on every list of routes.** -/
theorem exists_ofEntry (root : Component) (fileName : String) (routes : List Route) :
    ∃ names,
      runPasses [routerPass routes, importPass] { component := root, fileName } =
        .ok (.ofEntry root fileName routes names (routerTable routes)) ∧
      (routerTable routes).HoldsPages routes names := by
  obtain ⟨names, hrouter, hnames⟩ := exists_ofRouter root fileName routes
  have himports := runPasses_ofRouter root fileName routes names (routerTable routes)
  exact ⟨names, runPasses_cons_iff.mpr ⟨_, hrouter, himports⟩, hnames⟩

end ViewGen
