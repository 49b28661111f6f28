import ViewGen.Proofs.EntryText

/-!
# The entry of a project

The entry has a line for each page.  Whatever the pages are called, the component of a line is
imported from the view of its page.

## Main statements

* `bound_routerTable` — the names of pages are bound to the imports of their modules
* `exists_view` — the script of a page is a file of the project
* `entry_matches_views` — the lines of the entry lead to the views

## Design notes

The names of pages are not computed: a page that is called like the application, like an element of
the router or like another page is imported under another name.  All that matters is that the name
in the line of a page is the one that its import was given.
-/

namespace ViewGen

/-! ## The entry and the views -/

theorem proper_routerImports : routerImports.Proper :=
  ⟨by decide, by decide⟩

/-- The names of pages are bound to the imports of their modules, and none of them is the name of
the application. -/
theorem bound_routerTable {routes : List Route} {names : List String}
    (h : (routerTable routes).HoldsPages routes names) :
    List.Forall₂ (fun r name => name ≠ appName ∧
      ∃ d, (routerTable routes).entries.get? name = some d ∧
        d.kind = .project ∧ d.path = r.importPath ∧ d.named = false) routes names := by
  have hgrows := grows_routerTable routes
  have hproper : (routerTable routes).Proper := hgrows.proper proper_routerImports
  have hreserved : appName ∈ (routerTable routes).reserved :=
    hgrows.reserved.subset List.mem_cons_self
  refine h.imp fun r name hholds => ⟨?_, ?_⟩
  · rintro rfl
    exact hproper.notMem_reserved hholds hreserved
  · obtain ⟨d, hd, hsame⟩ := ImportTable.holds_iff.mp hholds
    obtain ⟨hkind, hpath, hnamed, -⟩ := Dependency.sameImport_iff.mp hsame
    exact ⟨d, hd, hkind, hpath, hnamed⟩

namespace ProjectGenerator

theorem Compiled.exists_result {g : ProjectGenerator} {jobs : List Job}
    {compiled : List (Job × CompiledComponent)} (h : g.Compiled jobs compiled) {j : Job}
    (hj : j ∈ jobs) :
    ∃ c, (j, c) ∈ compiled ∧ g.generator.compile j.component j.fileName = .ok c := by
  induction h with
  | nil => exact absurd hj List.not_mem_nil
  | cons hjob _ ih =>
      rcases List.mem_cons.mp hj with rfl | hrest
      · obtain ⟨rfl, hcompile⟩ := hjob
        exact ⟨_, List.mem_cons_self, hcompile⟩
      · obtain ⟨c, hc, hcompile⟩ := ih hrest
        exact ⟨c, List.mem_cons_of_mem _ hc, hcompile⟩

/-- The script of a page is a file of the project. -/
theorem exists_view {o : GeneratorOptions} {g : ProjectGenerator} (hg : ofOptions o = .ok g)
    {p : Project} {compiled : List (Job × CompiledComponent)} (h : g.Compiled p.jobs compiled)
    (entry : CompiledComponent) {page : Page} (hpage : page ∈ p.root.pages) :
    ∃ c f, g.generator.compile page.component page.fileName = .ok c ∧ f ∈ c.files ∧
      f.within "src/views" ∈ (p.generated compiled entry).files ∧
      (f.within "src/views").path = "src/views/" ++ page.fileName ++ ".js" := by
  have hjob : page.job ∈ p.jobs := List.mem_append_left _ (List.mem_map_of_mem hpage)
  obtain ⟨c, hc, hcompile⟩ := h.exists_result hjob
  obtain ⟨hframework, rfl⟩ := ofOptions_iff.mp hg
  obtain ⟨f, hf, hpath⟩ :=
    (namedAfter_of_compile (o := { o with fileName := none }) hframework hcompile).exists_script
  refine ⟨c, f, hcompile, hf, ?_, ?_⟩
  · refine List.mem_append_left _ (List.mem_append_left _ (List.mem_flatMap.mpr ?_))
    exact ⟨(page.job, c), hc, List.mem_map_of_mem hf⟩
  · show "src/views" ++ "/" ++ f.path = _
    rw [hpath]
    apply String.toList_inj.mp
    simp [filePath, Page.job, FileType.extension, String.toList_append]

/-- The files of an entry are the only ones with its path. -/
theorem mem_entry_iff {o : GeneratorOptions} {g : ProjectGenerator} (hg : ofOptions o = .ok g)
    {p : Project} {compiled : List (Job × CompiledComponent)} (h : g.Compiled p.jobs compiled)
    {entry : CompiledComponent} (hentry : ∀ f ∈ entry.files, f.path = "src/index.js")
    (f : GeneratedFile) :
    f ∈ entry.files ↔ f ∈ (p.generated compiled entry).files ∧ f.path = "src/index.js" := by
  constructor
  · intro hf
    exact ⟨List.mem_append_left _ (List.mem_append_right _ hf), hentry f hf⟩
  · rintro ⟨hf, hpath⟩
    have hmanifest : "package.json" ≠ "src/index.js" := by decide
    have hindex : "public/index.html" ≠ "src/index.js" := by decide
    rcases List.mem_append.mp hf with hf | hf
    · rcases List.mem_append.mp hf with hf | hf
      · exact absurd hpath (h.path_ne hg hf List.mem_cons_self .js)
      · exact hf
    · rcases List.mem_pair.mp hf with rfl | rfl
      · exact absurd hpath hmanifest
      · exact absurd hpath hindex

/-- The name that a page is imported under has no backslash in it. -/
theorem bareNames_pages (root : Component) :
    (routerTable (root.pages.map Page.route)).BareNames := by
  refine bareNames_routerTable fun r hr => ?_
  obtain ⟨page, -, rfl⟩ := List.mem_map.mp hr
  simp only [Page.route]
  exact Literal.bare_of_isIdentifier (isIdentifier_componentName page.component.name)

/-- **The entry matches the views.**  The script of the entry is one file.  Its text is the imports,
the application with one line for each page, in the order of the pages, and the call that puts it on
the page, with blank lines between them and one line feed at the end.  The component of a line is
imported from the module of its page, under a name that is not the one of the application, and the
script of the page is a file of the project. -/
theorem entry_matches_views (o : GeneratorOptions) (g : ProjectGenerator)
    (hg : ofOptions o = .ok g) (p : Project) (r : GeneratedProject) (h : g.generate p = .ok r) :
    ∃ entry names,
      g.entry p.root (p.root.pages.map Page.route) = .ok entry ∧
      entry.files = [⟨"src/index.js", .js,
        "\n\n".intercalate (entry.imports.texts ⟨2, o.asciiOnly⟩ ++
          [appText (List.zipWith (fun page name => page.route.text ⟨2, o.asciiOnly⟩ name)
            p.root.pages names), renderText]) ++ "\n"⟩] ∧
      (∀ f, f ∈ entry.files ↔ f ∈ r.files ∧ f.path = "src/index.js") ∧
      List.Forall₂ (fun page name =>
        (∃ c f, g.generator.compile page.component page.fileName = .ok c ∧ f ∈ c.files ∧
          f.within "src/views" ∈ r.files ∧
          (f.within "src/views").path = "src/views/" ++ page.fileName ++ ".js") ∧
        name ≠ appName ∧
        ∃ d, entry.imports.entries.get? name = some d ∧ d.kind = .project ∧
          d.path = "./views/" ++ page.fileName ∧ d.named = false)
        p.root.pages names := by
  obtain ⟨-, compiled, entry, hcompiled, hentry, rfl⟩ := generate_iff.mp h
  obtain ⟨names, hmade, hpages⟩ := g.exists_entry p.root (p.root.pages.map Page.route)
  obtain rfl := Except.ok.inj (hmade.symm.trans hentry)
  have hemission : g.generator.emission = (Generator.ofOptions o).emission := by
    obtain ⟨-, rfl⟩ := ofOptions_iff.mp hg
    rfl
  have hroutes : p.root.pages.map Page.route ≠ [] := by
    simpa using p.root.pages_ne_nil
  have hfiles := files_ofEntry (e := (Generator.ofOptions o).emission) rfl p.root hroutes hpages
    "src/index"
  rw [← hemission] at hfiles
  refine ⟨_, names, hentry, ?_, mem_entry_iff hg hcompiled ?_, ?_⟩
  · rw [hfiles, hemission, Generator.assemble_entryTexts o hpages (bareNames_pages p.root),
      entryTexts, List.zipWith_map_left]
    rfl
  · intro f hf
    rw [hfiles] at hf
    rw [List.mem_singleton.mp hf]
    rfl
  · refine (List.forall₂_and_left _ _).mpr ⟨fun page hpage => exists_view hg hcompiled _ hpage, ?_⟩
    exact List.forall₂_map_left_iff.mp (bound_routerTable hpages)

/-- An application with two pages, named like the application and like the element of a route. -/
def namesakes : Project where
  name := "Shop"
  root := {
    name := "App"
    states := [(routeState, { type := .string, default := .text "App" })]
    node := .element {
      tag := "div"
      children := ["App", "Route"].map fun value => .conditional {
        node := .element { tag := "p" }
        subject := ⟨routeState, .state⟩
        value := some (.text value) } } }

/-- The text of the entry of this application. -/
def namesakesText : String :=
  "import React from 'react';\nimport ReactDOM from 'react-dom';\n" ++
  "import \x7b BrowserRouter as Router, Route \x7d from 'react-router-dom';\n\n" ++
  "import ViewsAppApp from './views/app';\nimport ViewsRouteRoute from './views/route';\n\n" ++
  "const App = () => \x7b\n  return (\n    <Router>\n      <div>\n" ++
  "        <Route exact path=\"/\" component=\x7bViewsAppApp\x7d />\n" ++
  "        <Route exact path=\"/route\" component=\x7bViewsRouteRoute\x7d />\n" ++
  "      </div>\n    </Router>\n  );\n\x7d;\n\n" ++
  "ReactDOM.render(<App />, document.getElementById('app'));\n"

/-- Both pages have a line in the entry, under names that are not the one of the application. -/
theorem namesakes_entry_matches_views :
    ∃ g r entry, ofOptions {} = .ok g ∧ g.generate namesakes = .ok r ∧
      g.entry namesakes.root (namesakes.root.pages.map Page.route) = .ok entry ∧
      (∀ f, f ∈ r.files ∧ f.path = "src/index.js" ↔ f = ⟨"src/index.js", .js, namesakesText⟩) ∧
      (∃ d, entry.imports.entries.get? "ViewsAppApp" = some d ∧ d.path = "./views/app") ∧
      (∃ d, entry.imports.entries.get? "ViewsRouteRoute" = some d ∧ d.path = "./views/route") ∧
      (∃ f ∈ r.files, f.path = "src/views/app.js") ∧
      ∃ f ∈ r.files, f.path = "src/views/route.js" := by
  have hg : ofOptions {} = .ok _ := ofOptions_iff.mpr ⟨by decide, rfl⟩
  obtain ⟨r, hr⟩ := exists_generate hg (rfl : namesakes.resolve = .ok ())
  obtain ⟨entry, names, hentry, hfiles, hindex, hnames⟩ :=
    entry_matches_views {} _ hg namesakes r hr
  -- There are two pages, and so there are two names.
  obtain ⟨home, rest, ⟨⟨_, f, -, -, hf, hpath⟩, -, d, hd, -, hsource, -⟩, hrest, rfl⟩ :=
    List.forall₂_cons_left_iff.mp hnames
  obtain ⟨other, last, ⟨⟨_, f', -, -, hf', hpath'⟩, -, d', hd', -, hsource', -⟩, hlast, rfl⟩ :=
    List.forall₂_cons_left_iff.mp hrest
  obtain rfl := List.forall₂_nil_left_iff.mp hlast
  -- The names can be read off the table, where each module stands once.
  have htable : entry.imports = routerTable (namesakes.root.pages.map Page.route) := by
    obtain ⟨_, hmade, -⟩ := exists_entry _ namesakes.root (namesakes.root.pages.map Page.route)
    rw [← Except.ok.inj (hmade.symm.trans hentry)]
  have hmodules : ∀ entry ∈ (routerTable (namesakes.root.pages.map Page.route)).entries,
      (entry.2.path = "./views/app" → entry.1 = "ViewsAppApp") ∧
        (entry.2.path = "./views/route" → entry.1 = "ViewsRouteRoute") := by
    decide +kernel
  rw [← htable] at hmodules
  obtain rfl : home = "ViewsAppApp" := (hmodules _ (Dict.mem_of_get? hd)).1 hsource
  obtain rfl : other = "ViewsRouteRoute" := (hmodules _ (Dict.mem_of_get? hd')).2 hsource'
  refine ⟨_, r, entry, hg, hr, hentry, fun f => ?_, ⟨d, hd, hsource⟩, ⟨d', hd', hsource'⟩,
    ⟨_, hf, hpath⟩, _, hf', hpath'⟩
  have hfile : entry.files = [⟨"src/index.js", .js, namesakesText⟩] := by
    have htext : "\n\n".intercalate
        ((routerTable (namesakes.root.pages.map Page.route)).texts
            ⟨2, ({} : GeneratorOptions).asciiOnly⟩ ++
          [appText (List.zipWith
            (fun page name => page.route.text ⟨2, ({} : GeneratorOptions).asciiOnly⟩ name)
            namesakes.root.pages ["ViewsAppApp", "ViewsRouteRoute"]), renderText]) ++ "\n" =
          namesakesText := by
      decide +kernel
    rw [hfiles, htable, htext]
  rw [← hindex f, hfile, List.mem_singleton]

end ProjectGenerator

end ViewGen
