import ViewGen.Proofs.EmittedFiles
import ViewGen.Proofs.KebabNames
import ViewGen.Proofs.ProjectFiles
import ViewGen.Proofs.ScriptDecoding

/-!
# The text of an entry

The script of the entry of a project is known down to its text: the imports, the application with
one line for each page, and the call that puts it on the page.  What the built-in processors do to
this text is known as well.  They end it with a line feed, and they decode the escapes in its
literals if there are to be any characters outside ASCII.  Nothing else of it changes, since there is
no backslash outside of literals: the names of pages are made of letters and digits.

## Main definitions

* `Route.text` — the line of a route
* `appText`, `renderText` — the application with the given lines, and the call
* `entryTexts` — the imports, the application and the call
* `ImportTable.BareNames` — no backslash is in a name that an import statement prints

## Main statements

* `fileText_routerChunk` — the application is printed with one line for each route
* `files_ofEntry` — the one file of an entry
* `bareNames_routerTable` — registering pages adds no backslash
* `unescapes_entryTexts` — what the texts of an entry decode to
* `Generator.assemble_entryTexts` — the text of the file
-/

namespace ViewGen

/-! ## The elements of a router -/

namespace Arena

theorem toList_pushAll (a : Arena) (elements : List Markup) :
    (a.pushAll elements).elements.toList = a.elements.toList ++ elements := by
  induction elements generalizing a with
  | nil => exact (List.append_nil _).symm
  | cons m rest ih =>
      have hrest := ih (a.push m)
      rw [push, Array.toList_push, List.append_assoc, List.singleton_append] at hrest
      exact hrest

theorem get?_pushAll_empty (elements : List Markup) (id : ElementId) :
    (pushAll {} elements).get? id = elements[id]? := by
  rw [get?, ← Array.getElem?_toList, toList_pushAll]
  rfl

end Arena

section

variable {t : ImportTable} {routes : List Route} {names : List String}

theorem descends_routerArena (h : t.HoldsPages routes names) :
    (routerArena routes names).Descends := by
  have hroutes : (Arena.pushAll {} (routeElements "Route" routes names)).Descends :=
    (Arena.grows_pushAll {} (elementIds_routeElements "Route" routes names)).descends
      Arena.descends_empty
  have hsize : (Arena.pushAll {} (routeElements "Route" routes names)).size = routes.length := by
    rw [Arena.size_pushAll, length_routeElements h]
    exact Nat.zero_add _
  rw [routerArena, routerElements, Arena.pushAll_append]
  refine ((hroutes.push fun inner hinner => ?_).push fun inner hinner => ?_).push
    fun inner hinner => absurd hinner List.not_mem_nil
  · rw [hsize]
    simpa [Markup.elementIds, MarkupChild.elementIds, List.flatMap_map] using hinner
  · have heq : inner = routes.length := by
      simpa [Markup.elementIds, MarkupChild.elementIds] using hinner
    rw [Arena.size_push, hsize, heq]
    exact Nat.lt_succ_self _

theorem get?_routerArena (routes : List Route) (names : List String) (id : ElementId) :
    (routerArena routes names).get? id = (routerElements routes names)[id]? :=
  Arena.get?_pushAll_empty _ id

/-- The elements after those of the routes. -/
theorem get?_routerArena_last (h : t.HoldsPages routes names) (i : Nat) :
    (routerArena routes names).get? (routes.length + i) =
      [{ name := "div", children := (List.range' 0 routes.length).map .element },
        { name := "Router", children := [.element routes.length] },
        { name := appName, selfClosing := true }][i]? := by
  rw [get?_routerArena, routerElements, ← length_routeElements h "Route",
    List.getElem?_append_right (Nat.le_add_right _ _), Nat.add_sub_cancel_left]

end

/-! ## Texts -/

/-- The line of a route. -/
def Route.text (style : Style) (r : Route) (name : String) : String :=
  "<Route exact path=" ++ textValue style r.path ++ " component=" ++ braced name ++ " />"

/-- An application with the given lines in its router. -/
def appText (lines : List String) : String :=
  "const App = () => \x7b\n  return (\n    <Router>\n      <div>" ++
    String.join (lines.map ("\n        " ++ ·)) ++
    "\n      </div>\n    </Router>\n  );\n\x7d;"

/-- The call that puts an application on the page. -/
def renderText : String :=
  "ReactDOM.render(<App />, document.getElementById('app'));"

theorem Route.text_routeMarkup (r : Route) (name : String) (element : ElementId → Nat → String)
    (level : Nat) : (routeMarkup "Route" r.path name).text {} element level = r.text {} name := by
  unfold Route.text
  apply String.toList_inj.mp
  simp [Markup.text, routeMarkup, attributeText, Expr.text, String.join, String.toList_append]

/-- An element around other elements is printed with a line for each of them. -/
theorem Arena.Descends.elementText_around {a : Arena} (h : a.Descends) {id : ElementId}
    {name : String} {ids : List ElementId} (hids : ids ≠ [])
    (hget : a.get? id = some { name, children := ids.map .element }) (style : Style)
    (level : Nat) :
    a.elementText style a.size id level =
      "<" ++ name ++ ">" ++
        String.join (ids.map fun id =>
          "\n" ++ style.pad (level + 1) ++ a.elementText style a.size id (level + 1)) ++
        "\n" ++ style.pad level ++ "</" ++ name ++ ">" := by
  have hempty : (ids.map MarkupChild.element).isEmpty = false := by
    simpa using hids
  have htext : (ids.map MarkupChild.element).any MarkupChild.isText = false := by
    rw [List.any_map]
    exact List.any_eq_false.mpr fun id _ => Bool.false_ne_true
  have hnone : ∀ s : String, s ++ String.join [] = s := fun _ => String.append_empty
  rw [h.elementText_eq hget, Markup.text]
  simp only [hempty, htext, Bool.false_eq_true, if_false, List.map_nil, hnone, List.map_map,
    String.append_assoc]
  rfl

/-- Elements that are side by side in a descending arena are printed one after the other. -/
theorem Arena.Descends.map_elementText {a : Arena} (h : a.Descends) {elements : List Markup}
    (hget : ∀ i m, elements[i]? = some m → a.get? i = some m) (style : Style) (level : Nat) :
    (List.range' 0 elements.length).map (fun id => a.elementText style a.size id level) =
      elements.map fun m => m.text style (a.elementText style a.size) level := by
  apply List.ext_getElem
  · simp
  · intro i hi hi'
    rw [List.getElem_map, List.getElem_map, List.getElem_range', Nat.one_mul, Nat.zero_add]
    exact h.elementText_eq (hget i _ (List.getElem?_eq_getElem _)) level

section

variable {t : ImportTable} {routes : List Route} {names : List String}

/-- The lines of the routes. -/
theorem map_elementText_routes (h : t.HoldsPages routes names) (level : Nat) :
    (List.range' 0 routes.length).map (fun id =>
        (routerArena routes names).elementText {} (routerArena routes names).size id level) =
      List.zipWith (Route.text {}) routes names := by
  have hget : ∀ i m, (routeElements "Route" routes names)[i]? = some m →
      (routerArena routes names).get? i = some m := by
    intro i m hm
    rw [get?_routerArena, routerElements]
    obtain ⟨hlt, -⟩ := List.getElem?_eq_some_iff.mp hm
    exact (List.getElem?_append_left hlt).trans hm
  rw [← length_routeElements h "Route", (descends_routerArena h).map_elementText hget,
    routeElements, List.map_zipWith]
  simp only [Route.text_routeMarkup]

/-- **The application is printed with one line for each route.** -/
theorem fileText_routerChunk (h : t.HoldsPages routes names) (hroutes : routes ≠ []) :
    (routerChunk (routes.length + 1)).fileText {} (routerArena routes names) =
      appText (List.zipWith (Route.text {}) routes names) := by
  have hdescends := descends_routerArena h
  let element := (routerArena routes names).elementText {} (routerArena routes names).size
  have hne : List.range' 0 routes.length ≠ [] := by
    simpa [List.range'_eq_nil_iff] using hroutes
  have hpages : element routes.length 3 =
      "<" ++ "div" ++ ">" ++ String.join ((List.range' 0 routes.length).map fun id =>
        "\n" ++ Style.pad {} 4 ++ element id 4) ++ "\n" ++ Style.pad {} 3 ++ "</" ++ "div" ++ ">" :=
    hdescends.elementText_around hne (get?_routerArena_last h 0) {} 3
  have hrouter : element (routes.length + 1) 2 =
      "<" ++ "Router" ++ ">" ++ String.join ([routes.length].map fun id =>
        "\n" ++ Style.pad {} 3 ++ element id 3) ++ "\n" ++ Style.pad {} 2 ++ "</" ++ "Router" ++
          ">" :=
    hdescends.elementText_around (List.cons_ne_nil _ _) (get?_routerArena_last h 1) {} 2
  have hlines : ((List.range' 0 routes.length).map fun id =>
      "\n" ++ Style.pad {} 4 ++ element id 4) =
        (List.zipWith (Route.text {}) routes names).map ("\n        " ++ ·) := by
    rw [← map_elementText_routes h 4, List.map_map]
    rfl
  have htext : (routerChunk (routes.length + 1)).fileText {} (routerArena routes names) =
      "const " ++ "App" ++ " = " ++ ("(" ++ "" ++ ") => " ++ "\x7b\n" ++
        (Style.pad {} 1 ++ ("return (\n" ++ Style.pad {} 2 ++ element (routes.length + 1) 2 ++
          "\n" ++ Style.pad {} 1 ++ ");") ++ "\n" ++ "") ++ Style.pad {} 0 ++ "\x7d") ++ ";" := rfl
  rw [htext, hrouter, List.map_singleton, hpages, hlines]
  unfold appText
  generalize String.join ((List.zipWith (Route.text {}) routes names).map ("\n        " ++ ·)) = lines
  apply String.toList_inj.mp
  simp [String.join, Style.pad, String.toList_append]

theorem fileText_renderChunk (h : t.HoldsPages routes names) :
    (renderChunk (routes.length + 2)).fileText {} (routerArena routes names) = renderText := by
  let element := (routerArena routes names).elementText {} (routerArena routes names).size
  have happ : element (routes.length + 2) 0 = "<App />" :=
    (descends_routerArena h).elementText_eq (get?_routerArena_last h 2) 0
  have htext : (renderChunk (routes.length + 2)).fileText {} (routerArena routes names) =
      "ReactDOM" ++ "." ++ "render" ++ "(" ++ ", ".intercalate [element (routes.length + 2) 0,
        "document" ++ "." ++ "getElementById" ++ "(" ++ ", ".intercalate [Style.literal {} "app"] ++
          ")"] ++ ")" ++ ";" := rfl
  rw [htext, happ]
  rfl

end

/-! ## The file -/

theorem ImportDeclaration.text_ne_empty (style : Style) (d : ImportDeclaration) :
    d.text style ≠ "" := by
  unfold text
  dsimp only
  split
  · simp
  · simp

/-- Import declarations are printed without a look at the arena. -/
theorem programText_importing (a : Arena) (style : Style) (declarations : List ImportDeclaration) :
    a.programText style (declarations.map .importing) =
      Arena.programText {} style (declarations.map .importing) := by
  induction declarations with
  | nil => rfl
  | cons d rest ih =>
      cases rest with
      | nil => rfl
      | cons e others =>
          rw [List.map_cons, List.map_cons, Arena.programText, Arena.programText, ← List.map_cons,
            ih]
          rfl

theorem programText_importing_ne_empty (style : Style) (d : ImportDeclaration)
    (rest : List ImportDeclaration) :
    Arena.programText {} style ((d :: rest).map .importing) ≠ "" := by
  have hfirst : Arena.statementText {} style (.importing d) ≠ "" := d.text_ne_empty style
  cases rest with
  | nil => exact hfirst
  | cons e others =>
      rw [List.map_cons, List.map_cons, Arena.programText]
      simp [hfirst]

/-- The texts of the imports, one for each kind of dependency that there is. -/
def ImportTable.texts (t : ImportTable) (style : Style) : List String :=
  t.chunks.map fun c => c.fileText style {}

/-- The texts of the script of an entry: the imports, the application and the call. -/
def entryTexts (style : Style) (routes : List Route) (names : List String)
    (imports : ImportTable) : List String :=
  imports.texts style ++ [appText (List.zipWith (Route.text style) routes names), renderText]

theorem ImportTable.exists_of_chunk? {t : ImportTable} {name : String} {kind : DependencyKind}
    {after : List String} {c : Chunk} (h : c ∈ (t.chunk? name kind after).toList) :
    ∃ d rest, importDeclarations kind t = d :: rest ∧
      c = .script name ((d :: rest).map .importing) after := by
  rw [chunk?] at h
  cases hdeclarations : importDeclarations kind t with
  | nil => simp [hdeclarations] at h
  | cons d rest => exact ⟨d, rest, rfl, by simpa [hdeclarations] using h⟩

theorem ImportTable.exists_of_mem_chunks {t : ImportTable} {c : Chunk} (h : c ∈ t.chunks) :
    ∃ kind name d rest after, importDeclarations kind t = d :: rest ∧
      c = .script name ((d :: rest).map .importing) after := by
  rw [chunks, List.mem_append, List.mem_append] at h
  rcases h with (h | h) | h
  all_goals
    obtain ⟨d, rest, hdeclarations, rfl⟩ := exists_of_chunk? h
    exact ⟨_, _, d, rest, _, hdeclarations, rfl⟩

/-- The texts of an entry with the given names of pages. -/
theorem texts_ofEntry {e : Emission} (hstyle : e.style = {}) {routes : List Route}
    (hroutes : routes ≠ []) {names : List String} {imports : ImportTable}
    (h : imports.HoldsPages routes names) :
    e.texts (routerArena routes names)
        (imports.chunks ++ [routerChunk (routes.length + 1), renderChunk (routes.length + 2)]) =
      entryTexts {} routes names imports := by
  have himports : imports.chunks.map (·.fileText {} (routerArena routes names)) =
      imports.texts {} := by
    refine List.map_congr_left fun c hc => ?_
    obtain ⟨_, name, d, rest, after, -, rfl⟩ := ImportTable.exists_of_mem_chunks hc
    exact programText_importing _ {} (d :: rest)
  rw [Emission.texts, hstyle, List.map_append, himports, List.map_cons, List.map_singleton,
    fileText_routerChunk h hroutes, fileText_renderChunk h, entryTexts, List.filter_eq_self]
  intro text htext
  rcases List.mem_append.mp htext with hline | hline
  · obtain ⟨c, hc, rfl⟩ := List.mem_map.mp hline
    obtain ⟨_, name, d, rest, after, -, rfl⟩ := ImportTable.exists_of_mem_chunks hc
    have hne : (Chunk.script name ((d :: rest).map .importing) after).fileText {} {} ≠ "" :=
      programText_importing_ne_empty {} d rest
    simpa using hne
  · rcases List.mem_pair.mp hline with rfl | rfl
    · unfold appText
      simp
    · decide

/-- The one file of an entry. -/
theorem files_ofEntry {e : Emission} (hstyle : e.style = {}) (root : Component)
    {routes : List Route} (hroutes : routes ≠ []) {names : List String} {imports : ImportTable}
    (h : imports.HoldsPages routes names) (fileName : String) :
    e.files (routerArena routes names) (Draft.ofEntry root "index" routes names imports).chunks
        fileName =
      [⟨filePath fileName .js, .js, e.assemble .js (entryTexts {} routes names imports)⟩] := by
  have hscripts : ∀ c ∈ (Draft.ofEntry root "index" routes names imports).chunks,
      c.fileType = .js := by
    intro c hc
    rcases List.mem_append.mp hc with hc | hc
    · obtain ⟨_, name, d, rest, after, -, rfl⟩ := ImportTable.exists_of_mem_chunks hc
      rfl
    · rcases List.mem_pair.mp hc with rfl | rfl <;> rfl
  have hjs : e.textsOf (routerArena routes names)
      (Draft.ofEntry root "index" routes names imports).chunks .js =
        entryTexts {} routes names imports := by
    rw [Emission.textsOf, List.filter_eq_self.mpr fun c hc => decide_eq_true (hscripts c hc)]
    exact texts_ofEntry hstyle hroutes h
  have hother : ∀ t, t ≠ .js → e.textsOf (routerArena routes names)
      (Draft.ofEntry root "index" routes names imports).chunks t = [] := by
    intro t ht
    rw [Emission.textsOf, List.filter_eq_nil_iff.mpr fun c hc => ?_]
    · rfl
    · simpa [hscripts c hc] using ht.symm
  rw [Emission.files_eq]
  simp [FileType.all, hjs, hother, entryTexts]

/-! ## Names without backslashes -/

open Literal (Bare Unescapes)

/-- The names that an import statement prints for a binding. -/
def ImportedName.verbatim (i : ImportedName) : List String :=
  i.bound :: i.imported.toList

theorem ImportDeclaration.mem_verbatim_iff {d : ImportDeclaration} {name : String} :
    name ∈ d.verbatim ↔ ∃ i ∈ d.names, name ∈ i.verbatim := by
  simp only [verbatim, names, List.mem_append, List.mem_flatMap, List.mem_map, ImportedName.verbatim]
  constructor
  · rintro (hdefault | ⟨specifier, hspecifier, hname⟩)
    · exact ⟨_, .inl ⟨name, hdefault, rfl⟩, by simp⟩
    · exact ⟨_, .inr ⟨specifier, hspecifier, rfl⟩, by simpa [or_comm] using hname⟩
  · rintro ⟨i, ⟨bound, hdefault, rfl⟩ | ⟨specifier, hspecifier, rfl⟩, hname⟩
    · obtain rfl : name = bound := by simpa using hname
      exact .inl hdefault
    · exact .inr ⟨specifier, hspecifier, by simpa [or_comm] using hname⟩

namespace ImportTable

variable {t : ImportTable}

/-- No backslash is in a name that an import statement prints. -/
def BareNames (t : ImportTable) : Prop :=
  ∀ entry ∈ t.entries, ∀ name ∈ (entry.2.importedName entry.1).verbatim, Bare name

theorem bare_register {name : String} (h : Bare name) (t : ImportTable) (d : Dependency) :
    Bare (t.register name d).1 := by
  intro hmem
  rcases mem_toList_register hmem with hname | halphanum
  · exact h hname
  · exact absurd halphanum (by decide)

/-- A default import under a name without backslashes can be registered. -/
theorem BareNames.register (h : t.BareNames) {name : String} (hname : Bare name) {d : Dependency}
    (hdefault : d.named = false) : (t.register name d).2.BareNames := by
  rcases t.register_cases name d with ⟨hregister, -⟩ | ⟨e, hsame, -, hregister⟩
  · rw [hregister]
    exact h
  · rw [hregister]
    refine List.forall_mem_append.mpr ⟨h, List.forall_mem_singleton.mpr ?_⟩
    have henamed : e.named = false :=
      (Dependency.sameImport_iff.mp hsame).2.2.1.trans hdefault
    have hbound : Bare (t.chosen name d) := t.register_fst name d ▸ bare_register hname t d
    simpa [Dependency.importedName_of_default henamed, ImportedName.verbatim] using hbound

/-- Registering pages adds no backslash. -/
theorem BareNames.after_pages {routes : List Route} (hroutes : ∀ r ∈ routes, Bare r.componentName)
    (h : t.BareNames) : (t.after (routes.map Route.registration)).BareNames := by
  induction routes generalizing t with
  | nil => exact h
  | cons r rest ih =>
      obtain ⟨hr, hrest⟩ := List.forall_mem_cons.mp hroutes
      exact ih hrest (h.register hr rfl)

/-- The declarations of a table print its names. -/
theorem BareNames.of_mem_importDeclarations (h : t.BareNames) {kind : DependencyKind}
    {d : ImportDeclaration} (hd : d ∈ importDeclarations kind t) :
    ∀ name ∈ d.verbatim, Bare name := by
  intro name hname
  obtain ⟨i, hi, hname⟩ := ImportDeclaration.mem_verbatim_iff.mp hname
  have hdeclared := (declares_importDeclarations kind t).names.mem_iff.mp
    (List.mem_flatMap_of_mem hd hi)
  obtain ⟨entry, hentry, rfl⟩ := List.mem_map.mp hdeclared
  exact h entry (List.mem_of_mem_filter hentry) name hname

end ImportTable

theorem bareNames_routerTable {routes : List Route} (h : ∀ r ∈ routes, Bare r.componentName) :
    (routerTable routes).BareNames := by
  have hrouter : routerImports.BareNames := by
    unfold ImportTable.BareNames
    decide
  exact hrouter.after_pages h

/-- The names of pages are bound, and so they have no backslashes. -/
theorem ImportTable.HoldsPages.bare {t : ImportTable} {routes : List Route} {names : List String}
    (h : t.HoldsPages routes names) (hbare : t.BareNames) : ∀ name ∈ names, Bare name := by
  induction h with
  | nil => exact fun _ hname => absurd hname List.not_mem_nil
  | @cons r name rest names hholds _ ih =>
      obtain ⟨d, hd, -⟩ := holds_iff.mp hholds
      have hname : Bare name := hbare (name, d) (Dict.mem_of_get? hd) name List.mem_cons_self
      exact List.forall_mem_cons.mpr ⟨hname, ih⟩

/-! ## Decoding -/

section

variable {width : Nat} {t : ImportTable} {routes : List Route} {names : List String}

/-- The texts of imports differ in the literals of their modules. -/
theorem ImportTable.BareNames.unescapes_texts (h : t.BareNames) :
    List.Forall₂ Unescapes (t.texts ⟨width, true⟩) (t.texts ⟨width, false⟩) := by
  rw [texts, texts, List.forall₂_map_left_iff, List.forall₂_map_right_iff, List.forall₂_same]
  intro c hc
  obtain ⟨kind, name, d, rest, after, hdeclarations, rfl⟩ := exists_of_mem_chunks hc
  refine Arena.unescapes_programText fun name hname => ?_
  cases hname with
  | statement hmem =>
      rw [verbatimOfBlock_eq, List.flatMap_map] at hmem
      obtain ⟨d', hd', hmem⟩ := List.mem_flatMap.mp hmem
      exact h.of_mem_importDeclarations (hdeclarations ▸ hd') name hmem
  | element _ hm _ => exact absurd hm (by simp [Arena.get?])

/-- The line of a route differs in its address. -/
theorem Route.unescapes_text (r : Route) {name : String} (hname : Bare name) :
    Unescapes (r.text ⟨width, true⟩ name) (r.text ⟨width, false⟩ name) :=
  (((unescapes_textValue r.path).enclose (by decide) (by decide)).append
    (unescapes_braced hname.unescapes)).append_bare (by decide)

theorem unescapes_appText {α : Type} {f g : α → String} {xs : List α}
    (h : ∀ x ∈ xs, Unescapes (f x) (g x)) :
    Unescapes (appText (xs.map f)) (appText (xs.map g)) := by
  have hlines : ∀ x ∈ xs, Unescapes ("\n        " ++ f x) ("\n        " ++ g x) :=
    fun x hx => (by decide : Bare "\n        ").unescapes.append (h x hx)
  unfold appText
  rw [List.map_map, List.map_map]
  exact (Unescapes.join_map hlines).enclose (by decide) (by decide)

/-- What the texts of an entry decode to. -/
theorem unescapes_entryTexts (h : t.HoldsPages routes names) (hbare : t.BareNames) :
    List.Forall₂ Unescapes (entryTexts ⟨width, true⟩ routes names t)
      (entryTexts ⟨width, false⟩ routes names t) := by
  have hlines : Unescapes (appText (List.zipWith (Route.text ⟨width, true⟩) routes names))
      (appText (List.zipWith (Route.text ⟨width, false⟩) routes names)) := by
    rw [← List.map_uncurry_zip_eq_zipWith, ← List.map_uncurry_zip_eq_zipWith]
    refine unescapes_appText fun line hline => ?_
    exact line.1.unescapes_text (h.bare hbare line.2 (List.of_mem_zip hline).2)
  refine List.rel_append hbare.unescapes_texts (.cons hlines (.cons ?_ .nil))
  exact (by decide : Bare renderText).unescapes

end

/-! ## Processing -/

/-- A text without white space at its end is not trimmed. -/
theorem Text.trimEnd_eq_self {s : String} (h : ∀ c ∈ s.toList.getLast?, isBlank c = false) :
    trimEnd s = s := by
  have hkept : s.toList.reverse.dropWhile isBlank = s.toList.reverse := by
    cases hreverse : s.toList.reverse with
    | nil => rfl
    | cons c rest =>
        have hc : isBlank c = false := by
          apply h
          rw [← List.head?_reverse, hreverse]
          rfl
        exact List.dropWhile_cons_of_neg (by simp [hc])
  rw [trimEnd, dropEndWhile, hkept, List.reverse_reverse, String.ofList_toList]

/-- **What the built-in processors do to a script** that does not end with white space: its escapes
are decoded unless it is to be kept to ASCII, and a line feed is put after it. -/
theorem Generator.process_script (o : GeneratorOptions) {escaped plain : String}
    (h : Unescapes escaped plain) (hescaped : ∀ c ∈ escaped.toList.getLast?, Text.isBlank c = false)
    (hplain : ∀ c ∈ plain.toList.getLast?, Text.isBlank c = false) :
    (ofOptions o).emission.process .js escaped =
      (if o.asciiOnly then escaped else plain) ++ "\n" := by
  cases hascii : o.asciiOnly with
  | true =>
      have hprocess : (ofOptions o).emission.process .js escaped = Text.trimEnd escaped ++ "\n" := by
        simp [Emission.process, ofOptions, hascii, trailingNewline]
      rw [hprocess, Text.trimEnd_eq_self hescaped]
      rfl
  | false =>
      have hprocess : (ofOptions o).emission.process .js escaped =
          Text.trimEnd (Literal.unescape escaped) ++ "\n" := by
        simp [Emission.process, ofOptions, hascii, unicodeUnescape, trailingNewline]
      rw [hprocess, h.unescape_eq, Text.trimEnd_eq_self hplain]
      rfl

theorem exists_intercalate_concat (separator : String) (texts : List String) (last : String) :
    ∃ front, separator.intercalate (texts ++ [last]) = front ++ last := by
  induction texts with
  | nil => exact ⟨"", by simp⟩
  | cons first rest ih =>
      obtain ⟨front, hfront⟩ := ih
      cases rest with
      | nil => exact ⟨first ++ separator, by simp⟩
      | cons second others =>
          refine ⟨first ++ separator ++ front, ?_⟩
          rw [List.cons_append, List.cons_append, String.intercalate_cons_cons, ← List.cons_append,
            hfront]
          simp only [String.append_assoc]

/-- The script of an entry ends with the semicolon of the call. -/
theorem isBlank_getLast?_entryTexts (style : Style) (routes : List Route) (names : List String)
    (imports : ImportTable) :
    ∀ c ∈ ("\n\n".intercalate (entryTexts style routes names imports)).toList.getLast?,
      Text.isBlank c = false := by
  obtain ⟨front, hfront⟩ := exists_intercalate_concat "\n\n"
    (imports.texts style ++ [appText (List.zipWith (Route.text style) routes names)]) renderText
  have htexts : entryTexts style routes names imports =
      imports.texts style ++ [appText (List.zipWith (Route.text style) routes names)] ++
        [renderText] := by
    simp [entryTexts]
  have hrender : renderText.toList.getLast? = some ';' := by decide
  rw [htexts, hfront, String.toList_append, List.getLast?_append, hrender]
  intro c hc
  obtain rfl : c = ';' := by simpa using hc.symm
  decide

/-- **The text of the file of an entry.** -/
theorem Generator.assemble_entryTexts (o : GeneratorOptions) {routes : List Route}
    {names : List String} {imports : ImportTable} (h : imports.HoldsPages routes names)
    (hbare : imports.BareNames) :
    (ofOptions o).emission.assemble .js (entryTexts {} routes names imports) =
      "\n\n".intercalate (entryTexts ⟨2, o.asciiOnly⟩ routes names imports) ++ "\n" := by
  have hdecodes := Unescapes.intercalate (by decide : Bare "\n\n")
    (unescapes_entryTexts h hbare : List.Forall₂ Unescapes (entryTexts ⟨2, true⟩ _ _ _) _)
  have hprocess := process_script o hdecodes (isBlank_getLast?_entryTexts _ _ _ _)
    (isBlank_getLast?_entryTexts _ _ _ _)
  refine hprocess.trans ?_
  cases o.asciiOnly with
  | true => rfl
  | false => rfl

end ViewGen
