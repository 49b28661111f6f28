import ViewGen.Proofs.LexicalScope
import ViewGen.Proofs.TemplateTags

/-!
# Every tag means its own dependency

The passes after the one that fixes the tags only add to what there is: they bind more names, set
more attributes and put other chunks beside those with the markup.  So the tags of a component can
be read in the table that all passes together leave.

## Main definitions

* `LatePass` — the passes that come after the component
* `Draft.Keeps` — bindings, elements and the chunks with the markup are kept

## Main statements

* `LatePass.keeps`, `keeps_runPasses` — what one pass keeps, and what all of them keep
* `tags_mean_their_dependencies` — the tags of a function component and of a template

## Design notes

A function component is declared under a name that is reserved before anything is compiled, so no
tag that stands for a dependency is that name.  A template has a name as well, but nothing reserves
it: a dependency of that name is imported under it, and its tag is then read as the component itself.
-/

namespace ViewGen

open Compile (Yields)

/-! ## What later passes keep -/

/-- The chunks with the markup of a component, and the one that lists the components it uses. -/
def ChunkName.markup : List String :=
  [component, template, templateScript]

theorem Chunk.mem_put_of_ne {c e : Chunk} {chunks : List Chunk} (h : e ∈ chunks)
    (hne : e.name ≠ c.name) : e ∈ c.put chunks := by
  induction chunks with
  | nil => exact absurd h List.not_mem_nil
  | cons first rest ih =>
      rw [put]
      rcases List.mem_cons.mp h with rfl | hrest
      · rw [if_neg hne]
        exact List.mem_cons_self
      · split
        · exact List.mem_cons_of_mem c hrest
        · exact List.mem_cons_of_mem first (ih hrest)

theorem mem_linkAfter_of_ne {name link : String} {e : Chunk} {chunks : List Chunk}
    (h : e ∈ chunks) (hne : e.name ≠ name) : e ∈ linkAfter name link chunks := by
  induction chunks with
  | nil => exact absurd h List.not_mem_nil
  | cons first rest ih =>
      rw [linkAfter]
      rcases List.mem_cons.mp h with rfl | hrest
      · rw [if_neg hne]
        exact List.mem_cons_self
      · split
        · exact List.mem_cons_of_mem _ hrest
        · exact List.mem_cons_of_mem first (ih hrest)

/-- Bindings, elements and the chunks with the markup are kept. -/
structure Draft.Keeps (d d' : Draft) : Prop where
  workspace : d.workspace.Keeps d'.workspace
  chunks : ∀ c ∈ d.chunks, c.name ∈ ChunkName.markup → c ∈ d'.chunks

namespace Draft

theorem Keeps.refl (d : Draft) : d.Keeps d :=
  ⟨.refl _, fun _ h _ => h⟩

theorem Keeps.trans {d d' d'' : Draft} (h : d.Keeps d') (h' : d'.Keeps d'') : d.Keeps d'' :=
  ⟨h.workspace.trans h'.workspace, fun c hc hname => h'.chunks c (h.chunks c hc hname) hname⟩

theorem keeps_put (d : Draft) {c : Chunk} (hname : c.name ∉ ChunkName.markup) :
    d.Keeps (d.put c) := by
  refine ⟨.refl _, fun e he hmarkup => Chunk.mem_put_of_ne he fun heq => hname ?_⟩
  rw [← heq]
  exact hmarkup

theorem keeps_register (d : Draft) (name : String) (dependency : Dependency) :
    d.Keeps (d.register name dependency).2 :=
  ⟨⟨d.imports.grows_register name dependency, .refl _⟩, fun _ h _ => h⟩

theorem keeps_linkAfter (d : Draft) {name : String} (hname : name ∉ ChunkName.markup)
    (link : String) : d.Keeps { d with chunks := linkAfter name link d.chunks } := by
  refine ⟨.refl _, fun e he hmarkup => mem_linkAfter_of_ne he fun heq => hname ?_⟩
  rw [← heq]
  exact hmarkup

theorem keeps_setOn (d : Draft) (key name : String) (value : MarkupValue) :
    d.Keeps (d.setOn key name value) := by
  rw [setOn]
  split
  · exact ⟨⟨.refl _, d.arena.keeps_set _ name value⟩, fun _ h _ => h⟩
  · exact .refl d

theorem keeps_setStyles {options : CompileOptions} {styled : List (Element Node)} {d d' : Draft}
    (h : d.setStyles options styled = .ok d') : d.Keeps d' := by
  induction styled generalizing d with
  | nil => exact Except.ok.inj h ▸ .refl d
  | cons e rest ih =>
      obtain ⟨properties, -, hrest⟩ := bind_eq_ok_iff.mp h
      exact (d.keeps_setOn e.key "style" _).trans (ih hrest)

theorem keeps_setStyled (d : Draft) (classAttribute bound : String) (s : StyledElement) :
    d.Keeps (d.setStyled classAttribute bound s) := by
  have hclass : d.Keeps (if s.hasRule then d.setOn s.key classAttribute
      (.expr (.member (.ident bound) s.className)) else d) := by
    split
    · exact d.keeps_setOn _ _ _
    · exact .refl d
  change d.Keeps (if s.properties.isEmpty then _ else setOn _ _ _ _)
  split
  · exact hclass
  · exact hclass.trans (keeps_setOn _ _ _ _)

theorem keeps_foldl_setStyled (classAttribute bound : String) (styles : List StyledElement)
    (d : Draft) : d.Keeps (styles.foldl (setStyled classAttribute bound) d) := by
  induction styles generalizing d with
  | nil => exact .refl d
  | cons s rest ih =>
      exact (d.keeps_setStyled classAttribute bound s).trans
        (ih (d.setStyled classAttribute bound s))

theorem keeps_moveStyles {classAttribute : String} {options : CompileOptions} {d d' : Draft}
    (h : d.moveStyles classAttribute options = .ok d') : d.Keeps d' := by
  obtain ⟨styles, -, hmoved⟩ := bind_eq_ok_iff.mp h
  by_cases hempty : (styleSheet styles).isEmpty
  · rw [if_pos hempty] at hmoved
    obtain rfl := Except.ok.inj hmoved
    exact keeps_foldl_setStyled classAttribute "" styles d
  · rw [if_neg hempty] at hmoved
    obtain rfl := Except.ok.inj hmoved
    have hregistered := d.keeps_register "styles" (.ofProject ("./" ++ d.fileName ++ ".css"))
    refine (hregistered.trans (keeps_foldl_setStyled classAttribute _ styles _)).trans
      (keeps_put _ ?_)
    show ChunkName.styleSheet ∉ ChunkName.markup
    decide

theorem keeps_declareProps (d : Draft) : d.Keeps d.declareProps := by
  rw [declareProps]
  split
  · exact .refl d
  · refine ((d.keeps_register "PropTypes" _).trans (keeps_put _ ?_)).trans
      (keeps_linkAfter _ ?_ _)
    · show ChunkName.propTypes ∉ ChunkName.markup
      decide
    · show ChunkName.exporting ∉ ChunkName.markup
      decide

theorem keeps_putImports (d : Draft) {name : String} (hname : name ∉ ChunkName.markup)
    (kind : DependencyKind) (after : List String) : d.Keeps (d.putImports name kind after) := by
  rw [putImports]
  split
  · exact .refl d
  · exact d.keeps_put hname

end Draft

/-- A pass that comes after the component: styles, prop types or imports. -/
inductive LatePass : Pass → Prop
  | inlineStyle (options : CompileOptions) : LatePass (inlineStylePass options)
  | styleSheet (classAttribute : String) (options : CompileOptions) :
      LatePass (styleSheetPass classAttribute options)
  | propTypes : LatePass propTypesPass
  | imports : LatePass importPass

/-- A late pass keeps bindings, elements and markup. -/
theorem LatePass.keeps {p : Pass} (hp : LatePass p) {d d' : Draft} (h : p.run d = .ok d') :
    d.Keeps d' := by
  cases hp with
  | inlineStyle options => exact Draft.keeps_setStyles h
  | styleSheet classAttribute options => exact Draft.keeps_moveStyles h
  | propTypes =>
      obtain rfl := Except.ok.inj h
      exact d.keeps_declareProps
  | imports =>
      obtain rfl := Except.ok.inj h
      exact ((d.keeps_putImports (by decide) _ _).trans
        (Draft.keeps_putImports _ (by decide) _ _)).trans (Draft.keeps_putImports _ (by decide) _ _)

/-- The first pass runs alone and the others run on what it yields. -/
theorem runPasses_cons_iff {p : Pass} {rest : List Pass} {d d' : Draft} :
    runPasses (p :: rest) d = .ok d' ↔ ∃ d₁, p.run d = .ok d₁ ∧ runPasses rest d₁ = .ok d' := by
  have happly : ∀ d₁, p.apply d = .ok d₁ ↔ p.run d = .ok d₁ := by
    intro d₁
    rw [Pass.apply]
    cases p.run d <;> simp [Except.mapError]
  rw [runPasses, applyPasses, bind_eq_ok_iff]
  constructor
  · rintro ⟨d₂, hd₂, horder⟩
    obtain ⟨d₁, hd₁, hrest⟩ := bind_eq_ok_iff.mp hd₂
    exact ⟨d₁, (happly d₁).mp hd₁, bind_eq_ok_iff.mpr ⟨d₂, hrest, horder⟩⟩
  · rintro ⟨d₁, hd₁, hrest⟩
    obtain ⟨d₂, hd₂, horder⟩ := bind_eq_ok_iff.mp hrest
    exact ⟨d₂, bind_eq_ok_iff.mpr ⟨d₁, (happly d₁).mpr hd₁, hd₂⟩, horder⟩

/-- Late passes keep bindings, elements and markup, and so does putting the chunks in order. -/
theorem keeps_runPasses {later : List Pass} (hlater : ∀ p ∈ later, LatePass p) {d d' : Draft}
    (h : runPasses later d = .ok d') : d.Keeps d' := by
  induction later generalizing d with
  | nil =>
      obtain ⟨d₁, hd₁, horder⟩ := bind_eq_ok_iff.mp h
      obtain rfl := Except.ok.inj hd₁
      obtain ⟨chunks, hchunks, hd'⟩ := bind_eq_ok_iff.mp horder
      obtain rfl := Except.ok.inj hd'
      exact ⟨.refl _, fun c hc _ => (perm_of_orderChunks hchunks).mem_iff.mpr hc⟩
  | cons p rest ih =>
      obtain ⟨hp, hrest⟩ := List.forall_mem_cons.mp hlater
      obtain ⟨d₁, hd₁, h⟩ := runPasses_cons_iff.mp h
      exact (hp.keeps hd₁).trans (ih hrest h)

/-! ## Function components -/

/-- A name that is kept is reserved, and nothing else changes. -/
theorem Draft.grows_of_reserve {d d' : Draft} {name : String} (h : d.reserve name = .ok d') :
    d.imports.Grows d'.imports ∧ name ∈ d'.imports.reserved := by
  have hgrows := d.imports.grows_reserve name
  rw [reserve] at h
  split at h
  · next imports hreserve =>
    obtain rfl := Except.ok.inj h
    rw [hreserve] at hgrows
    refine ⟨hgrows, ?_⟩
    show name ∈ imports.reserved
    exact ImportTable.mem_reserved_of_reserve hreserve
  · exact absurd h (by simp)

/-- The body of a function is compiled without loss. -/
theorem keeps_functionBody {runtime : Runtime} {options : CompileOptions}
    (hinject : options.KeepsElements) {c : Component} {body : List Statement} {w w' : Workspace}
    (h : Yields (Compile.functionBody runtime options c) w body w') : w.Keeps w' :=
  ((stepsIn_keeps hinject).register w runtime.pragma runtime.package).trans
    ((stepsIn_keeps hinject).functionBody h)

/-- The chunk of a function component, given the statements before its root. -/
def functionChunk (c : Component) (hooks : List Statement) (root : Target) (links : List String) :
    Chunk :=
  .script ChunkName.component [.constant (.name (componentName c.name))
    (.arrowBlock ["props"] (hooks ++ [.returning root.toExpr]))] links

theorem mem_chunks_addComponent (d : Draft) (useState : String) (root : Target) :
    functionChunk d.component (stateHooks useState d.component.states) root d.componentLinks ∈
      (d.addComponent (functionBodyOf useState d.component root)).chunks :=
  List.mem_of_find?_eq_some (chunk?_addComponent d _)

/-- The tags of a declared component whose elements were given keys, read in a draft that keeps
it. -/
theorem exists_tagged_root {framework : Framework} {options : CompileOptions}
    (hinject : options.KeepsElements) (hbind : options.bindImports = true)
    (hcustom : options.customTag = none) {d d₁ d' : Draft} {c : Component}
    (hcomponent : d.component = { c with node := c.node.withKeys })
    (hrun : (functionComponentPass framework options).run d = .ok d₁) (hproper : d.imports.Proper)
    (hkeeps : d₁.Keeps d') :
    componentName c.name ∈ d'.imports.reserved ∧
      ∃ hooks root links, functionChunk c hooks root links ∈ d'.chunks ∧
        NodeTagged options d'.arena
          (fun tag dependency written => d'.imports.Tags tag dependency written ∧
            (dependency.isSome → written ≠ componentName c.name)) c.node root := by
  have hname : d.component.name = c.name := by rw [hcomponent]
  obtain ⟨runtime, hruntime⟩ := Draft.exists_runtime_of_declareComponent hrun
  obtain ⟨imports, body, w, hreserve, hbody, rfl⟩ := (Draft.declareComponent_iff hruntime).mp hrun
  -- The table grows from the reservation of the name to the end, so the name stays reserved.
  obtain ⟨hgrows, hreserved⟩ := Draft.grows_of_reserve hreserve
  have hcompiled : Workspace.Keeps { d.workspace with imports } w :=
    keeps_functionBody hinject hbody
  have hfinal : w.Keeps d'.workspace := by
    have hworkspace := hkeeps.workspace
    rwa [Draft.workspace_addComponent] at hworkspace
  have himports : imports.Grows d'.imports := hcompiled.imports.trans hfinal.imports
  have hfinalProper : d'.imports.Proper := himports.proper (hgrows.proper hproper)
  have hkept : componentName c.name ∈ d'.imports.reserved :=
    himports.reserved.subset (hname ▸ hreserved)
  obtain ⟨useState, registered, hyields⟩ := yields_functionBody_iff runtime options d.component
    { d.workspace with imports }
  obtain ⟨root, hroot, rfl⟩ := (hyields body w).mp hbody
  refine ⟨hkept, stateHooks useState d.component.states, root, d.componentLinks, ?_, ?_⟩
  · have hchunk := mem_chunks_addComponent { d with workspace := w } useState root
    rw [functionChunk, ← hname]
    refine hkeeps.chunks _ hchunk ?_
    show ChunkName.component ∈ ChunkName.markup
    decide
  · rw [hcomponent] at hroot
    refine (tagged_node ⟨hinject, hbind, hcustom, hfinalProper, ?_⟩ _ hroot hfinal).of_withKeys
    rintro tag (_ | dependency) written htag
    · exact ⟨htag, fun hnone => absurd hnone (by simp)⟩
    · refine ⟨htag, fun _ heq => htag.2 ?_⟩
      rw [heq]
      exact hkept

/-! ## Templates -/

/-- The chunk of the markup of a template. -/
def templateChunk (markup : String) : Chunk :=
  { name := ChunkName.template, fileType := .html, content := .markup markup }

/-- The chunk of the script beside a template. -/
def scriptChunk (c : Component) (components : List String) : Chunk :=
  .script ChunkName.templateScript (vueScript c components) ChunkName.imports

/-- The tags of a template whose elements were given keys, read in a draft that keeps it. -/
theorem exists_written_root {d d₁ d' : Draft} {c : Component}
    (hcomponent : d.component = { c with node := c.node.withKeys })
    (hrun : vuePass.run d = .ok d₁) (hproper : d.imports.Proper) (hkeeps : d₁.Keeps d') :
    ∃ markup components, templateChunk markup ∈ d'.chunks ∧ scriptChunk c components ∈ d'.chunks ∧
      Template.NodeWritten
        (fun tag dependency written => d'.imports.Tags tag dependency written ∧
          (dependency.isSome → components.count written = 1)) c.node 0 markup := by
  obtain ⟨⟨markup, template⟩, hmarkup, hd₁⟩ := bind_eq_ok_iff.mp hrun
  obtain rfl := Except.ok.inj hd₁
  have hyields : Writing.Yields (Template.nodeWith Template.exprText [] c.node 0)
      { imports := d.imports } markup template := by
    rw [Template.nodeWith_nil, ← Template.node_withKeys]
    rw [hcomponent] at hmarkup
    exact hmarkup
  have hwritten := Template.grows_node c.node hyields
  have hnodup : template.components.Nodup := hwritten.nodup List.nodup_nil
  have himports : template.imports.Grows d'.imports := hkeeps.workspace.imports
  refine ⟨markup, template.components, ?_, ?_, ?_⟩
  · refine hkeeps.chunks _ (Chunk.mem_put_of_ne ?_ ?_) ?_
    · exact List.mem_of_find?_eq_some (Draft.chunk?_put_self (d.withImports template.imports)
        (templateChunk markup))
    · show ChunkName.template ≠ ChunkName.templateScript
      decide
    · show ChunkName.template ∈ ChunkName.markup
      decide
  · have hscript : scriptChunk c template.components =
        scriptChunk d.component template.components := by
      rw [hcomponent]
      rfl
    rw [hscript]
    refine hkeeps.chunks _ (List.mem_of_find?_eq_some (Draft.chunk?_put_self _ _)) ?_
    show ChunkName.templateScript ∈ ChunkName.markup
    decide
  · -- The tags are read in the template with the table that is left at the end.
    have hfinal : template.Grows { template with imports := d'.imports } :=
      ⟨himports, List.prefix_rfl, id⟩
    refine Template.written_node ⟨himports.proper (hwritten.imports.proper hproper), ?_⟩ c.node
      hyields hfinal
    exact fun tag dependency written htag hlisted =>
      ⟨htag, fun hsome => List.count_eq_one_of_mem hnodup (hlisted hsome)⟩

/-! ## Whole pipelines -/

/-- **Every tag means its own dependency.**  From every table that can be built, in the draft that
all passes together leave:

* in a function component, an element without a dependency keeps its tag; the tag of any other is
  bound to the same import as its dependency, and is neither reserved nor the name of the component;
* in a template, the same holds but for the name of the component, which nothing reserves, and each
  tag that stands for a dependency is listed once among the components.

The passes of every generator succeed as long as the table they start from has no import under the
name of the component. -/
theorem tags_mean_their_dependencies (c : Component) (fileName : String)
    (steps : List ImportTable.Step) :
    let start : Draft := { component := c, fileName, workspace := { imports := .after {} steps } }
    (∀ framework options later d', options.KeepsElements → options.bindImports = true →
      options.customTag = none → (∀ p ∈ later, LatePass p) →
      runPasses (keyPass :: functionComponentPass framework options :: later) start = .ok d' →
        componentName c.name ∈ d'.imports.reserved ∧
          ∃ hooks root links, functionChunk c hooks root links ∈ d'.chunks ∧
            NodeTagged options d'.arena
              (fun tag dependency written => d'.imports.Tags tag dependency written ∧
                (dependency.isSome → written ≠ componentName c.name)) c.node root) ∧
      (∀ later d', (∀ p ∈ later, LatePass p) →
        runPasses (keyPass :: vuePass :: later) start = .ok d' →
          ∃ markup components, templateChunk markup ∈ d'.chunks ∧
            scriptChunk c components ∈ d'.chunks ∧
            Template.NodeWritten
              (fun tag dependency written => d'.imports.Tags tag dependency written ∧
                (dependency.isSome → components.count written = 1)) c.node 0 markup) ∧
      (∀ o : GeneratorOptions, componentName c.name ∉ start.imports.entries.keys →
        ∃ d', runPasses o.passes start = .ok d') := by
  intro start
  have hproper : start.imports.Proper := ImportTable.proper_after steps
  refine ⟨?_, ?_, ?_⟩
  · intro framework options later d' hinject hbind hcustom hlater hrun
    obtain ⟨keyed, hkeyed, hrest⟩ := runPasses_cons_iff.mp hrun
    obtain ⟨declared, hdeclared, hrest⟩ := runPasses_cons_iff.mp hrest
    have hkeeps : declared.Keeps d' := keeps_runPasses hlater hrest
    obtain rfl := Except.ok.inj hkeyed
    exact exists_tagged_root hinject hbind hcustom rfl hdeclared hproper hkeeps
  · intro later d' hlater hrun
    obtain ⟨keyed, hkeyed, hrest⟩ := runPasses_cons_iff.mp hrun
    obtain ⟨written, hwritten, hrest⟩ := runPasses_cons_iff.mp hrest
    have hkeeps : written.Keeps d' := keeps_runPasses hlater hrest
    obtain rfl := Except.ok.inj hkeyed
    exact exists_written_root rfl hwritten hproper hkeeps
  · intro o hunbound
    obtain ⟨d', hd', -⟩ := o.exists_runPasses_from c fileName (Dict.has_eq_false_iff.mpr hunbound)
    exact ⟨d', hd'⟩

/-- A row of buttons from two packages, with a row inside it that asks for the name of the
component. -/
def buttonRow : Component where
  name := "Button Row"
  node := .element {
    tag := "div"
    children := [
      .element { tag := "Button", dependency := some (.package "ui" none) },
      .element {
        tag := "Button"
        dependency := some (.package "lib" none)
        attrs := [("icon", .slot (.element {
          tag := "Icon", dependency := some (.package "lib" none) }))] },
      .element { tag := "ButtonRow", dependency := some (.ofProject "./button-row") }] }

/-- The row is generated in both ways from a table where `Button` is bound already and the name that
the other package would get is reserved, and its tags mean their dependencies. -/
theorem buttonRow_tags :
    let start : Draft := {
      component := buttonRow
      fileName := "button-row"
      workspace := { imports := .after {} ImportTable.clashingButtons } }
    componentName buttonRow.name ∉ start.imports.entries.keys ∧
      (∃ d', runPasses ({} : GeneratorOptions).passes start = .ok d' ∧
        ∃ hooks root links, functionChunk buttonRow hooks root links ∈ d'.chunks ∧
          NodeTagged ({} : GeneratorOptions).compileOptions d'.arena
            (fun tag dependency written => d'.imports.Tags tag dependency written ∧
              (dependency.isSome → written ≠ componentName buttonRow.name)) buttonRow.node root) ∧
      (∃ d', runPasses (GeneratorOptions.passes { framework := .vue }) start = .ok d' ∧
        ∃ markup components, templateChunk markup ∈ d'.chunks ∧
          scriptChunk buttonRow components ∈ d'.chunks ∧
          Template.NodeWritten
            (fun tag dependency written => d'.imports.Tags tag dependency written ∧
              (dependency.isSome → components.count written = 1)) buttonRow.node 0 markup) := by
  intro start
  obtain ⟨hfunction, htemplate, hruns⟩ :=
    tags_mean_their_dependencies buttonRow "button-row" ImportTable.clashingButtons
  have hunbound : componentName buttonRow.name ∉ start.imports.entries.keys := by decide
  have hinject := ({} : GeneratorOptions).injectsAfter_compileOptions.keepsElements
  have hreact : ∀ p ∈ [({} : GeneratorOptions).stylePass, propTypesPass, importPass],
      LatePass p := by
    intro p hp
    rcases hp with _ | ⟨_, _ | ⟨_, _ | ⟨_, hp⟩⟩⟩
    · exact .inlineStyle _
    · exact .propTypes
    · exact .imports
    · exact absurd hp List.not_mem_nil
  have hvue : ∀ p ∈ [importPass], LatePass p := by
    intro p hp
    rw [List.mem_singleton.mp hp]
    exact .imports
  refine ⟨hunbound, ?_, ?_⟩
  · obtain ⟨d', hd'⟩ := hruns {} hunbound
    exact ⟨d', hd', (hfunction .react _ _ d' hinject rfl rfl hreact hd').2⟩
  · obtain ⟨d', hd'⟩ := hruns { framework := .vue } hunbound
    exact ⟨d', hd', htemplate _ d' hvue hd'⟩

/-- A card with an imported card inside. -/
def nestedCard : Component where
  name := "Card"
  node := .element {
    tag := "div"
    children := [.element { tag := "Card", dependency := some (.ofProject "./card") }] }

/-- The name of a component is not kept from the tags of its template.  The imported card is written,
imported and listed under the name that the component itself has, so its tag does not mean it. -/
theorem vue_card_contains_card :
    componentName nestedCard.name = "Card" ∧
      ∃ d', runPasses (GeneratorOptions.passes { framework := .vue })
          { component := nestedCard, fileName := "card" } = .ok d' ∧
        templateChunk "<div>\n  <Card></Card>\n</div>" ∈ d'.chunks ∧
        scriptChunk nestedCard ["Card"] ∈ d'.chunks ∧
        d'.imports.entries = [("Card", .ofProject "./card")] ∧ d'.imports.reserved = [] := by
  refine ⟨by decide, _, rfl, ?_, ?_, rfl, rfl⟩
  · exact .head _
  · exact .tail _ (.tail _ (.head _))

end ViewGen
