import ViewGen.Proofs.ChunkOrder
import ViewGen.Proofs.FunctionComponents
import ViewGen.Proofs.TemplatePrinting

/-!
# What every pass keeps

A draft is sound when its elements refer backwards, its chunks refer to elements that are there, and
every link between chunks goes backwards in one fixed layout of the module.  No pass fails on a
sound draft, except that a component cannot be declared under a name that an import has, and every
pass leaves a sound draft.

## Main definitions

* `ChunkName.rank` — the place of a chunk in the layout of a module
* `Draft.Sound` — the invariant
* `Pass.Turns` — a pass that succeeds on all drafts with one property and yields drafts with another

## Main statements

* `turns_keyPass`, `turns_functionComponentPass`, `turns_inlineStylePass`, `turns_styleSheetPass`,
  `turns_propTypesPass`, `turns_vuePass`, `turns_importPass` — one for each pass
* `Passes.Turn.exists_runPasses` — passes that lead to sound drafts also get their chunks in order

## Design notes

The layout is what makes links acyclic: a link of a chunk may name a chunk that does not exist, or
that a later pass adds, as long as its name stands earlier in the layout.
-/

namespace ViewGen

/-! ## The layout of a module -/

namespace ChunkName

/-- The chunks of a module from the first to the last. -/
def layout : List String :=
  [packageImports, customImports, projectImports, tokens, component, propTypes, exporting, router,
    render]

/-- The place of a chunk in the layout; chunks that have none come last. -/
def rank (name : String) : Nat :=
  layout.idxOf name

end ChunkName

/-- A chunk whose links go backwards in the layout and whose elements are in the arena. -/
structure Chunk.Fits (c : Chunk) (a : Arena) : Prop where
  links : ∀ link ∈ c.after, ChunkName.rank link < ChunkName.rank c.name
  elements : ∀ id ∈ c.elementIds, id < a.size

/-- A draft whose elements refer backwards and whose chunks fit. -/
structure Draft.Sound (d : Draft) : Prop where
  descends : d.arena.Descends
  fits : ∀ c ∈ d.chunks, c.Fits d.arena

namespace Chunk

theorem Fits.mono {c : Chunk} {a b : Arena} (h : c.Fits a) (hsize : a.size ≤ b.size) : c.Fits b :=
  ⟨h.links, fun id hid => Nat.lt_of_lt_of_le (h.elements id hid) hsize⟩

/-- What is in a list after a chunk was put into it was there before or is the chunk. -/
theorem mem_of_mem_put {c e : Chunk} {chunks : List Chunk} (h : e ∈ c.put chunks) :
    e = c ∨ e ∈ chunks := by
  induction chunks with
  | nil => exact .inl (List.mem_singleton.mp h)
  | cons d rest ih =>
      rw [put] at h
      split at h
      · exact (List.mem_cons.mp h).imp_right (List.mem_cons_of_mem d)
      · rcases List.mem_cons.mp h with rfl | hrest
        · exact .inr List.mem_cons_self
        · exact (ih hrest).imp_right (List.mem_cons_of_mem d)

end Chunk

/-- A link adds to the chunk of the given name and leaves the others. -/
theorem mem_of_mem_linkAfter {name link : String} {e : Chunk} {chunks : List Chunk}
    (h : e ∈ linkAfter name link chunks) :
    e ∈ chunks ∨ ∃ c ∈ chunks, c.name = name ∧ e = { c with after := c.after ++ [link] } := by
  induction chunks with
  | nil => exact absurd h List.not_mem_nil
  | cons c rest ih =>
      rw [linkAfter] at h
      split at h
      · next hname =>
        rcases List.mem_cons.mp h with rfl | hrest
        · exact .inr ⟨c, List.mem_cons_self, hname, rfl⟩
        · exact .inl (List.mem_cons_of_mem c hrest)
      · rcases List.mem_cons.mp h with rfl | hrest
        · exact .inl List.mem_cons_self
        · rcases ih hrest with hold | ⟨c', hc', hname, rfl⟩
          · exact .inl (List.mem_cons_of_mem c hold)
          · exact .inr ⟨c', List.mem_cons_of_mem c hc', hname, rfl⟩

namespace Draft.Sound

variable {d : Draft}

/-- The draft a generation starts with is sound. -/
theorem start (c : Component) (fileName : String) :
    ({ component := c, fileName } : Draft).Sound :=
  ⟨Arena.descends_empty, fun _ h => absurd h List.not_mem_nil⟩

theorem put (h : d.Sound) {c : Chunk} (hc : c.Fits d.arena) : (d.put c).Sound := by
  refine ⟨h.descends, fun e he => ?_⟩
  rcases Chunk.mem_of_mem_put he with rfl | hold
  · exact hc
  · exact h.fits e hold

/-- The import table has no part in soundness. -/
theorem withImports (h : d.Sound) (imports : ImportTable) : (d.withImports imports).Sound :=
  ⟨h.descends, h.fits⟩

/-- A draft stays sound when its arena grows. -/
theorem of_grows (h : d.Sound) {w : Workspace} (hgrows : d.arena.Grows w.arena) :
    { d with workspace := w }.Sound :=
  ⟨hgrows.descends h.descends, fun c hc => (h.fits c hc).mono hgrows.keeps.size_le⟩

theorem setOn (h : d.Sound) (key name : String) {value : MarkupValue}
    (hvalue : value.elementIds = []) : (d.setOn key name value).Sound := by
  rw [Draft.setOn]
  split
  · refine ⟨h.descends.set _ _ hvalue, fun c hc => (h.fits c hc).mono (Nat.le_of_eq ?_)⟩
    exact (Arena.size_set _ _ _ _).symm
  · exact h

/-- A link that goes backwards can be added. -/
theorem linkAfter (h : d.Sound) {name link : String}
    (hlink : ChunkName.rank link < ChunkName.rank name) :
    { d with chunks := linkAfter name link d.chunks }.Sound := by
  refine ⟨h.descends, fun e he => ?_⟩
  rcases mem_of_mem_linkAfter he with hold | ⟨c, hc, rfl, rfl⟩
  · exact h.fits e hold
  · refine ⟨fun link' hlink' => ?_, (h.fits c hc).elements⟩
    rcases List.mem_append.mp hlink' with hold | hnew
    · exact (h.fits c hc).links link' hold
    · rw [List.mem_singleton.mp hnew]
      exact hlink

end Draft.Sound

/-- A chunk of statements that refer to no element fits when its links do. -/
theorem Chunk.fits_script {name : String} {statements : List Statement} {after : List String}
    (hlinks : ∀ link ∈ after, ChunkName.rank link < ChunkName.rank name)
    (hplain : elementIdsOfBlock statements = []) (a : Arena) :
    (Chunk.script name statements after).Fits a := by
  refine ⟨hlinks, fun id hid => ?_⟩
  have hnone : id ∈ elementIdsOfBlock statements := hid
  rw [hplain] at hnone
  exact absurd hnone List.not_mem_nil

/-! ## Passes -/

/-- The pass succeeds on every draft with the first property and yields one with the second. -/
def Pass.Turns (p : Pass) (P Q : Draft → Prop) : Prop :=
  ∀ d, P d → ∃ d', p.run d = .ok d' ∧ Q d'

/-- Passes one after the other succeed on every draft with the first property and yield one with the
second. -/
def Passes.Turn (passes : List Pass) (P Q : Draft → Prop) : Prop :=
  ∀ d, P d → ∃ d', applyPasses passes d = .ok d' ∧ Q d'

theorem Passes.turn_nil (P : Draft → Prop) : Passes.Turn [] P P :=
  fun d h => ⟨d, rfl, h⟩

theorem Passes.Turn.cons {p : Pass} {passes : List Pass} {P Q R : Draft → Prop}
    (hrest : Passes.Turn passes Q R) (hp : p.Turns P Q) : Passes.Turn (p :: passes) P R := by
  intro d hd
  obtain ⟨d₁, hd₁, hQ⟩ := hp d hd
  obtain ⟨d', hd', hR⟩ := hrest d₁ hQ
  refine ⟨d', bind_eq_ok_iff.mpr ⟨d₁, ?_, hd'⟩, hR⟩
  rw [Pass.apply, hd₁]
  rfl

/-- Passes that lead to a sound draft get its chunks in order. -/
theorem Passes.Turn.exists_runPasses {passes : List Pass} {P : Draft → Prop}
    (h : Passes.Turn passes P Draft.Sound) {d : Draft} (hd : P d) :
    ∃ d', runPasses passes d = .ok d' ∧ d'.Sound := by
  obtain ⟨d₁, hd₁, hsound⟩ := h d hd
  obtain ⟨chunks, hchunks, hperm⟩ := exists_orderChunks fun c hc => (hsound.fits c hc).links
  refine ⟨{ d₁ with chunks }, bind_eq_ok_iff.mpr ⟨d₁, hd₁, ?_⟩, hsound.descends, fun c hc => ?_⟩
  · exact bind_eq_ok_iff.mpr ⟨chunks, hchunks, rfl⟩
  · exact hsound.fits c (hperm.mem_iff.mp hc)

/-- A sound draft with no import that has the name of the component. -/
def Draft.Nameable (d : Draft) : Prop :=
  d.Sound ∧ d.imports.entries.has (componentName d.component.name) = false

theorem turns_keyPass : keyPass.Turns Draft.Nameable Draft.Nameable :=
  fun _ h => ⟨_, rfl, ⟨h.1.descends, h.1.fits⟩, h.2⟩

/-! ### Objects without elements -/

theorem elementIdsOfProperties_append (properties others : List (String × Expr)) :
    elementIdsOfProperties (properties ++ others) =
      elementIdsOfProperties properties ++ elementIdsOfProperties others := by
  simp only [elementIdsOfProperties_eq, List.flatMap_append]

theorem elementIdsOfProperties_filterMap {α : Type} {f : α → Option (String × Expr)}
    (h : ∀ x entry, f x = some entry → entry.2.elementIds = []) (xs : List α) :
    elementIdsOfProperties (xs.filterMap f) = [] := by
  rw [elementIdsOfProperties_eq, List.flatMap_eq_nil_iff]
  intro entry hentry
  obtain ⟨x, -, hx⟩ := List.mem_filterMap.mp hentry
  exact h x entry hx

theorem elementIdsOfProperties_map {α : Type} {f : α → String × Expr}
    (h : ∀ x, (f x).2.elementIds = []) (xs : List α) : elementIdsOfProperties (xs.map f) = [] := by
  rw [elementIdsOfProperties_eq, List.flatMap_map, List.flatMap_eq_nil_iff]
  exact fun x _ => h x

/-! ### The component -/

theorem elementIds_stateHooks (useState : String) (states : Dict StateDefinition) :
    elementIdsOfBlock (stateHooks useState states) = [] := by
  rw [elementIdsOfBlock_eq, stateHooks, List.flatMap_map, List.flatMap_eq_nil_iff]
  rintro ⟨state, definition⟩ -
  simp [Statement.elementIds, Expr.elementIds, elementIdsOfAll]

theorem elementIds_functionBodyOf (useState : String) (c : Component) (root : Target) :
    elementIdsOfBlock (functionBodyOf useState c root) = root.elementIds := by
  have hhooks := elementIds_stateHooks useState c.states
  rw [elementIdsOfBlock_eq] at hhooks
  rw [elementIdsOfBlock_eq, functionBodyOf, List.flatMap_append, hhooks, List.nil_append,
    List.flatMap_singleton, Statement.elementIds, Target.elementIds_toExpr]

theorem elementIds_tokensConstant (c : Component) :
    elementIdsOfBlock [c.tokensConstant] = [] := by
  rw [elementIdsOfBlock_eq, List.flatMap_singleton, Component.tokensConstant, Statement.elementIds,
    Expr.elementIds, elementIdsOfProperties_map]
  exact fun entry => Expr.elementIds_ofScalar entry.2

namespace Draft.Sound

variable {d : Draft}

theorem addTokens (h : d.Sound) : d.addTokens.Sound := by
  rw [Draft.addTokens]
  split
  · exact h
  · exact h.put (Chunk.fits_script (by decide) (elementIds_tokensConstant _) _)

/-- A component can be added whose body refers to elements that are there. -/
theorem addComponent (h : d.Sound) {body : List Statement}
    (hbody : ∀ id ∈ elementIdsOfBlock body, id < d.arena.size) : (d.addComponent body).Sound := by
  refine (h.addTokens.put ⟨?_, ?_⟩).put (Chunk.fits_script (by decide) rfl _)
  · show ∀ link ∈ d.componentLinks, ChunkName.rank link < ChunkName.rank ChunkName.component
    rw [componentLinks]
    split <;> decide
  · intro id hid
    rw [Draft.arena_addTokens]
    simp only [Chunk.elementIds, Chunk.script, elementIdsOfBlock, Statement.elementIds,
      Expr.elementIds, List.append_nil] at hid
    exact hbody id hid

end Draft.Sound

/-- A component can be declared as long as no import has its name. -/
theorem turns_functionComponentPass {framework : Framework} {runtime : Runtime}
    (hruntime : framework.runtime? = some runtime) {options : CompileOptions}
    (hmaps : options.MapsAll) (hinject : options.InjectsAfter) :
    (functionComponentPass framework options).Turns Draft.Nameable Draft.Sound := by
  rintro d ⟨hd, hfree⟩
  obtain ⟨imports, hreserve⟩ := Draft.exists_reserve hfree
  obtain ⟨useState, registered, hbody⟩ := yields_functionBody_iff runtime options d.component
    { d.workspace with imports }
  obtain ⟨root, w, hroot⟩ := exists_yields_node hmaps d.component.node
    { d.workspace with imports := registered }
  have hyields := (hbody _ w).mpr ⟨root, hroot, rfl⟩
  refine ⟨_, (Draft.declareComponent_iff hruntime).mpr
    ⟨imports, _, w, hreserve, hyields, rfl⟩, ?_⟩
  -- The chunks that were there fit the arena that the compilation leaves, and the body does too.
  obtain ⟨hgrows, hids⟩ := grows_node hinject d.component.node hroot
  refine (hd.of_grows hgrows).addComponent fun id hid => ?_
  rw [elementIds_functionBodyOf] at hid
  exact hids hd.descends id hid

/-! ### Styles -/

theorem exists_setStyles {options : CompileOptions} (hmaps : options.MapsAll)
    (styled : List (Element Node)) {d : Draft} (hd : d.Sound) :
    ∃ d', d.setStyles options styled = .ok d' ∧ d'.Sound := by
  induction styled generalizing d with
  | nil => exact ⟨d, rfl, hd⟩
  | cons e rest ih =>
      obtain ⟨properties, hproperties⟩ := exists_styleProperties hmaps e.style
      have hplain : (MarkupValue.expr (.object properties)).elementIds = [] :=
        elementIds_styleProperties hproperties
      obtain ⟨d', hd', hsound⟩ := ih (hd.setOn e.key "style" hplain)
      exact ⟨d', bind_eq_ok_iff.mpr ⟨properties, hproperties, hd'⟩, hsound⟩

theorem turns_inlineStylePass {options : CompileOptions} (hmaps : options.MapsAll) :
    (inlineStylePass options).Turns Draft.Sound Draft.Sound :=
  fun d hd => exists_setStyles hmaps d.styled hd

/-- What styles come to can be computed, and the properties that stay refer to no element. -/
theorem exists_styledElements {options : CompileOptions} (hmaps : options.MapsAll)
    (taken : List String) (styled : List (Element Node)) :
    ∃ styles, styledElements options taken styled = .ok styles ∧
      ∀ s ∈ styles, elementIdsOfProperties s.properties = [] := by
  induction styled generalizing taken with
  | nil => exact ⟨[], rfl, fun s hs => absurd hs List.not_mem_nil⟩
  | cons e rest ih =>
      obtain ⟨properties, hproperties⟩ := exists_styleProperties hmaps (styleReferences e.style)
      obtain ⟨others, hothers, hplain⟩ := ih (className e.key taken :: taken)
      refine ⟨_, bind_eq_ok_iff.mpr ⟨properties, hproperties,
        bind_eq_ok_iff.mpr ⟨others, hothers, rfl⟩⟩, ?_⟩
      exact List.forall_mem_cons.mpr ⟨elementIds_styleProperties hproperties, hplain⟩

theorem Draft.Sound.setStyled {d : Draft} (h : d.Sound) (classAttribute bound : String)
    {s : StyledElement} (hs : elementIdsOfProperties s.properties = []) :
    (d.setStyled classAttribute bound s).Sound := by
  have hproperties : (MarkupValue.expr (.object s.properties)).elementIds = [] := hs
  have hclass : (if s.hasRule then d.setOn s.key classAttribute
      (.expr (.member (.ident bound) s.className)) else d).Sound := by
    split
    · exact h.setOn _ _ rfl
    · exact h
  change (if s.properties.isEmpty then _ else Draft.setOn _ _ _ _).Sound
  split
  · exact hclass
  · exact hclass.setOn _ _ hproperties

theorem Draft.Sound.foldl_setStyled (classAttribute bound : String) {styles : List StyledElement}
    (hstyles : ∀ s ∈ styles, elementIdsOfProperties s.properties = []) {d : Draft} (h : d.Sound) :
    (styles.foldl (Draft.setStyled classAttribute bound) d).Sound := by
  induction styles generalizing d with
  | nil => exact h
  | cons s rest ih =>
      obtain ⟨hs, hrest⟩ := List.forall_mem_cons.mp hstyles
      exact ih hrest (h.setStyled classAttribute bound hs)

theorem turns_styleSheetPass {options : CompileOptions} (hmaps : options.MapsAll)
    (classAttribute : String) :
    (styleSheetPass classAttribute options).Turns Draft.Sound Draft.Sound := by
  intro d hd
  obtain ⟨styles, hstyles, hplain⟩ := exists_styledElements hmaps [] d.styled
  by_cases hempty : (styleSheet styles).isEmpty
  · refine ⟨_, bind_eq_ok_iff.mpr ⟨styles, hstyles, (if_pos hempty).trans rfl⟩, ?_⟩
    exact hd.foldl_setStyled classAttribute "" hplain
  · refine ⟨_, bind_eq_ok_iff.mpr ⟨styles, hstyles, (if_neg hempty).trans rfl⟩, ?_⟩
    refine ((hd.withImports _).foldl_setStyled classAttribute _ hplain).put ⟨?_, ?_⟩
    · exact fun link hlink => absurd hlink List.not_mem_nil
    · exact fun id hid => absurd hid List.not_mem_nil

/-! ### Prop types, templates and imports -/

theorem elementIds_validator (propTypes : String) (p : PropDefinition) :
    (p.validator propTypes).elementIds = [] := by
  unfold PropDefinition.validator
  split <;> rfl

theorem elementIds_propDefaults (props : Dict PropDefinition) :
    elementIdsOfProperties (propDefaults props) = [] := by
  refine elementIdsOfProperties_filterMap (fun prop entry hentry => ?_) props
  obtain ⟨value, -, rfl⟩ := Option.map_eq_some_iff.mp hentry
  exact Expr.elementIds_ofScalar value

theorem elementIds_propStatements (name propTypes : String) (props : Dict PropDefinition) :
    elementIdsOfBlock (propStatements name propTypes props) = [] := by
  unfold propStatements
  split
  all_goals
    simp only [elementIdsOfBlock, Statement.elementIds, Expr.elementIds, elementIds_propDefaults,
      List.append_nil, List.nil_append]
    exact elementIdsOfProperties_map (fun entry => elementIds_validator propTypes entry.2) props

theorem turns_propTypesPass : propTypesPass.Turns Draft.Sound Draft.Sound := by
  intro d hd
  refine ⟨_, rfl, ?_⟩
  unfold Draft.declareProps
  split
  · exact hd
  · refine Draft.Sound.linkAfter ((hd.withImports _).put ?_) (by decide)
    exact Chunk.fits_script (by decide) (elementIds_propStatements _ _ _) _

theorem elementIds_unlessEmpty (name : String) {properties : List (String × Expr)}
    (h : elementIdsOfProperties properties = []) :
    elementIdsOfProperties (unlessEmpty name properties) = [] := by
  rw [unlessEmpty]
  split
  · rfl
  · rw [elementIdsOfProperties, Expr.elementIds, h]
    rfl

theorem elementIds_vueOptions? {p : PropDefinition} {e : Expr} (h : p.vueOptions? = some e) :
    e.elementIds = [] := by
  obtain ⟨constructor, -, rfl⟩ := Option.map_eq_some_iff.mp h
  rw [Expr.elementIds, elementIdsOfProperties_append, elementIdsOfProperties_append]
  have hrequired : elementIdsOfProperties (if p.required then [("required", .bool true)] else []) =
      [] := by
    split <;> rfl
  have hdefault : elementIdsOfProperties
      (p.default.map fun value => ("default", Expr.ofScalar value)).toList = [] := by
    cases p.default with
    | none => rfl
    | some value => simp [elementIdsOfProperties]
  rw [hrequired, hdefault]
  rfl

theorem elementIds_vueData (c : Component) : elementIdsOfProperties (vueData c) = [] := by
  rw [vueData, elementIdsOfProperties_append, elementIdsOfProperties_map, List.nil_append]
  · split <;> rfl
  · exact fun entry => Expr.elementIds_ofScalar entry.2.default

theorem elementIds_vueOptions (c : Component) (components : List String) :
    elementIdsOfProperties (vueOptions c components) = [] := by
  rw [vueOptions, elementIdsOfProperties_append, elementIdsOfProperties_append,
    elementIdsOfProperties_append, elementIds_unlessEmpty, elementIds_unlessEmpty]
  · split <;> simp [elementIdsOfProperties, Expr.elementIds, elementIds_vueData]
  · refine elementIdsOfProperties_filterMap (fun prop entry hentry => ?_) c.props
    obtain ⟨e, he, rfl⟩ := Option.map_eq_some_iff.mp hentry
    exact elementIds_vueOptions? he
  · exact elementIdsOfProperties_map (fun _ => rfl) components

theorem elementIds_vueScript (c : Component) (components : List String) :
    elementIdsOfBlock (vueScript c components) = [] := by
  rw [vueScript, elementIdsOfBlock_eq, List.flatMap_append, List.flatMap_singleton,
    Statement.elementIds, Expr.elementIds, elementIds_vueOptions, List.append_nil]
  split
  · rfl
  · rw [← elementIdsOfBlock_eq, elementIds_tokensConstant]

theorem turns_vuePass : vuePass.Turns Draft.Sound Draft.Sound := by
  intro d hd
  have halike : Template.Alike Template.exprText Template.exprText := fun _ _ => rfl
  obtain ⟨markup, template, hmarkup, -⟩ :=
    Template.exists_node halike d.component.node 0 { imports := d.imports }
  refine ⟨_, bind_eq_ok_iff.mpr ⟨(markup, template), hmarkup, rfl⟩, ?_⟩
  refine ((hd.withImports _).put ⟨?_, ?_⟩).put ?_
  · exact fun link hlink => absurd hlink List.not_mem_nil
  · exact fun id hid => absurd hid List.not_mem_nil
  · exact Chunk.fits_script (by decide) (elementIds_vueScript _ _) _

/-- Import statements refer to no element. -/
theorem Draft.Sound.putImports {d : Draft} (h : d.Sound) {name : String} {kind : DependencyKind}
    {after : List String} (hlinks : ∀ link ∈ after, ChunkName.rank link < ChunkName.rank name) :
    (d.putImports name kind after).Sound := by
  unfold Draft.putImports
  split
  · exact h
  · refine h.put (Chunk.fits_script hlinks ?_ _)
    rw [elementIdsOfBlock_eq, List.flatMap_map, List.flatMap_eq_nil_iff]
    exact fun _ _ => rfl

theorem turns_importPass : importPass.Turns Draft.Sound Draft.Sound :=
  fun _ hd => ⟨_, rfl, ((hd.putImports (by decide)).putImports (by decide)).putImports (by decide)⟩

end ViewGen
