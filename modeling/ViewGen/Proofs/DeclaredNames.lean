import ViewGen.Proofs.ComponentImports

/-!
# Names declared in a component's module

The module of a function component declares its imports, the constant of the design tokens and the
component; the body of the component declares every state with its setter.  Of these names only the
one of the component is kept from the imports.  So the names of a module are different unless the
design tokens meet an import or the component, and the names of a body are different unless two
states are alike or one has the name of a setter.

## Main definitions

* `Statement.declaredNames`, `Statement.bodyNames` — the names that a statement declares in the block
  around it, and in the body of its own function
* `Draft.moduleNames`, `Draft.bodyNames` — the names that a module declares

## Main statements

* `exists_perm_statements` — the statements of a function component, up to their order
* `nodup_moduleNames_iff`, `nodup_stateNames_iff` — when the names are different
* `declared_names_distinct_iff` — both for every component that is generated
-/

namespace ViewGen

/-! ## What statements declare -/

/-- The names that a statement declares in the block around it. -/
def Statement.declaredNames : Statement → List String
  | .importing d => d.names.map ImportedName.bound
  | .constant (.name name) _ => [name]
  | .constant (.array names) _ => names
  | _ => []

/-- The names that are declared in a block. -/
def blockNames (statements : List Statement) : List String :=
  statements.flatMap Statement.declaredNames

/-- The names that are declared in the body of the function that a statement gives a name. -/
def Statement.bodyNames : Statement → List String
  | .constant _ (.arrowBlock _ body) => blockNames body
  | _ => []

/-- The statements of chunks. -/
def statementsOf (chunks : List Chunk) : List Statement :=
  chunks.flatMap fun c => c.statements?.getD []

namespace Draft

/-- The names that the module of a draft declares outside of functions. -/
def moduleNames (d : Draft) : List String :=
  blockNames (statementsOf d.chunks)

/-- The names that the module of a draft declares in the bodies of functions. -/
def bodyNames (d : Draft) : List String :=
  (statementsOf d.chunks).flatMap Statement.bodyNames

end Draft

theorem statementsOf_append (chunks others : List Chunk) :
    statementsOf (chunks ++ others) = statementsOf chunks ++ statementsOf others :=
  List.flatMap_append

/-- A chunk under a new name is put at the end. -/
theorem Chunk.put_of_notMem {c : Chunk} {chunks : List Chunk} (h : c.name ∉ chunkNames chunks) :
    c.put chunks = chunks ++ [c] := by
  induction chunks with
  | nil => rfl
  | cons d rest ih =>
      rw [chunkNames_cons, List.mem_cons, not_or] at h
      rw [put, if_neg (Ne.symm h.1), ih h.2, List.cons_append]

theorem statementsOf_put {c : Chunk} {chunks : List Chunk} (h : c.name ∉ chunkNames chunks) :
    statementsOf (c.put chunks) = statementsOf chunks ++ c.statements?.getD [] := by
  rw [Chunk.put_of_notMem h, statementsOf_append]
  exact congrArg (statementsOf chunks ++ ·) (List.append_nil _)

theorem statementsOf_linkAfter (name link : String) (chunks : List Chunk) :
    statementsOf (linkAfter name link chunks) = statementsOf chunks := by
  induction chunks with
  | nil => rfl
  | cons c rest ih =>
      rw [linkAfter]
      split
      · rfl
      · exact congrArg (c.statements?.getD [] ++ ·) ih

/-! ## The statements of each pass -/

/-- The import statements for a table, from packages to the project. -/
def importStatements (t : ImportTable) : List Statement :=
  (importDeclarations .package t ++ (importDeclarations .custom t ++
    importDeclarations .project t)).map .importing

namespace Draft

variable {d d' : Draft}

theorem statements_putImports {name : String} (h : name ∉ chunkNames d.chunks)
    (kind : DependencyKind) (after : List String) :
    statementsOf (d.putImports name kind after).chunks =
      statementsOf d.chunks ++ (importDeclarations kind d.imports).map .importing := by
  unfold putImports
  split
  · next hnone => rw [hnone, List.map_nil, List.append_nil]
  · exact statementsOf_put h

theorem notMem_chunkNames_putImports {name other : String} (hne : other ≠ name)
    (h : other ∉ chunkNames d.chunks) (kind : DependencyKind) (after : List String) :
    other ∉ chunkNames (d.putImports name kind after).chunks := by
  unfold putImports
  split
  · exact h
  · exact fun hmem => (mem_chunkNames_put.mp hmem).elim hne h

/-- The import pass adds the import statements. -/
theorem statements_importPass (h : ∀ name ∈ ChunkName.imports, name ∉ chunkNames d.chunks)
    (hrun : importPass.run d = .ok d') :
    statementsOf d'.chunks = statementsOf d.chunks ++ importStatements d.imports := by
  obtain rfl := Except.ok.inj hrun
  have hpackage := h ChunkName.packageImports (by decide)
  have hcustom := notMem_chunkNames_putImports (by decide : _ ≠ ChunkName.packageImports)
    (h ChunkName.customImports (by decide)) .package []
  have hproject := notMem_chunkNames_putImports (by decide : _ ≠ ChunkName.customImports)
    (notMem_chunkNames_putImports (by decide : _ ≠ ChunkName.packageImports)
      (h ChunkName.projectImports (by decide)) .package []) .custom [ChunkName.packageImports]
  rw [statements_putImports hproject, statements_putImports hcustom, statements_putImports hpackage,
    imports_putImports, imports_putImports, imports_putImports, importStatements, List.map_append,
    List.map_append, List.append_assoc, List.append_assoc]

end Draft

/-- The chunks that the passes after the component may add. -/
def ChunkName.late : List String :=
  [styleSheet, propTypes] ++ imports

/-- Styles add no statement and no other chunk than the style sheet. -/
theorem statements_stylePass {o : GeneratorOptions} {d d' : Draft}
    (h : ChunkName.styleSheet ∉ chunkNames d.chunks) (hrun : o.stylePass.run d = .ok d') :
    statementsOf d'.chunks = statementsOf d.chunks ∧
      ∀ name ∈ chunkNames d'.chunks, name = ChunkName.styleSheet ∨ name ∈ chunkNames d.chunks := by
  unfold GeneratorOptions.stylePass at hrun
  split at hrun
  · obtain ⟨arena, rfl⟩ := Draft.exists_setStyles hrun
    exact ⟨rfl, fun name hname => .inr hname⟩
  · obtain ⟨arena, rfl | ⟨sheet, rfl⟩⟩ := Draft.exists_moveStyles hrun
    · exact ⟨rfl, fun name hname => .inr hname⟩
    · refine ⟨?_, fun name hname => mem_chunkNames_put.mp hname⟩
      have hput := statementsOf_put (c := ⟨ChunkName.styleSheet, .css, .text sheet, []⟩) h
      exact hput.trans (List.append_nil _)

/-- The types of the props add assignments only, and no other chunk than their own. -/
theorem exists_statements_propTypesPass {d d' : Draft}
    (h : ChunkName.propTypes ∉ chunkNames d.chunks) (hrun : propTypesPass.run d = .ok d') :
    ∃ props : List Statement, (∀ s ∈ props, ∃ target value, s = .assign target value) ∧
      statementsOf d'.chunks = statementsOf d.chunks ++ props ∧
      ∀ name ∈ chunkNames d'.chunks, name = ChunkName.propTypes ∨ name ∈ chunkNames d.chunks := by
  obtain rfl := Except.ok.inj hrun
  unfold Draft.declareProps
  split
  · exact ⟨[], fun s hs => absurd hs List.not_mem_nil, (List.append_nil _).symm,
      fun name hname => .inr hname⟩
  · let bound := (d.register "PropTypes" (.package "prop-types" propTypesVersion)).1
    refine ⟨propStatements (componentName d.component.name) bound d.component.props, ?_, ?_, ?_⟩
    · intro s hs
      rw [propStatements] at hs
      split at hs
      · exact ⟨_, _, List.mem_singleton.mp hs⟩
      · rcases List.mem_cons.mp hs with rfl | hs
        · exact ⟨_, _, rfl⟩
        · exact ⟨_, _, List.mem_singleton.mp hs⟩
    · refine (statementsOf_linkAfter _ _ _).trans ?_
      exact statementsOf_put (c := .script ChunkName.propTypes _ _) h
    · intro name hname
      rw [chunkNames_linkAfter] at hname
      exact mem_chunkNames_put.mp hname

/-- Imports and the order of the chunks come last. -/
theorem perm_statements_runPasses_importPass {d d' : Draft}
    (h : ∀ name ∈ ChunkName.imports, name ∉ chunkNames d.chunks)
    (hrun : runPasses [importPass] d = .ok d') :
    (statementsOf d'.chunks).Perm (statementsOf d.chunks ++ importStatements d'.imports) := by
  obtain ⟨imported, himported, horder⟩ := runPasses_cons_iff.mp hrun
  obtain ⟨d₁, hd₁, horder⟩ := bind_eq_ok_iff.mp horder
  obtain rfl := Except.ok.inj hd₁
  obtain ⟨chunks, hchunks, hd'⟩ := bind_eq_ok_iff.mp horder
  obtain rfl := Except.ok.inj hd'
  show (statementsOf chunks).Perm (statementsOf d.chunks ++ importStatements imported.imports)
  rw [Draft.imports_importPass himported, ← Draft.statements_importPass h himported]
  exact (perm_of_orderChunks hchunks).flatMap_right _

/-- The passes after the component add assignments and the import statements. -/
theorem exists_perm_statements_late {o : GeneratorOptions} {later : List Pass}
    (hlater : later = [o.stylePass] ∨ later = [o.stylePass, propTypesPass]) {d d' : Draft}
    (h : ∀ name ∈ ChunkName.late, name ∉ chunkNames d.chunks)
    (hrun : runPasses (later ++ [importPass]) d = .ok d') :
    ∃ props : List Statement, (∀ s ∈ props, ∃ target value, s = .assign target value) ∧
      (statementsOf d'.chunks).Perm
        (statementsOf d.chunks ++ props ++ importStatements d'.imports) := by
  have hstyles : ∀ {styled : Draft}, o.stylePass.run d = .ok styled →
      statementsOf styled.chunks = statementsOf d.chunks ∧
        ∀ name ∈ ChunkName.propTypes :: ChunkName.imports, name ∉ chunkNames styled.chunks := by
    intro styled hstyled
    obtain ⟨hstatements, hnames⟩ := statements_stylePass (h _ (by decide)) hstyled
    refine ⟨hstatements, fun name hname hmem => ?_⟩
    have hother : ∀ name ∈ ChunkName.propTypes :: ChunkName.imports,
        name ≠ ChunkName.styleSheet ∧ name ∈ ChunkName.late := by decide
    exact (hnames name hmem).elim (hother name hname).1 (h name (hother name hname).2)
  rcases hlater with rfl | rfl
  · obtain ⟨styled, hstyled, hlast⟩ := runPasses_cons_iff.mp hrun
    obtain ⟨hstatements, hnames⟩ := hstyles hstyled
    have hperm := perm_statements_runPasses_importPass
      (fun name hname => hnames name (List.mem_cons_of_mem _ hname)) hlast
    refine ⟨[], fun s hs => absurd hs List.not_mem_nil, ?_⟩
    rwa [List.append_nil, ← hstatements]
  · obtain ⟨styled, hstyled, hrest⟩ := runPasses_cons_iff.mp hrun
    obtain ⟨typed, htyped, hlast⟩ := runPasses_cons_iff.mp hrest
    obtain ⟨hstatements, hnames⟩ := hstyles hstyled
    obtain ⟨props, hprops, hadded, htypes⟩ :=
      exists_statements_propTypesPass (hnames _ List.mem_cons_self) htyped
    refine ⟨props, hprops, ?_⟩
    rw [← hstatements, ← hadded]
    refine perm_statements_runPasses_importPass (fun name hname hmem => ?_) hlast
    have hother : ∀ name ∈ ChunkName.imports, name ≠ ChunkName.propTypes := by decide
    exact (htypes name hmem).elim (hother name hname) (hnames name (List.mem_cons_of_mem _ hname))

/-- The statements that declare a component: its design tokens if it has any, the function, and the
export. -/
def componentStatements (c : Component) (useState : String) (root : Target) : List Statement :=
  (if c.tokens.isEmpty then [] else [c.tokensConstant]) ++
    [.constant (.name (componentName c.name)) (.arrowBlock ["props"] (functionBodyOf useState c root)),
      .exporting (.ident (componentName c.name))]

/-- A component that is declared first adds its own statements, and none of the late chunks. -/
theorem exists_statements_functionComponentPass {framework : Framework} {options : CompileOptions}
    {d d' : Draft} (h : d.chunks = [])
    (hrun : (functionComponentPass framework options).run d = .ok d') :
    ∃ useState root, statementsOf d'.chunks = componentStatements d.component useState root ∧
      ∀ name ∈ ChunkName.late, name ∉ chunkNames d'.chunks := by
  obtain ⟨runtime, hruntime⟩ := Draft.exists_runtime_of_declareComponent hrun
  obtain ⟨imports, body, w, -, hbody, rfl⟩ := (Draft.declareComponent_iff hruntime).mp hrun
  obtain ⟨useState, registered, hyields⟩ := yields_functionBody_iff runtime options d.component
    { d.workspace with imports }
  obtain ⟨root, -, rfl⟩ := (hyields body w).mp hbody
  refine ⟨useState, root, ?_⟩
  rw [chunks_addComponent (d := { d with workspace := w }) h, componentStatements]
  dsimp only
  cases d.component.tokens.isEmpty with
  | true =>
      refine ⟨rfl, ?_⟩
      show ∀ name ∈ ChunkName.late, name ∉ [ChunkName.component, ChunkName.exporting]
      decide
  | false =>
      refine ⟨rfl, ?_⟩
      show ∀ name ∈ ChunkName.late,
        name ∉ [ChunkName.tokens, ChunkName.component, ChunkName.exporting]
      decide

/-- **The statements of a function component**, up to their order: those that declare it,
assignments for the types of its props, and the import statements for its table. -/
theorem exists_perm_statements {o : GeneratorOptions} (hframework : o.framework ≠ .vue)
    {c : Component} {fileName : String} {d : Draft}
    (hrun : runPasses o.passes { component := c, fileName } = .ok d) :
    ∃ useState root, ∃ props : List Statement,
      (∀ s ∈ props, ∃ target value, s = .assign target value) ∧
        (statementsOf d.chunks).Perm
          (componentStatements c useState root ++ props ++ importStatements d.imports) := by
  obtain ⟨later, declared, hlater, -, hdeclared, hlast⟩ :=
    exists_declared_of_runPasses hframework hrun
  obtain ⟨useState, root, hstatements, hnames⟩ :=
    exists_statements_functionComponentPass rfl hdeclared
  obtain ⟨props, hprops, hperm⟩ := exists_perm_statements_late hlater hnames hlast
  refine ⟨useState, root, props, hprops, ?_⟩
  rw [hstatements] at hperm
  exact hperm

/-! ## The names of a module -/

theorem blockNames_append (statements others : List Statement) :
    blockNames (statements ++ others) = blockNames statements ++ blockNames others :=
  List.flatMap_append

/-- The import statements declare the names that the table binds. -/
theorem perm_blockNames_importStatements (t : ImportTable) :
    (blockNames (importStatements t)).Perm t.entries.keys := by
  have hdeclared : ∀ kind, (blockNames ((importDeclarations kind t).map .importing)).Perm
      (t.entriesOfKind kind).keys := by
    intro kind
    have hnames := (declares_importDeclarations kind t).names.map ImportedName.bound
    rw [List.map_flatMap, List.map_map] at hnames
    rw [blockNames, List.flatMap_map]
    exact hnames
  have hall := t.perm_entriesOfKind.map Prod.fst
  rw [List.map_append, List.map_append] at hall
  rw [importStatements, List.map_append, List.map_append, blockNames_append, blockNames_append]
  exact ((hdeclared _).append ((hdeclared _).append (hdeclared _))).trans hall

theorem blockNames_of_assign {statements : List Statement}
    (h : ∀ s ∈ statements, ∃ target value, s = .assign target value) :
    blockNames statements = [] ∧ statements.flatMap Statement.bodyNames = [] := by
  constructor
  · refine List.flatMap_eq_nil_iff.mpr fun s hs => ?_
    obtain ⟨target, value, rfl⟩ := h s hs
    rfl
  · refine List.flatMap_eq_nil_iff.mpr fun s hs => ?_
    obtain ⟨target, value, rfl⟩ := h s hs
    rfl

/-- The name of the design tokens, if a component has any. -/
def Component.tokenNames (c : Component) : List String :=
  if c.tokens.isEmpty then [] else [tokensName]

/-- The names of the states and of their setters. -/
def Component.stateNames (c : Component) : List String :=
  c.states.keys ++ c.states.keys.map setterName

/-- The hooks declare every state and its setter. -/
theorem perm_blockNames_functionBodyOf (useState : String) (c : Component) (root : Target) :
    (blockNames (functionBodyOf useState c root)).Perm c.stateNames := by
  rw [functionBodyOf, blockNames_append, Component.stateNames, Dict.keys, List.map_map]
  have hreturn : blockNames [.returning root.toExpr] = [] := rfl
  rw [hreturn, List.append_nil]
  induction c.states with
  | nil => exact .refl _
  | cons state rest ih =>
      exact ((ih.cons (setterName state.1)).trans List.perm_middle.symm).cons state.1

/-- **What the module of a function component declares**: the names that its table binds, the name of
its design tokens, its own name, and in its body its states and their setters. -/
theorem perm_names_of_runPasses {o : GeneratorOptions} (hframework : o.framework ≠ .vue)
    {c : Component} {fileName : String} {d : Draft}
    (hrun : runPasses o.passes { component := c, fileName } = .ok d) :
    d.moduleNames.Perm (d.imports.entries.keys ++ c.tokenNames ++ [componentName c.name]) ∧
      d.bodyNames.Perm c.stateNames := by
  obtain ⟨useState, root, props, hprops, hperm⟩ := exists_perm_statements hframework hrun
  obtain ⟨hpropNames, hpropBodies⟩ := blockNames_of_assign hprops
  constructor
  · have hcomponent : blockNames (componentStatements c useState root) =
        c.tokenNames ++ [componentName c.name] := by
      unfold componentStatements Component.tokenNames
      split <;> rfl
    have hnames : d.moduleNames.Perm (blockNames _) := hperm.flatMap_right _
    rw [blockNames_append, blockNames_append, hcomponent, hpropNames, List.append_nil] at hnames
    rw [List.append_assoc]
    exact (hnames.trans ((perm_blockNames_importStatements _).append_left _)).trans
      List.perm_append_comm
  · have hcomponent : (componentStatements c useState root).flatMap Statement.bodyNames =
        blockNames (functionBodyOf useState c root) := by
      unfold componentStatements
      split <;> simp only [List.flatMap_append, List.flatMap_cons, List.flatMap_nil,
        Component.tokensConstant, Statement.bodyNames, List.append_nil, List.nil_append]
    have himports : (importStatements d.imports).flatMap Statement.bodyNames = [] := by
      refine List.flatMap_eq_nil_iff.mpr fun s hs => ?_
      obtain ⟨declaration, -, rfl⟩ := List.mem_map.mp hs
      rfl
    have hnames := hperm.flatMap_right Statement.bodyNames
    rw [List.flatMap_append, List.flatMap_append, hcomponent, hpropBodies, himports,
      List.append_nil, List.append_nil] at hnames
    exact hnames.trans (perm_blockNames_functionBodyOf useState c root)

/-! ## When the names are different -/

/-- The table of a function component is proper, and the name of the component is kept from it. -/
theorem proper_of_runPasses {o : GeneratorOptions} (hframework : o.framework ≠ .vue)
    {c : Component} {fileName : String} {d : Draft}
    (hrun : runPasses o.passes { component := c, fileName } = .ok d) :
    d.imports.Proper ∧ componentName c.name ∈ d.imports.reserved := by
  obtain ⟨later, declared, -, hlater, hdeclared, hlast⟩ :=
    exists_declared_of_runPasses hframework hrun
  have hkeeps : declared.Keeps d := keeps_runPasses hlater hlast
  obtain ⟨runtime, hruntime⟩ := Draft.exists_runtime_of_declareComponent hdeclared
  obtain ⟨imports, body, w, hreserve, hbody, rfl⟩ :=
    (Draft.declareComponent_iff hruntime).mp hdeclared
  obtain ⟨hgrows, hreserved⟩ := Draft.grows_of_reserve hreserve
  have hcompiled := keeps_functionBody o.injectsAfter_compileOptions.keepsElements hbody
  have hfinal := hkeeps.workspace
  rw [Draft.workspace_addComponent] at hfinal
  have himports : imports.Grows d.imports := hcompiled.imports.trans hfinal.imports
  exact ⟨himports.proper (hgrows.proper ImportTable.proper_empty),
    himports.reserved.subset hreserved⟩

/-- Where imports and the component are told apart, the names of a module are different unless the
design tokens meet one of them. -/
theorem nodup_moduleNames_iff {c : Component} {bound : List String}
    (h : (bound ++ [componentName c.name]).Nodup) :
    (bound ++ c.tokenNames ++ [componentName c.name]).Nodup ↔
      c.tokens = [] ∨ tokensName ∉ bound ∧ componentName c.name ≠ tokensName := by
  have hperm : (bound ++ c.tokenNames ++ [componentName c.name]).Perm
      (c.tokenNames ++ (bound ++ [componentName c.name])) := by
    rw [← List.append_assoc]
    exact List.perm_append_comm.append_right _
  rw [hperm.nodup_iff, Component.tokenNames]
  cases hempty : c.tokens with
  | nil => simpa using h
  | cons token rest =>
      rw [List.isEmpty_cons, if_neg Bool.false_ne_true, List.singleton_append, List.nodup_cons,
        List.mem_append, List.mem_singleton, not_or]
      simp [h, eq_comm]

/-- States and setters are different unless two states are alike in upper camel case or a state has
the name of a setter. -/
theorem nodup_stateNames_iff (c : Component) :
    c.stateNames.Nodup ↔ (c.states.keys.map Text.pascal).Nodup ∧
      ∀ state ∈ c.states.keys, setterName state ∉ c.states.keys := by
  have hsetters : (c.states.keys.map setterName).Nodup ↔ (c.states.keys.map Text.pascal).Nodup := by
    unfold List.Nodup
    rw [List.pairwise_map, List.pairwise_map]
    simp only [setterName, ne_eq, String.append_right_inj]
  rw [Component.stateNames, List.nodup_append, hsetters]
  constructor
  · rintro ⟨-, hpascal, hdistinct⟩
    refine ⟨hpascal, fun state hstate hmem => ?_⟩
    exact hdistinct _ hmem _ (List.mem_map.mpr ⟨state, hstate, rfl⟩) rfl
  · rintro ⟨hpascal, hdistinct⟩
    refine ⟨hpascal.of_map, hpascal, fun name hname setter hsetter heq => ?_⟩
    obtain ⟨state, hstate, rfl⟩ := List.mem_map.mp hsetter
    exact hdistinct state hstate (heq ▸ hname)

/-- A component that is generated has passed through all passes. -/
theorem Generator.exists_runPasses_of_generate {o : GeneratorOptions} {c : Component}
    {r : CompiledComponent} (h : (ofOptions o).generate c = .ok r) :
    ∃ d, runPasses o.passes
        { component := c, fileName := o.fileName.getD (kebabName c.name) } = .ok d ∧
      r = ⟨(ofOptions o).emit d, d.imports⟩ := by
  obtain ⟨_, -, h⟩ := bind_eq_ok_iff.mp h
  obtain ⟨_, -, h⟩ := bind_eq_ok_iff.mp h
  obtain ⟨d, hd, hr⟩ := bind_eq_ok_iff.mp h
  exact ⟨d, hd, (Except.ok.inj hr).symm⟩

/-- **When a component declares no name twice.**  In the draft of every function component that is
generated:

* the names outside of functions are those that its imports bind, the one of the design tokens if
  there are any, and the one of the component; those of the imports and the component are different;
* all of them are different unless there are design tokens and an import or the component has their
  name, and such an import is that of an element;
* the names in the body are the states and their setters; they are different unless two states are
  alike in upper camel case or a state has the name of a setter. -/
theorem declared_names_distinct_iff (o : GeneratorOptions) (hframework : o.framework ≠ .vue)
    (c : Component) {r : CompiledComponent} (h : (Generator.ofOptions o).generate c = .ok r) :
    ∃ d, runPasses o.passes
        { component := c, fileName := o.fileName.getD (kebabName c.name) } = .ok d ∧
      r = ⟨(Generator.ofOptions o).emit d, d.imports⟩ ∧
      d.moduleNames.Perm (r.imports.entries.keys ++ c.tokenNames ++ [componentName c.name]) ∧
      (r.imports.entries.keys ++ [componentName c.name]).Nodup ∧
      (d.moduleNames.Nodup ↔ c.tokens = [] ∨
        tokensName ∉ r.imports.entries.keys ∧ componentName c.name ≠ tokensName) ∧
      (tokensName ∈ r.imports.entries.keys → ∃ e ∈ c.node.elements, ∃ dependency,
        e.dependency = some dependency ∧
          ImportTable.MayBind dependency.path e.tag tokensName) ∧
      d.bodyNames.Perm (c.states.keys ++ c.states.keys.map setterName) ∧
      (d.bodyNames.Nodup ↔ (c.states.keys.map Text.pascal).Nodup ∧
        ∀ state ∈ c.states.keys, setterName state ∉ c.states.keys) := by
  obtain ⟨d, hrun, rfl⟩ := Generator.exists_runPasses_of_generate h
  obtain ⟨hmodule, hbody⟩ := perm_names_of_runPasses hframework hrun
  obtain ⟨hproper, hreserved⟩ := proper_of_runPasses hframework hrun
  have hunbound : componentName c.name ∉ d.imports.entries.keys :=
    hproper.disjoint _ hreserved
  have hapart : (d.imports.entries.keys ++ [componentName c.name]).Nodup := by
    refine List.nodup_append.mpr ⟨hproper.nodup, List.nodup_singleton _, ?_⟩
    intro bound hbound name hname heq
    rw [heq, List.mem_singleton.mp hname] at hbound
    exact hunbound hbound
  refine ⟨d, hrun, rfl, hmodule, hapart, ?_, ?_, hbody, ?_⟩
  · exact hmodule.nodup_iff.trans (nodup_moduleNames_iff hapart)
  · exact exists_element_of_tokensName_mem hframework hrun
  · exact hbody.nodup_iff.trans (nodup_stateNames_iff c)

/-- A panel that is open or closed, with an icon and a color from its design tokens. -/
def openPanel : Component where
  name := "Panel"
  tokens := [("color", .text "red")]
  states := [("isOpen", { type := .bool, default := .bool false })]
  node := .element {
    tag := "div"
    children := [.element { tag := "Icon", dependency := some (.ofProject "./icon") }] }

/-- The panel declares no name twice. -/
theorem openPanel_names_distinct :
    ∃ d, (Generator.ofOptions {}).generate openPanel =
        .ok ⟨(Generator.ofOptions {}).emit d, d.imports⟩ ∧
      d.moduleNames.Nodup ∧ d.bodyNames.Nodup := by
  have hgenerate : (Generator.ofOptions {}).generate openPanel = .ok _ := rfl
  obtain ⟨d, -, hd, -, -, hmodule, -, -, hbody⟩ :=
    declared_names_distinct_iff {} (by decide) openPanel hgenerate
  refine ⟨d, hd ▸ hgenerate, hmodule.mpr (.inr ⟨by decide, by decide⟩), hbody.mpr (by decide)⟩

/-- The panel with an imported element in place of the icon that has the name of the design
tokens. -/
def tokensPanel : Component where
  name := "Panel"
  tokens := [("color", .text "red")]
  node := .element {
    tag := "div"
    children := [.element { tag := "TOKENS", dependency := some (.ofProject "./tokens") }] }

/-- A panel with two states that only their spelling tells apart. -/
def respelledPanel : Component where
  name := "Panel"
  states := [("isOpen", { type := .bool, default := .bool false }),
    ("is_open", { type := .bool, default := .bool true })]
  node := .element { tag := "div" }

/-- The name of the design tokens is not kept from the imports, and setters are not told apart: both
panels are generated, and the first declares `TOKENS` twice, the second `setIsOpen`. -/
theorem panels_declare_names_twice :
    (∃ d, (Generator.ofOptions {}).generate tokensPanel =
        .ok ⟨(Generator.ofOptions {}).emit d, d.imports⟩ ∧
      runPasses ({} : GeneratorOptions).passes
        { component := tokensPanel, fileName := "panel" } = .ok d ∧
      d.moduleNames = ["React", "TOKENS", "TOKENS", "Panel"]) ∧
    ∃ d, (Generator.ofOptions {}).generate respelledPanel =
        .ok ⟨(Generator.ofOptions {}).emit d, d.imports⟩ ∧
      runPasses ({} : GeneratorOptions).passes
        { component := respelledPanel, fileName := "panel" } = .ok d ∧
      d.bodyNames = ["isOpen", "setIsOpen", "is_open", "setIsOpen"] := by
  constructor
  · exact ⟨_, rfl, rfl, rfl⟩
  · exact ⟨_, rfl, rfl, rfl⟩

end ViewGen
