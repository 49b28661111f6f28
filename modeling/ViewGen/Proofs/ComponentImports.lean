import ViewGen.Proofs.DeclarationOrder
import ViewGen.Proofs.ImportedExports

/-!
# Where the imports of a component come from

The table of a component is filled in several places: the framework and its hooks first, then the
elements in the order of the document, then a style sheet and the types of the props.  Every binding
at the end goes back to one of these requests, so a name can be bound only if one of them may be
given it.

## Main definitions

* `elementRequests` — what the elements of a tree ask for
* `ImportTable.Answered` — all new bindings of a table answer some requests
* `Runtime.requests`, `lateRequests` — what is asked for before and after the elements

## Main statements

* `answered_node` — a compilation binds what the elements of the tree ask for
* `elementRequests_withKeys` — keys do not matter to requests
* `exists_answers_of_runPasses` — every binding of a function component answers a request
* `exists_element_of_tokensName_mem` — only an element can take the name of the design tokens
-/

namespace ViewGen

open Compile (Yields yields_bind_iff yields_pure yields_register)

/-- What elements ask for: the import of its tag, for each element that has a dependency. -/
def elementRequests (elements : List (Element Node)) : Dict Dependency :=
  elements.flatMap fun e => e.dependency.toList.map (e.tag, ·)

theorem elementRequests_append (es others : List (Element Node)) :
    elementRequests (es ++ others) = elementRequests es ++ elementRequests others :=
  List.flatMap_append

/-- An element asks for its own import before those of the elements inside it. -/
theorem elementRequests_elementsOf (e : Element Node) :
    elementRequests (Node.elementsOf e) = e.dependency.toList.map (e.tag, ·) ++
      (elementRequests (Node.elementsOfAttrs e.attrs) ++
        elementRequests (Node.elementsOfAll e.children)) := by
  obtain ⟨tag, name, key, selfClosing, attrs, events, style, children, dependency⟩ := e
  rw [Node.elementsOf, ← elementRequests_append]
  rfl

theorem mem_elementRequests {es : List (Element Node)} {request : String × Dependency} :
    request ∈ elementRequests es ↔
      ∃ e ∈ es, e.dependency = some request.2 ∧ e.tag = request.1 := by
  obtain ⟨name, d⟩ := request
  simp only [elementRequests, List.mem_flatMap, List.mem_map, Option.mem_toList, Prod.mk.injEq]
  refine exists_congr fun e => and_congr_right fun _ => ?_
  constructor
  · rintro ⟨d, hd, rfl, rfl⟩
    exact ⟨hd, rfl⟩
  · rintro ⟨hd, rfl⟩
    exact ⟨d, hd, rfl, rfl⟩

/-! ## Answered requests -/

namespace ImportTable

/-- Every binding of the second table is there in the first or answers one of the requests. -/
def Answered (requests : Dict Dependency) (t u : ImportTable) : Prop :=
  ∀ entry ∈ u.entries, entry ∈ t.entries ∨ ∃ request ∈ requests, Answers request entry

theorem Answered.refl (requests : Dict Dependency) (t : ImportTable) : Answered requests t t :=
  fun _ hentry => .inl hentry

theorem Answered.mono {requests others : Dict Dependency} {t u : ImportTable}
    (h : Answered requests t u) (hsubset : requests ⊆ others) : Answered others t u :=
  fun entry hentry => (h entry hentry).imp_right
    fun ⟨request, hrequest, hanswers⟩ => ⟨request, hsubset hrequest, hanswers⟩

theorem Answered.trans {requests others : Dict Dependency} {t u v : ImportTable}
    (h : Answered requests t u) (h' : Answered others u v) : Answered (requests ++ others) t v := by
  intro entry hentry
  rcases h' entry hentry with hold | ⟨request, hrequest, hanswers⟩
  · exact h.mono (List.subset_append_left _ _) entry hold
  · exact .inr ⟨request, List.mem_append_right _ hrequest, hanswers⟩

theorem answered_register (t : ImportTable) (name : String) (d : Dependency) :
    Answered [(name, d)] t (t.register name d).2 :=
  fun _ hentry => (answers_register hentry).imp_right
    fun hanswers => ⟨(name, d), List.mem_singleton_self _, hanswers⟩

end ImportTable

open ImportTable (Answered)

/-! ## Trees -/

section Trees

variable {options : CompileOptions}

theorem answered_tag {name tag : String} {dependency : Option Dependency} {w w' : Workspace}
    (h : Yields (Compile.tag options name dependency) w tag w') :
    Answered (dependency.toList.map (name, ·)) w.imports w'.imports := by
  cases dependency with
  | none =>
      obtain ⟨-, rfl⟩ := yields_tag_none.mp h
      exact .refl _ _
  | some d =>
      obtain ⟨bound, hbound, -⟩ := yields_tag_some.mp h
      split at hbound
      · obtain ⟨-, rfl⟩ := yields_register.mp hbound
        exact ImportTable.answered_register _ _ _
      · obtain ⟨-, rfl⟩ := yields_pure.mp hbound
        exact .refl _ _

mutual

/-- **A compilation binds what the elements of the tree ask for**, and nothing else. -/
theorem answered_node : ∀ (n : Node) {w w' : Workspace} {t : Target},
    Yields (compileNode options n) w t w' →
      Answered (elementRequests n.elements) w.imports w'.imports
  | .static value, w, w', t, h => by
      obtain ⟨-, rfl⟩ := yields_node_static.mp h
      exact .refl _ _
  | .dynamic r, w, w', t, h => by
      obtain ⟨e, -, -, rfl⟩ := yields_node_dynamic.mp h
      exact .refl _ _
  | .raw markup, w, w', t, h => by
      have hraw := yields_node_raw.mp h
      cases hturn : options.injectMarkup with
      | none =>
          rw [Compile.inject, hturn] at hraw
          obtain ⟨-, rfl⟩ := yields_pure.mp hraw
          exact .refl _ _
      | some turn =>
          obtain ⟨-, rfl⟩ := (Compile.yields_inject hturn).mp hraw
          exact .refl _ _
  | .element e, w, w', t, h => by
      obtain ⟨id, hid, -⟩ := yields_node_element.mp h
      exact answered_element e hid
  | .loop ⟨template, source, names⟩, w, w', t, h => by
      obtain ⟨items, id, w₁, key, -, hid, -, rfl, -⟩ := yields_node_loop.mp h
      have htemplate := answered_element template hid
      exact htemplate
  | .conditional ⟨node, subject, value, condition⟩, w, w', t, h => by
      obtain ⟨s, inner, -, hinner, -⟩ := yields_node_conditional.mp h
      exact answered_node node hinner
  | .slot ⟨name, none⟩, w, w', t, h => by
      obtain ⟨forwarded, -, -, rfl⟩ := (yields_node_slot_forward (.inr rfl)).mp h
      exact .refl _ _
  | .slot ⟨name, some fallback⟩, w, w', t, h => by
      cases hslots : options.slots with
      | forwardChildren =>
          -- The fallback is not compiled, so what its elements ask for is not bound.
          obtain ⟨forwarded, -, -, rfl⟩ := (yields_node_slot_forward (.inl hslots)).mp h
          exact .refl _ _
      | fallbackWhenEmpty =>
          obtain ⟨forwarded, inner, -, hinner, -⟩ := (yields_node_slot_fallback hslots).mp h
          exact answered_node fallback hinner

theorem answered_element : ∀ (e : Element Node) {w w' : Workspace} {id : ElementId},
    Yields (compileElement options e) w id w' →
      Answered (elementRequests (Node.elementsOf e)) w.imports w'.imports
  | ⟨tag, name, key, selfClosing, attrs, events, style, children, dependency⟩, w, w', id, h => by
      obtain ⟨bound, w₁, m, w₂, m', cs, w₃, hbound, hm, -, hcs, -, rfl⟩ := yields_element.mp h
      have hinside := (answered_attrs attrs hm).trans (answered_children children hcs)
      rw [elementRequests_elementsOf]
      exact (answered_tag hbound).trans hinside

theorem answered_attrs : ∀ (attrs : List (String × Attribute Node)) {m m' : Markup}
    {w w' : Workspace}, Yields (compileAttrs options m attrs) w m' w' →
      Answered (elementRequests (Node.elementsOfAttrs attrs)) w.imports w'.imports
  | [], m, m', w, w', h => by
      obtain ⟨-, rfl⟩ := yields_attrs_nil.mp h
      exact .refl _ _
  | (name, .static value) :: rest, m, m', w, w', h =>
      answered_attrs rest (yields_attrs_static.mp h)
  | (name, .dynamic r) :: rest, m, m', w, w', h => by
      obtain ⟨e, -, hrest⟩ := yields_attrs_dynamic.mp h
      exact answered_attrs rest hrest
  | (name, .imported id) :: rest, m, m', w, w', h =>
      answered_attrs rest (yields_attrs_imported.mp h)
  | (name, .slot content) :: rest, m, m', w, w', h => by
      obtain ⟨t, w₁, ht, hrest⟩ := yields_attrs_slot.mp h
      have hboth := (answered_node content ht).trans (answered_attrs rest hrest)
      rwa [← elementRequests_append] at hboth

theorem answered_children : ∀ (children : List Node) {cs : List MarkupChild} {w w' : Workspace},
    Yields (compileChildren options children) w cs w' →
      Answered (elementRequests (Node.elementsOfAll children)) w.imports w'.imports
  | [], cs, w, w', h => by
      obtain ⟨-, rfl⟩ := yields_children_nil.mp h
      exact .refl _ _
  | n :: rest, cs, w, w', h => by
      obtain ⟨t, w₁, others, ht, hothers, -⟩ := yields_children_cons.mp h
      have hboth := (answered_node n ht).trans (answered_children rest hothers)
      rwa [← elementRequests_append] at hboth

end

end Trees

/-! ## Keys -/

mutual

theorem elementRequests_assignKeys : ∀ (n : Node) (supply : KeySupply),
    elementRequests (n.assignKeys.run supply).1.elements = elementRequests n.elements
  | .static _, _ => rfl
  | .dynamic _, _ => rfl
  | .raw _, _ => rfl
  | .element e, supply => elementRequests_assignElementKeys e supply
  | .loop ⟨template, _, _⟩, supply => elementRequests_assignElementKeys template supply
  | .conditional ⟨node, _, _, _⟩, supply => elementRequests_assignKeys node supply
  | .slot ⟨_, none⟩, _ => rfl
  | .slot ⟨_, some fallback⟩, supply => elementRequests_assignKeys fallback supply

theorem elementRequests_assignElementKeys : ∀ (e : Element Node) (supply : KeySupply),
    elementRequests (Node.elementsOf ((assignElementKeys e).run supply).1) =
      elementRequests (Node.elementsOf e)
  | ⟨tag, name, key, selfClosing, attrs, events, style, children, dependency⟩, supply => by
      obtain ⟨key', supply₁, supply₂, he⟩ := exists_run_assignElementKeys
        ⟨tag, name, key, selfClosing, attrs, events, style, children, dependency⟩ supply
      have hattrs := elementRequests_assignAttrKeys attrs supply₁
      have hchildren := elementRequests_assignAllKeys children supply₂
      rw [elementRequests_elementsOf, elementRequests_elementsOf, he]
      dsimp only
      rw [hattrs, hchildren]

theorem elementRequests_assignAttrKeys :
    ∀ (attrs : List (String × Attribute Node)) (supply : KeySupply),
      elementRequests (Node.elementsOfAttrs ((assignAttrKeys attrs).run supply).1) =
        elementRequests (Node.elementsOfAttrs attrs)
  | [], _ => rfl
  | (_, .static _) :: rest, supply => elementRequests_assignAttrKeys rest supply
  | (_, .dynamic _) :: rest, supply => elementRequests_assignAttrKeys rest supply
  | (_, .imported _) :: rest, supply => elementRequests_assignAttrKeys rest supply
  | (_, .slot content) :: rest, supply => by
      have hrest := elementRequests_assignAttrKeys rest (content.assignKeys.run supply).2
      rw [Node.elementsOfAttrs, elementRequests_append, ← elementRequests_assignKeys content supply,
        ← hrest, ← elementRequests_append]
      rfl

theorem elementRequests_assignAllKeys : ∀ (ns : List Node) (supply : KeySupply),
    elementRequests (Node.elementsOfAll ((assignAllKeys ns).run supply).1) =
      elementRequests (Node.elementsOfAll ns)
  | [], _ => rfl
  | n :: rest, supply => by
      have hrest := elementRequests_assignAllKeys rest (n.assignKeys.run supply).2
      rw [Node.elementsOfAll, elementRequests_append, ← elementRequests_assignKeys n supply,
        ← hrest, ← elementRequests_append]
      rfl

end

/-- **Keys do not matter to requests.** -/
theorem elementRequests_withKeys (n : Node) :
    elementRequests n.withKeys.elements = elementRequests n.elements :=
  elementRequests_assignKeys n _

/-! ## Passes -/

/-- What a framework asks for: the name that markup compiles to, and the hook for states. -/
def Runtime.requests (runtime : Runtime) : Dict Dependency :=
  [(runtime.pragma, runtime.package), ("useState", runtime.hooks)]

/-- What the passes after the component ask for: the style sheet and the types of the props. -/
def lateRequests (fileName : String) : Dict Dependency :=
  [("styles", .ofProject ("./" ++ fileName ++ ".css")),
    ("PropTypes", .package "prop-types" propTypesVersion)]

theorem answered_reserve {d d' : Draft} {name : String} (h : d.reserve name = .ok d') :
    Answered [] d.imports d'.imports := by
  rw [Draft.reserve] at h
  split at h
  · next imports hreserve =>
    obtain rfl := Except.ok.inj h
    intro entry hentry
    have hstep : entry ∈ (d.imports.apply (.reserve name)).entries := by
      rw [ImportTable.apply, hreserve]
      exact hentry
    exact ImportTable.answers_apply hstep
  · exact absurd h (by simp)

theorem answered_hooks {runtime : Runtime} {states : Dict StateDefinition} {hooks : List Statement}
    {w w' : Workspace} (h : Yields (Compile.hooks runtime states) w hooks w') :
    Answered [("useState", runtime.hooks)] w.imports w'.imports := by
  rw [Compile.hooks] at h
  split at h
  · obtain ⟨-, rfl⟩ := yields_pure.mp h
    exact .refl _ _
  · obtain ⟨useState, w₁, hregister, hhooks⟩ := yields_bind_iff.mp h
    obtain ⟨-, rfl⟩ := yields_register.mp hregister
    obtain ⟨-, rfl⟩ := yields_pure.mp hhooks
    exact ImportTable.answered_register _ _ _

/-- The body of a function binds what the framework asks for, then what the elements ask for. -/
theorem answered_functionBody {runtime : Runtime} {options : CompileOptions} {c : Component}
    {body : List Statement} {w w' : Workspace}
    (h : Yields (Compile.functionBody runtime options c) w body w') :
    Answered (runtime.requests ++ elementRequests c.node.elements) w.imports w'.imports := by
  obtain ⟨pragma, w₁, hpragma, hrest⟩ := yields_bind_iff.mp h
  obtain ⟨hooks, w₂, hhooks, hrest⟩ := yields_bind_iff.mp hrest
  obtain ⟨root, w₃, hroot, hreturn⟩ := yields_bind_iff.mp hrest
  obtain ⟨-, rfl⟩ := yields_register.mp hpragma
  obtain ⟨-, rfl⟩ := yields_pure.mp hreturn
  have hregistered := ImportTable.answered_register w.imports runtime.pragma runtime.package
  exact (hregistered.trans (answered_hooks hhooks)).trans (answered_node c.node hroot)

theorem answered_functionComponentPass {framework : Framework} {runtime : Runtime}
    (hruntime : framework.runtime? = some runtime) {options : CompileOptions} {d d' : Draft}
    (hrun : (functionComponentPass framework options).run d = .ok d') :
    d'.fileName = d.fileName ∧
      Answered (runtime.requests ++ elementRequests d.component.node.elements) d.imports
        d'.imports := by
  obtain ⟨imports, body, w, hreserve, hbody, rfl⟩ := (Draft.declareComponent_iff hruntime).mp hrun
  have hdeclared := (answered_reserve hreserve).trans (answered_functionBody hbody)
  refine ⟨?_, ?_⟩
  · unfold Draft.addComponent Draft.addTokens
    split <;> rfl
  · have himports : ({ d with workspace := w }.addComponent body).imports = w.imports :=
      congrArg Workspace.imports (Draft.workspace_addComponent _ body)
    rw [himports]
    exact hdeclared

/-- A late pass binds what the late passes ask for. -/
theorem LatePass.answered {p : Pass} (hp : LatePass p) {d d' : Draft} (hrun : p.run d = .ok d') :
    d'.fileName = d.fileName ∧ Answered (lateRequests d.fileName) d.imports d'.imports := by
  cases hp with
  | inlineStyle options =>
      obtain ⟨arena, rfl⟩ := Draft.exists_setStyles hrun
      exact ⟨rfl, .refl _ _⟩
  | styleSheet classAttribute options =>
      obtain ⟨arena, rfl | ⟨sheet, rfl⟩⟩ := Draft.exists_moveStyles hrun
      · exact ⟨rfl, .refl _ _⟩
      · refine ⟨rfl, (ImportTable.answered_register d.imports "styles" _).mono ?_⟩
        exact List.cons_subset.mpr ⟨List.mem_cons_self, List.nil_subset _⟩
  | propTypes =>
      obtain rfl := Except.ok.inj hrun
      unfold Draft.declareProps
      split
      · exact ⟨rfl, .refl _ _⟩
      · refine ⟨rfl, (ImportTable.answered_register d.imports "PropTypes" _).mono ?_⟩
        exact List.cons_subset.mpr ⟨List.mem_cons_of_mem _ List.mem_cons_self, List.nil_subset _⟩
  | imports =>
      rw [Draft.imports_importPass hrun]
      obtain rfl := Except.ok.inj hrun
      refine ⟨?_, .refl _ _⟩
      have hput : ∀ (d : Draft) name kind after, (d.putImports name kind after).fileName =
          d.fileName := by
        intro d name kind after
        unfold Draft.putImports
        split <;> rfl
      rw [hput, hput, hput]

theorem answered_runPasses_late {later : List Pass} (hlater : ∀ p ∈ later, LatePass p)
    {d d' : Draft} (hrun : runPasses later d = .ok d') :
    Answered (lateRequests d.fileName) d.imports d'.imports := by
  have hstep : ∀ p ∈ later, ∀ e e' : Draft,
      e.fileName = d.fileName ∧ Answered (lateRequests d.fileName) d.imports e.imports →
      p.run e = .ok e' →
      e'.fileName = d.fileName ∧ Answered (lateRequests d.fileName) d.imports e'.imports := by
    rintro p hp e e' ⟨hfile, hbefore⟩ he'
    obtain ⟨hsame, hadded⟩ := (hlater p hp).answered he'
    rw [hfile] at hsame hadded
    exact ⟨hsame, (hbefore.trans hadded).mono
      (List.append_subset.mpr ⟨fun _ h => h, fun _ h => h⟩)⟩
  obtain ⟨applied, chunks, ⟨-, hall⟩, -, rfl⟩ :=
    exists_orderChunks_of_runPasses hstep ⟨rfl, .refl _ _⟩ hrun
  exact hall

/-- **Every binding of a function component answers a request**: of its framework, of one of its
elements, or of a late pass. -/
theorem exists_answers_of_runPasses {o : GeneratorOptions} (hframework : o.framework ≠ .vue)
    {c : Component} {fileName : String} {d : Draft}
    (hrun : runPasses o.passes { component := c, fileName } = .ok d) :
    ∃ runtime, o.framework.runtime? = some runtime ∧ ∀ entry ∈ d.imports.entries,
      ∃ request ∈ runtime.requests ++ elementRequests c.node.elements ++ lateRequests fileName,
        ImportTable.Answers request entry := by
  obtain ⟨later, declared, -, hlater, hdeclared, hlast⟩ :=
    exists_declared_of_runPasses hframework hrun
  obtain ⟨runtime, hruntime⟩ := Draft.exists_runtime_of_declareComponent hdeclared
  obtain ⟨hfile, hbody⟩ := answered_functionComponentPass hruntime hdeclared
  have hlate := answered_runPasses_late hlater hlast
  rw [hfile] at hlate
  dsimp only at hbody hlate
  rw [elementRequests_withKeys] at hbody
  refine ⟨runtime, hruntime, fun entry hentry => ?_⟩
  exact (hbody.trans hlate entry hentry).resolve_left List.not_mem_nil

/-! ## The last character of a name -/

/-- A name that a request may be given ends like the name that was asked for, or in a digit. -/
theorem ImportTable.MayBind.getLast? {path name bound : String} (h : MayBind path name bound)
    (hname : name ≠ "") : bound.toList.getLast? = name.toList.getLast? ∨
      ∃ c, bound.toList.getLast? = some c ∧ c.isDigit = true := by
  have hderived : (derivedName path name).toList.getLast? = name.toList.getLast? := by
    rw [derivedName, String.toList_append]
    exact List.getLast?_append_of_ne_nil _ fun hnil => hname (String.toList_eq_nil_iff.mp hnil)
  rcases h with rfl | ⟨_ | n, rfl⟩
  · exact .inl rfl
  · exact .inl hderived
  · -- The number at the end is not empty, and all its characters are digits.
    have hdigits : ∀ c ∈ (toString (n + 2)).toList, c.isDigit = true := by
      rw [Nat.toString_eq_ofList_toDigits, String.toList_ofList]
      exact fun c hc => Nat.isDigit_of_mem_toDigits (by decide) (by decide) hc
    have hne : (toString (n + 2)).toList ≠ [] := fun hnil =>
      Text.toString_ne_empty (n + 2) (String.toList_eq_nil_iff.mp hnil)
    refine .inr ⟨(toString (n + 2)).toList.getLast hne, ?_, hdigits _ (List.getLast_mem hne)⟩
    rw [Text.numbered, String.toList_append, List.getLast?_append_of_ne_nil _ hne,
      List.getLast?_eq_some_getLast hne]

/-- Neither a framework nor a late pass can be given the name of the design tokens. -/
theorem not_mayBind_tokensName {framework : Framework} {runtime : Runtime}
    (hruntime : framework.runtime? = some runtime) {fileName : String}
    {request : String × Dependency} (h : request ∈ runtime.requests ++ lateRequests fileName)
    (path : String) : ¬ImportTable.MayBind path request.1 tokensName := by
  have hname : request.1 ∈ ["React", "h", "useState", "styles", "PropTypes"] := by
    have hnames := List.mem_map_of_mem (f := Prod.fst) h
    cases framework with
    | react =>
        obtain rfl := Option.some.inj hruntime
        exact (by decide : ["React", "useState", "styles", "PropTypes"] ⊆ _) hnames
    | preact =>
        obtain rfl := Option.some.inj hruntime
        exact (by decide : ["h", "useState", "styles", "PropTypes"] ⊆ _) hnames
    | vue => exact absurd hruntime (by simp [Framework.runtime?])
  intro hbinds
  have hlast : ∀ name ∈ ["React", "h", "useState", "styles", "PropTypes"],
      name ≠ "" ∧ tokensName.toList.getLast? ≠ name.toList.getLast? := by decide
  obtain ⟨hne, hdiffers⟩ := hlast _ hname
  rcases hbinds.getLast? hne with hsame | ⟨c, hc, hdigit⟩
  · exact hdiffers hsame
  · have htokens : tokensName.toList.getLast? = some 'S' := by decide
    rw [htokens] at hc
    obtain rfl := Option.some.inj hc
    exact absurd hdigit (by decide)

/-- **Only an element can take the name of the design tokens** in a function component. -/
theorem exists_element_of_tokensName_mem {o : GeneratorOptions} (hframework : o.framework ≠ .vue)
    {c : Component} {fileName : String} {d : Draft}
    (hrun : runPasses o.passes { component := c, fileName } = .ok d)
    (h : tokensName ∈ d.imports.entries.keys) :
    ∃ e ∈ c.node.elements, ∃ dependency, e.dependency = some dependency ∧
      ImportTable.MayBind dependency.path e.tag tokensName := by
  obtain ⟨entry, hentry, hbound⟩ := List.mem_map.mp h
  obtain ⟨runtime, hruntime, hall⟩ := exists_answers_of_runPasses hframework hrun
  obtain ⟨request, hrequest, hanswers⟩ := hall entry hentry
  have hbinds := hanswers.name
  rw [hbound] at hbinds
  have hother : request ∈ runtime.requests ++ lateRequests fileName → ∀ path,
      ¬ImportTable.MayBind path request.1 tokensName := not_mayBind_tokensName hruntime
  rcases List.mem_append.mp hrequest with hbody | hlate
  · rcases List.mem_append.mp hbody with hframework | helement
    · exact absurd hbinds (hother (List.mem_append_left _ hframework) _)
    · obtain ⟨e, he, hdependency, htag⟩ := mem_elementRequests.mp helement
      exact ⟨e, he, request.2, hdependency, htag ▸ hbinds⟩
  · exact absurd hbinds (hother (List.mem_append_right _ hlate) _)

end ViewGen
