import ViewGen.Proofs.LexicalScope

/-!
# States behind the names of loops

A document keeps states and the names of loops apart: each reference says which of the two it means.
The output does not.  A state is written as the name that its hook binds, and a loop as an arrow
whose parameters have the names of the loop, so inside the arrow a parameter hides a state of the
same name.  This is the only way in which a state can be missed, and it happens whenever the names
meet.

## Main definitions

* `Reads`, `CallReads` — an expression or a call stands for a state or its setter, and only loops
  hide them

## Main statements

* `supports_reads` — what resolution accepts is compiled to such expressions and calls
* `states_hidden_by_loops` — so is everything in the component that is declared for a resolved tree
-/

namespace ViewGen

/-- The expression is made from the reference.  If that is one to a state, the expression starts with
the name of the state, a hook binds the name, and only loops hide it. -/
def Reads (options : CompileOptions) (s : Surroundings) (loops : List LoopNames)
    (params : List String) (r : Reference) (e : Expr) : Prop :=
  options.reference r = .ok e ∧
    (r.kind = .state → e.head? = some r.rootName ∧ (∃ setter, (r.rootName, setter) ∈ s.states) ∧
      HiddenByLoops loops params r.rootName)

/-- What a handler calls.  A setter is bound by a hook, together with the state, and only loops hide
it; the same goes for the state itself when it is toggled. -/
inductive CallReads (options : CompileOptions) (s : Surroundings) (loops : List LoopNames)
    (params : List String) : Handler → Expr → Prop
  | setState {state setter} {value : Scalar} {v : Expr} : (state, setter) ∈ s.states →
      HiddenByLoops loops params setter →
      (value = .text Handler.toggle → ∃ e, v = .not e ∧
        e.head? = some (Reference.rootName ⟨state, .state⟩) ∧
        HiddenByLoops loops params (Reference.rootName ⟨state, .state⟩)) →
      CallReads options s loops params (.setState state value) (.call (.ident setter) [v])
  | callProp {prop callee} {arguments : List Scalar} :
      options.reference ⟨prop, .prop⟩ = .ok callee →
      CallReads options s loops params (.callProp prop arguments)
        (.call callee (arguments.map Expr.ofScalar))

variable {options : CompileOptions} {s : Surroundings} {c : Component}

/-- What resolution accepts is read. -/
theorem reads_of_declares (hoptions : options.qualifiers = functionQualifiers) (hs : s.Covers c)
    {loops : List LoopNames} {r : Reference}
    (hdeclares : c.declares (loops.flatMap LoopNames.bound) r = true) {e : Expr}
    (h : options.reference r = .ok e) :
    Reads options s loops (loops.flatMap LoopNames.bound) r e := by
  refine ⟨h, fun hstate => ?_⟩
  have hhead := head?_reference hoptions h
  rw [Reference.functionHead, hstate] at hhead
  rw [Component.declares, hstate] at hdeclares
  exact ⟨hhead, ⟨_, hs.states _ (Dict.has_iff.mp hdeclares)⟩, hiddenByLoops_bound _ _⟩

theorem callReads_of_permits (hoptions : options.qualifiers = functionQualifiers) (hs : s.Covers c)
    {loops : List LoopNames} {h : Handler} {call : Expr} (hpermits : c.permits h = true)
    (hcall : options.handlerCall h = .ok call) :
    CallReads options s loops (loops.flatMap LoopNames.bound) h call := by
  cases h with
  | setState state value =>
      obtain ⟨v, hv, rfl⟩ := handlerCall_setState_iff.mp hcall
      refine .setState (hs.states state (Dict.has_iff.mp hpermits)) (hiddenByLoops_bound _ _) ?_
      rintro rfl
      rw [CompileOptions.newValue, if_pos rfl] at hv
      cases he : options.reference ⟨state, .state⟩ with
      | error x =>
          rw [he] at hv
          exact absurd hv (by simp [Functor.map, Except.map])
      | ok e =>
          rw [he] at hv
          exact ⟨e, (Except.ok.inj hv).symm, head?_reference hoptions he, hiddenByLoops_bound _ _⟩
  | callProp prop arguments =>
      obtain ⟨callee, hcallee, rfl⟩ := handlerCall_callProp_iff.mp hcall
      exact .callProp hcallee

/-- **What resolution accepts is compiled to expressions and calls that only loops can hide**, in all
surroundings that provide what the component declares. -/
theorem supports_reads (hoptions : options.qualifiers = functionQualifiers) (hs : s.Covers c) :
    c.Supports options (Reads options s) (CallReads options s) where
  reference hdeclares h := reads_of_declares hoptions hs hdeclares h
  prop h := ⟨h, fun hkind => absurd hkind (by simp)⟩
  handler hpermits hcall := callReads_of_permits hoptions hs hpermits hcall

/-- **A state is hidden exactly by the loops that bind its name.**  In the component that is declared
for a resolved tree, each expression that was made from a reference to a state starts with the name
of the state, which one of the hooks binds; the arrows around the expression have a parameter of the
same name exactly when one of the loops around the reference binds it, as the name of its items or as
`index`.  The same holds of the setters that handlers call and of the states that they toggle. -/
theorem states_hidden_by_loops {c : Component} (hresolve : c.resolve = .ok ())
    {framework : Framework} {o : GeneratorOptions} {d d' : Draft}
    (hcomponent : d.component = c ∨ d.component = { c with node := c.node.withKeys })
    (hrun : (functionComponentPass framework o.compileOptions).run d = .ok d') :
    ∃ useState root,
      d'.chunk? ChunkName.component = some (.script ChunkName.component
        [.constant (.name (componentName c.name)) (.arrowBlock ["props"]
          (stateHooks useState c.states ++ [.returning root.toExpr]))] d.componentLinks) ∧
        NodeCompiled o.compileOptions d'.arena
          (Reads o.compileOptions (d'.surroundings (stateHooks useState c.states)))
          (CallReads o.compileOptions (d'.surroundings (stateHooks useState c.states))) [] []
          d.component.node root :=
  compiled_functionComponent hresolve hcomponent hrun fun _ hs => supports_reads rfl hs

/-- A list whose items all show one state and toggle it. -/
def markedList : Component where
  name := "Marked List"
  states := [("marked", { type := .bool, default := .bool false })]
  node := .element {
    tag := "ul"
    children := [.loop {
      source := .inline [.text "a", .text "b"]
      template := {
        tag := "li"
        events := [("click", [.setState "marked" (.text Handler.toggle)])]
        children := [.dynamic ⟨"marked", .state⟩] } }] }

/-- The list is resolved, and only loops can hide its state where it is shown and toggled. -/
theorem markedList_reads : markedList.resolve = .ok () ∧
    ∃ d', (functionComponentPass .react ({} : GeneratorOptions).compileOptions).run
        { component := markedList, fileName := "marked-list" } = .ok d' ∧
      ∃ useState root,
        d'.chunk? ChunkName.component = some (.script ChunkName.component
          [.constant (.name (componentName "Marked List")) (.arrowBlock ["props"]
            (stateHooks useState markedList.states ++ [.returning root.toExpr]))]
          ChunkName.imports) ∧
        NodeCompiled ({} : GeneratorOptions).compileOptions d'.arena
          (Reads ({} : GeneratorOptions).compileOptions
            (d'.surroundings (stateHooks useState markedList.states)))
          (CallReads ({} : GeneratorOptions).compileOptions
            (d'.surroundings (stateHooks useState markedList.states))) [] []
          markedList.node root := by
  have hresolve : markedList.resolve = .ok () := rfl
  have hrun : (functionComponentPass .react ({} : GeneratorOptions).compileOptions).run
      { component := markedList, fileName := "marked-list" } = .ok _ := rfl
  exact ⟨hresolve, _, hrun, states_hidden_by_loops hresolve (.inl rfl) hrun⟩

/-- A list whose items show a state that has the name a loop gives its items. -/
def itemList : Component where
  name := "List"
  states := [("item", { type := .string, default := .text "none" })]
  node := .element {
    tag := "ul"
    children := [.loop {
      source := .inline [.text "a", .text "b"]
      template := { tag := "li", children := [.dynamic ⟨"item", .state⟩] } }] }

/-- The list is resolved, but what stands for its state is the parameter of the arrow around it. -/
theorem itemList_hides_state : itemList.resolve = .ok () ∧
    ∃ d', (functionComponentPass .react ({} : GeneratorOptions).compileOptions).run
        { component := itemList, fileName := "list" } = .ok d' ∧
      d'.chunk? ChunkName.component = some (.script ChunkName.component
        [.constant (.name "List") (.arrowBlock ["props"]
          [.constant (.array ["item", "setItem"]) (.call (.ident "useState") [.str "none"]),
            .returning (.element 1)])] ChunkName.imports) ∧
      d'.arena.get? 1 = some { name := "ul", children := [.expr (.call
        (.member (.array [.str "a", .str "b"]) "map") [.arrow ["item", "index"] (.element 0)])] } ∧
      d'.arena.get? 0 = some {
        name := "li"
        attributes := [("key", .expr (.ident "index"))]
        children := [.expr (.ident "item")] } :=
  ⟨rfl, _, rfl, rfl, rfl, rfl⟩

end ViewGen
