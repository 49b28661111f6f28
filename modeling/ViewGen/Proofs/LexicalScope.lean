import ViewGen.Proofs.CompiledTrees
import ViewGen.Proofs.DeclaredUses
import ViewGen.Proofs.Generation

/-!
# The names in compiled markup are in scope

Resolution checks a tree against the names that its loops bind; compilation turns the loops into
arrows, and the elements inside them into positions of the arena.  Here the two walks meet: in what
a resolved tree compiles to, every expression that was made from a reference starts with a name that
is in scope where the expression is printed.

## Main definitions

* `Surroundings` — what a function component has around its root
* `Surroundings.Binds` — a name is in scope inside some arrows
* `HiddenByLoops` — a name is a parameter of an arrow exactly when a loop around it binds it
* `Sees`, `CallScoped` — an expression or a call starts with a name that is in scope
* `NodeScoped` — a piece of output stands for a piece of the tree, and every expression made from a
  reference sees its name

## Main statements

* `supports_sees` — what resolution accepts is compiled to such expressions and calls
* `compiled_functionComponent` — what holds of the references and handlers of a resolved tree holds
  in the component that is declared for it
* `functionComponent_wellScoped` — so that component is well scoped

## Design notes

The scope is read off the output: a loop's template is looked up in the arena and has to be well
scoped with the parameters that the emitted arrow has, whatever the loop says.  A state and its
setter are bound by the hooks, outside of all arrows, so a parameter of the same name hides them.
That a handler calls a setter which is in scope says nothing about this; it is told apart by
`HiddenByLoops`, which names the loops that hide the setter.
-/

namespace ViewGen

open Compile (Yields)

/-! ## Names in scope -/

/-- The identifier at the head of a chain of members. -/
def Expr.head? : Expr → Option String
  | .ident name => some name
  | .member inner _ => Expr.head? inner
  | _ => none

/-- The state and the setter that a hook binds. -/
def Statement.hook? : Statement → Option (String × String)
  | .constant (.array [state, setter]) (.call (.ident _) [_]) => some (state, setter)
  | _ => none

/-- What a function component has around its root: the hooks before it, the elements that it refers
to, and the constant of the design tokens if the module declares it. -/
structure Surroundings where
  hooks : List Statement
  arena : Arena
  tokens : Prop

namespace Surroundings

/-- The states with their setters, as the hooks bind them. -/
def states (s : Surroundings) : List (String × String) :=
  s.hooks.filterMap Statement.hook?

/-- A name is in scope inside arrows with the given parameters. -/
def Binds (s : Surroundings) (params : List String) (name : String) : Prop :=
  name = "props" ∨ name = tokensName ∧ s.tokens ∨ (∃ setter, (name, setter) ∈ s.states) ∨
    name ∈ params

/-- What the surroundings of a component have to provide. -/
structure Covers (s : Surroundings) (c : Component) : Prop where
  tokens : c.tokens ≠ [] → s.tokens
  states : ∀ state ∈ c.states.keys, (state, setterName state) ∈ s.states

end Surroundings

/-- The arrows around a name have it as a parameter exactly when the loops around it bind it. -/
def HiddenByLoops (loops : List LoopNames) (params : List String) (name : String) : Prop :=
  name ∈ params ↔ ∃ names ∈ loops, names.Binds name

theorem hiddenByLoops_bound (loops : List LoopNames) (name : String) :
    HiddenByLoops loops (loops.flatMap LoopNames.bound) name := by
  rw [HiddenByLoops, List.mem_flatMap]
  exact exists_congr fun names => and_congr_right fun _ => LoopNames.mem_bound_iff

section Relations

variable (options : CompileOptions) (s : Surroundings)

/-- The expression is made from the reference, and the name it starts with is in scope inside arrows
with the given parameters. -/
def Sees (params : List String) (r : Reference) (e : Expr) : Prop :=
  options.reference r = .ok e ∧ ∃ name, e.head? = some name ∧ s.Binds params name

/-- What a handler calls: the setter that a hook binds together with the state, or a prop.  Both are
in scope outside of all arrows, and only loops hide them. -/
inductive CallScoped (loops : List LoopNames) (params : List String) : Handler → Expr → Prop
  | setState {state setter} {value : Scalar} {v : Expr} : (state, setter) ∈ s.states →
      HiddenByLoops loops params setter →
      CallScoped loops params (.setState state value) (.call (.ident setter) [v])
  | callProp {prop callee} {arguments : List Scalar} : Sees options s [] ⟨prop, .prop⟩ callee →
      (∀ name, callee.head? = some name → HiddenByLoops loops params name) →
      CallScoped loops params (.callProp prop arguments)
        (.call callee (arguments.map Expr.ofScalar))

/-- What a node compiles to inside loops of the tree and arrows of the output: all expressions that
were made from references, and all calls of handlers, are in scope. -/
def NodeScoped : List LoopNames → List String → Node → Target → Prop :=
  NodeCompiled options s.arena (fun _ => Sees options s) (CallScoped options s)

end Relations

/-! ## The head of a reference -/

namespace Expr

theorem head?_members (e : Expr) (names : List String) : (e.members names).head? = e.head? := by
  induction names generalizing e with
  | nil => rfl
  | cons name rest ih => exact ih (.member e name)

theorem head?_path (dotted : String) :
    (path dotted).head? = some ((Reference.segments dotted).headD "") := by
  rw [path]
  cases Reference.segments dotted with
  | nil => rfl
  | cons first rest => exact head?_members (.ident first) rest

end Expr

/-- The name that a reference starts with in a function component. -/
def Reference.functionHead (r : Reference) : String :=
  match r.kind with
  | .prop => "props"
  | .token => tokensName
  | .state | .loop => r.rootName

variable {options : CompileOptions}

theorem head?_reference (hoptions : options.qualifiers = functionQualifiers) {r : Reference}
    {e : Expr} (h : options.reference r = .ok e) : e.head? = some r.functionHead := by
  obtain ⟨id, kind⟩ := r
  rw [CompileOptions.reference, hoptions] at h
  cases kind <;> obtain rfl := Except.ok.inj h
  case prop => exact (Expr.head?_members _ _).trans (Expr.head?_path "props")
  case token => exact (Expr.head?_members _ _).trans (Expr.head?_path tokensName)
  case state => exact Expr.head?_path id
  case loop => exact Expr.head?_path id

/-- A prop is always in scope, as a member of the parameter. -/
theorem sees_prop (hoptions : options.qualifiers = functionQualifiers) {s : Surroundings}
    {params : List String} {id : String} {e : Expr} (h : options.reference ⟨id, .prop⟩ = .ok e) :
    Sees options s params ⟨id, .prop⟩ e :=
  ⟨h, "props", head?_reference hoptions h, .inl rfl⟩

/-- What resolution accepts is in scope. -/
theorem sees_of_declares (hoptions : options.qualifiers = functionQualifiers) {s : Surroundings}
    {c : Component} (hs : s.Covers c) {scope : List String} {r : Reference}
    (hdeclares : c.declares scope r = true) {e : Expr} (h : options.reference r = .ok e) :
    Sees options s scope r e := by
  refine ⟨h, _, head?_reference hoptions h, ?_⟩
  obtain ⟨id, kind⟩ := r
  cases kind with
  | prop => exact .inl rfl
  | token =>
      refine .inr (.inl ⟨rfl, hs.tokens fun hnone => ?_⟩)
      rw [Component.declares, hnone] at hdeclares
      exact absurd hdeclares (by simp [Dict.has])
  | state => exact .inr (.inr (.inl ⟨_, hs.states _ (Dict.has_iff.mp hdeclares)⟩))
  | loop => exact .inr (.inr (.inr (List.contains_iff_mem.mp hdeclares)))

theorem callScoped_of_permits (hoptions : options.qualifiers = functionQualifiers)
    {s : Surroundings} {c : Component} (hs : s.Covers c) {loops : List LoopNames} {h : Handler}
    {call : Expr} (hpermits : c.permits h = true) (hcall : options.handlerCall h = .ok call) :
    CallScoped options s loops (loops.flatMap LoopNames.bound) h call := by
  cases h with
  | setState state value =>
      obtain ⟨v, -, rfl⟩ := handlerCall_setState_iff.mp hcall
      exact .setState (hs.states state (Dict.has_iff.mp hpermits)) (hiddenByLoops_bound _ _)
  | callProp prop arguments =>
      obtain ⟨callee, hcallee, rfl⟩ := handlerCall_callProp_iff.mp hcall
      exact .callProp (sees_prop hoptions hcallee) fun name _ => hiddenByLoops_bound _ _

/-- **What resolution accepts is in scope**, in all surroundings that provide what the component
declares. -/
theorem supports_sees (hoptions : options.qualifiers = functionQualifiers) {s : Surroundings}
    {c : Component} (hs : s.Covers c) :
    c.Supports options (fun _ => Sees options s) (CallScoped options s) where
  reference hdeclares h := sees_of_declares hoptions hs hdeclares h
  prop h := sees_prop hoptions h
  handler hpermits hcall := callScoped_of_permits hoptions hs hpermits hcall

/-! ## Components -/

/-- The constant of the design tokens is declared, in a chunk of its own. -/
def Draft.DeclaresTokens (d : Draft) : Prop :=
  ∃ value, d.chunk? ChunkName.tokens =
    some (.script ChunkName.tokens [.constant (.name tokensName) value] ChunkName.imports)

/-- What the function of a declared component has around its root. -/
def Draft.surroundings (d : Draft) (hooks : List Statement) : Surroundings :=
  { hooks, arena := d.arena, tokens := d.DeclaresTokens }

theorem mem_states_stateHooks {s : Surroundings} {useState : String}
    {states : Dict StateDefinition} (h : s.hooks = stateHooks useState states) {state : String}
    (hstate : state ∈ states.keys) : (state, setterName state) ∈ s.states := by
  obtain ⟨⟨_, definition⟩, hmem, rfl⟩ := List.mem_map.mp hstate
  rw [Surroundings.states, h, stateHooks]
  exact List.mem_filterMap.mpr ⟨_, List.mem_map_of_mem hmem, rfl⟩

theorem declaresTokens_addComponent {d : Draft} (h : d.component.tokens ≠ [])
    (body : List Statement) : (d.addComponent body).DeclaresTokens := by
  have hchunk : (d.addComponent body).chunk? ChunkName.tokens =
      some (.script ChunkName.tokens [d.component.tokensConstant] ChunkName.imports) := by
    rw [Draft.addComponent, Draft.chunk?_put_of_ne, Draft.chunk?_put_of_ne, Draft.addTokens,
      if_neg (by simpa using h)]
    · exact Draft.chunk?_put_self d _
    · show ChunkName.component ≠ ChunkName.tokens
      decide
    · show ChunkName.exporting ≠ ChunkName.tokens
      decide
  exact ⟨_, hchunk⟩

theorem covers_surroundings (d : Draft) (useState : String) (body : List Statement) :
    ((d.addComponent body).surroundings (stateHooks useState d.component.states)).Covers
      d.component where
  tokens h := declaresTokens_addComponent h body
  states _ hstate := mem_states_stateHooks rfl hstate

theorem chunk?_addComponent (d : Draft) (body : List Statement) :
    (d.addComponent body).chunk? ChunkName.component = some (.script ChunkName.component
      [.constant (.name (componentName d.component.name)) (.arrowBlock ["props"] body)]
      d.componentLinks) := by
  rw [Draft.addComponent, Draft.chunk?_put_of_ne]
  · exact Draft.chunk?_put_self d.addTokens _
  · show ChunkName.exporting ≠ ChunkName.component
    decide

/-- A declared component holds what its root compiles to, and the surroundings of the root provide
what the component declares. -/
theorem exists_root_of_functionComponentPass {framework : Framework} {options : CompileOptions}
    {d d' : Draft} (hrun : (functionComponentPass framework options).run d = .ok d') :
    ∃ useState root w,
      d'.chunk? ChunkName.component = some (.script ChunkName.component
        [.constant (.name (componentName d.component.name)) (.arrowBlock ["props"]
          (stateHooks useState d.component.states ++ [.returning root.toExpr]))]
        d.componentLinks) ∧
      Yields (compileNode options d.component.node) w root d'.workspace ∧
      (d'.surroundings (stateHooks useState d.component.states)).Covers d.component := by
  obtain ⟨runtime, hruntime⟩ := Draft.exists_runtime_of_declareComponent hrun
  obtain ⟨imports, body, w, -, hbody, rfl⟩ := (Draft.declareComponent_iff hruntime).mp hrun
  obtain ⟨useState, registered, hyields⟩ := yields_functionBody_iff runtime options
    d.component { d.workspace with imports }
  obtain ⟨root, hroot, rfl⟩ := (hyields body w).mp hbody
  refine ⟨useState, root, { d.workspace with imports := registered }, ?_, ?_,
    covers_surroundings { d with workspace := w } useState _⟩
  · rw [chunk?_addComponent]
    rfl
  · rw [Draft.workspace_addComponent]
    exact hroot

/-- **What holds of the references and handlers of a resolved tree holds in the component that is
declared for it.**  It does not matter whether the elements were given keys before. -/
theorem compiled_functionComponent {c : Component} (hresolve : c.resolve = .ok ())
    {framework : Framework} {o : GeneratorOptions} {d d' : Draft}
    (hcomponent : d.component = c ∨ d.component = { c with node := c.node.withKeys })
    (hrun : (functionComponentPass framework o.compileOptions).run d = .ok d')
    {R : Surroundings → List LoopNames → List String → Reference → Expr → Prop}
    {H : Surroundings → List LoopNames → List String → Handler → Expr → Prop}
    (hsupports : ∀ s : Surroundings, s.Covers d.component →
      d.component.Supports o.compileOptions (R s) (H s)) :
    ∃ useState root,
      d'.chunk? ChunkName.component = some (.script ChunkName.component
        [.constant (.name (componentName c.name)) (.arrowBlock ["props"]
          (stateHooks useState c.states ++ [.returning root.toExpr]))] d.componentLinks) ∧
        NodeCompiled o.compileOptions d'.arena
          (R (d'.surroundings (stateHooks useState c.states)))
          (H (d'.surroundings (stateHooks useState c.states))) [] [] d.component.node root := by
  obtain ⟨useState, root, w, hchunk, hroot, hcovers⟩ := exists_root_of_functionComponentPass hrun
  have hresolved : d.component.resolve = .ok () := by
    rcases hcomponent with h | h
    · rw [h, hresolve]
    · rw [h, resolve_withKeys, hresolve]
  have hnode : d.component.node.resolve d.component ([].flatMap LoopNames.bound) .root = .ok () :=
    hresolved
  have hname : d.component.name = c.name := by
    rcases hcomponent with h | h <;> rw [h]
  have hstates : d.component.states = c.states := by
    rcases hcomponent with h | h <;> rw [h]
  rw [hname, hstates] at hchunk
  rw [hstates] at hcovers
  refine ⟨useState, root, hchunk, ?_⟩
  exact compiled_node o.injectsAfter_compileOptions (hsupports _ hcovers) d.component.node hnode
    hroot (Arena.Extends.refl _)

/-- **The component that is declared for a resolved tree is well scoped.**  Its chunk holds one
function of `props` with the hooks and the root; each expression in the root that was made from a
reference starts with `props`, with the constant of the tokens when the module declares it, with a
state that one of the hooks binds, or with a parameter of an arrow around it, and handlers call the
setters that the hooks bind, which are hidden by the loops around them that bind their names and by
nothing else.  It does not matter whether the elements were given keys before. -/
theorem functionComponent_wellScoped {c : Component} (hresolve : c.resolve = .ok ())
    {framework : Framework} {o : GeneratorOptions} {d d' : Draft}
    (hcomponent : d.component = c ∨ d.component = { c with node := c.node.withKeys })
    (hrun : (functionComponentPass framework o.compileOptions).run d = .ok d') :
    ∃ useState root,
      d'.chunk? ChunkName.component = some (.script ChunkName.component
        [.constant (.name (componentName c.name)) (.arrowBlock ["props"]
          (stateHooks useState c.states ++ [.returning root.toExpr]))] d.componentLinks) ∧
        NodeScoped o.compileOptions (d'.surroundings (stateHooks useState c.states)) [] []
          d.component.node root :=
  compiled_functionComponent hresolve hcomponent hrun fun _ hs => supports_sees rfl hs

/-- A list of lists: the inner loop runs over a name that the outer one binds, and uses both. -/
def nestedLists : Component where
  name := "Nested Lists"
  props := [("groups", { type := .array })]
  states := [("open", { type := .bool, default := .bool false })]
  tokens := [("gap", .text "4px")]
  node := .element {
    tag := "section"
    attrs := [("gap", .dynamic ⟨"gap", .token⟩)]
    events := [("click", [.setState "open" (.text Handler.toggle)])]
    children := [.conditional {
      subject := ⟨"open", .state⟩
      node := .loop {
        source := .reference ⟨"groups", .prop⟩
        names := { iterator := some "group", key := some "group.id" }
        template := {
          tag := "ul"
          children := [.loop {
            source := .reference ⟨"group.items", .loop⟩
            template := {
              tag := "li"
              attrs := [("title", .dynamic ⟨"group.name", .loop⟩)]
              children := [.dynamic ⟨"item.label", .loop⟩] } }] } } }] }

/-- The lists are resolved, and declared with keys they are well scoped. -/
theorem nestedLists_wellScoped : nestedLists.resolve = .ok () ∧
    ∃ d', (functionComponentPass .react ({} : GeneratorOptions).compileOptions).run
        { component := { nestedLists with node := nestedLists.node.withKeys }, fileName := "" } =
          .ok d' ∧
      ∃ useState root,
        d'.chunk? ChunkName.component = some (.script ChunkName.component
          [.constant (.name (componentName "Nested Lists")) (.arrowBlock ["props"]
            (stateHooks useState nestedLists.states ++ [.returning root.toExpr]))]
          (ChunkName.imports ++ [ChunkName.tokens])) ∧
          NodeScoped ({} : GeneratorOptions).compileOptions
            (d'.surroundings (stateHooks useState nestedLists.states)) [] []
            nestedLists.node.withKeys root := by
  have hruntime : Framework.react.runtime? = some _ := rfl
  obtain ⟨d', hd', -⟩ := turns_functionComponentPass hruntime
    (GeneratorOptions.mapsAll_compileOptions {}) (GeneratorOptions.injectsAfter_compileOptions {})
    { component := { nestedLists with node := nestedLists.node.withKeys }, fileName := "" }
    ⟨Draft.Sound.start _ _, rfl⟩
  have hresolve : nestedLists.resolve = .ok () := rfl
  exact ⟨hresolve, d', hd', functionComponent_wellScoped hresolve (.inr rfl) hd'⟩

end ViewGen
