import ViewGen.Compile.Node
import ViewGen.Draft.Styles

/-!
# What a compilation does, constructor by constructor

A compilation is a computation on a workspace that can fail.  `Compile.Yields x w a w'` says that
`x`, started on `w`, ends with the value `a` and leaves `w'`; it is the only view of the compile
monad that later modules use.

## Main statements

* `Compile.yields_bind_iff` — a sequence yields what its second part yields from where the first
  part ended
* `yields_node_loop`, `yields_element`, `yields_attrs_slot`, … — one equivalence for each form of
  node, attribute list and child list

## Design notes

The equivalences are read in both directions.  From right to left they build a run, which is how
success is proved; from left to right they take a run apart, which is how every invariant of a
successful compilation is proved.  No other module unfolds `compileNode`.
-/

namespace ViewGen

namespace Compile

variable {α β : Type}

/-- Started on `w`, the computation ends with the value `a` and leaves `w'`. -/
def Yields (x : Compile α) (w : Workspace) (a : α) (w' : Workspace) : Prop :=
  x.run w = (.ok a, w')

@[simp] theorem yields_pure {a b : α} {w w' : Workspace} :
    Yields (pure a) w b w' ↔ b = a ∧ w' = w := by
  constructor
  · intro h
    obtain ⟨hvalue, hworkspace⟩ := Prod.mk.inj h
    exact ⟨(Except.ok.inj hvalue).symm, hworkspace.symm⟩
  · rintro ⟨rfl, rfl⟩
    rfl

/-- A sequence runs its second part on what the first part leaves, unless the first part fails. -/
theorem run_bind (x : Compile α) (f : α → Compile β) (w : Workspace) :
    (x >>= f).run w =
      match x.run w with
      | (.ok a, w') => (f a).run w'
      | (.error e, w') => (.error e, w') := by
  rw [ExceptT.run_bind]
  simp only [bind, StateT.bind]
  rcases x.run w with ⟨_ | _, _⟩ <;> rfl

/-- A sequence yields what its second part yields from where the first part ended. -/
theorem yields_bind_iff {x : Compile α} {f : α → Compile β} {w w'' : Workspace} {b : β} :
    Yields (x >>= f) w b w'' ↔ ∃ a w', Yields x w a w' ∧ Yields (f a) w' b w'' := by
  rw [Yields, run_bind]
  rcases hx : x.run w with ⟨r, w₁⟩
  constructor
  · intro h
    cases r with
    | error e => exact absurd (Prod.mk.inj h).1 (by simp)
    | ok a => exact ⟨a, w₁, hx, h⟩
  · rintro ⟨a, w', ha, hf⟩
    obtain ⟨rfl, rfl⟩ := Prod.mk.inj (hx.symm.trans ha)
    exact hf

/-- A step that only computes leaves the workspace as it is. -/
@[simp] theorem yields_lift {x : Except GenError α} {w w' : Workspace} {a : α} :
    Yields (liftM x) w a w' ↔ x = .ok a ∧ w' = w := by
  constructor
  · intro h
    obtain ⟨hvalue, hworkspace⟩ := Prod.mk.inj (show (x, w) = (.ok a, w') from h)
    exact ⟨hvalue, hworkspace.symm⟩
  · rintro ⟨rfl, rfl⟩
    rfl

/-- A step that cannot fail yields exactly what it computes. -/
theorem yields_of_total {x : Compile α} {w w₁ w' : Workspace} {a b : α}
    (h : x.run w = (.ok a, w₁)) : Yields x w b w' ↔ b = a ∧ w' = w₁ := by
  rw [Yields, h, Prod.mk.injEq, Except.ok.injEq, eq_comm, eq_comm (a := w₁)]

theorem yields_register {name bound : String} {d : Dependency} {w w' : Workspace} :
    Yields (register name d) w bound w' ↔
      bound = (w.imports.register name d).1 ∧
        w' = { w with imports := (w.imports.register name d).2 } :=
  yields_of_total rfl

theorem yields_addElement {m : Markup} {id : ElementId} {w w' : Workspace} :
    Yields (addElement m) w id w' ↔
      id = w.arena.size ∧ w' = { w with arena := w.arena.push m } :=
  yields_of_total rfl

theorem yields_record {key : String} {id : ElementId} {u : Unit} {w w' : Workspace} :
    Yields (record key id) w u w' ↔
      w' = { w with lookup := if key.isEmpty then w.lookup else w.lookup.insert key id } := by
  have hrun : (record key id).run w =
      (.ok (), { w with lookup := if key.isEmpty then w.lookup else w.lookup.insert key id }) := by
    change (_, if key.isEmpty then w else _) = _
    split <;> rfl
  rw [yields_of_total hrun]
  exact and_iff_right rfl

theorem yields_setAttribute {id : ElementId} {name : String} {value : MarkupValue} {u : Unit}
    {w w' : Workspace} :
    Yields (setAttribute id name value) w u w' ↔
      w' = { w with arena := w.arena.set id name value } :=
  (yields_of_total rfl).trans (and_iff_right rfl)

/-- Raw markup that is turned into something is turned into it on the arena alone. -/
theorem yields_inject {options : CompileOptions} {turn : String → Arena → Target × Arena}
    (h : options.injectMarkup = some turn) {markup : String} {t : Target} {w w' : Workspace} :
    Yields (inject options markup) w t w' ↔
      t = (turn markup w.arena).1 ∧ w' = { w with arena := (turn markup w.arena).2 } := by
  rw [inject, h]
  exact yields_of_total rfl

end Compile

open Compile (Yields yields_bind_iff yields_lift yields_pure)

-- All proofs below rewrite with the equations of these functions; they are generated here, once.
attribute [local simp] compileNode compileElement compileAttrs compileChildren

variable {options : CompileOptions} {w w' : Workspace}

/-! ## Handlers and events -/

/-- A sequence of computations that can fail ends well when both parts do. -/
theorem bind_eq_ok_iff {ε α β : Type} {x : Except ε α} {f : α → Except ε β} {b : β} :
    (x >>= f) = .ok b ↔ ∃ a, x = .ok a ∧ f a = .ok b := by
  cases x with
  | error e =>
      constructor
      · intro h
        exact absurd h (by simp [bind, Except.bind])
      · rintro ⟨a, ha, -⟩
        exact absurd ha (by simp)
  | ok a =>
      constructor
      · intro h
        exact ⟨a, rfl, h⟩
      · rintro ⟨_, ha, h⟩
        obtain rfl := Except.ok.inj ha
        exact h

theorem bind_ok_eq_ok_iff {ε α β : Type} {x : Except ε α} {f : α → β} {b : β} :
    (x >>= fun a => .ok (f a)) = .ok b ↔ ∃ a, x = .ok a ∧ b = f a := by
  rw [bind_eq_ok_iff]
  refine exists_congr fun a => and_congr_right fun _ => ?_
  rw [Except.ok.injEq, eq_comm]

/-- The value that a handler sets a state to. -/
def CompileOptions.newValue (options : CompileOptions) (state : String) :
    Scalar → Except GenError Expr
  | .text s =>
    if s = Handler.toggle then Expr.not <$> options.reference ⟨state, .state⟩ else .ok (.str s)
  | value => .ok (Expr.ofScalar value)

theorem handlerCall_setState_iff {state : String} {value : Scalar} {call : Expr} :
    options.handlerCall (.setState state value) = .ok call ↔
      ∃ v, options.newValue state value = .ok v ∧
        call = .call (.ident (setterName state)) [v] := by
  have hcall : options.handlerCall (.setState state value) =
      options.newValue state value >>= fun v => .ok (.call (.ident (setterName state)) [v]) := by
    cases value with
    | bool b => rfl
    | number x => rfl
    | text s =>
        rw [CompileOptions.handlerCall, CompileOptions.newValue]
        split <;> rfl
  rw [hcall, bind_ok_eq_ok_iff]

theorem handlerCall_callProp_iff {prop : String} {arguments : List Scalar} {call : Expr} :
    options.handlerCall (.callProp prop arguments) = .ok call ↔
      ∃ callee, options.reference ⟨prop, .prop⟩ = .ok callee ∧
        call = .call callee (arguments.map Expr.ofScalar) := by
  have hcall : options.handlerCall (.callProp prop arguments) =
      options.reference ⟨prop, .prop⟩ >>= fun callee =>
        .ok (.call callee (arguments.map Expr.ofScalar)) := rfl
  rw [hcall, bind_ok_eq_ok_iff]

theorem handlerCalls_cons_iff {h : Handler} {rest : List Handler} {calls : List Expr} :
    options.handlerCalls (h :: rest) = .ok calls ↔
      ∃ call others, options.handlerCall h = .ok call ∧
        options.handlerCalls rest = .ok others ∧ calls = call :: others := by
  rw [CompileOptions.handlerCalls, bind_eq_ok_iff]
  constructor
  · rintro ⟨call, hcall, hbind⟩
    obtain ⟨others, hothers, hcalls⟩ := bind_eq_ok_iff.mp hbind
    exact ⟨call, others, hcall, hothers, (Except.ok.inj hcalls).symm⟩
  · rintro ⟨call, others, hcall, hothers, rfl⟩
    exact ⟨call, hcall, bind_eq_ok_iff.mpr ⟨others, hothers, rfl⟩⟩

/-- The function that makes some calls. -/
def handlerFunction : List Expr → Expr
  | [call] => .arrow [] call
  | calls => .arrowBlock [] (calls.map .expr)

theorem handlers_iff {hs : List Handler} {e : Expr} :
    options.handlers hs = .ok e ↔
      ∃ calls, options.handlerCalls hs = .ok calls ∧ e = handlerFunction calls := by
  rw [CompileOptions.handlers, bind_eq_ok_iff]
  refine exists_congr fun calls => and_congr_right fun _ => ?_
  rcases calls with _ | ⟨call, _ | ⟨next, rest⟩⟩
  all_goals exact ⟨fun h => (Except.ok.inj h).symm, fun h => by rw [h]; rfl⟩

/-- An event without handlers sets no attribute. -/
theorem events_skip {m : Markup} {event : String} {rest : List (String × List Handler)} :
    Compile.events options m ((event, []) :: rest) = Compile.events options m rest := by
  rw [Compile.events]

theorem events_cons_iff {m m' : Markup} {event : String} {h : Handler} {hs : List Handler}
    {rest : List (String × List Handler)} :
    Compile.events options m ((event, h :: hs) :: rest) = .ok m' ↔
      ∃ run, options.handlers (h :: hs) = .ok run ∧
        Compile.events options (m.set (eventAttribute event) (.expr run)) rest = .ok m' := by
  rw [Compile.events, bind_eq_ok_iff]

/-! ## Nodes -/

theorem yields_node_static {value : Scalar} {t : Target} :
    Yields (compileNode options (.static value)) w t w' ↔ t = .text value.display ∧ w' = w := by
  rw [compileNode]
  exact yields_pure

theorem yields_node_dynamic {r : Reference} {t : Target} :
    Yields (compileNode options (.dynamic r)) w t w' ↔
      ∃ e, options.reference r = .ok e ∧ t = .expr e ∧ w' = w := by
  rw [compileNode, yields_bind_iff]
  constructor
  · rintro ⟨e, w₁, hlift, ht⟩
    obtain ⟨he, rfl⟩ := yields_lift.mp hlift
    exact ⟨e, he, yields_pure.mp ht⟩
  · rintro ⟨e, he, ht⟩
    exact ⟨e, w, yields_lift.mpr ⟨he, rfl⟩, yields_pure.mpr ht⟩

theorem yields_node_raw {markup : String} {t : Target} :
    Yields (compileNode options (.raw markup)) w t w' ↔
      Yields (Compile.inject options markup) w t w' := by
  rw [compileNode]

theorem yields_node_element {e : Element Node} {t : Target} :
    Yields (compileNode options (.element e)) w t w' ↔
      ∃ id, Yields (compileElement options e) w id w' ∧ t = .element id := by
  rw [compileNode, yields_bind_iff]
  constructor
  · rintro ⟨id, w₁, hid, ht⟩
    obtain ⟨rfl, rfl⟩ := yields_pure.mp ht
    exact ⟨id, hid, rfl⟩
  · rintro ⟨id, hid, rfl⟩
    exact ⟨id, w', hid, yields_pure.mpr ⟨rfl, rfl⟩⟩

/-- A loop compiles its source, its template and its key, in this order, and sets the key on the
element of the template. -/
theorem yields_node_loop {template : Element Node} {source : LoopSource} {names : LoopNames}
    {t : Target} :
    Yields (compileNode options (.loop ⟨template, source, names⟩)) w t w' ↔
      ∃ items id w₁ key, options.source source = .ok items ∧
        Yields (compileElement options template) w id w₁ ∧
        options.reference ⟨names.keyPath, .loop⟩ = .ok key ∧
        w' = { w₁ with arena := w₁.arena.set id "key" (.expr key) } ∧
        t = .expr (.call (.member items "map") [.arrow names.bound (.element id)]) := by
  rw [compileNode]
  simp only [yields_bind_iff, yields_lift, yields_pure, Compile.yields_setAttribute]
  constructor
  · rintro ⟨items, _, ⟨hitems, rfl⟩, id, w₁, hid, key, _, ⟨hkey, rfl⟩, _, _, rfl, rfl, rfl⟩
    exact ⟨items, id, _, key, hitems, hid, hkey, rfl, rfl⟩
  · rintro ⟨items, id, w₁, key, hitems, hid, hkey, rfl, rfl⟩
    exact ⟨items, w, ⟨hitems, rfl⟩, id, w₁, hid, key, w₁, ⟨hkey, rfl⟩, (), _, rfl, rfl, rfl⟩

theorem yields_node_conditional {node : Node} {subject : Reference} {value : Option Scalar}
    {condition : Option Test} {t : Target} :
    Yields (compileNode options (.conditional ⟨node, subject, value, condition⟩)) w t w' ↔
      ∃ s inner, options.reference subject = .ok s ∧
        Yields (compileNode options node) w inner w' ∧
        t = .expr (.logical .and
          ((Conditional.test { node, subject, value, condition }).expr s) inner.toExpr) := by
  rw [compileNode]
  simp only [yields_bind_iff, yields_lift, yields_pure]
  constructor
  · rintro ⟨s, _, ⟨hs, rfl⟩, inner, w₁, hinner, rfl, rfl⟩
    exact ⟨s, inner, hs, hinner, rfl⟩
  · rintro ⟨s, inner, hs, hinner, rfl⟩
    exact ⟨s, w, ⟨hs, rfl⟩, inner, w', hinner, rfl, rfl⟩

/-- A slot whose fallback is shown forwards the prop or else shows the fallback. -/
theorem yields_node_slot_fallback (hslots : options.slots = .fallbackWhenEmpty)
    {name : Option String} {fallback : Node} {t : Target} :
    Yields (compileNode options (.slot ⟨name, some fallback⟩)) w t w' ↔
      ∃ forwarded inner,
        options.reference ⟨name.getD options.childrenProp, .prop⟩ = .ok forwarded ∧
        Yields (compileNode options fallback) w inner w' ∧
        t = .expr (.logical .or forwarded inner.toExpr) := by
  rw [compileNode]
  simp only [hslots, yields_bind_iff, yields_lift, yields_pure]
  constructor
  · rintro ⟨forwarded, _, ⟨hforwarded, rfl⟩, inner, w₁, hinner, rfl, rfl⟩
    exact ⟨forwarded, inner, hforwarded, hinner, rfl⟩
  · rintro ⟨forwarded, inner, hforwarded, hinner, rfl⟩
    exact ⟨forwarded, w, ⟨hforwarded, rfl⟩, inner, w', hinner, rfl, rfl⟩

/-- Any other slot forwards the prop. -/
theorem yields_node_slot_forward {name : Option String} {fallback : Option Node}
    (h : options.slots = .forwardChildren ∨ fallback = none) {t : Target} :
    Yields (compileNode options (.slot ⟨name, fallback⟩)) w t w' ↔
      ∃ forwarded,
        options.reference ⟨name.getD options.childrenProp, .prop⟩ = .ok forwarded ∧
        t = .expr forwarded ∧ w' = w := by
  have hshown : ¬ (options.slots = .fallbackWhenEmpty ∧ fallback.isSome) := by
    rintro ⟨hslots, hsome⟩
    rcases h with h | h
    · exact absurd (h.symm.trans hslots) (by simp)
    · rw [h] at hsome
      exact absurd hsome (by simp)
  rw [compileNode, yields_bind_iff]
  constructor
  · rintro ⟨forwarded, w₁, hlift, ht⟩
    obtain ⟨hforwarded, rfl⟩ := yields_lift.mp hlift
    refine ⟨forwarded, hforwarded, ?_⟩
    split at ht
    · exact absurd ⟨‹_›, rfl⟩ hshown
    · exact yields_pure.mp ht
  · rintro ⟨forwarded, hforwarded, ht⟩
    refine ⟨forwarded, w, yields_lift.mpr ⟨hforwarded, rfl⟩, ?_⟩
    split
    · exact absurd ⟨‹_›, rfl⟩ hshown
    · exact yields_pure.mpr ht

/-! ## Elements, attributes and children -/

/-- An element without a dependency keeps its tag. -/
theorem yields_tag_none {name tag : String} :
    Yields (Compile.tag options name none) w tag w' ↔ tag = name ∧ w' = w := by
  rw [Compile.tag]
  exact yields_pure

/-- The tag that is written for the name a dependency is bound to. -/
def CompileOptions.writtenTag (options : CompileOptions) (d : Dependency) (bound : String) :
    String :=
  match options.customTag with
  | some custom => if d.kind = .project then custom bound else bound
  | none => bound

/-- An element with a dependency has its dependency bound, if imports are bound at all, before its
tag is written. -/
theorem yields_tag_some {name tag : String} {d : Dependency} :
    Yields (Compile.tag options name (some d)) w tag w' ↔
      ∃ bound, Yields (if options.bindImports then Compile.register name d else pure name) w bound
          w' ∧ tag = options.writtenTag d bound := by
  -- Both ways of binding go on with the same last step.
  have hlast : ∀ x : Compile String,
      Yields (x >>= fun bound => match options.customTag with
        | some custom => if d.kind = .project then pure (custom bound) else pure bound
        | none => pure bound) w tag w' ↔
        ∃ bound, Yields x w bound w' ∧ tag = options.writtenTag d bound := by
    intro x
    have hwritten : ∀ bound, (match options.customTag with
        | some custom => if d.kind = .project then pure (custom bound) else pure bound
        | none => pure bound : Compile String) = pure (options.writtenTag d bound) := by
      intro bound
      rw [CompileOptions.writtenTag]
      cases options.customTag with
      | none => rfl
      | some custom =>
          dsimp only
          split <;> rfl
    simp only [hwritten, yields_bind_iff, yields_pure]
    constructor
    · rintro ⟨bound, _, hbound, htag, rfl⟩
      exact ⟨bound, hbound, htag⟩
    · rintro ⟨bound, hbound, htag⟩
      exact ⟨bound, w', hbound, htag, rfl⟩
  rw [Compile.tag]
  split
  · exact hlast (Compile.register name d)
  · exact hlast (pure name)

/-- The workspace with an element added and recorded under its key. -/
def Workspace.add (w : Workspace) (key : String) (m : Markup) : Workspace :=
  { w with
    arena := w.arena.push m
    lookup := if key.isEmpty then w.lookup else w.lookup.insert key w.arena.size }

/-- An element fixes its tag, then compiles its attributes, its events and its children, in this
order, and is added after all of them. -/
theorem yields_element {tag : String} {name : Option String} {key : String} {selfClosing : Bool}
    {attrs : List (String × Attribute Node)} {events : List (String × List Handler)}
    {style : List (String × StyleValue)} {children : List Node} {dependency : Option Dependency}
    {id : ElementId} :
    Yields (compileElement options
        ⟨tag, name, key, selfClosing, attrs, events, style, children, dependency⟩) w id w' ↔
      ∃ bound w₁ m w₂ m' cs w₃, Yields (Compile.tag options tag dependency) w bound w₁ ∧
        Yields (compileAttrs options { name := bound, selfClosing } attrs) w₁ m w₂ ∧
        Compile.events options m events = .ok m' ∧
        Yields (compileChildren options children) w₂ cs w₃ ∧
        id = w₃.arena.size ∧ w' = w₃.add key { m' with children := cs } := by
  rw [compileElement]
  simp only [yields_bind_iff, yields_lift, yields_pure, Compile.yields_addElement,
    Compile.yields_record]
  constructor
  · rintro ⟨bound, w₁, hbound, m, w₂, hm, m', _, ⟨hm', rfl⟩, cs, w₃, hcs, _, _, ⟨rfl, rfl⟩, _, _,
      rfl, rfl, rfl⟩
    exact ⟨bound, w₁, m, _, m', cs, w₃, hbound, hm, hm', hcs, rfl, rfl⟩
  · rintro ⟨bound, w₁, m, w₂, m', cs, w₃, hbound, hm, hm', hcs, rfl, rfl⟩
    exact ⟨bound, w₁, hbound, m, w₂, hm, m', w₂, ⟨hm', rfl⟩, cs, w₃, hcs, _, _, ⟨rfl, rfl⟩, (), _,
      rfl, rfl, rfl⟩

/-- A literal in the place of an attribute's value: a text stands as it is. -/
def Scalar.toValue : Scalar → MarkupValue
  | .text s => .text s
  | value => .expr (Expr.ofScalar value)

theorem yields_attrs_nil {m m' : Markup} :
    Yields (compileAttrs options m []) w m' w' ↔ m' = m ∧ w' = w := by
  rw [compileAttrs]
  exact yields_pure

theorem yields_attrs_static {m m' : Markup} {name : String} {value : Scalar}
    {rest : List (String × Attribute Node)} :
    Yields (compileAttrs options m ((name, .static value) :: rest)) w m' w' ↔
      Yields (compileAttrs options (m.set name value.toValue) rest) w m' w' := by
  cases value <;> simp only [compileAttrs, Scalar.toValue]

theorem yields_attrs_dynamic {m m' : Markup} {name : String} {r : Reference}
    {rest : List (String × Attribute Node)} :
    Yields (compileAttrs options m ((name, .dynamic r) :: rest)) w m' w' ↔
      ∃ e, options.reference r = .ok e ∧
        Yields (compileAttrs options (m.set name (.expr e)) rest) w m' w' := by
  rw [compileAttrs, yields_bind_iff]
  constructor
  · rintro ⟨e, w₁, hlift, hrest⟩
    obtain ⟨he, rfl⟩ := yields_lift.mp hlift
    exact ⟨e, he, hrest⟩
  · rintro ⟨e, he, hrest⟩
    exact ⟨e, w, yields_lift.mpr ⟨he, rfl⟩, hrest⟩

theorem yields_attrs_imported {m m' : Markup} {name id : String}
    {rest : List (String × Attribute Node)} :
    Yields (compileAttrs options m ((name, .imported id) :: rest)) w m' w' ↔
      Yields (compileAttrs options (m.set name (.expr (.ident id))) rest) w m' w' := by
  rw [compileAttrs]

theorem yields_attrs_slot {m m' : Markup} {name : String} {content : Node}
    {rest : List (String × Attribute Node)} :
    Yields (compileAttrs options m ((name, .slot content) :: rest)) w m' w' ↔
      ∃ t w₁, Yields (compileNode options content) w t w₁ ∧
        Yields (compileAttrs options (m.set name t.toValue) rest) w₁ m' w' := by
  rw [compileAttrs, yields_bind_iff]

theorem yields_children_nil {cs : List MarkupChild} :
    Yields (compileChildren options []) w cs w' ↔ cs = [] ∧ w' = w := by
  rw [compileChildren]
  exact yields_pure

theorem yields_children_cons {n : Node} {rest : List Node} {cs : List MarkupChild} :
    Yields (compileChildren options (n :: rest)) w cs w' ↔
      ∃ t w₁ others, Yields (compileNode options n) w t w₁ ∧
        Yields (compileChildren options rest) w₁ others w' ∧ cs = t.toChild :: others := by
  rw [compileChildren]
  simp only [yields_bind_iff, yields_pure]
  constructor
  · rintro ⟨t, w₁, ht, others, _, hothers, rfl, rfl⟩
    exact ⟨t, w₁, others, ht, hothers, rfl⟩
  · rintro ⟨t, w₁, others, ht, hothers, rfl⟩
    exact ⟨t, w₁, ht, others, w', hothers, rfl, rfl⟩

/-! ## Styles -/

/-- The expression of a style value. -/
def CompileOptions.styleValue (options : CompileOptions) : StyleValue → Except GenError Expr
  | .static value => .ok (Expr.ofScalar value)
  | .dynamic r => options.reference r

theorem styleProperties_cons_iff {property : String} {value : StyleValue}
    {rest : List (String × StyleValue)} {properties : List (String × Expr)} :
    styleProperties options ((property, value) :: rest) = .ok properties ↔
      ∃ e others, options.styleValue value = .ok e ∧
        styleProperties options rest = .ok others ∧
        properties = (Text.camel property, e) :: others := by
  have hcons : styleProperties options ((property, value) :: rest) =
      options.styleValue value >>= fun e => styleProperties options rest >>= fun others =>
        .ok ((Text.camel property, e) :: others) := by
    cases value <;> rfl
  rw [hcons, bind_eq_ok_iff]
  constructor
  · rintro ⟨e, he, hbind⟩
    obtain ⟨others, hothers, hproperties⟩ := bind_ok_eq_ok_iff.mp hbind
    exact ⟨e, others, he, hothers, hproperties⟩
  · rintro ⟨e, others, he, hothers, hproperties⟩
    exact ⟨e, he, bind_ok_eq_ok_iff.mpr ⟨others, hothers, hproperties⟩⟩

end ViewGen
