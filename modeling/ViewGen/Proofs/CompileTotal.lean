import ViewGen.Proofs.CompileSteps

/-!
# Compilation succeeds

The only way in which the compilation of a tree can fail is a reference of a kind that the options
cannot write.  Options that can write all kinds compile every tree, from every workspace.

## Main statements

* `CompileOptions.MapsAll` — every kind of reference can be written
* `exists_yields_node` — every tree is compiled
* `exists_styleProperties` — every style becomes properties

## Design notes

Nothing is asked of the tree: undeclared names, empty tags and repeated keys are compiled like all
others.  That the documents behind generated code use declared names only is a matter of the checks
made before.
-/

namespace ViewGen

open Compile (Yields)

/-- Every kind of reference can be written. -/
def CompileOptions.MapsAll (options : CompileOptions) : Prop :=
  ∀ kind, (options.qualifiers kind).isSome

theorem isSome_functionQualifiers (kind : ReferenceKind) : (functionQualifiers kind).isSome := by
  cases kind <;> rfl

theorem isSome_templateQualifiers (kind : ReferenceKind) : (templateQualifiers kind).isSome := by
  cases kind <;> rfl

variable {options : CompileOptions}

/-! ## Expressions -/

theorem exists_reference (h : options.MapsAll) (r : Reference) :
    ∃ e, options.reference r = .ok e := by
  obtain ⟨q, hq⟩ := Option.isSome_iff_exists.mp (h r.kind)
  rw [CompileOptions.reference, hq]
  cases q with
  | bare => exact ⟨_, rfl⟩
  | within path => exact ⟨_, rfl⟩

theorem exists_source (h : options.MapsAll) (source : LoopSource) :
    ∃ e, options.source source = .ok e := by
  cases source with
  | reference r => exact exists_reference h r
  | inline items => exact ⟨_, rfl⟩

theorem exists_newValue (h : options.MapsAll) (state : String) (value : Scalar) :
    ∃ v, options.newValue state value = .ok v := by
  cases value with
  | bool b => exact ⟨_, rfl⟩
  | number x => exact ⟨_, rfl⟩
  | text s =>
      rw [CompileOptions.newValue]
      split
      · obtain ⟨current, hcurrent⟩ := exists_reference h ⟨state, .state⟩
        exact ⟨.not current, by rw [hcurrent]; rfl⟩
      · exact ⟨_, rfl⟩

theorem exists_handlerCall (h : options.MapsAll) (handler : Handler) :
    ∃ call, options.handlerCall handler = .ok call := by
  cases handler with
  | setState state value =>
      obtain ⟨v, hv⟩ := exists_newValue h state value
      exact ⟨_, handlerCall_setState_iff.mpr ⟨v, hv, rfl⟩⟩
  | callProp prop arguments =>
      obtain ⟨callee, hcallee⟩ := exists_reference h ⟨prop, .prop⟩
      exact ⟨_, handlerCall_callProp_iff.mpr ⟨callee, hcallee, rfl⟩⟩

theorem exists_handlerCalls (h : options.MapsAll) (hs : List Handler) :
    ∃ calls, options.handlerCalls hs = .ok calls := by
  induction hs with
  | nil => exact ⟨[], rfl⟩
  | cons handler rest ih =>
      obtain ⟨call, hcall⟩ := exists_handlerCall h handler
      obtain ⟨calls, hcalls⟩ := ih
      exact ⟨_, handlerCalls_cons_iff.mpr ⟨call, calls, hcall, hcalls, rfl⟩⟩

theorem exists_handlers (h : options.MapsAll) (hs : List Handler) :
    ∃ e, options.handlers hs = .ok e := by
  obtain ⟨calls, hcalls⟩ := exists_handlerCalls h hs
  exact ⟨_, handlers_iff.mpr ⟨calls, hcalls, rfl⟩⟩

theorem exists_events (h : options.MapsAll) (m : Markup) (events : List (String × List Handler)) :
    ∃ m', Compile.events options m events = .ok m' := by
  induction events generalizing m with
  | nil => exact ⟨m, rfl⟩
  | cons entry rest ih =>
      obtain ⟨event, handlers⟩ := entry
      cases handlers with
      | nil =>
          rw [events_skip]
          exact ih m
      | cons handler others =>
          obtain ⟨run, hrun⟩ := exists_handlers h (handler :: others)
          obtain ⟨m', hm'⟩ := ih (m.set (eventAttribute event) (.expr run))
          exact ⟨m', events_cons_iff.mpr ⟨run, hrun, hm'⟩⟩

theorem exists_styleProperties (h : options.MapsAll) (style : List (String × StyleValue)) :
    ∃ properties, styleProperties options style = .ok properties := by
  induction style with
  | nil => exact ⟨[], rfl⟩
  | cons entry rest ih =>
      obtain ⟨property, value⟩ := entry
      obtain ⟨properties, hproperties⟩ := ih
      obtain ⟨e, he⟩ : ∃ e, options.styleValue value = .ok e := by
        cases value with
        | static value => exact ⟨_, rfl⟩
        | dynamic r => exact exists_reference h r
      exact ⟨_, styleProperties_cons_iff.mpr ⟨e, properties, he, hproperties, rfl⟩⟩

/-! ## Trees -/

theorem exists_yields_inject (options : CompileOptions) (markup : String) (w : Workspace) :
    ∃ t w', Yields (Compile.inject options markup) w t w' := by
  cases hturn : options.injectMarkup with
  | none =>
      refine ⟨.text markup, w, ?_⟩
      rw [Compile.inject, hturn]
      exact Compile.yields_pure.mpr ⟨rfl, rfl⟩
  | some turn => exact ⟨_, _, (Compile.yields_inject hturn).mpr ⟨rfl, rfl⟩⟩

/-- Fixing a tag never fails, whatever becomes of the dependency. -/
theorem exists_yields_tag (options : CompileOptions) (name : String)
    (dependency : Option Dependency) (w : Workspace) :
    ∃ bound w', Yields (Compile.tag options name dependency) w bound w' := by
  cases dependency with
  | none => exact ⟨name, w, yields_tag_none.mpr ⟨rfl, rfl⟩⟩
  | some d =>
      obtain ⟨bound, w', hbound⟩ : ∃ bound w',
          Yields (if options.bindImports then Compile.register name d else pure name) w bound w' := by
        split
        · exact ⟨_, _, Compile.yields_register.mpr ⟨rfl, rfl⟩⟩
        · exact ⟨name, w, Compile.yields_pure.mpr ⟨rfl, rfl⟩⟩
      exact ⟨_, w', yields_tag_some.mpr ⟨bound, hbound, rfl⟩⟩

mutual

/-- Every node is compiled. -/
theorem exists_yields_node (h : options.MapsAll) :
    ∀ (n : Node) (w : Workspace), ∃ t w', Yields (compileNode options n) w t w'
  | .static value, w => ⟨_, w, yields_node_static.mpr ⟨rfl, rfl⟩⟩
  | .dynamic r, w => by
      obtain ⟨e, he⟩ := exists_reference h r
      exact ⟨_, w, yields_node_dynamic.mpr ⟨e, he, rfl, rfl⟩⟩
  | .raw markup, w => by
      obtain ⟨t, w', ht⟩ := exists_yields_inject options markup w
      exact ⟨t, w', yields_node_raw.mpr ht⟩
  | .element e, w => by
      obtain ⟨id, w', hid⟩ := exists_yields_element h e w
      exact ⟨_, w', yields_node_element.mpr ⟨id, hid, rfl⟩⟩
  | .loop ⟨template, source, names⟩, w => by
      obtain ⟨items, hitems⟩ := exists_source h source
      obtain ⟨id, w₁, hid⟩ := exists_yields_element h template w
      obtain ⟨key, hkey⟩ := exists_reference h ⟨names.keyPath, .loop⟩
      exact ⟨_, _, yields_node_loop.mpr ⟨items, id, w₁, key, hitems, hid, hkey, rfl, rfl⟩⟩
  | .conditional ⟨node, subject, value, condition⟩, w => by
      obtain ⟨s, hs⟩ := exists_reference h subject
      obtain ⟨inner, w', hinner⟩ := exists_yields_node h node w
      exact ⟨_, w', yields_node_conditional.mpr ⟨s, inner, hs, hinner, rfl⟩⟩
  | .slot ⟨name, none⟩, w => by
      obtain ⟨forwarded, hforwarded⟩ := exists_reference h ⟨name.getD options.childrenProp, .prop⟩
      exact ⟨_, w, (yields_node_slot_forward (.inr rfl)).mpr ⟨forwarded, hforwarded, rfl, rfl⟩⟩
  | .slot ⟨name, some fallback⟩, w => by
      obtain ⟨forwarded, hforwarded⟩ := exists_reference h ⟨name.getD options.childrenProp, .prop⟩
      cases hslots : options.slots with
      | forwardChildren =>
          exact ⟨_, w, (yields_node_slot_forward (.inl hslots)).mpr
            ⟨forwarded, hforwarded, rfl, rfl⟩⟩
      | fallbackWhenEmpty =>
          obtain ⟨inner, w', hinner⟩ := exists_yields_node h fallback w
          exact ⟨_, w', (yields_node_slot_fallback hslots).mpr
            ⟨forwarded, inner, hforwarded, hinner, rfl⟩⟩

/-- Every element is compiled. -/
theorem exists_yields_element (h : options.MapsAll) :
    ∀ (e : Element Node) (w : Workspace), ∃ id w', Yields (compileElement options e) w id w'
  | ⟨tag, name, key, selfClosing, attrs, events, style, children, dependency⟩, w => by
      obtain ⟨bound, w₁, hbound⟩ := exists_yields_tag options tag dependency w
      obtain ⟨m, w₂, hm⟩ := exists_yields_attrs h attrs { name := bound, selfClosing } w₁
      obtain ⟨m', hm'⟩ := exists_events h m events
      obtain ⟨cs, w₃, hcs⟩ := exists_yields_children h children w₂
      exact ⟨_, _, yields_element.mpr ⟨bound, w₁, m, w₂, m', cs, w₃, hbound, hm, hm', hcs, rfl, rfl⟩⟩

/-- All attributes are compiled. -/
theorem exists_yields_attrs (h : options.MapsAll) :
    ∀ (attrs : List (String × Attribute Node)) (m : Markup) (w : Workspace),
      ∃ m' w', Yields (compileAttrs options m attrs) w m' w'
  | [], m, w => ⟨m, w, yields_attrs_nil.mpr ⟨rfl, rfl⟩⟩
  | (name, .static value) :: rest, m, w => by
      obtain ⟨m', w', hrest⟩ := exists_yields_attrs h rest (m.set name value.toValue) w
      exact ⟨m', w', yields_attrs_static.mpr hrest⟩
  | (name, .dynamic r) :: rest, m, w => by
      obtain ⟨e, he⟩ := exists_reference h r
      obtain ⟨m', w', hrest⟩ := exists_yields_attrs h rest (m.set name (.expr e)) w
      exact ⟨m', w', yields_attrs_dynamic.mpr ⟨e, he, hrest⟩⟩
  | (name, .imported id) :: rest, m, w => by
      obtain ⟨m', w', hrest⟩ := exists_yields_attrs h rest (m.set name (.expr (.ident id))) w
      exact ⟨m', w', yields_attrs_imported.mpr hrest⟩
  | (name, .slot content) :: rest, m, w => by
      obtain ⟨t, w₁, ht⟩ := exists_yields_node h content w
      obtain ⟨m', w', hrest⟩ := exists_yields_attrs h rest (m.set name t.toValue) w₁
      exact ⟨m', w', yields_attrs_slot.mpr ⟨t, w₁, ht, hrest⟩⟩

/-- All children are compiled. -/
theorem exists_yields_children (h : options.MapsAll) :
    ∀ (children : List Node) (w : Workspace),
      ∃ cs w', Yields (compileChildren options children) w cs w'
  | [], w => ⟨[], w, yields_children_nil.mpr ⟨rfl, rfl⟩⟩
  | n :: rest, w => by
      obtain ⟨t, w₁, ht⟩ := exists_yields_node h n w
      obtain ⟨others, w', hothers⟩ := exists_yields_children h rest w₁
      exact ⟨_, w', yields_children_cons.mpr ⟨t, w₁, others, ht, hothers, rfl⟩⟩

end

end ViewGen
