import ViewGen.Proofs.CompileArena
import ViewGen.Proofs.CompileTotal
import ViewGen.Proofs.TemplateSteps

/-!
# Templates are written

Every tree can be written as a template.  The expressions that are printed on the way refer to no
markup element, so that it does not matter that there is no arena to look elements up in: any two
printers that agree on expressions without elements write the same template.

## Main definitions

* `Template.Alike` — two printers agree on expressions without elements

## Main statements

* `Template.exists_node` — every tree is written, and alike printers write the same
-/

namespace ViewGen

theorem elementIds_styleProperties {options : CompileOptions} {style : List (String × StyleValue)}
    {properties : List (String × Expr)} (h : styleProperties options style = .ok properties) :
    elementIdsOfProperties properties = [] := by
  induction style generalizing properties with
  | nil =>
      obtain rfl := Except.ok.inj h
      rfl
  | cons entry rest ih =>
      obtain ⟨property, value⟩ := entry
      obtain ⟨e, others, he, hothers, rfl⟩ := styleProperties_cons_iff.mp h
      have hplain : e.elementIds = [] := by
        cases value with
        | static value =>
            obtain rfl := Except.ok.inj he
            exact Expr.elementIds_ofScalar value
        | dynamic r => exact CompileOptions.elementIds_reference he
      rw [elementIdsOfProperties, hplain, ih hothers, List.append_nil]

namespace Template

open Writing (Yields)

theorem mapsAll_options : options.MapsAll :=
  isSome_templateQualifiers

/-- Two ways to print expressions that agree on all expressions without elements. -/
def Alike (print print' : Expr → String) : Prop :=
  ∀ e, e.elementIds = [] → print e = print' e

variable {print print' : Expr → String}

theorem Alike.bound_eq (h : Alike print print') (name : String) {e : Expr}
    (he : e.elementIds = []) : bound print name e = bound print' name e := by
  rw [bound, bound, h e he]

/-! ## Handlers, styles and directives -/

theorem exists_handler (h : Alike print print') (hd : Handler) :
    ∃ text, handler print hd = .ok text ∧ handler print' hd = .ok text := by
  cases hd with
  | callProp prop arguments =>
      obtain ⟨callee, hcallee⟩ := exists_reference mapsAll_options ⟨prop, .prop⟩
      have hplain : (Expr.call callee (arguments.map Expr.ofScalar)).elementIds = [] := by
        rw [Expr.elementIds, CompileOptions.elementIds_reference hcallee,
          Expr.elementIdsOfAll_map_ofScalar, List.append_nil]
      exact ⟨_, by rw [handler, hcallee]; rfl, by rw [handler, hcallee, h _ hplain]; rfl⟩
  | setState state value =>
      obtain ⟨target, htarget⟩ := exists_reference mapsAll_options ⟨state, .state⟩
      have hplain := CompileOptions.elementIds_reference htarget
      have hvalue : ∀ e : Expr, e.elementIds = [] →
          print target ++ " = " ++ print e = print' target ++ " = " ++ print' e := by
        intro e he
        rw [h target hplain, h e he]
      simp only [handler, htarget]
      cases value with
      | bool b => exact ⟨_, rfl, congrArg Except.ok (hvalue _ rfl).symm⟩
      | number x => exact ⟨_, rfl, congrArg Except.ok (hvalue _ rfl).symm⟩
      | text s =>
          refine ⟨_, rfl, congrArg Except.ok (hvalue _ ?_).symm⟩
          dsimp only
          split
          · rw [Expr.elementIds, hplain]
          · rfl

theorem exists_handlers (h : Alike print print') (hs : List Handler) :
    ∃ texts, handlers print hs = .ok texts ∧ handlers print' hs = .ok texts := by
  induction hs with
  | nil => exact ⟨[], rfl, rfl⟩
  | cons hd rest ih =>
      obtain ⟨text, htext, htext'⟩ := exists_handler h hd
      obtain ⟨texts, htexts, htexts'⟩ := ih
      exact ⟨text :: texts, by rw [handlers, htext, htexts]; rfl,
        by rw [handlers, htext', htexts']; rfl⟩

theorem exists_events (h : Alike print print') (handlers : List (String × List Handler)) :
    ∃ texts, events print handlers = .ok texts ∧ events print' handlers = .ok texts := by
  induction handlers with
  | nil => exact ⟨[], rfl, rfl⟩
  | cons entry rest ih =>
      obtain ⟨event, hs⟩ := entry
      cases hs with
      | nil =>
          rw [events, events]
          exact ih
      | cons hd others =>
          obtain ⟨statements, hstatements, hstatements'⟩ := exists_handlers h (hd :: others)
          obtain ⟨texts, htexts, htexts'⟩ := ih
          exact ⟨_, by rw [events, hstatements, htexts]; rfl,
            by rw [events, hstatements', htexts']; rfl⟩

theorem exists_style (h : Alike print print') (rules : Dict StyleValue) :
    ∃ texts, style print rules = .ok texts ∧ style print' rules = .ok texts := by
  obtain ⟨properties, hproperties⟩ :=
    exists_styleProperties mapsAll_options (styleReferences rules)
  have hplain : (Expr.object properties).elementIds = [] := by
    rw [Expr.elementIds, elementIds_styleProperties hproperties]
  exact ⟨_, by rw [style, hproperties]; rfl,
    by rw [style, hproperties, h.bound_eq "style" hplain]; rfl⟩

theorem exists_loopDirectives (h : Alike print print') (source : LoopSource) (names : LoopNames) :
    ∃ texts, loopDirectives print source names = .ok texts ∧
      loopDirectives print' source names = .ok texts := by
  obtain ⟨items, hitems⟩ := exists_source mapsAll_options source
  obtain ⟨key, hkey⟩ := exists_reference mapsAll_options ⟨names.keyPath, .loop⟩
  refine ⟨_, by rw [loopDirectives, hitems, hkey]; rfl, ?_⟩
  rw [loopDirectives, hitems, hkey, h items (CompileOptions.elementIds_source hitems),
    h.bound_eq "key" (CompileOptions.elementIds_reference hkey)]
  rfl

theorem exists_conditionDirective (h : Alike print print') (subject : Reference) (test : Test) :
    ∃ text, conditionDirective print subject test = .ok text ∧
      conditionDirective print' subject test = .ok text := by
  obtain ⟨s, hs⟩ := exists_reference mapsAll_options subject
  have hplain := elementIds_testExpr (CompileOptions.elementIds_reference hs) test
  exact ⟨_, by rw [conditionDirective, hs]; rfl,
    by rw [conditionDirective, hs, h _ hplain]; rfl⟩

/-! ## Trees -/

/-- Fixing a tag never fails. -/
theorem exists_tag (name : String) (dependency : Option Dependency) (t : Template) :
    ∃ bound t', Yields (tag name dependency) t bound t' := by
  cases dependency with
  | none => exact ⟨name, t, yields_tag_none.mpr ⟨rfl, rfl⟩⟩
  | some d => exact ⟨_, _, yields_tag_some.mpr ⟨rfl, rfl⟩⟩

theorem literalAttribute_eq (h : Alike print print') (name : String) (value : Scalar) :
    literalAttribute print name value = literalAttribute print' name value := by
  cases value with
  | text s => rfl
  | bool b => exact h.bound_eq name rfl
  | number x => exact h.bound_eq name rfl

mutual

/-- **Every tree is written**, and printers that are alike write the same. -/
theorem exists_node (h : Alike print print') : ∀ (n : Node) (level : Nat) (t : Template),
    ∃ text t', Yields (node print n level) t text t' ∧ Yields (node print' n level) t text t'
  | .static value, level, t =>
      ⟨_, t, yields_static.mpr ⟨rfl, rfl⟩, yields_static.mpr ⟨rfl, rfl⟩⟩
  | .dynamic r, level, t => by
      obtain ⟨e, he⟩ := exists_reference mapsAll_options r
      refine ⟨_, t, yields_dynamic.mpr ⟨e, he, rfl, rfl⟩, yields_dynamic.mpr ⟨e, he, ?_, rfl⟩⟩
      rw [interpolation, interpolation, h e (CompileOptions.elementIds_reference he)]
  | .raw markup, level, t => ⟨markup, t, yields_raw.mpr ⟨rfl, rfl⟩, yields_raw.mpr ⟨rfl, rfl⟩⟩
  | .element e, level, t => by
      obtain ⟨text, t', htext, htext'⟩ := exists_element h e [] level t
      exact ⟨text, t', yields_node_element.mpr htext, yields_node_element.mpr htext'⟩
  | .loop ⟨template, source, names⟩, level, t => by
      obtain ⟨directives, hd, hd'⟩ := exists_loopDirectives h source names
      obtain ⟨text, t', htext, htext'⟩ := exists_element h template directives level t
      exact ⟨text, t', yields_loop.mpr ⟨directives, hd, htext⟩,
        yields_loop.mpr ⟨directives, hd', htext'⟩⟩
  | .conditional ⟨inner, subject, value, condition⟩, level, t => by
      obtain ⟨directive, hd, hd'⟩ := exists_conditionDirective h subject
        (Conditional.test { node := inner, subject, value, condition })
      -- A condition on an element goes into its tag; any other node is wrapped for it.
      by_cases helement : ∃ e, inner = .element e
      · obtain ⟨e, rfl⟩ := helement
        obtain ⟨text, t', htext, htext'⟩ := exists_element h e [directive] level t
        exact ⟨text, t', yields_conditional_element.mpr ⟨directive, hd, htext⟩,
          yields_conditional_element.mpr ⟨directive, hd', htext'⟩⟩
      · have hinner : ∀ e, inner ≠ .element e := fun e he => helement ⟨e, he⟩
        obtain ⟨content, t', hcontent, hcontent'⟩ := exists_node h inner (level + 1) t
        exact ⟨_, t', (yields_conditional hinner).mpr ⟨directive, content, hd, hcontent, rfl⟩,
          (yields_conditional hinner).mpr ⟨directive, content, hd', hcontent', rfl⟩⟩
  | .slot ⟨name, some fallback⟩, level, t => by
      obtain ⟨content, t', hcontent, hcontent'⟩ := exists_node h fallback (level + 1) t
      exact ⟨_, t', yields_slot_some.mpr ⟨content, hcontent, rfl⟩,
        yields_slot_some.mpr ⟨content, hcontent', rfl⟩⟩
  | .slot ⟨name, none⟩, level, t =>
      ⟨_, t, yields_slot_none.mpr ⟨rfl, rfl⟩, yields_slot_none.mpr ⟨rfl, rfl⟩⟩

/-- Every element is written, and printers that are alike write the same. -/
theorem exists_element (h : Alike print print') :
    ∀ (e : Element Node) (directives : List String) (level : Nat) (t : Template),
      ∃ text t', Yields (element print e directives level) t text t' ∧
        Yields (element print' e directives level) t text t'
  | ⟨name, label, key, selfClosing, attrs, handlers, rules, children, dependency⟩, directives,
      level, t => by
      obtain ⟨bound, t₁, hbound⟩ := exists_tag name dependency t
      obtain ⟨written, slots, t₂, hwritten, hwritten'⟩ := exists_attributes h attrs level t₁
      obtain ⟨styles, hstyles, hstyles'⟩ := exists_style h rules
      obtain ⟨listeners, hlisteners, hlisteners'⟩ := exists_events h handlers
      obtain ⟨texts, t', htexts, htexts'⟩ := exists_nodes h children (level + 1) t₂
      exact ⟨_, t',
        yields_element.mpr ⟨bound, t₁, written, slots, t₂, styles, listeners, texts, hbound,
          hwritten, hstyles, hlisteners, htexts, rfl⟩,
        yields_element.mpr ⟨bound, t₁, written, slots, t₂, styles, listeners, texts, hbound,
          hwritten', hstyles', hlisteners', htexts', rfl⟩⟩

/-- All attributes are written, and printers that are alike write the same. -/
theorem exists_attributes (h : Alike print print') :
    ∀ (attrs : List (String × Attribute Node)) (level : Nat) (t : Template),
      ∃ written slots t', Yields (attributes print level attrs) t (written, slots) t' ∧
        Yields (attributes print' level attrs) t (written, slots) t'
  | [], level, t =>
      ⟨[], [], t, yields_attributes_nil.mpr ⟨rfl, rfl, rfl⟩,
        yields_attributes_nil.mpr ⟨rfl, rfl, rfl⟩⟩
  | (name, .static value) :: rest, level, t => by
      obtain ⟨others, slots, t', hothers, hothers'⟩ := exists_attributes h rest level t
      exact ⟨_, slots, t', yields_attributes_static.mpr ⟨others, hothers, rfl⟩,
        yields_attributes_static.mpr ⟨others, hothers', by rw [literalAttribute_eq h]⟩⟩
  | (name, .dynamic r) :: rest, level, t => by
      obtain ⟨e, he⟩ := exists_reference mapsAll_options r
      obtain ⟨others, slots, t', hothers, hothers'⟩ := exists_attributes h rest level t
      have hbound := h.bound_eq name (CompileOptions.elementIds_reference he)
      exact ⟨_, slots, t', yields_attributes_dynamic.mpr ⟨e, others, he, hothers, rfl⟩,
        yields_attributes_dynamic.mpr ⟨e, others, he, hothers', by rw [hbound]⟩⟩
  | (name, .imported id) :: rest, level, t => by
      obtain ⟨others, slots, t', hothers, hothers'⟩ := exists_attributes h rest level t
      have hbound : bound print name (.ident id) = bound print' name (.ident id) :=
        h.bound_eq name rfl
      exact ⟨_, slots, t', yields_attributes_imported.mpr ⟨others, hothers, rfl⟩,
        yields_attributes_imported.mpr ⟨others, hothers', by rw [hbound]⟩⟩
  | (name, .slot content) :: rest, level, t => by
      obtain ⟨inner, t₁, hinner, hinner'⟩ := exists_node h content (level + 1) t
      obtain ⟨written, others, t', hothers, hothers'⟩ := exists_attributes h rest level t₁
      exact ⟨written, _, t',
        yields_attributes_slot.mpr ⟨inner, t₁, others, hinner, hothers, rfl⟩,
        yields_attributes_slot.mpr ⟨inner, t₁, others, hinner', hothers', rfl⟩⟩

/-- All nodes are written, and printers that are alike write the same. -/
theorem exists_nodes (h : Alike print print') :
    ∀ (ns : List Node) (level : Nat) (t : Template),
      ∃ texts t', Yields (nodes print ns level) t texts t' ∧
        Yields (nodes print' ns level) t texts t'
  | [], level, t => ⟨[], t, yields_nodes_nil.mpr ⟨rfl, rfl⟩, yields_nodes_nil.mpr ⟨rfl, rfl⟩⟩
  | n :: rest, level, t => by
      obtain ⟨text, t₁, htext, htext'⟩ := exists_node h n level t
      obtain ⟨others, t', hothers, hothers'⟩ := exists_nodes h rest level t₁
      exact ⟨_, t', yields_nodes_cons.mpr ⟨text, t₁, others, htext, hothers, rfl⟩,
        yields_nodes_cons.mpr ⟨text, t₁, others, htext', hothers', rfl⟩⟩

end

end Template

end ViewGen
