import ViewGen.Project.Component
import ViewGen.Proofs.CompileSteps
import ViewGen.Proofs.ElementReferences

/-!
# What a compilation does to the arena

A compilation adds elements at the end of the arena and changes no element that was there before.
What it adds refers backwards: the elements inside an element are compiled before it is added.

## Main definitions

* `Arena.Grows` — elements were added, and the arena descends if it did before
* `CompileOptions.InjectsAfter` — raw markup is turned into elements in the same way

## Main statements

* `grows_node` — a compilation lets the arena grow, and refers to elements of the arena it leaves

## Design notes

The one attribute that is set late, the key of a loop's template, is set on an element that was
added after the compilation of the loop began.  This is why `grows_element` says where the new
element stands.
-/

namespace ViewGen

open Compile (Yields)

/-- Elements were added, and the arena descends if it did before. -/
structure Arena.Grows (a b : Arena) : Prop where
  keeps : a.Extends b
  descends : a.Descends → b.Descends

namespace Arena.Grows

theorem refl (a : Arena) : a.Grows a :=
  ⟨Extends.refl a, id⟩

theorem trans {a b c : Arena} (hab : a.Grows b) (hbc : b.Grows c) : a.Grows c :=
  ⟨hab.keeps.trans hbc.keeps, fun h => hbc.descends (hab.descends h)⟩

end Arena.Grows

/-- Raw markup is turned into elements that are added to the arena, and referred to from there. -/
def CompileOptions.InjectsAfter (options : CompileOptions) : Prop :=
  ∀ turn, options.injectMarkup = some turn → ∀ markup a,
    a.Grows (turn markup a).2 ∧
      ∀ id ∈ (turn markup a).1.elementIds, id < (turn markup a).2.size

/-- Inner markup is one element that refers to no other. -/
theorem injectsAfter_of_innerMarkup {options : CompileOptions}
    (h : options.injectMarkup = some innerMarkup) : options.InjectsAfter := by
  intro turn hturn markup a
  obtain rfl := Option.some.inj (h.symm.trans hturn)
  refine ⟨⟨a.extends_push _, fun hdescends => hdescends.push fun inner hinner => ?_⟩, ?_⟩
  · simp [Markup.elementIds, MarkupValue.elementIds, Expr.elementIds, elementIdsOfProperties]
      at hinner
  · intro id hid
    rw [List.mem_singleton.mp hid]
    exact Nat.lt_of_lt_of_eq (Nat.lt_succ_self _) (a.size_push _).symm

variable {options : CompileOptions}

/-! ## Handlers, tests and literals refer to no element -/

theorem elementIds_newValue {state : String} {value : Scalar} {v : Expr}
    (h : options.newValue state value = .ok v) : v.elementIds = [] := by
  cases value with
  | bool b => exact Except.ok.inj h ▸ rfl
  | number x => exact Except.ok.inj h ▸ rfl
  | text s =>
      rw [CompileOptions.newValue] at h
      split at h
      · obtain ⟨current, hcurrent, rfl⟩ := bind_ok_eq_ok_iff.mp h
        rw [Expr.elementIds, CompileOptions.elementIds_reference hcurrent]
      · exact Except.ok.inj h ▸ rfl

theorem elementIds_handlerCall {handler : Handler} {call : Expr}
    (h : options.handlerCall handler = .ok call) : call.elementIds = [] := by
  cases handler with
  | setState state value =>
      obtain ⟨v, hv, rfl⟩ := handlerCall_setState_iff.mp h
      simp [Expr.elementIds, elementIdsOfAll, elementIds_newValue hv]
  | callProp prop arguments =>
      obtain ⟨callee, hcallee, rfl⟩ := handlerCall_callProp_iff.mp h
      rw [Expr.elementIds, CompileOptions.elementIds_reference hcallee,
        Expr.elementIdsOfAll_map_ofScalar, List.append_nil]

theorem elementIds_handlerCalls {hs : List Handler} {calls : List Expr}
    (h : options.handlerCalls hs = .ok calls) : ∀ call ∈ calls, call.elementIds = [] := by
  induction hs generalizing calls with
  | nil =>
      obtain rfl := Except.ok.inj h
      exact fun call hcall => absurd hcall List.not_mem_nil
  | cons handler rest ih =>
      obtain ⟨call, others, hcall, hothers, rfl⟩ := handlerCalls_cons_iff.mp h
      exact List.forall_mem_cons.mpr ⟨elementIds_handlerCall hcall, ih hothers⟩

theorem elementIds_handlers {hs : List Handler} {e : Expr} (h : options.handlers hs = .ok e) :
    e.elementIds = [] := by
  obtain ⟨calls, hcalls, rfl⟩ := handlers_iff.mp h
  have hnone := elementIds_handlerCalls hcalls
  unfold handlerFunction
  split
  · rw [Expr.elementIds]
    exact hnone _ List.mem_cons_self
  · rw [Expr.elementIds, elementIdsOfBlock_eq, List.flatMap_map, List.flatMap_eq_nil_iff]
    exact hnone

/-- Events set attributes that refer to no element. -/
theorem mem_elementIds_events {events : List (String × List Handler)} {m m' : Markup}
    (h : Compile.events options m events = .ok m') {id : ElementId} (hid : id ∈ m'.elementIds) :
    id ∈ m.elementIds := by
  induction events generalizing m with
  | nil =>
      obtain rfl := Except.ok.inj h
      exact hid
  | cons entry rest ih =>
      obtain ⟨event, handlers⟩ := entry
      cases handlers with
      | nil =>
          rw [events_skip] at h
          exact ih h
      | cons handler others =>
          obtain ⟨run, hrun, hrest⟩ := events_cons_iff.mp h
          refine (Markup.mem_elementIds_set (ih hrest)).resolve_right fun hnew => ?_
          rw [MarkupValue.elementIds, elementIds_handlers hrun] at hnew
          exact absurd hnew List.not_mem_nil

theorem elementIds_conditionExpr {subject : Expr} (h : subject.elementIds = []) (c : Condition) :
    (c.expr subject).elementIds = [] := by
  rw [Condition.expr]
  split
  · rw [Expr.elementIds, h, List.nil_append]
    cases c.operand with
    | none => rfl
    | some value => exact Expr.elementIds_ofScalar value
  · split
    · rw [Expr.elementIds, h]
    · exact h

theorem elementIds_testExpr {subject : Expr} (h : subject.elementIds = []) (t : Test) :
    (t.expr subject).elementIds = [] := by
  have hjoined : ∀ (rest : List Condition) (left : Expr), left.elementIds = [] →
      (rest.foldl (fun left c => Expr.logical t.quantifier.connective left (c.expr subject))
        left).elementIds = [] := by
    intro rest
    induction rest with
    | nil => exact fun _ hleft => hleft
    | cons c rest ih =>
        intro left hleft
        refine ih _ ?_
        rw [Expr.elementIds, hleft, elementIds_conditionExpr h c, List.nil_append]
  rw [Test.expr]
  split
  · exact h
  · exact hjoined _ _ (elementIds_conditionExpr h _)

theorem elementIds_scalarValue (value : Scalar) : value.toValue.elementIds = [] := by
  cases value <;> rfl

/-! ## Trees -/

/-- Fixing a tag writes to the import table alone. -/
theorem arena_tag {name tag : String} {dependency : Option Dependency} {w w' : Workspace}
    (h : Yields (Compile.tag options name dependency) w tag w') :
    w'.arena = w.arena ∧ w'.lookup = w.lookup := by
  cases dependency with
  | none =>
      obtain ⟨-, rfl⟩ := yields_tag_none.mp h
      exact ⟨rfl, rfl⟩
  | some d =>
      obtain ⟨bound, hbound, -⟩ := yields_tag_some.mp h
      split at hbound
      · obtain ⟨-, rfl⟩ := Compile.yields_register.mp hbound
        exact ⟨rfl, rfl⟩
      · obtain ⟨-, rfl⟩ := Compile.yields_pure.mp hbound
        exact ⟨rfl, rfl⟩

mutual

/-- **A compilation lets the arena grow**, and what it yields refers to elements that are there. -/
theorem grows_node (hinject : options.InjectsAfter) :
    ∀ (n : Node) {w w' : Workspace} {t : Target}, Yields (compileNode options n) w t w' →
      w.arena.Grows w'.arena ∧
        (w.arena.Descends → ∀ id ∈ t.elementIds, id < w'.arena.size)
  | .static value, w, w', t, h => by
      obtain ⟨rfl, rfl⟩ := yields_node_static.mp h
      exact ⟨.refl _, fun _ id hid => absurd hid List.not_mem_nil⟩
  | .dynamic r, w, w', t, h => by
      obtain ⟨e, he, rfl, rfl⟩ := yields_node_dynamic.mp h
      refine ⟨.refl _, fun _ id hid => ?_⟩
      rw [Target.elementIds, CompileOptions.elementIds_reference he] at hid
      exact absurd hid List.not_mem_nil
  | .raw markup, w, w', t, h => by
      have hraw := yields_node_raw.mp h
      cases hturn : options.injectMarkup with
      | none =>
          rw [Compile.inject, hturn] at hraw
          obtain ⟨rfl, rfl⟩ := Compile.yields_pure.mp hraw
          exact ⟨.refl _, fun _ id hid => absurd hid List.not_mem_nil⟩
      | some turn =>
          obtain ⟨rfl, rfl⟩ := (Compile.yields_inject hturn).mp hraw
          obtain ⟨hgrows, hids⟩ := hinject turn hturn markup w.arena
          exact ⟨hgrows, fun _ => hids⟩
  | .element e, w, w', t, h => by
      obtain ⟨id, hid, rfl⟩ := yields_node_element.mp h
      obtain ⟨hgrows, -, hlt⟩ := grows_element hinject e hid
      exact ⟨hgrows, fun _ inner hinner => List.mem_singleton.mp hinner ▸ hlt⟩
  | .loop ⟨template, source, names⟩, w, w', t, h => by
      obtain ⟨items, id, w₁, key, hitems, hid, hkey, rfl, rfl⟩ := yields_node_loop.mp h
      obtain ⟨hgrows, hle, hlt⟩ := grows_element hinject template hid
      have hkeyIds : (MarkupValue.expr key).elementIds = [] :=
        CompileOptions.elementIds_reference hkey
      refine ⟨⟨hgrows.keeps.set hle _ _, fun hd => (hgrows.descends hd).set _ _ hkeyIds⟩, ?_⟩
      intro _ inner hinner
      simp only [Target.elementIds, Expr.elementIds, elementIdsOfAll,
        CompileOptions.elementIds_source hitems, List.nil_append, List.append_nil] at hinner
      rw [List.mem_singleton.mp hinner, Arena.size_set]
      exact hlt
  | .conditional ⟨node, subject, value, condition⟩, w, w', t, h => by
      obtain ⟨s, inner, hs, hinner, rfl⟩ := yields_node_conditional.mp h
      obtain ⟨hgrows, hids⟩ := grows_node hinject node hinner
      refine ⟨hgrows, fun hd id hid => hids hd id ?_⟩
      rwa [Target.elementIds, Expr.elementIds,
        elementIds_testExpr (CompileOptions.elementIds_reference hs), List.nil_append,
        Target.elementIds_toExpr] at hid
  | .slot ⟨name, none⟩, w, w', t, h => by
      obtain ⟨forwarded, hforwarded, rfl, rfl⟩ := (yields_node_slot_forward (.inr rfl)).mp h
      refine ⟨.refl _, fun _ id hid => ?_⟩
      rw [Target.elementIds, CompileOptions.elementIds_reference hforwarded] at hid
      exact absurd hid List.not_mem_nil
  | .slot ⟨name, some fallback⟩, w, w', t, h => by
      cases hslots : options.slots with
      | forwardChildren =>
          obtain ⟨forwarded, hforwarded, rfl, rfl⟩ :=
            (yields_node_slot_forward (.inl hslots)).mp h
          refine ⟨.refl _, fun _ id hid => ?_⟩
          rw [Target.elementIds, CompileOptions.elementIds_reference hforwarded] at hid
          exact absurd hid List.not_mem_nil
      | fallbackWhenEmpty =>
          obtain ⟨forwarded, inner, hforwarded, hinner, rfl⟩ :=
            (yields_node_slot_fallback hslots).mp h
          obtain ⟨hgrows, hids⟩ := grows_node hinject fallback hinner
          refine ⟨hgrows, fun hd id hid => hids hd id ?_⟩
          rwa [Target.elementIds, Expr.elementIds,
            CompileOptions.elementIds_reference hforwarded, List.nil_append,
            Target.elementIds_toExpr] at hid

/-- An element is added after everything that was there when its compilation began. -/
theorem grows_element (hinject : options.InjectsAfter) :
    ∀ (e : Element Node) {w w' : Workspace} {id : ElementId},
      Yields (compileElement options e) w id w' →
        w.arena.Grows w'.arena ∧ w.arena.size ≤ id ∧ id < w'.arena.size
  | ⟨tag, name, key, selfClosing, attrs, events, style, children, dependency⟩, w, w', id, h => by
      obtain ⟨bound, w₁, m, w₂, m', cs, w₃, hbound, hm, hm', hcs, rfl, rfl⟩ := yields_element.mp h
      obtain ⟨hattrs, hattrIds⟩ := grows_attrs hinject attrs hm
      obtain ⟨hchildren, hchildIds⟩ := grows_children hinject children hcs
      rw [(arena_tag hbound).1] at hattrs hattrIds
      -- The element is pushed last, so everything it refers to is below it.
      have hbefore : w.arena.Grows w₃.arena := hattrs.trans hchildren
      refine ⟨⟨hbefore.keeps.trans (w₃.arena.extends_push _),
        fun hd => (hbefore.descends hd).push fun inner hinner => ?_⟩, hbefore.keeps.size_le, ?_⟩
      · rcases List.mem_append.mp hinner with hattribute | hchild
        · have hm'Ids : inner ∈ m'.elementIds := List.mem_append_left _ hattribute
          refine Nat.lt_of_lt_of_le ?_ hchildren.keeps.size_le
          exact hattrIds hd (fun id hid => absurd hid List.not_mem_nil) inner
            (mem_elementIds_events hm' hm'Ids)
        · obtain ⟨child, hchild, hinner⟩ := List.mem_flatMap.mp hchild
          exact hchildIds (hattrs.descends hd) child hchild inner hinner
      · exact Nat.lt_of_lt_of_eq (Nat.lt_succ_self _) (w₃.arena.size_push _).symm

/-- Attributes refer to elements that are there once they are compiled. -/
theorem grows_attrs (hinject : options.InjectsAfter) :
    ∀ (attrs : List (String × Attribute Node)) {m m' : Markup} {w w' : Workspace},
      Yields (compileAttrs options m attrs) w m' w' →
        w.arena.Grows w'.arena ∧
          (w.arena.Descends → (∀ id ∈ m.elementIds, id < w.arena.size) →
            ∀ id ∈ m'.elementIds, id < w'.arena.size)
  | [], m, m', w, w', h => by
      obtain ⟨rfl, rfl⟩ := yields_attrs_nil.mp h
      exact ⟨.refl _, fun _ hm => hm⟩
  | (name, .static value) :: rest, m, m', w, w', h => by
      obtain ⟨hgrows, hids⟩ := grows_attrs hinject rest (yields_attrs_static.mp h)
      refine ⟨hgrows, fun hd hm => hids hd fun id hid => ?_⟩
      rcases Markup.mem_elementIds_set hid with hold | hnew
      · exact hm id hold
      · rw [elementIds_scalarValue] at hnew
        exact absurd hnew List.not_mem_nil
  | (name, .dynamic r) :: rest, m, m', w, w', h => by
      obtain ⟨e, he, hrest⟩ := yields_attrs_dynamic.mp h
      obtain ⟨hgrows, hids⟩ := grows_attrs hinject rest hrest
      refine ⟨hgrows, fun hd hm => hids hd fun id hid => ?_⟩
      rcases Markup.mem_elementIds_set hid with hold | hnew
      · exact hm id hold
      · rw [MarkupValue.elementIds, CompileOptions.elementIds_reference he] at hnew
        exact absurd hnew List.not_mem_nil
  | (name, .imported id) :: rest, m, m', w, w', h => by
      obtain ⟨hgrows, hids⟩ := grows_attrs hinject rest (yields_attrs_imported.mp h)
      refine ⟨hgrows, fun hd hm => hids hd fun inner hinner => ?_⟩
      rcases Markup.mem_elementIds_set hinner with hold | hnew
      · exact hm inner hold
      · exact absurd hnew List.not_mem_nil
  | (name, .slot content) :: rest, m, m', w, w', h => by
      obtain ⟨t, w₁, ht, hrest⟩ := yields_attrs_slot.mp h
      obtain ⟨hcontent, hcontentIds⟩ := grows_node hinject content ht
      obtain ⟨hgrows, hids⟩ := grows_attrs hinject rest hrest
      refine ⟨hcontent.trans hgrows, fun hd hm => hids (hcontent.descends hd) fun id hid => ?_⟩
      rcases Markup.mem_elementIds_set hid with hold | hnew
      · exact Nat.lt_of_lt_of_le (hm id hold) hcontent.keeps.size_le
      · rw [Target.elementIds_toValue] at hnew
        exact hcontentIds hd id hnew

/-- Children refer to elements that are there once they are compiled. -/
theorem grows_children (hinject : options.InjectsAfter) :
    ∀ (children : List Node) {cs : List MarkupChild} {w w' : Workspace},
      Yields (compileChildren options children) w cs w' →
        w.arena.Grows w'.arena ∧
          (w.arena.Descends → ∀ child ∈ cs, ∀ id ∈ child.elementIds, id < w'.arena.size)
  | [], cs, w, w', h => by
      obtain ⟨rfl, rfl⟩ := yields_children_nil.mp h
      exact ⟨.refl _, fun _ child hchild => absurd hchild List.not_mem_nil⟩
  | n :: rest, cs, w, w', h => by
      obtain ⟨t, w₁, others, ht, hothers, rfl⟩ := yields_children_cons.mp h
      obtain ⟨hfirst, hfirstIds⟩ := grows_node hinject n ht
      obtain ⟨hrest, hrestIds⟩ := grows_children hinject rest hothers
      refine ⟨hfirst.trans hrest, fun hd => List.forall_mem_cons.mpr
        ⟨fun id hid => ?_, hrestIds (hfirst.descends hd)⟩⟩
      rw [Target.elementIds_toChild] at hid
      exact Nat.lt_of_lt_of_le (hfirstIds hd id hid) hrest.keeps.size_le

end

end ViewGen
