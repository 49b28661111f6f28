import Mathlib.Data.List.Forall2
import ViewGen.Proofs.CompileArena
import ViewGen.Proofs.Dictionaries
import ViewGen.Proofs.Resolution

/-!
# What a resolved tree compiles to

The output of a compilation has the shape of the tree: a loop is an arrow around an element of the
arena, a reference is an expression, a handler is a call.  What can be said of the references and
handlers depends on the question; that it carries over to the whole tree does not.  So the relations
here take two predicates, one for references and one for handlers, and hold whenever these hold of
what resolution accepts.

## Main definitions

* `NodeCompiled`, `ElementCompiled`, … — a piece of output stands for a piece of the tree, and the
  predicates hold of the references and handlers in it
* `Component.Supports` — the predicates hold of what resolution accepts

## Main statements

* `compiled_node` — what a resolved tree compiles to stands for the tree

## Design notes

Both predicates are told the loops around their place in the tree and the parameters of the arrows
around it in the output.  The parameters are read off the output, so that the two agree is a result
and not part of the relations.
-/

namespace ViewGen

open Compile (Yields)

section Relations

variable (options : CompileOptions) (arena : Arena)
  (R : List LoopNames → List String → Reference → Expr → Prop)
  (H : List LoopNames → List String → Handler → Expr → Prop)

/-- What a loop runs over. -/
inductive SourceCompiled (loops : List LoopNames) (params : List String) : LoopSource → Expr → Prop
  | reference {r e} : R loops params r e → SourceCompiled loops params (.reference r) e
  | inline (items : List Scalar) :
      SourceCompiled loops params (.inline items) (.array (items.map Expr.ofScalar))

/-- The attributes that are set for events. -/
inductive EventsCompiled (loops : List LoopNames) (params : List String) :
    List (String × List Handler) → List (String × MarkupValue) → Prop
  | nil : EventsCompiled loops params [] []
  | skip {event rest listeners} : EventsCompiled loops params rest listeners →
      EventsCompiled loops params ((event, []) :: rest) listeners
  | cons {event handlers calls rest listeners} : List.Forall₂ (H loops params) handlers calls →
      EventsCompiled loops params rest listeners →
      EventsCompiled loops params ((event, handlers) :: rest)
        ((eventAttribute event, .expr (handlerFunction calls)) :: listeners)

mutual

/-- What a node compiles to inside loops of the tree and arrows of the output. -/
inductive NodeCompiled : List LoopNames → List String → Node → Target → Prop
  | static {loops params value} : NodeCompiled loops params (.static value) (.text value.display)
  | raw {loops params markup t} : NodeCompiled loops params (.raw markup) t
  | dynamic {loops params r e} : R loops params r e → NodeCompiled loops params (.dynamic r) (.expr e)
  | element {loops params e id m} : arena.get? id = some m → ElementCompiled loops params e [] m →
      NodeCompiled loops params (.element e) (.element id)
  | loop {loops params template source names items bound id m key} :
      SourceCompiled R loops params source items →
      R (names :: loops) (bound ++ params) ⟨names.keyPath, .loop⟩ key →
      arena.get? id = some m →
      ElementCompiled (names :: loops) (bound ++ params) template [("key", .expr key)] m →
      NodeCompiled loops params (.loop ⟨template, source, names⟩)
        (.expr (.call (.member items "map") [.arrow bound (.element id)]))
  | conditional {loops params node subject value condition e inner} :
      R loops params subject e → NodeCompiled loops params node inner →
      NodeCompiled loops params (.conditional ⟨node, subject, value, condition⟩)
        (.expr (.logical .and ((Conditional.test { node, subject, value, condition }).expr e)
          inner.toExpr))
  | slot {loops params name fallback e} :
      R loops params ⟨name.getD options.childrenProp, .prop⟩ e →
      NodeCompiled loops params (.slot ⟨name, fallback⟩) (.expr e)
  | slotFallback {loops params name fallback e inner} :
      R loops params ⟨name.getD options.childrenProp, .prop⟩ e →
      NodeCompiled loops params fallback inner →
      NodeCompiled loops params (.slot ⟨name, some fallback⟩)
        (.expr (.logical .or e inner.toExpr))

/-- What an element compiles to; `late` are the attributes that are set after its own. -/
inductive ElementCompiled :
    List LoopNames → List String → Element Node → List (String × MarkupValue) → Markup → Prop
  | intro {loops params e written listeners late m} : AttrsCompiled loops params e.attrs written →
      EventsCompiled H loops params e.events listeners →
      ChildrenCompiled loops params e.children m.children →
      m.attributes = Dict.ofList (written ++ listeners ++ late) →
      ElementCompiled loops params e late m

/-- The attributes that are set for the attributes of an element. -/
inductive AttrsCompiled : List LoopNames → List String → List (String × Attribute Node) →
    List (String × MarkupValue) → Prop
  | nil {loops params} : AttrsCompiled loops params [] []
  | static {loops params name value rest written} : AttrsCompiled loops params rest written →
      AttrsCompiled loops params ((name, .static value) :: rest) ((name, value.toValue) :: written)
  | dynamic {loops params name r e rest written} : R loops params r e →
      AttrsCompiled loops params rest written →
      AttrsCompiled loops params ((name, .dynamic r) :: rest) ((name, .expr e) :: written)
  | imported {loops params name id rest written} : AttrsCompiled loops params rest written →
      AttrsCompiled loops params ((name, .imported id) :: rest)
        ((name, .expr (.ident id)) :: written)
  | slot {loops params name content t rest written} : NodeCompiled loops params content t →
      AttrsCompiled loops params rest written →
      AttrsCompiled loops params ((name, .slot content) :: rest) ((name, t.toValue) :: written)

/-- What children compile to. -/
inductive ChildrenCompiled : List LoopNames → List String → List Node → List MarkupChild → Prop
  | nil {loops params} : ChildrenCompiled loops params [] []
  | cons {loops params n t rest children} : NodeCompiled loops params n t →
      ChildrenCompiled loops params rest children →
      ChildrenCompiled loops params (n :: rest) (t.toChild :: children)

end

/-- The predicates hold of what resolution accepts inside some loops, where the parameters are the
names that the loops bind.  A prop that a slot forwards is not looked at by resolution. -/
structure Component.Supports (c : Component) : Prop where
  reference : ∀ {loops : List LoopNames} {r e}, c.declares (loops.flatMap LoopNames.bound) r = true →
    options.reference r = .ok e → R loops (loops.flatMap LoopNames.bound) r e
  prop : ∀ {loops : List LoopNames} {id e}, options.reference ⟨id, .prop⟩ = .ok e →
    R loops (loops.flatMap LoopNames.bound) ⟨id, .prop⟩ e
  handler : ∀ {loops : List LoopNames} {h call}, c.permits h = true →
    options.handlerCall h = .ok call → H loops (loops.flatMap LoopNames.bound) h call

end Relations

/-! ## Events -/

variable {options : CompileOptions} {R : List LoopNames → List String → Reference → Expr → Prop}
  {H : List LoopNames → List String → Handler → Expr → Prop} {c : Component}

theorem Component.Supports.handlers (hc : c.Supports options R H) {loops : List LoopNames}
    {handlers : List Handler} {calls : List Expr} (hpermits : ∀ h ∈ handlers, c.permits h = true)
    (hcalls : options.handlerCalls handlers = .ok calls) :
    List.Forall₂ (H loops (loops.flatMap LoopNames.bound)) handlers calls := by
  induction handlers generalizing calls with
  | nil => exact Except.ok.inj hcalls ▸ .nil
  | cons h rest ih =>
      obtain ⟨call, others, hcall, hothers, rfl⟩ := handlerCalls_cons_iff.mp hcalls
      obtain ⟨hfirst, hrest⟩ := List.forall_mem_cons.mp hpermits
      exact .cons (hc.handler hfirst hcall) (ih hrest hothers)

/-- Events set attributes one after the other. -/
theorem compiled_events (hc : c.Supports options R H) {loops : List LoopNames}
    {events : List (String × List Handler)} {m m' : Markup}
    (hpermits : ∀ entry ∈ events, ∀ h ∈ entry.2, c.permits h = true)
    (h : Compile.events options m events = .ok m') :
    ∃ listeners, m'.attributes = m.attributes.insertAll listeners ∧
      EventsCompiled H loops (loops.flatMap LoopNames.bound) events listeners := by
  induction events generalizing m with
  | nil =>
      obtain rfl := Except.ok.inj h
      exact ⟨[], rfl, .nil⟩
  | cons entry rest ih =>
      obtain ⟨event, handlers⟩ := entry
      obtain ⟨hfirst, hrest⟩ := List.forall_mem_cons.mp hpermits
      cases handlers with
      | nil =>
          rw [events_skip] at h
          obtain ⟨listeners, hattributes, hcompiled⟩ := ih hrest h
          exact ⟨listeners, hattributes, .skip hcompiled⟩
      | cons handler others =>
          obtain ⟨run, hrun, h⟩ := events_cons_iff.mp h
          obtain ⟨calls, hcalls, rfl⟩ := handlers_iff.mp hrun
          obtain ⟨listeners, hattributes, hcompiled⟩ := ih hrest h
          exact ⟨(eventAttribute event, .expr (handlerFunction calls)) :: listeners, hattributes,
            .cons (hc.handlers hfirst hcalls) hcompiled⟩

/-! ## Trees -/

mutual

/-- **What a resolved tree compiles to stands for the tree**, in every arena that has the elements of
the compilation in their places. -/
theorem compiled_node (hinject : options.InjectsAfter) (hc : c.Supports options R H) :
    ∀ (n : Node) {loops : List LoopNames} {location : Location} {w w' : Workspace} {t : Target},
      n.resolve c (loops.flatMap LoopNames.bound) location = .ok () →
      Yields (compileNode options n) w t w' → ∀ {arena : Arena}, w'.arena.Extends arena →
        NodeCompiled options arena R H loops (loops.flatMap LoopNames.bound) n t
  | .static value, loops, location, w, w', t, hn, h, arena, ha => by
      obtain ⟨rfl, rfl⟩ := yields_node_static.mp h
      exact .static
  | .dynamic r, loops, location, w, w', t, hn, h, arena, ha => by
      obtain ⟨e, he, rfl, rfl⟩ := yields_node_dynamic.mp h
      exact .dynamic (hc.reference (resolve_dynamic_iff.mp hn) he)
  | .raw markup, loops, location, w, w', t, hn, h, arena, ha => .raw
  | .element e, loops, location, w, w', t, hn, h, arena, ha => by
      obtain ⟨id, hid, rfl⟩ := yields_node_element.mp h
      obtain ⟨below, m, hpush, rfl, hcompiled⟩ := compiled_element hinject hc e hn hid
      rw [hpush] at ha
      exact .element (ha (below.get?_push_self m)) (hcompiled ((below.extends_push m).trans ha) [])
  | .loop ⟨template, source, names⟩, loops, location, w, w', t, hn, h, arena, ha => by
      obtain ⟨hsource, hkeyDeclared, htemplate⟩ := resolve_loop_iff.mp hn
      obtain ⟨items, id, w₁, key, hitems, hid, hkey, rfl, rfl⟩ := yields_node_loop.mp h
      -- Inside the loop its names come before those of the loops around it, as in the output.
      have hinner : names.bound ++ loops.flatMap LoopNames.bound =
          (names :: loops).flatMap LoopNames.bound := rfl
      rw [hinner] at hkeyDeclared htemplate
      obtain ⟨below, m, hpush, rfl, hcompiled⟩ := compiled_element hinject hc template htemplate hid
      have hitemsCompiled :
          SourceCompiled R loops (loops.flatMap LoopNames.bound) source items := by
        cases source with
        | reference r => exact .reference (hc.reference (hsource r rfl) hitems)
        | inline values => exact Except.ok.inj hitems ▸ .inline values
      -- The key is set on the last element, so all elements below it are still there.
      have hlast : ((below.push m).set below.size "key" (.expr key)).Extends arena := hpush ▸ ha
      have hbelow : below.Extends arena :=
        ((below.extends_push m).set (Nat.le_refl _) "key" (.expr key)).trans hlast
      exact .loop hitemsCompiled (hc.reference hkeyDeclared hkey)
        (hlast (below.get?_set_push_self m _ _)) (hcompiled hbelow [("key", .expr key)])
  | .conditional ⟨node, subject, value, condition⟩, loops, location, w, w', t, hn, h, arena, ha => by
      obtain ⟨hsubject, hnode⟩ := resolve_conditional_iff.mp hn
      obtain ⟨e, inner, he, hinner, rfl⟩ := yields_node_conditional.mp h
      exact .conditional (hc.reference hsubject he) (compiled_node hinject hc node hnode hinner ha)
  | .slot ⟨name, none⟩, loops, location, w, w', t, hn, h, arena, ha => by
      obtain ⟨forwarded, hforwarded, rfl, rfl⟩ := (yields_node_slot_forward (.inr rfl)).mp h
      exact .slot (hc.prop hforwarded)
  | .slot ⟨name, some fallback⟩, loops, location, w, w', t, hn, h, arena, ha => by
      cases hslots : options.slots with
      | forwardChildren =>
          obtain ⟨forwarded, hforwarded, rfl, rfl⟩ :=
            (yields_node_slot_forward (.inl hslots)).mp h
          exact .slot (hc.prop hforwarded)
      | fallbackWhenEmpty =>
          obtain ⟨forwarded, inner, hforwarded, hinner, rfl⟩ :=
            (yields_node_slot_fallback hslots).mp h
          exact .slotFallback (hc.prop hforwarded)
            (compiled_node hinject hc fallback hn hinner ha)

/-- An element is the last one in the arena when it is compiled, and stands for the element of the
tree with all attributes that are set on it later. -/
theorem compiled_element (hinject : options.InjectsAfter) (hc : c.Supports options R H) :
    ∀ (e : Element Node) {loops : List LoopNames} {location : Location} {w w' : Workspace}
      {id : ElementId}, resolveElement c (loops.flatMap LoopNames.bound) e location = .ok () →
      Yields (compileElement options e) w id w' →
        ∃ (below : Arena) (m : Markup), w'.arena = below.push m ∧ id = below.size ∧
          ∀ {arena : Arena}, below.Extends arena → ∀ late,
            ElementCompiled options arena R H loops (loops.flatMap LoopNames.bound) e late
              { m with attributes := m.attributes.insertAll late }
  | ⟨tag, name, key, selfClosing, attrs, events, style, children, dependency⟩, loops, location, w,
      w', id, he, h => by
      obtain ⟨hattrs, -, hevents, hchildren⟩ := resolveElement_iff.mp he
      obtain ⟨bound, w₁, m, w₂, m', cs, w₃, hbound, hm, hm', hcs, rfl, rfl⟩ := yields_element.mp h
      obtain ⟨written, hwritten, hattrsCompiled⟩ := compiled_attrs hinject hc attrs hattrs hm
      obtain ⟨listeners, hlisteners, heventsCompiled⟩ := compiled_events hc hevents hm'
      refine ⟨w₃.arena, { m' with children := cs }, rfl, rfl, fun ha late => ?_⟩
      -- What the attributes refer to is still in its place after the children are compiled.
      have hkeeps : w₂.arena.Extends w₃.arena := (grows_children hinject children hcs).1.keeps
      refine .intro (hattrsCompiled (hkeeps.trans ha)) heventsCompiled
        (compiled_children hinject hc children hchildren hcs ha) ?_
      show m'.attributes.insertAll late = _
      rw [Dict.ofList_eq_insertAll, Dict.insertAll_append, Dict.insertAll_append, hlisteners,
        hwritten]

/-- Attributes are set one after the other. -/
theorem compiled_attrs (hinject : options.InjectsAfter) (hc : c.Supports options R H) :
    ∀ (attrs : List (String × Attribute Node)) {loops : List LoopNames} {location : Location}
      {w w' : Workspace} {m m' : Markup},
      resolveAttrs c (loops.flatMap LoopNames.bound) location attrs = .ok () →
      Yields (compileAttrs options m attrs) w m' w' →
        ∃ written, m'.attributes = m.attributes.insertAll written ∧
          ∀ {arena : Arena}, w'.arena.Extends arena →
            AttrsCompiled options arena R H loops (loops.flatMap LoopNames.bound) attrs written
  | [], loops, location, w, w', m, m', hattrs, h => by
      obtain ⟨rfl, rfl⟩ := yields_attrs_nil.mp h
      exact ⟨[], rfl, fun _ => .nil⟩
  | (name, .static value) :: rest, loops, location, w, w', m, m', hattrs, h => by
      obtain ⟨written, hwritten, hcompiled⟩ :=
        compiled_attrs hinject hc rest hattrs (yields_attrs_static.mp h)
      exact ⟨(name, value.toValue) :: written, hwritten, fun ha => .static (hcompiled ha)⟩
  | (name, .dynamic r) :: rest, loops, location, w, w', m, m', hattrs, h => by
      obtain ⟨hr, hrest⟩ := resolveAttrs_dynamic_iff.mp hattrs
      obtain ⟨e, he, h⟩ := yields_attrs_dynamic.mp h
      obtain ⟨written, hwritten, hcompiled⟩ := compiled_attrs hinject hc rest hrest h
      exact ⟨(name, .expr e) :: written, hwritten,
        fun ha => .dynamic (hc.reference hr he) (hcompiled ha)⟩
  | (name, .imported id) :: rest, loops, location, w, w', m, m', hattrs, h => by
      obtain ⟨written, hwritten, hcompiled⟩ :=
        compiled_attrs hinject hc rest hattrs (yields_attrs_imported.mp h)
      exact ⟨(name, .expr (.ident id)) :: written, hwritten, fun ha => .imported (hcompiled ha)⟩
  | (name, .slot content) :: rest, loops, location, w, w', m, m', hattrs, h => by
      obtain ⟨hcontent, hrest⟩ := resolveAttrs_slot_iff.mp hattrs
      obtain ⟨t, w₁, ht, h⟩ := yields_attrs_slot.mp h
      obtain ⟨written, hwritten, hcompiled⟩ := compiled_attrs hinject hc rest hrest h
      have hkeeps : w₁.arena.Extends w'.arena := (grows_attrs hinject rest h).1.keeps
      exact ⟨(name, t.toValue) :: written, hwritten, fun ha =>
        .slot (compiled_node hinject hc content hcontent ht (hkeeps.trans ha)) (hcompiled ha)⟩

/-- Children are compiled one after the other. -/
theorem compiled_children (hinject : options.InjectsAfter) (hc : c.Supports options R H) :
    ∀ (children : List Node) {loops : List LoopNames} {location : Location} {position : Nat}
      {w w' : Workspace} {cs : List MarkupChild},
      resolveNodes c (loops.flatMap LoopNames.bound) location position children = .ok () →
      Yields (compileChildren options children) w cs w' →
        ∀ {arena : Arena}, w'.arena.Extends arena →
          ChildrenCompiled options arena R H loops (loops.flatMap LoopNames.bound) children cs
  | [], loops, location, position, w, w', cs, hchildren, h, arena, ha => by
      obtain ⟨rfl, rfl⟩ := yields_children_nil.mp h
      exact .nil
  | n :: rest, loops, location, position, w, w', cs, hchildren, h, arena, ha => by
      obtain ⟨hn, hrest⟩ := resolveNodes_cons_iff.mp hchildren
      obtain ⟨t, w₁, others, ht, hothers, rfl⟩ := yields_children_cons.mp h
      have hkeeps : w₁.arena.Extends w'.arena := (grows_children hinject rest hothers).1.keeps
      exact .cons (compiled_node hinject hc n hn ht (hkeeps.trans ha))
        (compiled_children hinject hc rest hrest hothers ha)

end

end ViewGen
