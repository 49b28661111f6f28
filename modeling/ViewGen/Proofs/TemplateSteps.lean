import ViewGen.Draft.VueTemplate
import ViewGen.Proofs.CompileSteps

/-!
# What writing a template does, constructor by constructor

The counterpart of the steps of a compilation for templates.  `Writing.Yields x t a t'` says that
`x`, started on `t`, ends with the value `a` and leaves `t'`, and there is one equivalence for each
form of node, attribute list and child list.

## Main statements

* `Writing.yields_bind_iff` — a sequence yields what its second part yields from where the first
  part ended
* `Template.yields_loop`, `Template.yields_element`, `Template.yields_attributes_slot`, … — the
  equivalences
-/

namespace ViewGen

namespace Writing

variable {α β : Type}

/-- Started on `t`, the computation ends with the value `a` and leaves `t'`. -/
def Yields (x : Writing α) (t : Template) (a : α) (t' : Template) : Prop :=
  x.run t = .ok (a, t')

@[simp] theorem yields_pure {a b : α} {t t' : Template} :
    Yields (pure a) t b t' ↔ b = a ∧ t' = t := by
  constructor
  · intro h
    obtain ⟨hvalue, htemplate⟩ := Prod.mk.inj (Except.ok.inj h)
    exact ⟨hvalue.symm, htemplate.symm⟩
  · rintro ⟨rfl, rfl⟩
    rfl

/-- A sequence yields what its second part yields from where the first part ended. -/
theorem yields_bind_iff {x : Writing α} {f : α → Writing β} {t t'' : Template} {b : β} :
    Yields (x >>= f) t b t'' ↔ ∃ a t', Yields x t a t' ∧ Yields (f a) t' b t'' := by
  rw [Yields, StateT.run_bind, bind_eq_ok_iff]
  constructor
  · rintro ⟨⟨a, t'⟩, hx, hf⟩
    exact ⟨a, t', hx, hf⟩
  · rintro ⟨a, t', hx, hf⟩
    exact ⟨(a, t'), hx, hf⟩

/-- A step that only computes leaves the template as it is. -/
@[simp] theorem yields_lift {x : Except GenError α} {t t' : Template} {a : α} :
    Yields (liftM x) t a t' ↔ x = .ok a ∧ t' = t := by
  change (x >>= fun a => .ok (a, t)) = .ok (a, t') ↔ _
  rw [bind_eq_ok_iff]
  constructor
  · rintro ⟨b, hb, heq⟩
    obtain ⟨rfl, rfl⟩ := Prod.mk.inj (Except.ok.inj heq)
    exact ⟨hb, rfl⟩
  · rintro ⟨ha, rfl⟩
    exact ⟨a, ha, rfl⟩

end Writing

namespace Template

open Writing (Yields yields_bind_iff yields_lift yields_pure)

-- All proofs below rewrite with the equations of these functions; they are generated here, once.
attribute [local simp] node element attributes nodes

variable {print : Expr → String} {t t' : Template} {level : Nat} {text : String}

/-! ## Tags -/

theorem yields_tag_none {name bound : String} :
    Yields (tag name none) t bound t' ↔ bound = name ∧ t' = t := by
  rw [tag]
  exact yields_pure

/-- The template after an element with a dependency was given its tag: the tag is listed once. -/
def withTag (t : Template) (name : String) (d : Dependency) : Template where
  imports := (t.imports.register name d).2
  components :=
    if t.components.contains (t.imports.register name d).1 then t.components
    else t.components ++ [(t.imports.register name d).1]

theorem yields_tag_some {name bound : String} {d : Dependency} :
    Yields (tag name (some d)) t bound t' ↔
      bound = (t.imports.register name d).1 ∧ t' = t.withTag name d := by
  have hrun : (tag name (some d)).run t =
      .ok ((t.imports.register name d).1, t.withTag name d) := rfl
  rw [Yields, hrun, Except.ok.injEq, Prod.mk.injEq, eq_comm, eq_comm (a := t.withTag name d)]

/-! ## Nodes -/

theorem yields_static {value : Scalar} :
    Yields (node print (.static value) level) t text t' ↔
      text = literalText value.display ∧ t' = t := by
  rw [node]
  exact yields_pure

theorem yields_dynamic {r : Reference} :
    Yields (node print (.dynamic r) level) t text t' ↔
      ∃ e, options.reference r = .ok e ∧ text = interpolation print e ∧ t' = t := by
  rw [node, yields_bind_iff]
  constructor
  · rintro ⟨e, t₁, hlift, htext⟩
    obtain ⟨he, rfl⟩ := yields_lift.mp hlift
    exact ⟨e, he, yields_pure.mp htext⟩
  · rintro ⟨e, he, htext⟩
    exact ⟨e, t, yields_lift.mpr ⟨he, rfl⟩, yields_pure.mpr htext⟩

theorem yields_raw {markup : String} :
    Yields (node print (.raw markup) level) t text t' ↔ text = markup ∧ t' = t := by
  rw [node]
  exact yields_pure

theorem yields_node_element {e : Element Node} :
    Yields (node print (.element e) level) t text t' ↔
      Yields (element print e [] level) t text t' := by
  rw [node]

theorem yields_loop {template : Element Node} {source : LoopSource} {names : LoopNames} :
    Yields (node print (.loop ⟨template, source, names⟩) level) t text t' ↔
      ∃ directives, loopDirectives print source names = .ok directives ∧
        Yields (element print template directives level) t text t' := by
  rw [node, yields_bind_iff]
  constructor
  · rintro ⟨directives, t₁, hlift, htext⟩
    obtain ⟨hdirectives, rfl⟩ := yields_lift.mp hlift
    exact ⟨directives, hdirectives, htext⟩
  · rintro ⟨directives, hdirectives, htext⟩
    exact ⟨directives, t, yields_lift.mpr ⟨hdirectives, rfl⟩, htext⟩

/-- A conditional on an element puts its directive on the element. -/
theorem yields_conditional_element {e : Element Node} {subject : Reference}
    {value : Option Scalar} {condition : Option Test} :
    Yields (node print (.conditional ⟨.element e, subject, value, condition⟩) level) t text t' ↔
      ∃ directive, conditionDirective print subject
          (Conditional.test { node := Node.element e, subject, value, condition }) =
            .ok directive ∧
        Yields (element print e [directive] level) t text t' := by
  rw [node, yields_bind_iff]
  constructor
  · rintro ⟨directive, t₁, hlift, htext⟩
    obtain ⟨hdirective, rfl⟩ := yields_lift.mp hlift
    exact ⟨directive, hdirective, htext⟩
  · rintro ⟨directive, hdirective, htext⟩
    exact ⟨directive, t, yields_lift.mpr ⟨hdirective, rfl⟩, htext⟩

/-- A conditional on anything else is wrapped. -/
theorem yields_conditional {inner : Node} (hinner : ∀ e, inner ≠ .element e)
    {subject : Reference} {value : Option Scalar} {condition : Option Test} :
    Yields (node print (.conditional ⟨inner, subject, value, condition⟩) level) t text t' ↔
      ∃ directive content, conditionDirective print subject
          (Conditional.test { node := inner, subject, value, condition }) = .ok directive ∧
        Yields (node print inner (level + 1)) t content t' ∧
        text = "<template " ++ directive ++ ">" ++ content ++ "</template>" := by
  rw [node]
  · simp only [yields_bind_iff, yields_lift, yields_pure]
    constructor
    · rintro ⟨directive, _, ⟨hdirective, rfl⟩, content, _, hcontent, rfl, rfl⟩
      exact ⟨directive, content, hdirective, hcontent, rfl⟩
    · rintro ⟨directive, content, hdirective, hcontent, rfl⟩
      exact ⟨directive, t, ⟨hdirective, rfl⟩, content, t', hcontent, rfl, rfl⟩
  · exact hinner

theorem yields_slot_some {name : Option String} {fallback : Node} :
    Yields (node print (.slot ⟨name, some fallback⟩) level) t text t' ↔
      ∃ content, Yields (node print fallback (level + 1)) t content t' ∧
        text = slotOpening name ++ content ++ "</slot>" := by
  rw [node]
  simp only [yields_bind_iff, yields_pure]
  constructor
  · rintro ⟨content, _, hcontent, rfl, rfl⟩
    exact ⟨content, hcontent, rfl⟩
  · rintro ⟨content, hcontent, rfl⟩
    exact ⟨content, t', hcontent, rfl, rfl⟩

theorem yields_slot_none {name : Option String} :
    Yields (node print (.slot ⟨name, none⟩) level) t text t' ↔
      text = slotOpening name ++ "</slot>" ∧ t' = t := by
  rw [node]
  exact yields_pure

/-! ## Elements, attributes and children -/

/-- An element fixes its tag, then writes its attributes, its style, its events and its children,
in this order. -/
theorem yields_element {name : String} {label : Option String} {key : String} {selfClosing : Bool}
    {attrs : List (String × Attribute Node)} {handlers : List (String × List Handler)}
    {rules : List (String × StyleValue)} {children : List Node} {dependency : Option Dependency}
    {directives : List String} :
    Yields (element print
        ⟨name, label, key, selfClosing, attrs, handlers, rules, children, dependency⟩
        directives level) t text t' ↔
      ∃ bound t₁ written slots t₂ styles listeners texts,
        Yields (tag name dependency) t bound t₁ ∧
        Yields (attributes print level attrs) t₁ (written, slots) t₂ ∧
        style print rules = .ok styles ∧ events print handlers = .ok listeners ∧
        Yields (nodes print children (level + 1)) t₂ texts t' ∧
        text = elementText level bound (directives ++ written ++ styles ++ listeners) selfClosing
          (children.any isInline) (slots ++ texts) := by
  rw [element]
  simp only [yields_bind_iff, yields_lift, yields_pure]
  constructor
  · rintro ⟨bound, t₁, hbound, ⟨written, slots⟩, t₂, hwritten, styles, _, ⟨hstyles, rfl⟩,
      listeners, _, ⟨hlisteners, rfl⟩, texts, _, htexts, rfl, rfl⟩
    exact ⟨bound, t₁, written, slots, _, styles, listeners, texts, hbound, hwritten, hstyles,
      hlisteners, htexts, rfl⟩
  · rintro ⟨bound, t₁, written, slots, t₂, styles, listeners, texts, hbound, hwritten, hstyles,
      hlisteners, htexts, rfl⟩
    exact ⟨bound, t₁, hbound, (written, slots), t₂, hwritten, styles, t₂, ⟨hstyles, rfl⟩,
      listeners, t₂, ⟨hlisteners, rfl⟩, texts, t', htexts, rfl, rfl⟩

/-- The text of an attribute with a literal value. -/
def literalAttribute (print : Expr → String) (name : String) : Scalar → String
  | .text s => name ++ "=" ++ quoted s
  | value => bound print name (Expr.ofScalar value)

variable {rest : List (String × Attribute Node)} {written slots : List String} {name : String}

theorem yields_attributes_nil :
    Yields (attributes print level []) t (written, slots) t' ↔
      written = [] ∧ slots = [] ∧ t' = t := by
  rw [attributes, yields_pure, Prod.mk.injEq, and_assoc]

/-- What a first attribute adds to the attributes that are written after it. -/
private theorem yields_attributes_put {first : String} :
    Yields (do
        let (written, slots) ← attributes print level rest
        return (first :: written, slots)) t (written, slots) t' ↔
      ∃ others, Yields (attributes print level rest) t (others, slots) t' ∧
        written = first :: others := by
  simp only [yields_bind_iff, yields_pure]
  constructor
  · rintro ⟨⟨others, slots'⟩, _, hothers, heq, rfl⟩
    obtain ⟨rfl, rfl⟩ := Prod.mk.inj heq
    exact ⟨others, hothers, rfl⟩
  · rintro ⟨others, hothers, rfl⟩
    exact ⟨(others, slots), t', hothers, rfl, rfl⟩

theorem yields_attributes_static {value : Scalar} :
    Yields (attributes print level ((name, .static value) :: rest)) t (written, slots) t' ↔
      ∃ others, Yields (attributes print level rest) t (others, slots) t' ∧
        written = literalAttribute print name value :: others := by
  cases value <;> (simp only [attributes]; exact yields_attributes_put)

theorem yields_attributes_dynamic {r : Reference} :
    Yields (attributes print level ((name, .dynamic r) :: rest)) t (written, slots) t' ↔
      ∃ e others, options.reference r = .ok e ∧
        Yields (attributes print level rest) t (others, slots) t' ∧
        written = bound print name e :: others := by
  rw [attributes, yields_bind_iff]
  constructor
  · rintro ⟨e, t₁, hlift, hput⟩
    obtain ⟨he, rfl⟩ := yields_lift.mp hlift
    obtain ⟨others, hothers, hwritten⟩ := yields_attributes_put.mp hput
    exact ⟨e, others, he, hothers, hwritten⟩
  · rintro ⟨e, others, he, hothers, hwritten⟩
    exact ⟨e, t, yields_lift.mpr ⟨he, rfl⟩, yields_attributes_put.mpr ⟨others, hothers, hwritten⟩⟩

theorem yields_attributes_imported {id : String} :
    Yields (attributes print level ((name, .imported id) :: rest)) t (written, slots) t' ↔
      ∃ others, Yields (attributes print level rest) t (others, slots) t' ∧
        written = bound print name (.ident id) :: others := by
  rw [attributes]
  exact yields_attributes_put

/-- A node passed as an attribute is written apart from the attributes. -/
theorem yields_attributes_slot {content : Node} :
    Yields (attributes print level ((name, .slot content) :: rest)) t (written, slots) t' ↔
      ∃ inner t₁ others, Yields (node print content (level + 1)) t inner t₁ ∧
        Yields (attributes print level rest) t₁ (written, others) t' ∧
        slots = ("<template #" ++ name ++ ">" ++ inner ++ "</template>") :: others := by
  rw [attributes]
  simp only [yields_bind_iff, yields_pure]
  constructor
  · rintro ⟨inner, t₁, hinner, ⟨written', others⟩, _, hothers, heq, rfl⟩
    obtain ⟨rfl, rfl⟩ := Prod.mk.inj heq
    exact ⟨inner, t₁, others, hinner, hothers, rfl⟩
  · rintro ⟨inner, t₁, others, hinner, hothers, rfl⟩
    exact ⟨inner, t₁, hinner, (written, others), t', hothers, rfl, rfl⟩

theorem yields_nodes_nil {texts : List String} :
    Yields (nodes print [] level) t texts t' ↔ texts = [] ∧ t' = t := by
  rw [nodes]
  exact yields_pure

theorem yields_nodes_cons {n : Node} {ns : List Node} {texts : List String} :
    Yields (nodes print (n :: ns) level) t texts t' ↔
      ∃ text t₁ others, Yields (node print n level) t text t₁ ∧
        Yields (nodes print ns level) t₁ others t' ∧ texts = text :: others := by
  rw [nodes]
  simp only [yields_bind_iff, yields_pure]
  constructor
  · rintro ⟨text, t₁, htext, others, _, hothers, rfl, rfl⟩
    exact ⟨text, t₁, others, htext, hothers, rfl⟩
  · rintro ⟨text, t₁, others, htext, hothers, rfl⟩
    exact ⟨text, t₁, htext, others, t', hothers, rfl, rfl⟩

end Template

end ViewGen
