import ViewGen.Proofs.PlainNames
import ViewGen.Proofs.TemplateTags

/-!
# Static texts of templates

A static text that opens an interpolation is kept from being compiled when the template is written.
Whether it does is decided for each text alone, but the children of an element are written without
anything between them if one of them is a text, and a reader finds one text where several were
written.  So in a tree of static texts an interpolation is found exactly when texts that stand next
to each other as children of an element have opening braces where they meet.

## Main definitions

* `Node.isLiteral` — a tree without dynamic and raw nodes
* `textRuns` — the texts that a reader finds between the children of an element
* `Element.JoinsBraces` — one of them opens an interpolation
* `Template.ReadAs` — what a reader finds in the markup of a node

## Main statements

* `Template.exposes_children` — children on one line, where a text goes on in the next one
* `Template.readAs_node` — what a reader finds in a written tree
* `static_text_interpolates_iff` — when an interpolation is found in a tree of static texts
-/

namespace ViewGen

/-! ## Trees of static texts -/

mutual

/-- A tree without dynamic and raw nodes. -/
def Node.isLiteral : Node → Bool
  | .static _ => true
  | .dynamic _ => false
  | .raw _ => false
  | .element e => isLiteralElement e
  | .loop ⟨e, _, _⟩ => isLiteralElement e
  | .conditional ⟨n, _, _, _⟩ => isLiteral n
  | .slot ⟨_, some n⟩ => isLiteral n
  | .slot ⟨_, none⟩ => true

/-- An element without dynamic and raw nodes inside. -/
def Node.isLiteralElement : Element Node → Bool
  | ⟨_, _, _, _, attrs, _, _, children, _⟩ => isLiteralAttrs attrs && isLiteralAll children

/-- Attributes without dynamic and raw nodes inside. -/
def Node.isLiteralAttrs : List (String × Attribute Node) → Bool
  | [] => true
  | (_, .slot n) :: rest => isLiteral n && isLiteralAttrs rest
  | (_, .static _) :: rest => isLiteralAttrs rest
  | (_, .dynamic _) :: rest => isLiteralAttrs rest
  | (_, .imported _) :: rest => isLiteralAttrs rest

/-- Nodes without dynamic and raw ones, and without any inside. -/
def Node.isLiteralAll : List Node → Bool
  | [] => true
  | n :: rest => isLiteral n && isLiteralAll rest

end

/-- A static text that is written without a tag around it. -/
def Node.bareText? : Node → Option String
  | .static value =>
    if Template.opensInterpolation value.display.toList then none else some value.display
  | _ => none

/-- The texts between the tags of children: those next to each other are one text.  What was there
before the first child is given. -/
def textRuns : List Char → List Node → List (List Char)
  | seen, [] => [seen]
  | seen, n :: rest =>
    match n.bareText? with
    | some s => textRuns (seen ++ s.toList) rest
    | none => seen :: textRuns [] rest

/-- Among the children of an element, texts that stand next to each other open an interpolation
together. -/
def Element.JoinsBraces (e : Element Node) : Prop :=
  (textRuns [] e.children).any Template.opensInterpolation = true

instance (e : Element Node) : Decidable e.JoinsBraces :=
  inferInstanceAs (Decidable (_ = _))

/-- Texts inside of a tree open an interpolation together. -/
def Node.JoinsBraces (n : Node) : Prop :=
  ∃ e ∈ n.elements, e.JoinsBraces

namespace Template

open MarkupReading Writing

/-- What a reader finds in the markup of a node: the text of the node, or something that starts and
ends with a tag. -/
structure ReadAs (n : Node) (text : String) : Prop where
  bare : ∀ s, n.bareText? = some s → text = Text.escapeText s
  enclosed : n.bareText? = none → Encloses text.toList n.JoinsBraces

theorem bareText?_eq_some_iff {n : Node} {s : String} :
    n.bareText? = some s ↔ ∃ value : Scalar, n = .static value ∧ s = value.display ∧
      opensInterpolation s.toList = false := by
  cases n with
  | static value =>
      rw [Node.bareText?]
      constructor
      · intro h
        split at h
        · exact absurd h (by simp)
        · next hopens =>
          obtain rfl := Option.some.inj h
          exact ⟨value, rfl, rfl, Bool.eq_false_iff.mpr hopens⟩
      · rintro ⟨_, heq, rfl, hopens⟩
        obtain rfl := Node.static.inj heq
        rw [hopens]
        rfl
  | _ => simp [Node.bareText?]

theorem not_joinsBraces_static {value : Scalar} : ¬ (Node.static value).JoinsBraces := by
  rintro ⟨e, he, -⟩
  exact absurd he List.not_mem_nil

theorem bareText?_of_not_isInline {n : Node} (h : isInline n = false) : n.bareText? = none := by
  cases n with
  | static value => exact absurd h (by simp [isInline])
  | _ => rfl

theorem textRuns_some {n : Node} {s : String} (h : n.bareText? = some s) (seen : List Char)
    (rest : List Node) : textRuns seen (n :: rest) = textRuns (seen ++ s.toList) rest := by
  rw [textRuns, h]

theorem textRuns_none {n : Node} (h : n.bareText? = none) (seen : List Char) (rest : List Node) :
    textRuns seen (n :: rest) = seen :: textRuns [] rest := by
  rw [textRuns, h]

/-- **Children on one line.**  A text of one child goes on in the text of the next. -/
theorem exposes_children {ns : List Node} {texts : List String} (h : List.Forall₂ ReadAs ns texts)
    {closing : List Char} (hclosing : Encloses closing False) (seen rest : List Char) :
    Exposes (escaped seen) ((String.join texts).toList ++ (closing ++ rest)) ↔
      (textRuns seen ns).any opensInterpolation = true ∨ (∃ n ∈ ns, n.JoinsBraces) ∨
        Exposes [] rest := by
  -- What was read of the current text is general: a text is added to it, a tag starts it anew.
  induction h generalizing seen with
  | nil =>
      have hnothing : (String.join []).toList ++ (closing ++ rest) = closing ++ rest := rfl
      rw [hnothing, hclosing, opensInterpolation_escaped]
      simp [textRuns]
  | @cons n text ns texts hn _ ih =>
      rw [String.join_cons, String.toList_append, List.append_assoc]
      simp only [List.exists_mem_cons_iff]
      cases hbare : n.bareText? with
      | some s =>
          obtain ⟨value, rfl, -, -⟩ := bareText?_eq_some_iff.mp hbare
          rw [hn.bare s hbare, toList_escapeText, exposes_text (notMem_escaped _),
            ← escaped_append, ih, textRuns_some hbare]
          simp [not_joinsBraces_static]
      | none =>
          have hlater := ih []
          rw [escaped_nil] at hlater
          rw [hn.enclosed hbare, hlater, opensInterpolation_escaped, textRuns_none hbare,
            List.any_cons, Bool.or_eq_true]
          simp only [or_assoc, or_left_comm]

theorem follows_children {ns : List Node} {texts : List String} (h : List.Forall₂ ReadAs ns texts)
    {closing : List Char} (hclosing : Encloses closing False) :
    Follows ((String.join texts).toList ++ closing)
      ((textRuns [] ns).any opensInterpolation = true ∨ ∃ n ∈ ns, n.JoinsBraces) := by
  intro rest
  have hexposes := exposes_children h hclosing [] rest
  rw [escaped_nil] at hexposes
  rw [List.append_assoc, hexposes, or_assoc]

/-- Children on lines of their own. -/
theorem lines_children {ns : List Node} {texts : List String} (h : List.Forall₂ ReadAs ns texts)
    (hnone : ∀ n ∈ ns, n.bareText? = none) : Lines texts (∃ n ∈ ns, n.JoinsBraces) := by
  induction h with
  | nil => exact lines_nil.congr (by simp)
  | cons hn _ ih =>
      obtain ⟨hbare, hrest⟩ := List.forall_mem_cons.mp hnone
      exact (Lines.cons (hn.enclosed hbare) (ih hrest)).congr (List.exists_mem_cons_iff _ _ _).symm

theorem any_textRuns_eq_false {ns : List Node} (hnone : ∀ n ∈ ns, n.bareText? = none) :
    (textRuns [] ns).any opensInterpolation = false := by
  induction ns with
  | nil => rfl
  | cons n rest ih =>
      obtain ⟨hbare, hrest⟩ := List.forall_mem_cons.mp hnone
      rw [textRuns_none hbare, List.any_cons, ih hrest]
      rfl

/-- A node by itself. -/
theorem ReadAs.exposes_iff {n : Node} {text : String} (h : ReadAs n text) :
    Exposes [] text.toList ↔ n.JoinsBraces := by
  cases hbare : n.bareText? with
  | some s =>
      obtain ⟨value, rfl, -, hopens⟩ := bareText?_eq_some_iff.mp hbare
      rw [h.bare s hbare, toList_escapeText, ← List.append_nil (escaped _),
        exposes_text (notMem_escaped _), List.nil_append, exposes_nil, opensInterpolation_escaped,
        hopens]
      exact iff_of_false Bool.false_ne_true not_joinsBraces_static
  | none =>
      have hexposes := h.enclosed hbare [] []
      rw [List.append_nil, exposes_nil] at hexposes
      simpa [opensInterpolation] using hexposes

/-! ## Elements -/

section Layout

variable {tag : String} {attributes : List (String × String)} {slots texts : List String}
  {p q : Prop}

/-- Line breaks and blanks hold neither tags nor braces. -/
theorem pad_plain (level : Nat) :
    '<' ∉ ("\n" ++ pad level).toList ∧ opensInterpolation ("\n" ++ pad level).toList = false := by
  have hchars : ∀ c, c ≠ '\n' → c ≠ ' ' → c ∉ ("\n" ++ pad level).toList := by
    intro c hbreak hblank hc
    rw [String.toList_append, pad] at hc
    rcases List.mem_append.mp hc with hc | hc
    · exact hbreak (List.mem_singleton.mp hc)
    · rw [String.toList_ofList] at hc
      exact hblank (List.eq_of_mem_replicate hc)
  have hbrace := hchars '{' (by decide) (by decide)
  refine ⟨hchars '<' (by decide) (by decide), ?_⟩
  rw [← List.append_nil ("\n" ++ pad level).toList, opensInterpolation_append hbrace]
  rfl

/-- An element on one line.  There may be texts between the children. -/
theorem encloses_row (htag : plainName tag = true)
    (hnames : ∀ a ∈ attributes, plainName a.1 = true) (hslots : Lines slots p)
    (hrow : Follows ((String.join texts).toList ++ ("</" ++ tag ++ ">").toList) q) :
    Encloses (startTag tag attributes ++ ">" ++ String.join (slots ++ texts) ++
      ("</" ++ tag ++ ">")).toList (p ∨ q) := by
  have htext : (startTag tag attributes ++ ">" ++ String.join (slots ++ texts) ++
      ("</" ++ tag ++ ">")).toList = (startTag tag attributes ++ ">").toList ++
        ((String.join slots).toList ++
          ((String.join texts).toList ++ ("</" ++ tag ++ ">").toList)) := by
    simp [String.join_append]
  rw [htext]
  exact ((encloses_startTag htag hnames).append (hslots.follows.append hrow)).congr (by simp)

/-- An element with what is inside on lines of its own. -/
theorem encloses_lines (htag : plainName tag = true)
    (hnames : ∀ a ∈ attributes, plainName a.1 = true) (htexts : Lines texts p) (level : Nat) :
    Encloses (startTag tag attributes ++ ">" ++
      String.join (texts.map fun child => "\n" ++ pad (level + 1) ++ child) ++ "\n" ++ pad level ++
        ("</" ++ tag ++ ">")).toList p := by
  have htext : (startTag tag attributes ++ ">" ++
      String.join (texts.map fun child => "\n" ++ pad (level + 1) ++ child) ++ "\n" ++ pad level ++
        ("</" ++ tag ++ ">")).toList = (startTag tag attributes ++ ">").toList ++
          ((String.join (texts.map ("\n" ++ pad (level + 1) ++ ·))).toList ++
            (("\n" ++ pad level).toList ++ ("</" ++ tag ++ ">").toList)) := by
    simp
  have hinside := htexts ("\n" ++ pad (level + 1)) (pad_plain _).1 (pad_plain _).2
  have hclosing := (encloses_endTag tag htag).follows_text (pad_plain level).1 (pad_plain level).2
  rw [htext]
  exact ((encloses_startTag htag hnames).append (hinside.append hclosing)).congr (by simp)

end Layout

/-- **What a reader finds in an element**: what it finds in the nodes that are passed as attributes,
in the texts between the children, and in the children. -/
theorem encloses_elementText {tag : String} {attributes : List (String × String)}
    (htag : plainName tag = true) (hnames : ∀ a ∈ attributes, plainName a.1 = true)
    {slots texts : List String} {p : Prop} (hslots : Lines slots p) {ns : List Node}
    (h : List.Forall₂ ReadAs ns texts) (level : Nat) (selfClosing : Bool) :
    Encloses (elementText level tag (attributes.map spelled) selfClosing (ns.any isInline)
        (slots ++ texts)).toList
      (p ∨ (textRuns [] ns).any opensInterpolation = true ∨ ∃ n ∈ ns, n.JoinsBraces) := by
  have hrow := follows_children h (encloses_endTag tag htag)
  unfold elementText
  dsimp only
  rw [opening_eq_startTag]
  split
  · next hempty =>
    obtain ⟨rfl, rfl⟩ := List.append_eq_nil_iff.mp (List.isEmpty_iff.mp hempty)
    cases h with
    | nil =>
        split
        · exact (encloses_emptyTag htag hnames).congr
            (by simp [hslots.not_of_nil, textRuns, opensInterpolation])
        · have hnothing : startTag tag attributes ++ ">" ++ ("</" ++ tag ++ ">") =
              startTag tag attributes ++ ">" ++ String.join ([] ++ []) ++ ("</" ++ tag ++ ">") := by
            simp
          rw [hnothing]
          exact encloses_row htag hnames hslots hrow
  · split
    · exact encloses_row htag hnames hslots hrow
    · next hinline =>
      -- Children are put on lines of their own only where there are no texts among them.
      have hnone : ∀ n ∈ ns, n.bareText? = none := by
        intro n hn
        refine bareText?_of_not_isInline (Bool.eq_false_iff.mpr fun hn' => hinline ?_)
        exact List.any_eq_true.mpr ⟨n, hn, hn'⟩
      have htexts := hslots.append (lines_children h hnone)
      exact (encloses_lines htag hnames htexts level).congr (by simp [any_textRuns_eq_false hnone])

/-- A node between two tags. -/
theorem ReadAs.between {n : Node} {content : String} (h : ReadAs n content)
    {opening closing : String} (hopening : Encloses opening.toList False)
    (hclosing : Encloses closing.toList False) :
    Encloses (opening ++ content ++ closing).toList n.JoinsBraces := by
  have hchild := follows_children (.cons h .nil) hclosing
  -- A single bare text does not open an interpolation, or it would not be bare.
  have hruns : (textRuns [] [n]).any opensInterpolation = false := by
    cases hbare : n.bareText? with
    | some s =>
        obtain ⟨value, -, -, hopens⟩ := bareText?_eq_some_iff.mp hbare
        rw [textRuns_some hbare, List.nil_append, textRuns, List.any_cons, hopens]
        rfl
    | none => exact any_textRuns_eq_false (by simp [hbare])
  have htext : (opening ++ content ++ closing).toList =
      opening.toList ++ ((String.join [content]).toList ++ closing.toList) := by simp
  rw [htext]
  exact (hopening.append hchild).congr (by simp [hruns])

theorem readAs_static (value : Scalar) :
    ReadAs (.static value) (literalText value.display) := by
  by_cases hopens : opensInterpolation value.display.toList = true
  · refine ⟨fun s hbare => ?_, fun _ => ?_⟩
    · obtain ⟨_, heq, rfl, hnot⟩ := bareText?_eq_some_iff.mp hbare
      obtain rfl := Node.static.inj heq
      exact absurd hopens (Bool.eq_false_iff.mp hnot)
    · have hkept := encloses_kept (notMem_escaped value.display.toList)
      have htext : (literalText value.display).toList = '<' :: (keeping ++ '>' ::
          (escaped value.display.toList ++ '<' :: ("/span".toList ++ ['>']))) := by
        rw [literalText, if_pos hopens, String.toList_append, String.toList_append,
          toList_escapeText]
        rfl
      rw [htext]
      exact hkept.congr (iff_of_false id not_joinsBraces_static)
  · refine ⟨fun s hbare => ?_, fun hbare => ?_⟩
    · obtain ⟨_, heq, rfl, -⟩ := bareText?_eq_some_iff.mp hbare
      obtain rfl := Node.static.inj heq
      exact if_neg hopens
    · rw [Node.bareText?, if_neg hopens] at hbare
      exact absurd hbare (by simp)

/-- A node that is no static text has no bare text. -/
theorem ReadAs.of_encloses {n : Node} {text : String} (hnone : n.bareText? = none)
    (h : Encloses text.toList n.JoinsBraces) : ReadAs n text :=
  ⟨fun s hbare => absurd (hnone.symm.trans hbare) (by simp), fun _ => h⟩

theorem exists_elementsOfAll_iff {ns : List Node} :
    (∃ e ∈ Node.elementsOfAll ns, e.JoinsBraces) ↔ ∃ n ∈ ns, n.JoinsBraces := by
  induction ns with
  | nil => simp [Node.elementsOfAll]
  | cons n rest ih =>
      rw [List.exists_mem_cons_iff, ← ih, Node.elementsOfAll]
      simp only [Node.JoinsBraces, List.mem_append, or_and_right, exists_or]

/-- Texts inside of an element are joined in a node that is passed as an attribute, among the
children, or further inside. -/
theorem exists_joinsBraces_iff (e : Element Node) :
    (∃ e' ∈ Node.elementsOf e, e'.JoinsBraces) ↔
      (∃ e' ∈ Node.elementsOfAttrs e.attrs, e'.JoinsBraces) ∨ e.JoinsBraces ∨
        ∃ n ∈ e.children, n.JoinsBraces := by
  rw [← exists_elementsOfAll_iff, Node.elementsOf, List.exists_mem_cons_iff, or_left_comm]
  simp only [List.mem_append, or_and_right, exists_or]

/-- What is inside a conditional is written with its directive, or between two tags. -/
theorem yields_conditional_spelled {print : Expr → String} {inner : Node} {subject : Reference}
    {value : Option Scalar} {condition : Option Test} {level : Nat} {t t' : Template}
    {text : String}
    (h : Yields (node print (.conditional ⟨inner, subject, value, condition⟩) level) t text t') :
    ∃ directive, Spells [directive] ["v-if"] ∧
      ((∃ e, inner = .element e) ∧ Yields (nodeWith print [directive] inner level) t text t' ∨
        ∃ content, Yields (nodeWith print [] inner (level + 1)) t content t' ∧
          text = "<template " ++ directive ++ ">" ++ content ++ "</template>") := by
  by_cases helement : ∃ e, inner = .element e
  · obtain ⟨e, rfl⟩ := helement
    obtain ⟨directive, hdirective, he⟩ := yields_conditional_element.mp h
    exact ⟨directive, spells_conditionDirective hdirective, .inl ⟨⟨e, rfl⟩, he⟩⟩
  · have hinner : ∀ e, inner ≠ .element e := fun e he => helement ⟨e, he⟩
    obtain ⟨directive, content, hdirective, hcontent, htext⟩ := (yields_conditional hinner).mp h
    rw [← nodeWith_nil] at hcontent
    exact ⟨directive, spells_conditionDirective hdirective, .inr ⟨content, hcontent, htext⟩⟩

section Trees

variable {print : Expr → String}

mutual

/-- **What a reader finds in a written tree**, constructor by constructor. -/
theorem readAs_node : ∀ (n : Node) {directives : List String} {level : Nat} {t t' : Template}
    {text : String}, n.isLiteral = true → (∀ e ∈ n.elements, e.plainNames = true) →
      SpelledPlain directives → Yields (nodeWith print directives n level) t text t' →
        ReadAs n text
  | .static value, directives, level, t, t', text, hliteral, hplain, hspelled, h => by
      simp only [nodeWith] at h
      obtain ⟨rfl, -⟩ := yields_static.mp h
      exact readAs_static value
  | .dynamic r, directives, level, t, t', text, hliteral, hplain, hspelled, h =>
      absurd hliteral (by simp [Node.isLiteral])
  | .raw markup, directives, level, t, t', text, hliteral, hplain, hspelled, h =>
      absurd hliteral (by simp [Node.isLiteral])
  | .element e, directives, level, t, t', text, hliteral, hplain, hspelled, h =>
      .of_encloses rfl (encloses_element e hliteral hplain hspelled h)
  | .loop ⟨template, source, names⟩, directives, level, t, t', text, hliteral, hplain, hspelled,
      h => by
      simp only [nodeWith] at h
      obtain ⟨written, hwritten, htemplate⟩ := yields_loop.mp h
      have hdirectives := (spells_loopDirectives hwritten).spelledPlain (by decide)
      exact .of_encloses rfl (encloses_element template hliteral hplain hdirectives htemplate)
  | .conditional ⟨inner, subject, value, condition⟩, directives, level, t, t', text, hliteral,
      hplain, hspelled, h => by
      obtain ⟨directive, hspells, hcases⟩ := yields_conditional_spelled h
      have hdirective := hspells.spelledPlain (by decide)
      obtain ⟨⟨e, he⟩, hinner⟩ | ⟨content, hinner, rfl⟩ := hcases
      · have hread := readAs_node inner hliteral hplain hdirective hinner
        exact .of_encloses rfl (hread.enclosed (by rw [he]; rfl))
      · have hread := readAs_node inner hliteral hplain spelledPlain_nil hinner
        exact .of_encloses rfl (hread.between (encloses_condition hdirective)
          (encloses_endTag "template" rfl))
  | .slot ⟨name, none⟩, directives, level, t, t', text, hliteral, hplain, hspelled, h => by
      simp only [nodeWith] at h
      obtain ⟨rfl, -⟩ := yields_slot_none.mp h
      have hslot := (encloses_slotOpening name).append (encloses_endTag "slot" rfl).follows
      rw [← String.toList_append] at hslot
      exact .of_encloses rfl (hslot.congr (by simp [Node.JoinsBraces, Node.elements]))
  | .slot ⟨name, some fallback⟩, directives, level, t, t', text, hliteral, hplain, hspelled, h => by
      simp only [nodeWith] at h
      obtain ⟨content, hcontent, rfl⟩ := yields_slot_some.mp h
      rw [← nodeWith_nil] at hcontent
      have hread := readAs_node fallback hliteral hplain spelledPlain_nil hcontent
      exact .of_encloses rfl (hread.between (encloses_slotOpening name)
        (encloses_endTag "slot" rfl))

theorem encloses_element : ∀ (e : Element Node) {directives : List String} {level : Nat}
    {t t' : Template} {text : String}, Node.isLiteralElement e = true →
      (∀ e' ∈ Node.elementsOf e, e'.plainNames = true) → SpelledPlain directives →
      Yields (element print e directives level) t text t' →
        Encloses text.toList (∃ e' ∈ Node.elementsOf e, e'.JoinsBraces)
  | ⟨name, label, key, selfClosing, attrs, handlers, rules, children, dependency⟩, directives,
      level, t, t', text, hliteral, hplain, hspelled, h => by
      obtain ⟨bound, t₁, written, slots, t₂, styles, listeners, texts, hbound, hattrs, hstyles,
        hlisteners, hchildren, rfl⟩ := yields_element.mp h
      obtain ⟨hliteralAttrs, hliteralChildren⟩ := Bool.and_eq_true_iff.mp hliteral
      obtain ⟨hself, hinside⟩ := List.forall_mem_cons.mp hplain
      obtain ⟨hplainAttrs, hplainChildren⟩ := List.forall_mem_append.mp hinside
      have htag : plainName bound = true :=
        plainName_tag (List.all_eq_true.mp hself _ List.mem_cons_self) hbound
      have hkeys : ∀ name ∈ Dict.keys attrs, plainName name = true := fun name hname =>
        List.all_eq_true.mp hself _ (List.mem_cons_of_mem _ (List.mem_append_left _ hname))
      have hslots := lines_attributes attrs hliteralAttrs hplainAttrs hkeys hattrs
      have hread := readAs_nodes children hliteralChildren hplainChildren hchildren
      obtain ⟨pairs, hpairs, hnames⟩ :=
        spelledPlain_element hspelled hself hattrs hstyles hlisteners
      rw [hpairs]
      have hjoins := exists_joinsBraces_iff
        ⟨name, label, key, selfClosing, attrs, handlers, rules, children, dependency⟩
      exact (encloses_elementText htag hnames hslots hread level selfClosing).congr hjoins.symm

theorem lines_attributes : ∀ (attrs : List (String × Attribute Node)) {level : Nat}
    {t t' : Template} {written slots : List String}, Node.isLiteralAttrs attrs = true →
      (∀ e ∈ Node.elementsOfAttrs attrs, e.plainNames = true) →
      (∀ name ∈ Dict.keys attrs, plainName name = true) →
      Yields (attributes print level attrs) t (written, slots) t' →
        Lines slots (∃ e ∈ Node.elementsOfAttrs attrs, e.JoinsBraces)
  | [], level, t, t', written, slots, hliteral, hplain, hnames, h => by
      obtain ⟨-, rfl, -⟩ := yields_attributes_nil.mp h
      exact lines_nil.congr (by simp [Node.elementsOfAttrs])
  | (name, .static value) :: rest, level, t, t', written, slots, hliteral, hplain, hnames, h => by
      obtain ⟨others, hrest, -⟩ := yields_attributes_static.mp h
      exact lines_attributes rest hliteral hplain (List.forall_mem_cons.mp hnames).2 hrest
  | (name, .dynamic r) :: rest, level, t, t', written, slots, hliteral, hplain, hnames, h => by
      obtain ⟨e, others, -, hrest, -⟩ := yields_attributes_dynamic.mp h
      exact lines_attributes rest hliteral hplain (List.forall_mem_cons.mp hnames).2 hrest
  | (name, .imported id) :: rest, level, t, t', written, slots, hliteral, hplain, hnames, h => by
      obtain ⟨others, hrest, -⟩ := yields_attributes_imported.mp h
      exact lines_attributes rest hliteral hplain (List.forall_mem_cons.mp hnames).2 hrest
  | (name, .slot content) :: rest, level, t, t', written, slots, hliteral, hplain, hnames, h => by
      obtain ⟨inner, t₁, others, hinner, hrest, rfl⟩ := yields_attributes_slot.mp h
      rw [← nodeWith_nil] at hinner
      obtain ⟨hcontent, hothers⟩ := Bool.and_eq_true_iff.mp hliteral
      obtain ⟨hplainContent, hplainOthers⟩ := List.forall_mem_append.mp hplain
      obtain ⟨hname, hnames⟩ := List.forall_mem_cons.mp hnames
      have hread := readAs_node content hcontent hplainContent spelledPlain_nil hinner
      have hfirst := hread.between (encloses_slotTemplate hname)
        (encloses_endTag "template" rfl)
      have hlater := lines_attributes rest hothers hplainOthers hnames hrest
      refine (Lines.cons hfirst hlater).congr ?_
      simp only [Node.JoinsBraces, Node.elementsOfAttrs, List.mem_append, or_and_right, exists_or]

theorem readAs_nodes : ∀ (ns : List Node) {level : Nat} {t t' : Template} {texts : List String},
    Node.isLiteralAll ns = true → (∀ e ∈ Node.elementsOfAll ns, e.plainNames = true) →
      Yields (nodes print ns level) t texts t' → List.Forall₂ ReadAs ns texts
  | [], level, t, t', texts, hliteral, hplain, h => by
      obtain ⟨rfl, -⟩ := yields_nodes_nil.mp h
      exact .nil
  | n :: rest, level, t, t', texts, hliteral, hplain, h => by
      obtain ⟨text, t₁, others, htext, hothers, rfl⟩ := yields_nodes_cons.mp h
      rw [← nodeWith_nil] at htext
      obtain ⟨hn, hrest⟩ := Bool.and_eq_true_iff.mp hliteral
      obtain ⟨hplain, hplains⟩ := List.forall_mem_append.mp hplain
      exact .cons (readAs_node n hn hplain spelledPlain_nil htext)
        (readAs_nodes rest hrest hplains hothers)

end

end Trees

end Template

open Writing (Yields)

/-- **An interpolation is found in a tree of static texts exactly when texts next to each other open
one together.**  A tree without dynamic and raw nodes is always written, and each of its texts is
kept from being compiled where it opens an interpolation by itself. -/
theorem static_text_interpolates_iff {n : Node} (hliteral : n.isLiteral = true)
    (hnames : ∀ e ∈ n.elements, e.plainNames = true) (level : Nat) (t : Template) :
    ∃ text t', Yields (Template.node Template.exprText n level) t text t' ∧
      (MarkupReading.Exposes [] text.toList ↔ ∃ e ∈ n.elements, e.JoinsBraces) := by
  obtain ⟨text, t', htext, -⟩ := Template.exists_node (fun _ _ => rfl) n level t
  have hwritten := htext
  rw [← Template.nodeWith_nil] at hwritten
  have hread := Template.readAs_node n hliteral hnames Template.spelledPlain_nil hwritten
  exact ⟨text, t', htext, hread.exposes_iff⟩

/-- A note with texts that open interpolations by themselves, and braces that stand alone before an
element, a slot and a condition. -/
def priceNote : Node :=
  .element {
    tag := "section"
    attrs := [
      ("class", .static (.text "note")),
      ("header", .slot (.static (.text "\x7b\x7b title")))]
    children := [
      .static (.text "Total: \x7b"),
      .element { tag := "b", children := [.static (.text "\x7b\x7b total \x7d\x7d")] },
      .static (.text "\x7b"),
      .slot { name := some "details", fallback := some (.static (.text "\x7b")) },
      .conditional { node := .static (.text "\x7b <none>"), subject := ⟨"open", .state⟩ },
      .static (.text "a & b")] }

/-- No interpolation is found in the note. -/
theorem priceNote_keeps_texts :
    priceNote.isLiteral = true ∧ (∀ e ∈ priceNote.elements, e.plainNames = true) ∧
      (∀ e ∈ priceNote.elements, ¬ e.JoinsBraces) ∧
      ∃ text t', Yields (Template.node Template.exprText priceNote 0) { imports := {} } text t' ∧
        ¬ MarkupReading.Exposes [] text.toList := by
  have hliteral : priceNote.isLiteral = true := by decide
  have hnames : ∀ e ∈ priceNote.elements, e.plainNames = true := by decide
  have hjoins : ∀ e ∈ priceNote.elements, ¬ e.JoinsBraces := by decide
  obtain ⟨text, t', htext, hexposes⟩ :=
    static_text_interpolates_iff hliteral hnames 0 { imports := {} }
  refine ⟨hliteral, hnames, hjoins, text, t', htext, fun hfound => ?_⟩
  obtain ⟨e, he, hjoin⟩ := hexposes.mp hfound
  exact hjoins e he hjoin

/-- A total whose opening braces come from two texts. -/
def splitTotal : Node :=
  .element {
    tag := "p"
    children := [.static (.text "\x7b"), .static (.text "\x7b total \x7d\x7d")] }

/-- Neither of the two texts opens an interpolation, and the markup has one. -/
theorem splitTotal_interpolates :
    splitTotal.isLiteral = true ∧
      Yields (Template.node Template.exprText splitTotal 0) { imports := {} }
        "<p>\x7b\x7b total \x7d\x7d</p>" { imports := {} } ∧
      MarkupReading.Exposes [] "<p>\x7b\x7b total \x7d\x7d</p>".toList := by
  refine ⟨by decide, ?_, by decide⟩
  rw [splitTotal, Template.yields_node_element]
  rfl

end ViewGen
