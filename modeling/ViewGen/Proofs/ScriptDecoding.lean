import ViewGen.Proofs.ElementReferences
import ViewGen.Proofs.LiteralDecoding

/-!
# Printing with escapes and decoding them

A script can be printed with all literals kept to ASCII or with the characters themselves.  The two
texts differ in literals alone, and decoding the first gives the second, wherever the literals
stand: in markup, in attributes, in functions or in imports.

## Main definitions

* `Expr.verbatim`, `Statement.verbatim`, `Markup.verbatim` — the names that a piece of syntax prints
  as they are
* `Arena.Prints` — the names that printing some statements prints as they are
* `Expr.TextDecodes` — the text of an expression decodes to the one without escapes

## Main statements

* `Expr.unescapes_text`, `Statement.unescapes_text`, `Markup.unescapes_text` — one piece of syntax,
  given the texts of the elements inside it
* `escaped_script_decodes` — whole scripts

## Design notes

Names are the only texts that reach the output without being looked at.  A property or a member is
printed as a name only if it is an identifier, and a text in markup or in an attribute only if there
is no backslash in it, so nothing has to be asked of these.
-/

namespace ViewGen

open Literal (Bare Unescapes bare_pad bare_of_isIdentifier)

/-! ## Names that are printed as they are -/

/-- The names that a pattern binds. -/
def Pattern.verbatim : Pattern → List String
  | .name bound => [bound]
  | .array names => names

/-- The names in an import declaration. -/
def ImportDeclaration.verbatim (d : ImportDeclaration) : List String :=
  d.default.toList ++ d.named.flatMap fun specifier => [specifier.imported, specifier.bound]

mutual

/-- The names that an expression prints as they are. -/
def Expr.verbatim : Expr → List String
  | .ident name => [name]
  | .str _ | .num _ | .bool _ | .null | .element _ => []
  | .member object _ => Expr.verbatim object
  | .array items => verbatimOfAll items
  | .object properties => verbatimOfProperties properties
  | .compare _ left right => Expr.verbatim left ++ Expr.verbatim right
  | .logical _ left right => Expr.verbatim left ++ Expr.verbatim right
  | .not argument => Expr.verbatim argument
  | .call callee arguments => Expr.verbatim callee ++ verbatimOfAll arguments
  | .arrow params body => params ++ Expr.verbatim body
  | .arrowBlock params body => params ++ verbatimOfBlock body

/-- The names in a list of expressions. -/
def verbatimOfAll : List Expr → List String
  | [] => []
  | e :: rest => Expr.verbatim e ++ verbatimOfAll rest

/-- The names in the values of properties. -/
def verbatimOfProperties : List (String × Expr) → List String
  | [] => []
  | (_, value) :: rest => Expr.verbatim value ++ verbatimOfProperties rest

/-- The names that a statement prints as they are. -/
def Statement.verbatim : Statement → List String
  | .importing declaration => declaration.verbatim
  | .constant pattern value => pattern.verbatim ++ Expr.verbatim value
  | .expr e => Expr.verbatim e
  | .returning e => Expr.verbatim e
  | .exporting e => Expr.verbatim e
  | .assign target value => Expr.verbatim target ++ Expr.verbatim value

/-- The names in a list of statements. -/
def verbatimOfBlock : List Statement → List String
  | [] => []
  | s :: rest => Statement.verbatim s ++ verbatimOfBlock rest

end

/-- The names in the value of an attribute. -/
def MarkupValue.verbatim : MarkupValue → List String
  | .expr e => e.verbatim
  | .text _ | .flag => []

/-- The names in a child. -/
def MarkupChild.verbatim : MarkupChild → List String
  | .expr e => e.verbatim
  | .text _ | .element _ => []

/-- The names that an element prints as they are: its tag, the names of its attributes, and those in
their values and in its children. -/
def Markup.verbatim (m : Markup) : List String :=
  m.name :: (m.attributes.flatMap fun entry => entry.1 :: entry.2.verbatim) ++
    m.children.flatMap MarkupChild.verbatim

/-- The names that printing statements prints as they are: those in the statements, and those in all
elements that are looked up. -/
inductive Arena.Prints (a : Arena) (statements : List Statement) (name : String) : Prop
  | statement : name ∈ verbatimOfBlock statements → Prints a statements name
  | element {id : ElementId} {m : Markup} : a.LooksUp (elementIdsOfBlock statements) id →
      a.get? id = some m → name ∈ m.verbatim → Prints a statements name

theorem verbatimOfBlock_eq (statements : List Statement) :
    verbatimOfBlock statements = statements.flatMap Statement.verbatim := by
  induction statements with
  | nil => rfl
  | cons s rest ih => rw [verbatimOfBlock, ih, List.flatMap_cons]

/-! ## Pieces -/

section Pieces

variable {s t : String} {width : Nat}

theorem unescapes_literal (value : String) :
    Unescapes (Style.literal ⟨width, true⟩ value) (Style.literal ⟨width, false⟩ value) :=
  Literal.unescapes_quote value

theorem unescapes_key (name : String) :
    Unescapes (Style.key ⟨width, true⟩ name) (Style.key ⟨width, false⟩ name) := by
  unfold Style.key
  split
  · next hname => exact (bare_of_isIdentifier hname).unescapes
  · exact unescapes_literal name

theorem unescapes_parenthesize (h : Unescapes s t) (least : Strength) (operand : Expr) :
    Unescapes (parenthesize least operand s) (parenthesize least operand t) := by
  unfold parenthesize
  split
  · exact h.enclose (by decide) (by decide)
  · exact h

theorem unescapes_braced (h : Unescapes s t) : Unescapes (braced s) (braced t) :=
  h.enclose (by decide) (by decide)

theorem unescapes_bodyText (h : Unescapes s t) (body : Expr) :
    Unescapes (bodyText body s) (bodyText body t) := by
  unfold bodyText
  split
  · exact h.enclose (by decide) (by decide)
  · exact h

theorem unescapes_exportText (h : Unescapes s t) : Unescapes (exportText s) (exportText t) :=
  h.enclose (by decide) (by decide)

theorem unescapes_paramsText {params : List String} (h : ∀ name ∈ params, Bare name) :
    Unescapes (paramsText params) (paramsText params) :=
  (Bare.intercalate (by decide) h).unescapes.enclose (by decide) (by decide)

theorem Pattern.unescapes_text {pattern : Pattern} (h : ∀ name ∈ pattern.verbatim, Bare name) :
    Unescapes pattern.text pattern.text := by
  cases pattern with
  | name bound => exact (h bound (List.mem_singleton_self bound)).unescapes
  | array names =>
      exact (Bare.intercalate (by decide) h).unescapes.enclose (by decide) (by decide)

theorem ImportSpecifier.bare_text {specifier : ImportSpecifier}
    (himported : Bare specifier.imported) (hbound : Bare specifier.bound) :
    Bare specifier.text := by
  unfold ImportSpecifier.text
  split
  · exact hbound
  · exact (himported.append (by decide)).append hbound

/-- An import differs in the literal of its source alone. -/
theorem ImportDeclaration.unescapes_text {d : ImportDeclaration}
    (h : ∀ name ∈ d.verbatim, Bare name) :
    Unescapes (d.text ⟨width, true⟩) (d.text ⟨width, false⟩) := by
  obtain ⟨hdefault, hnamed⟩ := List.forall_mem_append.mp h
  have hspecifiers : ∀ text ∈ d.named.map ImportSpecifier.text, Bare text := by
    intro text htext
    obtain ⟨specifier, hspecifier, rfl⟩ := List.mem_map.mp htext
    have hnames : ∀ name ∈ [specifier.imported, specifier.bound], Bare name :=
      fun name hname => hnamed name (List.mem_flatMap.mpr ⟨specifier, hspecifier, hname⟩)
    exact ImportSpecifier.bare_text (hnames _ (by simp)) (hnames _ (by simp))
  have hclauses : ∀ clause ∈ d.default.toList ++ (if d.named.isEmpty then []
      else ["\x7b " ++ ", ".intercalate (d.named.map ImportSpecifier.text) ++ " \x7d"]),
      Bare clause := by
    refine List.forall_mem_append.mpr ⟨hdefault, ?_⟩
    split
    · exact fun clause hclause => absurd hclause List.not_mem_nil
    · refine List.forall_mem_singleton.mpr ?_
      exact ((by decide : Bare "\x7b ").append (.intercalate (by decide) hspecifiers)).append
        (by decide)
  unfold ImportDeclaration.text
  dsimp only
  split
  · exact (unescapes_literal d.source).enclose (by decide) (by decide)
  · next hne =>
    have hjoined := (Bare.intercalate (by decide : Bare ", ") hclauses).unescapes
    exact (hjoined.enclose (by decide) (by decide)).append
      (unescapes_literal d.source) |>.append_bare (by decide)

end Pieces

/-! ## Expressions and statements -/

section Printing

variable {width : Nat} {element element' : ElementId → Nat → String}

variable (width element element') in
/-- The text of an expression with escapes decodes to the one without them, given the texts of the
elements that it refers to. -/
def Expr.TextDecodes (e : Expr) (layout : Layout) (level : Nat) : Prop :=
  Unescapes (e.text ⟨width, true⟩ element layout level) (e.text ⟨width, false⟩ element' layout level)

namespace Expr.TextDecodes

variable {level : Nat}

/-- An operand decodes, in parentheses or not. -/
theorem operand {e : Expr} (h : e.TextDecodes width element element' .inline level)
    (least : Strength) :
    Unescapes (parenthesize least e (e.text ⟨width, true⟩ element .inline level))
      (parenthesize least e (e.text ⟨width, false⟩ element' .inline level)) :=
  unescapes_parenthesize h least e

theorem member {object : Expr} (h : object.TextDecodes width element element' .inline level)
    (property : String) (layout : Layout) :
    (Expr.member object property).TextDecodes width element element' layout level := by
  have hobject := h.operand .member
  unfold TextDecodes
  simp only [Expr.text]
  split
  · next hproperty =>
    exact (hobject.append_bare (by decide)).append (bare_of_isIdentifier hproperty).unescapes
  · exact ((hobject.append_bare (by decide)).append
      (unescapes_literal property)).append_bare (by decide)

/-- The properties of an object are listed in a row or on lines of their own. -/
theorem object {property : String × Expr} {properties : List (String × Expr)}
    (hrow : List.Forall₂ Unescapes
      (propertyTexts ⟨width, true⟩ element level (property :: properties))
      (propertyTexts ⟨width, false⟩ element' level (property :: properties)))
    (hlines : Unescapes (propertyLines ⟨width, true⟩ element (level + 1) (property :: properties))
      (propertyLines ⟨width, false⟩ element' (level + 1) (property :: properties)))
    (layout : Layout) :
    (Expr.object (property :: properties)).TextDecodes width element element' layout level := by
  unfold TextDecodes
  cases layout with
  | inline =>
      have htexts := Unescapes.intercalate (by decide : Bare ", ") hrow
      simp only [Expr.text]
      exact htexts.enclose (by decide) (by decide)
  | block =>
      simp only [Expr.text]
      exact (hlines.enclose (by decide) (bare_pad ⟨width, true⟩ level)).append_bare (by decide)

/-- Operands around an operator. -/
theorem operator {left right : Expr} (hleft : left.TextDecodes width element element' .inline level)
    (hright : right.TextDecodes width element element' .inline level) (least : Strength)
    {sign : String} (hsign : Bare sign) :
    Unescapes
      (parenthesize least left (left.text ⟨width, true⟩ element .inline level) ++ " " ++ sign ++
        " " ++ parenthesize least right (right.text ⟨width, true⟩ element .inline level))
      (parenthesize least left (left.text ⟨width, false⟩ element' .inline level) ++ " " ++ sign ++
        " " ++ parenthesize least right (right.text ⟨width, false⟩ element' .inline level)) :=
  ((((hleft.operand least).append_bare (by decide)).append_bare hsign).append_bare
    (by decide)).append (hright.operand least)

theorem compare {left right : Expr} (hleft : left.TextDecodes width element element' .inline level)
    (hright : right.TextDecodes width element element' .inline level) (comparison : Comparison)
    (layout : Layout) :
    (Expr.compare comparison left right).TextDecodes width element element' layout level := by
  have hsign : Bare comparison.sign := by cases comparison <;> decide
  unfold TextDecodes
  simp only [Expr.text]
  exact hleft.operator hright .unary hsign

theorem logical {left right : Expr} (hleft : left.TextDecodes width element element' .inline level)
    (hright : right.TextDecodes width element element' .inline level) (connective : Connective)
    (layout : Layout) :
    (Expr.logical connective left right).TextDecodes width element element' layout level := by
  have hsign : Bare connective.sign := by cases connective <;> decide
  unfold TextDecodes
  simp only [Expr.text]
  exact hleft.operator hright connective.strength hsign

theorem call {callee : Expr} (hcallee : callee.TextDecodes width element element' .inline level)
    {arguments : List Expr} (harguments : List.Forall₂ Unescapes
      (exprTexts ⟨width, true⟩ element level arguments)
      (exprTexts ⟨width, false⟩ element' level arguments)) (layout : Layout) :
    (Expr.call callee arguments).TextDecodes width element element' layout level := by
  have htexts := Unescapes.intercalate (by decide : Bare ", ") harguments
  unfold TextDecodes
  simp only [Expr.text]
  exact (((hcallee.operand .member).append_bare (by decide)).append htexts).append_bare (by decide)

theorem arrowBlock {params : List String} (hparams : ∀ name ∈ params, Bare name)
    {body : List Statement}
    (hbody : Unescapes (statementLines ⟨width, true⟩ element (level + 1) body)
      (statementLines ⟨width, false⟩ element' (level + 1) body)) (layout : Layout) :
    (Expr.arrowBlock params body).TextDecodes width element element' layout level := by
  unfold TextDecodes
  simp only [Expr.text]
  exact ((((unescapes_paramsText hparams).append_bare (by decide)).append hbody).append
    (bare_pad ⟨width, true⟩ level).unescapes).append_bare (by decide)

end Expr.TextDecodes

mutual

/-- The text of an expression decodes, if those of the elements it refers to do. -/
theorem Expr.unescapes_text : ∀ (e : Expr) (layout : Layout) (level : Nat),
    (∀ name ∈ e.verbatim, Bare name) →
    (∀ id ∈ e.elementIds, ∀ level, Unescapes (element id level) (element' id level)) →
      Unescapes (e.text ⟨width, true⟩ element layout level)
        (e.text ⟨width, false⟩ element' layout level)
  | .ident name, _, _, hnames, _ => by
      simp only [Expr.text]
      exact (hnames name (by simp [Expr.verbatim])).unescapes
  | .str s, _, _, _, _ => by
      simp only [Expr.text]
      exact unescapes_literal s
  | .num x, _, _, _, _ => by
      simp only [Expr.text]
      exact (Literal.bare_numberText x).unescapes
  | .bool b, _, _, _, _ => by
      simp only [Expr.text]
      cases b <;> exact Bare.unescapes (by decide)
  | .null, _, _, _, _ => by
      simp only [Expr.text]
      exact Bare.unescapes (by decide)
  | .member object property, layout, level, hnames, hids => by
      rw [Expr.verbatim] at hnames
      rw [Expr.elementIds] at hids
      exact Expr.TextDecodes.member (Expr.unescapes_text object .inline level hnames hids) property
        layout
  | .array items, _, level, hnames, hids => by
      rw [Expr.verbatim] at hnames
      rw [Expr.elementIds] at hids
      have hitems := Unescapes.intercalate (by decide : Bare ", ")
        (forall₂_exprTexts items level hnames hids)
      simp only [Expr.text]
      exact hitems.enclose (by decide) (by decide)
  | .object [], _, _, _, _ => by
      simp only [Expr.text]
      exact Bare.unescapes (by decide)
  | .object (property :: properties), layout, level, hnames, hids => by
      rw [Expr.verbatim] at hnames
      rw [Expr.elementIds] at hids
      exact Expr.TextDecodes.object (forall₂_propertyTexts (property :: properties) level hnames hids)
        (unescapes_propertyLines (property :: properties) (level + 1) hnames hids) layout
  | .compare comparison left right, layout, level, hnames, hids => by
      rw [Expr.verbatim, List.forall_mem_append] at hnames
      rw [Expr.elementIds, List.forall_mem_append] at hids
      exact Expr.TextDecodes.compare (Expr.unescapes_text left .inline level hnames.1 hids.1)
        (Expr.unescapes_text right .inline level hnames.2 hids.2) comparison layout
  | .logical connective left right, layout, level, hnames, hids => by
      rw [Expr.verbatim, List.forall_mem_append] at hnames
      rw [Expr.elementIds, List.forall_mem_append] at hids
      exact Expr.TextDecodes.logical (Expr.unescapes_text left .inline level hnames.1 hids.1)
        (Expr.unescapes_text right .inline level hnames.2 hids.2) connective layout
  | .not argument, _, level, hnames, hids => by
      rw [Expr.verbatim] at hnames
      rw [Expr.elementIds] at hids
      have hargument := Expr.TextDecodes.operand
        (Expr.unescapes_text argument .inline level hnames hids) .unary
      simp only [Expr.text]
      exact (Bare.unescapes (by decide)).append hargument
  | .call callee arguments, layout, level, hnames, hids => by
      rw [Expr.verbatim, List.forall_mem_append] at hnames
      rw [Expr.elementIds, List.forall_mem_append] at hids
      exact Expr.TextDecodes.call (Expr.unescapes_text callee .inline level hnames.1 hids.1)
        (forall₂_exprTexts arguments level hnames.2 hids.2) layout
  | .arrow params body, _, level, hnames, hids => by
      rw [Expr.verbatim, List.forall_mem_append] at hnames
      rw [Expr.elementIds] at hids
      have hbody := Expr.unescapes_text body .inline level hnames.2 hids
      simp only [Expr.text]
      exact (unescapes_paramsText hnames.1).append (unescapes_bodyText hbody body)
  | .arrowBlock params body, layout, level, hnames, hids => by
      rw [Expr.verbatim, List.forall_mem_append] at hnames
      rw [Expr.elementIds] at hids
      exact Expr.TextDecodes.arrowBlock hnames.1
        (unescapes_statementLines body (level + 1) hnames.2 hids) layout
  | .element id, _, level, _, hids => by
      simp only [Expr.text]
      exact hids id (by simp [Expr.elementIds]) level

theorem forall₂_exprTexts : ∀ (items : List Expr) (level : Nat),
    (∀ name ∈ verbatimOfAll items, Bare name) →
    (∀ id ∈ elementIdsOfAll items, ∀ level, Unescapes (element id level) (element' id level)) →
      List.Forall₂ Unescapes (exprTexts ⟨width, true⟩ element level items)
        (exprTexts ⟨width, false⟩ element' level items)
  | [], _, _, _ => by
      simp only [exprTexts]
      exact .nil
  | e :: rest, level, hnames, hids => by
      rw [verbatimOfAll, List.forall_mem_append] at hnames
      rw [elementIdsOfAll, List.forall_mem_append] at hids
      simp only [exprTexts]
      exact .cons (Expr.unescapes_text e .inline level hnames.1 hids.1)
        (forall₂_exprTexts rest level hnames.2 hids.2)

theorem forall₂_propertyTexts : ∀ (properties : List (String × Expr)) (level : Nat),
    (∀ name ∈ verbatimOfProperties properties, Bare name) →
    (∀ id ∈ elementIdsOfProperties properties, ∀ level,
      Unescapes (element id level) (element' id level)) →
      List.Forall₂ Unescapes (propertyTexts ⟨width, true⟩ element level properties)
        (propertyTexts ⟨width, false⟩ element' level properties)
  | [], _, _, _ => by
      simp only [propertyTexts]
      exact .nil
  | (name, value) :: rest, level, hnames, hids => by
      rw [verbatimOfProperties, List.forall_mem_append] at hnames
      rw [elementIdsOfProperties, List.forall_mem_append] at hids
      have hvalue := Expr.unescapes_text value .inline level hnames.1 hids.1
      simp only [propertyTexts]
      exact .cons (((unescapes_key name).append_bare (by decide)).append hvalue)
        (forall₂_propertyTexts rest level hnames.2 hids.2)

theorem unescapes_propertyLines : ∀ (properties : List (String × Expr)) (level : Nat),
    (∀ name ∈ verbatimOfProperties properties, Bare name) →
    (∀ id ∈ elementIdsOfProperties properties, ∀ level,
      Unescapes (element id level) (element' id level)) →
      Unescapes (propertyLines ⟨width, true⟩ element level properties)
        (propertyLines ⟨width, false⟩ element' level properties)
  | [], _, _, _ => by
      simp only [propertyLines]
      exact Bare.unescapes (by decide)
  | (name, value) :: rest, level, hnames, hids => by
      rw [verbatimOfProperties, List.forall_mem_append] at hnames
      rw [elementIdsOfProperties, List.forall_mem_append] at hids
      have hvalue := Expr.unescapes_text value .block level hnames.1 hids.1
      have hrest := unescapes_propertyLines rest level hnames.2 hids.2
      simp only [propertyLines]
      exact (((((bare_pad ⟨width, true⟩ level).unescapes.append (unescapes_key name)).append_bare
        (by decide)).append hvalue).append_bare (by decide)).append hrest

/-- The text of a statement decodes, if those of the elements it refers to do. -/
theorem Statement.unescapes_text : ∀ (s : Statement) (level : Nat),
    (∀ name ∈ s.verbatim, Bare name) →
    (∀ id ∈ s.elementIds, ∀ level, Unescapes (element id level) (element' id level)) →
      Unescapes (s.text ⟨width, true⟩ element level) (s.text ⟨width, false⟩ element' level)
  | .importing declaration, _, hnames, _ => by
      rw [Statement.verbatim] at hnames
      simp only [Statement.text]
      exact declaration.unescapes_text hnames
  | .constant pattern value, level, hnames, hids => by
      rw [Statement.verbatim, List.forall_mem_append] at hnames
      rw [Statement.elementIds] at hids
      have hvalue := Expr.unescapes_text value .block level hnames.2 hids
      simp only [Statement.text]
      exact (((pattern.unescapes_text hnames.1).enclose (by decide) (by decide)).append
        hvalue).append_bare (by decide)
  | .expr e, level, hnames, hids => by
      rw [Statement.verbatim] at hnames
      rw [Statement.elementIds] at hids
      simp only [Statement.text]
      exact (Expr.unescapes_text e .inline level hnames hids).append_bare (by decide)
  | .returning e, level, hnames, hids => by
      rw [Statement.verbatim] at hnames
      rw [Statement.elementIds] at hids
      have htext := Expr.unescapes_text e .inline level hnames hids
      cases he : e.element? with
      | none =>
          simp only [Statement.text, he]
          exact htext.enclose (by decide) (by decide)
      | some id =>
          -- An element that is returned is printed on lines of its own, without `Expr.text`.
          have hid : id ∈ e.elementIds := by
            cases e <;> simp_all [Expr.element?, Expr.elementIds]
          simp only [Statement.text, he]
          exact (((((Bare.unescapes (by decide)).append
            (bare_pad ⟨width, true⟩ (level + 1)).unescapes).append
            (hids id hid (level + 1))).append_bare (by decide)).append
            (bare_pad ⟨width, true⟩ level).unescapes).append_bare (by decide)
  | .exporting e, level, hnames, hids => by
      rw [Statement.verbatim] at hnames
      rw [Statement.elementIds] at hids
      simp only [Statement.text]
      exact unescapes_exportText (Expr.unescapes_text e .block level hnames hids)
  | .assign target value, level, hnames, hids => by
      rw [Statement.verbatim, List.forall_mem_append] at hnames
      rw [Statement.elementIds, List.forall_mem_append] at hids
      have htarget := Expr.unescapes_text target .inline level hnames.1 hids.1
      have hvalue := Expr.unescapes_text value .block level hnames.2 hids.2
      simp only [Statement.text]
      exact ((htarget.append_bare (by decide)).append hvalue).append_bare (by decide)

theorem unescapes_statementLines : ∀ (statements : List Statement) (level : Nat),
    (∀ name ∈ verbatimOfBlock statements, Bare name) →
    (∀ id ∈ elementIdsOfBlock statements, ∀ level,
      Unescapes (element id level) (element' id level)) →
      Unescapes (statementLines ⟨width, true⟩ element level statements)
        (statementLines ⟨width, false⟩ element' level statements)
  | [], _, _, _ => by
      simp only [statementLines]
      exact Bare.unescapes (by decide)
  | s :: rest, level, hnames, hids => by
      rw [verbatimOfBlock, List.forall_mem_append] at hnames
      rw [elementIdsOfBlock, List.forall_mem_append] at hids
      have hs := Statement.unescapes_text s level hnames.1 hids.1
      have hrest := unescapes_statementLines rest level hnames.2 hids.2
      simp only [statementLines]
      exact (hs.enclose (bare_pad ⟨width, true⟩ level) (by decide)).append hrest

end

theorem unescapes_textValue (s : String) :
    Unescapes (textValue ⟨width, true⟩ s) (textValue ⟨width, false⟩ s) := by
  unfold textValue
  split
  · exact unescapes_braced (unescapes_literal s)
  · next hs =>
    -- Entities stand for the double quotes of a text alone.
    have hchars : Bare (String.ofList
        (s.toList.flatMap fun c => if c == '"' then quoteEntity.toList else [c])) := by
      refine Literal.bare_ofList fun hmem => ?_
      obtain ⟨c, hc, hmem⟩ := List.mem_flatMap.mp hmem
      split at hmem
      · exact absurd hmem (by decide)
      · rw [List.mem_singleton] at hmem
        exact hs (List.contains_iff_mem.mpr (hmem ▸ hc))
    exact hchars.unescapes.enclose (by decide) (by decide)

theorem unescapes_plainText (s : String) :
    Unescapes (plainText ⟨width, true⟩ s) (plainText ⟨width, false⟩ s) := by
  unfold plainText
  split
  · exact unescapes_braced (unescapes_literal s)
  · next hs =>
    have hbare : Bare s := fun hmem => hs (List.any_eq_true.mpr ⟨'\\', hmem, by decide⟩)
    exact hbare.unescapes

theorem unescapes_attributeText {level : Nat} {name : String} {value : MarkupValue}
    (hname : Bare name) (hnames : ∀ name ∈ value.verbatim, Bare name)
    (hids : ∀ id ∈ value.elementIds, ∀ level, Unescapes (element id level) (element' id level)) :
    Unescapes (attributeText ⟨width, true⟩ element level name value)
      (attributeText ⟨width, false⟩ element' level name value) := by
  have hassigned : Bare (name ++ "=") := hname.append (by decide)
  cases value with
  | text s => exact hassigned.unescapes.append (unescapes_textValue s)
  | expr e =>
      exact hassigned.unescapes.append
        (unescapes_braced (Expr.unescapes_text e .inline level hnames hids))
  | flag => exact hname.unescapes

theorem MarkupChild.unescapes_code {level : Nat} {child : MarkupChild}
    (hnames : ∀ name ∈ child.verbatim, Bare name)
    (hids : ∀ id ∈ child.elementIds, ∀ level, Unescapes (element id level) (element' id level)) :
    Unescapes (child.code ⟨width, true⟩ element level)
      (child.code ⟨width, false⟩ element' level) := by
  cases child with
  | text s => exact unescapes_plainText s
  | element id => exact hids id (by simp [MarkupChild.elementIds]) level
  | expr e => exact unescapes_braced (Expr.unescapes_text e .inline level hnames hids)

/-- The text of an element decodes, if those of the elements inside it do. -/
theorem Markup.unescapes_text {level : Nat} {m : Markup} (hnames : ∀ name ∈ m.verbatim, Bare name)
    (hids : ∀ id ∈ m.elementIds, ∀ level, Unescapes (element id level) (element' id level)) :
    Unescapes (m.text ⟨width, true⟩ element level) (m.text ⟨width, false⟩ element' level) := by
  rw [Markup.elementIds, List.forall_mem_append] at hids
  rw [Markup.verbatim, List.cons_append, List.forall_mem_cons, List.forall_mem_append] at hnames
  obtain ⟨hname, hattributeNames, hchildNames⟩ := hnames
  have hattributes : Unescapes
      (String.join (m.attributes.map fun entry : String × MarkupValue =>
        " " ++ attributeText ⟨width, true⟩ element level entry.1 entry.2))
      (String.join (m.attributes.map fun entry : String × MarkupValue =>
        " " ++ attributeText ⟨width, false⟩ element' level entry.1 entry.2)) := by
    refine .join_map fun entry hentry => ?_
    obtain ⟨hentryName, hvalueNames⟩ := List.forall_mem_cons.mp fun name hname =>
      hattributeNames name (List.mem_flatMap_of_mem hentry hname)
    exact (Bare.unescapes (by decide)).append (unescapes_attributeText hentryName hvalueNames
      fun id hid => hids.1 id (List.mem_flatMap_of_mem hentry hid))
  have hchildren : ∀ child ∈ m.children, ∀ level, Unescapes
      (child.code ⟨width, true⟩ element level) (child.code ⟨width, false⟩ element' level) :=
    fun child hchild level => MarkupChild.unescapes_code
      (fun name hname => hchildNames name (List.mem_flatMap_of_mem hchild hname))
      fun id hid => hids.2 id (List.mem_flatMap_of_mem hchild hid)
  have hopening := ((by decide : Bare "<").append hname).unescapes.append hattributes
  have hclosing : Bare ("</" ++ m.name ++ ">") :=
    ((by decide : Bare "</").append hname).append (by decide)
  unfold Markup.text
  dsimp only
  split
  · split
    · exact hopening.append_bare (by decide)
    · exact (hopening.append_bare (by decide)).append_bare hclosing
  split
  · have hinline := Unescapes.join_map fun child hchild => hchildren child hchild level
    exact ((hopening.append_bare (by decide)).append hinline).append_bare hclosing
  · have hblock := Unescapes.join_map fun child hchild =>
      ((by decide : Bare "\n").append (bare_pad ⟨width, true⟩ (level + 1))).unescapes.append
        (hchildren child hchild (level + 1))
    exact ((((hopening.append_bare (by decide)).append hblock).append_bare (by decide)).append_bare
      (bare_pad ⟨width, true⟩ level)).append_bare hclosing

end Printing

/-! ## Whole scripts -/

namespace Arena

variable {a : Arena} {width : Nat}

theorem unescapes_elementText {roots : List ElementId}
    (h : ∀ id m, a.LooksUp roots id → a.get? id = some m → ∀ name ∈ m.verbatim, Bare name)
    (rounds : Nat) {id : ElementId} (hid : a.LooksUp roots id) (level : Nat) :
    Unescapes (a.elementText ⟨width, true⟩ rounds id level)
      (a.elementText ⟨width, false⟩ rounds id level) := by
  induction rounds generalizing id level with
  | zero => exact (by decide : Bare "").unescapes
  | succ rounds ih =>
      rw [elementText, elementText]
      cases hm : a.get? id with
      | none => exact (by decide : Bare "").unescapes
      | some m =>
          exact Markup.unescapes_text (h id m hid hm)
            fun inner hinner level => ih (.inside hid hm hinner) level

theorem Prints.mono {statements statements' : List Statement} (h : statements ⊆ statements')
    {name : String} (hname : a.Prints statements name) : a.Prints statements' name := by
  cases hname with
  | statement hmem =>
      rw [verbatimOfBlock_eq] at hmem
      obtain ⟨s, hs, hmem⟩ := List.mem_flatMap.mp hmem
      refine .statement ?_
      rw [verbatimOfBlock_eq]
      exact List.mem_flatMap_of_mem (h hs) hmem
  | element hid hm hmem =>
      refine .element (hid.mono fun id hroot => ?_) hm hmem
      rw [elementIdsOfBlock_eq] at hroot ⊢
      obtain ⟨s, hs, hroot⟩ := List.mem_flatMap.mp hroot
      exact List.mem_flatMap_of_mem (h hs) hroot

theorem unescapes_statementText {s : Statement} (h : ∀ name, a.Prints [s] name → Bare name) :
    Unescapes (a.statementText ⟨width, true⟩ s) (a.statementText ⟨width, false⟩ s) := by
  have hids : elementIdsOfBlock [s] = s.elementIds := by simp [elementIdsOfBlock]
  refine Statement.unescapes_text s 0 ?_ ?_
  · intro name hname
    exact h name (.statement (by simpa [verbatimOfBlock] using hname))
  · intro id hid
    refine unescapes_elementText (fun id m hid hm name hname => ?_) a.size (.root hid)
    exact h name (.element (hids ▸ hid) hm hname)

theorem unescapes_programText : ∀ {statements : List Statement},
    (∀ name, a.Prints statements name → Bare name) →
      Unescapes (a.programText ⟨width, true⟩ statements) (a.programText ⟨width, false⟩ statements)
  | [], _ => (by decide : Bare "").unescapes
  | [s], h => unescapes_statementText h
  | s :: t :: rest, h => by
      have hs : Unescapes (a.statementText ⟨width, true⟩ s) (a.statementText ⟨width, false⟩ s) :=
        unescapes_statementText fun name hname => h name (hname.mono (by simp))
      have hrest : Unescapes (a.programText ⟨width, true⟩ (t :: rest))
          (a.programText ⟨width, false⟩ (t :: rest)) :=
        unescapes_programText fun name hname => h name (hname.mono (List.subset_cons_self _ _))
      have hbreak : Bare (if s.isImport && t.isImport then "\n" else "\n\n") := by
        split <;> decide
      exact (hs.append_bare hbreak).append hrest

end Arena

/-- **Escaping and decoding is not escaping.**  For every script, with names without backslashes,
the text that is printed with all literals escaped decodes to the text that is printed with none. -/
theorem escaped_script_decodes (a : Arena) (width : Nat) (statements : List Statement)
    (h : ∀ name, a.Prints statements name → Bare name) :
    unicodeUnescape.process .js (a.programText ⟨width, true⟩ statements) =
      a.programText ⟨width, false⟩ statements :=
  (Arena.unescapes_programText h).unescape_eq

/-- A toast whose texts hold characters outside ASCII and backslashes before a `u`. -/
def toastArena : Arena where
  elements := #[
    { name := "b", children := [.text "\\u0041 é😀"] },
    { name := "p"
      attributes := [("title", .text "naïve"), ("lang", .text "\\é"),
        ("onClick", .expr (.arrow [] (.call (.ident "notify") [.str "\\\\u00e9\n😀é"])))]
      children := [.element 0] }]

/-- The script of the toast. -/
def toastScript : List Statement :=
  [.importing { source := "./größe", named := [{ imported := "notify", bound := "notify" }] },
    .constant (.name "Toast") (.arrowBlock [] [.returning (.element 1)])]

/-- The escapes in the script of the toast decode, and the backslashes in its texts stay. -/
theorem toast_decodes :
    (∀ name, toastArena.Prints toastScript name → Bare name) ∧
      toastArena.programText ⟨2, true⟩ toastScript =
        "import \x7b notify \x7d from './gr\\u00F6\\u00DFe';\n\nconst Toast = () => \x7b\n  return (\n" ++
        "    <p title=\"naïve\" lang=\x7b'\\\\\\u00E9'\x7d " ++
        "onClick=\x7b() => notify('\\\\\\\\u00e9\\n\\uD83D\\uDE00\\u00E9')\x7d>\n" ++
        "      <b>\x7b'\\\\u0041 \\u00E9\\uD83D\\uDE00'\x7d</b>\n    </p>\n  );\n\x7d;" ∧
      unicodeUnescape.process .js (toastArena.programText ⟨2, true⟩ toastScript) =
        "import \x7b notify \x7d from './größe';\n\nconst Toast = () => \x7b\n  return (\n" ++
        "    <p title=\"naïve\" lang=\x7b'\\\\é'\x7d " ++
        "onClick=\x7b() => notify('\\\\\\\\u00e9\\n😀é')\x7d>\n" ++
        "      <b>\x7b'\\\\u0041 é😀'\x7d</b>\n    </p>\n  );\n\x7d;" := by
  have hscript : ∀ name ∈ verbatimOfBlock toastScript, Bare name := by decide
  have helements : ∀ m ∈ toastArena.elements.toList, ∀ name ∈ m.verbatim, Bare name := by decide
  have hbare : ∀ name, toastArena.Prints toastScript name → Bare name := by
    intro name hname
    cases hname with
    | statement hmem => exact hscript name hmem
    | element _ hm hmem =>
        exact helements _ (Array.mem_toList_iff.mpr (Array.mem_of_getElem? hm)) name hmem
  refine ⟨hbare, by decide +kernel, ?_⟩
  rw [escaped_script_decodes toastArena 2 toastScript hbare]
  decide +kernel

end ViewGen
