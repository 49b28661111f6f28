import ViewGen.Proofs.FreshNames
import ViewGen.Proofs.InlineStyles

/-!
# Style sheets

A style sheet takes the literal values of every style, and the references stay with the element.
Each styled element has a class of its own, also if it has no literal value and so no rule.  The
sheet and the classes are made from the tree alone; it is only the attributes that depend on which
element is found under a key.

## Main definitions

* `literals` — the entries of a style that go to the style sheet
* `sheetRules` — the rules of the elements that have such entries
* `Overwritten` — a value after writes that replace each other
* `CompileOptions.Dressed` — a markup element before and after its classes and styles are set
* `CompileOptions.MovesStyles` — a draft before and after literal values go to a style sheet

## Main statements

* `exists_ends_className` — where the search for a class stops
* `className_notMem` — a class is none of those given out before
* `exists_classes` — styles are split into rules and properties, under different classes
* `Draft.rel_foldl_setStyled` — the last of the elements that are found at a position decide on the
  class and the style there
* `style_sheet_holds_literals` — a style sheet has all literal values under different classes, and
  an element that is found alone has its own class and references

## Design notes

Under a key that several elements have, the one compiled last is found.  The rules of all of them
are in the sheet, but only the last class and the last references are set, and all on one element.
-/

namespace ViewGen

/-! ## Literal values -/

/-- The literal value of an entry of a style. -/
def StyleValue.literal? : StyleValue → Option Scalar
  | .static value => some value
  | .dynamic _ => none

/-- The entries of a style that have literal values, in order. -/
def literals (style : Dict StyleValue) : List (String × Scalar) :=
  style.filterMap fun entry => entry.2.literal?.map (entry.1, ·)

/-- A declaration in a style sheet. -/
def declarationLine (entry : String × Scalar) : String :=
  "  " ++ Text.kebab entry.1 ++ ": " ++ cssValue entry.1 entry.2 ++ ";\n"

/-- A rule for a class. -/
def classRule (name : String) (entries : List (String × Scalar)) : String :=
  "." ++ name ++ " \x7b\n" ++ String.join (entries.map declarationLine) ++ "\x7d\n"

/-- The rules of the elements that have literal values, given their classes. -/
def sheetRules (classes : List (String × Element Node)) : List String :=
  (classes.filter fun c => !(literals c.2.style).isEmpty).map fun c =>
    classRule c.1 (literals c.2.style)

theorem declarations_eq_join (style : Dict StyleValue) :
    declarations style = String.join ((literals style).map declarationLine) := by
  induction style with
  | nil => rfl
  | cons entry rest ih =>
      obtain ⟨property, value⟩ := entry
      rw [declarations] at ih ⊢
      rw [List.map_cons, String.join_cons, ih]
      cases value with
      | static value =>
          have hfirst : literals ((property, .static value) :: rest) =
              (property, value) :: literals rest := rfl
          rw [hfirst, List.map_cons, String.join_cons]
          rfl
      | dynamic r =>
          have hfirst : literals ((property, .dynamic r) :: rest) = literals rest := rfl
          rw [hfirst]
          exact String.empty_append

theorem declarationLine_ne_empty (entry : String × Scalar) : declarationLine entry ≠ "" := by
  simp [declarationLine]

/-- A style without literal values is one without declarations. -/
theorem isEmpty_declarations (style : Dict StyleValue) :
    (declarations style).isEmpty = (literals style).isEmpty := by
  rw [declarations_eq_join]
  cases literals style with
  | nil => rfl
  | cons entry rest =>
      rw [List.map_cons, String.join_cons, List.isEmpty_cons, String.isEmpty_eq_false_iff]
      simp [declarationLine_ne_empty]

/-! ## Classes -/

open Text in
/-- A style is given the class at which the search among the numbered forms of its key stops. -/
theorem exists_ends_className (key : String) (taken : List String) :
    ∃ m, Ends (numbered (camel key)) taken (fun name => !taken.contains name) m ∧
      className key taken = numbered (camel key) m := by
  obtain ⟨m, hends⟩ := exists_ends_notMem (numbered_injective (camel key)) taken
  refine ⟨m, hends, ?_⟩
  rw [className, hends.firstNumbered_eq]
  rfl

/-- A class is none of those given out before. -/
theorem className_notMem (key : String) (taken : List String) : className key taken ∉ taken := by
  obtain ⟨m, hends, hname⟩ := exists_ends_className key taken
  rw [hname]
  simpa using hends.suits_eq

/-- What the style of an element with a class comes to. -/
structure CompileOptions.Splits (options : CompileOptions) (c : String × Element Node)
    (s : StyledElement) : Prop where
  key : s.key = c.2.key
  className : s.className = c.1
  declarations : s.declarations = String.join ((literals c.2.style).map declarationLine)
  hasRule : s.hasRule = !(literals c.2.style).isEmpty
  properties : List.Forall₂ options.Declares (styleReferences c.2.style) s.properties

/-- **Styles are split under different classes**, each one the key with a number perhaps. -/
theorem exists_classes {options : CompileOptions} {taken : List String}
    {styled : List (Element Node)} {styles : List StyledElement}
    (h : styledElements options taken styled = .ok styles) :
    ∃ classes : List (String × Element Node), classes.map (·.2) = styled ∧
      (classes.map (·.1)).Nodup ∧ (∀ name ∈ classes.map (·.1), name ∉ taken) ∧
      (∀ c ∈ classes, ∃ n, c.1 = Text.numbered (Text.camel c.2.key) n) ∧
      List.Forall₂ options.Splits classes styles := by
  induction styled generalizing taken styles with
  | nil =>
      obtain rfl := Except.ok.inj h
      exact ⟨[], rfl, .nil, by simp, by simp, .nil⟩
  | cons e rest ih =>
      obtain ⟨properties, hproperties, hrest⟩ := bind_eq_ok_iff.mp h
      obtain ⟨others, hothers, hstyles⟩ := bind_eq_ok_iff.mp hrest
      obtain rfl := Except.ok.inj hstyles
      obtain ⟨classes, rfl, hnodup, hfree, hnumbered, hsplits⟩ := ih hothers
      have hnew : className e.key taken ∉ classes.map (·.1) := fun hmem =>
        hfree _ hmem List.mem_cons_self
      refine ⟨(className e.key taken, e) :: classes, rfl, List.nodup_cons.mpr ⟨hnew, hnodup⟩,
        List.forall_mem_cons.mpr ⟨className_notMem e.key taken, fun name hname htaken =>
          hfree name hname (List.mem_cons_of_mem _ htaken)⟩,
        List.forall_mem_cons.mpr ⟨(exists_ends_className e.key taken).imp fun _ h => h.2, hnumbered⟩,
        .cons ⟨rfl, rfl, declarations_eq_join e.style, ?_,
          forall₂_of_styleProperties hproperties⟩ hsplits⟩
      exact congrArg (!·) (isEmpty_declarations e.style)

/-- The style sheet has the rules of the elements with literal values. -/
theorem styleSheet_of_splits {options : CompileOptions} {classes : List (String × Element Node)}
    {styles : List StyledElement} (h : List.Forall₂ options.Splits classes styles) :
    styleSheet styles = "\n".intercalate (sheetRules classes) := by
  suffices hrules : (styles.filter (·.hasRule)).map (·.rule) = sheetRules classes from
    congrArg _ hrules
  induction h with
  | nil => rfl
  | @cons c s classes styles hs _ ih =>
      rw [sheetRules, List.filter_cons, List.filter_cons, hs.hasRule]
      split
      · have hrule : s.rule = classRule c.1 (literals c.2.style) := by
          rw [StyledElement.rule, hs.className, hs.declarations]
          rfl
        rw [List.map_cons, List.map_cons, hrule, ih]
        rfl
      · exact ih

/-- There is a style sheet as soon as there is a rule. -/
theorem isEmpty_intercalate_sheetRules (classes : List (String × Element Node)) :
    ("\n".intercalate (sheetRules classes)).isEmpty = (sheetRules classes).isEmpty := by
  have hne : ∀ rule ∈ sheetRules classes, rule ≠ "" := by
    intro rule hrule
    obtain ⟨c, -, rfl⟩ := List.mem_map.mp hrule
    simp [classRule]
  generalize sheetRules classes = rules at hne
  cases rules with
  | nil =>
      rw [String.intercalate_nil]
      rfl
  | cons rule rest =>
      rw [List.isEmpty_cons, String.isEmpty_eq_false_iff]
      cases rest with
      | nil =>
          rw [String.intercalate_singleton]
          exact hne rule List.mem_cons_self
      | cons next rest =>
          rw [String.intercalate_cons_cons]
          simp

/-! ## Writes that replace each other -/

/-- A value before and after writes that replace each other: the last one stays, and without any
what was there. -/
structure Overwritten {α β : Type} (writes : α → Bool) (Value : α → β → Prop) (l : List α)
    (before after : Option β) : Prop where
  written : ∀ x, (l.filter writes).getLast? = some x → ∃ v, Value x v ∧ after = some v
  kept : l.filter writes = [] → after = before

namespace Overwritten

variable {α β : Type} {writes : α → Bool} {Value : α → β → Prop} {before between after : Option β}

theorem nil (before : Option β) : Overwritten writes Value [] before before :=
  ⟨fun _ hx => by simp at hx, fun _ => rfl⟩

theorem write {x : α} {v : β} (hx : writes x = true) (hv : Value x v) (before : Option β) :
    Overwritten writes Value [x] before (some v) := by
  have hfilter : [x].filter writes = [x] := List.filter_cons_of_pos hx
  refine ⟨fun y hy => ?_, fun hnone => ?_⟩
  · rw [hfilter] at hy
    obtain rfl := Option.some.inj hy
    exact ⟨v, hv, rfl⟩
  · rw [hfilter] at hnone
    exact absurd hnone (List.cons_ne_nil x [])

theorem skip {x : α} (hx : writes x = false) (before : Option β) :
    Overwritten writes Value [x] before before := by
  have hfilter : [x].filter writes = [] := List.filter_cons_of_neg (by simp [hx])
  exact ⟨fun y hy => by simp [hfilter] at hy, fun _ => rfl⟩

/-- Later writes go first. -/
theorem append {l later : List α} (h : Overwritten writes Value l before between)
    (hlater : Overwritten writes Value later between after) :
    Overwritten writes Value (l ++ later) before after := by
  by_cases hnone : later.filter writes = []
  · have hfilter : (l ++ later).filter writes = l.filter writes := by
      rw [List.filter_append, hnone, List.append_nil]
    obtain rfl := hlater.kept hnone
    exact ⟨fun x hx => h.written x (hfilter ▸ hx), fun hx => h.kept (hfilter ▸ hx)⟩
  · refine ⟨fun x hx => hlater.written x ?_, fun hx => ?_⟩
    · rw [List.filter_append, List.getLast?_append_of_ne_nil _ hnone] at hx
      exact hx
    · rw [List.filter_append] at hx
      exact absurd (List.append_eq_nil_iff.mp hx).2 hnone

end Overwritten

/-! ## Classes and styles on elements -/

/-- A markup element before and after the classes and styles of the elements that are found at its
position are set on it.  Nothing else changes. -/
structure CompileOptions.Dressed (options : CompileOptions) (classAttribute styles : String)
    (found : List (String × Element Node)) (m m' : Markup) : Prop where
  markup : m' = { m with attributes := m'.attributes }
  others : ∀ name, name ≠ classAttribute → name ≠ "style" →
    m'.attributes.get? name = m.attributes.get? name
  classed : Overwritten (fun c : String × Element Node => !(literals c.2.style).isEmpty)
    (fun c v => v = .expr (.member (.ident styles) c.1)) found
    (m.attributes.get? classAttribute) (m'.attributes.get? classAttribute)
  styled : Overwritten (fun c : String × Element Node => !(styleReferences c.2.style).isEmpty)
    (fun c v => ∃ properties, List.Forall₂ options.Declares (styleReferences c.2.style) properties ∧
      v = .expr (.object properties)) found
    (m.attributes.get? "style") (m'.attributes.get? "style")

/-- Set an attribute of a markup element, or leave it as it is. -/
def Markup.setIf (m : Markup) (writes : Bool) (name : String) (value : MarkupValue) : Markup :=
  if writes then m.set name value else m

namespace Markup

variable (m : Markup) (writes : Bool) (name : String) (value : MarkupValue)

theorem setIf_eq : m.setIf writes name value =
    { m with attributes := (m.setIf writes name value).attributes } := by
  cases writes <;> rfl

theorem get?_setIf_of_ne {other : String} (h : name ≠ other) :
    (m.setIf writes name value).attributes.get? other = m.attributes.get? other := by
  cases writes with
  | false => rfl
  | true => exact (m.attributes.get?_insert name value other).trans (if_neg h)

/-- Setting an attribute for one of several writers is a write. -/
theorem overwritten_setIf {α : Type} {writes : α → Bool} {Value : α → MarkupValue → Prop} {x : α}
    {value : MarkupValue} (hvalue : Value x value) :
    Overwritten writes Value [x] (m.attributes.get? name)
      ((m.setIf (writes x) name value).attributes.get? name) := by
  cases hx : writes x with
  | false => exact .skip hx _
  | true =>
      have hset : (m.setIf true name value).attributes.get? name = some value :=
        (m.attributes.get?_insert name value name).trans (if_pos rfl)
      rw [hset]
      exact .write hx hvalue _

end Markup

/-- A markup element with the class and the properties of a style. -/
def StyledElement.dress (s : StyledElement) (classAttribute styles : String) (m : Markup) :
    Markup :=
  (m.setIf s.hasRule classAttribute (.expr (.member (.ident styles) s.className))).setIf
    (!s.properties.isEmpty) "style" (.expr (.object s.properties))

section Dressed

variable {options : CompileOptions} {classAttribute styles : String}

theorem CompileOptions.Dressed.nil (m : Markup) :
    options.Dressed classAttribute styles [] m m :=
  ⟨rfl, fun _ _ _ => rfl, .nil _, .nil _⟩

theorem CompileOptions.Dressed.append {found later : List (String × Element Node)}
    {m m' m'' : Markup} (h : options.Dressed classAttribute styles found m m')
    (hlater : options.Dressed classAttribute styles later m' m'') :
    options.Dressed classAttribute styles (found ++ later) m m'' := by
  refine ⟨?_, fun name hclass hstyle => ?_, h.classed.append hlater.classed,
    h.styled.append hlater.styled⟩
  · rw [hlater.markup, h.markup]
  · rw [hlater.others name hclass hstyle, h.others name hclass hstyle]

/-- One style is set. -/
theorem CompileOptions.Splits.dressed (hclass : classAttribute ≠ "style")
    {c : String × Element Node} {s : StyledElement} (hs : options.Splits c s) (m : Markup) :
    options.Dressed classAttribute styles [c] m (s.dress classAttribute styles m) := by
  have hproperties : s.properties.isEmpty = (styleReferences c.2.style).isEmpty := by
    rw [Bool.eq_iff_iff, List.isEmpty_iff_length_eq_zero, List.isEmpty_iff_length_eq_zero,
      hs.properties.length_eq]
  rw [StyledElement.dress, hs.hasRule, hs.className, hproperties]
  refine ⟨?_, fun name hname hstyle => ?_, ?_, ?_⟩
  · rw [Markup.setIf_eq, Markup.setIf_eq m]
  · rw [Markup.get?_setIf_of_ne _ _ _ _ (Ne.symm hstyle),
      Markup.get?_setIf_of_ne _ _ _ _ (Ne.symm hname)]
  · rw [Markup.get?_setIf_of_ne _ _ _ _ (Ne.symm hclass)]
    exact m.overwritten_setIf classAttribute rfl
  · have hbefore := m.get?_setIf_of_ne (!(literals c.2.style).isEmpty) classAttribute
      (.expr (.member (.ident styles) c.1)) hclass
    rw [← hbefore]
    exact Markup.overwritten_setIf _ "style" ⟨s.properties, hs.properties, rfl⟩

namespace Draft

theorem lookup_setStyled (d : Draft) (s : StyledElement) :
    (d.setStyled classAttribute styles s).workspace.lookup = d.workspace.lookup := by
  obtain ⟨arena, hset⟩ := d.exists_setStyled classAttribute styles s
  rw [hset]
  rfl

/-- A class and a style are set on the element that is found under the key. -/
theorem get?_setStyled (d : Draft) (s : StyledElement) (id : ElementId) :
    (d.setStyled classAttribute styles s).arena.get? id =
      if d.workspace.lookup.get? s.key = some id then
        (d.arena.get? id).map (s.dress classAttribute styles)
      else d.arena.get? id := by
  unfold setStyled StyledElement.dress Markup.setIf
  cases s.hasRule <;> cases s.properties.isEmpty <;>
    simp only [if_true, if_false, get?_setOn, lookup_setOn, Bool.not_true, Bool.not_false,
      Bool.false_eq_true] <;> split <;> simp [Function.comp_def]

/-- **The last of the elements that are found at a position decide on the class and the style
there.** -/
theorem rel_foldl_setStyled (hclass : classAttribute ≠ "style")
    {classes : List (String × Element Node)} {split : List StyledElement}
    (h : List.Forall₂ options.Splits classes split) (d : Draft) (id : ElementId) :
    Option.Rel (options.Dressed classAttribute styles
        (classes.filter fun c => d.workspace.lookup.get? c.2.key = some id))
      (d.arena.get? id)
      ((split.foldl (setStyled classAttribute styles) d).arena.get? id) := by
  induction h generalizing d with
  | nil =>
      show Option.Rel _ (d.arena.get? id) (d.arena.get? id)
      cases d.arena.get? id with
      | none => exact .none
      | some m => exact .some (.nil m)
  | @cons c s classes split hs _ ih =>
      have hlater := ih (d.setStyled classAttribute styles s)
      rw [← List.foldl_cons, lookup_setStyled, get?_setStyled, hs.key] at hlater
      generalize ((s :: split).foldl (setStyled classAttribute styles) d).arena.get? id = after
        at hlater ⊢
      by_cases hfound : d.workspace.lookup.get? c.2.key = some id
      · rw [if_pos hfound] at hlater
        rw [List.filter_cons_of_pos (by simpa using hfound)]
        generalize d.arena.get? id = before at hlater ⊢
        cases before with
        | none =>
            cases hlater
            exact .none
        | some m =>
            cases hlater with
            | some hm => exact .some ((hs.dressed hclass m).append hm)
      · rw [if_neg hfound] at hlater
        rw [List.filter_cons_of_neg (by simpa using hfound)]
        exact hlater

end Draft

/-- The class and the references of an element that is found alone at a position are set there. -/
theorem CompileOptions.Dressed.own {c : String × Element Node} {m m' : Markup}
    (h : options.Dressed classAttribute styles [c] m m') :
    (literals c.2.style ≠ [] → m'.attributes.get? classAttribute =
        some (.expr (.member (.ident styles) c.1))) ∧
      (styleReferences c.2.style ≠ [] → ∃ properties,
        List.Forall₂ options.Declares (styleReferences c.2.style) properties ∧
          m'.attributes.get? "style" = some (.expr (.object properties))) := by
  have hlast : ∀ {writes : String × Element Node → Bool}, writes c = true →
      ([c].filter writes).getLast? = some c := fun hwrites => by
    rw [List.filter_cons_of_pos hwrites]
    rfl
  constructor
  · intro hliterals
    obtain ⟨_, rfl, hvalue⟩ := h.classed.written c (hlast (by simpa using hliterals))
    exact hvalue
  · intro hreferences
    obtain ⟨_, ⟨properties, hproperties, rfl⟩, hvalue⟩ :=
      h.styled.written c (hlast (by simpa using hreferences))
    exact ⟨properties, hproperties, hvalue⟩

end Dressed

/-! ## Drafts -/

/-- A draft before and after literal values are moved to a style sheet, given the classes of the
styled elements and the name that the sheet is imported under. -/
structure CompileOptions.MovesStyles (options : CompileOptions) (classAttribute : String)
    (classes : List (String × Element Node)) (styles : String) (d d' : Draft) : Prop where
  /-- All styled elements have classes, in the order of the tree. -/
  elements : classes.map (·.2) = d.styled
  distinct : (classes.map (·.1)).Nodup
  numbered : ∀ c ∈ classes, ∃ n, c.1 = Text.numbered (Text.camel c.2.key) n
  /-- Without literal values there is no sheet and no import. -/
  plain : (∀ e ∈ d.styled, literals e.style = []) →
    d'.chunks = d.chunks ∧ d'.imports = d.imports
  /-- With literal values there is a sheet of their rules. -/
  sheet : (∃ e ∈ d.styled, literals e.style ≠ []) →
    d'.chunks = Chunk.put ⟨ChunkName.styleSheet, .css,
      .text ("\n".intercalate (sheetRules classes)), []⟩ d.chunks ∧
    d.imports.register "styles" (.ofProject ("./" ++ d.fileName ++ ".css")) = (styles, d'.imports)
  /-- Each markup element is dressed for the styled elements that are found at its position. -/
  dressed : ∀ id, Option.Rel (options.Dressed classAttribute styles
      (classes.filter fun c => d.workspace.lookup.get? c.2.key = some id))
    (d.arena.get? id) (d'.arena.get? id)

/-- There are no rules if there are no literal values. -/
theorem sheetRules_eq_nil_iff {classes : List (String × Element Node)} :
    sheetRules classes = [] ↔ ∀ e ∈ classes.map (·.2), literals e.style = [] := by
  rw [List.forall_mem_map]
  simp [sheetRules]

theorem exists_movesStyles {options : CompileOptions} {classAttribute : String}
    (hclass : classAttribute ≠ "style") {d d' : Draft}
    (h : d.moveStyles classAttribute options = .ok d') :
    ∃ classes styles, options.MovesStyles classAttribute classes styles d d' := by
  obtain ⟨split, hsplit, hmoved⟩ := bind_eq_ok_iff.mp h
  obtain ⟨classes, hstyled, hnodup, -, hnumbered, hsplits⟩ := exists_classes hsplit
  have hempty : (styleSheet split).isEmpty = true ↔ ∀ e ∈ d.styled, literals e.style = [] := by
    rw [styleSheet_of_splits hsplits, isEmpty_intercalate_sheetRules, List.isEmpty_iff,
      sheetRules_eq_nil_iff, hstyled]
  by_cases hnone : ∀ e ∈ d.styled, literals e.style = []
  · rw [if_pos (hempty.mpr hnone)] at hmoved
    obtain rfl := Except.ok.inj hmoved
    obtain ⟨arena, hset⟩ := Draft.exists_foldl_setStyled classAttribute "" split d
    refine ⟨classes, "", hstyled, hnodup, hnumbered, fun _ => ?_,
      fun ⟨e, he, hne⟩ => absurd (hnone e he) hne, Draft.rel_foldl_setStyled hclass hsplits d⟩
    rw [hset]
    exact ⟨rfl, rfl⟩
  · rw [if_neg (mt hempty.mp hnone), styleSheet_of_splits hsplits] at hmoved
    let registered := d.register "styles" (.ofProject ("./" ++ d.fileName ++ ".css"))
    obtain rfl : Draft.put (split.foldl (Draft.setStyled classAttribute registered.1) registered.2)
        ⟨ChunkName.styleSheet, .css, .text ("\n".intercalate (sheetRules classes)), []⟩ = d' :=
      Except.ok.inj hmoved
    obtain ⟨arena, hset⟩ :=
      Draft.exists_foldl_setStyled classAttribute registered.1 split registered.2
    refine ⟨classes, registered.1, hstyled, hnodup, hnumbered, fun hall => absurd hall hnone,
      fun _ => ?_, Draft.rel_foldl_setStyled hclass hsplits registered.2⟩
    rw [hset]
    exact ⟨rfl, rfl⟩

/-- An element is alone among those with classes if it is among all styled ones. -/
theorem filter_classes_eq_singleton (found : Element Node → Bool)
    {classes : List (String × Element Node)} {c : String × Element Node} (hc : c ∈ classes)
    (hfound : found c.2 = true) (halone : (classes.map (·.2)).countP found = 1) :
    (classes.filter fun c => found c.2) = [c] := by
  rw [List.countP_map, List.countP_eq_length_filter] at halone
  obtain ⟨only, honly⟩ := List.length_eq_one_iff.mp halone
  have hmem : c ∈ classes.filter (found ∘ (·.2)) := List.mem_filter.mpr ⟨hc, hfound⟩
  rw [honly, List.mem_singleton] at hmem
  exact honly.trans (congrArg (fun c => [c]) hmem.symm)

/-- **A style sheet has the literal values of all styles, each style under a class of its own.**
There is one rule for each styled element that has literal values, in the order of the tree.  If no
element has any there is no sheet, and no import.  On what is found under the keys of several styled
elements the last class and the last references stay; an element that is found alone has its own. -/
theorem style_sheet_holds_literals (options : CompileOptions) {classAttribute : String}
    (hclass : classAttribute ≠ "style") {d d' : Draft}
    (h : (styleSheetPass classAttribute options).run d = .ok d') :
    ∃ classes styles, options.MovesStyles classAttribute classes styles d d' ∧
      ∀ c ∈ classes, ∀ id m, d.workspace.lookup.get? c.2.key = some id →
        d.styled.countP (fun e => d.workspace.lookup.get? e.key = some id) = 1 →
        d.arena.get? id = some m → ∃ m', d'.arena.get? id = some m' ∧
          (literals c.2.style ≠ [] → m'.attributes.get? classAttribute =
            some (.expr (.member (.ident styles) c.1))) ∧
          (styleReferences c.2.style ≠ [] → ∃ properties,
            List.Forall₂ options.Declares (styleReferences c.2.style) properties ∧
              m'.attributes.get? "style" = some (.expr (.object properties))) := by
  obtain ⟨classes, styles, hmoves⟩ := exists_movesStyles hclass h
  refine ⟨classes, styles, hmoves, fun c hc id m hfound halone hm => ?_⟩
  have hown := hmoves.dressed id
  rw [filter_classes_eq_singleton (fun e => d.workspace.lookup.get? e.key = some id) hc
    (by simpa using hfound) (hmoves.elements ▸ halone), hm] at hown
  generalize d'.arena.get? id = after at hown ⊢
  cases hown with
  | some hm' => exact ⟨_, rfl, hm'.own⟩

/-- A poster whose elements are compiled.  It has two titles, whose keys are the same in camel case,
and a text without literal values. -/
def poster : Draft where
  component := {
    name := "Poster"
    node := .element {
      tag := "div"
      children := [
        .element {
          tag := "h1"
          key := "title-1"
          style := [("color", .dynamic ⟨"color", .prop⟩), ("textAlign", .static (.text "left"))] },
        .element { tag := "h2", key := "title1", style := [("margin", .static (.text "auto"))] },
        .element {
          tag := "p"
          key := "title"
          style := [("color", .dynamic ⟨"color", .prop⟩)] }] } }
  fileName := "poster"
  workspace := {
    arena := ⟨#[{ name := "h1" }, { name := "h2" }, { name := "p" },
      { name := "div", children := [.element 0, .element 1, .element 2] }]⟩
    lookup := [("title-1", 0), ("title1", 1), ("title", 2)] }

/-- Both titles of the poster have rules, and all three elements have their own classes and
references. -/
theorem poster_keeps_styles :
    ∃ d' classes styles, (styleSheetPass "className" {}).run poster = .ok d' ∧
      CompileOptions.MovesStyles {} "className" classes styles poster d' ∧
      classes.map (·.2.key) = ["title-1", "title1", "title"] ∧
      d'.chunks = [⟨ChunkName.styleSheet, .css, .text
        (".title1 \x7b\n  text-align: left;\n\x7d\n" ++ "\n" ++
          ".title12 \x7b\n  margin: auto;\n\x7d\n"), []⟩] ∧
      ∀ c ∈ classes, ∃ id m', poster.workspace.lookup.get? c.2.key = some id ∧
        d'.arena.get? id = some m' ∧
        (literals c.2.style ≠ [] → m'.attributes.get? "className" =
          some (.expr (.member (.ident styles) c.1))) ∧
        (styleReferences c.2.style ≠ [] → ∃ properties,
          List.Forall₂ (CompileOptions.Declares {}) (styleReferences c.2.style) properties ∧
            m'.attributes.get? "style" = some (.expr (.object properties))) := by
  have hrun : (styleSheetPass "className" {}).run poster = .ok _ := rfl
  have halone : ∀ e ∈ poster.styled, ∃ id m, poster.workspace.lookup.get? e.key = some id ∧
      poster.styled.countP (fun e => poster.workspace.lookup.get? e.key = some id) = 1 ∧
      poster.arena.get? id = some m := by
    have hstyled : poster.styled = [_, _, _] := rfl
    rw [hstyled]
    simp only [List.forall_mem_cons]
    exact ⟨⟨0, _, rfl, rfl, rfl⟩, ⟨1, _, rfl, rfl, rfl⟩, ⟨2, _, rfl, rfl, rfl⟩, by simp⟩
  obtain ⟨classes, styles, hmoves, hown⟩ := style_sheet_holds_literals {} (by decide) hrun
  refine ⟨_, classes, styles, hrun, hmoves, ?_, rfl, fun c hc => ?_⟩
  · have hkeys := congrArg (List.map (·.key)) hmoves.elements
    rw [List.map_map] at hkeys
    exact hkeys
  · have hstyled : c.2 ∈ poster.styled := hmoves.elements ▸ List.mem_map_of_mem hc
    obtain ⟨id, m, hfound, hcount, hm⟩ := halone c.2 hstyled
    obtain ⟨m', hm', hset⟩ := hown c hc id m hfound hcount hm
    exact ⟨id, m', hfound, hm', hset⟩

/-- A caption of two texts with one key, each with a reference in its style. -/
def caption : Component where
  name := "Caption"
  props := [("color", { type := .string }), ("size", { type := .string })]
  node := .element {
    tag := "div"
    children := [
      .element { tag := "p", key := "text", style := [("color", .dynamic ⟨"color", .prop⟩)] },
      .element { tag := "em", key := "text", style := [("fontSize", .dynamic ⟨"size", .prop⟩)] }] }

/-- The second text is found under the key of both, and the first one has no style. -/
theorem caption_loses_reference :
    let o : GeneratorOptions := { stylePlace := .cssModules }
    ∃ d, (Generator.ofOptions o).generate caption =
        .ok ⟨(Generator.ofOptions o).emit d, d.imports⟩ ∧
      runPasses o.passes { component := caption, fileName := "caption" } = .ok d ∧
      d.styled.map (fun e => (e.tag, (styleReferences e.style).map (·.1))) =
        [("p", ["color"]), ("em", ["fontSize"])] ∧
      (d.arena.get? 0).map (fun m => (m.name, m.attributes.keys)) = some ("p", []) ∧
      (d.arena.get? 1).map (fun m => (m.name, m.attributes)) =
        some ("em", [("style", .expr (.object [("fontSize", .member (.ident "props") "size")]))]) :=
  ⟨_, rfl, rfl, rfl, rfl, rfl⟩

end ViewGen
