import ViewGen.Chunk.Basic
import ViewGen.Compile.Expression
import ViewGen.Proofs.Dictionaries

/-!
# References to elements

A script refers to markup elements by their position in an arena, and elements refer to the
elements inside them in the same way.  This module says which positions printing a script looks up,
and when all of them are there.

## Main definitions

* `Expr.elementIds`, `Statement.elementIds`, `Markup.elementIds` — the positions that a piece of
  syntax refers to, in the order in which they are printed
* `Arena.LooksUp` — the positions that are looked up when pieces of syntax are printed
* `Arena.Descends` — every element refers to elements before it only
* `Arena.Extends` — an arena with all elements of another one, in their places
* `Chunk.PrintsInside` — printing a chunk finds every element it looks up

## Main statements

* `Arena.programText_congr` — printing reads an arena at the positions it looks up, and nowhere else
* `Arena.Descends.lt_size_of_looksUp` — no lookup leaves a descending arena
* `Arena.Descends.printsInside` — so printing finds every element it looks up

## Design notes

`LooksUp` is a relation rather than a list, so that it needs no bound on how deep elements are
nested: the rounds of `Arena.elementText` do not show in it.
-/

namespace ViewGen

/-! ## The positions in a piece of syntax -/

mutual

/-- The positions of the elements that an expression refers to. -/
def Expr.elementIds : Expr → List ElementId
  | .ident _ | .str _ | .num _ | .bool _ | .null => []
  | .member object _ => Expr.elementIds object
  | .array items => elementIdsOfAll items
  | .object properties => elementIdsOfProperties properties
  | .compare _ left right => Expr.elementIds left ++ Expr.elementIds right
  | .logical _ left right => Expr.elementIds left ++ Expr.elementIds right
  | .not argument => Expr.elementIds argument
  | .call callee arguments => Expr.elementIds callee ++ elementIdsOfAll arguments
  | .arrow _ body => Expr.elementIds body
  | .arrowBlock _ body => elementIdsOfBlock body
  | .element id => [id]

/-- The positions in a list of expressions. -/
def elementIdsOfAll : List Expr → List ElementId
  | [] => []
  | e :: rest => Expr.elementIds e ++ elementIdsOfAll rest

/-- The positions in a list of properties. -/
def elementIdsOfProperties : List (String × Expr) → List ElementId
  | [] => []
  | (_, value) :: rest => Expr.elementIds value ++ elementIdsOfProperties rest

/-- The positions of the elements that a statement refers to. -/
def Statement.elementIds : Statement → List ElementId
  | .importing _ => []
  | .constant _ value => Expr.elementIds value
  | .expr e => Expr.elementIds e
  | .returning e => Expr.elementIds e
  | .exporting e => Expr.elementIds e
  | .assign target value => Expr.elementIds target ++ Expr.elementIds value

/-- The positions in a list of statements. -/
def elementIdsOfBlock : List Statement → List ElementId
  | [] => []
  | s :: rest => Statement.elementIds s ++ elementIdsOfBlock rest

end

/-- The positions in the value of an attribute. -/
def MarkupValue.elementIds : MarkupValue → List ElementId
  | .expr e => e.elementIds
  | .text _ | .flag => []

/-- The positions in a child. -/
def MarkupChild.elementIds : MarkupChild → List ElementId
  | .element id => [id]
  | .expr e => e.elementIds
  | .text _ => []

/-- The positions of the elements inside an element. -/
def Markup.elementIds (m : Markup) : List ElementId :=
  m.attributes.flatMap (fun entry => entry.2.elementIds) ++
    m.children.flatMap MarkupChild.elementIds

/-- The positions in what a node compiles to. -/
def Target.elementIds : Target → List ElementId
  | .element id => [id]
  | .expr e => e.elementIds
  | .text _ => []

/-- The positions in the statements of a chunk. -/
def Chunk.elementIds (c : Chunk) : List ElementId :=
  match c.content with
  | .script statements => elementIdsOfBlock statements
  | .markup _ | .text _ => []

theorem elementIdsOfAll_eq (items : List Expr) :
    elementIdsOfAll items = items.flatMap Expr.elementIds := by
  induction items with
  | nil => rfl
  | cons e rest ih => rw [elementIdsOfAll, ih, List.flatMap_cons]

theorem elementIdsOfProperties_eq (properties : List (String × Expr)) :
    elementIdsOfProperties properties = properties.flatMap fun entry => entry.2.elementIds := by
  induction properties with
  | nil => rfl
  | cons entry rest ih => rw [elementIdsOfProperties, ih, List.flatMap_cons]

theorem elementIdsOfBlock_eq (statements : List Statement) :
    elementIdsOfBlock statements = statements.flatMap Statement.elementIds := by
  induction statements with
  | nil => rfl
  | cons s rest ih => rw [elementIdsOfBlock, ih, List.flatMap_cons]

@[simp] theorem Target.elementIds_toExpr (t : Target) : t.toExpr.elementIds = t.elementIds := by
  cases t <;> rfl

@[simp] theorem Target.elementIds_toChild (t : Target) : t.toChild.elementIds = t.elementIds := by
  cases t <;> rfl

@[simp] theorem Target.elementIds_toValue (t : Target) : t.toValue.elementIds = t.elementIds := by
  cases t <;> rfl

/-! ## Printing reads the positions it refers to -/

section Printing

variable {style : Style} {element element' : ElementId → Nat → String}

mutual

/-- The text of an expression depends on the texts of the elements it refers to alone. -/
theorem Expr.text_congr : ∀ (e : Expr) (layout : Layout) (level : Nat),
    (∀ id ∈ e.elementIds, element id = element' id) →
      e.text style element layout level = e.text style element' layout level
  | .ident _, _, _, _ => by simp only [Expr.text]
  | .str _, _, _, _ => by simp only [Expr.text]
  | .num _, _, _, _ => by simp only [Expr.text]
  | .bool _, _, _, _ => by simp only [Expr.text]
  | .null, _, _, _ => by simp only [Expr.text]
  | .member object _, _, level, h => by
      rw [Expr.elementIds] at h
      simp only [Expr.text, Expr.text_congr object .inline level h]
  | .array items, _, level, h => by
      rw [Expr.elementIds] at h
      simp only [Expr.text, exprTexts_congr items level h]
  | .object [], _, _, _ => by simp only [Expr.text]
  | .object (property :: properties), layout, level, h => by
      rw [Expr.elementIds] at h
      cases layout with
      | inline => simp only [Expr.text, propertyTexts_congr (property :: properties) level h]
      | block => simp only [Expr.text, propertyLines_congr (property :: properties) (level + 1) h]
  | .compare _ left right, _, level, h => by
      rw [Expr.elementIds, List.forall_mem_append] at h
      simp only [Expr.text, Expr.text_congr left .inline level h.1,
        Expr.text_congr right .inline level h.2]
  | .logical _ left right, _, level, h => by
      rw [Expr.elementIds, List.forall_mem_append] at h
      simp only [Expr.text, Expr.text_congr left .inline level h.1,
        Expr.text_congr right .inline level h.2]
  | .not argument, _, level, h => by
      rw [Expr.elementIds] at h
      simp only [Expr.text, Expr.text_congr argument .inline level h]
  | .call callee arguments, _, level, h => by
      rw [Expr.elementIds, List.forall_mem_append] at h
      simp only [Expr.text, Expr.text_congr callee .inline level h.1,
        exprTexts_congr arguments level h.2]
  | .arrow _ body, _, level, h => by
      rw [Expr.elementIds] at h
      simp only [Expr.text, Expr.text_congr body .inline level h]
  | .arrowBlock _ body, _, level, h => by
      rw [Expr.elementIds] at h
      simp only [Expr.text, statementLines_congr body (level + 1) h]
  | .element id, _, level, h => by
      simp only [Expr.text, h id (by simp [Expr.elementIds])]

theorem exprTexts_congr : ∀ (items : List Expr) (level : Nat),
    (∀ id ∈ elementIdsOfAll items, element id = element' id) →
      exprTexts style element level items = exprTexts style element' level items
  | [], _, _ => by simp only [exprTexts]
  | e :: rest, level, h => by
      rw [elementIdsOfAll, List.forall_mem_append] at h
      simp only [exprTexts, Expr.text_congr e .inline level h.1, exprTexts_congr rest level h.2]

theorem propertyTexts_congr : ∀ (properties : List (String × Expr)) (level : Nat),
    (∀ id ∈ elementIdsOfProperties properties, element id = element' id) →
      propertyTexts style element level properties = propertyTexts style element' level properties
  | [], _, _ => by simp only [propertyTexts]
  | (_, value) :: rest, level, h => by
      rw [elementIdsOfProperties, List.forall_mem_append] at h
      simp only [propertyTexts, Expr.text_congr value .inline level h.1,
        propertyTexts_congr rest level h.2]

theorem propertyLines_congr : ∀ (properties : List (String × Expr)) (level : Nat),
    (∀ id ∈ elementIdsOfProperties properties, element id = element' id) →
      propertyLines style element level properties = propertyLines style element' level properties
  | [], _, _ => by simp only [propertyLines]
  | (_, value) :: rest, level, h => by
      rw [elementIdsOfProperties, List.forall_mem_append] at h
      simp only [propertyLines, Expr.text_congr value .block level h.1,
        propertyLines_congr rest level h.2]

/-- The text of a statement depends on the texts of the elements it refers to alone. -/
theorem Statement.text_congr : ∀ (s : Statement) (level : Nat),
    (∀ id ∈ s.elementIds, element id = element' id) →
      s.text style element level = s.text style element' level
  | .importing _, _, _ => by simp only [Statement.text]
  | .constant _ value, level, h => by
      rw [Statement.elementIds] at h
      simp only [Statement.text, Expr.text_congr value .block level h]
  | .expr e, level, h => by
      rw [Statement.elementIds] at h
      simp only [Statement.text, Expr.text_congr e .inline level h]
  | .returning e, level, h => by
      rw [Statement.elementIds] at h
      have htext : e.text style element .inline level = e.text style element' .inline level :=
        Expr.text_congr e .inline level h
      cases he : e.element? with
      | none => simp only [Statement.text, he, htext]
      | some id =>
          -- An element that is returned is printed on lines of its own, without `Expr.text`.
          have hid : id ∈ e.elementIds := by
            cases e <;> simp_all [Expr.element?, Expr.elementIds]
          simp only [Statement.text, he, h id hid]
  | .exporting e, level, h => by
      rw [Statement.elementIds] at h
      simp only [Statement.text, Expr.text_congr e .block level h]
  | .assign target value, level, h => by
      rw [Statement.elementIds, List.forall_mem_append] at h
      simp only [Statement.text, Expr.text_congr target .inline level h.1,
        Expr.text_congr value .block level h.2]

theorem statementLines_congr : ∀ (statements : List Statement) (level : Nat),
    (∀ id ∈ elementIdsOfBlock statements, element id = element' id) →
      statementLines style element level statements = statementLines style element' level statements
  | [], _, _ => by simp only [statementLines]
  | s :: rest, level, h => by
      rw [elementIdsOfBlock, List.forall_mem_append] at h
      simp only [statementLines, Statement.text_congr s level h.1,
        statementLines_congr rest level h.2]

end

theorem attributeText_congr {level : Nat} {name : String} {value : MarkupValue}
    (h : ∀ id ∈ value.elementIds, element id = element' id) :
    attributeText style element level name value = attributeText style element' level name value := by
  cases value with
  | text s => rfl
  | flag => rfl
  | expr e => rw [attributeText, attributeText, Expr.text_congr e .inline level h]

theorem MarkupChild.code_congr {level : Nat} {child : MarkupChild}
    (h : ∀ id ∈ child.elementIds, element id = element' id) :
    child.code style element level = child.code style element' level := by
  cases child with
  | text s => rfl
  | element id => rw [MarkupChild.code, MarkupChild.code, h id (by simp [MarkupChild.elementIds])]
  | expr e => rw [MarkupChild.code, MarkupChild.code, Expr.text_congr e .inline level h]

/-- The text of an element depends on the texts of the elements inside it alone. -/
theorem Markup.text_congr {level : Nat} {m : Markup}
    (h : ∀ id ∈ m.elementIds, element id = element' id) :
    m.text style element level = m.text style element' level := by
  rw [Markup.elementIds, List.forall_mem_append] at h
  have hattributes : m.attributes.map (fun entry : String × MarkupValue =>
        " " ++ attributeText style element level entry.1 entry.2) =
      m.attributes.map fun entry => " " ++ attributeText style element' level entry.1 entry.2 := by
    refine List.map_congr_left fun entry hentry => ?_
    rw [attributeText_congr fun id hid => h.1 id (List.mem_flatMap_of_mem hentry hid)]
  have hchildren : ∀ child ∈ m.children, ∀ level,
      child.code style element level = child.code style element' level :=
    fun child hchild level =>
      MarkupChild.code_congr fun id hid => h.2 id (List.mem_flatMap_of_mem hchild hid)
  have hinline : m.children.map (·.code style element level) =
      m.children.map (·.code style element' level) :=
    List.map_congr_left fun child hchild => hchildren child hchild level
  have hblock : m.children.map (fun child =>
        "\n" ++ style.pad (level + 1) ++ child.code style element (level + 1)) =
      m.children.map fun child =>
        "\n" ++ style.pad (level + 1) ++ child.code style element' (level + 1) :=
    List.map_congr_left fun child hchild => by rw [hchildren child hchild]
  simp only [Markup.text, hattributes, hinline, hblock]

end Printing

namespace Arena

/-- The positions that are looked up in an arena when pieces of syntax that refer to `roots` are
printed: those, and all that the elements found there refer to. -/
inductive LooksUp (a : Arena) (roots : List ElementId) : ElementId → Prop
  | root {id : ElementId} : id ∈ roots → LooksUp a roots id
  | inside {id inner : ElementId} {m : Markup} : LooksUp a roots id → a.get? id = some m →
      inner ∈ m.elementIds → LooksUp a roots inner

/-- Fewer roots look up less. -/
theorem LooksUp.mono {a : Arena} {roots roots' : List ElementId} (h : roots ⊆ roots')
    {id : ElementId} (hid : a.LooksUp roots id) : a.LooksUp roots' id := by
  induction hid with
  | root hroot => exact .root (h hroot)
  | inside _ hm hinner ih => exact .inside ih hm hinner

/-- Two arenas with the same elements at the positions that are looked up give these elements the
same text. -/
theorem elementText_congr {a b : Arena} {style : Style} {roots : List ElementId}
    (h : ∀ id, a.LooksUp roots id → a.get? id = b.get? id) (rounds : Nat) {id : ElementId}
    (hid : a.LooksUp roots id) : a.elementText style rounds id = b.elementText style rounds id := by
  induction rounds generalizing id with
  | zero => rfl
  | succ rounds ih =>
      funext level
      rw [elementText, elementText, ← h id hid]
      cases hm : a.get? id with
      | none => rfl
      | some m =>
          refine Markup.text_congr fun inner hinner => ?_
          exact ih (.inside hid hm hinner)

theorem statementText_congr {a b : Arena} {style : Style} (hsize : a.size = b.size) {s : Statement}
    (h : ∀ id, a.LooksUp s.elementIds id → a.get? id = b.get? id) :
    a.statementText style s = b.statementText style s := by
  rw [statementText, statementText, ← hsize]
  exact Statement.text_congr s 0 fun id hid => elementText_congr h a.size (.root hid)

/-- **Printing reads an arena at the positions it looks up, and nowhere else.** -/
theorem programText_congr {a b : Arena} {style : Style} (hsize : a.size = b.size) :
    ∀ {statements : List Statement},
      (∀ id, a.LooksUp (elementIdsOfBlock statements) id → a.get? id = b.get? id) →
        a.programText style statements = b.programText style statements
  | [], _ => rfl
  | [s], h => by
      refine statementText_congr hsize fun id hid => h id (hid.mono ?_)
      rw [elementIdsOfBlock]
      exact List.subset_append_left _ _
  | s :: t :: rest, h => by
      rw [elementIdsOfBlock] at h
      have hs : a.statementText style s = b.statementText style s :=
        statementText_congr hsize fun id hid => h id (hid.mono (List.subset_append_left _ _))
      have hrest : a.programText style (t :: rest) = b.programText style (t :: rest) :=
        programText_congr hsize fun id hid => h id (hid.mono (List.subset_append_right _ _))
      rw [programText, programText, hs, hrest]

/-! ## Arenas whose elements refer backwards -/

/-- Every element refers to elements before it only. -/
def Descends (a : Arena) : Prop :=
  ∀ ⦃id m⦄, a.get? id = some m → ∀ inner ∈ m.elementIds, inner < id

/-- An arena with all elements of another one, in their places. -/
def Extends (a b : Arena) : Prop :=
  ∀ ⦃id m⦄, a.get? id = some m → b.get? id = some m

theorem descends_empty : ({} : Arena).Descends := by
  intro id m h
  simp [get?] at h

theorem lt_size_of_get? {a : Arena} {id : ElementId} {m : Markup} (h : a.get? id = some m) :
    id < a.size :=
  (Array.getElem?_eq_some_iff.mp h).choose

theorem exists_get?_of_lt {a : Arena} {id : ElementId} (h : id < a.size) :
    ∃ m, a.get? id = some m :=
  ⟨_, Array.getElem?_eq_getElem h⟩

theorem Extends.refl (a : Arena) : a.Extends a :=
  fun _ _ h => h

theorem Extends.trans {a b c : Arena} (hab : a.Extends b) (hbc : b.Extends c) : a.Extends c :=
  fun _ _ h => hbc (hab h)

theorem Extends.size_le {a b : Arena} (h : a.Extends b) : a.size ≤ b.size := by
  refine Nat.le_of_not_lt fun hlt => ?_
  obtain ⟨m, hm⟩ := exists_get?_of_lt hlt
  exact Nat.lt_irrefl _ (lt_size_of_get? (h hm))

@[simp] theorem size_push (a : Arena) (m : Markup) : (a.push m).size = a.size + 1 :=
  Array.size_push m

@[simp] theorem size_set (a : Arena) (id : ElementId) (name : String) (value : MarkupValue) :
    (a.set id name value).size = a.size :=
  Array.size_modify

theorem get?_push (a : Arena) (m : Markup) (id : ElementId) :
    (a.push m).get? id = if id = a.size then some m else a.get? id :=
  Array.getElem?_push

theorem get?_set (a : Arena) (id inner : ElementId) (name : String) (value : MarkupValue) :
    (a.set id name value).get? inner =
      if id = inner then (a.get? inner).map (·.set name value) else a.get? inner :=
  Array.getElem?_modify

theorem extends_push (a : Arena) (m : Markup) : a.Extends (a.push m) := by
  intro id m' h
  rw [get?_push, if_neg (Nat.ne_of_lt (lt_size_of_get? h)), h]

/-- Setting an attribute of a later element leaves all earlier ones as they are. -/
theorem Extends.set {a b : Arena} (h : a.Extends b) {id : ElementId} (hid : a.size ≤ id)
    (name : String) (value : MarkupValue) : a.Extends (b.set id name value) := by
  intro inner m hm
  have hne : id ≠ inner := Nat.ne_of_gt (Nat.lt_of_lt_of_le (lt_size_of_get? hm) hid)
  rw [get?_set, if_neg hne, h hm]

/-- An element that was just added is the last one, also after an attribute is set on it. -/
theorem get?_push_self (a : Arena) (m : Markup) : (a.push m).get? a.size = some m := by
  rw [get?_push, if_pos rfl]

theorem get?_set_push_self (a : Arena) (m : Markup) (name : String) (value : MarkupValue) :
    ((a.push m).set a.size name value).get? a.size = some (m.set name value) := by
  rw [get?_set, if_pos rfl, get?_push_self]
  rfl

theorem Descends.push {a : Arena} (h : a.Descends) {m : Markup}
    (hm : ∀ inner ∈ m.elementIds, inner < a.size) : (a.push m).Descends := by
  intro id m' hm' inner hinner
  rw [get?_push] at hm'
  split at hm'
  · next heq =>
    obtain rfl := Option.some.inj hm'
    rw [heq]
    exact hm inner hinner
  · exact h hm' inner hinner

/-- In a descending arena the rounds of printing do not run out: an element is printed from the
elements inside it, however deep they are nested. -/
theorem Descends.elementText_eq_of_lt {a : Arena} (h : a.Descends) {style : Style}
    {id : ElementId} {rounds rounds' : Nat} (hrounds : id < rounds) (hrounds' : id < rounds') :
    a.elementText style rounds id = a.elementText style rounds' id := by
  induction id using Nat.strongRecOn generalizing rounds rounds' with
  | ind id ih =>
      obtain ⟨k, rfl⟩ := Nat.exists_eq_add_one_of_ne_zero (Nat.ne_of_gt (Nat.zero_lt_of_lt hrounds))
      obtain ⟨k', rfl⟩ :=
        Nat.exists_eq_add_one_of_ne_zero (Nat.ne_of_gt (Nat.zero_lt_of_lt hrounds'))
      funext level
      rw [elementText, elementText]
      cases hm : a.get? id with
      | none => rfl
      | some m =>
          refine Markup.text_congr fun inner hinner => ?_
          have hlt : inner < id := h hm inner hinner
          exact ih inner hlt (Nat.lt_of_lt_of_le hlt (Nat.le_of_lt_succ hrounds))
            (Nat.lt_of_lt_of_le hlt (Nat.le_of_lt_succ hrounds'))

theorem Descends.elementText_eq {a : Arena} (h : a.Descends) {style : Style} {id : ElementId}
    {m : Markup} (hm : a.get? id = some m) (level : Nat) :
    a.elementText style a.size id level = m.text style (a.elementText style a.size) level := by
  rw [h.elementText_eq_of_lt (lt_size_of_get? hm) (Nat.lt_succ_of_lt (lt_size_of_get? hm)),
    elementText, hm]

/-- No lookup leaves a descending arena: from a root inside it, every lookup goes further down. -/
theorem Descends.lt_size_of_looksUp {a : Arena} (h : a.Descends) {roots : List ElementId}
    (hroots : ∀ id ∈ roots, id < a.size) {id : ElementId} (hid : a.LooksUp roots id) :
    id < a.size := by
  induction hid with
  | root hroot => exact hroots _ hroot
  | inside _ hm hinner ih => exact Nat.lt_trans (h hm _ hinner) ih

end Arena

/-- An attribute that is set brings the positions in its value, and no others. -/
theorem Markup.mem_elementIds_set {m : Markup} {name : String} {value : MarkupValue}
    {id : ElementId} (h : id ∈ (m.set name value).elementIds) :
    id ∈ m.elementIds ∨ id ∈ value.elementIds := by
  rw [Markup.elementIds, List.mem_append] at h
  rcases h with hattribute | hchild
  · obtain ⟨entry, hentry, hid⟩ := List.mem_flatMap.mp hattribute
    rcases Dict.mem_insert hentry with hold | rfl
    · exact .inl (List.mem_append_left _ (List.mem_flatMap_of_mem hold hid))
    · exact .inr hid
  · exact .inl (List.mem_append_right _ hchild)

theorem Arena.Descends.set {a : Arena} (h : a.Descends) (id : ElementId) (name : String)
    {value : MarkupValue} (hvalue : value.elementIds = []) : (a.set id name value).Descends := by
  intro outer m hm inner hinner
  rw [Arena.get?_set] at hm
  split at hm
  · obtain ⟨m₀, hm₀, rfl⟩ := Option.map_eq_some_iff.mp hm
    rcases Markup.mem_elementIds_set hinner with hold | hnew
    · exact h hm₀ inner hold
    · rw [hvalue] at hnew
      exact absurd hnew List.not_mem_nil
  · exact h hm inner hinner

/-- Printing a chunk stays inside an arena. It reads the arena at the positions it looks up, and
nowhere else; at each of them there is an element, which is printed in full. -/
structure Chunk.PrintsInside (c : Chunk) (a : Arena) : Prop where
  reads : ∀ (b : Arena) (style : Style), a.size = b.size →
    (∀ id, a.LooksUp c.elementIds id → a.get? id = b.get? id) →
      c.fileText style a = c.fileText style b
  finds : ∀ id, a.LooksUp c.elementIds id → ∃ m, a.get? id = some m ∧
    ∀ (style : Style) (level : Nat),
      a.elementText style a.size id level = m.text style (a.elementText style a.size) level

/-- Printing stays inside a descending arena that has the elements of the chunk. -/
theorem Arena.Descends.printsInside {a : Arena} (h : a.Descends) {c : Chunk}
    (hc : ∀ id ∈ c.elementIds, id < a.size) : c.PrintsInside a where
  reads := by
    intro b style hsize hsame
    obtain ⟨name, fileType, content, after⟩ := c
    cases content with
    | script statements => exact Arena.programText_congr hsize hsame
    | markup s => rfl
    | text s => rfl
  finds := by
    intro id hid
    obtain ⟨m, hm⟩ := Arena.exists_get?_of_lt (h.lt_size_of_looksUp hc hid)
    exact ⟨m, hm, fun style level => h.elementText_eq hm level⟩

/-! ## Expressions without elements -/

namespace Expr

@[simp] theorem elementIds_members (e : Expr) (names : List String) :
    (e.members names).elementIds = e.elementIds := by
  induction names generalizing e with
  | nil => rfl
  | cons name rest ih =>
      rw [members, List.foldl_cons]
      exact (ih (.member e name)).trans (by rw [elementIds])

@[simp] theorem elementIds_path (dotted : String) : (path dotted).elementIds = [] := by
  rw [path]
  split
  · rfl
  · rw [elementIds_members, elementIds]

@[simp] theorem elementIds_ofScalar (value : Scalar) : (ofScalar value).elementIds = [] := by
  cases value <;> rfl

@[simp] theorem elementIdsOfAll_map_ofScalar (values : List Scalar) :
    elementIdsOfAll (values.map ofScalar) = [] := by
  rw [elementIdsOfAll_eq, List.flatMap_eq_nil_iff]
  intro e he
  obtain ⟨value, -, rfl⟩ := List.mem_map.mp he
  exact elementIds_ofScalar value

end Expr

namespace CompileOptions

variable {options : CompileOptions}

theorem elementIds_reference {r : Reference} {e : Expr} (h : options.reference r = .ok e) :
    e.elementIds = [] := by
  rw [reference] at h
  split at h
  · exact absurd h (by simp)
  · obtain rfl := Except.ok.inj h
    exact Expr.elementIds_path r.id
  · obtain rfl := Except.ok.inj h
    rw [Expr.elementIds_members, Expr.elementIds_path]

theorem elementIds_source {source : LoopSource} {e : Expr} (h : options.source source = .ok e) :
    e.elementIds = [] := by
  cases source with
  | reference r => exact elementIds_reference h
  | inline items =>
      obtain rfl := Except.ok.inj h
      rw [Expr.elementIds, Expr.elementIdsOfAll_map_ofScalar]

end CompileOptions

end ViewGen
