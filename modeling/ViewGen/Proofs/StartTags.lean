import Mathlib.Data.List.Duplicate
import ViewGen.Proofs.TemplatePrinting

/-!
# Start tags of templates

The attributes in a start tag come from five sources, one after the other: the directives of a loop
or a condition, the attributes of the element, its literal styles, its bound styles and its events.
Nothing compares the names from one source with those from another.  So a name is written twice when
the document has an attribute that is named like what another source writes: an attribute `style`
beside a style, or a bound attribute `key` on the template of a loop.

## Main definitions

* `Template.spelled` — an attribute with its value, as it is written
* `Attribute.writtenName?`, `Element.writtenNames` — the names under which attributes are written
* `Node.bearer?` — the element that a node is written as, and the names of its directives
* `Element.WrittenTwice` — the ways in which a name is written twice

## Main statements

* `Template.exists_startTag` — a written element starts with its attributes, in order
* `Element.duplicate_iff` — exactly these names are repeated
* `start_tag_names_distinct_iff` — when the names in a start tag are different
-/

namespace ViewGen

/-! ## Attributes as they are written -/

/-- The name under which an attribute is written.  A literal text has its own name, other values are
bound, and a node that is passed as an attribute is written apart. -/
def Attribute.writtenName? (name : String) : Attribute Node → Option String
  | .static (.text _) => some name
  | .slot _ => none
  | _ => some (":" ++ name)

namespace Element

/-- The names under which the attributes of an element are written. -/
def attributeNames (e : Element Node) : List String :=
  e.attrs.filterMap fun entry => entry.2.writtenName? entry.1

/-- The names under which the style of an element is written. -/
def styleNames (e : Element Node) : List String :=
  (if (Template.rules e.style).isEmpty then [] else ["style"]) ++
    (if (styleReferences e.style).isEmpty then [] else [":style"])

/-- The names under which the events of an element are written. -/
def eventNames (e : Element Node) : List String :=
  (e.events.filter fun entry => !entry.2.isEmpty).map fun entry => "@" ++ entry.1

/-- The names in the start tag of an element, without directives. -/
def writtenNames (e : Element Node) : List String :=
  e.attributeNames ++ e.styleNames ++ e.eventNames

end Element

/-- The element that a node is written as, and the names of the directives in its start tag. -/
def Node.bearer? : Node → Option (Element Node × List String)
  | .element e => some (e, [])
  | .loop l => some (l.template, ["v-for", ":key"])
  | .conditional ⟨.element e, _, _, _⟩ => some (e, ["v-if"])
  | _ => none

namespace Template

open Writing (Yields)

/-- An attribute with its value, as it is written. -/
def spelled (a : String × String) : String :=
  a.1 ++ "=" ++ quoted a.2

/-- Attributes are written under the given names. -/
def Spells (written names : List String) : Prop :=
  ∃ pairs : List (String × String), written = pairs.map spelled ∧ pairs.map Prod.fst = names

variable {print : Expr → String} {t t' : Template} {level : Nat}

theorem Spells.nil : Spells [] [] :=
  ⟨[], rfl, rfl⟩

theorem Spells.cons {text name value : String} {written names : List String}
    (htext : text = name ++ "=" ++ quoted value) (h : Spells written names) :
    Spells (text :: written) (name :: names) := by
  obtain ⟨pairs, rfl, rfl⟩ := h
  exact ⟨(name, value) :: pairs, congrArg (· :: pairs.map spelled) htext, rfl⟩

theorem Spells.append {written names written' names' : List String} (h : Spells written names)
    (h' : Spells written' names') : Spells (written ++ written') (names ++ names') := by
  obtain ⟨pairs, rfl, rfl⟩ := h
  obtain ⟨pairs', rfl, rfl⟩ := h'
  exact ⟨pairs ++ pairs', List.map_append.symm, List.map_append⟩

theorem spells_loopDirectives {source : LoopSource} {names : LoopNames} {directives : List String}
    (h : loopDirectives print source names = .ok directives) :
    Spells directives ["v-for", ":key"] := by
  simp only [loopDirectives, bind_eq_ok_iff] at h
  obtain ⟨items, -, key, -, h⟩ := h
  obtain rfl := Except.ok.inj h
  have hfor : "v-for=" = "v-for" ++ "=" := by decide
  exact .cons (congrArg (· ++ _) hfor) (.cons rfl .nil)

theorem spells_conditionDirective {subject : Reference} {test : Test} {directive : String}
    (h : conditionDirective print subject test = .ok directive) :
    Spells [directive] ["v-if"] := by
  simp only [conditionDirective, bind_eq_ok_iff] at h
  obtain ⟨s, -, h⟩ := h
  obtain rfl := Except.ok.inj h
  have hif : "v-if=" = "v-if" ++ "=" := by decide
  exact .cons (congrArg (· ++ _) hif) .nil

theorem spells_attributes : ∀ (attrs : List (String × Attribute Node)) {t t' : Template}
    {written slots : List String}, Yields (attributes print level attrs) t (written, slots) t' →
      Spells written (attrs.filterMap fun entry => entry.2.writtenName? entry.1)
  | [], t, t', written, slots, h => by
      obtain ⟨rfl, -⟩ := yields_attributes_nil.mp h
      exact .nil
  | (name, .static value) :: rest, t, t', written, slots, h => by
      obtain ⟨others, hrest, rfl⟩ := yields_attributes_static.mp h
      have hothers := spells_attributes rest hrest
      cases value with
      | text s => exact .cons rfl hothers
      | bool b => exact .cons rfl hothers
      | number x => exact .cons rfl hothers
  | (name, .dynamic r) :: rest, t, t', written, slots, h => by
      obtain ⟨e, others, -, hrest, rfl⟩ := yields_attributes_dynamic.mp h
      exact .cons rfl (spells_attributes rest hrest)
  | (name, .imported id) :: rest, t, t', written, slots, h => by
      obtain ⟨others, hrest, rfl⟩ := yields_attributes_imported.mp h
      exact .cons rfl (spells_attributes rest hrest)
  | (name, .slot content) :: rest, t, t', written, slots, h => by
      obtain ⟨inner, t₁, others, -, hrest, -⟩ := yields_attributes_slot.mp h
      exact spells_attributes rest hrest

/-- A style that is compiled has a property for each entry. -/
theorem isEmpty_styleProperties {style : List (String × StyleValue)}
    {properties : List (String × Expr)} (h : styleProperties options style = .ok properties) :
    properties.isEmpty = style.isEmpty := by
  cases style with
  | nil =>
      obtain rfl := Except.ok.inj h
      rfl
  | cons entry rest =>
      obtain ⟨e, others, -, -, rfl⟩ := styleProperties_cons_iff.mp h
      rfl

theorem spells_style {e : Element Node} {styles : List String}
    (h : style print e.style = .ok styles) : Spells styles e.styleNames := by
  simp only [style, bind_eq_ok_iff] at h
  obtain ⟨properties, hproperties, h⟩ := h
  obtain rfl := Except.ok.inj h
  rw [isEmpty_styleProperties hproperties]
  refine .append ?_ ?_
  · split
    · exact .nil
    · have hstyle : "style=" = "style" ++ "=" := by decide
      exact .cons (congrArg (· ++ _) hstyle) .nil
  · split
    · exact .nil
    · exact .cons rfl .nil

theorem spells_events : ∀ (handlers : List (String × List Handler)) {listeners : List String},
    events print handlers = .ok listeners →
      Spells listeners
        ((handlers.filter fun entry => !entry.2.isEmpty).map fun entry => "@" ++ entry.1)
  | [], listeners, h => by
      obtain rfl := Except.ok.inj h
      exact .nil
  | (event, []) :: rest, listeners, h => by
      rw [events] at h
      exact spells_events rest h
  | (event, hd :: hds) :: rest, listeners, h => by
      simp only [events, bind_eq_ok_iff] at h
      obtain ⟨statements, -, others, hothers, h⟩ := h
      obtain rfl := Except.ok.inj h
      exact .cons rfl (spells_events rest hothers)

/-- All attributes of an element together. -/
theorem spells_element {e : Element Node} {directives names : List String}
    (hdirectives : Spells directives names) {t₁ t₂ : Template}
    {written slots styles listeners : List String}
    (hwritten : Yields (attributes print level e.attrs) t₁ (written, slots) t₂)
    (hstyles : style print e.style = .ok styles)
    (hlisteners : events print e.events = .ok listeners) :
    Spells (directives ++ written ++ styles ++ listeners) (names ++ e.writtenNames) := by
  rw [Element.writtenNames, ← List.append_assoc, ← List.append_assoc]
  exact ((hdirectives.append (spells_attributes e.attrs hwritten)).append
    (spells_style hstyles)).append (spells_events e.events hlisteners)

/-- The text of a start tag up to where it ends. -/
def startTag (tag : String) (attributes : List (String × String)) : String :=
  "<" ++ tag ++ String.join (attributes.map fun a => " " ++ spelled a)

theorem opening_eq_startTag (tag : String) (attributes : List (String × String)) :
    "<" ++ tag ++ String.join ((attributes.map spelled).map (" " ++ ·)) =
      startTag tag attributes := by
  rw [List.map_map]
  rfl

theorem exists_elementText (level : Nat) (tag : String) (attributes : List (String × String))
    (selfClosing inline : Bool) (children : List String) :
    ∃ rest, elementText level tag (attributes.map spelled) selfClosing inline children =
        startTag tag attributes ++ rest ∧
      (rest = " />" ∨ ∃ inside, rest = ">" ++ inside) := by
  unfold elementText
  dsimp only
  rw [opening_eq_startTag]
  split
  · split
    · exact ⟨_, rfl, .inl rfl⟩
    · exact ⟨_, String.append_assoc, .inr ⟨_, rfl⟩⟩
  · split
    · exact ⟨_, by rw [String.append_assoc, String.append_assoc], .inr ⟨_, rfl⟩⟩
    · exact ⟨_, by rw [String.append_assoc, String.append_assoc, String.append_assoc,
        String.append_assoc], .inr ⟨_, rfl⟩⟩

/-- **A written element starts with its attributes, in order**: the directives, then those of the
element. -/
theorem exists_startTag {e : Element Node} {directives names : List String} {text : String}
    (h : Yields (element print e directives level) t text t')
    (hdirectives : Spells directives names) :
    ∃ tag attributes rest, text = startTag tag attributes ++ rest ∧
      (rest = " />" ∨ ∃ inside, rest = ">" ++ inside) ∧
      attributes.map Prod.fst = names ++ e.writtenNames := by
  obtain ⟨tag, t₁, written, slots, t₂, styles, listeners, texts, -, hwritten, hstyles, hlisteners,
    -, rfl⟩ := yields_element.mp h
  obtain ⟨attributes, heq, hnames⟩ := spells_element hdirectives hwritten hstyles hlisteners
  obtain ⟨rest, htext, hrest⟩ := exists_elementText level tag attributes e.selfClosing
    (e.children.any isInline) (slots ++ texts)
  rw [← heq] at htext
  exact ⟨tag, attributes, rest, htext, hrest, hnames⟩

/-- A node that is written as an element is written with the directives that belong to it. -/
theorem exists_directives {n : Node} {e : Element Node} {names : List String}
    (hn : n.bearer? = some (e, names)) {text : String}
    (h : Yields (node print n level) t text t') :
    ∃ directives, Yields (element print e directives level) t text t' ∧
      Spells directives names := by
  unfold Node.bearer? at hn
  split at hn
  · obtain ⟨rfl, rfl⟩ := Prod.mk.inj (Option.some.inj hn)
    exact ⟨[], yields_node_element.mp h, .nil⟩
  · obtain ⟨rfl, rfl⟩ := Prod.mk.inj (Option.some.inj hn)
    obtain ⟨directives, hdirectives, helement⟩ := yields_loop.mp h
    exact ⟨directives, helement, spells_loopDirectives hdirectives⟩
  · obtain ⟨rfl, rfl⟩ := Prod.mk.inj (Option.some.inj hn)
    obtain ⟨directive, hdirective, helement⟩ := yields_conditional_element.mp h
    exact ⟨[directive], helement, spells_conditionDirective hdirective⟩
  · exact nomatch hn

end Template

/-! ## Names that are written twice -/

section Duplicates

variable {α β : Type}

theorem duplicate_append_iff [DecidableEq α] {l l' : List α} {a : α} :
    List.Duplicate a (l ++ l') ↔ List.Duplicate a l ∨ List.Duplicate a l' ∨ a ∈ l ∧ a ∈ l' := by
  simp only [List.duplicate_iff_two_le_count, List.count_append, ← List.count_pos_iff]
  omega

/-- What a list without repetitions is mapped to has repetitions where two items have the same
image. -/
theorem duplicate_filterMap_iff {f : α → Option β} {l : List α} (hl : l.Nodup) {b : β} :
    List.Duplicate b (l.filterMap f) ↔
      ∃ x ∈ l, ∃ y ∈ l, x ≠ y ∧ f x = some b ∧ f y = some b := by
  induction l with
  | nil => simp [List.not_duplicate_nil]
  | cons x l ih =>
      obtain ⟨hx, hl⟩ := List.nodup_cons.mp hl
      -- Either the first item has the same image as a later one, or two later items have.
      have hcases : (∃ y ∈ x :: l, ∃ z ∈ x :: l, y ≠ z ∧ f y = some b ∧ f z = some b) ↔
          (f x = some b ∧ ∃ y ∈ l, f y = some b) ∨
            ∃ y ∈ l, ∃ z ∈ l, y ≠ z ∧ f y = some b ∧ f z = some b := by
        constructor
        · rintro ⟨y, hy, z, hz, hne, hfy, hfz⟩
          rcases List.mem_cons.mp hy with rfl | hlater
          · exact .inl ⟨hfy, z, List.mem_of_ne_of_mem hne.symm hz, hfz⟩
          · rcases List.mem_cons.mp hz with rfl | hlater'
            · exact .inl ⟨hfz, y, hlater, hfy⟩
            · exact .inr ⟨y, hlater, z, hlater', hne, hfy, hfz⟩
        · rintro (⟨hfx, y, hy, hfy⟩ | ⟨y, hy, z, hz, hne, hfy, hfz⟩)
          · exact ⟨x, List.mem_cons_self, y, List.mem_cons_of_mem _ hy,
              fun heq => hx (heq ▸ hy), hfx, hfy⟩
          · exact ⟨y, List.mem_cons_of_mem _ hy, z, List.mem_cons_of_mem _ hz, hne, hfy, hfz⟩
      rw [hcases, ← ih hl, ← List.mem_filterMap]
      cases hfx : f x with
      | none => simp [List.filterMap_cons_none hfx]
      | some c => rw [List.filterMap_cons_some hfx, List.duplicate_cons_iff, Option.some.injEq]

end Duplicates

/-- An attribute whose value is bound: neither a literal text nor a node. -/
def Attribute.isBound : Attribute Node → Bool
  | .static (.text _) | .slot _ => false
  | _ => true

theorem Attribute.writtenName?_eq_some_iff {given : Attribute Node} {name written : String} :
    given.writtenName? name = some written ↔
      (∃ s, given = .static (.text s)) ∧ name = written ∨
        given.isBound = true ∧ ":" ++ name = written := by
  cases given with
  | static value => cases value <;> simp [writtenName?, isBound]
  | _ => simp [writtenName?, isBound]

/-- The ways in which a name is written twice in the start tag of an element: an attribute has the
name of a directive, two attributes are written under one name, or an attribute has a name under
which a style or an event is written. -/
inductive Element.WrittenTwice (e : Element Node) (directives : List String) : String → Prop
  | directive {name} : name ∈ directives → name ∈ e.attributeNames → WrittenTwice e directives name
  | bound {name s given} : (":" ++ name, .static (.text s)) ∈ e.attrs → (name, given) ∈ e.attrs →
      given.isBound = true → WrittenTwice e directives (":" ++ name)
  | style {property value} : "style" ∈ e.attributeNames → (property, .static value) ∈ e.style →
      WrittenTwice e directives "style"
  | boundStyle {property r} : ":style" ∈ e.attributeNames → (property, .dynamic r) ∈ e.style →
      WrittenTwice e directives ":style"
  | event {event handlers} : "@" ++ event ∈ e.attributeNames → (event, handlers) ∈ e.events →
      handlers ≠ [] → WrittenTwice e directives ("@" ++ event)

namespace Element

variable {e : Element Node} {name : String}

/-- Two attributes are written under one name where one is bound, and the other is a text that has
the mark of a bound one in its name. -/
theorem duplicate_attributeNames_iff (h : (Dict.keys e.attrs).Nodup) :
    List.Duplicate name e.attributeNames ↔
      ∃ base s given, (":" ++ base, .static (.text s)) ∈ e.attrs ∧ (base, given) ∈ e.attrs ∧
        given.isBound = true ∧ ":" ++ base = name := by
  rw [attributeNames, duplicate_filterMap_iff (List.Nodup.of_map _ h)]
  constructor
  · rintro ⟨⟨first, given⟩, hfirst, ⟨second, other⟩, hsecond, hne, hwritten, hwritten'⟩
    have hkeys : first ≠ second := fun heq => hne (List.inj_on_of_nodup_map h hfirst hsecond heq)
    rcases Attribute.writtenName?_eq_some_iff.mp hwritten with ⟨⟨s, rfl⟩, hname⟩ | ⟨hbound, hname⟩
    · rcases Attribute.writtenName?_eq_some_iff.mp hwritten' with ⟨-, hname'⟩ | ⟨hbound', hname'⟩
      · exact absurd (hname.trans hname'.symm) hkeys
      · obtain rfl := hname.trans hname'.symm
        exact ⟨second, s, other, hfirst, hsecond, hbound', hname'⟩
    · rcases Attribute.writtenName?_eq_some_iff.mp hwritten' with ⟨⟨s, rfl⟩, hname'⟩ | ⟨-, hname'⟩
      · obtain rfl := hname'.trans hname.symm
        exact ⟨first, s, given, hsecond, hfirst, hbound, hname⟩
      · exact absurd ((String.append_right_inj _).mp (hname.trans hname'.symm)) hkeys
  · rintro ⟨base, s, given, htext, hgiven, hbound, rfl⟩
    refine ⟨_, htext, _, hgiven, fun heq => ?_, ?_, ?_⟩
    · rw [← (Prod.mk.inj heq).2] at hbound
      exact nomatch hbound
    · exact Attribute.writtenName?_eq_some_iff.mpr (.inl ⟨⟨s, rfl⟩, rfl⟩)
    · exact Attribute.writtenName?_eq_some_iff.mpr (.inr ⟨hbound, rfl⟩)

theorem isEmpty_rules_iff {style : Dict StyleValue} :
    (Template.rules style).isEmpty = true ↔
      ∀ property value, (property, .static value) ∉ style := by
  rw [List.isEmpty_iff, Template.rules, List.filterMap_eq_nil_iff]
  constructor
  · intro h property value hmem
    exact nomatch h _ hmem
  · rintro h ⟨property, value | r⟩ hentry
    · exact absurd hentry (h property value)
    · rfl

theorem isEmpty_styleReferences_iff {style : Dict StyleValue} :
    (styleReferences style).isEmpty = true ↔ ∀ property r, (property, .dynamic r) ∉ style := by
  rw [List.isEmpty_iff, styleReferences, List.filter_eq_nil_iff]
  constructor
  · intro h property r hmem
    exact h _ hmem rfl
  · rintro h ⟨property, value | r⟩ hentry
    · exact Bool.false_ne_true
    · exact absurd hentry (h property r)

theorem mem_styleNames_iff :
    name ∈ e.styleNames ↔
      name = "style" ∧ (∃ property value, (property, .static value) ∈ e.style) ∨
        name = ":style" ∧ ∃ property r, (property, .dynamic r) ∈ e.style := by
  have hrules : (∃ property value, (property, .static value) ∈ e.style) ↔
      ¬ (Template.rules e.style).isEmpty = true := by
    simp only [isEmpty_rules_iff, not_forall, not_not]
  have hreferences : (∃ property r, (property, .dynamic r) ∈ e.style) ↔
      ¬ (styleReferences e.style).isEmpty = true := by
    simp only [isEmpty_styleReferences_iff, not_forall, not_not]
  rw [hrules, hreferences, styleNames, List.mem_append]
  split <;> split <;> simp [*]

theorem nodup_styleNames : e.styleNames.Nodup := by
  unfold styleNames
  split <;> split <;> decide

theorem mem_eventNames_iff :
    name ∈ e.eventNames ↔ ∃ event handlers, (event, handlers) ∈ e.events ∧ handlers ≠ [] ∧
      "@" ++ event = name := by
  simp [eventNames, and_assoc]

theorem nodup_eventNames (h : (Dict.keys e.events).Nodup) : e.eventNames.Nodup := by
  have hfiltered : ((e.events.filter fun entry => !entry.2.isEmpty).map Prod.fst).Nodup :=
    h.sublist (List.filter_sublist.map Prod.fst)
  have hnames := hfiltered.map (f := ("@" ++ ·)) fun a b heq => (String.append_right_inj _).mp heq
  rwa [List.map_map] at hnames

/-- Names of directives are written once, and neither styles nor events are written under them. -/
structure Apart (directives : List String) : Prop where
  nodup : directives.Nodup
  styles : "style" ∉ directives ∧ ":style" ∉ directives
  events : ∀ name ∈ directives, name.toList.head? ≠ some '@'

theorem apart_of_bearer {n : Node} {directives : List String}
    (h : n.bearer? = some (e, directives)) : Apart directives := by
  unfold Node.bearer? at h
  split at h
  · obtain ⟨-, rfl⟩ := Prod.mk.inj (Option.some.inj h)
    exact ⟨by decide, by decide, by decide⟩
  · obtain ⟨-, rfl⟩ := Prod.mk.inj (Option.some.inj h)
    exact ⟨by decide, by decide, by decide⟩
  · obtain ⟨-, rfl⟩ := Prod.mk.inj (Option.some.inj h)
    exact ⟨by decide, by decide, by decide⟩
  · exact nomatch h

/-- The names under which events are written begin with a mark of their own. -/
theorem head?_of_mem_eventNames (h : name ∈ e.eventNames) : name.toList.head? = some '@' := by
  obtain ⟨event, handlers, -, -, rfl⟩ := mem_eventNames_iff.mp h
  rw [String.toList_append]
  rfl

/-- **The names that are written twice.**  Within styles and within events no name is repeated, and
the names of these two are different from each other and from those of directives. -/
theorem duplicate_iff {directives : List String} (hdirectives : Apart directives)
    (hattrs : (Dict.keys e.attrs).Nodup) (hevents : (Dict.keys e.events).Nodup) :
    List.Duplicate name (directives ++ e.writtenNames) ↔ e.WrittenTwice directives name := by
  have hnot : ∀ {l : List String}, l.Nodup → ¬ List.Duplicate name l :=
    fun hl => List.nodup_iff_forall_not_duplicate.mp hl name
  rw [writtenNames]
  -- A name is repeated within one source or shared by two; most of these cases are impossible.
  simp only [duplicate_append_iff, List.mem_append, hnot hdirectives.nodup, hnot nodup_styleNames,
    hnot (nodup_eventNames hevents), duplicate_attributeNames_iff hattrs, false_or]
  constructor
  · rintro (((⟨base, s, given, htext, hgiven, hbound, rfl⟩ | ⟨hattr, hstyle⟩) |
      ⟨hattr | hstyle, hevent⟩) | ⟨hdirective, (hattr | hstyle) | hevent⟩)
    · exact .bound htext hgiven hbound
    · rcases mem_styleNames_iff.mp hstyle with
        ⟨rfl, property, value, hentry⟩ | ⟨rfl, property, r, hentry⟩
      · exact .style hattr hentry
      · exact .boundStyle hattr hentry
    · obtain ⟨event, handlers, hentry, hne, rfl⟩ := mem_eventNames_iff.mp hevent
      exact .event hattr hentry hne
    · have hhead := head?_of_mem_eventNames hevent
      rcases mem_styleNames_iff.mp hstyle with ⟨rfl, -⟩ | ⟨rfl, -⟩
      · exact absurd hhead (by decide)
      · exact absurd hhead (by decide)
    · exact .directive hdirective hattr
    · rcases mem_styleNames_iff.mp hstyle with ⟨rfl, -⟩ | ⟨rfl, -⟩
      · exact absurd hdirective hdirectives.styles.1
      · exact absurd hdirective hdirectives.styles.2
    · exact absurd (head?_of_mem_eventNames hevent) (hdirectives.events name hdirective)
  · rintro (⟨hdirective, hattr⟩ | ⟨htext, hgiven, hbound⟩ | ⟨hattr, hentry⟩ | ⟨hattr, hentry⟩ |
      ⟨hattr, hentry, hne⟩)
    · exact .inr ⟨hdirective, .inl (.inl hattr)⟩
    · exact .inl (.inl (.inl ⟨_, _, _, htext, hgiven, hbound, rfl⟩))
    · exact .inl (.inl (.inr ⟨hattr, mem_styleNames_iff.mpr (.inl ⟨rfl, _, _, hentry⟩)⟩))
    · exact .inl (.inl (.inr ⟨hattr, mem_styleNames_iff.mpr (.inr ⟨rfl, _, _, hentry⟩)⟩))
    · exact .inl (.inr ⟨.inl hattr, mem_eventNames_iff.mpr ⟨_, _, hentry, hne, rfl⟩⟩)

end Element

open Writing (Yields)

/-- **The names in a start tag are different exactly when none is written twice.**  An element that
is written, alone or with the directives of a loop or a condition around it, has a start tag with
the names of its directives, attributes, styles and events, in this order, and the names that are
repeated there are those that an attribute of the document shares with another source. -/
theorem start_tag_names_distinct_iff {n : Node} {e : Element Node} {directives : List String}
    (hn : n.bearer? = some (e, directives)) (hattrs : (Dict.keys e.attrs).Nodup)
    (hevents : (Dict.keys e.events).Nodup) (level : Nat) (t : Template) :
    ∃ text t' tag attributes rest,
      Yields (Template.node Template.exprText n level) t text t' ∧
      text = Template.startTag tag attributes ++ rest ∧
      (rest = " />" ∨ ∃ inside, rest = ">" ++ inside) ∧
      attributes.map Prod.fst = directives ++ e.writtenNames ∧
      (∀ name, List.Duplicate name (attributes.map Prod.fst) ↔ e.WrittenTwice directives name) ∧
      ((attributes.map Prod.fst).Nodup ↔ ∀ name, ¬ e.WrittenTwice directives name) := by
  obtain ⟨text, t', htext, -⟩ := Template.exists_node (fun _ _ => rfl) n level t
  obtain ⟨written, helement, hspells⟩ := Template.exists_directives hn htext
  obtain ⟨tag, attributes, rest, hstart, hrest, hnames⟩ :=
    Template.exists_startTag helement hspells
  have htwice : ∀ name, List.Duplicate name (attributes.map Prod.fst) ↔
      e.WrittenTwice directives name := by
    intro name
    rw [hnames]
    exact Element.duplicate_iff (Element.apart_of_bearer hn) hattrs hevents
  refine ⟨text, t', tag, attributes, rest, htext, hstart, hrest, hnames, htwice, ?_⟩
  rw [List.nodup_iff_forall_not_duplicate]
  exact forall_congr' fun name => not_congr (htwice name)

/-- The rows of a list.  Each of the five sources writes something into their start tag. -/
def listRow : Element Node where
  tag := "li"
  attrs := [("class", .static (.text "row")), ("title", .dynamic ⟨"item.name", .loop⟩),
    ("tabindex", .static (.number 0))]
  style := [("color", .static (.text "red")), ("width", .dynamic ⟨"width", .prop⟩)]
  events := [("click", [.callProp "onOpen" []]), ("focus", [])]

/-- No name is repeated in the start tag of the rows. -/
theorem listRow_names_distinct :
    (Node.loop ⟨listRow, .reference ⟨"rows", .prop⟩, {}⟩).bearer? =
        some (listRow, ["v-for", ":key"]) ∧
      (Dict.keys listRow.attrs).Nodup ∧ (Dict.keys listRow.events).Nodup ∧
      (∀ name, ¬ listRow.WrittenTwice ["v-for", ":key"] name) ∧
      ∃ text t' tag attributes rest,
        Yields (Template.node Template.exprText
          (.loop ⟨listRow, .reference ⟨"rows", .prop⟩, {}⟩) 0) { imports := {} } text t' ∧
        text = Template.startTag tag attributes ++ rest ∧
        attributes.map Prod.fst =
          ["v-for", ":key", "class", ":title", ":tabindex", "style", ":style", "@click"] ∧
        (attributes.map Prod.fst).Nodup := by
  have hattrs : (Dict.keys listRow.attrs).Nodup := by decide
  have hevents : (Dict.keys listRow.events).Nodup := by decide
  obtain ⟨text, t', tag, attributes, rest, htext, hstart, -, hnames, -, hdistinct⟩ :=
    start_tag_names_distinct_iff (n := .loop ⟨listRow, .reference ⟨"rows", .prop⟩, {}⟩) rfl hattrs
      hevents 0 { imports := {} }
  have hwritten : ["v-for", ":key"] ++ listRow.writtenNames =
      ["v-for", ":key", "class", ":title", ":tabindex", "style", ":style", "@click"] := by decide
  rw [hwritten] at hnames
  have hnodup : (attributes.map Prod.fst).Nodup := by
    rw [hnames]
    decide
  exact ⟨rfl, hattrs, hevents, hdistinct.mp hnodup, text, t', tag, attributes, rest, htext, hstart,
    hnames, hnodup⟩

/-- A paragraph with a color and an attribute that is a style as well. -/
def styledTwice : Element Node where
  tag := "p"
  attrs := [("style", .static (.text "margin: 0"))]
  style := [("color", .static (.text "red"))]

/-- The start tag of the paragraph has two attributes of one name. -/
theorem styledTwice_repeats_style :
    Yields (Template.node Template.exprText (.element styledTwice) 0) { imports := {} }
        "<p style=\"margin: 0\" style=\"color: red\"></p>" { imports := {} } ∧
      "<p style=\"margin: 0\" style=\"color: red\"></p>" =
        Template.startTag "p" [("style", "margin: 0"), ("style", "color: red")] ++ "></p>" ∧
      ¬ ([("style", "margin: 0"), ("style", "color: red")].map Prod.fst).Nodup := by
  refine ⟨?_, by decide, by decide⟩
  rw [Template.yields_node_element]
  rfl

end ViewGen
