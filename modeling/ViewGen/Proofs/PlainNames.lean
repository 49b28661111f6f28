import ViewGen.Proofs.ImportHistory
import ViewGen.Proofs.MarkupReading
import ViewGen.Proofs.StartTags
import ViewGen.Proofs.Words

/-!
# Plain names in tags

The names of elements, attributes and events are written into tags as they are.  Where none of them
has a blank, a double quote or a bracket that ends a tag, a reader finds the tags that were written.
A component that is imported under another name is no exception: only letters and digits are put
before its name, and only digits after it.

## Main definitions

* `plainName` — a name that can stand in a tag
* `Element.plainNames` — all names that an element writes into its tags are plain
* `Template.SpelledPlain` — attributes that are written under plain names

## Main statements

* `plainName_tag` — tags are plain, under whatever name a component is imported
* `Template.encloses_startTag`, `Template.encloses_endTag`, … — the tags of templates are read as
  tags
-/

namespace ViewGen

/-! ## Names of imported components -/

/-- A name that can stand in a tag: no blank ends it, no value starts in it, and no tag ends. -/
def plainName (name : String) : Bool :=
  name.toList.all fun c => c != ' ' && c != '"' && c != '>'

theorem plainName_append (s t : String) : plainName (s ++ t) = (plainName s && plainName t) := by
  rw [plainName, String.toList_append, List.all_append]
  rfl

/-- Between the letters and digits of a name there are spaces only. -/
theorem of_mem_plainWords {name : String} :
    ∀ c ∈ (plainWords name).toList, c = ' ' ∨ c.isAlphanum = true := by
  refine Text.forall_mem_intercalate (by simp) fun s hs c hc => .inr ?_
  obtain ⟨w, hw, rfl⟩ := List.mem_map.mp (List.mem_of_mem_filter hs)
  rw [String.toList_ofList] at hc
  simpa using Text.eq_false_of_mem_pieces hw hc

/-- The words of a name have letters and digits only. -/
theorem isAlphanum_of_mem_words {name : String} {w : List Char}
    (hw : w ∈ Text.words (plainWords name)) {c : Char} (hc : c ∈ w) : c.isAlphanum = true := by
  obtain ⟨hmem, hseparator⟩ := Text.of_mem_cutWords (List.mem_of_mem_filter hw) hc
  rcases of_mem_plainWords c hmem with rfl | halphanum
  · exact absurd hseparator (by decide)
  · exact halphanum

/-- What is put before a name that is taken has letters and digits only. -/
theorem isAlphanum_of_mem_pascal {path : String} {d : Char}
    (h : d ∈ (Text.pascal (plainWords path)).toList) : d.isAlphanum = true := by
  rw [Text.pascal, String.toList_ofList] at h
  obtain ⟨w, hw, hd⟩ := List.mem_flatMap.mp h
  obtain ⟨c, hc, hform⟩ := Text.mem_forms_of_mem_capitalize hd
  exact Text.isAlphanum_of_mem_forms (isAlphanum_of_mem_words hw hc) hform

/-- The name that an import is given has the characters of the requested name, letters and digits. -/
theorem ImportTable.mem_toList_register {t : ImportTable} {name : String} {d : Dependency} {c : Char}
    (hc : c ∈ (t.register name d).1.toList) : c ∈ name.toList ∨ c.isAlphanum = true := by
  cases hsuits : t.suits d name with
  | true =>
      rw [t.register_fst, chosen, if_pos hsuits] at hc
      exact .inl hc
  | false =>
      obtain ⟨digits, hname, hdigits⟩ := exists_register_eq_append hsuits
      rw [hname, derivedName, String.toList_append, String.toList_append, List.mem_append,
        List.mem_append] at hc
      rcases hc with (hpath | hname) | hdigit
      · exact .inr (isAlphanum_of_mem_pascal hpath)
      · exact .inl hname
      · exact .inr (Text.isAlphanum_of_isDigit (hdigits c hdigit))

theorem plainName_register {name : String} (h : plainName name = true) (t : ImportTable)
    (d : Dependency) : plainName (t.register name d).1 = true := by
  refine List.all_eq_true.mpr fun c hc => ?_
  rcases ImportTable.mem_toList_register hc with hname | halphanum
  · exact List.all_eq_true.mp h c hname
  · have hne : c ≠ ' ' ∧ c ≠ '"' ∧ c ≠ '>' := by
      refine ⟨?_, ?_, ?_⟩ <;> (rintro rfl; exact absurd halphanum (by decide))
    simp [hne]

open Writing (Yields) in
/-- Tags are plain, under whatever name a component is imported. -/
theorem plainName_tag {name bound : String} {dependency : Option Dependency} {t t' : Template}
    (hname : plainName name = true) (h : Yields (Template.tag name dependency) t bound t') :
    plainName bound = true := by
  cases dependency with
  | none =>
      obtain ⟨rfl, -⟩ := Template.yields_tag_none.mp h
      exact hname
  | some d =>
      obtain ⟨rfl, -⟩ := Template.yields_tag_some.mp h
      exact plainName_register hname t.imports d

/-- All names that stand in the tags of an element are plain. -/
def Element.plainNames (e : Element Node) : Bool :=
  (e.tag :: (Dict.keys e.attrs ++ Dict.keys e.events)).all plainName

theorem Element.plainName_of_mem (e : Element Node) (h : e.plainNames = true) {name : String}
    (hname : name ∈ e.writtenNames) : plainName name = true := by
  obtain ⟨-, hkeys⟩ := List.forall_mem_cons.mp (List.all_eq_true.mp h)
  obtain ⟨hattrs, hevents⟩ := List.forall_mem_append.mp hkeys
  rw [writtenNames, List.mem_append, List.mem_append] at hname
  rcases hname with (hattr | hstyle) | hevent
  · obtain ⟨⟨key, given⟩, hentry, hwritten⟩ := List.mem_filterMap.mp hattr
    have hkey : plainName key = true := hattrs key (List.mem_map_of_mem hentry)
    rcases Attribute.writtenName?_eq_some_iff.mp hwritten with ⟨-, rfl⟩ | ⟨-, rfl⟩
    · exact hkey
    · rw [plainName_append, hkey]
      rfl
  · rcases mem_styleNames_iff.mp hstyle with ⟨rfl, -⟩ | ⟨rfl, -⟩ <;> rfl
  · obtain ⟨event, handlers, hentry, -, rfl⟩ := mem_eventNames_iff.mp hevent
    rw [plainName_append, hevents event (List.mem_map_of_mem hentry)]
    rfl

namespace Template

open MarkupReading Writing

/-- Attributes that are written under plain names. -/
def SpelledPlain (written : List String) : Prop :=
  ∃ pairs : List (String × String), written = pairs.map spelled ∧
    ∀ a ∈ pairs, plainName a.1 = true

theorem spelledPlain_nil : SpelledPlain [] :=
  ⟨[], rfl, by simp⟩

theorem Spells.spelledPlain {written names : List String} (h : Spells written names)
    (hnames : ∀ name ∈ names, plainName name = true) : SpelledPlain written := by
  obtain ⟨pairs, rfl, rfl⟩ := h
  exact ⟨pairs, rfl, fun a ha => hnames _ (List.mem_map_of_mem ha)⟩

/-- All attributes of an element are written under plain names if its directives are. -/
theorem spelledPlain_element {print : Expr → String} {level : Nat} {e : Element Node}
    {directives : List String} (hspelled : SpelledPlain directives) (he : e.plainNames = true)
    {t t' : Template} {written slots styles listeners : List String}
    (hwritten : Yields (attributes print level e.attrs) t (written, slots) t')
    (hstyles : style print e.style = .ok styles)
    (hlisteners : events print e.events = .ok listeners) :
    SpelledPlain (directives ++ written ++ styles ++ listeners) := by
  obtain ⟨pairs, rfl, hnames⟩ := hspelled
  refine (spells_element ⟨pairs, rfl, rfl⟩ hwritten hstyles hlisteners).spelledPlain ?_
  refine List.forall_mem_append.mpr
    ⟨fun name hname => ?_, fun name hname => e.plainName_of_mem he hname⟩
  obtain ⟨a, ha, rfl⟩ := List.mem_map.mp hname
  exact hnames a ha

/-! ## Tags -/

theorem stays_name {name : String} (h : plainName name = true) : Stays name.toList := by
  have hchars := List.all_eq_true.mp h
  refine stays_of_plain (fun hmem => ?_) (fun hmem => ?_)
  · exact absurd (hchars _ hmem) (by decide)
  · exact absurd (hchars _ hmem) (by decide)

theorem encloses_brackets {s : String} (h : Stays s.toList) (hne : s.toList ≠ keeping) :
    Encloses ("<" ++ s ++ ">").toList False := by
  rw [String.toList_append, String.toList_append, List.append_assoc]
  exact encloses_tag h hne

theorem ne_keeping {c : Char} (hc : c ∉ keeping) {cs : List Char} (h : c ∈ cs) : cs ≠ keeping :=
  fun heq => hc (heq ▸ h)

/-- What stands in a start tag. -/
def inStartTag (tag : String) (attributes : List (String × String)) : String :=
  tag ++ String.join (attributes.map fun a => " " ++ spelled a)

variable {tag : String} {attributes : List (String × String)}

theorem stays_spelled {a : String × String} (h : plainName a.1 = true) :
    Stays (spelled a).toList := by
  rw [spelled, String.toList_append, String.toList_append]
  exact ((stays_name h).append (stays_of_plain (by decide) (by decide))).append (stays_quoted a.2)

theorem stays_inStartTag (htag : plainName tag = true)
    (hnames : ∀ a ∈ attributes, plainName a.1 = true) :
    Stays (inStartTag tag attributes).toList := by
  rw [inStartTag, String.toList_append]
  refine (stays_name htag).append ?_
  induction attributes with
  | nil => exact stays_of_plain (by decide) (by decide)
  | cons a rest ih =>
      obtain ⟨ha, hrest⟩ := List.forall_mem_cons.mp hnames
      rw [List.map_cons, String.join_cons, String.toList_append, String.toList_append]
      exact ((stays_of_plain (by decide) (by decide)).append (stays_spelled ha)).append (ih hrest)

/-- A start tag with attributes has a value in it, and one without has no blank. -/
theorem inStartTag_ne_keeping (htag : plainName tag = true) :
    (inStartTag tag attributes).toList ≠ keeping := by
  rw [inStartTag, String.toList_append]
  cases attributes with
  | nil =>
      intro heq
      have hblank : ' ' ∈ tag.toList := by
        rw [← List.append_nil tag.toList]
        exact heq ▸ by decide
      exact absurd (List.all_eq_true.mp htag _ hblank) (by decide)
  | cons a rest =>
      refine ne_keeping (c := '"') (by decide) ?_
      simp [spelled, quoted, String.join_cons]

theorem startTag_eq : startTag tag attributes = "<" ++ inStartTag tag attributes :=
  String.append_assoc

theorem encloses_startTag (htag : plainName tag = true)
    (hnames : ∀ a ∈ attributes, plainName a.1 = true) :
    Encloses (startTag tag attributes ++ ">").toList False := by
  rw [startTag_eq]
  exact encloses_brackets (stays_inStartTag htag hnames) (inStartTag_ne_keeping htag)

theorem encloses_emptyTag (htag : plainName tag = true)
    (hnames : ∀ a ∈ attributes, plainName a.1 = true) :
    Encloses (startTag tag attributes ++ " />").toList False := by
  have hmark : startTag tag attributes ++ " />" =
      "<" ++ (inStartTag tag attributes ++ " /") ++ ">" := by
    have hend : " />" = " /" ++ ">" := by decide
    rw [startTag_eq, hend]
    simp only [String.append_assoc]
  rw [hmark]
  refine encloses_brackets ?_ (ne_keeping (c := '/') (by decide) (by simp))
  rw [String.toList_append]
  exact (stays_inStartTag htag hnames).append (stays_of_plain (by decide) (by decide))

theorem encloses_endTag (tag : String) (htag : plainName tag = true) :
    Encloses ("</" ++ tag ++ ">").toList False := by
  have hmark : "</" ++ tag ++ ">" = "<" ++ ("/" ++ tag) ++ ">" := by
    rw [← String.append_assoc]
    rfl
  rw [hmark]
  refine encloses_brackets ?_ (ne_keeping (c := '/') (by decide) (by simp))
  rw [String.toList_append]
  exact (stays_of_plain (by decide) (by decide)).append (stays_name htag)

theorem encloses_condition {directive : String} (h : SpelledPlain [directive]) :
    Encloses ("<template " ++ directive ++ ">").toList False := by
  obtain ⟨pairs, heq, hpairs⟩ := h
  obtain ⟨a, rfl, rfl⟩ := List.map_eq_singleton_iff.mp heq.symm
  have htext : "<template " ++ spelled a ++ ">" = startTag "template" [a] ++ ">" := by
    rw [← String.toList_inj]
    simp [startTag]
  rw [htext]
  exact encloses_startTag rfl hpairs

theorem encloses_slotTemplate {name : String} (h : plainName name = true) :
    Encloses ("<template #" ++ name ++ ">").toList False := by
  have htext : "<template #" ++ name ++ ">" = "<" ++ ("template #" ++ name) ++ ">" := by
    rw [← String.append_assoc]
    rfl
  rw [htext]
  refine encloses_brackets ?_ (ne_keeping (c := '#') (by decide) (by simp))
  rw [String.toList_append]
  exact (stays_of_plain (by decide) (by decide)).append (stays_name h)

theorem encloses_slotOpening (name : Option String) :
    Encloses (slotOpening name).toList False := by
  cases name with
  | none =>
      have htext : slotOpening none = startTag "slot" [] ++ ">" := rfl
      rw [htext]
      exact encloses_startTag rfl (by simp)
  | some name =>
      have htext : slotOpening (some name) = startTag "slot" [("name", name)] ++ ">" := by
        rw [← String.toList_inj]
        simp [slotOpening, startTag, spelled]
      rw [htext]
      exact encloses_startTag rfl (by simp [plainName])

end Template

end ViewGen
