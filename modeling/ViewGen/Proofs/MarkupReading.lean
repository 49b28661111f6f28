import ViewGen.Proofs.CharacterReferences

/-!
# Reading the texts of markup

Markup is read from the left to the right.  A tag starts with `<` and goes up to the next `>` that
is not in double quotes, and what stands between tags is text.  Interpolations are looked for in
every text, except for those inside of `<span v-pre>`.

What was read of the current text is carried along, because a text may be written in several pieces.
Two judgments say what a piece of markup does to the reader, whatever comes after it: one for pieces
that start and end with a tag, so that the text before them ends there, and one for pieces that come
after a tag and end with one.

## Main definitions

* `MarkupReading.parts` — markup as texts and tags
* `MarkupReading.Exposes` — an interpolation is found in a text
* `MarkupReading.Stays` — a piece of a tag in which the tag does not end
* `MarkupReading.Encloses`, `MarkupReading.Follows` — the two judgments

## Main statements

* `MarkupReading.encloses_tag`, `MarkupReading.encloses_kept` — tags, and texts that are kept from
  being compiled
* `MarkupReading.Follows.append`, `MarkupReading.Encloses.append` — the judgments for pieces in a
  row
* `Template.opensInterpolation_escaped` — escaping neither adds nor removes opening braces
-/

namespace ViewGen

namespace MarkupReading

open Template (opensInterpolation)

/-- Where a reader of markup is. -/
inductive Place where
  | text
  | tag
  | value

/-- A part of markup: a text, or what stands between the brackets of a tag. -/
inductive Part where
  | text (cs : List Char)
  | tag (cs : List Char)

/-- The parts of markup, read from a place on; `seen` is what was read of the first part before. -/
def parts : Place → List Char → List Char → List Part
  | .text, seen, [] => [.text seen]
  | .tag, seen, [] => [.tag seen]
  | .value, seen, [] => [.tag seen]
  | .text, seen, c :: cs =>
    if c = '<' then .text seen :: parts .tag [] cs else parts .text (seen ++ [c]) cs
  | .tag, seen, c :: cs =>
    if c = '>' then .tag seen :: parts .text [] cs
    else parts (if c = '"' then .value else .tag) (seen ++ [c]) cs
  | .value, seen, c :: cs => parts (if c = '"' then .tag else .value) (seen ++ [c]) cs

/-- What stands in the tag of an element whose text is kept from being compiled. -/
def keeping : List Char := "span v-pre".toList

/-- The texts in which interpolations are looked for: those that are not inside of an element that
keeps them from it. -/
def compiledTexts : Bool → List Part → List (List Char)
  | _, [] => []
  | false, .text cs :: rest => cs :: compiledTexts false rest
  | true, .text _ :: rest => compiledTexts true rest
  | false, .tag cs :: rest => compiledTexts (cs == keeping) rest
  | true, .tag cs :: rest => compiledTexts (cs != "/span".toList) rest

/-- An interpolation is found in a text of the markup, of which `seen` was read before. -/
def Exposes (seen cs : List Char) : Prop :=
  (compiledTexts false (parts .text seen cs)).any opensInterpolation = true

instance (seen cs : List Char) : Decidable (Exposes seen cs) :=
  inferInstanceAs (Decidable (_ = _))

variable {seen cs rest inside : List Char}

/-! ## Texts and tags -/

theorem exposes_nil : Exposes seen [] ↔ opensInterpolation seen = true := by
  simp [Exposes, parts, compiledTexts]

theorem parts_text (h : '<' ∉ cs) (seen rest : List Char) :
    parts .text seen (cs ++ rest) = parts .text (seen ++ cs) rest := by
  induction cs generalizing seen with
  | nil => rw [List.nil_append, List.append_nil]
  | cons c cs ih =>
      obtain ⟨hc, hcs⟩ := not_or.mp (mt List.mem_cons.mpr h)
      rw [List.cons_append, parts, if_neg (Ne.symm hc), ih hcs, List.append_assoc,
        List.singleton_append]

/-- A text is added to what was read of it before. -/
theorem exposes_text (h : '<' ∉ cs) : Exposes seen (cs ++ rest) ↔ Exposes (seen ++ cs) rest := by
  rw [Exposes, parts_text h, Exposes]

/-- A piece of a tag in which the tag does not end, with all values in double quotes complete. -/
def Stays (inside : List Char) : Prop :=
  ∀ seen rest, parts .tag seen (inside ++ rest) = parts .tag (seen ++ inside) rest

theorem Stays.append {inside' : List Char} (h : Stays inside) (h' : Stays inside') :
    Stays (inside ++ inside') := by
  intro seen rest
  rw [List.append_assoc, h, h', List.append_assoc]

/-- Characters that neither start a value nor end a tag. -/
theorem stays_of_plain (h : '"' ∉ inside) (h' : '>' ∉ inside) : Stays inside := by
  intro seen rest
  induction inside generalizing seen with
  | nil => rw [List.nil_append, List.append_nil]
  | cons c inside ih =>
      obtain ⟨hquote, hquotes⟩ := not_or.mp (mt List.mem_cons.mpr h)
      obtain ⟨hend, hends⟩ := not_or.mp (mt List.mem_cons.mpr h')
      rw [List.cons_append, parts, if_neg (Ne.symm hend), if_neg (Ne.symm hquote),
        ih hquotes hends, List.append_assoc, List.singleton_append]

theorem parts_value (h : '"' ∉ cs) (seen rest : List Char) :
    parts .value seen (cs ++ rest) = parts .value (seen ++ cs) rest := by
  induction cs generalizing seen with
  | nil => rw [List.nil_append, List.append_nil]
  | cons c cs ih =>
      obtain ⟨hc, hcs⟩ := not_or.mp (mt List.mem_cons.mpr h)
      rw [List.cons_append, parts, if_neg (Ne.symm hc), ih hcs, List.append_assoc,
        List.singleton_append]

/-- A tag does not end in a value that has no double quote in it. -/
theorem stays_quoted (s : String) : Stays (Template.quoted s).toList := by
  intro seen rest
  have hquote : '"' ∉ (Text.escapeAttribute s).toList :=
    Text.reversible_attributeEntities.notMem_escaped (by decide) (by decide) s
  have htext : (Template.quoted s).toList =
      '"' :: ((Text.escapeAttribute s).toList ++ ['"']) := by
    rw [Template.quoted, String.toList_append, String.toList_append]
    rfl
  rw [htext, List.cons_append, List.append_assoc, parts, if_neg (by decide), if_pos rfl,
    parts_value hquote, List.singleton_append, parts, if_pos rfl]
  simp

/-! ## Pieces of markup -/

/-- A piece of markup that starts and ends with a tag.  The text before it ends there, `p` says
whether an interpolation is found inside, and a new text starts after it. -/
def Encloses (cs : List Char) (p : Prop) : Prop :=
  ∀ seen rest, Exposes seen (cs ++ rest) ↔
    opensInterpolation seen = true ∨ p ∨ Exposes [] rest

/-- A piece of markup after a tag, after which a new text starts. -/
def Follows (cs : List Char) (p : Prop) : Prop :=
  ∀ rest, Exposes [] (cs ++ rest) ↔ p ∨ Exposes [] rest

variable {cs' : List Char} {p q : Prop}

theorem Encloses.congr (h : Encloses cs p) (hpq : p ↔ q) : Encloses cs q :=
  propext hpq ▸ h

theorem Encloses.follows (h : Encloses cs p) : Follows cs p := by
  intro rest
  rw [h]
  simp [opensInterpolation]

theorem follows_nil : Follows [] False := by
  intro rest
  simp

/-- Nothing is found in nothing. -/
theorem Follows.not_of_nil (h : Follows [] p) : ¬ p := by
  intro hp
  have hexposes : Exposes [] ([] ++ []) := (h []).mpr (.inl hp)
  exact absurd (exposes_nil.mp hexposes) (by decide)

theorem Follows.append (h : Follows cs p) (h' : Follows cs' q) : Follows (cs ++ cs') (p ∨ q) := by
  intro rest
  rw [List.append_assoc, h, h', or_assoc]

theorem Encloses.append (h : Encloses cs p) (h' : Follows cs' q) :
    Encloses (cs ++ cs') (p ∨ q) := by
  intro seen rest
  rw [List.append_assoc, h, h', or_assoc]

/-- Blanks between tags. -/
theorem Encloses.follows_text (h : Encloses cs p) {lead : List Char} (hlead : '<' ∉ lead)
    (hbraces : opensInterpolation lead = false) : Follows (lead ++ cs) p := by
  intro rest
  rw [List.append_assoc, exposes_text hlead, List.nil_append, h, hbraces]
  simp

theorem parts_tag (h : Stays inside) (seen rest : List Char) :
    parts .text seen ('<' :: (inside ++ '>' :: rest)) =
      .text seen :: .tag inside :: parts .text [] rest := by
  rw [parts, if_pos rfl, h, List.nil_append, parts, if_pos rfl]

/-- A tag has no text inside. -/
theorem encloses_tag (h : Stays inside) (hne : inside ≠ keeping) :
    Encloses ('<' :: (inside ++ ['>'])) False := by
  intro seen rest
  rw [List.cons_append, List.append_assoc, List.singleton_append, Exposes, parts_tag h,
    compiledTexts, compiledTexts, beq_false_of_ne hne, List.any_cons, Bool.or_eq_true, false_or,
    Exposes]

/-- A text that is kept from being compiled. -/
theorem encloses_kept (h : '<' ∉ cs) :
    Encloses ('<' :: (keeping ++ '>' :: (cs ++ '<' :: ("/span".toList ++ ['>'])))) False := by
  intro seen rest
  have hinside : Stays keeping := stays_of_plain (by decide) (by decide)
  have hclosing : Stays "/span".toList := stays_of_plain (by decide) (by decide)
  have hparts : parts .text seen
      ('<' :: (keeping ++ '>' :: (cs ++ '<' :: ("/span".toList ++ '>' :: rest)))) =
        .text seen :: .tag keeping :: .text cs :: .tag "/span".toList :: parts .text [] rest := by
    rw [parts_tag hinside, parts_text h, parts_tag hclosing, List.nil_append]
  simp only [List.cons_append, List.append_assoc, List.nil_append]
  rw [Exposes, hparts, Exposes]
  simp [compiledTexts]

/-! ## Several pieces -/

/-- Texts that start and end with tags, in a row or on lines of their own. -/
def Lines (texts : List String) (p : Prop) : Prop :=
  ∀ lead : String, '<' ∉ lead.toList → opensInterpolation lead.toList = false →
    Follows (String.join (texts.map (lead ++ ·))).toList p

variable {texts slots : List String} {text : String} {p q : Prop}

theorem lines_nil : Lines [] False :=
  fun _ _ _ => follows_nil

theorem Lines.cons (h : Encloses text.toList p) (h' : Lines texts q) :
    Lines (text :: texts) (p ∨ q) := by
  intro lead hlead hbraces
  rw [List.map_cons, String.join_cons, String.toList_append, String.toList_append]
  exact (h.follows_text hlead hbraces).append (h' lead hlead hbraces)

theorem Lines.append (h : Lines slots p) (h' : Lines texts q) : Lines (slots ++ texts) (p ∨ q) := by
  intro lead hlead hbraces
  rw [List.map_append, String.join_append, String.toList_append]
  exact (h lead hlead hbraces).append (h' lead hlead hbraces)

theorem Lines.congr (h : Lines texts p) (hpq : p ↔ q) : Lines texts q :=
  propext hpq ▸ h

theorem Lines.follows (h : Lines texts p) : Follows (String.join texts).toList p := by
  have hrow := h "" (by decide) (by decide)
  have hsame : texts.map ("" ++ ·) = texts := by simp
  rwa [hsame] at hrow

theorem Lines.not_of_nil (h : Lines [] p) : ¬ p :=
  h.follows.not_of_nil

end MarkupReading

namespace Template

/-- Opening braces stand at the start of a text or further on. -/
theorem opensInterpolation_cons (c : Char) (cs : List Char) :
    opensInterpolation (c :: cs) = true ↔
      (c = '{' ∧ cs.head? = some '{') ∨ opensInterpolation cs = true := by
  by_cases hc : c = '{'
  · cases cs with
    | nil => simp [opensInterpolation]
    | cons d cs => by_cases hd : d = '{' <;> simp [opensInterpolation, hc, hd]
  · simp [opensInterpolation, hc]

/-- Without an opening brace, a text does not matter to those after it. -/
theorem opensInterpolation_append {cs : List Char} (h : '{' ∉ cs) (rest : List Char) :
    opensInterpolation (cs ++ rest) = opensInterpolation rest := by
  induction cs with
  | nil => rfl
  | cons c cs ih =>
      obtain ⟨hc, hcs⟩ := not_or.mp (mt List.mem_cons.mpr h)
      rw [← ih hcs, Bool.eq_iff_iff, List.cons_append, opensInterpolation_cons]
      simp [Ne.symm hc]

/-- A text as it is written between tags. -/
def escaped (cs : List Char) : List Char :=
  cs.flatMap (Text.replacement Text.textEntities)

theorem escaped_nil : escaped [] = [] :=
  rfl

theorem toList_escapeText (s : String) : (Text.escapeText s).toList = escaped s.toList :=
  Text.toList_replaceChars _ s

theorem escaped_append (cs cs' : List Char) : escaped (cs ++ cs') = escaped cs ++ escaped cs' :=
  List.flatMap_append

/-- An escaped text has no tags. -/
theorem notMem_escaped (cs : List Char) : '<' ∉ escaped cs := by
  have hescaped := Text.reversible_textEntities.notMem_escaped (c := '<') (by decide) (by decide)
    (String.ofList cs)
  rwa [Text.toList_replaceChars, String.toList_ofList] at hescaped

/-- A character is replaced by an entity without opening braces, or stays as it is. -/
theorem replacement_textEntities (c : Char) :
    c ≠ '{' ∧ Text.replacement Text.textEntities c ≠ [] ∧
        '{' ∉ Text.replacement Text.textEntities c ∨
      Text.replacement Text.textEntities c = [c] := by
  rcases Text.replacement_cases Text.textEntities c with ⟨entry, hentry, rfl, heq⟩ | ⟨-, heq⟩
  · have hentities : ∀ entry ∈ Text.textEntities,
        entry.1 ≠ '{' ∧ entry.2.toList ≠ [] ∧ '{' ∉ entry.2.toList := by
      decide
    rw [heq]
    exact .inl (hentities entry hentry)
  · exact .inr heq

theorem head?_escaped (cs : List Char) :
    (escaped cs).head? = some '{' ↔ cs.head? = some '{' := by
  cases cs with
  | nil => rfl
  | cons c cs =>
      rw [escaped, List.flatMap_cons]
      rcases replacement_textEntities c with ⟨hc, hne, hnone⟩ | heq
      · rw [List.head?_append_of_ne_nil _ hne]
        exact iff_of_false (fun hhead => hnone (List.mem_of_mem_head? hhead)) (by simpa using hc)
      · rw [heq]
        rfl

/-- **Escaping neither adds nor removes opening braces.** -/
theorem opensInterpolation_escaped (cs : List Char) :
    opensInterpolation (escaped cs) = opensInterpolation cs := by
  induction cs with
  | nil => rfl
  | cons c cs ih =>
      have hcons : escaped (c :: cs) = Text.replacement Text.textEntities c ++ escaped cs :=
        List.flatMap_cons
      rw [hcons, Bool.eq_iff_iff, opensInterpolation_cons]
      rcases replacement_textEntities c with ⟨hc, -, hnone⟩ | heq
      · rw [opensInterpolation_append hnone, ih]
        simp [hc]
      · rw [heq, List.singleton_append, opensInterpolation_cons, head?_escaped, ih]

end Template

end ViewGen
