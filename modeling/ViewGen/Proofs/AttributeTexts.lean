import ViewGen.Proofs.CharacterReferences
import ViewGen.Proofs.PrintedTokens

/-!
# Texts as attributes of elements in scripts

The value of an attribute that is a text is printed in double quotes, or as a literal in braces when
there is a backslash in it.  A reader decodes the character references of a value in double quotes.
Only the double quotes of the text are written as references, and its ampersands are left as they
are: so a text that has a reference in it already is read as another text.

## Main definitions

* `CharacterReferences.readScriptAttribute` — reading an attribute with either form of value
* `CharacterReferences.OccursIn` — a reference stands in a text

## Main statements

* `CharacterReferences.decodeFrom_eq_self_iff` — decoding changes a text exactly when a reference is
  in it
* `CharacterReferences.decodeFrom_replaceQuotes` — replacing double quotes by references does not
  change what a text is decoded to
* `attribute_text_reads_back_iff` — which texts are read back
-/

namespace ViewGen

/-- Read a literal in braces.  The text after the braces is returned, too. -/
def Reading.readBraced : List Char → Option (String × List Char)
  | '{' :: c :: cs =>
    match tokenAt? c cs with
    | some (.lexeme (.literal s), count) =>
      match cs.drop count with
      | '}' :: rest => some (s, rest)
      | _ => none
    | _ => none
  | _ => none

theorem Reading.readBraced_quote (asciiOnly : Bool) (s : String) (rest : List Char) :
    readBraced ((braced (Literal.quote asciiOnly s)).toList ++ rest) = some (s, rest) := by
  have htext : (braced (Literal.quote asciiOnly s)).toList ++ rest =
      '{' :: '\'' :: (s.toList.flatMap (Literal.escape asciiOnly) ++ '\'' :: '}' :: rest) := by
    simp [braced, Literal.quote]
  have hrest : (s.toList.flatMap (Literal.escape asciiOnly) ++ '\'' :: '}' :: rest).drop
      ((s.toList.flatMap (Literal.escape asciiOnly)).length + 1) = '}' :: rest := by
    rw [← List.drop_drop, List.drop_left]
    rfl
  rw [htext, readBraced, tokenAt?_quote]
  dsimp only
  rw [hrest]
  rfl

namespace CharacterReferences

variable {refs : CharacterReferences}

/-- Read an attribute of an element in a script: its value stands in double quotes or in braces. -/
def readScriptAttribute (refs : CharacterReferences) (name : String) (cs : List Char) :
    Option (String × List Char) :=
  (cs.dropPrefix? (name ++ "=").toList).bind fun value =>
    (refs.readQuoted value).or (Reading.readBraced value)

/-! ## Texts without references -/

/-- A reference that the reader knows stands in a text. -/
def OccursIn (refs : CharacterReferences) (cs : List Char) : Prop :=
  ∃ before body after, cs = before ++ '&' :: (body ++ ';' :: after) ∧ (refs.char? body).isSome

/-- A reference stands at the start of a text or further on. -/
theorem occursIn_cons_iff {c : Char} {cs : List Char} :
    refs.OccursIn (c :: cs) ↔ (refs.readAt? (c :: cs)).isSome ∨ refs.OccursIn cs := by
  constructor
  · rintro ⟨before, body, after, heq, hbody⟩
    cases before with
    | nil =>
        obtain ⟨d, hd⟩ := Option.isSome_iff_exists.mp hbody
        exact .inl (Option.isSome_iff_exists.mpr
          ⟨_, readAt?_eq_some_iff.mpr ⟨body, after, heq, hd, rfl⟩⟩)
    | cons b before => exact .inr ⟨before, body, after, (List.cons.inj heq).2, hbody⟩
  · rintro (hread | ⟨before, body, after, rfl, hbody⟩)
    · obtain ⟨⟨d, n⟩, hread⟩ := Option.isSome_iff_exists.mp hread
      obtain ⟨body, after, heq, hd, -⟩ := readAt?_eq_some_iff.mp hread
      exact ⟨[], body, after, heq, Option.isSome_iff_exists.mpr ⟨d, hd⟩⟩
    · exact ⟨c :: before, body, after, rfl, hbody⟩

/-- Decoding makes no text longer. -/
theorem length_decodeFrom_le (skip : Nat) (cs : List Char) :
    (refs.decodeFrom skip cs).length ≤ cs.length - skip := by
  induction cs generalizing skip with
  | nil => simp [decodeFrom]
  | cons c cs ih =>
      cases skip with
      | succ skip =>
          have hlength := ih skip
          rw [decodeFrom, List.length_cons]
          omega
      | zero =>
          cases hread : refs.readAt? (c :: cs) with
          | none =>
              have hlength := ih 0
              rw [decodeFrom_of_none hread, List.length_cons, List.length_cons]
              omega
          | some found =>
              have hlength := ih found.2
              rw [decodeFrom, hread, List.length_cons, List.length_cons]
              omega

/-- **Decoding leaves a text as it is exactly when no reference stands in it.** -/
theorem decodeFrom_eq_self_iff {cs : List Char} :
    refs.decodeFrom 0 cs = cs ↔ ¬ refs.OccursIn cs := by
  induction cs with
  | nil => simp [decodeFrom, OccursIn]
  | cons c cs ih =>
      rw [occursIn_cons_iff]
      cases hread : refs.readAt? (c :: cs) with
      | none => simp [decodeFrom_of_none hread, ih]
      | some found =>
          obtain ⟨d, n⟩ := found
          -- A reference is longer than the character that it stands for.
          have hn : 0 < n := by
            obtain ⟨body, rest, -, -, rfl⟩ := readAt?_eq_some_iff.mp hread
            exact Nat.succ_pos _
          have hne : refs.decodeFrom 0 (c :: cs) ≠ c :: cs := by
            intro heq
            have hlength : (refs.decodeFrom n cs).length ≤ cs.length - n :=
              length_decodeFrom_le n cs
            have hcs : 0 < cs.length := by
              obtain ⟨body, rest, heq, -, -⟩ := readAt?_eq_some_iff.mp hread
              rw [(List.cons.inj heq).2, List.length_append]
              exact Nat.add_pos_right _ (Nat.succ_pos _)
            rw [decodeFrom, hread] at heq
            rw [(List.cons.inj heq).2] at hlength
            omega
          simp [hne]

/-! ## Double quotes -/

/-- The entity for double quotes alone. -/
def quotes : List (Char × String) := [('"', quoteEntity)]

theorem replacement_quotes {c : Char} (h : c ≠ '"') : Text.replacement quotes c = [c] := by
  simp [Text.replacement, quotes, List.lookup_cons, beq_false_of_ne h]

theorem ite_eq_replacement_quotes (c : Char) :
    (if c == '"' then quoteEntity.toList else [c]) = Text.replacement quotes c := by
  by_cases hc : c = '"'
  · subst hc
    rfl
  · rw [replacement_quotes hc, if_neg (by simpa using hc)]

theorem flatMap_quotes {cs : List Char} (h : '"' ∉ cs) (rest : List Char) :
    (cs ++ rest).flatMap (Text.replacement quotes) =
      cs ++ rest.flatMap (Text.replacement quotes) := by
  have hkept : ∀ c ∈ cs, Text.replacement quotes c = [c] := fun c hc =>
    replacement_quotes fun heq => h (heq ▸ hc)
  rw [List.flatMap_append, List.flatMap_congr hkept, List.flatMap_singleton']

/-- What has no ampersand in a text with replaced quotes was there before. -/
theorem exists_of_flatMap_quotes {cs body rest : List Char} (hbody : '&' ∉ body)
    (h : cs.flatMap (Text.replacement quotes) = body ++ rest) :
    ∃ rest', cs = body ++ rest' ∧ rest'.flatMap (Text.replacement quotes) = rest := by
  induction body generalizing cs with
  | nil => exact ⟨cs, rfl, h⟩
  | cons b body ih =>
      obtain ⟨hb, htail⟩ := not_or.mp (mt List.mem_cons.mpr hbody)
      cases cs with
      | nil => exact absurd h (by simp)
      | cons c cs =>
          rw [List.flatMap_cons] at h
          by_cases hc : c = '"'
          · subst hc
            exact absurd (List.cons.inj h).1 hb
          · rw [replacement_quotes hc, List.singleton_append] at h
            obtain ⟨rfl, hrest⟩ := List.cons.inj h
            obtain ⟨rest', rfl, hrest'⟩ := ih htail hrest
            exact ⟨rest', rfl, hrest'⟩

/-- No reference stands at the start of a text with replaced quotes that was not there before. -/
theorem readAt?_replaceQuotes {c : Char} (hc : c ≠ '"') {cs : List Char}
    (h : refs.readAt? (c :: cs) = none) :
    refs.readAt? (c :: cs.flatMap (Text.replacement quotes)) = none := by
  rw [Option.eq_none_iff_forall_ne_some]
  rintro ⟨d, n⟩ hread
  obtain ⟨body, rest, heq, hchar, rfl⟩ := readAt?_eq_some_iff.mp hread
  obtain ⟨rfl, hrest⟩ := List.cons.inj heq
  have hplain : '&' ∉ body ++ [';'] := by
    intro hmem
    rcases List.mem_append.mp hmem with hmem | hmem
    · exact absurd (refs.plain hchar _ hmem) (by decide)
    · exact absurd (List.mem_singleton.mp hmem) (by decide)
  have happend : body ++ ';' :: rest = body ++ [';'] ++ rest := by simp
  obtain ⟨rest', rfl, -⟩ := exists_of_flatMap_quotes hplain (hrest.trans happend)
  have hsome : refs.readAt? ('&' :: (body ++ [';'] ++ rest')) = some (d, body.length + 1) :=
    readAt?_eq_some_iff.mpr ⟨body, rest', by simp, hchar, rfl⟩
  exact absurd (h.symm.trans hsome) (by simp)

/-- **Replacing double quotes by references does not change what a text is decoded to.** -/
theorem decodeFrom_replaceQuotes (h : refs.Knows quotes) : ∀ cs : List Char,
    refs.decodeFrom 0 (cs.flatMap (Text.replacement quotes)) = refs.decodeFrom 0 cs
  | [] => rfl
  | c :: cs => by
      rw [List.flatMap_cons]
      by_cases hc : c = '"'
      · subst hc
        have hentity : Text.replacement quotes '"' = quoteEntity.toList := rfl
        rw [hentity, h.decodeFrom_entity (List.mem_singleton_self _), decodeFrom_char (by decide),
          decodeFrom_replaceQuotes h cs]
      · rw [replacement_quotes hc, List.singleton_append]
        cases hread : refs.readAt? (c :: cs) with
        | none =>
            rw [decodeFrom_of_none hread, decodeFrom_of_none (readAt?_replaceQuotes hc hread),
              decodeFrom_replaceQuotes h cs]
        | some found =>
            obtain ⟨body, rest, heq, hchar, -⟩ := readAt?_eq_some_iff.mp hread
            obtain ⟨rfl, rfl⟩ := List.cons.inj heq
            have hbody : '"' ∉ body ++ [';'] := by
              intro hmem
              rcases List.mem_append.mp hmem with hmem | hmem
              · exact absurd (refs.plain hchar _ hmem) (by decide)
              · exact absurd (List.mem_singleton.mp hmem) (by decide)
            have hsplit : body ++ ';' :: rest = body ++ [';'] ++ rest := by simp
            rw [hsplit, flatMap_quotes hbody, List.append_assoc, List.append_assoc,
              List.singleton_append, List.singleton_append, decodeFrom_reference hchar,
              decodeFrom_reference hchar, decodeFrom_replaceQuotes h rest]
  termination_by cs => cs.length

theorem decode_replaceChars_quotes (h : refs.Knows quotes) (s : String) :
    refs.decode (Text.replaceChars quotes s) = refs.decode s := by
  rw [decode, Text.toList_replaceChars, decodeFrom_replaceQuotes h, decode]

/-- A text in double quotes is read as what it is decoded to. -/
theorem readQuoted_quotedValue (h : refs.Knows quotes) (s : String) (rest : List Char) :
    refs.readQuoted ((quotedValue s).toList ++ rest) = some (refs.decode s, rest) := by
  have hquote : '"' ∉ (Text.replaceChars quotes s).toList :=
    Text.notMem_replaceChars (by decide) (by decide) s
  have htext : (quotedValue s).toList ++ rest =
      '"' :: ((Text.replaceChars quotes s).toList ++ '"' :: rest) := by
    rw [Text.toList_replaceChars, ← List.flatMap_congr fun c _ => ite_eq_replacement_quotes c]
    simp [quotedValue]
  rw [htext, readQuoted_quote hquote, String.ofList_toList, decode_replaceChars_quotes h]

end CharacterReferences

/-- **The text of an attribute is read back exactly when it has a backslash or no reference in it.**
In either form, reading ends where the attribute ends; but a text in double quotes is read with its
own references decoded. -/
theorem attribute_text_reads_back_iff (refs : CharacterReferences)
    (hrefs : refs.Knows CharacterReferences.quotes) (style : Style)
    (element : ElementId → Nat → String) (level : Nat) (name s : String) (rest : List Char) :
    ∃ read, refs.readScriptAttribute name
        ((attributeText style element level name (.text s)).toList ++ rest) = some (read, rest) ∧
      ('\\' ∈ s.toList → read = s) ∧ ('\\' ∉ s.toList → read = refs.decode s) ∧
      (read = s ↔ '\\' ∈ s.toList ∨ ¬ refs.OccursIn s.toList) := by
  have hdrop : ((attributeText style element level name (.text s)).toList ++ rest).dropPrefix?
      (name ++ "=").toList = some ((textValue style s).toList ++ rest) := by
    rw [attributeText, String.toList_append, List.append_assoc]
    exact List.dropPrefix?_append_of_beq _ (beq_self_eq_true _)
  rw [CharacterReferences.readScriptAttribute, hdrop, Option.bind_some]
  by_cases hbackslash : '\\' ∈ s.toList
  · have hvalue : textValue style s = braced (Literal.quote style.asciiOnly s) :=
      if_pos (List.contains_iff_mem.mpr hbackslash)
    have hquoted : refs.readQuoted ((textValue style s).toList ++ rest) = none := by
      have htext : (textValue style s).toList ++ rest =
          '{' :: ((Literal.quote style.asciiOnly s).toList ++ '}' :: rest) := by
        simp [hvalue, braced]
      rw [htext]
      rfl
    refine ⟨s, ?_, fun _ => rfl, fun hnot => absurd hbackslash hnot, by simp [hbackslash]⟩
    rw [hquoted, Option.none_or, hvalue, Reading.readBraced_quote]
  · have hvalue : textValue style s = quotedValue s :=
      if_neg fun hmem => hbackslash (List.contains_iff_mem.mp hmem)
    refine ⟨refs.decode s, ?_, fun hmem => absurd hmem hbackslash, fun _ => rfl, ?_⟩
    · rw [hvalue, CharacterReferences.readQuoted_quotedValue hrefs, Option.some_or]
    · rw [← String.toList_inj, CharacterReferences.decode, String.toList_ofList,
        CharacterReferences.decodeFrom_eq_self_iff]
      simp [hbackslash]

/-- A reader that knows the references for all characters that mean something in a page. -/
def pageReferences : CharacterReferences :=
  Text.reversible_htmlEntities.references

theorem pageReferences_knows_quotes : pageReferences.Knows CharacterReferences.quotes := by
  intro entry hentry
  rw [List.mem_singleton.mp hentry]
  exact Text.reversible_htmlEntities.knows_references _ (by decide)

/-- A path with a backslash, before what looks like a reference, is read back from a literal, and a
title with double quotes and ampersands, but no reference, is read back from double quotes. -/
theorem pathAndTitle_read_back :
    attributeText {} (fun _ _ => "") 0 "title" (.text "C:\\&quot;") =
      "title=\x7b'C:\\\\&quot;'\x7d" ∧
    pageReferences.readScriptAttribute "title"
      ((attributeText {} (fun _ _ => "") 0 "title" (.text "C:\\&quot;")).toList ++ ['>']) =
        some ("C:\\&quot;", ['>']) ∧
    attributeText {} (fun _ _ => "") 0 "title" (.text "R&D; \"a & b\"") =
      "title=\"R&D; &quot;a & b&quot;\"" ∧
    pageReferences.readScriptAttribute "title"
      ((attributeText {} (fun _ _ => "") 0 "title" (.text "R&D; \"a & b\"")).toList ++ ['>']) =
        some ("R&D; \"a & b\"", ['>']) := by
  obtain ⟨path, hpath, -, -, hpathBack⟩ := attribute_text_reads_back_iff pageReferences
    pageReferences_knows_quotes {} (fun _ _ => "") 0 "title" "C:\\&quot;" ['>']
  obtain ⟨title, htitle, -, -, htitleBack⟩ := attribute_text_reads_back_iff pageReferences
    pageReferences_knows_quotes {} (fun _ _ => "") 0 "title" "R&D; \"a & b\"" ['>']
  obtain rfl := hpathBack.mpr (.inl (by decide))
  obtain rfl := htitleBack.mpr
    (.inr (CharacterReferences.decodeFrom_eq_self_iff.mp (by decide)))
  exact ⟨by decide, hpath, by decide, htitle⟩

/-- A text that is a reference itself is read as the character that the reference stands for. -/
theorem quotReference_misread :
    ¬ ∀ name s : String, pageReferences.readScriptAttribute name
      (attributeText {} (fun _ _ => "") 0 name (.text s)).toList = some (s, []) := by
  intro hreads
  have hquot := hreads "title" "&quot;"
  have hread : pageReferences.readScriptAttribute "title"
      (attributeText {} (fun _ _ => "") 0 "title" (.text "&quot;")).toList = some ("\"", []) := by
    decide
  rw [hread] at hquot
  exact absurd hquot (by decide)

end ViewGen
