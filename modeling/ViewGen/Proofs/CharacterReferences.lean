import Mathlib.Data.List.Nodup
import ViewGen.Draft.VueTemplate

/-!
# Character references

A reader of markup takes what stands between an ampersand and a semicolon for a character
reference, if it knows it, and puts the character in its place.  It goes through a text once, from
the left to the right.  What was escaped with the entities of a table is read back by every reader
that knows these entities, whatever else it knows: an escaped text has no other ampersands.

## Main definitions

* `CharacterReferences` — the references that a reader knows
* `CharacterReferences.decode` — a text with its references decoded
* `CharacterReferences.readQuoted`, `CharacterReferences.readAttribute` — reading a value in double
  quotes, and an attribute that has one
* `Text.Reversible` — a table of entities that can be decoded
* `Text.Reversible.references` — the reader that knows the entities of a table and nothing else

## Main statements

* `CharacterReferences.decode_replaceChars` — decoding undoes escaping
* `Text.Reversible.exists_entity` — every ampersand of an escaped text starts an entity
* `Text.replaceChars_cons` — escaping at once is replacing one character after the other
* `escaping_reversible` — the texts and values of a template are read back as they were
-/

namespace ViewGen

/-- The characters that a reference is made of: letters and digits, and a mark before numbers. -/
def isReferenceChar (c : Char) : Bool :=
  c.isAlphanum || c == '#'

/-- The references that a reader knows, each by what stands between the ampersand and the
semicolon. -/
structure CharacterReferences where
  char? : List Char → Option Char
  plain : ∀ {body : List Char} {c : Char}, char? body = some c →
    ∀ d ∈ body, isReferenceChar d = true

/-- The parts of a text before and after the first place where a character stands. -/
def Text.cutAt (stop : Char) : List Char → Option (List Char × List Char)
  | [] => none
  | c :: cs =>
    if c = stop then some ([], cs)
    else (cutAt stop cs).map fun parts => (c :: parts.1, parts.2)

theorem Text.cutAt_append {stop : Char} {before : List Char} (h : stop ∉ before)
    (after : List Char) : cutAt stop (before ++ stop :: after) = some (before, after) := by
  induction before with
  | nil => exact if_pos rfl
  | cons c before ih =>
      obtain ⟨hne, hrest⟩ := not_or.mp (mt List.mem_cons.mpr h)
      rw [List.cons_append, cutAt, if_neg (Ne.symm hne), ih hrest]
      rfl

theorem Text.cutAt_eq_some_iff {stop : Char} {cs before after : List Char} :
    cutAt stop cs = some (before, after) ↔ stop ∉ before ∧ cs = before ++ stop :: after := by
  constructor
  · intro h
    induction cs generalizing before with
    | nil => exact absurd h (by simp [cutAt])
    | cons c cs ih =>
        rw [cutAt] at h
        split at h
        · next hc =>
          obtain ⟨rfl, rfl⟩ := Prod.mk.inj (Option.some.inj h)
          exact ⟨List.not_mem_nil, congrArg (· :: cs) hc⟩
        · next hc =>
          obtain ⟨⟨start, rest⟩, hcut, heq⟩ := Option.map_eq_some_iff.mp h
          obtain ⟨rfl, rfl⟩ := Prod.mk.inj heq
          obtain ⟨hstart, rfl⟩ := ih hcut
          exact ⟨mt List.mem_cons.mp (not_or.mpr ⟨Ne.symm hc, hstart⟩), rfl⟩
  · rintro ⟨hbefore, rfl⟩
    exact cutAt_append hbefore after

/-- What stands between the ampersand and the semicolon of an entity. -/
def Text.entityBody (entity : String) : List Char :=
  entity.toList.tail.dropLast

/-- A text that goes from an ampersand to a semicolon. -/
def Text.IsEntity (entity : String) : Prop :=
  entity.toList = '&' :: (entityBody entity ++ [';'])

instance (entity : String) : Decidable (Text.IsEntity entity) :=
  inferInstanceAs (Decidable (_ = _))

namespace CharacterReferences

variable (refs : CharacterReferences)

/-- The character of the reference at the start of a text, and how many characters after the first
belong to the reference. -/
def readAt? : List Char → Option (Char × Nat)
  | '&' :: cs =>
    (Text.cutAt ';' cs).bind fun parts =>
      (refs.char? parts.1).map fun c => (c, parts.1.length + 1)
  | _ => none

/-- Decode references in one pass; `skip` characters belong to the reference before and are passed
over. -/
def decodeFrom : Nat → List Char → List Char
  | _, [] => []
  | skip + 1, _ :: cs => decodeFrom skip cs
  | 0, c :: cs =>
    match refs.readAt? (c :: cs) with
    | some (d, more) => d :: decodeFrom more cs
    | none => c :: decodeFrom 0 cs

/-- A text with its references decoded. -/
def decode (s : String) : String :=
  String.ofList (refs.decodeFrom 0 s.toList)

/-- Read a value in double quotes.  It ends at the next double quote, and its references are
decoded.  The text after it is returned, too. -/
def readQuoted : List Char → Option (String × List Char)
  | '"' :: cs =>
    (Text.cutAt '"' cs).map fun parts => (refs.decode (String.ofList parts.1), parts.2)
  | _ => none

/-- Read an attribute with a given name and a value in double quotes. -/
def readAttribute (name : String) (cs : List Char) : Option (String × List Char) :=
  (cs.dropPrefix? (name ++ "=").toList).bind refs.readQuoted

variable {refs}

/-! ## One reference -/

section Steps

variable {c d : Char} {cs body rest : List Char} {n : Nat}

/-- A reference goes from an ampersand to a semicolon, with what the reader knows in between. -/
theorem readAt?_eq_some_iff :
    refs.readAt? cs = some (d, n) ↔
      ∃ body rest, cs = '&' :: (body ++ ';' :: rest) ∧ refs.char? body = some d ∧
        n = body.length + 1 := by
  constructor
  · intro h
    unfold readAt? at h
    split at h
    · obtain ⟨⟨body, rest⟩, hcut, hread⟩ := Option.bind_eq_some_iff.mp h
      obtain ⟨c, hchar, heq⟩ := Option.map_eq_some_iff.mp hread
      obtain ⟨rfl, rfl⟩ := Prod.mk.inj heq
      obtain ⟨-, rfl⟩ := Text.cutAt_eq_some_iff.mp hcut
      exact ⟨body, rest, rfl, hchar, rfl⟩
    · exact absurd h (by simp)
  · rintro ⟨body, rest, rfl, hchar, rfl⟩
    have hsemicolon : ';' ∉ body := fun hmem => absurd (refs.plain hchar _ hmem) (by decide)
    rw [readAt?, Text.cutAt_append hsemicolon, Option.bind_some, hchar]
    rfl

/-- No reference starts with another character. -/
theorem readAt?_eq_none (h : c ≠ '&') (cs : List Char) : refs.readAt? (c :: cs) = none := by
  rw [Option.eq_none_iff_forall_ne_some]
  rintro ⟨d, n⟩ hread
  obtain ⟨body, rest, heq, -⟩ := readAt?_eq_some_iff.mp hread
  exact h (List.cons.inj heq).1

theorem decodeFrom_length_append (skipped rest : List Char) :
    refs.decodeFrom skipped.length (skipped ++ rest) = refs.decodeFrom 0 rest := by
  induction skipped with
  | nil => rfl
  | cons c skipped ih => exact ih

/-- A reference is decoded to its character. -/
theorem decodeFrom_reference (h : refs.char? body = some d) (rest : List Char) :
    refs.decodeFrom 0 ('&' :: (body ++ ';' :: rest)) = d :: refs.decodeFrom 0 rest := by
  have hread : refs.readAt? ('&' :: (body ++ ';' :: rest)) = some (d, body.length + 1) :=
    readAt?_eq_some_iff.mpr ⟨body, rest, rfl, h, rfl⟩
  have hskip : refs.decodeFrom (body ++ [';']).length (body ++ [';'] ++ rest) =
      refs.decodeFrom 0 rest := decodeFrom_length_append _ _
  rw [List.append_assoc, List.length_append] at hskip
  rw [decodeFrom, hread]
  exact congrArg (d :: ·) hskip

/-- Where no reference starts, a character stands for itself. -/
theorem decodeFrom_of_none (h : refs.readAt? (c :: cs) = none) :
    refs.decodeFrom 0 (c :: cs) = c :: refs.decodeFrom 0 cs := by
  rw [decodeFrom, h]

theorem decodeFrom_char (h : c ≠ '&') (cs : List Char) :
    refs.decodeFrom 0 (c :: cs) = c :: refs.decodeFrom 0 cs :=
  decodeFrom_of_none (readAt?_eq_none h cs)

/-- A value that has no double quote in it ends at the quote after it. -/
theorem readQuoted_quote {value : List Char} (h : '"' ∉ value) (rest : List Char) :
    refs.readQuoted ('"' :: (value ++ '"' :: rest)) =
      some (refs.decode (String.ofList value), rest) := by
  rw [readQuoted, Text.cutAt_append h]
  rfl

end Steps

/-! ## Escaped texts -/

/-- A reader that knows the entities of a table. -/
def Knows (refs : CharacterReferences) (table : List (Char × String)) : Prop :=
  ∀ entry ∈ table, Text.IsEntity entry.2 ∧ refs.char? (Text.entityBody entry.2) = some entry.1

theorem Knows.decodeFrom_entity {table : List (Char × String)} (h : refs.Knows table)
    {entry : Char × String} (hentry : entry ∈ table) (rest : List Char) :
    refs.decodeFrom 0 (entry.2.toList ++ rest) = entry.1 :: refs.decodeFrom 0 rest := by
  obtain ⟨hentity, hchar⟩ := h entry hentry
  rw [hentity, List.cons_append, List.append_assoc, List.singleton_append,
    decodeFrom_reference hchar]

end CharacterReferences

namespace Text

variable {table : List (Char × String)}

/-- A character as it is replaced. -/
def replacement (table : List (Char × String)) (c : Char) : List Char :=
  match table.lookup c with
  | some entity => entity.toList
  | none => [c]

theorem toList_replaceChars (table : List (Char × String)) (s : String) :
    (replaceChars table s).toList = s.toList.flatMap (replacement table) :=
  String.toList_ofList

/-- A character is replaced by its entity, or stays as it is because the table does not have it. -/
theorem replacement_cases (table : List (Char × String)) (c : Char) :
    (∃ entry ∈ table, entry.1 = c ∧ replacement table c = entry.2.toList) ∨
      (∀ entry ∈ table, entry.1 ≠ c) ∧ replacement table c = [c] := by
  unfold replacement
  cases h : table.lookup c with
  | some entity =>
      obtain ⟨before, after, rfl, -⟩ := List.lookup_eq_some_iff.mp h
      exact .inl ⟨(c, entity), by simp, rfl, rfl⟩
  | none =>
      refine .inr ⟨fun entry hentry heq => ?_, rfl⟩
      have hne := List.lookup_eq_none_iff.mp h entry hentry
      simp [heq] at hne

/-- A character that is replaced, and that is in no entity, is not in the text afterwards. -/
theorem notMem_replaceChars {c : Char} (hc : c ∈ table.map Prod.fst)
    (h : ∀ entry ∈ table, c ∉ entry.2.toList) (s : String) :
    c ∉ (replaceChars table s).toList := by
  rw [toList_replaceChars]
  intro hmem
  obtain ⟨source, -, hmem⟩ := List.mem_flatMap.mp hmem
  rcases replacement_cases table source with ⟨entry, hentry, -, heq⟩ | ⟨hnone, heq⟩
  · rw [heq] at hmem
    exact h entry hentry hmem
  · rw [heq] at hmem
    obtain ⟨key, hkey, rfl⟩ := List.mem_map.mp hc
    exact hnone key hkey (List.mem_singleton.mp hmem)

/-- A table of entities that can be decoded: ampersands are replaced, the entities are references
and different ones, and no character that a reference is made of is replaced. -/
structure Reversible (table : List (Char × String)) : Prop where
  ampersand : '&' ∈ table.map Prod.fst
  entities : ∀ entry ∈ table, IsEntity entry.2 ∧ (entityBody entry.2).all isReferenceChar = true
  distinct : (table.map Prod.snd).Nodup
  replaced : ∀ entry ∈ table, entry.1 ≠ ';' ∧ isReferenceChar entry.1 = false

namespace Reversible

/-- The reader that knows the entities of a table and nothing else. -/
def references (h : Reversible table) : CharacterReferences where
  char? body := (table.find? fun entry => entityBody entry.2 == body).map Prod.fst
  plain := by
    intro body c hchar
    obtain ⟨entry, hfind, rfl⟩ := Option.map_eq_some_iff.mp hchar
    have hbody := List.find?_some hfind
    have hall := (h.entities entry (List.mem_of_find?_eq_some hfind)).2
    rw [beq_iff_eq.mp hbody] at hall
    exact List.all_eq_true.mp hall

theorem knows_references (h : Reversible table) : h.references.Knows table := by
  intro entry hentry
  have hentity := (h.entities entry hentry).1
  refine ⟨hentity, ?_⟩
  change (table.find? _).map Prod.fst = some entry.1
  cases hfind : table.find? fun other => entityBody other.2 == entityBody entry.2 with
  | none => exact absurd (List.find?_eq_none.mp hfind entry hentry) (by simp)
  | some other =>
      have hother := List.mem_of_find?_eq_some hfind
      have hbody := List.find?_some hfind
      have hsame : other.2.toList = entry.2.toList := by
        rw [(h.entities other hother).1, hentity, beq_iff_eq.mp hbody]
      rw [List.inj_on_of_nodup_map h.distinct hother hentry (String.toList_inj.mp hsame)]
      rfl

/-- A character that is replaced, other than the ampersand, is in no entity. -/
theorem notMem_entity (h : Reversible table) {c : Char} (hc : c ∈ table.map Prod.fst)
    (hne : c ≠ '&') {entry : Char × String} (hentry : entry ∈ table) : c ∉ entry.2.toList := by
  obtain ⟨key, hkey, rfl⟩ := List.mem_map.mp hc
  obtain ⟨hsemicolon, hplain⟩ := h.replaced key hkey
  obtain ⟨hentity, hall⟩ := h.entities entry hentry
  rw [hentity]
  intro hmem
  rcases List.mem_cons.mp hmem with hampersand | hmem
  · exact hne hampersand
  rcases List.mem_append.mp hmem with hmem | hmem
  · exact absurd (List.all_eq_true.mp hall _ hmem) (by simp [hplain])
  · exact hsemicolon (List.mem_singleton.mp hmem)

/-- A character that is replaced, other than the ampersand, is not in an escaped text. -/
theorem notMem_escaped (h : Reversible table) {c : Char} (hc : c ∈ table.map Prod.fst)
    (hne : c ≠ '&') (s : String) : c ∉ (replaceChars table s).toList :=
  notMem_replaceChars hc (fun _ hentry => h.notMem_entity hc hne hentry) s

/-- An entity has an ampersand at its start only. -/
theorem eq_nil_of_ampersand (h : Reversible table) {entry : Char × String} (hentry : entry ∈ table)
    {before after : List Char} (heq : entry.2.toList = before ++ '&' :: after) : before = [] := by
  obtain ⟨hentity, hall⟩ := h.entities entry hentry
  rw [hentity] at heq
  cases before with
  | nil => rfl
  | cons c before =>
      have hmem : '&' ∈ entityBody entry.2 ++ [';'] := by
        rw [(List.cons.inj heq).2]
        exact List.mem_append_right _ List.mem_cons_self
      rcases List.mem_append.mp hmem with hmem | hmem
      · exact absurd (List.all_eq_true.mp hall _ hmem) (by decide)
      · exact absurd (List.mem_singleton.mp hmem) (by decide)

/-- **Every ampersand of an escaped text starts an entity.** -/
theorem exists_entity (h : Reversible table) {s : String} {before after : List Char}
    (heq : (replaceChars table s).toList = before ++ '&' :: after) :
    ∃ entry ∈ table, entry.2.toList <+: '&' :: after := by
  rw [toList_replaceChars] at heq
  generalize s.toList = cs at heq
  induction cs generalizing before with
  | nil => exact absurd heq (by simp)
  | cons c cs ih =>
      rw [List.flatMap_cons] at heq
      -- The ampersand is in the first replacement or in what comes after it.
      obtain ⟨middle, hfirst, hrest⟩ | ⟨middle, hfirst, hrest⟩ := List.append_eq_append_iff.mp heq
      · exact ih hrest
      · cases middle with
        | nil =>
            have hlater : cs.flatMap (replacement table) = [] ++ '&' :: after := hrest.symm
            exact ih hlater
        | cons d middle =>
            obtain ⟨rfl, rfl⟩ := List.cons.inj hrest
            rcases replacement_cases table c with ⟨entry, hentry, -, hentity⟩ | ⟨hnone, hchar⟩
            · refine ⟨entry, hentry, ?_⟩
              rw [← hentity, hfirst, h.eq_nil_of_ampersand hentry (hentity.symm.trans hfirst)]
              exact List.prefix_append _ _
            · obtain ⟨key, hkey, hampersand⟩ := List.mem_map.mp h.ampersand
              have hmem : '&' ∈ [c] := by rw [← hchar, hfirst]; simp
              exact absurd (hampersand.trans (List.mem_singleton.mp hmem)) (hnone key hkey)

end Reversible

theorem reversible_attributeEntities : Reversible attributeEntities :=
  ⟨by decide, by decide, by decide, by decide⟩

theorem reversible_textEntities : Reversible textEntities :=
  ⟨by decide, by decide, by decide, by decide⟩

theorem reversible_htmlEntities : Reversible htmlEntities :=
  ⟨by decide, by decide, by decide, by decide⟩

/-- Replacing several characters at once is replacing the first one before the others, where these
do not occur in what it is replaced by. -/
theorem replaceChars_cons {entry : Char × String}
    (h : (entry.2.toList.all fun c => (table.lookup c).isNone) = true) (s : String) :
    replaceChars (entry :: table) s = replaceChars table (replaceChars [entry] s) := by
  obtain ⟨key, entity⟩ := entry
  apply String.toList_inj.mp
  rw [toList_replaceChars, toList_replaceChars, toList_replaceChars, List.flatMap_assoc]
  refine List.flatMap_congr fun c _ => ?_
  by_cases hc : c = key
  · have hfirst : ∀ others, replacement ((key, entity) :: others) c = entity.toList :=
      fun others => by simp [replacement, hc]
    have hkept : ∀ d ∈ entity.toList, replacement table d = [d] := fun d hd => by
      rw [replacement, Option.isNone_iff_eq_none.mp (List.all_eq_true.mp h d hd)]
    rw [hfirst, hfirst, List.flatMap_congr hkept, List.flatMap_singleton']
  · have hkey : (c == key) = false := beq_false_of_ne hc
    have hskip : ∀ others, replacement ((key, entity) :: others) c = replacement others c :=
      fun others => by simp [replacement, List.lookup_cons, hkey]
    rw [hskip, hskip]
    simp [replacement]

end Text

namespace CharacterReferences

variable {refs : CharacterReferences} {table : List (Char × String)}

/-- **Decoding undoes escaping**, for every reader that knows the entities. -/
theorem decode_replaceChars (h : refs.Knows table) (hampersand : '&' ∈ table.map Prod.fst)
    (s : String) : refs.decode (Text.replaceChars table s) = s := by
  rw [decode, Text.toList_replaceChars]
  apply String.toList_inj.mp
  rw [String.toList_ofList]
  induction s.toList with
  | nil => rfl
  | cons c cs ih =>
      rw [List.flatMap_cons]
      rcases Text.replacement_cases table c with ⟨entry, hentry, rfl, heq⟩ | ⟨hnone, heq⟩
      · rw [heq, h.decodeFrom_entity hentry, ih]
      · obtain ⟨entry, hentry, hkey⟩ := List.mem_map.mp hampersand
        have hc : c ≠ '&' := fun hc => hnone entry hentry (hkey.trans hc.symm)
        rw [heq, List.singleton_append, decodeFrom_char hc, ih]

/-- A value that is escaped and put in double quotes is read back, and so is the place where it
ends. -/
theorem readQuoted_quoted (h : refs.Knows Text.attributeEntities) (s : String) (rest : List Char) :
    refs.readQuoted ((Template.quoted s).toList ++ rest) = some (s, rest) := by
  have hquote : '"' ∉ (Text.escapeAttribute s).toList :=
    Text.reversible_attributeEntities.notMem_escaped (by decide) (by decide) s
  have htext : (Template.quoted s).toList ++ rest =
      '"' :: ((Text.escapeAttribute s).toList ++ '"' :: rest) := by
    simp [Template.quoted]
  rw [htext, readQuoted_quote hquote, String.ofList_toList]
  exact congrArg (fun value => some (value, rest))
    (decode_replaceChars h Text.reversible_attributeEntities.ampersand s)

/-- An attribute whose value is escaped and put in double quotes is read back. -/
theorem readAttribute_quoted (h : refs.Knows Text.attributeEntities) (name s : String)
    (rest : List Char) :
    refs.readAttribute name ((name ++ "=" ++ Template.quoted s).toList ++ rest) =
      some (s, rest) := by
  have hdrop : ((name ++ "=").toList ++ ((Template.quoted s).toList ++ rest)).dropPrefix?
      (name ++ "=").toList = some ((Template.quoted s).toList ++ rest) :=
    List.dropPrefix?_append_of_beq _ (beq_self_eq_true _)
  rw [readAttribute, String.toList_append, List.append_assoc, hdrop, Option.bind_some,
    readQuoted_quoted h]

end CharacterReferences

/-- **What is escaped is read back as it was, and nothing in it ends it early.**  Ampersands are
replaced first, so that those of the entities are not replaced again.  A value of an attribute has
no double quotes then, and a text between tags no angle brackets; every ampersand starts one of the
entities, and a reader that knows these gets the text back.  So the value of a bound attribute is
read back as the expression that was printed, by every reader that knows the entities for
values. -/
theorem escaping_reversible (s : String) :
    Text.escapeAttribute s =
      Text.replaceChars [('"', "&quot;")] (Text.replaceChars [('&', "&amp;")] s) ∧
    Text.escapeText s =
      Text.replaceChars [('>', "&gt;")]
        (Text.replaceChars [('<', "&lt;")] (Text.replaceChars [('&', "&amp;")] s)) ∧
    '"' ∉ (Text.escapeAttribute s).toList ∧
    '<' ∉ (Text.escapeText s).toList ∧ '>' ∉ (Text.escapeText s).toList ∧
    (∀ before after, (Text.escapeAttribute s).toList = before ++ '&' :: after →
      ∃ entry ∈ Text.attributeEntities, entry.2.toList <+: '&' :: after) ∧
    (∀ before after, (Text.escapeText s).toList = before ++ '&' :: after →
      ∃ entry ∈ Text.textEntities, entry.2.toList <+: '&' :: after) ∧
    Text.reversible_attributeEntities.references.decode (Text.escapeAttribute s) = s ∧
    Text.reversible_textEntities.references.decode (Text.escapeText s) = s ∧
    ∀ refs : CharacterReferences, refs.Knows Text.attributeEntities →
      ∀ (name : String) (e : Expr) (rest : List Char),
        refs.readAttribute (":" ++ name)
          ((Template.bound Template.exprText name e).toList ++ rest) =
            some (Template.exprText e, rest) := by
  have hattribute := Text.reversible_attributeEntities
  have htext := Text.reversible_textEntities
  refine ⟨?_, ?_, ?_, ?_, ?_, ?_, ?_, ?_, ?_, ?_⟩
  · exact Text.replaceChars_cons (by decide) s
  · have hfirst : Text.escapeText s = _ := Text.replaceChars_cons (by decide) s
    rw [hfirst]
    exact Text.replaceChars_cons (by decide) _
  · exact hattribute.notMem_escaped (by decide) (by decide) s
  · exact htext.notMem_escaped (by decide) (by decide) s
  · exact htext.notMem_escaped (by decide) (by decide) s
  · exact fun before after heq => hattribute.exists_entity heq
  · exact fun before after heq => htext.exists_entity heq
  · exact CharacterReferences.decode_replaceChars hattribute.knows_references hattribute.ampersand s
  · exact CharacterReferences.decode_replaceChars htext.knows_references htext.ampersand s
  · intro refs hrefs name e rest
    rw [Template.bound]
    exact CharacterReferences.readAttribute_quoted hrefs _ _ rest

/-- A title with double quotes, an angle bracket, an ampersand and what looks like an entity. -/
def quotedTitle : String := "Say \"a < b\" & &quot;"

/-- The title is escaped, its last ampersand starts an entity, and it is read back from a binding by
a reader that knows the entities for values. -/
theorem quotedTitle_reads_back :
    Text.escapeAttribute quotedTitle = "Say &quot;a < b&quot; &amp; &amp;quot;" ∧
    (∃ entry ∈ Text.attributeEntities, entry.2.toList <+: '&' :: "amp;quot;".toList) ∧
    Text.reversible_attributeEntities.references.decode (Text.escapeAttribute quotedTitle) =
      quotedTitle ∧
    Text.reversible_attributeEntities.references.readAttribute (":" ++ "title")
      ((Template.bound Template.exprText "title" (.str quotedTitle)).toList ++ [' ', '/', '>']) =
        some (Template.exprText (.str quotedTitle), [' ', '/', '>']) := by
  obtain ⟨-, -, -, -, -, hampersand, -, hdecode, -, hbinding⟩ := escaping_reversible quotedTitle
  refine ⟨by decide, ?_, hdecode, ?_⟩
  · exact hampersand "Say &quot;a < b&quot; &amp; ".toList _ (by decide)
  · exact hbinding _ Text.reversible_attributeEntities.knows_references "title" _ _

end ViewGen
