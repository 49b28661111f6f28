import Mathlib.Data.List.DropRight
import ViewGen.Json.Printer
import ViewGen.Proofs.LiteralDecoding

/-!
# Written trees are read back

A tree is written with a line for each item and field, and read with a budget and without regard to
lines.  What is read is the tree that was written.  Strings carry the argument: a quoted string ends
at the first quote that is not escaped, and every escape is read as the character it was written for.

## Main definitions

* `Json.textual` — trees of strings and words, without numbers
* `Json.weight` — a budget that is enough to read a tree

## Main statements

* `readUnits_escapeChar`, `readString_escaped` — a character, and a string
* `readValue_prettyAt` — a tree is read back from its text, whatever follows it
* `weight_le_length` — the length of the text is budget enough
* `parse?_pretty` — a written tree is read back
-/

namespace ViewGen.Json

/-! ## Strings -/

theorem hexDigit?_hexChar : ∀ n < 16, hexDigit? (hexChar n) = some n := by
  decide

theorem hexUnit?_hexChar {n : Nat} (h : n < 256) :
    hexUnit? '0' '0' (hexChar (n / 16)) (hexChar (n % 16)) = some n := by
  have hzero : hexDigit? '0' = some 0 := by decide
  have hhigh := hexDigit?_hexChar (n / 16) (by omega)
  have hlow := hexDigit?_hexChar (n % 16) (by omega)
  have hvalue : n / 16 * 16 + n % 16 = n := Nat.div_add_mod' n 16
  simp [hexUnit?, hzero, hhigh, hlow, hvalue]

/-- A backslash and a letter are read as the character they stand for. -/
theorem readUnits_short {e c : Char} (h : shortEscape? e = some c) (cs : List Char) :
    readUnits ('\\' :: e :: cs) =
      (readUnits cs).map fun (units, rest) => (c.toNat :: units, rest) := by
  have hu : e ≠ 'u' := by
    rintro rfl
    exact absurd h (by simp [shortEscape?])
  rw [readUnits]
  · rw [h]
    rfl
  · rintro a b c d tail rfl -
    exact hu rfl

/-- A character that needs no escape is read as itself. -/
theorem readUnits_plain {c : Char} (hquote : c ≠ '"') (hbackslash : c ≠ '\\')
    (hcontrol : ¬ c.toNat < 32) (cs : List Char) :
    readUnits (c :: cs) = (readUnits cs).map fun (units, rest) => (c.toNat :: units, rest) := by
  rw [readUnits]
  · rw [if_neg (by simp [hcontrol, hbackslash])]
  · exact hquote
  · rintro a b c d tail rfl -
    exact hbackslash rfl
  · rintro e tail rfl -
    exact hbackslash rfl

/-- **A character is read back from its escape**, whatever follows it. -/
theorem readUnits_escapeChar (c : Char) (cs : List Char) :
    readUnits (escapeChar c ++ cs) =
      (readUnits cs).map fun (units, rest) => (c.toNat :: units, rest) := by
  unfold escapeChar
  by_cases hquote : c = '"'
  · subst hquote
    exact readUnits_short rfl cs
  by_cases hbackslash : c = '\\'
  · subst hbackslash
    exact readUnits_short rfl cs
  by_cases hfeed : c = '\n'
  · subst hfeed
    exact readUnits_short rfl cs
  by_cases hreturn : c = '\r'
  · subst hreturn
    exact readUnits_short rfl cs
  by_cases htab : c = '\t'
  · subst htab
    exact readUnits_short rfl cs
  by_cases hback : c.toNat = 8
  · obtain rfl : c = Char.ofNat 8 := by rw [← hback, Char.ofNat_toNat]
    exact readUnits_short rfl cs
  by_cases hform : c.toNat = 12
  · obtain rfl : c = Char.ofNat 12 := by rw [← hform, Char.ofNat_toNat]
    exact readUnits_short rfl cs
  simp only [hquote, hbackslash, hfeed, hreturn, htab, hback, hform, beq_iff_eq, if_false]
  by_cases hcontrol : c.toNat < 32
  · rw [if_pos hcontrol]
    have hunit := hexUnit?_hexChar (Nat.lt_trans hcontrol (by decide))
    simp only [List.cons_append, List.nil_append]
    rw [readUnits, hunit]
    rfl
  · rw [if_neg hcontrol]
    exact readUnits_plain hquote hbackslash hcontrol cs

theorem readUnits_escaped (cs rest : List Char) :
    readUnits (cs.flatMap escapeChar ++ '"' :: rest) = some (cs.map Char.toNat, rest) := by
  induction cs with
  | nil => rfl
  | cons c cs ih =>
      rw [List.flatMap_cons, List.append_assoc, readUnits_escapeChar, ih]
      rfl

/-- Characters are not halves of surrogate pairs, so they are joined as they are. -/
theorem joinUnits?_map_toNat : ∀ cs : List Char, joinUnits? (cs.map Char.toNat) = some cs
  | [] => rfl
  | [c] => by
      obtain ⟨hhigh, hlow⟩ := Literal.toNat_not_surrogate c
      simp [joinUnits?, hhigh, hlow]
  | c :: d :: cs => by
      obtain ⟨hhigh, hlow⟩ := Literal.toNat_not_surrogate c
      have hrest := joinUnits?_map_toNat (d :: cs)
      rw [List.map_cons] at hrest
      simp [joinUnits?, hhigh, hlow, hrest]

/-- **A string is read back from its text.** -/
theorem readString_escaped (s : String) (rest : List Char) :
    readString (s.toList.flatMap escapeChar ++ '"' :: rest) = some (some s.toList, rest) := by
  simp only [readString, readUnits_escaped, Option.map_some, joinUnits?_map_toNat]

/-! ## Blanks -/

/-- Blanks that may stand between tokens. -/
def Gap (cs : List Char) : Prop :=
  ∀ c ∈ cs, isGap c = true

theorem gap_indent (level : Nat) : Gap (indent level).toList := by
  intro c hc
  rw [indent, String.toList_ofList] at hc
  rw [List.eq_of_mem_replicate hc]
  rfl

theorem skipGap_append {gap : List Char} (h : Gap gap) (cs : List Char) :
    skipGap (gap ++ cs) = skipGap cs :=
  List.dropWhile_append_of_pos h

theorem skipGap_cons {c : Char} (h : isGap c = false) (cs : List Char) :
    skipGap (c :: cs) = c :: cs :=
  List.dropWhile_cons_of_neg (by simp [h])

theorem skipGap_skipGap (cs : List Char) : skipGap (skipGap cs) = skipGap cs :=
  List.dropWhile_idempotent isGap cs

theorem skipGap_gap {gap : List Char} (h : Gap gap) {c : Char} (hc : isGap c = false)
    (cs : List Char) : skipGap (gap ++ c :: cs) = c :: cs := by
  rw [skipGap_append h, skipGap_cons hc]

theorem gap_feed : Gap ['\n'] :=
  List.forall_mem_singleton.mpr rfl

theorem gap_blank : Gap [' '] :=
  List.forall_mem_singleton.mpr rfl

theorem gap_lineBreak (level : Nat) : Gap ('\n' :: (indent level).toList) :=
  List.forall_mem_cons.mpr ⟨rfl, gap_indent level⟩

section Congr

variable {cs cs' : List Char}

/-- A value is read from its first character on, and not from the blanks before it. -/
theorem readValue_congr (h : skipGap cs = skipGap cs') (fuel : Nat) :
    readValue fuel cs = readValue fuel cs' := by
  cases fuel with
  | zero => rfl
  | succ fuel => rw [readValue, readValue, h]

theorem readItems_congr (h : skipGap cs = skipGap cs') (fuel : Nat) :
    readItems fuel cs = readItems fuel cs' := by
  cases fuel with
  | zero => rfl
  | succ fuel => rw [readItems, readItems, readValue_congr h]

theorem readFields_congr (h : skipGap cs = skipGap cs') (fuel : Nat) :
    readFields fuel cs = readFields fuel cs' := by
  cases fuel with
  | zero => rfl
  | succ fuel => rw [readFields, readFields, h]

end Congr

/-! ## Trees -/

mutual

/-- A tree of strings and words, without numbers. -/
def textual : Json → Bool
  | .null | .bool _ | .str _ => true
  | .int _ | .float _ | .unreadable => false
  | .arr items => textualItems items
  | .obj fields => textualFields fields

/-- Items without numbers. -/
def textualItems : List Json → Bool
  | [] => true
  | j :: js => textual j && textualItems js

/-- Fields without numbers. -/
def textualFields : List (String × Json) → Bool
  | [] => true
  | (_, j) :: fs => textual j && textualFields fs

end

mutual

/-- A budget that is enough to read a tree. -/
def weight : Json → Nat
  | .arr items => weightItems items + 1
  | .obj fields => weightFields fields + 1
  | _ => 1

/-- A budget that is enough to read items. -/
def weightItems : List Json → Nat
  | [] => 0
  | j :: js => weight j + weightItems js + 1

/-- A budget that is enough to read fields. -/
def weightFields : List (String × Json) → Nat
  | [] => 0
  | (_, j) :: fs => weight j + weightFields fs + 1

end

/-- The lines of items or fields, with the level that they stand at. -/
def block (level : Nat) (lines : List String) : String :=
  ",\n".intercalate (lines.map (indent level ++ ·))

theorem block_singleton (level : Nat) (line : String) :
    block level [line] = indent level ++ line := by
  simp [block]

theorem block_cons_cons (level : Nat) (line next : String) (lines : List String) :
    block level (line :: next :: lines) =
      indent level ++ line ++ ",\n" ++ block level (next :: lines) := by
  rw [block, block, List.map_cons, List.map_cons, String.intercalate_cons_cons]

theorem bracketed_cons (opening closing : String) (level : Nat) (line : String)
    (lines : List String) :
    bracketed opening closing level (line :: lines) =
      opening ++ "\n" ++ block (level + 1) (line :: lines) ++ "\n" ++ indent level ++ closing :=
  rfl

/-! ## One item or field -/

section Steps

variable {fuel : Nat} {cs tail next rest : List Char} {j : Json}

theorem readItems_last (hvalue : readValue fuel cs = some (j, tail))
    (htail : skipGap tail = ']' :: rest) : readItems (fuel + 1) cs = some ([j], rest) := by
  simp [readItems, hvalue, htail]

theorem readItems_more {js : List Json} (hvalue : readValue fuel cs = some (j, tail))
    (htail : skipGap tail = ',' :: next) (hnext : readItems fuel next = some (js, rest)) :
    readItems (fuel + 1) cs = some (j :: js, rest) := by
  simp [readItems, hvalue, htail, hnext]

variable {key : String} {text : List Char}

theorem toList_quote_append (key : String) (text : List Char) :
    (quote key).toList ++ text = '"' :: (key.toList.flatMap escapeChar ++ '"' :: text) := by
  simp [quote]

/-- The key of a field is read first, and then its value. -/
theorem readFields_key (hkey : skipGap cs = (quote key).toList ++ ':' :: text)
    (hvalue : readValue fuel text = some (j, tail)) :
    readFields (fuel + 1) cs = match skipGap tail with
      | ',' :: next => do
        let (fields, rest) ← readFields fuel next
        return (fields.map ((key, j) :: ·), rest)
      | '}' :: rest => some (some [(key, j)], rest)
      | _ => none := by
  have hcolon : skipGap (':' :: text) = ':' :: text := skipGap_cons rfl text
  simp only [readFields, hkey, toList_quote_append, readString_escaped, hcolon, hvalue,
    Option.bind_eq_bind, Option.bind_some, String.ofList_toList, Option.map_some]
  rfl

theorem readFields_last (hkey : skipGap cs = (quote key).toList ++ ':' :: text)
    (hvalue : readValue fuel text = some (j, tail)) (htail : skipGap tail = '}' :: rest) :
    readFields (fuel + 1) cs = some (some [(key, j)], rest) := by
  rw [readFields_key hkey hvalue, htail]
  rfl

theorem readFields_more {fs : List (String × Json)}
    (hkey : skipGap cs = (quote key).toList ++ ':' :: text)
    (hvalue : readValue fuel text = some (j, tail)) (htail : skipGap tail = ',' :: next)
    (hnext : readFields fuel next = some (some fs, rest)) :
    readFields (fuel + 1) cs = some (some ((key, j) :: fs), rest) := by
  rw [readFields_key hkey hvalue, htail]
  simp [hnext]

end Steps

/-! ## Reading back -/

theorem skipGap_quote (level : Nat) (key : String) (text : List Char) :
    skipGap ((indent level).toList ++ ((quote key).toList ++ text)) =
      (quote key).toList ++ text := by
  rw [toList_quote_append, skipGap_gap (gap_indent level) rfl]

/-- A block starts with its first line. -/
theorem exists_skipGap_block (level : Nat) {line : String} {c : Char} {cs : List Char}
    (hline : line.toList = c :: cs) (hc : isGap c = false) (lines : List String)
    (rest : List Char) :
    ∃ tail, skipGap ((block level (line :: lines)).toList ++ rest) = c :: tail := by
  have hblock : ∃ more, block level (line :: lines) = indent level ++ line ++ more := by
    cases lines with
    | nil => exact ⟨"", by rw [block_singleton, String.append_empty]⟩
    | cons next lines => exact ⟨_, by rw [block_cons_cons, String.append_assoc]⟩
  obtain ⟨more, hmore⟩ := hblock
  rw [hmore, String.toList_append, String.toList_append, hline, List.append_assoc,
    List.append_assoc, List.cons_append]
  exact ⟨_, skipGap_gap (gap_indent level) hc _⟩

/-- An array with items is read item by item. -/
theorem readValue_array {fuel : Nat} {cs tail rest : List Char} {c : Char} {items : List Json}
    (hstart : skipGap cs = c :: tail) (hc : c ≠ ']')
    (hitems : readItems fuel cs = some (items, rest)) :
    readValue (fuel + 1) ('[' :: cs) = some (.arr items, rest) := by
  rw [← readItems_congr (skipGap_skipGap cs), hstart] at hitems
  simp only [readValue, show skipGap ('[' :: cs) = '[' :: cs from rfl, hstart]
  split
  · next heq => exact absurd (List.cons.inj heq).1 hc
  · rw [hitems]
    rfl

/-- An object with fields is read field by field. -/
theorem readValue_object {fuel : Nat} {cs tail rest : List Char} {c : Char}
    {fields : List (String × Json)} (hstart : skipGap cs = c :: tail) (hc : c ≠ '\x7d')
    (hfields : readFields fuel cs = some (some fields, rest)) :
    readValue (fuel + 1) ('\x7b' :: cs) = some (.obj fields, rest) := by
  rw [← readFields_congr (skipGap_skipGap cs), hstart] at hfields
  simp only [readValue, show skipGap ('\x7b' :: cs) = '\x7b' :: cs from rfl, hstart]
  split
  · next heq => exact absurd (List.cons.inj heq).1 hc
  · rw [hfields]
    rfl

theorem exists_bracketed_eq (opening closing : String) (level : Nat) (lines : List String) :
    ∃ rest, bracketed opening closing level lines = opening ++ rest := by
  unfold bracketed
  split
  · exact ⟨closing, rfl⟩
  · simp only [String.append_assoc]
    exact ⟨_, rfl⟩

/-- A tree starts with a character that is neither a blank nor a closing bracket. -/
theorem exists_head_prettyAt {j : Json} (h : j.textual = true) (level : Nat) :
    ∃ c cs, (prettyAt level j).toList = c :: cs ∧ isGap c = false ∧ c ≠ ']' := by
  cases j with
  | null => exact ⟨'n', ['u', 'l', 'l'], by simp [prettyAt, compact], rfl, by decide⟩
  | bool b =>
      cases b with
      | true => exact ⟨'t', ['r', 'u', 'e'], by simp [prettyAt, compact], rfl, by decide⟩
      | false => exact ⟨'f', ['a', 'l', 's', 'e'], by simp [prettyAt, compact], rfl, by decide⟩
  | int n => exact absurd h (by simp [textual])
  | float x => exact absurd h (by simp [textual])
  | str s =>
      refine ⟨'"', s.toList.flatMap escapeChar ++ ['"'], ?_, rfl, by decide⟩
      simp [prettyAt, compact, quote]
  | arr items =>
      obtain ⟨rest, hrest⟩ := exists_bracketed_eq "[" "]" level (prettyItems (level + 1) items)
      exact ⟨'[', rest.toList, by simp [prettyAt, hrest], rfl, by decide⟩
  | obj fields =>
      obtain ⟨rest, hrest⟩ :=
        exists_bracketed_eq "\x7b" "\x7d" level (prettyFields (level + 1) fields)
      exact ⟨'\x7b', rest.toList, by simp [prettyAt, hrest], rfl, by decide⟩
  | unreadable => exact absurd h (by simp [textual])

mutual

/-- **A tree is read back from its text**, whatever follows it. -/
theorem readValue_prettyAt : ∀ (j : Json) {fuel : Nat} (level : Nat) (rest : List Char),
    j.textual = true → j.weight ≤ fuel →
      readValue fuel ((prettyAt level j).toList ++ rest) = some (j, rest)
  | .null, fuel + 1, level, rest, _, _ => by simp [prettyAt, compact]; rfl
  | .bool true, fuel + 1, level, rest, _, _ => by simp [prettyAt, compact]; rfl
  | .bool false, fuel + 1, level, rest, _, _ => by simp [prettyAt, compact]; rfl
  | .str s, fuel + 1, level, rest, _, _ => by
      have hgap : ∀ cs, skipGap ('"' :: cs) = '"' :: cs := skipGap_cons rfl
      simp [prettyAt, compact, toList_quote_append, readValue, hgap, readString_escaped]
  | .arr [], fuel + 1, level, rest, _, _ => by
      simp [prettyAt, prettyItems, bracketed]; rfl
  | .obj [], fuel + 1, level, rest, _, _ => by
      simp [prettyAt, prettyFields, bracketed]; rfl
  | .arr (j :: js), fuel + 1, level, rest, htextual, hfuel => by
      rw [textual] at htextual
      rw [weight, Nat.add_le_add_iff_right] at hfuel
      obtain ⟨c, cs, hhead, hgap, hc⟩ :=
        exists_head_prettyAt ((Bool.and_eq_true _ _).mp htextual).1 (level + 1)
      have hitems := readItems_block j js (level + 1) rest htextual hfuel (gap_lineBreak level)
      obtain ⟨tail, hstart⟩ := exists_skipGap_block (level + 1) hhead hgap
        (prettyItems (level + 1) js) ('\n' :: (indent level).toList ++ ']' :: rest)
      rw [← readItems_congr (skipGap_append gap_feed _)] at hitems
      rw [← skipGap_append gap_feed] at hstart
      have htext : (prettyAt level (.arr (j :: js))).toList ++ rest = '[' :: (['\n'] ++
          ((block (level + 1) (prettyItems (level + 1) (j :: js))).toList ++
            ('\n' :: (indent level).toList ++ ']' :: rest))) := by
        simp [prettyAt, prettyItems, bracketed_cons, String.toList_append]
      rw [htext]
      exact readValue_array hstart hc hitems
  | .obj ((key, j) :: fs), fuel + 1, level, rest, htextual, hfuel => by
      rw [textual] at htextual
      rw [weight, Nat.add_le_add_iff_right] at hfuel
      have hfields := readFields_block key j fs (level + 1) rest htextual hfuel
        (gap_lineBreak level)
      have hline : (quote key ++ ": " ++ prettyAt (level + 1) j).toList = '"' ::
          (key.toList.flatMap escapeChar ++ '"' ::
            (": " ++ prettyAt (level + 1) j).toList) := by
        simp [quote]
      obtain ⟨tail, hstart⟩ := exists_skipGap_block (level + 1) hline rfl
        (prettyFields (level + 1) fs) ('\n' :: (indent level).toList ++ '\x7d' :: rest)
      rw [← readFields_congr (skipGap_append gap_feed _)] at hfields
      rw [← skipGap_append gap_feed] at hstart
      have htext : (prettyAt level (.obj ((key, j) :: fs))).toList ++ rest = '\x7b' :: (['\n'] ++
          ((block (level + 1) (prettyFields (level + 1) ((key, j) :: fs))).toList ++
            ('\n' :: (indent level).toList ++ '\x7d' :: rest))) := by
        simp [prettyAt, prettyFields, bracketed_cons, String.toList_append]
      rw [htext]
      exact readValue_object hstart (by decide) hfields

/-- Items are read back from their lines. -/
theorem readItems_block : ∀ (j : Json) (js : List Json) {fuel : Nat} (level : Nat)
    {gap : List Char} (rest : List Char), textualItems (j :: js) = true →
    weightItems (j :: js) ≤ fuel → Gap gap →
      readItems fuel ((block level (prettyItems level (j :: js))).toList ++ (gap ++ ']' :: rest)) =
        some (j :: js, rest)
  | j, js, 0, level, gap, rest, htextual, hfuel, hgap => by
      rw [weightItems] at hfuel
      omega
  | j, [], fuel + 1, level, gap, rest, htextual, hfuel, hgap => by
      rw [textualItems, Bool.and_eq_true] at htextual
      rw [weightItems] at hfuel
      have hvalue := readValue_prettyAt j level (gap ++ ']' :: rest) htextual.1
        (by omega : j.weight ≤ fuel)
      rw [← readValue_congr (skipGap_append (gap_indent level) _)] at hvalue
      rw [prettyItems, prettyItems, block_singleton, String.toList_append, List.append_assoc]
      exact readItems_last hvalue (skipGap_gap hgap rfl rest)
  | j, next :: js, fuel + 1, level, gap, rest, htextual, hfuel, hgap => by
      rw [textualItems, Bool.and_eq_true] at htextual
      rw [weightItems] at hfuel
      have hnext := readItems_block next js level rest htextual.2
        (by omega : weightItems (next :: js) ≤ fuel) hgap
      rw [← readItems_congr (skipGap_append gap_feed _)] at hnext
      have hvalue := readValue_prettyAt j level (',' :: (['\n'] ++
        ((block level (prettyItems level (next :: js))).toList ++ (gap ++ ']' :: rest)))) htextual.1
        (by omega : j.weight ≤ fuel)
      rw [← readValue_congr (skipGap_append (gap_indent level) _)] at hvalue
      have htext : (block level (prettyItems level (j :: next :: js))).toList ++
          (gap ++ ']' :: rest) =
            (indent level).toList ++ ((prettyAt level j).toList ++ ',' :: (['\n'] ++
              ((block level (prettyItems level (next :: js))).toList ++ (gap ++ ']' :: rest)))) := by
        simp [prettyItems, block_cons_cons, String.toList_append]
      rw [htext]
      exact readItems_more hvalue (skipGap_cons rfl _) hnext

/-- Fields are read back from their lines. -/
theorem readFields_block : ∀ (key : String) (j : Json) (fs : List (String × Json)) {fuel : Nat}
    (level : Nat) {gap : List Char} (rest : List Char), textualFields ((key, j) :: fs) = true →
    weightFields ((key, j) :: fs) ≤ fuel → Gap gap →
      readFields fuel ((block level (prettyFields level ((key, j) :: fs))).toList ++
        (gap ++ '\x7d' :: rest)) = some (some ((key, j) :: fs), rest)
  | key, j, fs, 0, level, gap, rest, htextual, hfuel, hgap => by
      rw [weightFields] at hfuel
      omega
  | key, j, [], fuel + 1, level, gap, rest, htextual, hfuel, hgap => by
      rw [textualFields, Bool.and_eq_true] at htextual
      rw [weightFields] at hfuel
      have hvalue := readValue_prettyAt j level (gap ++ '\x7d' :: rest) htextual.1
        (by omega : j.weight ≤ fuel)
      rw [← readValue_congr (skipGap_append gap_blank _)] at hvalue
      have htext : (block level (prettyFields level [(key, j)])).toList ++ (gap ++ '\x7d' :: rest) =
          (indent level).toList ++ ((quote key).toList ++ ':' :: ([' '] ++
            ((prettyAt level j).toList ++ (gap ++ '\x7d' :: rest)))) := by
        simp [prettyFields, block_singleton, String.toList_append]
      rw [htext]
      exact readFields_last (skipGap_quote level key _) hvalue (skipGap_gap hgap rfl rest)
  | key, j, (key', j') :: fs, fuel + 1, level, gap, rest, htextual, hfuel, hgap => by
      rw [textualFields, Bool.and_eq_true] at htextual
      rw [weightFields] at hfuel
      have hnext := readFields_block key' j' fs level rest htextual.2
        (by omega : weightFields ((key', j') :: fs) ≤ fuel) hgap
      rw [← readFields_congr (skipGap_append gap_feed _)] at hnext
      have hvalue := readValue_prettyAt j level (',' :: (['\n'] ++
        ((block level (prettyFields level ((key', j') :: fs))).toList ++
          (gap ++ '\x7d' :: rest)))) htextual.1 (by omega : j.weight ≤ fuel)
      rw [← readValue_congr (skipGap_append gap_blank _)] at hvalue
      have htext : (block level (prettyFields level ((key, j) :: (key', j') :: fs))).toList ++
          (gap ++ '\x7d' :: rest) =
            (indent level).toList ++ ((quote key).toList ++ ':' :: ([' '] ++
              ((prettyAt level j).toList ++ ',' :: (['\n'] ++
                ((block level (prettyFields level ((key', j') :: fs))).toList ++
                  (gap ++ '\x7d' :: rest)))))) := by
        simp [prettyFields, block_cons_cons, String.toList_append]
      rw [htext]
      exact readFields_more (skipGap_quote level key _) hvalue (skipGap_cons rfl _) hnext

end

/-! ## Whole texts -/

theorem length_indent (level : Nat) : (indent level).length = 2 * level := by
  rw [← String.length_toList, indent, String.toList_ofList, List.length_replicate]

theorem length_le_bracketed (opening closing : String) (level : Nat) (lines : List String) :
    opening.length + (block (level + 1) lines).length ≤
      (bracketed opening closing level lines).length := by
  cases lines with
  | nil => simp [block, bracketed, String.length_append]
  | cons line lines =>
      rw [bracketed_cons]
      simp only [String.length_append]
      omega

/-- A line takes more room in a block than by itself. -/
theorem length_lt_block (level : Nat) (line : String) (lines : List String) :
    line.length + (block (level + 1) lines).length <
      (block (level + 1) (line :: lines)).length := by
  have hindent := length_indent (level + 1)
  cases lines with
  | nil =>
      rw [block_singleton, String.length_append]
      simp only [block, List.map_nil, String.intercalate_nil, String.length_empty]
      omega
  | cons next lines =>
      rw [block_cons_cons]
      simp only [String.length_append]
      omega

theorem length_prettyAt_pos {j : Json} (h : j.textual = true) (level : Nat) :
    0 < (prettyAt level j).length := by
  obtain ⟨c, cs, hhead, -, -⟩ := exists_head_prettyAt h level
  rw [← String.length_toList, hhead]
  exact Nat.succ_pos _

mutual

/-- **The length of a text is budget enough to read it.** -/
theorem weight_le_length : ∀ (j : Json) (level : Nat), j.textual = true →
    j.weight ≤ (prettyAt level j).length
  | .null, level, htextual => length_prettyAt_pos htextual level
  | .bool b, level, htextual => length_prettyAt_pos htextual level
  | .str s, level, htextual => length_prettyAt_pos htextual level
  | .arr items, level, htextual => by
      have hitems := weightItems_le_length items level htextual
      have hlength := length_le_bracketed "[" "]" level (prettyItems (level + 1) items)
      have hopening : "[".length = 1 := rfl
      rw [weight, prettyAt]
      omega
  | .obj fields, level, htextual => by
      have hfields := weightFields_le_length fields level htextual
      have hlength := length_le_bracketed "\x7b" "\x7d" level (prettyFields (level + 1) fields)
      have hopening : "\x7b".length = 1 := rfl
      rw [weight, prettyAt]
      omega

theorem weightItems_le_length : ∀ (items : List Json) (level : Nat), textualItems items = true →
    weightItems items ≤ (block (level + 1) (prettyItems (level + 1) items)).length
  | [], level, _ => Nat.zero_le _
  | j :: js, level, htextual => by
      obtain ⟨hj, hjs⟩ := (Bool.and_eq_true _ _).mp htextual
      have hfirst := weight_le_length j (level + 1) hj
      have hrest := weightItems_le_length js level hjs
      have hblock := length_lt_block level (prettyAt (level + 1) j) (prettyItems (level + 1) js)
      rw [weightItems, prettyItems]
      omega

theorem weightFields_le_length : ∀ (fields : List (String × Json)) (level : Nat),
    textualFields fields = true →
      weightFields fields ≤ (block (level + 1) (prettyFields (level + 1) fields)).length
  | [], level, _ => Nat.zero_le _
  | (key, j) :: fs, level, htextual => by
      obtain ⟨hj, hfs⟩ := (Bool.and_eq_true _ _).mp htextual
      have hfirst := weight_le_length j (level + 1) hj
      have hrest := weightFields_le_length fs level hfs
      have hblock := length_lt_block level (quote key ++ ": " ++ prettyAt (level + 1) j)
        (prettyFields (level + 1) fs)
      rw [String.length_append] at hblock
      rw [weightFields, prettyFields]
      omega

end

/-- **A written tree is read back**, also with blanks after it. -/
theorem parse?_pretty {j : Json} (h : j.textual = true) {gap : String} (hgap : Gap gap.toList) :
    parse? (j.pretty ++ gap) = some j := by
  have hfuel : j.weight ≤ (j.pretty ++ gap).length + 1 := by
    have hlength := weight_le_length j 0 h
    rw [String.length_append]
    exact Nat.le_succ_of_le (Nat.le_add_right_of_le hlength)
  have hread := readValue_prettyAt j 0 gap.toList h hfuel
  have hend : skipGap gap.toList = [] := List.dropWhile_eq_nil_iff.mpr hgap
  rw [← pretty, ← String.toList_append] at hread
  rw [parse?, hread]
  simp [hend]

end ViewGen.Json
