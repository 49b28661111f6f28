import Mathlib.Data.List.Forall2
import ViewGen.Project.Files

/-!
# Decoding undoes escaping

`Literal.unescape` replaces escapes of four digits wherever they stand, without knowing where a
literal begins or ends.  It does no harm because everything that is printed decodes piece by piece:
each piece decodes to one text, whatever follows it.

## Main definitions

* `Literal.Bare` — a text without backslashes
* `Literal.Decodes` — characters that decode to others, whatever follows them
* `Literal.Unescapes` — the same for texts

## Main statements

* `decodes_charEscape` — an escape decodes to its character, a surrogate pair to one character
* `ascii_escape` — a character is escaped to ASCII ones
* `unescapes_quote` — an escaped literal decodes to the plain one
* `Unescapes.append`, `Unescapes.intercalate`, `Unescapes.join_map` — pieces decode one by one
* `bare_numberText` — numbers are printed without backslashes

## Design notes

A piece that ended in the middle of an escape would decode differently from one place to another.
The quantifier over what follows excludes such pieces, and makes the relation closed under
concatenation.
-/

namespace ViewGen.Literal

/-! ## Escapes -/

theorem hexDigit?_hexDigit : ∀ n < 16, Json.hexDigit? (hexDigit n) = some n := by
  decide

/-- A unit is read back from its escape. -/
theorem unitAt?_unitEscape {n : Nat} (h : n < 0x10000) (rest : List Char) :
    unitAt? (unitEscape n ++ rest) = some n := by
  have hdigit : ∀ k, Json.hexDigit? (hexDigit (k % 16)) = some (k % 16) :=
    fun k => hexDigit?_hexDigit _ (Nat.mod_lt k (by decide))
  have hvalue : ((n / 4096 % 16 * 16 + n / 256 % 16) * 16 + n / 16 % 16) * 16 + n % 16 = n := by
    omega
  simp [unitEscape, unitAt?, Json.hexUnit?, hdigit, hvalue]

theorem toNat_hexDigit_lt : ∀ n < 16, (hexDigit n).toNat < 128 := by
  decide

theorem ascii_unitEscape (n : Nat) : ∀ c ∈ unitEscape n, c.toNat < 128 := by
  have hdigit : ∀ k, (hexDigit (k % 16)).toNat < 128 :=
    fun k => toNat_hexDigit_lt _ (Nat.mod_lt k (by decide))
  simp [unitEscape, hdigit]

theorem ascii_charEscape (c : Char) : ∀ d ∈ charEscape c, d.toNat < 128 := by
  unfold charEscape
  dsimp only
  split
  · exact ascii_unitEscape _
  · exact List.forall_mem_append.mpr ⟨ascii_unitEscape _, ascii_unitEscape _⟩

/-- Every character is escaped to ASCII ones, if that is asked for. -/
theorem ascii_escape (c : Char) : ∀ d ∈ escape true c, d.toNat < 128 := by
  unfold escape
  iterate 5
    split
    · simp
  split
  · exact ascii_charEscape c
  · next hsmall =>
    have hlt : c.toNat < 128 := by simpa using hsmall
    exact List.forall_mem_singleton.mpr hlt

/-- Characters that decode to others, whatever follows them. -/
def Decodes (x y : List Char) : Prop :=
  ∀ rest, unescapeFrom 0 (x ++ rest) = y ++ unescapeFrom 0 rest

theorem Decodes.nil : Decodes [] [] :=
  fun _ => rfl

theorem Decodes.append {x y x' y' : List Char} (h : Decodes x y) (h' : Decodes x' y') :
    Decodes (x ++ x') (y ++ y') := by
  intro rest
  rw [List.append_assoc, h, h', List.append_assoc]

/-- Where no escape of four digits begins, one character is passed over. -/
theorem unescapeFrom_of_none {c : Char} {cs : List Char} (hpair : c = '\\' → cs.head? ≠ some '\\')
    (h : unitAt? (c :: cs) = none) : unescapeFrom 0 (c :: cs) = c :: unescapeFrom 0 cs := by
  rw [unescapeFrom]
  · rw [h]
  · rintro tail rfl rfl
    exact hpair rfl rfl

/-- A character that is no backslash stands for itself. -/
theorem decodes_char {c : Char} (h : c ≠ '\\') : Decodes [c] [c] := by
  intro rest
  refine unescapeFrom_of_none (fun heq => absurd heq h) ?_
  unfold unitAt?
  split
  · next heq => exact absurd (List.cons.inj heq).1 h
  · rfl

/-- An escaped backslash is passed over as a pair. -/
theorem decodes_backslashes : Decodes ['\\', '\\'] ['\\', '\\'] := by
  intro rest
  show unescapeFrom 0 ('\\' :: '\\' :: rest) = '\\' :: '\\' :: unescapeFrom 0 rest
  rw [unescapeFrom]
  rfl

/-- A backslash before a character that is neither another one nor `u` is passed over alone. -/
theorem decodes_mark {c : Char} (h : c ≠ '\\') (hu : c ≠ 'u') : Decodes ['\\', c] ['\\', c] := by
  intro rest
  have hnone : unitAt? ('\\' :: c :: rest) = none := by
    unfold unitAt?
    split
    · next heq => exact absurd (List.cons.inj (List.cons.inj heq).2).1 hu
    · rfl
  have hstep : unescapeFrom 0 ('\\' :: c :: rest) = '\\' :: unescapeFrom 0 (c :: rest) :=
    unescapeFrom_of_none (fun _ heq => h (Option.some.inj heq)) hnone
  show unescapeFrom 0 ('\\' :: c :: rest) = '\\' :: c :: unescapeFrom 0 rest
  rw [hstep]
  exact congrArg ('\\' :: ·) (decodes_char h rest)

/-- The escape of a unit that is no half of a surrogate pair decodes to its character. -/
theorem decodes_unitEscape {n : Nat} (h : n < 0x10000) (hhigh : Json.isHighUnit n = false)
    (hlow : Json.isLowUnit n = false) : Decodes (unitEscape n) [Char.ofNat n] := by
  intro rest
  have hunit := unitAt?_unitEscape h rest
  unfold unitEscape at hunit ⊢
  simp only [List.cons_append, List.nil_append] at hunit ⊢
  rw [unescapeFrom]
  · rw [hunit]
    simp only [hhigh, hlow, Bool.false_eq_true, if_false]
    rfl
  · simp

/-- The escapes of a surrogate pair decode to one character. -/
theorem decodes_surrogates {high low : Nat} (hhigh : Json.isHighUnit high = true)
    (hlow : Json.isLowUnit low = true) :
    Decodes (unitEscape high ++ unitEscape low) [Json.pairChar high low] := by
  intro rest
  have hbounds : high < 0x10000 ∧ low < 0x10000 := by
    simp only [Json.isHighUnit, Json.isLowUnit, Bool.and_eq_true, decide_eq_true_eq] at hhigh hlow
    omega
  rw [List.append_assoc]
  have hfirst := unitAt?_unitEscape hbounds.1 (unitEscape low ++ rest)
  have hsecond := unitAt?_unitEscape hbounds.2 rest
  unfold unitEscape at hfirst hsecond ⊢
  simp only [List.cons_append, List.nil_append] at hfirst hsecond ⊢
  rw [unescapeFrom]
  · rw [hfirst]
    simp only [hhigh, if_true, List.drop_succ_cons, List.drop_zero, hsecond, hlow]
    rfl
  · simp

/-- Characters are not halves of surrogate pairs. -/
theorem toNat_not_surrogate (c : Char) :
    Json.isHighUnit c.toNat = false ∧ Json.isLowUnit c.toNat = false := by
  have hvalid : c.toNat < 0xD800 ∨ 0xDFFF < c.toNat ∧ c.toNat < 0x110000 := c.valid
  simp only [Json.isHighUnit, Json.isLowUnit, Bool.and_eq_false_iff, decide_eq_false_iff_not]
  omega

/-- The units that a character beyond 16 bits is escaped with are a surrogate pair, and the
character is the one of the pair. -/
theorem surrogates_of_large {c : Char} (h : ¬ c.toNat < 0x10000) :
    Json.isHighUnit (0xD800 + (c.toNat - 0x10000) / 0x400) = true ∧
      Json.isLowUnit (0xDC00 + (c.toNat - 0x10000) % 0x400) = true ∧
      Json.pairChar (0xD800 + (c.toNat - 0x10000) / 0x400)
        (0xDC00 + (c.toNat - 0x10000) % 0x400) = c := by
  have hvalid : c.toNat < 0xD800 ∨ 0xDFFF < c.toNat ∧ c.toNat < 0x110000 := c.valid
  have hvalue : 0x10000 + (0xD800 + (c.toNat - 0x10000) / 0x400 - 0xD800) * 0x400 +
      (0xDC00 + (c.toNat - 0x10000) % 0x400 - 0xDC00) = c.toNat := by omega
  refine ⟨?_, ?_, ?_⟩
  · simp only [Json.isHighUnit, Bool.and_eq_true, decide_eq_true_eq]
    omega
  · simp only [Json.isLowUnit, Bool.and_eq_true, decide_eq_true_eq]
    omega
  · rw [Json.pairChar, hvalue, Char.ofNat_toNat]

/-- **An escape decodes to its character**, whether it is one unit or a surrogate pair. -/
theorem decodes_charEscape (c : Char) : Decodes (charEscape c) [c] := by
  obtain ⟨hhigh, hlow⟩ := toNat_not_surrogate c
  unfold charEscape
  dsimp only
  by_cases hsmall : c.toNat < 0x10000
  · rw [if_pos hsmall]
    have hunit := decodes_unitEscape hsmall hhigh hlow
    rwa [Char.ofNat_toNat] at hunit
  · rw [if_neg hsmall]
    obtain ⟨hfirst, hsecond, hpair⟩ := surrogates_of_large hsmall
    have hsurrogates := decodes_surrogates hfirst hsecond
    rwa [hpair] at hsurrogates

/-- A character of a literal decodes to what it is without escapes for what is beyond ASCII. -/
theorem decodes_escape (c : Char) : Decodes (escape true c) (escape false c) := by
  unfold escape
  by_cases hbackslash : c = '\\'
  · subst hbackslash
    exact decodes_backslashes
  by_cases hquote : c = '\''
  · subst hquote
    exact decodes_mark (by decide) (by decide)
  by_cases hfeed : c = '\n'
  · subst hfeed
    exact decodes_mark (by decide) (by decide)
  by_cases hreturn : c = '\r'
  · subst hreturn
    exact decodes_mark (by decide) (by decide)
  by_cases htab : c = '\t'
  · subst htab
    exact decodes_mark (by decide) (by decide)
  simp only [hbackslash, hquote, hfeed, hreturn, htab, beq_iff_eq, if_false, Bool.true_and,
    Bool.false_and, Bool.false_eq_true, decide_eq_true_eq]
  split
  · exact decodes_charEscape c
  · exact decodes_char hbackslash

/-! ## Texts -/

/-- A text without backslashes. -/
def Bare (s : String) : Prop :=
  '\\' ∉ s.toList

instance (s : String) : Decidable (Bare s) :=
  inferInstanceAs (Decidable ('\\' ∉ s.toList))

/-- A text that decodes to another one, whatever follows it. -/
def Unescapes (s t : String) : Prop :=
  Decodes s.toList t.toList

theorem Unescapes.unescape_eq {s t : String} (h : Unescapes s t) : unescape s = t := by
  have hdecoded := h []
  rw [List.append_nil, unescapeFrom, List.append_nil] at hdecoded
  rw [unescape, hdecoded, String.ofList_toList]

theorem Unescapes.append {s t s' t' : String} (h : Unescapes s t) (h' : Unescapes s' t') :
    Unescapes (s ++ s') (t ++ t') := by
  unfold Unescapes
  rw [String.toList_append, String.toList_append]
  exact Decodes.append h h'

/-- A text without backslashes stands for itself. -/
theorem Bare.unescapes {s : String} (h : Bare s) : Unescapes s s := by
  have hchars : ∀ cs : List Char, '\\' ∉ cs → Decodes cs cs := by
    intro cs
    induction cs with
    | nil => exact fun _ => .nil
    | cons c rest ih =>
        intro hcs
        have hc : c ≠ '\\' := fun heq => hcs (heq ▸ List.mem_cons_self)
        exact (decodes_char hc).append (ih fun hrest => hcs (List.mem_cons_of_mem c hrest))
  exact hchars s.toList h

theorem Unescapes.append_bare {s t u : String} (h : Unescapes s t) (hu : Bare u) :
    Unescapes (s ++ u) (t ++ u) :=
  h.append hu.unescapes

theorem Unescapes.enclose {s t u v : String} (h : Unescapes s t) (hu : Bare u) (hv : Bare v) :
    Unescapes (u ++ s ++ v) (u ++ t ++ v) :=
  (hu.unescapes.append h).append_bare hv

/-- **An escaped literal decodes to the plain one.** -/
theorem unescapes_quote (s : String) : Unescapes (quote true s) (quote false s) := by
  have hchars : ∀ cs : List Char,
      Decodes (cs.flatMap (escape true)) (cs.flatMap (escape false)) := by
    intro cs
    induction cs with
    | nil => exact .nil
    | cons c rest ih =>
        rw [List.flatMap_cons, List.flatMap_cons]
        exact (decodes_escape c).append ih
  have hmark : Decodes ['\''] ['\''] := decodes_char (by decide)
  unfold Unescapes quote
  rw [String.toList_ofList, String.toList_ofList]
  exact (hmark.append (hchars s.toList)).append hmark

/-! ## Pieces in a row -/

theorem Unescapes.intercalate {separator : String} (hseparator : Bare separator)
    {ss ts : List String} (h : List.Forall₂ Unescapes ss ts) :
    Unescapes (separator.intercalate ss) (separator.intercalate ts) := by
  induction h with
  | nil =>
      rw [String.intercalate_nil]
      exact .nil
  | @cons s t ss ts hst hrest ih =>
      cases hrest with
      | nil =>
          rw [String.intercalate_singleton, String.intercalate_singleton]
          exact hst
      | cons hnext hlast =>
          rw [String.intercalate_cons_cons, String.intercalate_cons_cons]
          exact (hst.append hseparator.unescapes).append ih

theorem Unescapes.join_map {α : Type} {f g : α → String} {xs : List α}
    (h : ∀ x ∈ xs, Unescapes (f x) (g x)) :
    Unescapes (String.join (xs.map f)) (String.join (xs.map g)) := by
  induction xs with
  | nil => exact .nil
  | cons x rest ih =>
      obtain ⟨hx, hrest⟩ := List.forall_mem_cons.mp h
      rw [List.map_cons, List.map_cons, String.join_cons, String.join_cons]
      exact hx.append (ih hrest)

/-! ## Texts without backslashes -/

theorem Bare.append {s t : String} (hs : Bare s) (ht : Bare t) : Bare (s ++ t) := by
  unfold Bare
  rw [String.toList_append, List.mem_append, not_or]
  exact ⟨hs, ht⟩

theorem Bare.intercalate {separator : String} (hseparator : Bare separator) {ss : List String}
    (h : ∀ s ∈ ss, Bare s) : Bare (separator.intercalate ss) := by
  induction ss with
  | nil =>
      rw [String.intercalate_nil]
      decide
  | cons s rest ih =>
      obtain ⟨hs, hrest⟩ := List.forall_mem_cons.mp h
      cases rest with
      | nil =>
          rw [String.intercalate_singleton]
          exact hs
      | cons next last =>
          rw [String.intercalate_cons_cons]
          exact (hs.append hseparator).append (ih hrest)

theorem bare_ofList {cs : List Char} (h : '\\' ∉ cs) : Bare (String.ofList cs) := by
  unfold Bare
  rwa [String.toList_ofList]

theorem bare_zeros (n : Nat) : Bare (zeros n) := by
  refine bare_ofList fun h => ?_
  exact absurd (List.eq_of_mem_replicate h) (by decide)

theorem bare_pad (style : Style) (level : Nat) : Bare (style.pad level) := by
  refine bare_ofList fun h => ?_
  exact absurd (List.eq_of_mem_replicate h) (by decide)

theorem bare_toString (n : Nat) : Bare (toString n) := by
  rw [Nat.toString_eq_ofList_toDigits]
  refine bare_ofList fun h => ?_
  exact absurd (Nat.isDigit_of_mem_toDigits (by decide) (by decide) h) (by decide)

theorem bare_positional (d : Decimal) : Bare d.positional := by
  have hdigits : Bare (toString d.coefficient) := bare_toString d.coefficient
  have hpoint : ∀ places, Bare (pointAfter (toString d.coefficient) places) := by
    intro places
    refine ((bare_ofList fun h => ?_).append (by decide)).append (bare_ofList fun h => ?_)
    · exact hdigits (List.mem_of_mem_take h)
    · exact hdigits (List.mem_of_mem_drop h)
  unfold Decimal.positional
  dsimp only
  split
  · exact hdigits.append (bare_zeros _)
  · split
    · exact hpoint _
    · exact ((show Bare "0." by decide).append (bare_zeros _)).append hdigits

/-- Numbers are printed without backslashes. -/
theorem bare_numberText (x : Float) : Bare (Number.text x) := by
  have hdigits : Bare ((Binary.ofFloat x).shortest .up).positional := bare_positional _
  unfold Number.text
  dsimp only
  split
  · decide
  split
  · split <;> decide
  split
  · decide
  split
  · exact (show Bare "-" by decide).append hdigits
  · exact hdigits

theorem exists_cons_of_isIdentifier {name : String} (h : isIdentifier name = true) :
    ∃ c cs, name.toList = c :: cs ∧ startsIdentifier c = true ∧
      cs.all continuesIdentifier = true := by
  unfold isIdentifier at h
  split at h
  · exact absurd h (by simp)
  · next c cs hname => exact ⟨c, cs, hname, (Bool.and_eq_true _ _).mp h⟩

/-- A name that can stand by itself has no backslash in it. -/
theorem bare_of_isIdentifier {name : String} (h : isIdentifier name = true) : Bare name := by
  obtain ⟨c, cs, hname, hstarts, hcontinues⟩ := exists_cons_of_isIdentifier h
  unfold Bare
  rw [hname]
  intro hmem
  rcases List.mem_cons.mp hmem with rfl | hrest
  · exact absurd hstarts (by decide)
  · exact absurd (List.all_eq_true.mp hcontinues _ hrest) (by decide)

end ViewGen.Literal
