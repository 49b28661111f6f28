import Mathlib.Data.List.TakeWhile
import ViewGen.Proofs.ExpressionReader
import ViewGen.Proofs.LiteralDecoding

/-!
# The tokens of printed pieces

A printed piece is read as the items that it stands for, whatever has been read before it and
whatever comes after it, as long as that does not make its last token longer.  So pieces in a row
are read one by one.

## Main definitions

* `Reading.readText` — reading on with a text in the middle of an expression
* `Reading.Follows` — what may come after a piece
* `Reading.Passes` — a piece that is read as items
* `Reading.readLiteral` — reading one literal, and what is left of the text

## Main statements

* `passes_word`, `passes_number`, `passes_quote` — names, numbers and literals are single tokens
* `Passes.append`, `Passes.enclose` — pieces in a row and pieces in brackets
* `quote_read_exactly` — a literal ends where it should and stands for its string

## Design notes

Words and numbers are read as far as they go, so what comes after them matters: a letter would be
taken for a part of a word, and a point for a part of a number.
-/

namespace ViewGen.Reading

/-! ## Reading on -/

/-- Read a text after what has been read so far. -/
def readText (stack : List (Bracket × List Item)) (items : List Item) (cs : List Char) :
    Option Tree :=
  (tokensFrom 0 cs).bind (readTokens stack items)

/-- The first bracket of a pair. -/
def Bracket.first : Bracket → Char
  | .round => '('
  | .square => '['

/-- The second bracket of a pair. -/
def Bracket.second : Bracket → Char
  | .round => ')'
  | .square => ']'

section Steps

variable {c : Char} {x rest : List Char} {stack : List (Bracket × List Item)} {items : List Item}

theorem tokensFrom_length_append (x rest : List Char) :
    tokensFrom x.length (x ++ rest) = tokensFrom 0 rest := by
  induction x with
  | nil => rfl
  | cons c x ih => exact ih

theorem readText_gap (h : Json.isGap c = true) (cs : List Char) :
    readText stack items (c :: cs) = readText stack items cs := by
  rw [readText, tokensFrom, if_pos h]
  rfl

/-- Where a token begins, reading goes on after it. -/
theorem readText_token {token : Token} (hgap : Json.isGap c = false)
    (h : tokenAt? c (x ++ rest) = some (token, x.length)) :
    readText stack items (c :: (x ++ rest)) =
      (tokensFrom 0 rest).bind fun tokens => readTokens stack items (token :: tokens) := by
  rw [readText, tokensFrom, hgap, h]
  simp only [Bool.false_eq_true, if_false, Option.bind_some, tokensFrom_length_append,
    Option.bind_map]
  rfl

theorem readText_lexeme {l : Lexeme} (hgap : Json.isGap c = false)
    (h : tokenAt? c (x ++ rest) = some (.lexeme l, x.length)) :
    readText stack items (c :: (x ++ rest)) = readText stack (items ++ [.lexeme l]) rest := by
  rw [readText_token hgap h, readText]
  congr
  funext tokens
  cases stack <;> rfl

theorem readText_opening (b : Bracket) (cs : List Char) :
    readText stack items (b.first :: cs) = readText ((b, items) :: stack) [] cs := by
  have htoken : tokenAt? b.first ([] ++ cs) = some (.opening b, 0) := by
    cases b <;> rfl
  have hstep : readText stack items (b.first :: ([] ++ cs)) = _ :=
    readText_token (by cases b <;> rfl) htoken
  rw [List.nil_append] at hstep
  rw [hstep, readText]
  congr
  funext tokens
  cases stack <;> rfl

theorem readText_closing {b : Bracket} {before : List Item} {ts : List Tree}
    (h : readGroup items = some ts) (cs : List Char) :
    readText ((b, before) :: stack) items (b.second :: cs) =
      readText stack (before ++ [.group b ts]) cs := by
  have htoken : tokenAt? b.second ([] ++ cs) = some (.closing b, 0) := by
    cases b <;> rfl
  have hstep : readText ((b, before) :: stack) items (b.second :: ([] ++ cs)) = _ :=
    readText_token (by cases b <;> rfl) htoken
  rw [List.nil_append] at hstep
  rw [hstep, readText]
  congr
  funext tokens
  rw [readTokens, if_pos rfl, h, Option.bind_some]

end Steps

/-! ## What may come after -/

/-- A character that would make a word longer, or a number when the last token is one. -/
def extendsToken (number : Bool) (c : Char) : Bool :=
  continuesIdentifier c || number && c == '.'

/-- A text that may come after a piece. -/
def Follows (number : Bool) (rest : List Char) : Prop :=
  ∀ c ∈ rest.head?, extendsToken number c = false

theorem follows_cons {number : Bool} {c : Char} (h : extendsToken number c = false)
    (rest : List Char) : Follows number (c :: rest) := by
  intro d hd
  rwa [← Option.some.inj hd]

theorem follows_nil (number : Bool) : Follows number [] :=
  fun _ h => nomatch h

/-- What may come after a number may come after every piece. -/
theorem Follows.mono {number number' : Bool} {rest : List Char} (h : Follows number' rest)
    (hle : number = true → number' = true) : Follows number rest := by
  intro c hc
  have hfollows := h c hc
  simp only [extendsToken, Bool.or_eq_false_iff, Bool.and_eq_false_iff] at hfollows ⊢
  refine ⟨hfollows.1, hfollows.2.imp_left fun hnot => ?_⟩
  rw [Bool.eq_false_iff] at hnot ⊢
  exact fun hnumber => hnot (hle hnumber)

/-- The longest run of characters that a piece is made of ends with the piece. -/
theorem takeWhile_append_of_follows {number : Bool} {p : Char → Bool} {x rest : List Char}
    (hx : x.all p = true) (hp : ∀ c, p c = true → extendsToken number c = true)
    (h : Follows number rest) : (x ++ rest).takeWhile p = x := by
  rw [List.takeWhile_append_of_pos (List.all_eq_true.mp hx)]
  cases rest with
  | nil => rw [List.takeWhile_nil, List.append_nil]
  | cons c cs =>
      have hc : ¬ p c = true := fun hpc => Bool.false_ne_true ((h c rfl).symm.trans (hp c hpc))
      rw [List.takeWhile_cons_of_neg hc, List.append_nil]

/-! ## Pieces -/

/-- A piece that is read as items, whatever comes before it and after it. -/
def Passes (number : Bool) (x : List Char) (is : List Item) : Prop :=
  ∀ rest, Follows number rest → ∀ stack items,
    readText stack items (x ++ rest) = readText stack (items ++ is) rest

theorem passes_nil (number : Bool) : Passes number [] [] := by
  intro rest _ stack items
  rw [List.append_nil, List.nil_append]

theorem Passes.mono {number number' : Bool} {x : List Char} {is : List Item}
    (h : Passes number x is) (hle : number = true → number' = true) : Passes number' x is :=
  fun rest hrest => h rest (hrest.mono hle)

/-- Pieces in a row are read one by one. -/
theorem Passes.append {number number' : Bool} {c : Char} {x y : List Char} {is js : List Item}
    (h : Passes number x is) (hc : extendsToken number c = false)
    (h' : Passes number' (c :: y) js) :
    Passes number' (x ++ c :: y) (is ++ js) := by
  intro rest hrest stack items
  have hfirst := h (c :: y ++ rest) (follows_cons hc _) stack items
  rw [List.append_assoc, hfirst, h' rest hrest, List.append_assoc]

/-- A blank is passed over. -/
theorem Passes.blank {number : Bool} {x : List Char} {is : List Item} (h : Passes number x is) :
    Passes number (' ' :: x) is := by
  intro rest hrest stack items
  rw [List.cons_append, readText_gap rfl, h rest hrest]

/-- A piece that is a single token. -/
theorem passes_lexeme {number : Bool} {c : Char} {x : List Char} {l : Lexeme}
    (hgap : Json.isGap c = false)
    (h : ∀ rest, Follows number rest →
      tokenAt? c (x ++ rest) = some (.lexeme l, x.length)) :
    Passes number (c :: x) [.lexeme l] := by
  intro rest hrest stack items
  rw [List.cons_append, readText_lexeme hgap (h rest hrest)]

/-- A token before a piece, where the piece decides how the token ends. -/
theorem Passes.lexeme {number : Bool} {c : Char} {x y : List Char} {l : Lexeme} {is : List Item}
    (h : Passes number y is) (hgap : Json.isGap c = false)
    (htoken : ∀ rest, tokenAt? c (x ++ (y ++ rest)) = some (.lexeme l, x.length)) :
    Passes number (c :: (x ++ y)) (.lexeme l :: is) := by
  intro rest hrest stack items
  rw [List.cons_append, List.append_assoc, readText_lexeme hgap (htoken rest), h rest hrest,
    List.append_assoc, List.singleton_append]

/-- A piece in brackets is a single item, with the trees that were read inside. -/
theorem Passes.enclose {number : Bool} {x : List Char} {is : List Item} {ts : List Tree}
    (h : Passes number x is) (hgroup : readGroup is = some ts) (b : Bracket) :
    Passes false (b.first :: (x ++ [b.second])) [.group b ts] := by
  intro rest _ stack items
  have hfollows : extendsToken number b.second = false := by
    cases b <;> cases number <;> decide
  -- The items before the bracket wait on the stack while the piece is read.
  have hinside := h (b.second :: rest) (follows_cons hfollows rest) ((b, items) :: stack) []
  rw [List.nil_append] at hinside
  rw [List.cons_append, List.append_assoc, List.singleton_append, readText_opening, hinside,
    readText_closing hgroup]

/-! ## Names -/

/-- Characters of a kind that has no blanks in it are no blanks. -/
theorem isGap_eq_false {p : Char → Bool} {c : Char} (hc : p c = true)
    (hp : [' ', '\n', '\t', '\r'].any p = false) : Json.isGap c = false := by
  rw [Bool.eq_false_iff]
  intro hgap
  have hmem : c ∈ [' ', '\n', '\t', '\r'] := by
    simpa [Json.isGap, or_assoc] using hgap
  exact absurd (List.any_eq_true.mpr ⟨c, hmem, hc⟩) (by simp [hp])

/-- A name is a single token. -/
theorem passes_word {name : String} (h : isIdentifier name = true) :
    Passes false name.toList [.lexeme (.word name)] := by
  obtain ⟨c, cs, hname, hstarts, hcontinues⟩ := Literal.exists_cons_of_isIdentifier h
  rw [hname]
  refine passes_lexeme (isGap_eq_false hstarts (by decide)) fun rest hrest => ?_
  have hmore : (cs ++ rest).takeWhile continuesIdentifier = cs :=
    takeWhile_append_of_follows hcontinues (fun c hc => by simp [extendsToken, hc]) hrest
  rw [tokenAt?, if_pos hstarts, hmore]
  dsimp only
  rw [← hname, String.ofList_toList]

/-! ## Numbers -/

theorem startsIdentifier_of_isDigit {c : Char} (h : c.isDigit = true) :
    startsIdentifier c = false := by
  have hne : c ≠ '_' ∧ c ≠ '$' := by
    constructor <;> rintro rfl <;> exact absurd h (by decide)
  have hrange : 48 ≤ c.toNat ∧ c.toNat ≤ 57 := by
    simpa [Char.isDigit, UInt32.le_iff_toNat_le] using h
  have hupper : c.isUpper = false := by
    change decide (c.val ≥ 'A'.val ∧ c.val ≤ 'Z'.val) = false
    simp [UInt32.le_iff_toNat_le]
    omega
  have hlower : c.isLower = false := by
    change (decide (c.val ≥ 'a'.val) && decide (c.val ≤ 'z'.val)) = false
    simp [UInt32.le_iff_toNat_le]
    omega
  have halpha : c.isAlpha = (c.isUpper || c.isLower) := rfl
  simp [startsIdentifier, halpha, hupper, hlower, hne]

/-- One digit or more. -/
def IsDigits (cs : List Char) : Prop :=
  cs ≠ [] ∧ cs.all Char.isDigit = true

/-- Digits, and more digits after a point if there is one. -/
inductive IsUnsigned : List Char → Prop
  | whole {ds : List Char} : IsDigits ds → IsUnsigned ds
  | point {ds fs : List Char} : IsDigits ds → IsDigits fs → IsUnsigned (ds ++ '.' :: fs)

theorem isDigits_zero : IsDigits ['0'] :=
  ⟨List.cons_ne_nil _ _, rfl⟩

theorem all_isDigit_zeros (n : Nat) : (zeros n).toList.all Char.isDigit = true := by
  rw [zeros, String.toList_ofList, List.all_eq_true]
  intro c hc
  rw [List.eq_of_mem_replicate hc]
  rfl

theorem isDigits_toString (n : Nat) : IsDigits (toString n).toList := by
  rw [Nat.toString_eq_ofList_toDigits, String.toList_ofList]
  refine ⟨Nat.toDigits_ne_nil, List.all_eq_true.mpr fun c hc => ?_⟩
  exact Nat.isDigit_of_mem_toDigits (by decide) (by decide) hc

/-- A point between digits has digits on both sides. -/
theorem isUnsigned_pointAfter {digits : String} {places : Nat} (h : IsDigits digits.toList)
    (hpos : 0 < places) (hlt : places < digits.length) :
    IsUnsigned (pointAfter digits places).toList := by
  obtain ⟨hne, hall⟩ := h
  have hlength : digits.toList.length = digits.length := String.length_toList
  have hall := List.all_eq_true.mp hall
  have htake : IsDigits (digits.toList.take places) := by
    refine ⟨?_, List.all_eq_true.mpr fun c hc => hall c (List.mem_of_mem_take hc)⟩
    rw [ne_eq, List.take_eq_nil_iff]
    rintro (hzero | hnil)
    · omega
    · exact hne hnil
  have hdrop : IsDigits (digits.toList.drop places) := by
    refine ⟨?_, List.all_eq_true.mpr fun c hc => hall c (List.mem_of_mem_drop hc)⟩
    rw [ne_eq, List.drop_eq_nil_iff]
    omega
  have htext : (pointAfter digits places).toList =
      digits.toList.take places ++ '.' :: digits.toList.drop places := by
    simp [pointAfter]
  rw [htext]
  exact .point htake hdrop

/-- A decimal is written with digits, and with a point between them or none. -/
theorem isUnsigned_positional (d : Decimal) : IsUnsigned d.positional.toList := by
  obtain ⟨hne, hall⟩ := isDigits_toString d.coefficient
  unfold Decimal.positional
  dsimp only
  split
  · rw [String.toList_append]
    refine .whole ⟨List.append_ne_nil_of_left_ne_nil hne _, ?_⟩
    rw [List.all_append, hall, all_isDigit_zeros, Bool.and_self]
  · next hexponent =>
    split
    · next hplaces =>
      exact isUnsigned_pointAfter ⟨hne, hall⟩ (by omega) (by omega)
    · have hfraction : IsDigits
          ((zeros ((-d.exponent).toNat - (toString d.coefficient).length)).toList ++
            (toString d.coefficient).toList) := by
        refine ⟨List.append_ne_nil_of_right_ne_nil _ hne, ?_⟩
        rw [List.all_append, hall, all_isDigit_zeros, Bool.and_self]
      have hlead : "0.".toList = ['0', '.'] := rfl
      rw [String.toList_append, String.toList_append, hlead, List.append_assoc, List.cons_append,
        List.cons_append, List.nil_append]
      exact IsUnsigned.point isDigits_zero hfraction

theorem IsDigits.exists_cons {cs : List Char} (h : IsDigits cs) :
    ∃ d ds, cs = d :: ds ∧ d.isDigit = true := by
  obtain ⟨hne, hall⟩ := h
  obtain ⟨d, ds, rfl⟩ := List.exists_cons_of_ne_nil hne
  exact ⟨d, ds, rfl, (Bool.and_eq_true _ _).mp hall |>.1⟩

theorem IsUnsigned.exists_cons {cs : List Char} (h : IsUnsigned cs) :
    ∃ d ds, cs = d :: ds ∧ d.isDigit = true := by
  cases h with
  | whole h => exact h.exists_cons
  | point h _ =>
      obtain ⟨d, ds, rfl, hd⟩ := h.exists_cons
      exact ⟨d, _, rfl, hd⟩

theorem IsUnsigned.all_continuesNumber {cs : List Char} (h : IsUnsigned cs) :
    cs.all continuesNumber = true := by
  have hdigits : ∀ {ds}, IsDigits ds → ds.all continuesNumber = true := fun hds =>
    List.all_eq_true.mpr fun c hc => by
      simp [continuesNumber, List.all_eq_true.mp hds.2 c hc]
  cases h with
  | whole h => exact hdigits h
  | point h h' =>
      rw [List.all_append, List.all_cons, hdigits h, hdigits h']
      rfl

theorem IsUnsigned.isUnsigned {cs : List Char} (h : IsUnsigned cs) : isUnsigned cs = true := by
  cases h with
  | whole h =>
      have hrun := List.all_eq_true.mp h.2
      have hdrop : cs.dropWhile Char.isDigit = [] := List.dropWhile_eq_nil_iff.mpr hrun
      rw [Reading.isUnsigned, List.takeWhile_eq_self_iff.mpr hrun, hdrop]
      simp [h.1]
  | @point ds fs h h' =>
      have hrun := List.all_eq_true.mp h.2
      rw [Reading.isUnsigned, List.takeWhile_append_of_pos hrun, List.dropWhile_append_of_pos hrun]
      simp [h.1, h'.1, h'.2]

/-- What starts with a digit or a minus and is a number to its end is a single token. -/
theorem passes_numeral {s : String} {c : Char} {cs : List Char} (hs : s.toList = c :: cs)
    (hc : (c.isDigit || c == '-') = true) (hcs : cs.all continuesNumber = true)
    (h : isNumeral (c :: cs) = true) : Passes true s.toList [.lexeme (.number s)] := by
  have hstarts : startsIdentifier c = false := by
    rcases (Bool.or_eq_true _ _).mp hc with hdigit | hminus
    · exact startsIdentifier_of_isDigit hdigit
    · rw [beq_iff_eq.mp hminus]
      rfl
  rw [hs]
  refine passes_lexeme (isGap_eq_false (p := fun c => c.isDigit || c == '-') hc (by decide))
    fun rest hrest => ?_
  have hmore : (cs ++ rest).takeWhile continuesNumber = cs := by
    refine takeWhile_append_of_follows hcs (fun d hd => ?_) hrest
    rcases (Bool.or_eq_true _ _).mp hd with hdigit | hpoint
    · simp [extendsToken, continuesIdentifier, Char.isAlphanum, hdigit]
    · simp [extendsToken, hpoint]
  rw [tokenAt?, hstarts, hmore, if_neg Bool.false_ne_true, if_pos hc]
  dsimp only
  rw [if_pos h, ← hs, String.ofList_toList]

theorem IsUnsigned.passes {s : String} (h : IsUnsigned s.toList) :
    Passes true s.toList [.lexeme (.number s)] := by
  obtain ⟨d, ds, hs, hd⟩ := h.exists_cons
  have hrun := h.all_continuesNumber
  have hvalue := h.isUnsigned
  rw [hs] at hrun hvalue
  refine passes_numeral hs (by simp [hd]) ((Bool.and_eq_true _ _).mp hrun).2 ?_
  have hminus : (d :: ds).head? ≠ some '-' := by
    rintro ⟨⟩
    exact absurd hd (by decide)
  rw [isNumeral, if_neg hminus, hvalue]

theorem IsUnsigned.passes_minus {s : String} (h : IsUnsigned s.toList) :
    Passes true ("-" ++ s).toList [.lexeme (.number ("-" ++ s))] := by
  have hs : ("-" ++ s).toList = '-' :: s.toList := by
    rw [String.toList_append]
    rfl
  exact passes_numeral hs rfl h.all_continuesNumber h.isUnsigned

/-- The text of a finite number is digits with a point between them or none, after a minus or
without one. -/
theorem exists_isUnsigned_text {x : Float} (hnan : x.isNaN = false) (hinf : x.isInf = false) :
    ∃ u : String, IsUnsigned u.toList ∧ (Number.text x = u ∨ Number.text x = "-" ++ u) := by
  have hdigits := isUnsigned_positional ((Binary.ofFloat x).shortest .up)
  unfold Number.text
  rw [hnan, hinf, if_neg Bool.false_ne_true, if_neg Bool.false_ne_true]
  dsimp only
  split
  · exact ⟨"0", .whole isDigits_zero, .inl rfl⟩
  split
  · exact ⟨_, hdigits, .inr rfl⟩
  · exact ⟨_, hdigits, .inl rfl⟩

/-- A number is a single token, with its minus if it has one. -/
theorem passes_number {x : Float} (hnan : x.isNaN = false) (hinf : x.isInf = false) :
    Passes true (Number.text x).toList [.lexeme (.number (Number.text x))] := by
  obtain ⟨u, hu, htext | htext⟩ := exists_isUnsigned_text hnan hinf
  · rw [htext]
    exact hu.passes
  · rw [htext]
    exact hu.passes_minus

/-! ## Literals -/

/-- The units that a character is read as: its code point, or a surrogate pair where characters
beyond ASCII are escaped. -/
def charUnits (asciiOnly : Bool) (c : Char) : List Nat :=
  if asciiOnly && 0x10000 ≤ c.toNat then
    [0xD800 + (c.toNat - 0x10000) / 0x400, 0xDC00 + (c.toNat - 0x10000) % 0x400]
  else [c.toNat]

theorem literalUnits_unitEscape {n : Nat} (h : n < 0x10000) (cs : List Char) :
    literalUnits (Literal.unitEscape n ++ cs) =
      (literalUnits cs).map fun r => (n :: r.1, r.2 + 6) := by
  have hunit := Literal.unitAt?_unitEscape h cs
  unfold Literal.unitEscape Literal.unitAt? at *
  simp only [List.cons_append, List.nil_append] at hunit ⊢
  rw [literalUnits, hunit]
  rfl

/-- The escape of a character is read as its units. -/
theorem literalUnits_charEscape (c : Char) (cs : List Char) :
    literalUnits (Literal.charEscape c ++ cs) =
      (literalUnits cs).map fun r =>
        (charUnits true c ++ r.1, r.2 + (Literal.charEscape c).length) := by
  have hvalid : c.toNat < 0xD800 ∨ 0xDFFF < c.toNat ∧ c.toNat < 0x110000 := c.valid
  unfold Literal.charEscape charUnits
  dsimp only
  by_cases hsmall : c.toNat < 0x10000
  · rw [if_pos hsmall, if_neg (by simp [hsmall]), literalUnits_unitEscape hsmall]
    rfl
  · have hlarge : (true && decide (0x10000 ≤ c.toNat)) = true := by
      simpa using hsmall
    rw [if_neg hsmall, if_pos hlarge, List.append_assoc, literalUnits_unitEscape (by omega),
      literalUnits_unitEscape (by omega), Option.map_map]
    rfl

/-- A backslash with a character that it makes special is read as what they stand for. -/
theorem literalUnits_escaped {e c : Char} (he : e ≠ 'u') (h : escaped? e = some c)
    (cs : List Char) :
    literalUnits ('\\' :: e :: cs) =
      (literalUnits cs).map fun r => (c.toNat :: r.1, r.2 + 2) := by
  rw [literalUnits]
  · rw [h]
    rfl
  · rintro a b c d rest rfl
    exact fun _ => he rfl

/-- Other characters stand for themselves. -/
theorem literalUnits_char {c : Char} (hquote : c ≠ '\'') (hbackslash : c ≠ '\\') (hfeed : c ≠ '\n')
    (hreturn : c ≠ '\r') (cs : List Char) :
    literalUnits (c :: cs) = (literalUnits cs).map fun r => (c.toNat :: r.1, r.2 + 1) := by
  rw [literalUnits]
  · simp [hbackslash, hfeed, hreturn]
  · exact hquote
  · exact fun _ _ _ _ _ heq => absurd heq hbackslash
  · exact fun _ _ heq => absurd heq hbackslash

/-- A character of a literal is read as its units. -/
theorem literalUnits_escape (asciiOnly : Bool) (c : Char) (cs : List Char) :
    literalUnits (Literal.escape asciiOnly c ++ cs) =
      (literalUnits cs).map fun r =>
        (charUnits asciiOnly c ++ r.1, r.2 + (Literal.escape asciiOnly c).length) := by
  -- The characters with an escape of their own are ASCII, hence one unit.
  have hspecial : ∀ {c e : Char}, e ≠ 'u' → escaped? e = some c → c.toNat < 0x10000 →
      literalUnits (['\\', e] ++ cs) =
        (literalUnits cs).map fun r =>
          (charUnits asciiOnly c ++ r.1, r.2 + ['\\', e].length) := by
    intro c e he hc hsmall
    rw [charUnits, if_neg (by simp [hsmall])]
    exact literalUnits_escaped he hc cs
  unfold Literal.escape
  by_cases hbackslash : c = '\\'
  · subst hbackslash
    exact hspecial (by decide) rfl (by decide)
  by_cases hquote : c = '\''
  · subst hquote
    exact hspecial (by decide) rfl (by decide)
  by_cases hfeed : c = '\n'
  · subst hfeed
    exact hspecial (by decide) rfl (by decide)
  by_cases hreturn : c = '\r'
  · subst hreturn
    exact hspecial (by decide) rfl (by decide)
  by_cases htab : c = '\t'
  · subst htab
    exact hspecial (by decide) rfl (by decide)
  simp only [hbackslash, hquote, hfeed, hreturn, htab, beq_iff_eq, if_false]
  split
  · next h =>
    rw [((Bool.and_eq_true _ _).mp h).1]
    exact literalUnits_charEscape c cs
  · next h =>
    have hunits : charUnits asciiOnly c = [c.toNat] := by
      refine if_neg fun hlarge => h ?_
      simp only [Bool.and_eq_true, decide_eq_true_eq] at hlarge ⊢
      exact ⟨hlarge.1, by omega⟩
    rw [hunits]
    exact literalUnits_char hquote hbackslash hfeed hreturn cs

theorem joinUnits?_toNat (c : Char) (units : List Nat) :
    Json.joinUnits? (c.toNat :: units) = (Json.joinUnits? units).map (c :: ·) := by
  obtain ⟨hhigh, hlow⟩ := Literal.toNat_not_surrogate c
  cases units <;> simp [Json.joinUnits?, hhigh, hlow]

/-- The units of characters are joined to the characters again. -/
theorem joinUnits?_charUnits (asciiOnly : Bool) (cs : List Char) :
    Json.joinUnits? (cs.flatMap (charUnits asciiOnly)) = some cs := by
  induction cs with
  | nil => rfl
  | cons c cs ih =>
      rw [List.flatMap_cons, charUnits]
      split
      · next h =>
        have hlarge : ¬ c.toNat < 0x10000 := by
          simp only [Bool.and_eq_true, decide_eq_true_eq] at h
          omega
        obtain ⟨hhigh, hlow, hpair⟩ := Literal.surrogates_of_large hlarge
        rw [List.cons_append, List.singleton_append, Json.joinUnits?, hhigh, hlow, Bool.and_self,
          if_pos rfl, hpair, ih, Option.map_some]
      · rw [List.singleton_append, joinUnits?_toNat, ih, Option.map_some]

/-- What stands between the quotes of a literal is read as its characters, up to the quote. -/
theorem literalUnits_flatMap_escape (asciiOnly : Bool) (cs rest : List Char) :
    literalUnits (cs.flatMap (Literal.escape asciiOnly) ++ '\'' :: rest) =
      some (cs.flatMap (charUnits asciiOnly),
        (cs.flatMap (Literal.escape asciiOnly)).length + 1) := by
  induction cs with
  | nil => rfl
  | cons c cs ih =>
      have hcount : (cs.flatMap (Literal.escape asciiOnly)).length + 1 +
          (Literal.escape asciiOnly c).length =
            (Literal.escape asciiOnly c ++ cs.flatMap (Literal.escape asciiOnly)).length + 1 := by
        rw [List.length_append]
        omega
      rw [List.flatMap_cons, List.flatMap_cons, List.append_assoc, literalUnits_escape, ih,
        Option.map_some, hcount]

/-- A literal is read as the token of its string, up to the closing quote. -/
theorem tokenAt?_quote (asciiOnly : Bool) (s : String) (rest : List Char) :
    tokenAt? '\'' (s.toList.flatMap (Literal.escape asciiOnly) ++ '\'' :: rest) =
      some (.lexeme (.literal s), (s.toList.flatMap (Literal.escape asciiOnly)).length + 1) := by
  show (literalUnits _).bind _ = _
  rw [literalUnits_flatMap_escape, Option.bind_some]
  dsimp only
  rw [joinUnits?_charUnits, Option.map_some, String.ofList_toList]

/-- A literal is a single token. -/
theorem passes_quote (asciiOnly : Bool) (s : String) :
    Passes false (Literal.quote asciiOnly s).toList [.lexeme (.literal s)] := by
  rw [Literal.quote, String.toList_ofList, List.cons_append]
  refine passes_lexeme rfl fun rest _ => ?_
  rw [List.append_assoc, List.singleton_append, List.length_append]
  exact tokenAt?_quote asciiOnly s rest

/-- Read a literal at the start of a text.  The string that it stands for is returned, and the text
after its closing quote. -/
def readLiteral : List Char → Option (String × List Char)
  | [] => none
  | c :: cs =>
    if c == '\'' then
      (literalUnits cs).bind fun r =>
        (Json.joinUnits? r.1).map fun s => (String.ofList s, cs.drop r.2)
    else none

/-- **A literal is exact.**  Whatever text follows it, a reader that starts at its opening quote stops
after its closing quote, with the string that was quoted.  A literal that is to be ASCII is. -/
theorem quote_read_exactly (s : String) :
    (∀ (asciiOnly : Bool) (rest : List Char),
      readLiteral ((Literal.quote asciiOnly s).toList ++ rest) = some (s, rest)) ∧
    ∀ c ∈ (Literal.quote true s).toList, c.toNat < 128 := by
  constructor
  · intro asciiOnly rest
    have hunits := literalUnits_flatMap_escape asciiOnly s.toList rest
    have hdrop : (s.toList.flatMap (Literal.escape asciiOnly) ++ '\'' :: rest).drop
        ((s.toList.flatMap (Literal.escape asciiOnly)).length + 1) = rest := by
      rw [List.drop_append, List.drop_eq_nil_of_le (Nat.le_succ _), Nat.add_sub_cancel_left]
      rfl
    rw [Literal.quote, String.toList_ofList, List.cons_append, List.cons_append,
      List.append_assoc, List.singleton_append, readLiteral, if_pos (beq_self_eq_true _), hunits,
      Option.bind_some, joinUnits?_charUnits, Option.map_some, hdrop, String.ofList_toList]
  · rw [Literal.quote, String.toList_ofList]
    intro c hc
    rcases List.mem_append.mp hc with hc | hc
    · rcases List.mem_cons.mp hc with rfl | hc
      · decide
      · obtain ⟨source, -, hescape⟩ := List.mem_flatMap.mp hc
        exact Literal.ascii_escape source c hescape
    · rw [List.mem_singleton.mp hc]
      decide

end ViewGen.Reading
