import Mathlib.Data.Finset.Card
import Mathlib.Data.Nat.Find
import ViewGen.Text.Fresh

/-!
# Fresh names are found

A name that is taken is replaced by the first of its numbered forms that suits.  Such a search tries
one form after the other, without a bound of its own, against names that a document fills at will.
It ends nevertheless: different numbers give different names, so the occupied names are used up
before the candidates are.  The searches that run look at one candidate more than there are occupied
names, and find what the search without a bound finds.

## Main definitions

* `Text.StopsAt` — the search without a bound, as a relation between where it is and where it stops
* `Text.Ends` — a search stops, and does so among the first candidates

## Main statements

* `Text.numbered_injective`, `Text.counted_injective` — different numbers give different names
* `Text.firstNumbered_eq_some_iff`, `Text.firstCounted_eq_some_iff` — the bounded searches find the
  first candidate that suits
* `Text.exists_notMem` — there are fewer taken names than candidates
* `Text.stopsAt_iff` — a search stops at the first candidate that suits
* `Text.exists_ends` — a search for a name that is not occupied ends
* `Text.Ends.firstNumbered_eq`, `Text.Ends.firstCounted_eq` — the bounded searches stop there, too
-/

namespace ViewGen.Text

theorem toString_injective {m n : Nat} (h : toString m = toString n) : m = n := by
  have hdigits : Nat.toDigits 10 m = Nat.toDigits 10 n := by
    rw [Nat.toString_eq_ofList_toDigits, Nat.toString_eq_ofList_toDigits] at h
    simpa using congrArg String.toList h
  have hvalue := congrArg (fun digits => Nat.ofDigitChars 10 digits 0) hdigits
  simpa [Nat.ofDigitChars_toDigits] using hvalue

theorem toString_ne_empty (n : Nat) : toString n ≠ "" := by
  intro h
  rw [Nat.toString_eq_ofList_toDigits] at h
  have hnil : Nat.toDigits 10 n = [] := by simpa using congrArg String.toList h
  exact absurd hnil Nat.toDigits_ne_nil

/-- A numbered name has digits after the name, or nothing. -/
theorem exists_digits_numbered (base : String) (n : Nat) :
    ∃ digits, numbered base n = base ++ digits ∧ ∀ c ∈ digits.toList, c.isDigit = true := by
  cases n with
  | zero => exact ⟨"", String.append_empty.symm, by simp⟩
  | succ n =>
      refine ⟨_, rfl, fun c hc => ?_⟩
      rw [Nat.toString_eq_ofList_toDigits, String.toList_ofList] at hc
      exact Nat.isDigit_of_mem_toDigits (by decide) (by decide) hc

theorem exists_numbered_eq_append (base : String) (n : Nat) :
    ∃ suffix, numbered base n = base ++ suffix :=
  (exists_digits_numbered base n).imp fun _ h => h.1

/-- Different numbers give different names. -/
theorem numbered_injective (base : String) : Function.Injective (numbered base) := by
  intro i j h
  cases i with
  | zero =>
      cases j with
      | zero => rfl
      | succ j =>
          have hempty : "" = toString (j + 2) :=
            (String.append_right_inj base).mp ((String.append_empty).trans h)
          exact absurd hempty.symm (toString_ne_empty _)
  | succ i =>
      cases j with
      | zero =>
          have hempty : toString (i + 2) = "" :=
            (String.append_right_inj base).mp (h.trans (String.append_empty).symm)
          exact absurd hempty (toString_ne_empty _)
      | succ j =>
          have hnumber := toString_injective ((String.append_right_inj base).mp h)
          omega

/-- The names that are counted from a number on. -/
def counted (base : String) (start n : Nat) : String :=
  base ++ toString (start + 1 + n)

theorem counted_injective (base : String) (start : Nat) :
    Function.Injective (counted base start) := by
  intro i j h
  have hnumber := toString_injective ((String.append_right_inj base).mp h)
  omega

/-- A search among the first members of a sequence finds the first that suits. -/
theorem find?_map_range_eq_some_iff {α : Type} {candidates : Nat → α} {suits : α → Bool}
    {count : Nat} {a : α} :
    ((List.range count).map candidates).find? suits = some a ↔
      ∃ n < count, a = candidates n ∧ suits a = true ∧
        ∀ k < n, suits (candidates k) = false := by
  rw [List.find?_map]
  constructor
  · intro h
    obtain ⟨n, hn, rfl⟩ := Option.map_eq_some_iff.mp h
    obtain ⟨hsuits, hmem, hfirst⟩ := List.find?_range_eq_some.mp hn
    exact ⟨n, List.mem_range.mp hmem, rfl, hsuits, fun k hk => by simpa using hfirst k hk⟩
  · rintro ⟨n, hn, rfl, hsuits, hfirst⟩
    refine Option.map_eq_some_iff.mpr ⟨n, List.find?_range_eq_some.mpr
      ⟨hsuits, List.mem_range.mpr hn, fun k hk => ?_⟩, rfl⟩
    rw [Function.comp_apply, hfirst k hk]
    rfl

/-- The search finds the first candidate that suits. -/
theorem firstNumbered_eq_some_iff {base name : String} {count : Nat} {suits : String → Bool} :
    firstNumbered base count suits = some name ↔
      ∃ n < count, name = numbered base n ∧ suits name = true ∧
        ∀ k < n, suits (numbered base k) = false :=
  find?_map_range_eq_some_iff

/-- The search finds the number of the first candidate that suits. -/
theorem firstCounted_eq_some_iff {base : String} {start count number : Nat}
    {suits : String → Bool} :
    firstCounted base start count suits = some number ↔
      ∃ n < count, number = start + 1 + n ∧ suits (base ++ toString number) = true ∧
        ∀ k < n, suits (counted base start k) = false :=
  find?_map_range_eq_some_iff

/-- Among the candidates up to the number of different taken names there is one that is not
taken. -/
theorem exists_notMem {names : Nat → String} (hnames : Function.Injective names)
    (taken : List String) : ∃ n ≤ taken.toFinset.card, names n ∉ taken := by
  have hcard : taken.toFinset.card <
      ((Finset.range (taken.toFinset.card + 1)).image names).card := by
    rw [Finset.card_image_of_injective _ hnames, Finset.card_range]
    exact Nat.lt_succ_self _
  obtain ⟨name, hname, hfree⟩ := Finset.exists_mem_notMem_of_card_lt_card hcard
  obtain ⟨n, hn, rfl⟩ := Finset.mem_image.mp hname
  exact ⟨n, Nat.le_of_lt_succ (Finset.mem_range.mp hn), fun h => hfree (List.mem_toFinset.mpr h)⟩

/-! ## A search without a bound -/

variable {candidates : Nat → String} {suits : String → Bool} {n m : Nat}

/-- A search that has come to its `n`-th candidate stops at the `m`-th: it tries one candidate after
the other until one suits.  A search that goes on for ever stops nowhere. -/
inductive StopsAt (candidates : Nat → String) (suits : String → Bool) : Nat → Nat → Prop
  | found {n : Nat} : suits (candidates n) = true → StopsAt candidates suits n n
  | next {n m : Nat} : suits (candidates n) = false → StopsAt candidates suits (n + 1) m →
      StopsAt candidates suits n m

/-- A search stops at the first candidate that suits. -/
theorem stopsAt_iff : StopsAt candidates suits n m ↔
    n ≤ m ∧ suits (candidates m) = true ∧
      ∀ k, n ≤ k → k < m → suits (candidates k) = false := by
  constructor
  · intro h
    induction h with
    | found hsuits => exact ⟨Nat.le_refl _, hsuits, fun k hle hlt => by omega⟩
    | @next n m hpassed _ ih =>
        obtain ⟨hle, hsuits, hfirst⟩ := ih
        refine ⟨by omega, hsuits, ?_⟩
        intro k hk hlt
        by_cases heq : k = n
        · exact heq ▸ hpassed
        · exact hfirst k (by omega) hlt
  · rintro ⟨hle, hsuits, hfirst⟩
    -- Backwards from the candidate that suits, since every earlier one is passed over.
    induction hle using Nat.decreasingInduction with
    | self => exact .found hsuits
    | of_succ k hk ih =>
        exact .next (hfirst k (Nat.le_refl k) hk) (ih fun j hj hlt => hfirst j (by omega) hlt)

/-- A search stops at a candidate that suits, or before. -/
theorem exists_stopsAt (h : suits (candidates n) = true) :
    ∃ m ≤ n, StopsAt candidates suits 0 m := by
  have hexists : ∃ m, suits (candidates m) = true := ⟨n, h⟩
  refine ⟨Nat.find hexists, Nat.find_min' hexists h, stopsAt_iff.mpr ⟨Nat.zero_le _, ?_, ?_⟩⟩
  · exact Nat.find_spec hexists
  · intro k _ hk
    exact Bool.eq_false_iff.mpr (Nat.find_min hexists hk)

/-! ## Searches among occupied names -/

/-- A search stops at the `m`-th candidate, and among the first candidates, one more than there are
occupied names, there is one from there on that is free. -/
structure Ends (candidates : Nat → String) (occupied : List String) (suits : String → Bool)
    (m : Nat) : Prop where
  stops : StopsAt candidates suits 0 m
  free : ∃ n, m ≤ n ∧ n < occupied.toFinset.card + 1 ∧ candidates n ∉ occupied

variable {occupied : List String}

/-- **A search ends** if the candidates are different and all names suit that are not occupied. -/
theorem exists_ends (hdistinct : Function.Injective candidates)
    (h : ∀ name, name ∉ occupied → suits name = true) :
    ∃ m, Ends candidates occupied suits m := by
  obtain ⟨n, hn, hfree⟩ := exists_notMem hdistinct occupied
  obtain ⟨m, hm, hstops⟩ := exists_stopsAt (h _ hfree)
  exact ⟨m, hstops, n, hm, Nat.lt_succ_of_le hn, hfree⟩

/-- A search for a name that is not occupied ends. -/
theorem exists_ends_notMem (hdistinct : Function.Injective candidates) (occupied : List String) :
    ∃ m, Ends candidates occupied (fun name => !occupied.contains name) m :=
  exists_ends hdistinct (by simp)

namespace Ends

theorem suits_eq (h : Ends candidates occupied suits m) : suits (candidates m) = true :=
  (stopsAt_iff.mp h.stops).2.1

theorem passed (h : Ends candidates occupied suits m) :
    ∀ k < m, suits (candidates k) = false := by
  intro k hk
  exact (stopsAt_iff.mp h.stops).2.2 k (Nat.zero_le k) hk

theorem lt_length (h : Ends candidates occupied suits m) : m < occupied.length + 1 := by
  obtain ⟨n, hle, hlt, -⟩ := h.free
  have hcard := occupied.toFinset_card_le
  omega

variable {base : String}

/-- The bounded search among numbered names stops where the search without a bound does. -/
theorem firstNumbered_eq (h : Ends (numbered base) occupied suits m) :
    firstNumbered base (occupied.length + 1) suits = some (numbered base m) :=
  firstNumbered_eq_some_iff.mpr ⟨m, h.lt_length, rfl, h.suits_eq, h.passed⟩

/-- The bounded search among counted names stops where the search without a bound does. -/
theorem firstCounted_eq {start : Nat} (h : Ends (counted base start) occupied suits m) :
    firstCounted base start (occupied.length + 1) suits = some (start + 1 + m) :=
  firstCounted_eq_some_iff.mpr ⟨m, h.lt_length, rfl, h.suits_eq, h.passed⟩

end Ends

end ViewGen.Text
