/-!
# Shortest decimals

The fewest decimal digits that read back as a given double, found by exact arithmetic on natural
numbers.

## Main definitions

* `Binary` — a positive double as `mantissa · 2 ^ exponent`
* `Decimal` — `coefficient · 10 ^ exponent`
* `Tie` — which of two equally near decimals is taken
* `Binary.shortest` — the shortest decimal that rounds to the double

## Design notes

The reals that round to a double form an interval around it, whose ends belong to it exactly when
the mantissa is even. For one digit, two digits and so on, the two neighbours of the double on the
grid of decimals with so many digits are tried; the first grid with a neighbour inside the interval
wins, and of two neighbours the nearer one. A double can lie exactly halfway between them, and
formats differ in which one they show then, so the choice is a parameter. Seventeen digits always
suffice.
-/

namespace ViewGen

/-- A positive double: `mantissa · 2 ^ exponent`. When `narrowBelow` holds, the next smaller double
is only half as far away as the next larger one. -/
structure Binary where
  mantissa : Nat
  exponent : Int
  narrowBelow : Bool

/-- The decimal number `coefficient · 10 ^ exponent`. -/
structure Decimal where
  coefficient : Nat
  exponent : Int
  deriving DecidableEq

/-- What to take of two neighbouring decimals that are equally near: the larger one, or the one with
an even last digit. -/
inductive Tie where
  | up
  | toEven
  deriving DecidableEq

/-- Whether a tie between `below` and `below + 1` goes to the larger one. -/
def Tie.goesUp : Tie → Nat → Bool
  | .up, _ => true
  | .toEven, below => below % 2 == 1

/-- The absolute value of a finite double, from its bits. -/
def Binary.ofFloat (x : Float) : Binary :=
  let bits := x.toBits.toNat
  let fraction := bits % Nat.pow 2 52
  let biased : Nat := bits / Nat.pow 2 52 % Nat.pow 2 11
  if biased = 0 then ⟨fraction, -1074, false⟩
  else ⟨fraction + Nat.pow 2 52, (biased : Int) - 1075, fraction == 0 && 1 < biased⟩

/-- How many decimal digits a natural number has; zero has none. -/
def digitCount (n : Nat) : Nat :=
  if n = 0 then 0 else (Nat.toDigits 10 n).length

/-- The least `p` with `m · 2 ^ e < 10 ^ p`, for a positive mantissa. -/
def Binary.magnitude (b : Binary) : Int :=
  let num := b.mantissa * Nat.pow 2 b.exponent.toNat
  let den := Nat.pow 2 (-b.exponent).toNat
  if den ≤ num then digitCount (num / den)
  else 1 - digitCount ((den - 1) / num)

/-- The decimal with `digits` digits that lies in the rounding interval and nearest to the double,
if there is one. -/
def Binary.onGrid (b : Binary) (tie : Tie) (digits : Nat) : Option Decimal :=
  let unit := b.magnitude - digits
  let scale := Nat.pow 2 b.exponent.toNat * Nat.pow 10 (-unit).toNat
  let den := 4 * Nat.pow 2 (-b.exponent).toNat * Nat.pow 10 unit.toNat
  let value := 4 * b.mantissa * scale
  let low := (4 * b.mantissa - (if b.narrowBelow then 1 else 2)) * scale
  let high := (4 * b.mantissa + 2) * scale
  let inside (c : Nat) : Bool :=
    if b.mantissa % 2 = 0 then low ≤ c * den && c * den ≤ high
    else low < c * den && c * den < high
  let below := value / den
  let above := below + 1
  match inside below, inside above with
  | true, true =>
    match compare (2 * (value % den)) den with
    | .lt => some ⟨below, unit⟩
    | .gt => some ⟨above, unit⟩
    | .eq => if tie.goesUp below then some ⟨above, unit⟩ else some ⟨below, unit⟩
  | true, false => some ⟨below, unit⟩
  | false, true => some ⟨above, unit⟩
  | false, false => none

/-- Move zeros at the end of the coefficient into the exponent, at most `fuel` of them. -/
def Decimal.strip : Nat → Decimal → Decimal
  | 0, d => d
  | fuel + 1, d =>
    if d.coefficient ≠ 0 ∧ d.coefficient % 10 = 0 then
      Decimal.strip fuel ⟨d.coefficient / 10, d.exponent + 1⟩
    else d

/-- The double itself as a decimal, with all its digits. -/
def Binary.exact (b : Binary) : Decimal :=
  if 0 ≤ b.exponent then ⟨b.mantissa * Nat.pow 2 b.exponent.toNat, 0⟩
  else ⟨b.mantissa * Nat.pow 5 (-b.exponent).toNat, b.exponent⟩

/-- The shortest decimal that reads back as the double. -/
def Binary.shortest (b : Binary) (tie : Tie) : Decimal :=
  match (List.range 17).findSome? fun k => b.onGrid tie (k + 1) with
  | some d => d.strip 17
  | none => b.exact

end ViewGen
