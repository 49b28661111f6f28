/-!
# Reading decimals

From the digits of a number to the double it stands for.

## Main definitions

* `Numeral` — the parts of a written number
* `Numeral.float?` — its double, unless it is too large for one

## Design notes

The digits that fit into a word of 64 bits form the significand; the digits after them only count as
places. The significand is rounded to a double and then multiplied or divided once by a power of
ten, so the last bit may differ from the nearest double when there are more than about fifteen
digits. An exponent below what one division can reach is taken in steps.
-/

namespace ViewGen

/-- A written number: sign, digits before and after the point, and exponent. -/
structure Numeral where
  negative : Bool
  whole : List Nat
  fraction : List Nat
  exponent : Int

/-- A significand being collected, with the power of ten it is to be scaled by. -/
structure Significand where
  digits : Nat
  scale : Int

/-- The number of values of a significand. -/
def significandBound : Nat := Nat.pow 2 64

/-- Add digits before the point; once one does not fit, it and the rest only count as places. -/
def Significand.addWhole (s : Significand) : List Nat → Significand
  | [] => s
  | d :: ds =>
    let next := s.digits * 10 + d
    if next < significandBound then Significand.addWhole ⟨next, s.scale⟩ ds
    else ⟨s.digits, s.scale + (ds.length + 1)⟩

/-- Add digits after the point; once one does not fit, it and the rest are left out. -/
def Significand.addFraction (s : Significand) : List Nat → Significand
  | [] => s
  | d :: ds =>
    let next := s.digits * 10 + d
    if next < significandBound then Significand.addFraction ⟨next, s.scale - 1⟩ ds
    else s

/-- A power of ten as a double. -/
def powerOfTen (n : Nat) : Float :=
  Float.ofScientific 1 false n

/-- The largest exponent of a power of ten that is a double. -/
def largestPower : Nat := 308

/-- Divide by a power of ten, in steps that are doubles themselves. -/
def divideByPower (x : Float) (n : Nat) : Float :=
  if n ≤ largestPower then x / powerOfTen n
  else if x == 0.0 then x
  else divideByPower (x / powerOfTen largestPower) (n - largestPower)
termination_by n
decreasing_by simp only [largestPower] at *; omega

/-- The double that a natural number below `2 ^ 64` rounds to. -/
def floatOfNat (n : Nat) : Float :=
  n.toUInt64.toFloat

/-- The double of a significand, unless it is too large for one. -/
def Significand.float? (s : Significand) : Option Float :=
  let x := floatOfNat s.digits
  if s.scale < 0 then some (divideByPower x (-s.scale).toNat)
  else if x == 0.0 then some x
  else if largestPower < s.scale.toNat then none
  else
    let y := x * powerOfTen s.scale.toNat
    if y.isInf then none else some y

/-- The double of a numeral, unless it is too large for one. -/
def Numeral.float? (n : Numeral) : Option Float :=
  let whole := Significand.addWhole ⟨0, 0⟩ n.whole
  let all := whole.addFraction n.fraction
  (Significand.float? ⟨all.digits, all.scale + n.exponent⟩).map fun x =>
    if n.negative then -x else x

/-- The double that an integer of at most 64 bits rounds to. -/
def floatOfInt (n : Int) : Float :=
  if n < 0 then -(floatOfNat n.natAbs) else floatOfNat n.natAbs

end ViewGen
