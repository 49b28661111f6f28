import ViewGen.Decimal.Shortest

/-!
# Numbers as text

Two ways to write a double with its shortest digits: always positional, as the generated sources
need it, and with an exponent outside a middle range, as data files have it.

## Main definitions

* `Number.text` — positional, zero without a sign
* `Number.dataText` — with a point or an exponent always, the exponent below `10 ^ -5` and from
  `10 ^ 16` on

## Design notes

Where two shortest decimals are equally near, the positional text takes the larger one and the data
text the one with an even last digit.
-/

namespace ViewGen

/-- `n` zeros. -/
def zeros (n : Nat) : String :=
  String.ofList (List.replicate n '0')

/-- The digits of a decimal with a point `places` digits from the left. -/
def pointAfter (digits : String) (places : Nat) : String :=
  String.ofList (digits.toList.take places) ++ "." ++ String.ofList (digits.toList.drop places)

/-- A decimal written out without an exponent. -/
def Decimal.positional (d : Decimal) : String :=
  let digits := toString d.coefficient
  if 0 ≤ d.exponent then digits ++ zeros d.exponent.toNat
  else
    let places := (-d.exponent).toNat
    if places < digits.length then pointAfter digits (digits.length - places)
    else "0." ++ zeros (places - digits.length) ++ digits

/-- A power of ten as an exponent mark, which always has a sign. -/
def exponentMark (power : Int) : String :=
  if 0 ≤ power then "e+" ++ toString power else "e" ++ toString power

/-- A decimal with a point, or with an exponent when it is very large or very small. -/
def Decimal.scientific (d : Decimal) : String :=
  let digits := toString d.coefficient
  let point : Int := digits.length + d.exponent
  if 0 ≤ d.exponent ∧ point ≤ 16 then d.positional ++ ".0"
  else if -5 < point ∧ point ≤ 16 then d.positional
  else
    let lead := if digits.length = 1 then digits else pointAfter digits 1
    lead ++ exponentMark (point - 1)

namespace Number

/-- The sign bit of a double. -/
def isNegative (x : Float) : Bool :=
  x.toBits.toNat / Nat.pow 2 63 == 1

/-- A number as the generated sources show it: the fewest digits that read back, the larger of two
equally near ones, never with an exponent, and zero without a sign. -/
def text (x : Float) : String :=
  if x.isNaN then "NaN"
  else if x.isInf then if isNegative x then "-inf" else "inf"
  else if x == 0.0 then "0"
  else
    let digits := ((Binary.ofFloat x).shortest .up).positional
    if isNegative x then "-" ++ digits else digits

/-- A finite number as a data file shows it: the fewest digits that read back, an even last digit
where two are equally near, and zero with its sign. -/
def dataText (x : Float) : String :=
  let digits := if x == 0.0 then "0.0" else ((Binary.ofFloat x).shortest .toEven).scientific
  if isNegative x then "-" ++ digits else digits

end Number

end ViewGen
