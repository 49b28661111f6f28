import ViewGen.Decimal.Reading
import ViewGen.Json.Basic

/-!
# Reading JSON text

From text to a tree, with no limit on nesting: limits belong to the readers of trees.

## Main definitions

* `Json.parse?` — the tree of a text
* `Json.parseSorted?` — the sorted tree of a text with readable literals and at most
  `Json.depthLimit` levels

## Design notes

Every reading function returns what is left of the text. Values are read with a budget that falls by
one at every value and every separator; the length of the text is budget enough, because each of
them takes at least one character.
-/

namespace ViewGen.Json

/-- Arrays and objects nest at most this deep. -/
def depthLimit : Nat := 127

/-- The blanks that may stand between the tokens. -/
def isGap (c : Char) : Bool :=
  c == ' ' || c == '\n' || c == '\t' || c == '\r'

/-- Skip blanks. -/
def skipGap (cs : List Char) : List Char :=
  cs.dropWhile isGap

/-- The value of a hexadecimal digit. -/
def hexDigit? (c : Char) : Option Nat :=
  if '0' ≤ c ∧ c ≤ '9' then some (c.toNat - '0'.toNat)
  else if 'a' ≤ c ∧ c ≤ 'f' then some (c.toNat - 'a'.toNat + 10)
  else if 'A' ≤ c ∧ c ≤ 'F' then some (c.toNat - 'A'.toNat + 10)
  else none

/-- The value of four hexadecimal digits. -/
def hexUnit? (a b c d : Char) : Option Nat := do
  return (((← hexDigit? a) * 16 + (← hexDigit? b)) * 16 + (← hexDigit? c)) * 16 + (← hexDigit? d)

/-- The first half of a surrogate pair. -/
def isHighUnit (n : Nat) : Bool :=
  0xD800 ≤ n && n < 0xDC00

/-- The second half of a surrogate pair. -/
def isLowUnit (n : Nat) : Bool :=
  0xDC00 ≤ n && n < 0xE000

/-- The character of a surrogate pair. -/
def pairChar (high low : Nat) : Char :=
  Char.ofNat (0x10000 + (high - 0xD800) * 0x400 + (low - 0xDC00))

/-- The character that a backslash and a letter stand for. -/
def shortEscape? : Char → Option Char
  | '"' => some '"'
  | '\\' => some '\\'
  | '/' => some '/'
  | 'b' => some (Char.ofNat 8)
  | 'f' => some (Char.ofNat 12)
  | 'n' => some '\n'
  | 'r' => some '\r'
  | 't' => some '\t'
  | _ => none

/-- Read the rest of a string after its opening quote, as code points; halves of surrogate pairs are
kept apart. -/
def readUnits : List Char → Option (List Nat × List Char)
  | [] => none
  | '"' :: cs => some ([], cs)
  | '\\' :: 'u' :: a :: b :: c :: d :: cs =>
    (hexUnit? a b c d).bind fun unit =>
      (readUnits cs).map fun (units, rest) => (unit :: units, rest)
  | '\\' :: e :: cs =>
    (shortEscape? e).bind fun c =>
      (readUnits cs).map fun (units, rest) => (c.toNat :: units, rest)
  | c :: cs =>
    if c.toNat < 32 || c == '\\' then none
    else (readUnits cs).map fun (units, rest) => (c.toNat :: units, rest)

/-- Join the halves of surrogate pairs. Half a pair has no value. -/
def joinUnits? : List Nat → Option (List Char)
  | [] => some []
  | high :: low :: units =>
    if isHighUnit high && isLowUnit low then (joinUnits? units).map (pairChar high low :: ·)
    else if isHighUnit high || isLowUnit high then none
    else (joinUnits? (low :: units)).map (Char.ofNat high :: ·)
  | [unit] => if isHighUnit unit || isLowUnit unit then none else some [Char.ofNat unit]

/-- Read the rest of a string after its opening quote. The first component is missing when the
string is well formed but has half a surrogate pair in it. -/
def readString (cs : List Char) : Option (Option (List Char) × List Char) :=
  (readUnits cs).map fun (units, rest) => (joinUnits? units, rest)

/-- The values of leading digits, and the rest. -/
def readDigits (cs : List Char) : List Nat × List Char :=
  ((cs.takeWhile Char.isDigit).map fun c => c.toNat - '0'.toNat, cs.dropWhile Char.isDigit)

/-- The natural number with the given digits. -/
def natOfDigits (ds : List Nat) : Nat :=
  ds.foldl (fun n d => n * 10 + d) 0

/-- The value of a number without fraction and exponent: an integer when it fits into 64 bits, and
otherwise a double. Minus zero is a double. -/
def wholeValue (negative : Bool) (digits : List Nat) : Json :=
  let n := natOfDigits digits
  if negative then
    if 0 < n ∧ n ≤ Nat.pow 2 63 then .int (-n)
    else floatValue ⟨true, digits, [], 0⟩
  else if n < Nat.pow 2 64 then .int n
  else floatValue ⟨false, digits, [], 0⟩
where
  /-- The double of a numeral. -/
  floatValue (n : Numeral) : Json :=
    match n.float? with
    | some x => .float x
    | none => .unreadable

/-- Read an exponent, if there is one. -/
def readExponent : List Char → Option (Option Int × List Char)
  | c :: cs =>
    if c == 'e' || c == 'E' then
      let (negative, cs) := match cs with
        | '-' :: rest => (true, rest)
        | '+' :: rest => (false, rest)
        | _ => (false, cs)
      match readDigits cs with
      | ([], _) => none
      | (ds, rest) =>
        let n : Int := natOfDigits ds
        some (some (if negative then -n else n), rest)
    else some (none, c :: cs)
  | [] => some (none, [])

/-- Read the digits after a point, if there is one. -/
def readFraction : List Char → Option (Option (List Nat) × List Char)
  | '.' :: cs =>
    match readDigits cs with
    | ([], _) => none
    | (ds, rest) => some (some ds, rest)
  | cs => some (none, cs)

/-- Read a number. -/
def readNumber (cs : List Char) : Option (Json × List Char) := do
  let (negative, cs) := match cs with
    | '-' :: rest => (true, rest)
    | _ => (false, cs)
  let (whole, cs) := readDigits cs
  match whole with
  | [] => none
  | 0 :: _ :: _ => none
  | _ =>
    let (fraction, cs) ← readFraction cs
    let (exponent, cs) ← readExponent cs
    match fraction, exponent with
    | none, none => return (wholeValue negative whole, cs)
    | _, _ =>
      return (wholeValue.floatValue ⟨negative, whole, fraction.getD [], exponent.getD 0⟩, cs)

/-- The rest of a text after a given word. -/
def afterWord (word : String) (cs : List Char) : Option (List Char) :=
  if word.toList.isPrefixOf cs then some (cs.drop word.length) else none

mutual

/-- Read a value. -/
def readValue : Nat → List Char → Option (Json × List Char)
  | 0, _ => none
  | fuel + 1, cs =>
    match skipGap cs with
    | '{' :: cs =>
      match skipGap cs with
      | '}' :: cs => some (.obj [], cs)
      | cs => (readFields fuel cs).map fun (fields, rest) =>
        (match fields with | some fields => .obj fields | none => .unreadable, rest)
    | '[' :: cs =>
      match skipGap cs with
      | ']' :: cs => some (.arr [], cs)
      | cs => (readItems fuel cs).map fun (items, rest) => (.arr items, rest)
    | '"' :: cs => (readString cs).map fun (s, rest) =>
      (match s with | some s => .str (String.ofList s) | none => .unreadable, rest)
    | 't' :: cs => (afterWord "rue" cs).map fun rest => (.bool true, rest)
    | 'f' :: cs => (afterWord "alse" cs).map fun rest => (.bool false, rest)
    | 'n' :: cs => (afterWord "ull" cs).map fun rest => (.null, rest)
    | cs => readNumber cs

/-- Read the items of an array up to its closing bracket. -/
def readItems : Nat → List Char → Option (List Json × List Char)
  | 0, _ => none
  | fuel + 1, cs => do
    let (item, cs) ← readValue fuel cs
    match skipGap cs with
    | ',' :: cs =>
      let (items, rest) ← readItems fuel cs
      return (item :: items, rest)
    | ']' :: cs => return ([item], cs)
    | _ => none

/-- Read the fields of an object up to its closing brace. The fields are missing when a key has no
value. -/
def readFields : Nat → List Char → Option (Option (List (String × Json)) × List Char)
  | 0, _ => none
  | fuel + 1, cs =>
    match skipGap cs with
    | '"' :: cs => do
      let (key, cs) ← readString cs
      match skipGap cs with
      | ':' :: cs =>
        let (value, cs) ← readValue fuel cs
        let field := key.map fun k => (String.ofList k, value)
        match skipGap cs with
        | ',' :: cs =>
          let (fields, rest) ← readFields fuel cs
          return (field.bind fun f => fields.map (f :: ·), rest)
        | '}' :: cs => return (field.map ([·]), cs)
        | _ => none
      | _ => none
    | _ => none

end

/-- The tree of a text. -/
def parse? (text : String) : Option Json :=
  match readValue (text.length + 1) text.toList with
  | some (j, rest) => if (skipGap rest).isEmpty then some j else none
  | none => none

/-- The sorted tree of a text whose literals all have a value and which nests at most
`depthLimit` deep. -/
def parseSorted? (text : String) : Option Json :=
  (parse? text).bind fun j =>
    if j.readable && j.depth ≤ depthLimit then some j.sorted else none

end ViewGen.Json
