import ViewGen.Json.Reader

/-!
# String literals

String literals of a script, with characters beyond ASCII written out or as escapes of four
hexadecimal digits, and the replacement of such escapes by the characters they stand for.

## Main definitions

* `Literal.quote` — a string literal
* `Literal.unescape` — a script with its escapes of four digits decoded

## Design notes

`Literal.unescape` knows nothing of literals. It stays in step with them because an escaped
backslash is passed over as a pair.
-/

namespace ViewGen.Literal

/-- A hexadecimal digit in upper case. -/
def hexDigit (n : Nat) : Char :=
  if n < 10 then Char.ofNat ('0'.toNat + n) else Char.ofNat ('A'.toNat + (n - 10))

/-- The escape of a unit of 16 bits. -/
def unitEscape (n : Nat) : List Char :=
  ['\\', 'u', hexDigit (n / 4096 % 16), hexDigit (n / 256 % 16), hexDigit (n / 16 % 16),
    hexDigit (n % 16)]

/-- The escape of a character: one unit, or a surrogate pair. -/
def charEscape (c : Char) : List Char :=
  let n := c.toNat
  if n < 0x10000 then unitEscape n
  else
    unitEscape (0xD800 + (n - 0x10000) / 0x400) ++ unitEscape (0xDC00 + (n - 0x10000) % 0x400)

/-- A character inside a literal. -/
def escape (asciiOnly : Bool) (c : Char) : List Char :=
  if c == '\\' then ['\\', '\\']
  else if c == '\'' then ['\\', '\'']
  else if c == '\n' then ['\\', 'n']
  else if c == '\r' then ['\\', 'r']
  else if c == '\t' then ['\\', 't']
  else if asciiOnly && 128 ≤ c.toNat then charEscape c
  else [c]

/-- A string literal in single quotes. -/
def quote (asciiOnly : Bool) (s : String) : String :=
  String.ofList ('\'' :: s.toList.flatMap (escape asciiOnly) ++ ['\''])

/-- The units of the escapes at the start of a text: a surrogate pair, or a single unit. -/
def unitAt? : List Char → Option Nat
  | '\\' :: 'u' :: a :: b :: c :: d :: _ => Json.hexUnit? a b c d
  | _ => none

/-- Replace escapes of four digits by the characters they stand for, surrogate pairs by one
character. Escaped backslashes and halves of pairs are left as they are; `skip` characters are still
to be passed over. -/
def unescapeFrom : Nat → List Char → List Char
  | _, [] => []
  | skip + 1, _ :: cs => unescapeFrom skip cs
  | 0, c :: cs =>
    match c, cs with
    | '\\', '\\' :: _ => '\\' :: '\\' :: unescapeFrom 1 cs
    | _, _ =>
      match unitAt? (c :: cs) with
      | some unit =>
        if Json.isHighUnit unit then
          match unitAt? (cs.drop 5) with
          | some low =>
            if Json.isLowUnit low then Json.pairChar unit low :: unescapeFrom 11 cs
            else c :: cs.take 5 ++ unescapeFrom 5 cs
          | none => c :: cs.take 5 ++ unescapeFrom 5 cs
        else if Json.isLowUnit unit then c :: cs.take 5 ++ unescapeFrom 5 cs
        else Char.ofNat unit :: unescapeFrom 5 cs
      | none => c :: unescapeFrom 0 cs

/-- A script with its escapes of four digits decoded. -/
def unescape (s : String) : String :=
  String.ofList (unescapeFrom 0 s.toList)

end ViewGen.Literal
