/-!
# Blank text and lines

White space as the Unicode property `White_Space` defines it, and what is built on it: blank texts,
trimming at the end, and splitting a text into lines.

## Main definitions

* `Text.isBlank` — the property, as a table of ranges
* `Text.allBlank` — a text of nothing but white space
* `Text.trimEnd` — a text without the white space at its end
* `Text.lines` — the lines of a text
-/

namespace ViewGen.Text

/-- The ranges of code points with the property `White_Space`. -/
def blankRanges : List (Nat × Nat) :=
  [(0x9, 0xD), (0x20, 0x20), (0x85, 0x85), (0xA0, 0xA0), (0x1680, 0x1680), (0x2000, 0x200A),
   (0x2028, 0x2029), (0x202F, 0x202F), (0x205F, 0x205F), (0x3000, 0x3000)]

/-- White space. -/
def isBlank (c : Char) : Bool :=
  blankRanges.any fun (first, last) => first ≤ c.toNat && c.toNat ≤ last

/-- A text of nothing but white space; the empty text is one. -/
def allBlank (s : String) : Bool :=
  s.toList.all isBlank

/-- A list without the longest run at its end of members that satisfy `p`. -/
def dropEndWhile {α : Type} (p : α → Bool) (xs : List α) : List α :=
  (xs.reverse.dropWhile p).reverse

/-- A text without the white space at its end. -/
def trimEnd (s : String) : String :=
  String.ofList (dropEndWhile isBlank s.toList)

/-- The pieces of a list between the members that satisfy `p`, which are left out. There is always
one piece more than there are such members. -/
def pieces {α : Type} (p : α → Bool) : List α → List (List α)
  | [] => [[]]
  | x :: xs =>
    if p x then [] :: pieces p xs
    else
      match pieces p xs with
      | [] => [[x]]
      | w :: ws => (x :: w) :: ws

/-- The pieces of a text between the characters that satisfy `p`. -/
def split (p : Char → Bool) (s : String) : List String :=
  (pieces p s.toList).map String.ofList

/-- The lines of a list of characters: a line feed ends a line and takes a carriage return before
it along; what follows the last line feed is a line unless it is empty. -/
def charLines (cs : List Char) : List (List Char) :=
  let parts := pieces (· == '\n') cs
  let ended := parts.dropLast.map fun line =>
    if line.getLast? == some '\r' then line.dropLast else line
  match parts.getLast? with
  | none | some [] => ended
  | some rest => ended ++ [rest]

/-- The lines of a text. -/
def lines (s : String) : List String :=
  (charLines s.toList).map String.ofList

end ViewGen.Text
