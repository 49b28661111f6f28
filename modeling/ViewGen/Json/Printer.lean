import ViewGen.Decimal.Text
import ViewGen.Json.Basic

/-!
# Writing JSON text

## Main definitions

* `Json.quote` — a string with the fewest escapes
* `Json.compact` — a tree on one line
* `Json.pretty` — a tree with a line for each item and field
-/

namespace ViewGen.Json

/-- A hexadecimal digit in lower case. -/
def hexChar (n : Nat) : Char :=
  if n < 10 then Char.ofNat ('0'.toNat + n) else Char.ofNat ('a'.toNat + (n - 10))

/-- A character inside a quoted string. -/
def escapeChar (c : Char) : List Char :=
  if c == '"' then ['\\', '"']
  else if c == '\\' then ['\\', '\\']
  else if c == '\n' then ['\\', 'n']
  else if c == '\r' then ['\\', 'r']
  else if c == '\t' then ['\\', 't']
  else if c.toNat == 8 then ['\\', 'b']
  else if c.toNat == 12 then ['\\', 'f']
  else if c.toNat < 32 then ['\\', 'u', '0', '0', hexChar (c.toNat / 16), hexChar (c.toNat % 16)]
  else [c]

/-- A quoted string: only quotes, backslashes and control characters are escaped. -/
def quote (s : String) : String :=
  String.ofList ('"' :: s.toList.flatMap escapeChar ++ ['"'])

mutual

/-- A tree on one line, without blanks. -/
def compact : Json → String
  | .null => "null"
  | .bool b => if b then "true" else "false"
  | .int n => toString n
  | .float x => Number.text x
  | .str s => quote s
  | .arr items => "[" ++ ",".intercalate (compactItems items) ++ "]"
  | .obj fields => "\x7b" ++ ",".intercalate (compactFields fields) ++ "\x7d"
  | .unreadable => "null"

/-- The items of an array, each on one line. -/
def compactItems : List Json → List String
  | [] => []
  | j :: js => compact j :: compactItems js

/-- The fields of an object, each on one line. -/
def compactFields : List (String × Json) → List String
  | [] => []
  | (k, j) :: fs => (quote k ++ ":" ++ compact j) :: compactFields fs

end

/-- The blanks before a line at a level of nesting, two for each level. -/
def indent (level : Nat) : String :=
  String.ofList (List.replicate (2 * level) ' ')

/-- Lines between an opening and a closing bracket, or just the brackets when there are none. -/
def bracketed (opening closing : String) (level : Nat) (lines : List String) : String :=
  if lines.isEmpty then opening ++ closing
  else
    opening ++ "\n" ++ ",\n".intercalate (lines.map (indent (level + 1) ++ ·)) ++ "\n" ++
      indent level ++ closing

mutual

/-- A tree with a line for each item and field, at a level of nesting. -/
def prettyAt (level : Nat) : Json → String
  | .arr items => bracketed "[" "]" level (prettyItems (level + 1) items)
  | .obj fields => bracketed "\x7b" "\x7d" level (prettyFields (level + 1) fields)
  | j => compact j

/-- The items of an array. -/
def prettyItems (level : Nat) : List Json → List String
  | [] => []
  | j :: js => prettyAt level j :: prettyItems level js

/-- The fields of an object. -/
def prettyFields (level : Nat) : List (String × Json) → List String
  | [] => []
  | (k, j) :: fs => (quote k ++ ": " ++ prettyAt level j) :: prettyFields level fs

end

/-- A tree with a line for each item and field. -/
def pretty (j : Json) : String :=
  prettyAt 0 j

end ViewGen.Json
