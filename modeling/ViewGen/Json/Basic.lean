/-!
# JSON trees

A tree keeps the fields of an object in the order of the text, repeated keys included. Reading a
document loosely (`Json.sorted`) and reading it strictly (`Json.record?`, in `ViewGen.Json.Record`)
are two operations on that one tree.

## Main definitions

* `Json` — the tree
* `Json.depth` — how deep arrays and objects nest
* `Json.readable` — every literal in the tree has a value
* `Json.sorted` — fields in the order of their keys, the last value of a repeated key kept

## Design notes

`Json.unreadable` stands for a piece of text that is well formed and yet has no value: a number too
large for a double, a string with half a surrogate pair, an object with such a key. A reader that
skips over a field does not look at its value, so such a piece is harmless there and an error
anywhere else.
-/

namespace ViewGen

/-- A JSON tree in text order. -/
inductive Json where
  | null
  | bool (b : Bool)
  | int (n : Int)
  | float (x : Float)
  | str (s : String)
  | arr (items : List Json)
  | obj (fields : List (String × Json))
  | unreadable

namespace Json

instance : Inhabited Json := ⟨.null⟩

mutual

/-- How deep arrays and objects nest; a scalar has depth zero. -/
def depth : Json → Nat
  | .arr items => depthItems items + 1
  | .obj fields => depthFields fields + 1
  | _ => 0

/-- The greatest depth of some items. -/
def depthItems : List Json → Nat
  | [] => 0
  | j :: js => max (depth j) (depthItems js)

/-- The greatest depth of the values of some fields. -/
def depthFields : List (String × Json) → Nat
  | [] => 0
  | (_, j) :: fs => max (depth j) (depthFields fs)

end

mutual

/-- Every literal in the tree has a value. -/
def readable : Json → Bool
  | .unreadable => false
  | .arr items => readableItems items
  | .obj fields => readableFields fields
  | _ => true

/-- Every literal in the items has a value. -/
def readableItems : List Json → Bool
  | [] => true
  | j :: js => readable j && readableItems js

/-- Every literal in the fields has a value. -/
def readableFields : List (String × Json) → Bool
  | [] => true
  | (_, j) :: fs => readable j && readableFields fs

end

/-- Put a field into its place among sorted fields, in place of one with the same key. -/
def insertSorted (key : String) (value : Json) :
    List (String × Json) → List (String × Json)
  | [] => [(key, value)]
  | (k, v) :: rest =>
    if key = k then (key, value) :: rest
    else if key < k then (key, value) :: (k, v) :: rest
    else (k, v) :: insertSorted key value rest

/-- Put fields in the order of their keys, the last value of a repeated key kept. -/
def sortFields (fields : List (String × Json)) : List (String × Json) :=
  fields.foldl (fun sorted (k, v) => insertSorted k v sorted) []

mutual

/-- The tree with the fields of every object in the order of their keys and the last value of a
repeated key kept. -/
def sorted : Json → Json
  | .arr items => .arr (sortedItems items)
  | .obj fields => .obj (sortFields (sortedValues fields))
  | j => j

/-- `sorted` on every item. -/
def sortedItems : List Json → List Json
  | [] => []
  | j :: js => sorted j :: sortedItems js

/-- `sorted` on every value. -/
def sortedValues : List (String × Json) → List (String × Json)
  | [] => []
  | (k, j) :: fs => (k, sorted j) :: sortedValues fs

end

/-- The value of a field of an object. -/
def field? : Json → String → Option Json
  | .obj fields, key => fields.lookup key
  | _, _ => none

/-- The fields of an object. -/
def fields? : Json → Option (List (String × Json))
  | .obj fields => some fields
  | _ => none

/-- The items of an array. -/
def items? : Json → Option (List Json)
  | .arr items => some items
  | _ => none

/-- The text of a string. -/
def str? : Json → Option String
  | .str s => some s
  | _ => none

/-- The value of a boolean. -/
def bool? : Json → Option Bool
  | .bool b => some b
  | _ => none

end Json

end ViewGen
