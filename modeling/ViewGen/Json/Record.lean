import ViewGen.Dict
import ViewGen.Json.Basic

/-!
# Reading typed values from JSON trees

The rules by which a tree is taken for a record, a list, a name out of a fixed set, or a value with
a tag. All readers take the number of levels of arrays and objects that they may still enter.

## Main definitions

* `Arrival` — whether a value comes straight from its document or out of a kept content
* `Json.record?` — the fields of a record, given as an object or as an array in declaration order
* `Json.objectRecord?` — the fields of a record that has to be an object
* `Record.required`, `Record.orDefault`, `Record.optional` — the value of one field
* `Json.list?`, `Json.dict?` — lists and dictionaries
* `Json.name?`, `Json.label?` — names as values, and names in front of what they describe
* `Json.tagged?` — a tag with its content, in either order

## Design notes

A field that a record does not know is skipped without a look at its value. A field that it knows
may occur only once. When a content comes before its tag it has to be kept until the tag is known,
and then all of it counts against the levels that are left, skipped fields included. What comes out
of a kept content may write its names in more ways, so the readers of names ask for the arrival.
-/

namespace ViewGen

/-- How a value comes to its reader: straight from its document, or out of a content that was kept
until its tag was known. -/
inductive Arrival where
  | direct
  | kept
  deriving DecidableEq

/-- The fields of a record that are present. -/
abbrev Record := List (String × Json)

namespace Json

/-- The fields of a record with the given field names: an object in which none of them occurs
twice. -/
def objectRecord? (levels : Nat) (names : List String) : Json → Option Record
  | .obj fields =>
    let known := fields.filter fun field => names.contains field.1
    if levels ≠ 0 ∧ (known.map Prod.fst).Nodup then some known else none
  | _ => none

/-- The fields of a record, given as an object, or as an array of values in the order of the names,
from which the last ones may be missing. -/
def record? (levels : Nat) (names : List String) : Json → Option Record
  | .arr items =>
    if levels ≠ 0 ∧ items.length ≤ names.length then some (names.zip items) else none
  | j => j.objectRecord? levels names

/-- A list of values. -/
def list? {α : Type} (levels : Nat) (read : Json → Option α) : Json → Option (List α)
  | .arr items => if levels = 0 then none else items.mapM read
  | _ => none

/-- A dictionary; a repeated key keeps its first place and its last value. -/
def dict? {α : Type} (levels : Nat) (read : Json → Option α) : Json → Option (Dict α)
  | .obj fields =>
    if levels = 0 then none
    else (fields.mapM fun field => (read field.2).map fun a => (field.1, a)).map Dict.ofList
  | _ => none

/-- Whether a value stands for no value: null, and in a kept content also an empty object. -/
def isVoid : Arrival → Json → Bool
  | _, .null | .kept, .obj [] => true
  | _, _ => false

/-- A name out of a table: a string, or an object with the name as its only key and no value. -/
def name? {α : Type} (arrival : Arrival) (levels : Nat) (table : List (String × α)) :
    Json → Option α
  | .str s => table.lookup s
  | .obj [(s, j)] => if levels ≠ 0 ∧ j.isVoid arrival then table.lookup s else none
  | _ => none

/-- A name out of a table in front of what it describes: a string, and in a kept content also the
position in the table. -/
def label? {α : Type} (arrival : Arrival) (table : List (String × α)) (j : Json) : Option α :=
  match arrival, j with
  | _, .str s => table.lookup s
  | .kept, .int n => if 0 ≤ n then table[n.toNat]?.map Prod.snd else none
  | _, _ => none

/-- A tag out of a table with its content and the arrival of that content: an object with the two
fields `type` and `content`, where the tag is a name, or an array of the two, where it is a label.
A content before its tag is kept. -/
def tagged? {α : Type} (arrival : Arrival) (levels : Nat) (table : List (String × α)) (j : Json) :
    Option (α × Arrival × Json) :=
  if levels = 0 then none
  else
    match j with
    | .obj fields =>
      match fields.filter fun field => field.1 == "type" || field.1 == "content" with
      | [("type", tag), ("content", content)] =>
        (name? arrival (levels - 1) table tag).map fun a => (a, arrival, content)
      | [("content", content), ("type", tag)] =>
        if content.readable && content.depth ≤ levels - 1 then
          (name? arrival (levels - 1) table tag).map fun a => (a, .kept, content)
        else none
      | _ => none
    | .arr [tag, content] => (label? arrival table tag).map fun a => (a, arrival, content)
    | _ => none

end Json

namespace Record

variable {α : Type}

/-- A field that has to be there. -/
def required (r : Record) (name : String) (read : Json → Option α) : Option α :=
  (r.lookup name).bind read

/-- A field with a default for when it is missing. -/
def orDefault (r : Record) (name : String) (default : α) (read : Json → Option α) : Option α :=
  match r.lookup name with
  | none => some default
  | some j => read j

/-- A field that may be missing or null. -/
def optional (r : Record) (name : String) (read : Json → Option α) : Option (Option α) :=
  match r.lookup name with
  | none | some .null => some none
  | some j => (read j).map some

end Record

end ViewGen
