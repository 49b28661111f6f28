/-!
# Dictionaries in insertion order

A dictionary is a list of entries. Inserting under a key that is already there replaces the value in
place, so the order is that of first insertion.

## Main definitions

* `Dict` — entries in order
* `Dict.get?`, `Dict.keys` — the views
* `Dict.insert` — replace in place or add at the end
* `Dict.ofList` — the entries of a list inserted one by one
-/

namespace ViewGen

/-- Entries in the order of their first insertion. -/
abbrev Dict (α : Type) := List (String × α)

namespace Dict

variable {α : Type}

/-- The value under a key. -/
def get? (d : Dict α) (key : String) : Option α :=
  d.lookup key

/-- The keys in order. -/
def keys (d : Dict α) : List String :=
  d.map Prod.fst

/-- Whether there is an entry under a key. -/
def has (d : Dict α) (key : String) : Bool :=
  d.any fun entry => entry.1 == key

/-- Put a value under a key: in place of the value that is there, or at the end. -/
def insert (d : Dict α) (key : String) (value : α) : Dict α :=
  match d with
  | [] => [(key, value)]
  | (k, v) :: rest => if k = key then (k, value) :: rest else (k, v) :: insert rest key value

/-- The dictionary that results from inserting entries one by one. -/
def ofList (entries : List (String × α)) : Dict α :=
  entries.foldl (fun d (k, v) => insert d k v) []

end Dict

end ViewGen
