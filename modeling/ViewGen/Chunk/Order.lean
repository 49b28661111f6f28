import ViewGen.Chunk.Basic
import ViewGen.Error

/-!
# The order of chunks

Chunks are put in an order in which each comes after the chunks it names. Of the chunks that could
come next, the one that stands first in the list does.

## Main definitions

* `precedes` — the relation between chunks
* `placeAll` — the positions in order, and those that cannot be placed
* `orderChunks` — the chunks in order, or a cycle among them

## Design notes

Every step looks through all chunks that are left for one that is ready.  Counting instead, for each
chunk, how many it still waits for gives the same order: see `orderByCounters`.
-/

namespace ViewGen

/-- Whether a chunk has to come before another one. -/
def precedes (c d : Chunk) : Bool :=
  d.after.contains c.name

/-- Whether all chunks that have to come before a chunk are placed; `rest` holds those that are
not. -/
def isReady (rest : List (Nat × Chunk)) (c : Chunk) : Bool :=
  rest.all fun other => !precedes other.2 c

/-- Take the first member of a list that satisfies a predicate out of it. -/
def takeFirst {α : Type} (p : α → Bool) : List α → Option (α × List α)
  | [] => none
  | x :: xs => if p x then some (x, xs) else (takeFirst p xs).map fun (y, ys) => (y, x :: ys)

/-- Place chunks one after the other, at most `count` of them, each time the first that is ready.
The second component holds what could not be placed. -/
def placeAll : Nat → List (Nat × Chunk) → List (Nat × Chunk) × List (Nat × Chunk)
  | 0, rest => ([], rest)
  | count + 1, rest =>
    match takeFirst (fun entry => isReady rest entry.2) rest with
    | some (next, others) =>
      let (placed, blocked) := placeAll count others
      (next :: placed, blocked)
    | none => ([], rest)

/-- Walk from a chunk to the first of the blocked chunks that has to come before it, and so on,
until a chunk comes up again. `walked` holds the chunks on the way, the last first. The result is
the part of the walk from that chunk on, the last first. -/
def findLoop (blocked : List (Nat × Chunk)) :
    Nat → List (Nat × Chunk) → Nat × Chunk → List (Nat × Chunk)
  | 0, walked, _ => walked
  | fuel + 1, walked, current =>
    if walked.any fun entry => entry.1 == current.1 then
      walked.takeWhile (fun entry => entry.1 != current.1) ++ [current]
    else
      match blocked.find? fun entry => precedes entry.2 current.2 with
      | some previous => findLoop blocked fuel (current :: walked) previous
      | none => current :: walked

/-- The names along a cycle among blocked chunks; the first is repeated at the end. -/
def cycleNames (blocked : List (Nat × Chunk)) : List String :=
  match blocked with
  | [] => []
  | start :: _ =>
    let names := (findLoop blocked (blocked.length + 1) [] start).map fun entry => entry.2.name
    names ++ names.head?.toList

/-- Chunks with their positions in the list. -/
def positions (chunks : List Chunk) : List (Nat × Chunk) :=
  chunks.zipIdx.map fun (c, i) => (i, c)

/-- Chunks with their positions, in order. -/
def orderPositions (chunks : List Chunk) : Except GenError (List (Nat × Chunk)) :=
  match placeAll chunks.length (positions chunks) with
  | (placed, []) => .ok placed
  | (_, blocked) => .error (.cyclicChunks (cycleNames blocked))

/-- Chunks in an order in which each comes after those it names. -/
def orderChunks (chunks : List Chunk) : Except GenError (List Chunk) :=
  (orderPositions chunks).map (·.map Prod.snd)

end ViewGen
