import Mathlib.Data.List.Nodup
import Mathlib.Data.List.Sort
import Mathlib.Logic.Function.Basic
import ViewGen.Proofs.ChunkCycles

/-!
# Ordering chunks by counters

Whether a chunk is ready need not be found out anew for every chunk that is placed.  It is enough to
count, for every position, the chunks that have to come before it and are not placed, and to keep
the positions where nothing is left to wait for.  Placing a chunk then only touches the positions
that wait for it.  This gives the order that the search for the first ready chunk gives, and it
blocks the same chunks.

## Main definitions

* `waiting` — the positions that wait for a position
* `Counters` — the counts, and the positions that are ready
* `Counters.release`, `Counters.place` — what one placed chunk changes
* `Counters.run` — placing chunks as long as one is ready
* `orderByCounters` — the chunks in order, or a cycle among them
* `Counters.Counts` — the counters fit the chunks that are not placed

## Main statements

* `Counters.counts_start`, `Counters.Counts.place` — the counters fit at the start, and go on to fit
  when a chunk is placed
* `Counters.Counts.run` — a run places and blocks what the search does
* `Counters.ready_run` — a run ends because nothing is ready, not for want of steps
* `orderByCounters_eq_orderChunks` — the two orders are one
-/

namespace ViewGen

/-- Whether the chunk at a position has to come before the chunk at another one. -/
def linked (chunks : List Chunk) (i j : Nat) : Bool :=
  (chunks[i]?).any fun c => (chunks[j]?).any fun d => precedes c d

/-- The positions of the chunks that have to come after the chunk at a position, in order. -/
def waiting (chunks : List Chunk) (i : Nat) : List Nat :=
  (List.range chunks.length).filter (linked chunks i)

/-- For every position how many chunks have to come before the one there and are not placed yet, and
the positions of the chunks that can be placed, in order. -/
structure Counters where
  pending : Nat → Nat
  ready : List Nat

namespace Counters

/-- The counters before anything is placed. -/
def start (chunks : List Chunk) : Counters :=
  let pending j := (List.range chunks.length).countP (linked chunks · j)
  { pending, ready := (List.range chunks.length).filter (pending · == 0) }

/-- A position waits for one chunk less, and is ready when that was the last. -/
def release (s : Counters) (i : Nat) : Counters :=
  let count := s.pending i - 1
  { pending := Function.update s.pending i count
    ready := if count = 0 then s.ready.orderedInsert (· ≤ ·) i else s.ready }

/-- Place the chunk at a position. -/
def place (chunks : List Chunk) (s : Counters) (i : Nat) : Counters :=
  (waiting chunks i).foldl release { s with ready := s.ready.erase i }

/-- Place chunks one after the other, at most `count` of them, each time the first that is ready. -/
def run (chunks : List Chunk) : Nat → Counters → List Nat × Counters
  | 0, s => ([], s)
  | count + 1, s =>
    match s.ready with
    | [] => ([], s)
    | i :: _ =>
      let (order, last) := run chunks count (s.place chunks i)
      (i :: order, last)

/-- The chunks that still wait for another one. -/
def blocked (chunks : List Chunk) (s : Counters) : List (Nat × Chunk) :=
  (positions chunks).filter fun entry => 0 < s.pending entry.1

end Counters

/-- Chunks in an order in which each comes after those it names, found by counting. -/
def orderByCounters (chunks : List Chunk) : Except GenError (List Chunk) :=
  let (order, last) := (Counters.start chunks).run chunks chunks.length
  if order.length < chunks.length then
    .error (.cyclicChunks (cycleNames (last.blocked chunks)))
  else
    .ok (order.filterMap (chunks[·]?))

section Links

variable {chunks : List Chunk} {rest : List (Nat × Chunk)}

/-- Positions tell chunks apart. -/
theorem eq_of_mem_positions {entry other : Nat × Chunk} (hentry : entry ∈ positions chunks)
    (hother : other ∈ positions chunks) (h : entry.1 = other.1) : entry = other := by
  have hsnd := (mem_positions_iff.mp hentry).symm.trans (h ▸ mem_positions_iff.mp hother)
  exact Prod.ext h (Option.some.inj hsnd)

theorem linked_eq_precedes {entry other : Nat × Chunk} (hentry : entry ∈ positions chunks)
    (hother : other ∈ positions chunks) :
    linked chunks entry.1 other.1 = precedes entry.2 other.2 := by
  simp [linked, mem_positions_iff.mp hentry, mem_positions_iff.mp hother]

theorem mem_waiting_iff {entry other : Nat × Chunk} (hentry : entry ∈ positions chunks)
    (hother : other ∈ positions chunks) :
    other.1 ∈ waiting chunks entry.1 ↔ precedes entry.2 other.2 = true := by
  have hlength : other.1 < chunks.length :=
    (List.getElem?_eq_some_iff.mp (mem_positions_iff.mp hother)).1
  rw [waiting, List.mem_filter, linked_eq_precedes hentry hother]
  simp [hlength]

theorem exists_mem_positions_of_waiting {i j : Nat} (h : j ∈ waiting chunks i) :
    ∃ d, (j, d) ∈ positions chunks := by
  have hlength : j < chunks.length := List.mem_range.mp (List.mem_of_mem_filter h)
  exact ⟨chunks[j], mem_positions_iff.mpr (List.getElem?_eq_getElem hlength)⟩

theorem nodup_waiting (chunks : List Chunk) (i : Nat) : (waiting chunks i).Nodup :=
  List.nodup_range.filter _

/-- A chunk is ready when none of those that are left has to come before it. -/
theorem isReady_iff_countP {c : Chunk} :
    isReady rest c = true ↔ rest.countP (fun other => precedes other.2 c) = 0 := by
  rw [List.countP_eq_zero, isReady, List.all_eq_true]
  simp

/-- A chunk is ready when neither the chunk that is taken out nor another one that is left has to
come before it. -/
theorem isReady_iff_of_perm {others : List (Nat × Chunk)} {next : Nat × Chunk}
    (h : rest.Perm (next :: others)) {c : Chunk} :
    isReady rest c = true ↔ precedes next.2 c = false ∧ isReady others c = true := by
  rw [isReady, h.all_eq, List.all_cons, Bool.and_eq_true, Bool.not_eq_true']
  rfl

/-- Of what a predicate holds for, the member that is taken out comes first. -/
theorem filter_eq_cons_of_takeFirst {α : Type} {p : α → Bool} {xs others : List α} {x : α}
    (h : takeFirst p xs = some (x, others)) : xs.filter p = x :: others.filter p := by
  induction xs generalizing others with
  | nil => exact absurd h (by simp [takeFirst])
  | cons y ys ih =>
      rw [takeFirst] at h
      split at h
      · next hy =>
        obtain ⟨rfl, rfl⟩ := Prod.mk.inj (Option.some.inj h)
        rw [List.filter_cons_of_pos hy]
      · next hy =>
        obtain ⟨⟨x', left⟩, hleft, heq⟩ := Option.map_eq_some_iff.mp h
        obtain ⟨rfl, rfl⟩ := Prod.mk.inj heq
        rw [List.filter_cons_of_neg hy, List.filter_cons_of_neg hy]
        exact ih hleft

theorem sorted_map_fst {entries : List (Nat × Chunk)} (h : entries.Sublist (positions chunks)) :
    (entries.map Prod.fst).Pairwise (· < ·) :=
  List.pairwise_map.mpr ((sorted_positions chunks).sublist h)

end Links

/-- A position that is put where it belongs keeps the positions in order. -/
theorem pairwise_orderedInsert {i : Nat} {ready : List Nat} (h : ready.Pairwise (· < ·))
    (hi : i ∉ ready) : (ready.orderedInsert (· ≤ ·) i).Pairwise (· < ·) := by
  have hsorted : (ready.orderedInsert (· ≤ ·) i).Pairwise (· ≤ ·) :=
    (h.imp Nat.le_of_lt).orderedInsert i ready
  have hnodup : (ready.orderedInsert (· ≤ ·) i).Nodup :=
    (List.perm_orderedInsert (· ≤ ·) i ready).nodup_iff.mpr
      (List.nodup_cons.mpr ⟨hi, h.imp Nat.ne_of_lt⟩)
  exact (hsorted.and hnodup).imp fun hle => Nat.lt_of_le_of_ne hle.1 hle.2

namespace Counters

/-- What is released waits for one chunk less, and is ready when that was the last. -/
theorem foldl_release {s : Counters} {released : List Nat} (hreleased : released.Nodup)
    (hsorted : s.ready.Pairwise (· < ·)) (hnew : ∀ i ∈ released, i ∉ s.ready) :
    (∀ i, (released.foldl release s).pending i = s.pending i - if i ∈ released then 1 else 0) ∧
      (released.foldl release s).ready.Pairwise (· < ·) ∧
      ∀ i, i ∈ (released.foldl release s).ready ↔
        i ∈ s.ready ∨ i ∈ released ∧ s.pending i - 1 = 0 := by
  induction released generalizing s with
  | nil => simpa using hsorted
  | cons j later ih =>
      obtain ⟨hj, hlater⟩ := List.nodup_cons.mp hreleased
      have hready : ∀ i, i ∈ (s.release j).ready ↔ i ∈ s.ready ∨ i = j ∧ s.pending j - 1 = 0 := by
        intro i
        rw [release]
        split
        · next hzero => simp [List.mem_orderedInsert, hzero, or_comm]
        · next hzero => simp [hzero]
      have hne : ∀ i ∈ later, i ≠ j := fun i hi heq => hj (heq ▸ hi)
      have hstep : (s.release j).ready.Pairwise (· < ·) := by
        rw [release]
        split
        · exact pairwise_orderedInsert hsorted (hnew j List.mem_cons_self)
        · exact hsorted
      obtain ⟨hpending, hlast, hmem⟩ := ih hlater hstep fun i hi hin => by
        obtain hold | ⟨rfl, -⟩ := (hready i).mp hin
        · exact hnew i (List.mem_cons_of_mem _ hi) hold
        · exact hj hi
      refine ⟨fun i => ?_, hlast, fun i => ?_⟩
      · rw [List.foldl_cons, hpending i]
        by_cases hi : i = j
        · subst hi
          simp [release, hj]
        · simp [release, hi]
      · rw [List.foldl_cons, hmem i, hready i]
        by_cases hi : i = j
        · subst hi
          simp [hj]
        · simp [release, hi]

/-- The counters when the chunks in `rest` are not placed. -/
structure Counts (chunks : List Chunk) (rest : List (Nat × Chunk)) (s : Counters) : Prop where
  /-- What is left stands in the order of the positions. -/
  sublist : rest.Sublist (positions chunks)
  /-- Every count is that of the chunks left that have to come before. -/
  pending : ∀ entry ∈ positions chunks,
    s.pending entry.1 = rest.countP fun other => precedes other.2 entry.2
  /-- What is placed waits for nothing. -/
  placed : ∀ entry ∈ positions chunks, entry ∉ rest → isReady rest entry.2 = true
  /-- The positions kept are those of the chunks left that are ready. -/
  ready : s.ready = (rest.filter fun entry => isReady rest entry.2).map Prod.fst

/-- At the start no chunk is placed. -/
theorem counts_start (chunks : List Chunk) : Counts chunks (positions chunks) (start chunks) := by
  have hpending : ∀ entry ∈ positions chunks, (start chunks).pending entry.1 =
      (positions chunks).countP fun other => precedes other.2 entry.2 := by
    intro entry hentry
    change (List.range chunks.length).countP (linked chunks · entry.1) = _
    rw [← map_fst_positions, List.countP_map]
    refine List.countP_congr fun other hother => ?_
    rw [Function.comp_apply, linked_eq_precedes hother hentry]
  refine ⟨.refl _, hpending, fun entry hentry hnot => absurd hentry hnot, ?_⟩
  change (List.range chunks.length).filter ((start chunks).pending · == 0) = _
  rw [← map_fst_positions, List.filter_map]
  congr 1
  refine List.filter_congr fun entry hentry => ?_
  rw [Function.comp_apply, hpending entry hentry, Bool.eq_iff_iff, isReady_iff_countP, beq_iff_eq]

namespace Counts

variable {chunks : List Chunk} {rest others : List (Nat × Chunk)} {s : Counters}
  {next : Nat × Chunk}

theorem mem_positions (h : Counts chunks rest s) {entry : Nat × Chunk} (hentry : entry ∈ rest) :
    entry ∈ positions chunks :=
  h.sublist.subset hentry

theorem mem_ready_iff (h : Counts chunks rest s) {entry : Nat × Chunk}
    (hentry : entry ∈ positions chunks) :
    entry.1 ∈ s.ready ↔ entry ∈ rest ∧ isReady rest entry.2 = true := by
  rw [h.ready, List.mem_map]
  constructor
  · rintro ⟨other, hother, heq⟩
    have hmem := List.mem_filter.mp hother
    obtain rfl := eq_of_mem_positions (h.mem_positions hmem.1) hentry heq
    exact hmem
  · intro hmem
    exact ⟨entry, List.mem_filter.mpr hmem, rfl⟩

/-- What waits for a chunk that is left is not ready. -/
theorem isReady_of_waiting (h : Counts chunks rest s) (hnext : next ∈ rest) {entry : Nat × Chunk}
    (hentry : entry ∈ positions chunks) (hwaiting : entry.1 ∈ waiting chunks next.1) :
    isReady rest entry.2 = false := by
  have hprecedes := (mem_waiting_iff (h.mem_positions hnext) hentry).mp hwaiting
  refine Bool.eq_false_iff.mpr fun hready => ?_
  exact absurd (List.all_eq_true.mp hready next hnext) (by simp [hprecedes])

/-- What waits for a ready chunk that is left is left besides it. -/
theorem mem_of_waiting (h : Counts chunks rest s) (hperm : rest.Perm (next :: others))
    (hready : isReady rest next.2 = true) {entry : Nat × Chunk}
    (hentry : entry ∈ positions chunks) (hwaiting : entry.1 ∈ waiting chunks next.1) :
    entry ∈ others := by
  have hblocked :=
    h.isReady_of_waiting (hperm.mem_iff.mpr List.mem_cons_self) hentry hwaiting
  have hrest : entry ∈ rest := by
    by_contra hnot
    exact absurd (h.placed entry hentry hnot) (by simp [hblocked])
  refine (List.mem_cons.mp (hperm.mem_iff.mp hrest)).resolve_left ?_
  rintro rfl
  exact absurd hready (by simp [hblocked])

/-- The counters once the chunk at a position that is left is placed. -/
theorem released (h : Counts chunks rest s) (hnext : next ∈ rest) :
    (∀ i, (s.place chunks next.1).pending i =
        s.pending i - if i ∈ waiting chunks next.1 then 1 else 0) ∧
      (s.place chunks next.1).ready.Pairwise (· < ·) ∧
      ∀ i, i ∈ (s.place chunks next.1).ready ↔
        i ∈ s.ready.erase next.1 ∨ i ∈ waiting chunks next.1 ∧ s.pending i - 1 = 0 := by
  have hsorted : (s.ready.erase next.1).Pairwise (· < ·) := by
    rw [h.ready]
    exact (sorted_map_fst (List.filter_sublist.trans h.sublist)).sublist List.erase_sublist
  refine foldl_release (s := { s with ready := s.ready.erase next.1 })
    (nodup_waiting chunks next.1) hsorted fun i hi hmem => ?_
  obtain ⟨d, hd⟩ := exists_mem_positions_of_waiting hi
  obtain ⟨-, hready⟩ := (h.mem_ready_iff hd).mp (List.mem_of_mem_erase hmem)
  exact absurd hready (by simp [h.isReady_of_waiting hnext hd hi])

/-- One chunk less is left that has to come before those that wait for the one taken out. -/
theorem pending_eq (h : Counts chunks rest s) (hperm : rest.Perm (next :: others))
    {entry : Nat × Chunk} (hentry : entry ∈ positions chunks) :
    s.pending entry.1 = others.countP (fun other => precedes other.2 entry.2) +
      if entry.1 ∈ waiting chunks next.1 then 1 else 0 := by
  have hnext : next ∈ positions chunks :=
    h.mem_positions (hperm.mem_iff.mpr List.mem_cons_self)
  rw [h.pending entry hentry, hperm.countP_eq, List.countP_cons]
  simp only [mem_waiting_iff hnext hentry]

/-- What is ready once the first ready chunk is placed. -/
theorem mem_ready_place_iff (h : Counts chunks rest s)
    (htake : takeFirst (fun entry => isReady rest entry.2) rest = some (next, others)) {i : Nat} :
    i ∈ (s.place chunks next.1).ready ↔
      ∃ entry ∈ others, isReady others entry.2 = true ∧ entry.1 = i := by
  obtain ⟨hperm, hnextReady⟩ := perm_of_takeFirst htake
  have hnext : next ∈ rest := hperm.mem_iff.mpr List.mem_cons_self
  have hothers : ∀ entry ∈ others, entry ∈ rest :=
    fun entry hentry => hperm.mem_iff.mpr (List.mem_cons_of_mem _ hentry)
  rw [(h.released hnext).2.2 i, h.ready, filter_eq_cons_of_takeFirst htake, List.map_cons,
    List.erase_cons_head]
  constructor
  · rintro (hold | ⟨hwaiting, hlast⟩)
    · obtain ⟨entry, hentry, rfl⟩ := List.mem_map.mp hold
      obtain ⟨hleft, hready⟩ := List.mem_filter.mp hentry
      exact ⟨entry, hleft, ((isReady_iff_of_perm hperm).mp hready).2, rfl⟩
    · obtain ⟨d, hd⟩ := exists_mem_positions_of_waiting hwaiting
      rw [h.pending_eq hperm hd, if_pos hwaiting, Nat.add_sub_cancel] at hlast
      exact ⟨(i, d), h.mem_of_waiting hperm hnextReady hd hwaiting,
        isReady_iff_countP.mpr hlast, rfl⟩
  · rintro ⟨entry, hleft, hready, rfl⟩
    have hentry := h.mem_positions (hothers entry hleft)
    by_cases hwaiting : entry.1 ∈ waiting chunks next.1
    · refine .inr ⟨hwaiting, ?_⟩
      rw [h.pending_eq hperm hentry, if_pos hwaiting, isReady_iff_countP.mp hready]
    · have hfree : precedes next.2 entry.2 = false :=
        Bool.eq_false_iff.mpr fun hprecedes =>
          hwaiting ((mem_waiting_iff (h.mem_positions hnext) hentry).mpr hprecedes)
      refine .inl (List.mem_map_of_mem (List.mem_filter.mpr ⟨hleft, ?_⟩))
      exact (isReady_iff_of_perm hperm).mpr ⟨hfree, hready⟩

/-- **Placing the first ready chunk keeps the counters right.** -/
theorem place (h : Counts chunks rest s)
    (htake : takeFirst (fun entry => isReady rest entry.2) rest = some (next, others)) :
    Counts chunks others (s.place chunks next.1) := by
  obtain ⟨hperm, hnextReady⟩ := perm_of_takeFirst htake
  obtain ⟨hpending, hsorted, -⟩ := h.released (hperm.mem_iff.mpr List.mem_cons_self)
  have hsublist : others.Sublist (positions chunks) :=
    (sublist_of_takeFirst htake).trans h.sublist
  refine ⟨hsublist, fun entry hentry => ?_, fun entry hentry hnot => ?_, ?_⟩
  · rw [hpending, h.pending_eq hperm hentry, Nat.add_sub_cancel]
  · by_cases hrest : entry ∈ rest
    · obtain rfl : entry = next :=
        (List.mem_cons.mp (hperm.mem_iff.mp hrest)).resolve_right hnot
      exact ((isReady_iff_of_perm hperm).mp hnextReady).2
    · exact ((isReady_iff_of_perm hperm).mp (h.placed entry hentry hrest)).2
  · refine hsorted.eq_of_mem_iff (sorted_map_fst (List.filter_sublist.trans hsublist)) fun i => ?_
    rw [h.mem_ready_place_iff htake]
    simp only [List.mem_map, List.mem_filter, and_assoc]

/-- **A run by counters is a run of searches**: it places the same chunks, and the counters at its
end are those of the chunks that are blocked. -/
theorem run (h : Counts chunks rest s) (count : Nat) :
    (s.run chunks count).1 = (placeAll count rest).1.map Prod.fst ∧
      Counts chunks (placeAll count rest).2 (s.run chunks count).2 := by
  induction count generalizing rest s with
  | zero => exact ⟨rfl, h⟩
  | succ count ih =>
      cases htake : takeFirst (fun entry => isReady rest entry.2) rest with
      | none =>
          have hready : s.ready = [] := by
            rw [h.ready, List.filter_eq_nil_iff.mpr, List.map_nil]
            exact fun entry hentry =>
              Bool.eq_false_iff.mp (takeFirst_eq_none_iff.mp htake entry hentry)
          simp only [Counters.run, hready, placeAll, htake]
          exact ⟨rfl, h⟩
      | some taken =>
          obtain ⟨next, others⟩ := taken
          have hready : s.ready = next.1 ::
              (others.filter fun entry => isReady rest entry.2).map Prod.fst := by
            rw [h.ready, filter_eq_cons_of_takeFirst htake, List.map_cons]
          obtain ⟨horder, hcounts⟩ := ih (h.place htake)
          simp only [Counters.run, hready, placeAll, htake, horder, List.map_cons, true_and]
          exact hcounts

/-- The chunks that wait for another one are those that are left, once each of these does. -/
theorem blocked_eq (h : Counts chunks rest s)
    (hblocked : ∀ entry ∈ rest, isReady rest entry.2 = false) : s.blocked chunks = rest := by
  have hmem : ∀ entry, entry ∈ s.blocked chunks ↔ entry ∈ rest := by
    intro entry
    rw [blocked, List.mem_filter, decide_eq_true_iff]
    constructor
    · rintro ⟨hentry, hpending⟩
      by_contra hnot
      rw [h.pending entry hentry, isReady_iff_countP.mp (h.placed entry hentry hnot)] at hpending
      exact absurd hpending (Nat.lt_irrefl 0)
    · intro hrest
      have hentry := h.mem_positions hrest
      refine ⟨hentry, Nat.pos_of_ne_zero fun hzero => ?_⟩
      rw [h.pending entry hentry, ← isReady_iff_countP, hblocked entry hrest] at hzero
      exact absurd hzero (by simp)
  have hnodup : (positions chunks).Nodup :=
    .of_map Prod.fst (by rw [map_fst_positions]; exact List.nodup_range)
  refine List.Perm.eq_of_pairwise (fun _ _ _ _ hlt hgt => absurd hlt (Nat.lt_asymm hgt))
    ((sorted_positions chunks).sublist List.filter_sublist)
    ((sorted_positions chunks).sublist h.sublist) ?_
  exact (List.perm_ext_iff_of_nodup (hnodup.filter _) (hnodup.sublist h.sublist)).mpr hmem

end Counts

variable (chunks : List Chunk)

/-- What is blocked at the end is not ready. -/
theorem isReady_blocked : ∀ entry ∈ (placeAll chunks.length (positions chunks)).2,
    isReady (placeAll chunks.length (positions chunks)).2 entry.2 = false := by
  intro entry hentry
  obtain ⟨other, hother, hprecedes⟩ := (blocked_placeAll chunks).exists_precedes entry hentry
  refine Bool.eq_false_iff.mpr fun hready => ?_
  exact absurd (List.all_eq_true.mp hready other hother) (by simp [hprecedes])

/-- **A run ends because nothing is ready**, not for want of steps. -/
theorem ready_run : ((start chunks).run chunks chunks.length).2.ready = [] := by
  rw [((counts_start chunks).run chunks.length).2.ready,
    List.filter_eq_nil_iff.mpr fun entry hentry =>
      Bool.eq_false_iff.mp (isReady_blocked chunks entry hentry), List.map_nil]

end Counters

/-- **Counting gives the order of searching, and the same cycle where there is none.** -/
theorem orderByCounters_eq_orderChunks (chunks : List Chunk) :
    orderByCounters chunks = orderChunks chunks := by
  obtain ⟨horder, hcounts⟩ := (Counters.counts_start chunks).run chunks.length
  have hblocked := hcounts.blocked_eq (Counters.isReady_blocked chunks)
  have hperm := perm_placeAll chunks.length (positions chunks)
  have hlength := hperm.length_eq
  rw [List.length_append, length_positions] at hlength
  simp only [orderByCounters, horder, hblocked, List.length_map]
  split
  · next hshort =>
    refine (orderChunks_eq_error fun hnone => ?_).symm
    rw [hnone, List.length_nil] at hlength
    omega
  · next hfull =>
    have hnone : (placeAll chunks.length (positions chunks)).2 = [] :=
      List.eq_nil_of_length_eq_zero (by omega)
    rw [orderChunks_eq_ok hnone, ← map_snd_entriesAt, entriesAt_map_fst]
    exact fun entry hentry => hperm.mem_iff.mp (List.mem_append_left _ hentry)

end ViewGen
