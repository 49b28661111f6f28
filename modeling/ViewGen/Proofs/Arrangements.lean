import Mathlib.Data.List.Nodup
import Mathlib.Data.List.Perm.Lattice
import Mathlib.Order.WellFounded
import ViewGen.Proofs.ChunkOrder

/-!
# Arrangements of chunks

Chunks can be arranged in many ways in which each comes after those that it names.  The order in
which they are placed is the first of these arrangements: read as a list of positions, it is below
all others in the lexicographic order.

## Main definitions

* `RespectsLinks` — a list in which every chunk comes after those that it names
* `IsArrangement` — an order of the positions of some chunks that respects their links

## Main statements

* `exists_orderChunks_iff` — chunks are put in order exactly when they can be arranged
* `placeAll_least` — what is placed is below every other arrangement
* `placeAll_of_respectsLinks` — what is arranged already is placed as it is
* `orderChunks_least_arrangement` — the order of chunks as the least arrangement

## Design notes

A chunk that names itself comes after itself in no list, so `RespectsLinks` also compares a position
with itself.  Chunks of equal content can be told apart by their positions alone, which is why the
lexicographic order is one of positions.
-/

namespace ViewGen

theorem precedes_iff {c d : Chunk} : precedes c d = true ↔ c.name ∈ d.after :=
  List.contains_iff_mem

/-- Every chunk comes after all chunks whose names it has among its links. -/
def RespectsLinks (chunks : List Chunk) : Prop :=
  ∀ ⦃i j : Nat⦄ ⦃c d : Chunk⦄, chunks[i]? = some c → chunks[j]? = some d → c.name ∈ d.after → i < j

/-- Links are respected when no chunk has to come before an earlier one or before itself. -/
theorem respectsLinks_iff {chunks : List Chunk} : RespectsLinks chunks ↔
    chunks.Pairwise (fun c d => precedes d c = false) ∧ ∀ c ∈ chunks, precedes c c = false := by
  rw [List.pairwise_iff_getElem]
  constructor
  · intro h
    refine ⟨fun i j hi hj hlt => ?_, fun c hc => ?_⟩
    · rw [← Bool.not_eq_true, precedes_iff]
      intro hlink
      have hback := h (List.getElem?_eq_getElem hj) (List.getElem?_eq_getElem hi) hlink
      omega
    · rw [← Bool.not_eq_true, precedes_iff]
      intro hlink
      obtain ⟨i, hi⟩ := List.mem_iff_getElem?.mp hc
      exact Nat.lt_irrefl i (h hi hi hlink)
  · rintro ⟨hpairwise, hself⟩ i j c d hc hd hlink
    obtain ⟨hi, rfl⟩ := List.getElem?_eq_some_iff.mp hc
    obtain ⟨hj, rfl⟩ := List.getElem?_eq_some_iff.mp hd
    have hprecedes := precedes_iff.mpr hlink
    rcases Nat.lt_trichotomy i j with hlt | rfl | hgt
    · exact hlt
    · rw [hself _ (List.getElem_mem hi)] at hprecedes
      exact absurd hprecedes (by simp)
    · rw [hpairwise j i hj hi hgt] at hprecedes
      exact absurd hprecedes (by simp)

/-- Nothing in a list that respects its links has to come before its first chunk. -/
theorem RespectsLinks.precedes_head {c : Chunk} {chunks : List Chunk}
    (h : RespectsLinks (c :: chunks)) : ∀ d ∈ c :: chunks, precedes d c = false := by
  obtain ⟨hpairwise, hself⟩ := respectsLinks_iff.mp h
  exact List.forall_mem_cons.mpr
    ⟨hself c List.mem_cons_self, (List.pairwise_cons.mp hpairwise).1⟩

theorem RespectsLinks.tail {c : Chunk} {chunks : List Chunk} (h : RespectsLinks (c :: chunks)) :
    RespectsLinks chunks := by
  obtain ⟨hpairwise, hself⟩ := respectsLinks_iff.mp h
  exact respectsLinks_iff.mpr
    ⟨(List.pairwise_cons.mp hpairwise).2, (List.forall_mem_cons.mp hself).2⟩

/-! ## Positions -/

theorem mem_positions_iff {chunks : List Chunk} {entry : Nat × Chunk} :
    entry ∈ positions chunks ↔ chunks[entry.1]? = some entry.2 := by
  obtain ⟨i, c⟩ := entry
  rw [positions, List.mem_map]
  constructor
  · rintro ⟨⟨c', i'⟩, hmem, heq⟩
    obtain ⟨rfl, rfl⟩ := Prod.mk.inj heq
    exact List.mem_zipIdx_iff_getElem?.mp hmem
  · exact fun h => ⟨(c, i), List.mem_zipIdx_iff_getElem?.mpr h, rfl⟩

@[simp] theorem map_fst_positions (chunks : List Chunk) :
    (positions chunks).map Prod.fst = List.range chunks.length := by
  rw [positions, List.map_map, List.range_eq_range']
  exact List.zipIdx_map_snd 0 chunks

theorem sorted_positions (chunks : List Chunk) :
    (positions chunks).Pairwise fun entry later => entry.1 < later.1 := by
  refine List.pairwise_map.mp ?_
  rw [map_fst_positions]
  exact List.pairwise_lt_range

/-- The chunks at some positions, with their positions. -/
def entriesAt (chunks : List Chunk) (order : List Nat) : List (Nat × Chunk) :=
  order.filterMap fun i => (chunks[i]?).map (i, ·)

theorem map_snd_entriesAt (chunks : List Chunk) (order : List Nat) :
    (entriesAt chunks order).map Prod.snd = order.filterMap (chunks[·]?) := by
  simp [entriesAt, List.map_filterMap, Function.comp_def]

theorem map_fst_entriesAt {chunks : List Chunk} {order : List Nat}
    (h : ∀ i ∈ order, i < chunks.length) : (entriesAt chunks order).map Prod.fst = order := by
  induction order with
  | nil => rfl
  | cons i rest ih =>
      obtain ⟨hi, hrest⟩ := List.forall_mem_cons.mp h
      have hcons : entriesAt chunks (i :: rest) = (i, chunks[i]) :: entriesAt chunks rest := by
        rw [entriesAt, List.filterMap_cons, List.getElem?_eq_getElem hi]
        rfl
      rw [hcons, List.map_cons, ih hrest]

/-- Entries are given by their positions. -/
theorem entriesAt_map_fst {chunks : List Chunk} {entries : List (Nat × Chunk)}
    (h : ∀ entry ∈ entries, entry ∈ positions chunks) :
    entriesAt chunks (entries.map Prod.fst) = entries := by
  induction entries with
  | nil => rfl
  | cons entry rest ih =>
      obtain ⟨hentry, hrest⟩ := List.forall_mem_cons.mp h
      rw [List.map_cons, entriesAt, List.filterMap_cons, mem_positions_iff.mp hentry]
      exact congrArg (entry :: ·) (ih hrest)

/-- An order of all positions is an order of all chunks. -/
theorem perm_entriesAt {chunks : List Chunk} {order : List Nat}
    (h : order.Perm (List.range chunks.length)) :
    (entriesAt chunks order).Perm (positions chunks) := by
  have hpositions : entriesAt chunks (List.range chunks.length) = positions chunks := by
    rw [← map_fst_positions]
    exact entriesAt_map_fst fun _ hentry => hentry
  rw [← hpositions]
  exact h.filterMap _

/-- An order of the positions of chunks that respects their links. -/
structure IsArrangement (chunks : List Chunk) (order : List Nat) : Prop where
  perm : order.Perm (List.range chunks.length)
  respects : RespectsLinks (order.filterMap (chunks[·]?))

/-! ## Placing chunks -/

section TakeFirst

variable {α : Type} {p : α → Bool} {x : α} {xs others : List α}

theorem sublist_of_takeFirst (h : takeFirst p xs = some (x, others)) : others.Sublist xs := by
  induction xs generalizing others with
  | nil => exact absurd h (by simp [takeFirst])
  | cons y ys ih =>
      rw [takeFirst] at h
      split at h
      · obtain ⟨-, rfl⟩ := Prod.mk.inj (Option.some.inj h)
        exact List.sublist_cons_self y ys
      · obtain ⟨⟨x', rest⟩, hrest, heq⟩ := Option.map_eq_some_iff.mp h
        obtain ⟨rfl, rfl⟩ := Prod.mk.inj heq
        exact (ih hrest).cons_cons y

/-- What is taken comes before all others that satisfy the predicate. -/
theorem rel_of_takeFirst {R : α → α → Prop} (hR : xs.Pairwise R)
    (h : takeFirst p xs = some (x, others)) {y : α} (hy : y ∈ xs) (hpy : p y = true) :
    y = x ∨ R x y := by
  induction xs generalizing others with
  | nil => exact absurd hy List.not_mem_nil
  | cons z zs ih =>
      obtain ⟨hz, hzs⟩ := List.pairwise_cons.mp hR
      rw [takeFirst] at h
      split at h
      · obtain ⟨rfl, -⟩ := Prod.mk.inj (Option.some.inj h)
        exact (List.mem_cons.mp hy).imp_right (hz y)
      · next hpz =>
        obtain ⟨⟨x', rest⟩, hrest, heq⟩ := Option.map_eq_some_iff.mp h
        obtain ⟨rfl, -⟩ := Prod.mk.inj heq
        rcases List.mem_cons.mp hy with rfl | hmem
        · exact absurd hpy hpz
        · exact ih hzs hrest hmem

end TakeFirst

/-- Nothing that is placed has to come before itself. -/
theorem precedes_self_of_mem_placeAll (count : Nat) (rest : List (Nat × Chunk)) :
    ∀ entry ∈ (placeAll count rest).1, precedes entry.2 entry.2 = false := by
  induction count generalizing rest with
  | zero => exact fun entry hentry => absurd hentry List.not_mem_nil
  | succ count ih =>
      rw [placeAll]
      split
      · next next others htake =>
        obtain ⟨hperm, hready⟩ := perm_of_takeFirst htake
        refine List.forall_mem_cons.mpr ⟨?_, ih others⟩
        have hmem : next ∈ rest := hperm.mem_iff.mpr List.mem_cons_self
        simpa using List.all_eq_true.mp hready next hmem
      · exact fun entry hentry => absurd hentry List.not_mem_nil

/-- What is placed respects its links. -/
theorem respectsLinks_placeAll (count : Nat) (rest : List (Nat × Chunk)) :
    RespectsLinks ((placeAll count rest).1.map Prod.snd) := by
  refine respectsLinks_iff.mpr
    ⟨List.pairwise_map.mpr (pairwise_placeAll count rest), fun c hc => ?_⟩
  obtain ⟨entry, hentry, rfl⟩ := List.mem_map.mp hc
  exact precedes_self_of_mem_placeAll count rest entry hentry

/-- **What is placed is below every other arrangement.**  The first chunk of an arrangement is ready
from the start, so it does not stand before the one that is placed first; if they are the same, the
rest is compared. -/
theorem placeAll_least {count : Nat} {rest other : List (Nat × Chunk)}
    (hsorted : rest.Pairwise fun entry later => entry.1 < later.1) (hperm : other.Perm rest)
    (hrespects : RespectsLinks (other.map Prod.snd)) (hblocked : (placeAll count rest).2 = []) :
    other = (placeAll count rest).1 ∨
      List.Lex (· < ·) ((placeAll count rest).1.map Prod.fst) (other.map Prod.fst) := by
  induction count generalizing rest other with
  | zero =>
      obtain rfl : rest = [] := hblocked
      exact .inl hperm.eq_nil
  | succ count ih =>
      rw [placeAll] at hblocked ⊢
      split at hblocked
      · next next others htake =>
        have htaken := (perm_of_takeFirst htake).1
        cases other with
        | nil => exact absurd (hperm.trans htaken) (by simp)
        | cons first later =>
            have hready : isReady rest first.2 = true := by
              refine List.all_eq_true.mpr fun entry hentry => ?_
              have hmem : entry.2 ∈ (first :: later).map Prod.snd :=
                List.mem_map_of_mem (hperm.mem_iff.mpr hentry)
              rw [Bool.not_eq_true']
              exact hrespects.precedes_head entry.2 hmem
            have hfirst : first ∈ rest := hperm.mem_iff.mp List.mem_cons_self
            rcases rel_of_takeFirst hsorted htake hfirst hready with rfl | hlt
            · have hlater : later.Perm others := (List.perm_cons first).mp (hperm.trans htaken)
              have hrest : others.Pairwise fun entry later => entry.1 < later.1 :=
                hsorted.sublist (sublist_of_takeFirst htake)
              rcases ih hrest hlater hrespects.tail hblocked with heq | hbelow
              · exact .inl (congrArg (first :: ·) heq)
              · exact .inr (List.Lex.cons hbelow)
            · exact .inr (List.Lex.rel hlt)
      · obtain rfl : rest = [] := hblocked
        exact .inl hperm.eq_nil

/-- What is arranged already is placed as it is. -/
theorem placeAll_of_respectsLinks {count : Nat} {rest : List (Nat × Chunk)}
    (hcount : rest.length ≤ count) (h : RespectsLinks (rest.map Prod.snd)) :
    placeAll count rest = (rest, []) := by
  induction count generalizing rest with
  | zero =>
      obtain rfl := List.eq_nil_of_length_eq_zero (Nat.le_zero.mp hcount)
      rfl
  | succ count ih =>
      cases rest with
      | nil => rfl
      | cons first later =>
          have hready : isReady (first :: later) first.2 = true := by
            refine List.all_eq_true.mpr fun entry hentry => ?_
            rw [Bool.not_eq_true']
            exact h.precedes_head entry.2 (List.mem_map_of_mem hentry)
          rw [placeAll, takeFirst, if_pos hready]
          dsimp only
          rw [ih (Nat.le_of_succ_le_succ hcount) h.tail]

/-! ## The order of chunks -/

/-- What it means that chunks were put in order. -/
theorem orderChunks_eq_ok_iff {chunks ordered : List Chunk} :
    orderChunks chunks = .ok ordered ↔
      (placeAll chunks.length (positions chunks)).2 = [] ∧
        (placeAll chunks.length (positions chunks)).1.map Prod.snd = ordered := by
  constructor
  · intro h
    have hblocked : (placeAll chunks.length (positions chunks)).2 = [] := by
      rw [orderChunks, orderPositions] at h
      split at h
      · next hplaced => rw [hplaced]
      · exact absurd h (by simp [Except.map])
    exact ⟨hblocked, Except.ok.inj ((orderChunks_eq_ok hblocked).symm.trans h)⟩
  · rintro ⟨hblocked, rfl⟩
    exact orderChunks_eq_ok hblocked

theorem respectsLinks_of_orderChunks {chunks ordered : List Chunk}
    (h : orderChunks chunks = .ok ordered) : RespectsLinks ordered := by
  obtain ⟨-, rfl⟩ := orderChunks_eq_ok_iff.mp h
  exact respectsLinks_placeAll _ _

/-- Chunks that respect their links are in order. -/
theorem orderChunks_of_respectsLinks {chunks : List Chunk} (h : RespectsLinks chunks) :
    orderChunks chunks = .ok chunks := by
  rw [← map_snd_positions chunks] at h
  have hplaced := placeAll_of_respectsLinks (Nat.le_of_eq (length_positions chunks)) h
  rw [orderChunks_eq_ok_iff, hplaced]
  exact ⟨rfl, map_snd_positions chunks⟩

/-- **Chunks are put in order exactly when they can be arranged.** -/
theorem exists_orderChunks_iff {chunks : List Chunk} :
    (∃ ordered, orderChunks chunks = .ok ordered) ↔
      ∃ arrangement : List Chunk, arrangement.Perm chunks ∧ RespectsLinks arrangement := by
  constructor
  · rintro ⟨ordered, h⟩
    exact ⟨ordered, perm_of_orderChunks h, respectsLinks_of_orderChunks h⟩
  · rintro ⟨arrangement, hperm, hrespects⟩
    -- Every chunk is ranked by a place that it has in the arrangement.
    have hplace : ∀ entry ∈ positions chunks, ∃ i : Nat, arrangement[i]? = some entry.2 := by
      intro entry hentry
      refine List.mem_iff_getElem?.mp (hperm.mem_iff.mpr ?_)
      rw [← map_snd_positions chunks]
      exact List.mem_map_of_mem hentry
    choose! rank hrank using hplace
    have hblocked := placeAll_eq_nil_of_ranked (Nat.le_of_eq (length_positions chunks))
      fun c hc d hd hprecedes => hrespects (hrank c hc) (hrank d hd) (precedes_iff.mp hprecedes)
    exact ⟨_, orderChunks_eq_ok hblocked⟩

/-- **Chunks are put in the least of their arrangements.**  When chunks are put in order:

* they are the chunks that there were, and each comes after those that it names;
* of all orders of their positions with this property, theirs comes first lexicographically;
* putting them in order again changes nothing.

Chunks of which each comes after those that it names are in order already. -/
theorem orderChunks_least_arrangement (chunks : List Chunk) :
    (∀ ordered, orderChunks chunks = .ok ordered →
      ordered.Perm chunks ∧ RespectsLinks ordered ∧
        (∃ order, ordered = order.filterMap (chunks[·]?) ∧ IsArrangement chunks order ∧
          ∀ other, IsArrangement chunks other → other ≠ order → List.Lex (· < ·) order other) ∧
        orderChunks ordered = .ok ordered) ∧
      (RespectsLinks chunks → orderChunks chunks = .ok chunks) := by
  refine ⟨fun ordered h => ?_, orderChunks_of_respectsLinks⟩
  have hrespects := respectsLinks_of_orderChunks h
  refine ⟨perm_of_orderChunks h, hrespects, ?_, orderChunks_of_respectsLinks hrespects⟩
  obtain ⟨hblocked, rfl⟩ := orderChunks_eq_ok_iff.mp h
  have hplaced := perm_placeAll chunks.length (positions chunks)
  rw [hblocked, List.append_nil] at hplaced
  have hentries : entriesAt chunks ((placeAll chunks.length (positions chunks)).1.map Prod.fst) =
      (placeAll chunks.length (positions chunks)).1 :=
    entriesAt_map_fst fun entry hentry => hplaced.mem_iff.mp hentry
  have hchunks : (placeAll chunks.length (positions chunks)).1.map Prod.snd =
      ((placeAll chunks.length (positions chunks)).1.map Prod.fst).filterMap (chunks[·]?) := by
    rw [← map_snd_entriesAt, hentries]
  refine ⟨_, hchunks, ⟨?_, hchunks ▸ hrespects⟩, fun other hother hne => ?_⟩
  · rw [← map_fst_positions]
    exact hplaced.map Prod.fst
  · have hwithin : ∀ i ∈ other, i < chunks.length :=
      fun i hi => List.mem_range.mp (hother.perm.mem_iff.mp hi)
    have hleast := placeAll_least (sorted_positions chunks) (perm_entriesAt hother.perm)
      (by rw [map_snd_entriesAt]; exact hother.respects) hblocked
    rw [map_fst_entriesAt hwithin] at hleast
    refine hleast.resolve_left fun heq => hne ?_
    rw [← heq, map_fst_entriesAt hwithin]

/-- An export that comes first in the list, two imports of one name, the second of which names a
chunk that is not there, and a component. -/
def scrambledChunks : List Chunk :=
  [.script "export" [] ["component"], .script "import" [] [], .script "import" [] ["styles"],
    .script "component" [] ["import"]]

/-- The scrambled chunks are put in the least of their arrangements, with the imports first and in
their own order. -/
theorem scrambledChunks_least :
    orderChunks scrambledChunks = .ok ([1, 2, 3, 0].filterMap (scrambledChunks[·]?)) ∧
      (∃ order, ([1, 2, 3, 0].filterMap (scrambledChunks[·]?)) =
          order.filterMap (scrambledChunks[·]?) ∧
        IsArrangement scrambledChunks order ∧
        ∀ other, IsArrangement scrambledChunks other → other ≠ order →
          List.Lex (· < ·) order other) ∧
      orderChunks ([1, 2, 3, 0].filterMap (scrambledChunks[·]?)) =
        .ok ([1, 2, 3, 0].filterMap (scrambledChunks[·]?)) := by
  have horder : orderChunks scrambledChunks =
      .ok ([1, 2, 3, 0].filterMap (scrambledChunks[·]?)) := rfl
  obtain ⟨-, -, hleast, hagain⟩ := (orderChunks_least_arrangement scrambledChunks).1 _ horder
  exact ⟨horder, hleast, hagain⟩

end ViewGen
