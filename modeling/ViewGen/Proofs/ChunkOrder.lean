import Mathlib.Order.WellFounded
import ViewGen.Chunk.Order

/-!
# Ordering chunks

Placing chunks one after the other, each time the first that is ready, keeps all chunks and comes
to an end with nothing left over as soon as the links follow some ranking.

## Main statements

* `perm_placeAll` — what is placed and what is blocked are together what there was
* `placeAll_eq_nil_of_ranked` — nothing is blocked when every link goes up in rank
* `perm_of_orderChunks` — the chunks in order are the chunks there were
* `pairwise_of_orderChunks` — no chunk comes before one that it has to come after
* `exists_orderChunks` — the chunks are put in order when the names they link to rank below them

## Design notes

A ranking is given on what the links relate, so that an arrangement of the chunks is a ranking by
positions, and a fixed layout of names is a ranking by names.
-/

namespace ViewGen

section TakeFirst

variable {α : Type} {p : α → Bool}

theorem perm_of_takeFirst {x : α} {xs others : List α} (h : takeFirst p xs = some (x, others)) :
    xs.Perm (x :: others) ∧ p x = true := by
  induction xs generalizing others with
  | nil => exact absurd h (by simp [takeFirst])
  | cons y ys ih =>
      rw [takeFirst] at h
      split at h
      · next hy =>
        obtain ⟨rfl, rfl⟩ := Prod.mk.inj (Option.some.inj h)
        exact ⟨.refl _, hy⟩
      · obtain ⟨⟨x', rest⟩, hrest, heq⟩ := Option.map_eq_some_iff.mp h
        obtain ⟨rfl, rfl⟩ := Prod.mk.inj heq
        obtain ⟨hperm, hx⟩ := ih hrest
        exact ⟨(hperm.cons y).trans (.swap _ _ _), hx⟩

theorem takeFirst_eq_none_iff {xs : List α} : takeFirst p xs = none ↔ ∀ x ∈ xs, p x = false := by
  induction xs with
  | nil => simp [takeFirst]
  | cons y ys ih =>
      rw [takeFirst, List.forall_mem_cons, ← ih]
      cases hy : p y <;> simp

end TakeFirst

/-- What is placed and what is blocked are together what there was. -/
theorem perm_placeAll (count : Nat) (rest : List (Nat × Chunk)) :
    ((placeAll count rest).1 ++ (placeAll count rest).2).Perm rest := by
  induction count generalizing rest with
  | zero => exact .refl _
  | succ count ih =>
      rw [placeAll]
      split
      · next next others htake =>
        exact ((ih others).cons next).trans (perm_of_takeFirst htake).1.symm
      · exact .refl _

/-- Among chunks whose links go up in rank, one of the lowest rank is ready. -/
theorem exists_isReady {rank : Nat × Chunk → Nat} {rest : List (Nat × Chunk)} (hne : rest ≠ [])
    (h : ∀ c ∈ rest, ∀ d ∈ rest, precedes c.2 d.2 = true → rank c < rank d) :
    ∃ entry ∈ rest, isReady rest entry.2 = true := by
  obtain ⟨first, hfirst⟩ := List.exists_mem_of_ne_nil rest hne
  obtain ⟨entry, hentry, hmin⟩ :=
    (measure rank).wf.has_min {entry | entry ∈ rest} ⟨first, hfirst⟩
  refine ⟨entry, hentry, List.all_eq_true.mpr fun other hother => ?_⟩
  rw [Bool.not_eq_true']
  cases hprecedes : precedes other.2 entry.2 with
  | false => rfl
  | true => exact absurd (h other hother entry hentry hprecedes) (hmin other hother)

/-- Nothing is blocked when every link goes up in rank. -/
theorem placeAll_eq_nil_of_ranked {rank : Nat × Chunk → Nat} {count : Nat}
    {rest : List (Nat × Chunk)} (hcount : rest.length ≤ count)
    (h : ∀ c ∈ rest, ∀ d ∈ rest, precedes c.2 d.2 = true → rank c < rank d) :
    (placeAll count rest).2 = [] := by
  induction count generalizing rest with
  | zero => exact List.eq_nil_of_length_eq_zero (Nat.le_zero.mp hcount)
  | succ count ih =>
      rw [placeAll]
      split
      · next next others htake =>
        have hperm := (perm_of_takeFirst htake).1
        have hlength : rest.length = others.length + 1 := hperm.length_eq
        have hmem : ∀ c ∈ others, c ∈ rest :=
          fun c hc => hperm.mem_iff.mpr (List.mem_cons_of_mem _ hc)
        exact ih (by omega) fun c hc d hd => h c (hmem c hc) d (hmem d hd)
      · next hnone =>
        by_contra hne
        obtain ⟨entry, hentry, hready⟩ := exists_isReady hne h
        rw [takeFirst_eq_none_iff.mp hnone entry hentry] at hready
        exact absurd hready (by simp)

@[simp] theorem map_snd_positions (chunks : List Chunk) :
    (positions chunks).map Prod.snd = chunks := by
  rw [positions, List.map_map]
  exact List.zipIdx_map_fst 0 chunks

@[simp] theorem length_positions (chunks : List Chunk) :
    (positions chunks).length = chunks.length := by
  rw [positions, List.length_map, List.length_zipIdx]

/-- When nothing is blocked, the chunks come out as they were placed. -/
theorem orderChunks_eq_ok {chunks : List Chunk}
    (h : (placeAll chunks.length (positions chunks)).2 = []) :
    orderChunks chunks = .ok ((placeAll chunks.length (positions chunks)).1.map Prod.snd) := by
  have hpositions : orderPositions chunks =
      .ok (placeAll chunks.length (positions chunks)).1 := by
    rw [orderPositions]
    rcases hplaced : placeAll chunks.length (positions chunks) with ⟨placed, blocked⟩
    rw [hplaced] at h
    obtain rfl : blocked = [] := h
    rfl
  rw [orderChunks, hpositions]
  rfl

/-- Putting chunks in order keeps them all. -/
theorem perm_of_orderChunks {chunks ordered : List Chunk} (h : orderChunks chunks = .ok ordered) :
    ordered.Perm chunks := by
  have hperm := perm_placeAll chunks.length (positions chunks)
  rw [orderChunks, orderPositions] at h
  split at h
  · next placed hplaced =>
    obtain rfl := Except.ok.inj h
    rw [hplaced, List.append_nil] at hperm
    have hordered := hperm.map Prod.snd
    rwa [map_snd_positions] at hordered
  · exact absurd h (by simp [Except.map])

/-- What is placed later does not have to come before what is placed. -/
theorem pairwise_placeAll (count : Nat) (rest : List (Nat × Chunk)) :
    (placeAll count rest).1.Pairwise fun c d => precedes d.2 c.2 = false := by
  induction count generalizing rest with
  | zero => exact .nil
  | succ count ih =>
      rw [placeAll]
      split
      · next next others htake =>
        obtain ⟨hperm, hready⟩ := perm_of_takeFirst htake
        refine .cons (fun later hlater => ?_) (ih others)
        -- A chunk that is placed later was still there when the next one was found to be ready.
        have hothers : later ∈ others :=
          (perm_placeAll count others).mem_iff.mp (List.mem_append_left _ hlater)
        have hrest : later ∈ rest := hperm.mem_iff.mpr (List.mem_cons_of_mem _ hothers)
        simpa using List.all_eq_true.mp hready later hrest
      · exact .nil

/-- **No chunk comes before one that it has to come after.** -/
theorem pairwise_of_orderChunks {chunks ordered : List Chunk}
    (h : orderChunks chunks = .ok ordered) :
    ordered.Pairwise fun c d => precedes d c = false := by
  have hpairwise := pairwise_placeAll chunks.length (positions chunks)
  rw [orderChunks, orderPositions] at h
  split at h
  · next placed hplaced =>
    obtain rfl := Except.ok.inj h
    rw [hplaced] at hpairwise
    exact List.pairwise_map.mpr hpairwise
  · exact absurd h (by simp [Except.map])

/-- **Chunks are put in order when the names they link to rank below them.** -/
theorem exists_orderChunks {rank : String → Nat} {chunks : List Chunk}
    (h : ∀ c ∈ chunks, ∀ link ∈ c.after, rank link < rank c.name) :
    ∃ ordered, orderChunks chunks = .ok ordered ∧ ordered.Perm chunks := by
  have hranked : ∀ c ∈ positions chunks, ∀ d ∈ positions chunks,
      precedes c.2 d.2 = true → rank c.2.name < rank d.2.name := by
    intro c _ d hd hprecedes
    have hmem : d.2 ∈ (positions chunks).map Prod.snd := List.mem_map_of_mem hd
    rw [map_snd_positions] at hmem
    exact h d.2 hmem c.2.name (List.contains_iff_mem.mp hprecedes)
  have hblocked := placeAll_eq_nil_of_ranked (Nat.le_of_eq (length_positions chunks)) hranked
  have hordered := orderChunks_eq_ok hblocked
  exact ⟨_, hordered, perm_of_orderChunks hordered⟩

end ViewGen
