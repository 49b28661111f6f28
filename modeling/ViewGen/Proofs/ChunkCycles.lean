import Mathlib.Data.List.Chain
import Mathlib.Data.List.Perm.Subperm
import Mathlib.Data.List.TakeWhile
import ViewGen.Proofs.Arrangements

/-!
# Cycles of chunks

Chunks that cannot be arranged contain a cycle, and one is reported.  What cannot be placed is
blocked by something else that cannot be placed, so that a walk from a blocked chunk to one that it
has to come after never gets stuck.  It has to come back to a chunk where it has been, since there
are only so many of them.

## Main definitions

* `NamesCycle` — names that form a cycle of links, with the first repeated at the end
* `StepsBack` — the way of the walk among blocked chunks

## Main statements

* `exists_precedes_of_blocked` — every blocked chunk has to come after a blocked one
* `StepsBack.length_le`, `StepsBack.exists_return` — the walk comes back to where it has been
* `namesCycle_cycleNames` — the names that are reported form a cycle
* `orderChunks_fails_on_cycles` — when chunks are put in order, and what is reported when not

## Design notes

`findLoop` is given a number of steps.  `StepsBack` has no such number, and
`findLoop_of_stepsBack` says that the two go the same way, so that the number is enough as soon as
it exceeds that of the blocked chunks.
-/

namespace ViewGen

/-- Names that form a cycle of links among chunks: for each name and the next one there is a chunk
of the second name that has to come after the first, and the last name is the first again. -/
structure NamesCycle (chunks : List Chunk) (names : List String) : Prop where
  length : 2 ≤ names.length
  closed : names.head? = names.getLast?
  linked : names.IsChain fun first second => ∃ c ∈ chunks, c.name = second ∧ first ∈ c.after

/-! ## Blocked chunks -/

/-- When something is blocked, the names along a cycle are reported. -/
theorem orderChunks_eq_error {chunks : List Chunk}
    (h : (placeAll chunks.length (positions chunks)).2 ≠ []) : orderChunks chunks =
      .error (.cyclicChunks (cycleNames (placeAll chunks.length (positions chunks)).2)) := by
  rw [orderChunks, orderPositions]
  split
  · next hplaced => exact absurd (by rw [hplaced]) h
  · next hplaced =>
    rw [hplaced]
    rfl

/-- Entries that stand in the way of each other: every one of them has to come after one of them,
and no two are at the same position. -/
structure Blocked (entries : List (Nat × Chunk)) : Prop where
  exists_precedes : ∀ entry ∈ entries, ∃ other ∈ entries, precedes other.2 entry.2 = true
  nodup : (entries.map Prod.fst).Nodup

/-- Every chunk that is left over has to come after one that is left over. -/
theorem exists_precedes_of_blocked {count : Nat} {rest : List (Nat × Chunk)}
    (hcount : rest.length ≤ count) : ∀ entry ∈ (placeAll count rest).2,
      ∃ other ∈ (placeAll count rest).2, precedes other.2 entry.2 = true := by
  induction count generalizing rest with
  | zero =>
      obtain rfl := List.eq_nil_of_length_eq_zero (Nat.le_zero.mp hcount)
      exact fun entry hentry => absurd hentry List.not_mem_nil
  | succ count ih =>
      rw [placeAll]
      split
      · next next others htake =>
        have hlength : rest.length = others.length + 1 := (perm_of_takeFirst htake).1.length_eq
        exact ih (by omega)
      · next hnone =>
        -- Nothing is ready, so each chunk waits for one that is there.
        intro entry hentry
        have hwaits : isReady rest entry.2 = false := takeFirst_eq_none_iff.mp hnone entry hentry
        obtain ⟨other, hother, hprecedes⟩ := List.all_eq_false.mp hwaits
        exact ⟨other, hother, by simpa using hprecedes⟩

theorem blocked_placeAll (chunks : List Chunk) :
    Blocked (placeAll chunks.length (positions chunks)).2 := by
  refine ⟨exists_precedes_of_blocked (Nat.le_of_eq (length_positions chunks)), ?_⟩
  have hperm := (perm_placeAll chunks.length (positions chunks)).map Prod.fst
  rw [map_fst_positions, List.map_append] at hperm
  exact (List.nodup_append.mp (hperm.nodup_iff.mpr List.nodup_range)).2.1

theorem mem_of_mem_blocked {chunks : List Chunk} {entry : Nat × Chunk}
    (h : entry ∈ (placeAll chunks.length (positions chunks)).2) : entry.2 ∈ chunks := by
  have hmem : entry ∈ positions chunks :=
    (perm_placeAll chunks.length (positions chunks)).mem_iff.mp (List.mem_append_right _ h)
  rw [← map_snd_positions chunks]
  exact List.mem_map_of_mem hmem

/-! ## The walk -/

/-- The walk from a chunk to the first of the blocked chunks that has to come before it, and so on,
as long as it does not come back. The chunks on the way are listed with the last first, and without
the one that it has come to. -/
inductive StepsBack (blocked : List (Nat × Chunk)) (start : Nat × Chunk) :
    List (Nat × Chunk) → Nat × Chunk → Prop
  | start : StepsBack blocked start [] start
  | step {walked : List (Nat × Chunk)} {current previous : Nat × Chunk} :
      StepsBack blocked start walked current → (∀ entry ∈ walked, entry.1 ≠ current.1) →
      blocked.find? (fun entry => precedes entry.2 current.2) = some previous →
      StepsBack blocked start (current :: walked) previous

section Walk

variable {blocked walked : List (Nat × Chunk)} {start current : Nat × Chunk}

/-- From every blocked chunk the walk can go on. -/
theorem Blocked.exists_find? (h : Blocked blocked) {entry : Nat × Chunk}
    (hentry : entry ∈ blocked) :
    ∃ previous, blocked.find? (fun other => precedes other.2 entry.2) = some previous := by
  obtain ⟨other, hother, hprecedes⟩ := h.exists_precedes entry hentry
  exact Option.isSome_iff_exists.mp (List.find?_isSome.mpr ⟨other, hother, hprecedes⟩)

namespace StepsBack

/-- The walk does not leave the blocked chunks. -/
theorem subset (h : StepsBack blocked start walked current) (hstart : start ∈ blocked) :
    current :: walked ⊆ blocked := by
  induction h with
  | start => exact List.cons_subset.mpr ⟨hstart, List.nil_subset _⟩
  | step _ _ hfind ih => exact List.cons_subset.mpr ⟨List.mem_of_find?_eq_some hfind, ih⟩

/-- Every chunk on the walk has to come before the one that it was reached from. -/
theorem isChain (h : StepsBack blocked start walked current) :
    (current :: walked).IsChain fun entry next => precedes entry.2 next.2 = true := by
  induction h with
  | start => exact .singleton _
  | step _ _ hfind ih =>
      have hprecedes := List.find?_some hfind
      exact ih.cons_cons hprecedes

/-- No chunk is passed twice. -/
theorem nodup (h : StepsBack blocked start walked current) : (walked.map Prod.fst).Nodup := by
  induction h with
  | start => exact List.nodup_nil
  | step _ hnew _ ih =>
      refine List.nodup_cons.mpr ⟨fun hmem => ?_, ih⟩
      obtain ⟨entry, hentry, heq⟩ := List.mem_map.mp hmem
      exact hnew entry hentry heq

/-- The walk passes no more chunks than there are. -/
theorem length_le (h : StepsBack blocked start walked current) (hstart : start ∈ blocked) :
    walked.length ≤ blocked.length := by
  have hsubset : walked.map Prod.fst ⊆ blocked.map Prod.fst :=
    List.map_subset _ (List.cons_subset.mp (h.subset hstart)).2
  simpa using (h.nodup.subperm hsubset).length_le

/-- **The walk comes back to a chunk where it has been.** -/
theorem exists_return (hblocked : Blocked blocked) (hstart : start ∈ blocked)
    (h : StepsBack blocked start walked current) :
    ∃ walked current, StepsBack blocked start walked current ∧
      ∃ entry ∈ walked, entry.1 = current.1 := by
  -- By induction on how many more chunks the walk can pass.
  induction hleft : blocked.length - walked.length using Nat.strongRecOn
    generalizing walked current with
  | ind left ih =>
      by_cases hreturn : ∃ entry ∈ walked, entry.1 = current.1
      · exact ⟨walked, current, h, hreturn⟩
      · obtain ⟨previous, hfind⟩ := hblocked.exists_find? (List.cons_subset.mp (h.subset hstart)).1
        have hnext := h.step (fun entry hentry heq => hreturn ⟨entry, hentry, heq⟩) hfind
        have hlength := hnext.length_le hstart
        rw [List.length_cons] at hlength
        exact ih (blocked.length - (walked.length + 1)) (by omega) hnext rfl

end StepsBack

/-- `findLoop` goes the way of the walk, whatever number of steps is left. -/
theorem findLoop_of_stepsBack (h : StepsBack blocked start walked current) (fuel : Nat) :
    findLoop blocked (walked.length + fuel) [] start = findLoop blocked fuel walked current := by
  induction h generalizing fuel with
  | start => rw [List.length_nil, Nat.zero_add]
  | @step walked current previous _ hnew hfind ih =>
      have hfresh : (walked.any fun entry => entry.1 == current.1) = false := by
        simpa using hnew
      rw [List.length_cons, Nat.add_right_comm, Nat.add_assoc, ih, findLoop, hfresh, hfind]
      simp

/-- Where the walk comes back, `findLoop` ends with the chunks up to where it was before. -/
theorem findLoop_of_return (h : StepsBack blocked start walked current)
    (hreturn : ∃ entry ∈ walked, entry.1 = current.1) {fuel : Nat} (hfuel : walked.length < fuel) :
    findLoop blocked fuel [] start =
      walked.takeWhile (fun entry => entry.1 != current.1) ++ [current] := by
  obtain ⟨more, rfl⟩ := Nat.exists_eq_add_of_lt hfuel
  have hback : (walked.any fun entry => entry.1 == current.1) = true := by
    simpa using hreturn
  rw [Nat.add_assoc, findLoop_of_stepsBack h, findLoop, if_pos hback]

/-- The part of the walk from where it comes back: a part of it without its beginning. -/
theorem exists_loop (hblocked : Blocked blocked) (hstart : start ∈ blocked)
    (h : StepsBack blocked start walked current) (hreturn : ∃ entry ∈ walked, entry.1 = current.1) :
    ∃ before, walked =
      walked.takeWhile (fun entry => entry.1 != current.1) ++ current :: before := by
  obtain ⟨entry, hentry, heq⟩ := hreturn
  have hsplit :=
    List.takeWhile_append_dropWhile (p := fun entry => entry.1 != current.1) (l := walked)
  cases hdrop : walked.dropWhile fun entry => entry.1 != current.1 with
  | nil =>
      have hall := List.dropWhile_eq_nil_iff.mp hdrop entry hentry
      exact absurd heq (by simpa using hall)
  | cons found before =>
      rw [hdrop] at hsplit
      have hmem : found ∈ walked := by
        rw [← hsplit]
        exact List.mem_append_right _ List.mem_cons_self
      have hposition : found.1 = current.1 := by
        have hhead := List.head?_dropWhile_not (fun entry => entry.1 != current.1) walked
        rw [hdrop] at hhead
        simpa using hhead
      -- A blocked chunk is given by its position.
      have hsubset := List.cons_subset.mp (h.subset hstart)
      have hfound : found = current :=
        List.inj_on_of_nodup_map hblocked.nodup (hsubset.2 hmem) hsubset.1 hposition
      rw [hfound] at hsplit
      exact ⟨before, hsplit.symm⟩

/-- **Where the walk comes back, it closes a cycle**: each chunk up to where it was before has to
come before the next, and the last of them before the first. -/
theorem isChain_of_return (hblocked : Blocked blocked) (hstart : start ∈ blocked)
    (h : StepsBack blocked start walked current) (hreturn : ∃ entry ∈ walked, entry.1 = current.1) :
    ∃ first later,
      walked.takeWhile (fun entry => entry.1 != current.1) ++ [current] = first :: later ∧
      (first :: later ++ [first]).IsChain (fun entry next => precedes entry.2 next.2 = true) ∧
      first :: later ⊆ blocked := by
  obtain ⟨before, hbefore⟩ := exists_loop hblocked hstart h hreturn
  cases hloop : walked.takeWhile (fun entry => entry.1 != current.1) ++ [current] with
  | nil => exact absurd hloop (by simp)
  | cons first later =>
      have hwalked : walked = first :: later ++ before := by
        rw [← hloop, List.append_assoc]
        exact hbefore
      have hlast : (first :: later).getLast? = some current := by
        rw [← hloop]
        exact List.getLast?_concat
      have hchain := h.isChain
      rw [hwalked, List.cons_append, List.isChain_cons_cons] at hchain
      have hway : (first :: later ++ before).IsChain
          (fun entry next => precedes entry.2 next.2 = true) := hchain.2
      refine ⟨first, later, rfl, ?_, ?_⟩
      · refine hway.left_of_append.append (.singleton first) fun last hmem next hnext => ?_
        rw [hlast] at hmem
        obtain rfl := Option.some.inj hmem
        obtain rfl := Option.some.inj hnext
        exact hchain.1
      · have hsubset := (List.cons_subset.mp (h.subset hstart)).2
        rw [hwalked] at hsubset
        exact (List.append_subset.mp hsubset).1

end Walk

/-! ## What is reported -/

/-- The way that the search for a cycle goes: it never comes to a chunk without a predecessor,
passes no more chunks than there are, and ends where it comes back to one, however many steps it may
take beyond that number. -/
structure SearchReturns (blocked : List (Nat × Chunk)) (start : Nat × Chunk) : Prop where
  goesOn : ∀ walked current, StepsBack blocked start walked current →
    walked.length ≤ blocked.length ∧
      ∃ previous, blocked.find? (fun entry => precedes entry.2 current.2) = some previous
  returns : ∃ walked current, StepsBack blocked start walked current ∧
    (∃ entry ∈ walked, entry.1 = current.1) ∧
    ∀ fuel, blocked.length < fuel → findLoop blocked fuel [] start =
      walked.takeWhile (fun entry => entry.1 != current.1) ++ [current]

theorem Blocked.searchReturns {blocked : List (Nat × Chunk)} (h : Blocked blocked)
    {start : Nat × Chunk} (hstart : start ∈ blocked) : SearchReturns blocked start where
  goesOn walked current hsteps :=
    ⟨hsteps.length_le hstart, h.exists_find? (List.cons_subset.mp (hsteps.subset hstart)).1⟩
  returns := by
    obtain ⟨walked, current, hsteps, hreturn⟩ := StepsBack.exists_return h hstart .start
    refine ⟨walked, current, hsteps, hreturn, fun fuel hfuel => ?_⟩
    exact findLoop_of_return hsteps hreturn (Nat.lt_of_le_of_lt (hsteps.length_le hstart) hfuel)

/-- **The names that are reported form a cycle.** -/
theorem namesCycle_cycleNames {chunks : List Chunk}
    (hne : (placeAll chunks.length (positions chunks)).2 ≠ []) :
    NamesCycle chunks (cycleNames (placeAll chunks.length (positions chunks)).2) := by
  have hblocked := blocked_placeAll chunks
  have hmem : ∀ entry ∈ (placeAll chunks.length (positions chunks)).2, entry.2 ∈ chunks :=
    fun entry hentry => mem_of_mem_blocked hentry
  generalize (placeAll chunks.length (positions chunks)).2 = blocked at *
  cases blocked with
  | nil => exact absurd rfl hne
  | cons start rest =>
      obtain ⟨-, walked, current, hsteps, hreturn, hloop⟩ :=
        hblocked.searchReturns List.mem_cons_self
      obtain ⟨first, later, heq, hchain, hsubset⟩ :=
        isChain_of_return hblocked List.mem_cons_self hsteps hreturn
      have hnames : cycleNames (start :: rest) =
          (first :: later ++ [first]).map fun entry => entry.2.name := by
        rw [cycleNames, hloop _ (Nat.lt_succ_self _), heq]
        simp
      refine ⟨?_, ?_, ?_⟩
      · simp [hnames]
      · rw [hnames, List.getLast?_map, List.getLast?_concat]
        rfl
      · rw [hnames, List.isChain_map]
        refine hchain.imp_of_mem_imp fun entry next _ hnext hprecedes => ?_
        have hthere : next ∈ first :: later := by
          rcases List.mem_append.mp hnext with hmem | hlast
          · exact hmem
          · exact List.mem_singleton.mp hlast ▸ List.mem_cons_self
        exact ⟨next.2, hmem next (hsubset hthere), rfl, precedes_iff.mp hprecedes⟩

/-- **Chunks are put in order unless there is a cycle, and then a cycle is reported.**  For all
chunks, whatever their names and links:

* they are put in order exactly when they can be arranged so that each comes after those it names;
* if they cannot, names that form a cycle of links are reported;
* the search for them starts at the first blocked chunk, never comes to a chunk without a blocked
  predecessor, and ends where it comes back to a chunk. -/
theorem orderChunks_fails_on_cycles (chunks : List Chunk) :
    ((∃ ordered, orderChunks chunks = .ok ordered) ↔
      ∃ arrangement : List Chunk, arrangement.Perm chunks ∧ RespectsLinks arrangement) ∧
      ((¬∃ arrangement : List Chunk, arrangement.Perm chunks ∧ RespectsLinks arrangement) →
        ∃ names, orderChunks chunks = .error (.cyclicChunks names) ∧ NamesCycle chunks names) ∧
      ∀ start rest, (placeAll chunks.length (positions chunks)).2 = start :: rest →
        SearchReturns (start :: rest) start := by
  refine ⟨exists_orderChunks_iff, fun hnone => ?_, fun start rest hblocked => ?_⟩
  · have hne : (placeAll chunks.length (positions chunks)).2 ≠ [] := by
      intro hblocked
      exact hnone (exists_orderChunks_iff.mp ⟨_, orderChunks_eq_ok hblocked⟩)
    exact ⟨_, orderChunks_eq_error hne, namesCycle_cycleNames hne⟩
  · have hreturns := blocked_placeAll chunks
    rw [hblocked] at hreturns
    exact hreturns.searchReturns List.mem_cons_self

/-- Three chunks that wait for each other, and one that waits for none. -/
def ringOfChunks : List Chunk :=
  [.script "free" [] [], .script "a" [] ["c"], .script "b" [] ["a"], .script "c" [] ["b"]]

/-- The ring of chunks cannot be arranged, and is reported from where the search ends. -/
theorem ringOfChunks_reported :
    (¬∃ arrangement : List Chunk, arrangement.Perm ringOfChunks ∧ RespectsLinks arrangement) ∧
      orderChunks ringOfChunks = .error (.cyclicChunks ["b", "c", "a", "b"]) ∧
      NamesCycle ringOfChunks ["b", "c", "a", "b"] := by
  have horder : orderChunks ringOfChunks = .error (.cyclicChunks ["b", "c", "a", "b"]) := rfl
  obtain ⟨hiff, hreport, -⟩ := orderChunks_fails_on_cycles ringOfChunks
  have hnone : ¬∃ arrangement : List Chunk,
      arrangement.Perm ringOfChunks ∧ RespectsLinks arrangement := by
    intro harrangement
    obtain ⟨ordered, hordered⟩ := hiff.mpr harrangement
    exact absurd (horder.symm.trans hordered) (by simp)
  obtain ⟨names, hnames, hcycle⟩ := hreport hnone
  obtain rfl := GenError.cyclicChunks.inj (Except.error.inj (horder.symm.trans hnames))
  exact ⟨hnone, horder, hcycle⟩

end ViewGen
