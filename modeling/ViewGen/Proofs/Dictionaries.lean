import ViewGen.Dict

/-!
# Facts about dictionaries

What the views of a dictionary say after an insertion or an addition at the end.

## Main definitions

* `Dict.insertAll` — several insertions in a row

## Main statements

* `Dict.has_iff`, `Dict.get?_eq_none_iff` — the two ways to ask for a key agree
* `Dict.get?_append_of_some`, `Dict.get?_append_of_notMem` — lookups after an addition at the end
* `Dict.get?_eq_some_iff`, `Dict.get?_eq_of_perm` — lookups where no key is there twice
* `Dict.mem_insert`, `Dict.get?_insert` — an insertion adds the new entry and nothing else
* `Dict.nodup_keys_insert` — an insertion leaves no key there twice
* `Dict.get?_insertAll` — of several insertions under one key the last one counts
* `Dict.insertAll_of_nodup` — insertions of new and different keys add at the end
-/

namespace ViewGen

namespace Dict

variable {α : Type}

theorem has_iff {d : Dict α} {key : String} : d.has key = true ↔ key ∈ d.keys := by
  rw [has, keys, List.any_eq_true, List.mem_map]
  simp only [beq_iff_eq]

theorem has_eq_false_iff {d : Dict α} {key : String} : d.has key = false ↔ key ∉ d.keys := by
  rw [← Bool.not_eq_true, has_iff]

theorem get?_eq_none_iff {d : Dict α} {key : String} : d.get? key = none ↔ key ∉ d.keys := by
  rw [get?, keys, List.lookup_eq_none_iff]
  simp only [List.mem_map, not_exists, not_and, ne_eq, bne_iff_ne]
  constructor
  · intro h entry hentry heq
    exact h entry hentry heq.symm
  · intro h entry hentry heq
    exact h entry hentry heq.symm

theorem exists_get?_of_mem_keys {d : Dict α} {key : String} (h : key ∈ d.keys) :
    ∃ value, d.get? key = some value :=
  Option.ne_none_iff_exists'.mp fun hnone => get?_eq_none_iff.mp hnone h

theorem mem_keys_of_get? {d : Dict α} {key : String} {value : α} (h : d.get? key = some value) :
    key ∈ d.keys := by
  by_cases hkey : key ∈ d.keys
  · exact hkey
  · rw [get?_eq_none_iff.mpr hkey] at h
    exact absurd h (by simp)

theorem mem_of_get? {d : Dict α} {key : String} {value : α} (h : d.get? key = some value) :
    (key, value) ∈ d := by
  obtain ⟨before, after, rfl, -⟩ := List.lookup_eq_some_iff.mp h
  exact List.mem_append_right _ List.mem_cons_self

/-- Where no key is there twice, a value that is found is the only one under its key. -/
theorem filter_key_eq {d : Dict α} (hnodup : d.keys.Nodup) {key : String} {value : α}
    (h : d.get? key = some value) : d.filter (fun entry => entry.1 = key) = [(key, value)] := by
  obtain ⟨before, after, rfl, hbefore⟩ := List.lookup_eq_some_iff.mp h
  have hleft : before.filter (fun entry => entry.1 = key) = [] := by
    refine List.filter_eq_nil_iff.mpr fun entry hentry => ?_
    have hne : key ≠ entry.1 := by simpa using hbefore entry hentry
    simpa using hne.symm
  have hright : after.filter (fun entry => entry.1 = key) = [] := by
    refine List.filter_eq_nil_iff.mpr fun entry hentry => ?_
    rw [keys, List.map_append, List.map_cons] at hnodup
    have hnotMem := (List.nodup_cons.mp (List.nodup_append.mp hnodup).2.1).1
    have hne : entry.1 ≠ key := by
      rintro rfl
      exact hnotMem (List.mem_map.mpr ⟨entry, hentry, rfl⟩)
    simpa using hne
  rw [List.filter_append, List.filter_cons_of_pos (by simp), hleft, hright, List.nil_append]

/-- Where no key is there twice, looking up and being an entry are the same. -/
theorem get?_eq_some_iff {d : Dict α} (hnodup : d.keys.Nodup) {key : String} {value : α} :
    d.get? key = some value ↔ (key, value) ∈ d := by
  refine ⟨mem_of_get?, fun hmem => ?_⟩
  obtain ⟨found, hfound⟩ := exists_get?_of_mem_keys (List.mem_map.mpr ⟨_, hmem, rfl⟩)
  have hfilter : (key, value) ∈ d.filter (fun entry => entry.1 = key) :=
    List.mem_filter.mpr ⟨hmem, by simp⟩
  rw [filter_key_eq hnodup hfound, List.mem_singleton] at hfilter
  rw [hfound, (Prod.mk.inj hfilter).2]

/-- Where no key is there twice, lookups do not depend on the order of the entries. -/
theorem get?_eq_of_perm {d e : Dict α} (h : d.Perm e) (hnodup : d.keys.Nodup) (key : String) :
    d.get? key = e.get? key := by
  have hnodup' : e.keys.Nodup := (h.map Prod.fst).nodup_iff.mp hnodup
  refine Option.ext fun value => ?_
  rw [get?_eq_some_iff hnodup, get?_eq_some_iff hnodup', h.mem_iff]

/-- A value that is found is also found after entries were added at the end. -/
theorem get?_append_of_some {d : Dict α} {key : String} {value : α} (others : Dict α)
    (h : d.get? key = some value) : get? (d ++ others) key = some value := by
  rw [get?, List.lookup_append, show List.lookup key d = some value from h]
  rfl

/-- A key that is not there is looked up among the entries added at the end. -/
theorem get?_append_of_notMem {d : Dict α} {key : String} (others : Dict α) (h : key ∉ d.keys) :
    get? (d ++ others) key = others.get? key := by
  rw [get?, List.lookup_append, show List.lookup key d = none from get?_eq_none_iff.mpr h]
  rfl

/-- Every entry after an insertion was there before or is the new one. -/
theorem mem_insert {d : Dict α} {key : String} {value : α} {entry : String × α}
    (h : entry ∈ d.insert key value) : entry ∈ d ∨ entry = (key, value) := by
  induction d with
  | nil => exact .inr (List.mem_singleton.mp h)
  | cons head rest ih =>
      obtain ⟨k, v⟩ := head
      rw [insert] at h
      split at h
      · next heq =>
        rcases List.mem_cons.mp h with rfl | hrest
        · exact .inr (by rw [heq])
        · exact .inl (List.mem_cons_of_mem _ hrest)
      · rcases List.mem_cons.mp h with rfl | hrest
        · exact .inl List.mem_cons_self
        · exact (ih hrest).imp_left (List.mem_cons_of_mem _)

theorem insert_of_notMem {d : Dict α} {key : String} (value : α) (h : key ∉ d.keys) :
    d.insert key value = d ++ [(key, value)] := by
  induction d with
  | nil => rfl
  | cons head rest ih =>
      obtain ⟨k, v⟩ := head
      have hne : k ≠ key := fun heq => h (heq ▸ List.mem_cons_self)
      rw [insert, if_neg hne, ih fun hmem => h (List.mem_cons_of_mem _ hmem), List.cons_append]

/-- An insertion changes what is found under its key alone. -/
theorem get?_insert (d : Dict α) (key : String) (value : α) (other : String) :
    (d.insert key value).get? other = if key = other then some value else d.get? other := by
  have hcons : ∀ (k : String) (v : α) (rest : Dict α),
      get? ((k, v) :: rest) other = if k = other then some v else rest.get? other := by
    intro k v rest
    rw [get?, List.lookup_cons]
    by_cases hk : k = other
    · simp [hk]
    · rw [if_neg hk, beq_false_of_ne (Ne.symm hk)]
      rfl
  induction d with
  | nil => exact hcons key value []
  | cons head rest ih =>
      obtain ⟨k, v⟩ := head
      rw [insert]
      by_cases hk : k = key
      · rw [if_pos hk, hcons, hcons, hk]
        split <;> rfl
      · rw [if_neg hk, hcons, hcons, ih]
        by_cases hother : k = other
        · rw [if_pos hother, if_pos hother, if_neg fun heq => hk (hother.trans heq.symm)]
        · rw [if_neg hother, if_neg hother]

/-- Of two insertions under one key the second counts. -/
theorem insert_insert (d : Dict α) (key : String) (value new : α) :
    (d.insert key value).insert key new = d.insert key new := by
  induction d with
  | nil => simp [insert]
  | cons head rest ih =>
      obtain ⟨k, v⟩ := head
      by_cases hk : k = key
      · simp [insert, hk]
      · simp [insert, hk, ih]

/-- An insertion adds its key at the end, unless it is there. -/
theorem keys_insert (d : Dict α) (key : String) (value : α) :
    (d.insert key value).keys = if key ∈ d.keys then d.keys else d.keys ++ [key] := by
  induction d with
  | nil => rfl
  | cons head rest ih =>
      obtain ⟨k, v⟩ := head
      have hcons : ∀ (v : α) (others : Dict α), keys ((k, v) :: others) = k :: others.keys :=
        fun _ _ => rfl
      rw [insert]
      by_cases hk : k = key
      · simp [hk, keys]
      · rw [if_neg hk, hcons, hcons, ih]
        by_cases hmem : key ∈ keys rest
        · simp [hmem]
        · simp [hmem, Ne.symm hk]

/-- An insertion leaves no key there twice. -/
theorem nodup_keys_insert {d : Dict α} (h : d.keys.Nodup) (key : String) (value : α) :
    (d.insert key value).keys.Nodup := by
  rw [keys_insert]
  split
  · exact h
  · next hnew =>
    refine List.nodup_append.mpr ⟨h, by simp, fun k hk other hother => ?_⟩
    rw [List.mem_singleton.mp hother]
    exact fun heq => hnew (heq ▸ hk)

/-- The dictionary after inserting entries one by one. -/
def insertAll (d : Dict α) (entries : List (String × α)) : Dict α :=
  entries.foldl (fun d (k, v) => insert d k v) d

theorem ofList_eq_insertAll (entries : List (String × α)) : ofList entries = insertAll [] entries :=
  rfl

theorem insertAll_append (d : Dict α) (entries others : List (String × α)) :
    d.insertAll (entries ++ others) = (d.insertAll entries).insertAll others :=
  List.foldl_append

/-- After several insertions the last one under a key counts, and without one what was there. -/
theorem get?_insertAll (d : Dict α) (entries : List (String × α)) (key : String) :
    (d.insertAll entries).get? key =
      ((entries.filter fun entry => entry.1 = key).getLast?.map (·.2)).or (d.get? key) := by
  induction entries generalizing d with
  | nil => rfl
  | cons entry rest ih =>
      have hstep : d.insertAll (entry :: rest) = (d.insert entry.1 entry.2).insertAll rest := rfl
      rw [hstep, ih, get?_insert]
      by_cases hkey : entry.1 = key
      · rw [if_pos hkey, List.filter_cons_of_pos (by simpa using hkey), List.getLast?_cons]
        cases (rest.filter fun entry => entry.1 = key).getLast? <;> rfl
      · rw [if_neg hkey, List.filter_cons_of_neg (by simpa using hkey)]

/-- Entries with new and different keys are added at the end. -/
theorem insertAll_of_nodup {d : Dict α} {entries : List (String × α)}
    (h : (keys (d ++ entries)).Nodup) : d.insertAll entries = d ++ entries := by
  induction entries generalizing d with
  | nil => exact (List.append_nil d).symm
  | cons entry rest ih =>
      obtain ⟨k, v⟩ := entry
      have hnew : k ∉ d.keys := by
        intro hmem
        rw [keys, List.map_append, List.map_cons] at h
        exact (List.nodup_append.mp h).2.2 k hmem k List.mem_cons_self rfl
      have hstep : d.insertAll ((k, v) :: rest) = (d.insert k v).insertAll rest := rfl
      rw [hstep, insert_of_notMem v hnew, ih, List.append_assoc, List.singleton_append]
      rwa [List.append_assoc, List.singleton_append]

theorem ofList_of_nodup {d : Dict α} (h : d.keys.Nodup) : ofList d = d :=
  insertAll_of_nodup (d := []) h

end Dict

end ViewGen
