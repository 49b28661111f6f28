import ViewGen.Import.Table
import ViewGen.Proofs.Dictionaries
import ViewGen.Proofs.FreshNames

/-!
# The history of an import table

Import tables are built by registering imports, reserving names and merging other tables, in any
order.  Whatever the order is, bindings are only ever added, at the end, and an import that was
given a name keeps it: asking for it again gives the same name.

## Main definitions

* `ImportTable.chosen` — the name that an import is given
* `ImportTable.occupied` — the names that are bound or reserved
* `ImportTable.Step`, `ImportTable.after` — a step, and the table after some steps
* `ImportTable.Proper` — no name is both reserved and bound, or bound twice
* `ImportTable.Grows` — what a step adds is added at the end

## Main statements

* `register_cases` — a registration changes nothing or adds one binding of a free name
* `proper_after` — the tables that can be built are proper
* `bindings_kept`, `bound_names_stable` — bindings and names are kept

## Design notes

All statements about runs follow from one about a step, `grows_apply`; a merge is itself a run of
registrations, so a statement about registrations covers the names that merges give.
-/

namespace ViewGen

theorem Dependency.sameImport_iff {d e : Dependency} :
    d.sameImport e = true ↔
      d.kind = e.kind ∧ d.path = e.path ∧ d.named = e.named ∧ d.importAlias = e.importAlias := by
  simp [sameImport, and_assoc]

theorem Dependency.sameImport_refl (d : Dependency) : d.sameImport d = true :=
  sameImport_iff.mpr ⟨rfl, rfl, rfl, rfl⟩

theorem Dependency.sameImport_symm {d e : Dependency} (h : d.sameImport e = true) :
    e.sameImport d = true := by
  obtain ⟨hkind, hpath, hnamed, halias⟩ := sameImport_iff.mp h
  exact sameImport_iff.mpr ⟨hkind.symm, hpath.symm, hnamed.symm, halias.symm⟩

theorem Dependency.sameImport_trans {d e f : Dependency} (hde : d.sameImport e = true)
    (hef : e.sameImport f = true) : d.sameImport f = true := by
  obtain ⟨hkind, hpath, hnamed, halias⟩ := sameImport_iff.mp hde
  obtain ⟨hkind', hpath', hnamed', halias'⟩ := sameImport_iff.mp hef
  exact sameImport_iff.mpr ⟨hkind.trans hkind', hpath.trans hpath', hnamed.trans hnamed',
    halias.trans halias'⟩

namespace ImportTable

variable {t u : ImportTable} {name : String} {d : Dependency}

/-! ## One registration -/

theorem isFree_iff : t.isFree name = true ↔ name ∉ t.entries.keys ∧ name ∉ t.reserved := by
  rw [isFree, Bool.and_eq_true, Bool.not_eq_true', Bool.not_eq_true', Dict.has_eq_false_iff]
  simp

theorem holds_iff :
    t.holds name d = true ↔ ∃ e, t.entries.get? name = some e ∧ e.sameImport d = true := by
  rw [holds]
  cases t.entries.get? name with
  | none => simp
  | some e => simp

/-- The name that an import is given: the requested one if it suits, and otherwise a fresh one. -/
def chosen (t : ImportTable) (name : String) (d : Dependency) : String :=
  if t.suits d name then name else t.freshName name d

/-- The names that are bound or reserved. -/
def occupied (t : ImportTable) : List String :=
  t.entries.keys ++ t.reserved

theorem length_occupied (t : ImportTable) : t.occupied.length = t.size := by
  rw [occupied, List.length_append, Dict.keys, List.length_map, size]

/-- A name that is not occupied suits every import. -/
theorem suits_of_notMem_occupied (h : name ∉ t.occupied) (d : Dependency) :
    t.suits d name = true := by
  rw [occupied, List.mem_append, not_or] at h
  rw [suits, isFree_iff.mpr h, Bool.true_or]

/-- A fresh name is the one at which the search among the numbered forms of the derived name
stops. -/
theorem exists_ends_freshName (t : ImportTable) (name : String) (d : Dependency) :
    ∃ m, Text.Ends (Text.numbered (derivedName d.path name)) t.occupied (t.suits d) m ∧
      t.freshName name d = Text.numbered (derivedName d.path name) m := by
  obtain ⟨m, hends⟩ := Text.exists_ends (Text.numbered_injective (derivedName d.path name))
    fun _ hname => suits_of_notMem_occupied hname d
  have hfound := hends.firstNumbered_eq
  rw [t.length_occupied] at hfound
  refine ⟨m, hends, ?_⟩
  rw [freshName, hfound]
  rfl

/-- The name that is given to an import suits it. -/
theorem suits_chosen (t : ImportTable) (name : String) (d : Dependency) :
    t.suits d (t.chosen name d) = true := by
  rw [chosen]
  split
  · assumption
  · obtain ⟨m, hends, hfresh⟩ := t.exists_ends_freshName name d
    rw [hfresh]
    exact hends.suits_eq

/-- **A registration changes nothing, or adds one binding of a free name at the end.** -/
theorem register_cases (t : ImportTable) (name : String) (d : Dependency) :
    t.register name d = (t.chosen name d, t) ∧ t.holds (t.chosen name d) d = true ∨
      ∃ e, e.sameImport d = true ∧ t.isFree (t.chosen name d) = true ∧
        t.register name d = (t.chosen name d, t.bind (t.chosen name d) e) := by
  by_cases hholds : t.holds name d = true
  · have hchosen : t.chosen name d = name := if_pos (by rw [suits, hholds, Bool.or_true])
    rw [hchosen, register, if_pos hholds]
    exact .inl ⟨rfl, hholds⟩
  by_cases hfree : t.isFree name = true
  · have hchosen : t.chosen name d = name := if_pos (by rw [suits, hfree, Bool.true_or])
    rw [hchosen, register, if_neg hholds, if_pos hfree]
    exact .inr ⟨d, d.sameImport_refl, hfree, rfl⟩
  -- The requested name is taken, so the fresh one is used; it suits because it is free or held.
  have hchosen : t.chosen name d = t.freshName name d := if_neg (by simp [suits, hholds, hfree])
  have hsuits := t.suits_chosen name d
  rw [hchosen] at hsuits ⊢
  rw [register, if_neg hholds, if_neg hfree]
  by_cases hfound : t.holds (t.freshName name d) d = true
  · exact .inl ⟨if_pos hfound, hfound⟩
  · refine .inr ⟨{ d with renamedFrom := d.renamedFrom.or (some name) }, ?_, ?_, if_neg hfound⟩
    · exact Dependency.sameImport_iff.mpr ⟨rfl, rfl, rfl, rfl⟩
    · simpa [suits, hfound] using hsuits

theorem register_fst (t : ImportTable) (name : String) (d : Dependency) :
    (t.register name d).1 = t.chosen name d := by
  rcases t.register_cases name d with ⟨h, -⟩ | ⟨e, -, -, h⟩ <;> rw [h]

/-- An import whose requested name is taken is given the name that is derived from its path, perhaps
with a number after it. -/
theorem exists_register_eq_append (h : t.suits d name = false) :
    ∃ digits, (t.register name d).1 = derivedName d.path name ++ digits ∧
      ∀ c ∈ digits.toList, c.isDigit = true := by
  obtain ⟨m, -, hfresh⟩ := t.exists_ends_freshName name d
  rw [t.register_fst, chosen, if_neg (by simp [h]), hfresh]
  exact Text.exists_digits_numbered (derivedName d.path name) m

/-- A registration adds at most one binding. -/
theorem entries_register (t : ImportTable) (name : String) (d : Dependency) :
    (t.register name d).2.entries = t.entries ∨
      ∃ e, (t.register name d).2.entries = t.entries ++ [((t.register name d).1, e)] := by
  rcases t.register_cases name d with ⟨h, -⟩ | ⟨e, -, -, h⟩
  · exact .inl (by rw [h])
  · exact .inr ⟨e, by rw [h]; rfl⟩

/-- An import is bound, under the name it is given, once it is registered. -/
theorem holds_register (t : ImportTable) (name : String) (d : Dependency) :
    (t.register name d).2.holds (t.register name d).1 d = true := by
  rcases t.register_cases name d with ⟨h, hholds⟩ | ⟨e, he, hfree, h⟩
  · rw [h]
    exact hholds
  · rw [h]
    refine holds_iff.mpr ⟨e, ?_, he⟩
    rw [bind, Dict.get?_append_of_notMem _ (isFree_iff.mp hfree).1]
    simp [Dict.get?]

/-! ## Runs -/

/-- A step in the history of a table. A name that an import has cannot be reserved any more. -/
inductive Step where
  | register (name : String) (d : Dependency)
  | reserve (name : String)
  | merge (other : ImportTable)

/-- The table after a step. -/
def apply (t : ImportTable) : Step → ImportTable
  | .register name d => (t.register name d).2
  | .reserve name => (t.reserve? name).getD t
  | .merge other => t.merge other

/-- The table after some steps. -/
def after (t : ImportTable) (steps : List Step) : ImportTable :=
  steps.foldl apply t

/-- Registrations of entries, one after the other. -/
def registrations (entries : Dict Dependency) : List Step :=
  entries.map fun (name, d) => .register name d

/-- A merge is a run of registrations. -/
theorem merge_eq_after (t other : ImportTable) :
    t.merge other = t.after (registrations other.entries) := by
  rw [merge, after, registrations, List.foldl_map]
  rfl

/-- No name is both reserved and bound, and none is bound twice. -/
structure Proper (t : ImportTable) : Prop where
  nodup : t.entries.keys.Nodup
  disjoint : ∀ name ∈ t.reserved, name ∉ t.entries.keys

/-- What was added was added at the end, and the table is proper if it was before. -/
structure Grows (t u : ImportTable) : Prop where
  entries : t.entries <+: u.entries
  reserved : t.reserved <+: u.reserved
  proper : t.Proper → u.Proper

theorem proper_empty : ({} : ImportTable).Proper :=
  ⟨List.nodup_nil, fun _ h => absurd h List.not_mem_nil⟩

theorem Grows.refl (t : ImportTable) : t.Grows t :=
  ⟨List.prefix_rfl, List.prefix_rfl, id⟩

theorem Grows.trans {v : ImportTable} (htu : t.Grows u) (huv : u.Grows v) : t.Grows v :=
  ⟨htu.entries.trans huv.entries, htu.reserved.trans huv.reserved,
    fun h => huv.proper (htu.proper h)⟩

/-- A free name can be bound. -/
theorem grows_bind (hfree : t.isFree name = true) (d : Dependency) : t.Grows (t.bind name d) := by
  obtain ⟨hunbound, hunreserved⟩ := isFree_iff.mp hfree
  have hkeys : (t.bind name d).entries.keys = t.entries.keys ++ [name] := List.map_append
  refine ⟨List.prefix_append _ _, List.prefix_rfl, fun h => ⟨?_, fun other hother => ?_⟩⟩
  · rw [hkeys, List.nodup_append]
    refine ⟨h.nodup, List.nodup_singleton name, fun other hother new hnew heq => ?_⟩
    rw [heq, List.mem_singleton.mp hnew] at hother
    exact hunbound hother
  · rw [hkeys, List.mem_append, List.mem_singleton, not_or]
    exact ⟨h.disjoint other hother, fun heq => hunreserved (heq ▸ hother)⟩

theorem grows_register (t : ImportTable) (name : String) (d : Dependency) :
    t.Grows (t.register name d).2 := by
  rcases t.register_cases name d with ⟨h, -⟩ | ⟨e, -, hfree, h⟩
  · rw [h]
    exact .refl t
  · rw [h]
    exact grows_bind hfree e

theorem grows_reserve (t : ImportTable) (name : String) : t.Grows ((t.reserve? name).getD t) := by
  rw [reserve?]
  split
  · exact .refl t
  · next hunbound =>
    split
    · exact .refl t
    · refine ⟨List.prefix_rfl, List.prefix_append _ _, fun h => ⟨h.nodup, fun other hother => ?_⟩⟩
      rcases List.mem_append.mp hother with hold | hnew
      · exact h.disjoint other hold
      · rw [List.mem_singleton.mp hnew]
        exact Dict.has_eq_false_iff.mp (by simpa using hunbound)

theorem mem_reserved_of_reserve (h : t.reserve? name = some u) : name ∈ u.reserved := by
  rw [reserve?] at h
  split at h
  · exact absurd h (by simp)
  · split at h
    · next hreserved =>
      obtain rfl := Option.some.inj h
      exact List.contains_iff_mem.mp hreserved
    · obtain rfl := Option.some.inj h
      exact List.mem_append_right _ (List.mem_singleton_self name)

theorem grows_registrations (t : ImportTable) (entries : Dict Dependency) :
    t.Grows (t.after (registrations entries)) := by
  induction entries generalizing t with
  | nil => exact .refl t
  | cons entry rest ih =>
      obtain ⟨name, d⟩ := entry
      exact (t.grows_register name d).trans (ih (t.register name d).2)

/-- A step adds at the end. -/
theorem grows_apply (t : ImportTable) (step : Step) : t.Grows (t.apply step) := by
  cases step with
  | register name d => exact t.grows_register name d
  | reserve name => exact t.grows_reserve name
  | merge other =>
      rw [apply, merge_eq_after]
      exact t.grows_registrations other.entries

/-- All steps of a run add at the end. -/
theorem grows_after (t : ImportTable) (steps : List Step) : t.Grows (t.after steps) := by
  induction steps generalizing t with
  | nil => exact .refl t
  | cons step rest ih => exact (t.grows_apply step).trans (ih (t.apply step))

/-- The tables that can be built from the empty one are proper. -/
theorem proper_after (steps : List Step) : (after {} steps).Proper :=
  (grows_after {} steps).proper proper_empty

/-! ## What later steps keep -/

/-- A binding is kept. -/
theorem get?_of_grows (h : t.Grows u) (hbound : t.entries.get? name = some d) :
    u.entries.get? name = some d := by
  obtain ⟨others, hothers⟩ := h.entries
  rw [← hothers]
  exact Dict.get?_append_of_some others hbound

/-- A bound import stays bound. -/
theorem holds_of_grows (h : t.Grows u) {d' : Dependency} (hsame : d.sameImport d' = true)
    (hholds : t.holds name d = true) : u.holds name d' = true := by
  obtain ⟨e, he, hed⟩ := holds_iff.mp hholds
  exact holds_iff.mpr ⟨e, get?_of_grows h he, Dependency.sameImport_trans hed hsame⟩

/-- A name that does not suit an import never comes to suit it: it is bound to another import, or
reserved, and stays so. -/
theorem suits_eq_false_of_grows (h : t.Grows u) (hu : u.Proper) {d' : Dependency}
    (hsame : d'.sameImport d = true) (hblocked : t.suits d name = false) :
    u.suits d' name = false := by
  rw [suits, Bool.or_eq_false_iff] at hblocked ⊢
  obtain ⟨hnotFree, hnotHeld⟩ := hblocked
  by_cases hbound : name ∈ t.entries.keys
  -- It is bound to another import, and the binding is kept.
  · obtain ⟨e, he⟩ := Dict.exists_get?_of_mem_keys hbound
    have hkept : u.entries.get? name = some e := get?_of_grows h he
    refine ⟨Bool.eq_false_iff.mpr fun hfree => ?_, Bool.eq_false_iff.mpr fun hholds => ?_⟩
    · exact (isFree_iff.mp hfree).1 (Dict.mem_keys_of_get? hkept)
    · obtain ⟨e', he', hsame'⟩ := holds_iff.mp hholds
      obtain rfl := Option.some.inj (hkept.symm.trans he')
      have hholds : t.holds name d = true :=
        holds_iff.mpr ⟨e, he, Dependency.sameImport_trans hsame' hsame⟩
      rw [hnotHeld] at hholds
      exact absurd hholds (by simp)
  -- It is reserved, and a proper table binds no reserved name.
  · have hreserved : name ∈ u.reserved := by
      refine h.reserved.subset (by_contra fun hunreserved => ?_)
      rw [isFree_iff.mpr ⟨hbound, hunreserved⟩] at hnotFree
      exact absurd hnotFree (by simp)
    refine ⟨Bool.eq_false_iff.mpr fun hfree => (isFree_iff.mp hfree).2 hreserved,
      Bool.eq_false_iff.mpr fun hholds => ?_⟩
    obtain ⟨e, he, -⟩ := holds_iff.mp hholds
    exact hu.disjoint name hreserved (Dict.mem_keys_of_get? he)

theorem size_le_of_grows (h : t.Grows u) : t.size ≤ u.size :=
  Nat.add_le_add h.entries.length_le h.reserved.length_le

/-- The name that was given to an import is chosen again: the names that were passed over then are
still taken by others, and the one that was taken is now held. -/
theorem chosen_of_grows (h : t.Grows u) (hu : u.Proper) {d' : Dependency}
    (hsame : d'.sameImport d = true) (hholds : u.holds (t.chosen name d) d' = true) :
    u.chosen name d' = t.chosen name d := by
  have hsuits : u.suits d' (t.chosen name d) = true := by rw [suits, hholds, Bool.or_true]
  by_cases hname : t.suits d name = true
  · have hchosen : t.chosen name d = name := if_pos hname
    rw [hchosen] at hsuits ⊢
    exact if_pos hsuits
  · have hchosen : t.chosen name d = t.freshName name d := if_neg hname
    have hblocked := suits_eq_false_of_grows h hu hsame (Bool.eq_false_iff.mpr hname)
    obtain ⟨m, hends, hfresh⟩ := t.exists_ends_freshName name d
    rw [hchosen, hfresh] at hsuits ⊢
    have hbound := hends.lt_length
    rw [t.length_occupied] at hbound
    -- The later table has more candidates, but the search ends at the same one.
    have hagain : Text.firstNumbered (derivedName d'.path name) (u.size + 1) (u.suits d') =
        some (Text.numbered (derivedName d.path name) m) := by
      rw [(Dependency.sameImport_iff.mp hsame).2.1]
      exact Text.firstNumbered_eq_some_iff.mpr
        ⟨m, Nat.lt_of_lt_of_le hbound (Nat.succ_le_succ (size_le_of_grows h)), rfl, hsuits,
          fun k hk => suits_eq_false_of_grows h hu hsame (hends.passed k hk)⟩
    rw [chosen, if_neg (by simp [hblocked]), freshName, hagain]
    rfl

/-- Registering an import again, at any later moment, gives the same name and changes nothing. -/
theorem register_of_grows (h : (t.register name d).2.Grows u) (hu : u.Proper) {d' : Dependency}
    (hsame : d'.sameImport d = true) : u.register name d' = ((t.register name d).1, u) := by
  have hholds : u.holds (t.chosen name d) d' = true := by
    have hregistered := t.holds_register name d
    rw [register_fst] at hregistered
    exact holds_of_grows h (Dependency.sameImport_symm hsame) hregistered
  have hchosen := chosen_of_grows ((t.grows_register name d).trans h) hu hsame hholds
  rw [register_fst]
  rcases u.register_cases name d' with ⟨hregister, -⟩ | ⟨e, -, hfree, -⟩
  · rw [hregister, hchosen]
  · rw [hchosen] at hfree
    obtain ⟨e, he, -⟩ := holds_iff.mp hholds
    exact absurd (Dict.mem_keys_of_get? he) (isFree_iff.mp hfree).1

/-! ## Runs from the empty table -/

/-- **Bindings are kept, and different imports have different names.**  In every table that can be
built, no name is both reserved and bound.  Each step leaves all bindings in their places; a
registration adds at most one, at the end, and its import is bound under the name it returns, which
is not reserved.  So two different imports are never given the same name, whatever happens between
their registrations. -/
theorem bindings_kept (steps : List Step) :
    let t := after {} steps
    (t.entries.keys.Nodup ∧ ∀ name, ¬ (name ∈ t.reserved ∧ name ∈ t.entries.keys)) ∧
      (∀ step, t.entries <+: (t.apply step).entries) ∧
      (∀ name d, let bound := (t.register name d).1
        let t' := (t.register name d).2
        (t'.entries = t.entries ∨ ∃ e, t'.entries = t.entries ++ [(bound, e)]) ∧
          bound ∉ t'.reserved ∧ ∃ e, t'.entries.get? bound = some e ∧ e.sameImport d = true) ∧
      (∀ name d later name' d', d.sameImport d' = false →
        (((t.register name d).2.after later).register name' d').1 ≠ (t.register name d).1) := by
  intro t
  have ht : t.Proper := proper_after steps
  refine ⟨⟨ht.nodup, fun name h => ht.disjoint name h.1 h.2⟩, fun step => (t.grows_apply step).entries,
    fun name d => ?_, fun name d later name' d' hdifferent heq => ?_⟩
  · have hproper := (t.grows_register name d).proper ht
    obtain ⟨e, he, hsame⟩ := holds_iff.mp (t.holds_register name d)
    exact ⟨t.entries_register name d,
      fun hreserved => hproper.disjoint _ hreserved (Dict.mem_keys_of_get? he), e, he, hsame⟩
  · -- Both imports are bound to the one name in the last table.
    have hfirst := holds_of_grows (((t.register name d).2.grows_after later).trans
      (grows_register _ name' d')) d.sameImport_refl (t.holds_register name d)
    have hsecond := ((t.register name d).2.after later).holds_register name' d'
    rw [heq] at hsecond
    obtain ⟨e, he, hed⟩ := holds_iff.mp hfirst
    obtain ⟨e', he', hed'⟩ := holds_iff.mp hsecond
    obtain rfl := Option.some.inj (he.symm.trans he')
    have hsame := Dependency.sameImport_trans (Dependency.sameImport_symm hed) hed'
    rw [hdifferent] at hsame
    exact absurd hsame (by simp)

/-- `Button` is bound, and the first name that the package `lib` would get instead is reserved. -/
def clashingButtons : List Step :=
  [.register "Button" (.package "ui" none), .reserve "LibButton"]

/-- Another package does not get the name that `lib` was given, even if it asks for it. -/
theorem clashingButtons_kept :
    ((after {} clashingButtons).register "Button" (.package "lib" none)).1 = "LibButton2" ∧
      (Dependency.package "lib" none).sameImport (.package "kit" none) = false ∧
      (((after {} clashingButtons).register "Button" (.package "lib" none)).2.register "LibButton2"
        (.package "kit" none)).1 ≠ "LibButton2" := by
  have hbound : ((after {} clashingButtons).register "Button" (.package "lib" none)).1 =
      "LibButton2" := by decide
  have hdifferent : (Dependency.package "lib" none).sameImport (.package "kit" none) = false := by
    decide
  refine ⟨hbound, hdifferent, fun heq => ?_⟩
  exact (bindings_kept clashingButtons).2.2.2 "Button" (.package "lib" none) [] "LibButton2"
    (.package "kit" none) hdifferent (heq.trans hbound.symm)

/-- Registering entries again changes nothing once they were registered. -/
theorem after_registrations_of_grows {entries : Dict Dependency}
    (h : (t.after (registrations entries)).Grows u) (hu : u.Proper) :
    u.after (registrations entries) = u := by
  induction entries generalizing t with
  | nil => rfl
  | cons entry rest ih =>
      obtain ⟨name, d⟩ := entry
      have hrest : ((t.register name d).2.after (registrations rest)).Grows u := h
      have hagain : u.register name d = ((t.register name d).1, u) :=
        register_of_grows ((grows_registrations _ rest).trans hrest) hu d.sameImport_refl
      change (u.register name d).2.after (registrations rest) = u
      rw [hagain]
      exact ih hrest

/-- **Bound names are stable.**  In every table that can be built, an import that was given a name
is given it again after any further steps, and nothing changes.  So registering is idempotent, and
so is merging the same table, at any later moment. -/
theorem bound_names_stable (steps : List Step) :
    let t := after {} steps
    (∀ name d later d', d'.sameImport d = true →
      let u := (t.register name d).2.after later
      u.register name d' = ((t.register name d).1, u)) ∧
      (∀ name d, (t.register name d).2.register name d = t.register name d) ∧
      (∀ other later, let u := (t.merge other).after later
        u.merge other = u) := by
  intro t
  have ht : t.Proper := proper_after steps
  refine ⟨fun name d later d' hsame => ?_, fun name d => ?_, fun other later => ?_⟩
  · have hgrows := (t.register name d).2.grows_after later
    exact register_of_grows hgrows (((t.grows_register name d).trans hgrows).proper ht) hsame
  · exact register_of_grows (.refl _) ((t.grows_register name d).proper ht) d.sameImport_refl
  · have hgrows := (t.after (registrations other.entries)).grows_after later
    have hproper := ((t.grows_registrations other.entries).trans hgrows).proper ht
    show ((t.merge other).after later).merge other = (t.merge other).after later
    rw [merge_eq_after t, merge_eq_after]
    exact after_registrations_of_grows hgrows hproper

/-- Another version of `lib` gets the name that `lib` was given, although names around it have been
taken in the meantime. -/
theorem clashingButtons_stable :
    (Dependency.package "lib" (some "2.0.0")).sameImport (.package "lib" none) = true ∧
      let u := ((after {} clashingButtons).register "Button" (.package "lib" none)).2.after
        [.register "LibButton3" (.package "kit" none), .reserve "LibButton4"]
      u.register "Button" (.package "lib" (some "2.0.0")) = ("LibButton2", u) := by
  have hbound : ((after {} clashingButtons).register "Button" (.package "lib" none)).1 =
      "LibButton2" := by decide
  have hsame : (Dependency.package "lib" (some "2.0.0")).sameImport (.package "lib" none) =
      true := by decide
  refine ⟨hsame, ?_⟩
  have hstable := (bound_names_stable clashingButtons).1 "Button" (.package "lib" none)
    [.register "LibButton3" (.package "kit" none), .reserve "LibButton4"] _ hsame
  rwa [hbound] at hstable

end ImportTable

end ViewGen
