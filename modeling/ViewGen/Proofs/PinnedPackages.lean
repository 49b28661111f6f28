import ViewGen.Proofs.ManifestPackages

/-!
# Versions of packages in the manifest

A dependency can declare a version of its package.  Imports are compared without their versions, one
package can be behind several imports, and the tables of several modules are merged; in all of this
the first dependency from a package is the one that counts.  So a package is listed with the version
that its first dependency declares, and without a version if that declares none, even where later
ones do.

## Main definitions

* `Dependency.IsFrom` — a dependency on a package
* `ImportTable.Built` — a table, and what was registered in it, directly or in merged tables
* `firstVersion?` — what the first dependency on a package declares

## Main statements

* `ImportTable.get?_packageVersions` — a package is listed as its first binding says
* `ImportTable.Built.firstVersion?_bound` — the first binding of a package is its first dependency
* `ImportTable.pinned_package_listed_iff` — when a package that has a version is listed with one
-/

namespace ViewGen

/-- A dependency on a package. -/
def Dependency.IsFrom (package : String) (d : Dependency) : Prop :=
  d.kind = .package ∧ ImportTable.IsPackageOf d.path package

instance (package : String) : DecidablePred (Dependency.IsFrom package) := fun d =>
  decidable_of_iff (d.kind = .package ∧ ImportTable.packageName d.path = package)
    (and_congr_right fun _ => ImportTable.packageName_eq_iff)

/-- Imports that are the same are from the same package. -/
theorem Dependency.isFrom_iff_of_sameImport {d e : Dependency} (h : d.sameImport e = true)
    (package : String) : d.IsFrom package ↔ e.IsFrom package := by
  obtain ⟨hkind, hpath, -⟩ := sameImport_iff.mp h
  rw [IsFrom, IsFrom, hkind, hpath]

/-- What the first dependency on a package declares: a version, or none. -/
def firstVersion? (package : String) (ds : List Dependency) : Option (Option String) :=
  (ds.find? fun d => d.IsFrom package).map (·.version)

theorem firstVersion?_append (package : String) (ds es : List Dependency) :
    firstVersion? package (ds ++ es) =
      (firstVersion? package ds).or (firstVersion? package es) := by
  rw [firstVersion?, List.find?_append, Option.map_or]
  rfl

theorem firstVersion?_singleton_of_isFrom {package : String} {d : Dependency}
    (h : d.IsFrom package) : firstVersion? package [d] = some d.version := by
  simp [firstVersion?, h]

theorem firstVersion?_singleton_of_not {package : String} {d : Dependency}
    (h : ¬ d.IsFrom package) : firstVersion? package [d] = none := by
  simp [firstVersion?, h]

theorem exists_firstVersion?_of_mem {package : String} {ds : List Dependency} {d : Dependency}
    (hd : d ∈ ds) (h : d.IsFrom package) : ∃ version, firstVersion? package ds = some version := by
  have hfound : (ds.find? fun d => d.IsFrom package).isSome :=
    List.find?_isSome.mpr ⟨d, hd, by simpa using h⟩
  obtain ⟨first, hfirst⟩ := Option.isSome_iff_exists.mp hfound
  exact ⟨first.version, by rw [firstVersion?, hfirst]; rfl⟩

namespace ImportTable

/-! ## What is listed -/

/-- The dependencies behind the bindings of a table. -/
def bound (t : ImportTable) : List Dependency :=
  t.entries.map Prod.snd

/-- Listing a package changes nothing if it was listed before. -/
theorem get?_addPackage (versions : Dict String) (entry : String × Dependency) (package : String) :
    (addPackage versions entry).get? package =
      (versions.get? package).or ((firstVersion? package [entry.2]).map (·.getD "latest")) := by
  have hfrom : entry.2.IsFrom package ↔
      entry.2.kind = .package ∧ packageName entry.2.path = package :=
    and_congr_right fun _ => packageName_eq_iff.symm
  by_cases hlisted : package ∈ versions.keys
  · obtain ⟨version, hversion⟩ := Dict.exists_get?_of_mem_keys hlisted
    rw [hversion, Option.some_or, addPackage]
    split
    · exact Dict.get?_append_of_some _ hversion
    · exact hversion
  · rw [Dict.get?_eq_none_iff.mpr hlisted, Option.none_or, addPackage]
    by_cases h : entry.2.IsFrom package
    · obtain ⟨hkind, rfl⟩ := hfrom.mp h
      rw [if_pos (by simp [hkind, Dict.has_eq_false_iff.mpr hlisted]),
        Dict.get?_append_of_notMem _ hlisted, firstVersion?_singleton_of_isFrom h]
      simp [Dict.get?]
    · rw [firstVersion?_singleton_of_not h, Option.map_none]
      split
      · next hnew =>
        have hne : packageName entry.2.path ≠ package := by
          intro heq
          simp only [Bool.and_eq_true, beq_iff_eq] at hnew
          exact h (hfrom.mpr ⟨hnew.1, heq⟩)
        rw [Dict.get?_append_of_notMem _ hlisted]
        simp [Dict.get?, hne.symm]
      · exact Dict.get?_eq_none_iff.mpr hlisted

theorem get?_foldl_addPackage (entries : List (String × Dependency)) (versions : Dict String)
    (package : String) :
    (entries.foldl addPackage versions).get? package =
      (versions.get? package).or
        ((firstVersion? package (entries.map Prod.snd)).map (·.getD "latest")) := by
  induction entries generalizing versions with
  | nil => simp [firstVersion?]
  | cons entry rest ih =>
      rw [List.foldl_cons, ih, get?_addPackage, Option.or_assoc, ← Option.map_or,
        ← firstVersion?_append]
      rfl

/-- **A package is listed as its first binding says**, with `latest` where this has no version. -/
theorem get?_packageVersions (t : ImportTable) (package : String) :
    t.packageVersions.get? package =
      (firstVersion? package t.bound).map (·.getD "latest") := by
  rw [packageVersions_eq, get?_foldl_addPackage]
  rfl

/-! ## How a table is built -/

/-- The table after some registrations, reservations and merges, and the dependencies that were
registered in this order, in the table itself or in one that was merged into it. -/
inductive Built : ImportTable → List Dependency → Prop
  | empty : Built {} []
  | register {t ds} (name : String) (d : Dependency) : Built t ds →
      Built (t.register name d).2 (ds ++ [d])
  | reserve {t u ds} {name : String} : Built t ds → t.reserve? name = some u → Built u ds
  | merge {t u ds es} : Built t ds → Built u es → Built (t.merge u) (ds ++ es)

/-- A registration finds its import among the bindings, or adds a binding with its version. -/
theorem bound_register (t : ImportTable) (name : String) (d : Dependency) :
    (t.register name d).2.bound = t.bound ∧ (∃ e ∈ t.bound, e.sameImport d = true) ∨
      ∃ e, e.sameImport d = true ∧ e.version = d.version ∧
        (t.register name d).2.bound = t.bound ++ [e] := by
  have hfound : ∀ {name}, t.holds name d = true → ∃ e ∈ t.bound, e.sameImport d = true := by
    intro name hholds
    obtain ⟨e, he, hsame⟩ := holds_iff.mp hholds
    exact ⟨e, List.mem_map_of_mem (Dict.mem_of_get? he), hsame⟩
  have hbind : ∀ name e, (t.bind name e).bound = t.bound ++ [e] := fun name e => List.map_append
  rw [ImportTable.register]
  split
  · next hholds => exact .inl ⟨rfl, hfound hholds⟩
  · split
    · exact .inr ⟨d, d.sameImport_refl, rfl, hbind name d⟩
    · dsimp only
      split
      · next hholds => exact .inl ⟨rfl, hfound hholds⟩
      · exact .inr ⟨{ d with renamedFrom := d.renamedFrom.or (some name) },
          Dependency.sameImport_iff.mpr ⟨rfl, rfl, rfl, rfl⟩, rfl, hbind _ _⟩

/-- **The first dependency on a package counts**: one that is registered later changes nothing. -/
theorem firstVersion?_register (t : ImportTable) (name : String) (d : Dependency)
    (package : String) :
    firstVersion? package (t.register name d).2.bound =
      (firstVersion? package t.bound).or (firstVersion? package [d]) := by
  rcases t.bound_register name d with ⟨hbound, e, he, hsame⟩ | ⟨e, hsame, hversion, hbound⟩
  · rw [hbound]
    by_cases hfrom : d.IsFrom package
    · -- The package is bound already, by the import that was found.
      obtain ⟨version, hfirst⟩ := exists_firstVersion?_of_mem he
        ((Dependency.isFrom_iff_of_sameImport hsame package).mpr hfrom)
      rw [hfirst]
      rfl
    · rw [firstVersion?_singleton_of_not hfrom, Option.or_none]
  · rw [hbound, firstVersion?_append]
    by_cases hfrom : d.IsFrom package
    · rw [firstVersion?_singleton_of_isFrom hfrom, firstVersion?_singleton_of_isFrom
        ((Dependency.isFrom_iff_of_sameImport hsame package).mpr hfrom), hversion]
    · rw [firstVersion?_singleton_of_not hfrom, firstVersion?_singleton_of_not
        (mt (Dependency.isFrom_iff_of_sameImport hsame package).mp hfrom)]

/-- So does the first of several dependencies that are registered one after the other. -/
theorem firstVersion?_merge (t u : ImportTable) (package : String) :
    firstVersion? package (t.merge u).bound =
      (firstVersion? package t.bound).or (firstVersion? package u.bound) := by
  rw [merge_eq_after, bound.eq_def u]
  induction u.entries generalizing t with
  | nil => simp [registrations, after, firstVersion?]
  | cons entry rest ih =>
      have hstep : t.after (registrations (entry :: rest)) =
          (t.register entry.1 entry.2).2.after (registrations rest) := rfl
      rw [hstep, ih, firstVersion?_register, Option.or_assoc, ← firstVersion?_append]
      rfl

theorem entries_of_reserve {t u : ImportTable} {name : String} (h : t.reserve? name = some u) :
    u.entries = t.entries := by
  rw [reserve?] at h
  split at h
  · exact absurd h (by simp)
  · split at h <;> exact Option.some.inj h ▸ rfl

/-- **The first binding of a package is the first dependency that was registered.** -/
theorem Built.firstVersion?_bound {t : ImportTable} {ds : List Dependency} (h : Built t ds)
    (package : String) : firstVersion? package t.bound = firstVersion? package ds := by
  induction h with
  | empty => rfl
  | register name d _ ih => rw [firstVersion?_register, ih, firstVersion?_append]
  | reserve _ hreserve ih => rw [bound, entries_of_reserve hreserve, ← ih, bound]
  | merge _ _ iht ihu => rw [firstVersion?_merge, iht, ihu, firstVersion?_append]

/-- **When a package that has a version is listed with one.**  The first dependency on a package
decides: it is listed with the version that this declares, and as `latest` if it declares none.  So
a package for which some dependency declares a version is listed with a version that was declared
for it if the first one declares it, or if one of them asks for `latest` by itself, and only
then. -/
theorem pinned_package_listed_iff {t : ImportTable} {ds : List Dependency} (h : Built t ds)
    (package : String) (hpinned : ∃ d ∈ ds, d.IsFrom package ∧ d.version ≠ none) :
    ∃ first, (ds.find? fun d => d.IsFrom package) = some first ∧
      t.packageVersions.get? package = some (first.version.getD "latest") ∧
      ((∃ d ∈ ds, d.IsFrom package ∧
          ∃ version, d.version = some version ∧ t.packageVersions.get? package = some version) ↔
        first.version ≠ none ∨ ∃ d ∈ ds, d.IsFrom package ∧ d.version = some "latest") := by
  obtain ⟨pinned, hmem, hfrom, -⟩ := hpinned
  obtain ⟨version, hversion⟩ := exists_firstVersion?_of_mem hmem hfrom
  obtain ⟨first, hfirst, rfl⟩ := Option.map_eq_some_iff.mp hversion
  have hlisted : t.packageVersions.get? package = some (first.version.getD "latest") := by
    rw [get?_packageVersions, h.firstVersion?_bound, hversion]
    rfl
  refine ⟨first, hfirst, hlisted, ?_⟩
  rw [hlisted]
  cases hdeclared : first.version with
  | none => simp [eq_comm]
  | some version =>
      have hfirstFrom : first.IsFrom package := by simpa using List.find?_some hfirst
      refine ⟨fun _ => .inl (by simp), fun _ => ?_⟩
      exact ⟨first, List.mem_of_find?_eq_some hfirst, hfirstFrom, version, hdeclared, rfl⟩

/-- A row of the project, a pinned button of a package, and a card of that package without a
version. -/
def kitDependencies : List Dependency :=
  [.ofProject "./row", .package "kit" (some "2.0.0"), .package "kit/cards" none]

/-- The button is in a table of its own, and merged before the card is registered. -/
def pinnedKit : ImportTable :=
  (((register {} "Row" (.ofProject "./row")).2.merge
    (register {} "Button" (.package "kit" (some "2.0.0"))).2).register "Card"
      (.package "kit/cards" none)).2

/-- The package is listed with the version of the button. -/
theorem pinnedKit_lists_version :
    Built pinnedKit kitDependencies ∧
      ∃ d ∈ kitDependencies, d.IsFrom "kit" ∧ ∃ version, d.version = some version ∧
        pinnedKit.packageVersions.get? "kit" = some version := by
  have hbuilt : Built pinnedKit kitDependencies :=
    .register "Card" (.package "kit/cards" none)
      (.merge (.register "Row" (.ofProject "./row") .empty)
        (.register "Button" (.package "kit" (some "2.0.0")) .empty))
  obtain ⟨first, hfirst, -, hiff⟩ := pinned_package_listed_iff hbuilt "kit" (by decide)
  have hbutton : (kitDependencies.find? fun d => d.IsFrom "kit") =
      some (.package "kit" (some "2.0.0")) := by decide
  obtain rfl := Option.some.inj (hfirst.symm.trans hbutton)
  exact ⟨hbuilt, hiff.mpr (.inl (by decide))⟩

/-- A button of a package without a version, and a pinned card of the same package. -/
def mixedDependencies : List Dependency :=
  [(Dependency.package "kit" none).byName, (Dependency.package "kit" (some "2.0.0")).byName]

def mixedKit : ImportTable :=
  ((register {} "Button" (Dependency.package "kit" none).byName).2.register "Card"
    (Dependency.package "kit" (some "2.0.0")).byName).2

/-- The package is listed as `latest`, although a version was declared for it and no dependency asks
for `latest`. -/
theorem mixedKit_lists_latest :
    Built mixedKit mixedDependencies ∧
      (∃ d ∈ mixedDependencies, d.IsFrom "kit" ∧ d.version = some "2.0.0") ∧
      mixedKit.packageVersions.get? "kit" = some "latest" ∧
      ¬ ∃ d ∈ mixedDependencies, d.IsFrom "kit" ∧ ∃ version, d.version = some version ∧
        mixedKit.packageVersions.get? "kit" = some version := by
  have hbuilt : Built mixedKit mixedDependencies :=
    .register "Card" (Dependency.package "kit" (some "2.0.0")).byName
      (.register "Button" (Dependency.package "kit" none).byName .empty)
  have hlatest : mixedKit.packageVersions.get? "kit" = some "latest" := by decide
  refine ⟨hbuilt, by decide, hlatest, ?_⟩
  rintro ⟨d, hd, -, version, hversion, hlisted⟩
  obtain rfl := Option.some.inj (hlatest.symm.trans hlisted)
  have hnone : ∀ d ∈ mixedDependencies, d.version ≠ some "latest" := by decide
  exact hnone d hd hversion

end ImportTable

end ViewGen
