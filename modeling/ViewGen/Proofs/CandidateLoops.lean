import ViewGen.Proofs.ImportHistory
import ViewGen.Proofs.KeyAssignment
import ViewGen.Proofs.StyleSheets

/-!
# The searches for fresh names end

There are three searches for a name that is not taken: for the name of an import, for the key of an
element and for the class of a style.  None of them has a bound of its own, and all of them end, at
the name that is given.

## Main statements

* `ImportTable.exists_ends_register` — where the search for the name of an import stops
* `fresh_names_found` — the names of imports, of keys and of classes are found
-/

namespace ViewGen

open Text

/-- An import whose requested name is taken is bound to the name at which the search among the
numbered forms of its derived name stops. -/
theorem ImportTable.exists_ends_register (t : ImportTable) (name : String) (d : Dependency) :
    ∃ m, Ends (numbered (derivedName d.path name)) t.occupied (t.suits d) m ∧
      (t.register name d).1 =
        if t.suits d name then name else numbered (derivedName d.path name) m := by
  obtain ⟨m, hends, hfresh⟩ := t.exists_ends_freshName name d
  exact ⟨m, hends, by rw [t.register_fst, chosen, hfresh]⟩

/-- **Fresh names are found.**  Whatever a table has bound and reserved, whatever keys are in use
and whatever numbers were given out, and whatever classes are taken, the search for another name
stops.  With `n` different names occupied, one of the first `n + 1` candidates is free, and the
search stops there or before; the name at which it stops is the one that is given. -/
theorem fresh_names_found :
    (∀ (t : ImportTable) (name : String) (d : Dependency),
      ∃ m, Ends (numbered (ImportTable.derivedName d.path name)) t.occupied (t.suits d) m ∧
        (t.register name d).1 =
          if t.suits d name then name else numbered (ImportTable.derivedName d.path name) m) ∧
    (∀ (supply : KeySupply) (tag : String),
      ∃ m, Ends (counted (camel tag) (supply.last (camel tag))) supply.used
          (fun key => !supply.used.contains key) m ∧
        (supply.next tag).1 = counted (camel tag) (supply.last (camel tag)) m ∧
        (supply.next tag).2.counters =
          supply.counters.insert (camel tag) (supply.last (camel tag) + 1 + m)) ∧
    (∀ (key : String) (taken : List String),
      ∃ m, Ends (numbered (camel key)) taken (fun name => !taken.contains name) m ∧
        className key taken = numbered (camel key) m) := by
  refine ⟨?_, ?_, ?_⟩
  · intro t name d
    exact t.exists_ends_register name d
  · intro supply tag
    exact supply.exists_ends_next tag
  · intro key taken
    exact exists_ends_className key taken

end ViewGen
