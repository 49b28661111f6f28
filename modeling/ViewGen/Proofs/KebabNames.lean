import ViewGen.Proofs.DerivedNames

/-!
# The shape of derived names

A component is declared under an identifier, and its files are named in lower case with hyphens
between the words.  Both names are made of the letters and digits of the component's name, whatever
else stands in it.  A word ends wherever letters and digits meet, so every word is made of letters
alone or of digits alone.  A name that is made of such words in lower case is cut at its hyphens and
nowhere else, and is its own file name therefore.

## Main definitions

* `IsKebab` — groups that are joined by single hyphens
* `plainLetters` — the letters and digits of a name in lower case

## Main statements

* `words_plainWords_of_groups` — groups with hyphens between them are words
* `isKebab_kebabName`, `kebabName_of_isKebab` — file names have this shape, and names that have it
  are kept
* `derived_names_wellFormed` — the identifier and the file name of a component
-/

namespace ViewGen

/-! ## File names -/

/-- A name in lower case with hyphens: groups of small letters or of digits that are joined by
single hyphens.  Without any group it is empty. -/
def IsKebab (s : String) : Prop :=
  ∃ groups : List (List Char), s.toList = ['-'].intercalate groups ∧ ∀ g ∈ groups, Text.IsGroup g

/-- The words of a name in lower case are groups. -/
theorem isKebab_kebabName (name : String) : IsKebab (kebabName name) := by
  refine ⟨(Text.words (plainWords name)).map Text.lowerWord, ?_, ?_⟩
  · rw [kebabName, Text.kebab, String.toList_ofList]
  · refine List.forall_mem_map.mpr fun w hw => Text.isGroup_lowerWord (Text.ne_nil_of_mem_words hw)
      (fun c hc => isAlphanum_of_mem_words hw hc) ?_
    refine Text.isDigit_eq_of_mem_cutWords (fun c hc => ?_) (List.mem_of_mem_filter hw)
    refine (of_mem_plainWords c hc).imp_left ?_
    rintro rfl
    rfl

/-- The words of a name that is made of groups with hyphens between them are the groups. -/
theorem words_plainWords_of_groups {s : String} {groups : List (List Char)}
    (hs : s.toList = ['-'].intercalate groups) (hgroups : ∀ g ∈ groups, Text.IsGroup g) :
    Text.words (plainWords s) = groups := by
  have hne : ∀ g ∈ groups, g ≠ [] := fun g hg => (hgroups g hg).1
  have hkept : ∀ g ∈ groups, ∀ c ∈ g, (!c.isAlphanum) = false := by
    intro g hg c hc
    rw [(hgroups g hg).2.isAlphanum c hc]
    rfl
  -- The hyphens become spaces, and then the name is cut at the spaces and nowhere else.
  have hplain : (plainWords s).toList = [' '].intercalate groups := by
    rw [toList_plainWords, hs]
    congr 1
    apply Text.filter_cut_intercalate hne rfl
    · intro g hg
      exact Text.pieces_eq (hkept g hg)
    · intro g hg rest
      exact Text.pieces_append (hkept g hg) rfl rest
  rw [Text.words, hplain]
  apply Text.filter_cut_intercalate hne rfl
  · intro g hg
    exact (hgroups g hg).2.cutWords_eq
  · intro g hg rest
    exact (hgroups g hg).2.cutWords_append rfl rest

/-- A name in lower case with hyphens is its own file name. -/
theorem kebabName_of_isKebab {s : String} (h : IsKebab s) : kebabName s = s := by
  obtain ⟨groups, hs, hgroups⟩ := h
  have hlower : groups.map Text.lowerWord = groups.map id :=
    List.map_congr_left fun g hg => (hgroups g hg).2.lowerWord_eq
  apply String.toList_inj.mp
  rw [kebabName, Text.kebab, String.toList_ofList, words_plainWords_of_groups hs hgroups, hlower,
    List.map_id, hs]

/-! ## What names keep -/

/-- The letters and digits of a name, in lower case. -/
def plainLetters (name : String) : List Char :=
  (name.toList.filter Char.isAlphanum).map Char.toLower

/-- Up to case, capitalized words are the letters and digits of the name. -/
theorem map_toLower_pascal (name : String) :
    (Text.pascal (plainWords name)).toList.map Char.toLower = plainLetters name := by
  have hwords : ∀ w ∈ Text.words (plainWords name),
      (Text.capitalize w).map Char.toLower = w.map Char.toLower := by
    intro w hw
    exact Text.map_toLower_capitalize fun c hc => isAlphanum_of_mem_words hw hc
  rw [Text.pascal, String.toList_ofList, List.map_flatMap, List.flatMap_congr hwords,
    List.flatMap_def, ← List.map_flatten, flatten_words_plainWords, plainLetters]

/-- Without its hyphens a file name is the letters and digits of the name in lower case. -/
theorem filter_kebabName (name : String) :
    (kebabName name).toList.filter Char.isAlphanum = plainLetters name := by
  have hwords : ∀ w ∈ Text.words (plainWords name),
      Text.lowerWord w = w.map Char.toLower := by
    intro w hw
    exact Text.lowerWord_of_isAlphanum fun c hc => isAlphanum_of_mem_words hw hc
  rw [kebabName, Text.kebab, String.toList_ofList, Text.filter_intercalate (by rfl),
    List.map_congr_left hwords, ← List.map_flatten, flatten_words_plainWords, plainLetters]
  refine List.filter_eq_self.mpr (List.forall_mem_map.mpr fun c hc => ?_)
  exact (Text.toLower_of_isAlphanum (List.mem_filter.mp hc).2).1

/-- Whether the first letter or digit of a name is a letter. -/
def startsWithLetter (name : String) : Bool :=
  (name.toList.find? Char.isAlphanum).any Char.isAlpha

/-- The name of a component is its capitalized words, after a word of its own where these start with
a digit or are empty. -/
theorem componentName_eq (name : String) :
    componentName name =
      (if startsWithLetter name then "" else "Component") ++ Text.pascal (plainWords name) := by
  have hhead := head?_pascal_plainWords name
  unfold componentName startsWithLetter
  dsimp only
  cases hpascal : (Text.pascal (plainWords name)).toList with
  | nil =>
      rw [hpascal] at hhead
      rw [Option.map_eq_none_iff.mp hhead.symm]
      rfl
  | cons c rest =>
      rw [hpascal] at hhead
      obtain ⟨d, hd, rfl⟩ := Option.map_eq_some_iff.mp hhead.symm
      have halpha : d.toUpper.isAlpha = d.isAlpha :=
        Text.forall_isAlphanum (fun c => c.toUpper.isAlpha = c.isAlpha) (by decide)
          (List.find?_some hd)
      rw [hd, Option.any_some, ← halpha]
      cases hletter : d.toUpper.isAlpha with
      | true => simp [hletter]
      | false => simp [hletter]

/-- **The name of a component is an identifier.** -/
theorem isIdentifier_componentName (name : String) :
    isIdentifier (componentName name) = true := by
  obtain ⟨c, hhead, hupper⟩ := exists_head?_componentName name
  have hstarts : startsIdentifier c = true := by
    have halpha : c.isAlpha = true := Bool.or_eq_true_iff.mpr (.inl hupper)
    rw [startsIdentifier, halpha]
    rfl
  refine isIdentifier_iff.mpr ⟨⟨c, hhead, hstarts⟩, ?_⟩
  rw [componentName_eq, String.toList_append]
  refine List.forall_mem_append.mpr ⟨?_, fun d hd => ?_⟩
  · split
    · exact List.all_eq_true.mp rfl
    · exact List.all_eq_true.mp rfl
  · rw [continuesIdentifier, isAlphanum_of_mem_pascal hd]
    rfl

/-- **Derived names are well formed**, whatever the name is that they are derived from.  The name of
a component is an identifier that starts with a capital.  The name of its files is made of groups of
small letters or of digits that are joined by single hyphens, and is its own file name.  Up to case
both are the letters and digits of the name; the name of a component has a word of its own before
them where they do not start with a letter. -/
theorem derived_names_wellFormed (name : String) :
    isIdentifier (componentName name) = true ∧
      (∃ c, (componentName name).toList.head? = some c ∧ c.isUpper = true) ∧
      (componentName name).toList.map Char.toLower =
        (if startsWithLetter name then [] else "component".toList) ++ plainLetters name ∧
      IsKebab (kebabName name) ∧
      kebabName (kebabName name) = kebabName name ∧
      (kebabName name).toList.filter Char.isAlphanum = plainLetters name := by
  refine ⟨isIdentifier_componentName name, exists_head?_componentName name, ?_,
    isKebab_kebabName name, kebabName_of_isKebab (isKebab_kebabName name), filter_kebabName name⟩
  rw [componentName_eq, String.toList_append, List.map_append, map_toLower_pascal]
  split <;> rfl

end ViewGen
