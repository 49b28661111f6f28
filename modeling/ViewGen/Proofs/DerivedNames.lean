import ViewGen.Proofs.PlainNames

/-!
# Names that are derived from words

The name of a component and the name of an import whose requested name is taken are both made of the
letters and digits of another text, with its words capitalized.  Such a name starts with what the
text has first among its letters and digits.  Where this is a digit, the name of a component is put
behind a word of its own; the name of an import is not, and is no identifier then.

## Main statements

* `filter_plainWords` — the letters and digits of a name are kept
* `head?_pascal_plainWords` — how a name that is derived from words starts
* `exists_head?_componentName` — the name of a component starts with a capital
* `ImportTable.registered_name_isIdentifier_iff` — which names of imports are identifiers
-/

namespace ViewGen

/-! ## Names from words -/

/-- What is left of a name is its runs of letters and digits, with spaces between them. -/
theorem toList_plainWords (name : String) :
    (plainWords name).toList = [' '].intercalate
      ((Text.pieces (fun c => !c.isAlphanum) name.toList).filter fun w => !w.isEmpty) := by
  have hempty : ∀ w : List Char, (String.ofList w).isEmpty = w.isEmpty := by
    intro w
    rw [Bool.eq_iff_iff]
    simp [String.isEmpty_iff]
  rw [plainWords, String.toList_intercalate, Text.split, List.filter_map, List.map_map]
  simp [Function.comp_def, hempty]

/-- The letters and digits of a name are kept, in order, and nothing is put between them but
separators. -/
theorem filter_plainWords (name : String) :
    ((plainWords name).toList.filter fun c => !Text.isSeparator c) =
      name.toList.filter Char.isAlphanum := by
  rw [toList_plainWords, Text.filter_intercalate (by rfl), List.flatten_filter_not_isEmpty,
    Text.flatten_pieces, List.filter_filter]
  refine List.filter_congr fun c _ => ?_
  cases hc : c.isAlphanum with
  | true => simp [(Text.alphanumForms hc).1]
  | false => simp

/-- The words of a name are its letters and digits. -/
theorem flatten_words_plainWords (name : String) :
    (Text.words (plainWords name)).flatten = name.toList.filter Char.isAlphanum := by
  rw [Text.words, List.flatten_filter_not_isEmpty, Text.flatten_cutWords, filter_plainWords]

/-- **How a name that is derived from words starts**: with the first letter or digit, as a
capital. -/
theorem head?_pascal_plainWords (name : String) :
    (Text.pascal (plainWords name)).toList.head? =
      (name.toList.find? Char.isAlphanum).map Char.toUpper := by
  have hplain : ∀ c ∈ (Text.words (plainWords name)).flatten, c.isAlphanum = true := by
    rw [flatten_words_plainWords]
    exact fun c hc => (List.mem_filter.mp hc).2
  rw [Text.pascal, String.toList_ofList,
    Text.head?_flatMap_capitalize (fun _ => Text.ne_nil_of_mem_words) hplain,
    flatten_words_plainWords, List.head?_filter]

/-- **The name of a component starts with a capital.** -/
theorem exists_head?_componentName (name : String) :
    ∃ c, (componentName name).toList.head? = some c ∧ c.isUpper = true := by
  have hprefixed : ∀ s : String, ("Component" ++ s).toList.head? = some 'C' := by
    intro s
    simp
  have hhead := head?_pascal_plainWords name
  unfold componentName
  dsimp only
  split
  · next c rest hpascal =>
    split
    · next halpha =>
      rw [hpascal, List.head?_cons] at hhead
      obtain ⟨d, hd, rfl⟩ := Option.map_eq_some_iff.mp hhead.symm
      exact ⟨d.toUpper, by rw [hpascal]; rfl,
        (Text.alphanumForms (List.find?_some hd)).2.2.2 halpha⟩
    · exact ⟨'C', hprefixed _, rfl⟩
  · exact ⟨'C', hprefixed _, rfl⟩

/-! ## Names of imports -/

/-- An identifier starts as one, and all of its characters can stand in one. -/
theorem isIdentifier_iff {name : String} : isIdentifier name = true ↔
    (∃ c, name.toList.head? = some c ∧ startsIdentifier c = true) ∧
      ∀ c ∈ name.toList, continuesIdentifier c = true := by
  have hcontinues : ∀ c, startsIdentifier c = true → continuesIdentifier c = true := by
    intro c hstarts
    have halphanum : c.isAlphanum = (c.isAlpha || c.isDigit) := rfl
    simp only [startsIdentifier, continuesIdentifier, halphanum, Bool.or_eq_true] at hstarts ⊢
    exact hstarts.imp_left (.imp_left .inl)
  unfold isIdentifier
  split
  · next hname => simp [hname]
  · next c cs hname =>
    rw [hname, List.head?_cons, Bool.and_eq_true, List.all_eq_true, List.forall_mem_cons]
    constructor
    · rintro ⟨hstarts, hrest⟩
      exact ⟨⟨c, rfl, hstarts⟩, hcontinues c hstarts, hrest⟩
    · rintro ⟨⟨d, hd, hstarts⟩, -, hrest⟩
      obtain rfl := Option.some.inj hd
      exact ⟨hstarts, hrest⟩

namespace ImportTable

variable (t : ImportTable) (name : String) (d : Dependency)

/-- **Which names of imports are identifiers.**  All characters of the name that an import is given
can stand in an identifier if those of the requested name can.  The name is one if the requested
name was not taken, or if the first letter or digit of the path is not a digit, and only then. -/
theorem registered_name_isIdentifier_iff (h : isIdentifier name = true) :
    (∀ c ∈ (t.register name d).1.toList, continuesIdentifier c = true) ∧
      (isIdentifier (t.register name d).1 = true ↔
        t.suits d name = true ∨
          ∀ c, d.path.toList.find? Char.isAlphanum = some c → c.isDigit = false) := by
  obtain ⟨⟨first, hfirst, hstarts⟩, hcontinues⟩ := isIdentifier_iff.mp h
  have hchars : ∀ c ∈ (t.register name d).1.toList, continuesIdentifier c = true := by
    intro c hc
    rcases mem_toList_register hc with hname | halphanum
    · exact hcontinues c hname
    · simp [continuesIdentifier, halphanum]
  refine ⟨hchars, ?_⟩
  cases hsuits : t.suits d name with
  | true =>
      have hname : (t.register name d).1 = name := by
        rw [t.register_fst, chosen, if_pos hsuits]
      rw [hname]
      simp [h]
  | false =>
      obtain ⟨digits, hname, -⟩ := exists_register_eq_append hsuits
      rw [derivedName] at hname
      -- Only the first character is left, which is that of the path or, without one, of the name.
      have hhead : (t.register name d).1.toList.head? =
          ((d.path.toList.find? Char.isAlphanum).map Char.toUpper).or (some first) := by
        rw [hname, String.toList_append, String.toList_append, List.append_assoc,
          List.head?_append, head?_pascal_plainWords, List.head?_append, hfirst]
        rfl
      rw [isIdentifier_iff, and_iff_left hchars, hhead]
      cases hfound : d.path.toList.find? Char.isAlphanum with
      | none => simp [hstarts]
      | some c =>
          have hc := (Text.alphanumForms (List.find?_some hfound)).2.2.1
          simp [hc]

/-- A button from a path with digits in it, none of them at its start, is given an identifier. -/
theorem clashingButtons_identifier :
    isIdentifier "Button" = true ∧
      ((after {} clashingButtons).register "Button" (.ofProject "./kit2/3d")).1 =
        "Kit23DButton" ∧
      isIdentifier ((after {} clashingButtons).register "Button" (.ofProject "./kit2/3d")).1 =
        true := by
  have hname : isIdentifier "Button" = true := by decide
  refine ⟨hname, by decide, ?_⟩
  refine (registered_name_isIdentifier_iff _ "Button" (.ofProject "./kit2/3d") hname).2.mpr ?_
  refine .inr fun c hc => ?_
  have hfirst : "./kit2/3d".toList.find? Char.isAlphanum = some 'k' := by decide
  obtain rfl := Option.some.inj (hc.symm.trans hfirst)
  decide

/-- A button from a package whose name starts with a digit is given a name that is no identifier. -/
theorem clashingButtons_not_identifier :
    isIdentifier "Button" = true ∧
      ((after {} clashingButtons).register "Button" (.package "3d-kit" none)).1 = "3DKitButton" ∧
      isIdentifier ((after {} clashingButtons).register "Button" (.package "3d-kit" none)).1 =
        false := by
  decide

end ImportTable

end ViewGen
