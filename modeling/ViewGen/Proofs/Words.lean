import Mathlib.Data.List.Basic
import ViewGen.Naming

/-!
# Words

A name is cut into words at separators, where letters and digits meet, and where a word that is
written with capitals ends.  Nothing but separators is lost by cutting, and nothing but the case of
letters by putting words together again.  Among letters and digits every word is of one kind,
letters or digits; and words of one kind that are joined by a separator are found again.

## Main definitions

* `Text.OneKind`, `Text.IsGroup` — small letters alone, or digits alone

## Main statements

* `Text.forall_isAlphanum` — facts about letters and digits are checked for the first characters
* `Text.of_mem_cutWords`, `Text.flatten_cutWords` — cutting a name into words drops the separators
  and nothing else
* `Text.isDigit_eq_of_mem_cutWords` — the invariant of cutting: a word has letters alone or digits
  alone
* `Text.filter_cut_intercalate` — groups that are joined are found again

## Design notes

Case conversion is given by tables for all of Unicode, but letters and digits never meet them: what
is needed about a letter or a digit is decided for the first 128 characters.
-/

namespace ViewGen.Text

/-! ## Letters and digits -/

theorem toNat_lt_of_isAlphanum {c : Char} (h : c.isAlphanum = true) : c.toNat < 128 := by
  rcases Bool.or_eq_true_iff.mp h with halpha | hdigit
  · rcases Bool.or_eq_true_iff.mp halpha with hupper | hlower
    · have hle : c.toNat ≤ 90 := (of_decide_eq_true hupper).2
      omega
    · have hle : c.toNat ≤ 122 := of_decide_eq_true (Bool.and_eq_true_iff.mp hlower).2
      omega
  · have hle : c.toNat ≤ 57 := of_decide_eq_true (Bool.and_eq_true_iff.mp hdigit).2
    omega

/-- What holds for the letters and digits among the first characters holds for all of them. -/
theorem forall_isAlphanum (P : Char → Prop)
    (h : ∀ n < 128, (Char.ofNat n).isAlphanum = true → P (Char.ofNat n)) {c : Char}
    (hc : c.isAlphanum = true) : P c := by
  have hchar := h c.toNat (toNat_lt_of_isAlphanum hc)
  rw [Char.ofNat_toNat] at hchar
  exact hchar hc

/-- The forms of letters and digits are letters and digits. -/
theorem isAlphanum_of_mem_forms {c d : Char} (hc : c.isAlphanum = true)
    (hd : d ∈ upper c ++ lower c) : d.isAlphanum = true := by
  have hforms := forall_isAlphanum
    (fun c => (upper c ++ lower c).all Char.isAlphanum = true) (by decide) hc
  exact List.all_eq_true.mp hforms d hd

/-- What case conversion needs to know of letters and digits. -/
theorem alphanumForms {c : Char} (h : c.isAlphanum = true) :
    isSeparator c = false ∧ upper c = [c.toUpper] ∧
      startsIdentifier c.toUpper = !c.isDigit ∧
      (c.toUpper.isAlpha = true → c.toUpper.isUpper = true) :=
  forall_isAlphanum (fun c => isSeparator c = false ∧ upper c = [c.toUpper] ∧
    startsIdentifier c.toUpper = !c.isDigit ∧
    (c.toUpper.isAlpha = true → c.toUpper.isUpper = true)) (by decide) h

variable {c d : Char}

theorem lower_of_isAlphanum (h : c.isAlphanum = true) : lower c = [c.toLower] :=
  if_pos (toNat_lt_of_isAlphanum h)

/-- In lower case a letter is a small letter, and a digit stays a digit. -/
theorem toLower_of_isAlphanum (h : c.isAlphanum = true) :
    c.toLower.isAlphanum = true ∧ c.toLower.isDigit = c.isDigit ∧
      (c.isDigit = false → c.toLower.isLower = true) :=
  forall_isAlphanum (fun c => c.toLower.isAlphanum = true ∧ c.toLower.isDigit = c.isDigit ∧
    (c.isDigit = false → c.toLower.isLower = true)) (by decide) h

/-- Nothing but the case of a letter is lost in lower case. -/
theorem toLower_forms (h : c.isAlphanum = true) :
    c.toLower.toLower = c.toLower ∧ c.toUpper.toLower = c.toLower :=
  forall_isAlphanum (fun c => c.toLower.toLower = c.toLower ∧ c.toUpper.toLower = c.toLower)
    (by decide) h

/-- A letter has two cases, and a digit has none. -/
theorem isUpper_or_isLower (h : c.isAlphanum = true) :
    (isUpper c || isLower c) = !c.isDigit :=
  forall_isAlphanum (fun c => (isUpper c || isLower c) = !c.isDigit) (by decide) h

theorem isAlphanum_of_isLower (h : c.isLower = true) : c.isAlphanum = true :=
  Bool.or_eq_true_iff.mpr (.inl (Bool.or_eq_true_iff.mpr (.inr h)))

theorem isAlphanum_of_isDigit (h : c.isDigit = true) : c.isAlphanum = true :=
  Bool.or_eq_true_iff.mpr (.inr h)

/-- A small letter is neither upper case nor a digit. -/
theorem of_isLower (h : c.isLower = true) : isUpper c = false ∧ c.isDigit = false :=
  forall_isAlphanum (fun c => c.isLower = true → isUpper c = false ∧ c.isDigit = false)
    (by decide) (isAlphanum_of_isLower h) h

/-- A digit has no case. -/
theorem of_isDigit (h : c.isDigit = true) : isUpper c = false ∧ isLower c = false := by
  have hcase := isUpper_or_isLower (isAlphanum_of_isDigit h)
  rw [h] at hcase
  exact Bool.or_eq_false_iff.mp hcase

/-- A separator is neither a letter nor a digit. -/
theorem of_isSeparator (h : isSeparator c = true) :
    isUpper c = false ∧ isLower c = false ∧ c.isDigit = false := by
  simp only [isSeparator, Bool.or_eq_true, beq_iff_eq] at h
  rcases h with (rfl | rfl) | rfl <;> decide

/-! ## Cutting -/

/-- The characters of a word are those of the name, without separators. -/
theorem of_mem_cutWords {cs w : List Char} (hw : w ∈ cutWords cs) {c : Char} (hc : c ∈ w) :
    c ∈ cs ∧ isSeparator c = false := by
  induction cs generalizing w with
  | nil =>
      rw [List.mem_singleton.mp hw] at hc
      exact absurd hc List.not_mem_nil
  | cons d cs ih =>
      have hlater : ∀ {w}, w ∈ cutWords cs → c ∈ w → c ∈ d :: cs ∧ isSeparator c = false :=
        fun hw hc => (ih hw hc).imp_left (List.mem_cons_of_mem d)
      rw [cutWords] at hw
      split at hw
      · rcases List.mem_cons.mp hw with rfl | hw
        · exact absurd hc List.not_mem_nil
        · exact hlater hw hc
      · next hd =>
        have hfirst : d ∈ d :: cs ∧ isSeparator d = false :=
          ⟨List.mem_cons_self, Bool.eq_false_iff.mpr hd⟩
        split at hw
        · rw [List.mem_singleton.mp hw] at hc
          rwa [List.mem_singleton.mp hc]
        · next first others hcut =>
          split at hw
          · rcases List.mem_cons.mp hw with rfl | hw
            · rwa [List.mem_singleton.mp hc]
            · exact hlater (hcut ▸ hw) hc
          · rcases List.mem_cons.mp hw with rfl | hw
            · rcases List.mem_cons.mp hc with rfl | hc
              · exact hfirst
              · exact hlater (hcut ▸ List.mem_cons_self) hc
            · exact hlater (hcut ▸ List.mem_cons_of_mem _ hw) hc

/-- The words of a name are its characters without the separators. -/
theorem flatten_cutWords (cs : List Char) :
    (cutWords cs).flatten = cs.filter fun c => !isSeparator c := by
  induction cs with
  | nil => rfl
  | cons c cs ih =>
      rw [cutWords, List.filter_cons]
      cases hseparator : isSeparator c with
      | true => simpa using ih
      | false =>
          cases hcut : cutWords cs with
          | nil =>
              rw [hcut] at ih
              simp [← ih]
          | cons first others =>
              rw [hcut] at ih
              by_cases hends : endsWord c cs = true <;> simp [hends, ← ih]

theorem ne_nil_of_mem_words {s : String} {w : List Char} (hw : w ∈ words s) : w ≠ [] := by
  intro hnil
  have hkept := (List.mem_filter.mp hw).2
  rw [hnil] at hkept
  exact absurd hkept (by simp)

/-- A piece has no character at which the text is cut. -/
theorem eq_false_of_mem_pieces {p : Char → Bool} {cs w : List Char} (hw : w ∈ pieces p cs)
    {c : Char} (hc : c ∈ w) : p c = false := by
  induction cs generalizing w with
  | nil =>
      rw [List.mem_singleton.mp hw] at hc
      exact absurd hc List.not_mem_nil
  | cons d cs ih =>
      rw [pieces] at hw
      split at hw
      · rcases List.mem_cons.mp hw with rfl | hw
        · exact absurd hc List.not_mem_nil
        · exact ih hw hc
      · next hd =>
        split at hw
        · rw [List.mem_singleton.mp hw] at hc
          rw [List.mem_singleton.mp hc]
          exact Bool.eq_false_iff.mpr hd
        · next first others hcut =>
          rcases List.mem_cons.mp hw with rfl | hw
          · rcases List.mem_cons.mp hc with rfl | hc
            · exact Bool.eq_false_iff.mpr hd
            · exact ih (hcut ▸ List.mem_cons_self) hc
          · exact ih (hcut ▸ List.mem_cons_of_mem _ hw) hc

/-- The pieces of a text are its characters without those at which it is cut. -/
theorem flatten_pieces (p : Char → Bool) (cs : List Char) :
    (pieces p cs).flatten = cs.filter fun c => !p c := by
  induction cs with
  | nil => rfl
  | cons c cs ih =>
      rw [pieces, List.filter_cons]
      cases hcut : p c with
      | true => simpa using ih
      | false =>
          cases hpieces : pieces p cs with
          | nil =>
              rw [hpieces] at ih
              simp [← ih]
          | cons first others =>
              rw [hpieces] at ih
              simp [← ih]

/-! ## Putting together -/

theorem forall_mem_intercalate {P : Char → Prop} {separator : String}
    (hseparator : ∀ c ∈ separator.toList, P c) {ss : List String}
    (h : ∀ s ∈ ss, ∀ c ∈ s.toList, P c) : ∀ c ∈ (separator.intercalate ss).toList, P c := by
  induction ss with
  | nil => simp [String.intercalate_nil]
  | cons s rest ih =>
      obtain ⟨hs, hrest⟩ := List.forall_mem_cons.mp h
      cases rest with
      | nil =>
          rw [String.intercalate_singleton]
          exact hs
      | cons next last =>
          rw [String.intercalate_cons_cons, String.toList_append, String.toList_append]
          simp only [List.forall_mem_append]
          exact ⟨⟨hs, hseparator⟩, ih hrest⟩

/-- Characters that are left out of a separator are left out between pieces, too. -/
theorem filter_intercalate {p : Char → Bool} {separator : List Char}
    (h : separator.filter p = []) (ls : List (List Char)) :
    (separator.intercalate ls).filter p = ls.flatten.filter p := by
  induction ls with
  | nil => rfl
  | cons first rest ih =>
      cases rest with
      | nil => simp
      | cons next last =>
          rw [List.intercalate_cons_cons, List.filter_append, List.filter_append, h, ih,
            List.append_nil, ← List.filter_append, ← List.flatten_cons]

theorem mem_forms_of_mem_capitalize {w : List Char} {d : Char} (h : d ∈ capitalize w) :
    ∃ c ∈ w, d ∈ upper c ++ lower c := by
  cases w with
  | nil => exact absurd h List.not_mem_nil
  | cons c w =>
      rcases List.mem_append.mp h with h | h
      · exact ⟨c, List.mem_cons_self, List.mem_append_left _ h⟩
      · obtain ⟨source, hsource, hd⟩ := List.mem_flatMap.mp h
        exact ⟨source, List.mem_cons_of_mem c hsource, List.mem_append_right _ hd⟩

/-- Capitalized words start with the first of their characters, as a capital. -/
theorem head?_flatMap_capitalize {ws : List (List Char)} (hne : ∀ w ∈ ws, w ≠ [])
    (hplain : ∀ c ∈ ws.flatten, c.isAlphanum = true) :
    (ws.flatMap capitalize).head? = ws.flatten.head?.map Char.toUpper := by
  cases ws with
  | nil => rfl
  | cons w ws =>
      cases w with
      | nil => exact absurd rfl (hne [] List.mem_cons_self)
      | cons c w =>
          have hc : c.isAlphanum = true := hplain c (by simp)
          rw [List.flatMap_cons, capitalize, (alphanumForms hc).2.1]
          rfl

theorem lowerWord_of_isAlphanum {w : List Char} (h : ∀ c ∈ w, c.isAlphanum = true) :
    lowerWord w = w.map Char.toLower := by
  rw [lowerWord, List.flatMap_congr fun c hc => lower_of_isAlphanum (h c hc), List.map_eq_flatMap]

/-- Up to case, capitalizing changes nothing. -/
theorem map_toLower_capitalize {w : List Char} (h : ∀ c ∈ w, c.isAlphanum = true) :
    (capitalize w).map Char.toLower = w.map Char.toLower := by
  cases w with
  | nil => rfl
  | cons c rest =>
      obtain ⟨hc, hrest⟩ := List.forall_mem_cons.mp h
      rw [capitalize, (alphanumForms hc).2.1, lowerWord_of_isAlphanum hrest, List.map_append,
        List.map_singleton, (toLower_forms hc).2, List.map_map, List.map_cons,
        List.singleton_append]
      congr 1
      exact List.map_congr_left fun d hd => (toLower_forms (hrest d hd)).1

/-! ## Words of one kind -/

/-- A word ends where letters and digits meet. -/
theorem endsWord_of_isDigit_ne (hc : c.isAlphanum = true) (hd : d.isAlphanum = true)
    (h : c.isDigit ≠ d.isDigit) (rest : List Char) : endsWord c (d :: rest) = true := by
  have hcase := isUpper_or_isLower hc
  have hcase' := isUpper_or_isLower hd
  rw [endsWord]
  cases hdigit : c.isDigit <;> cases hdigit' : d.isDigit <;> grind

/-- A first word that is not empty starts with the first character of the text. -/
theorem exists_head_of_cutWords {cs w : List Char} {ws : List (List Char)}
    (h : cutWords cs = w :: ws) (hne : w ≠ []) : ∃ d rest, cs = d :: rest ∧ d ∈ w := by
  cases cs with
  | nil => exact absurd (List.cons.inj h).1.symm hne
  | cons d rest =>
      refine ⟨d, rest, rfl, ?_⟩
      rw [cutWords] at h
      split at h
      · exact absurd (List.cons.inj h).1.symm hne
      · split at h
        · exact (List.cons.inj h).1 ▸ List.mem_singleton_self d
        · split at h <;> exact (List.cons.inj h).1 ▸ List.mem_cons_self

/-- **A word has letters alone or digits alone**, if there is nothing else but separators. -/
theorem isDigit_eq_of_mem_cutWords {cs : List Char}
    (h : ∀ c ∈ cs, isSeparator c = true ∨ c.isAlphanum = true) {w : List Char}
    (hw : w ∈ cutWords cs) : ∀ c ∈ w, ∀ d ∈ w, c.isDigit = d.isDigit := by
  induction cs generalizing w with
  | nil => simp [List.mem_singleton.mp hw]
  | cons a cs ih =>
      obtain ⟨ha, hcs⟩ := List.forall_mem_cons.mp h
      rw [cutWords] at hw
      split at hw
      · rcases List.mem_cons.mp hw with rfl | hw
        · simp
        · exact ih hcs hw
      · next hseparator =>
        split at hw
        · simp [List.mem_singleton.mp hw]
        · next first others hcut =>
          split at hw
          · rcases List.mem_cons.mp hw with rfl | hw
            · simp
            · exact ih hcs (hcut ▸ hw)
          · next hends =>
            rcases List.mem_cons.mp hw with rfl | hw
            · -- The first word goes on after `a`, so `a` is of the kind of the next character.
              have hsame : ∀ x ∈ first, x.isDigit = a.isDigit := by
                intro x hx
                obtain ⟨b, rest, rfl, hb⟩ :=
                  exists_head_of_cutWords hcut (List.ne_nil_of_mem hx)
                have hfirst : first ∈ cutWords (b :: rest) := hcut ▸ List.mem_cons_self
                have hb' : isSeparator b ≠ true := by
                  simp [(of_mem_cutWords hfirst hb).2]
                have hplain := (hcs b List.mem_cons_self).resolve_left hb'
                rw [ih hcs hfirst x hx b hb]
                by_contra hne
                exact hends (endsWord_of_isDigit_ne (ha.resolve_left hseparator) hplain
                  (Ne.symm hne) rest)
              have hall : ∀ x ∈ a :: first, x.isDigit = a.isDigit :=
                List.forall_mem_cons.mpr ⟨rfl, hsame⟩
              intro c hc d hd
              exact (hall c hc).trans (hall d hd).symm
            · exact ih hcs (hcut ▸ List.mem_cons_of_mem _ hw)

/-! ## Groups -/

/-- Small letters alone, or digits alone. -/
def OneKind (g : List Char) : Prop :=
  (∀ c ∈ g, c.isLower = true) ∨ ∀ c ∈ g, c.isDigit = true

/-- Small letters alone, or digits alone, and at least one of them. -/
def IsGroup (g : List Char) : Prop :=
  g ≠ [] ∧ OneKind g

/-- A word in lower case is a group. -/
theorem isGroup_lowerWord {w : List Char} (hne : w ≠ []) (hplain : ∀ c ∈ w, c.isAlphanum = true)
    (hkind : ∀ c ∈ w, ∀ d ∈ w, c.isDigit = d.isDigit) : IsGroup (lowerWord w) := by
  rw [lowerWord_of_isAlphanum hplain]
  refine ⟨by simpa using hne, ?_⟩
  obtain ⟨c, rest, rfl⟩ := List.exists_cons_of_ne_nil hne
  cases hdigit : c.isDigit with
  | true =>
      refine .inr (List.forall_mem_map.mpr fun d hd => ?_)
      rw [(toLower_of_isAlphanum (hplain d hd)).2.1, hkind d hd c List.mem_cons_self, hdigit]
  | false =>
      refine .inl (List.forall_mem_map.mpr fun d hd => ?_)
      apply (toLower_of_isAlphanum (hplain d hd)).2.2
      rw [hkind d hd c List.mem_cons_self, hdigit]

theorem OneKind.tail {g : List Char} (h : OneKind (c :: g)) : OneKind g :=
  h.imp (fun h => (List.forall_mem_cons.mp h).2) fun h => (List.forall_mem_cons.mp h).2

theorem OneKind.isAlphanum {g : List Char} (h : OneKind g) : ∀ c ∈ g, c.isAlphanum = true := by
  intro c hc
  rcases h with hletters | hdigits
  · exact isAlphanum_of_isLower (hletters c hc)
  · exact isAlphanum_of_isDigit (hdigits c hc)

theorem OneKind.lowerWord_eq {g : List Char} (h : OneKind g) : lowerWord g = g := by
  rw [lowerWord_of_isAlphanum h.isAlphanum]
  have hsmall : ∀ c ∈ g, c.toLower = id c := by
    intro c hc
    have hkind : c.isLower = true ∨ c.isDigit = true := h.imp (fun h => h c hc) fun h => h c hc
    exact forall_isAlphanum (fun c => c.isLower = true ∨ c.isDigit = true → c.toLower = c)
      (by decide) (h.isAlphanum c hc) hkind
  rw [List.map_congr_left hsmall, List.map_id]

/-- No word ends after a small letter or a digit that another of its kind or a separator
follows. -/
theorem OneKind.endsWord_eq_false {g : List Char} (h : OneKind (c :: g)) (rest : List Char)
    (hrest : ∀ s ∈ rest.head?, isSeparator s = true) : endsWord c (g ++ rest) = false := by
  cases g with
  | cons d g =>
      rw [List.cons_append, endsWord]
      rcases h with hletters | hdigits
      · have hc := of_isLower (hletters c (by simp))
        have hd := of_isLower (hletters d (by simp))
        simp [hc, hd]
      · have hc := of_isDigit (hdigits c (by simp))
        have hd := of_isDigit (hdigits d (by simp))
        simp [hc, hd]
  | nil =>
      cases rest with
      | nil => rfl
      | cons s rest =>
          have hs := of_isSeparator (hrest s rfl)
          rw [List.nil_append, endsWord]
          simp [hs]

/-- A group is not cut. -/
theorem OneKind.cutWords_eq {g : List Char} (h : OneKind g) : cutWords g = [g] := by
  induction g with
  | nil => rfl
  | cons c g ih =>
      have hends := h.endsWord_eq_false [] (by simp)
      rw [List.append_nil] at hends
      rw [cutWords, ih h.tail]
      simp [hends, (alphanumForms (h.isAlphanum c List.mem_cons_self)).1]

/-- A group before a separator is the first word. -/
theorem OneKind.cutWords_append {g : List Char} (h : OneKind g) {s : Char}
    (hs : isSeparator s = true) (rest : List Char) :
    cutWords (g ++ s :: rest) = g :: cutWords rest := by
  induction g with
  | nil => simp [cutWords, hs]
  | cons c g ih =>
      have hends := h.endsWord_eq_false (s :: rest) (by simpa using hs)
      rw [List.cons_append, cutWords, ih h.tail]
      simp [hends, (alphanumForms (h.isAlphanum c List.mem_cons_self)).1]

theorem pieces_eq {p : Char → Bool} {w : List Char} (h : ∀ c ∈ w, p c = false) :
    pieces p w = [w] := by
  induction w with
  | nil => rfl
  | cons c w ih =>
      obtain ⟨hc, hw⟩ := List.forall_mem_cons.mp h
      simp [pieces, hc, ih hw]

theorem pieces_append {p : Char → Bool} {w : List Char} (h : ∀ c ∈ w, p c = false) {s : Char}
    (hs : p s = true) (rest : List Char) : pieces p (w ++ s :: rest) = w :: pieces p rest := by
  induction w with
  | nil => simp [pieces, hs]
  | cons c w ih =>
      obtain ⟨hc, hw⟩ := List.forall_mem_cons.mp h
      simp [pieces, hc, ih hw]

/-- **Groups that are joined are found again** by a function that does not cut them and cuts after
the first of them. -/
theorem filter_cut_intercalate {cut : List Char → List (List Char)} {s : Char}
    {groups : List (List Char)} (hne : ∀ g ∈ groups, g ≠ []) (hempty : cut [] = [[]])
    (hlast : ∀ g ∈ groups, cut g = [g])
    (hfirst : ∀ g ∈ groups, ∀ rest, cut (g ++ s :: rest) = g :: cut rest) :
    ((cut ([s].intercalate groups)).filter fun w => !w.isEmpty) = groups := by
  induction groups with
  | nil => simp [hempty]
  | cons g groups ih =>
      obtain ⟨hg, hgroups⟩ := List.forall_mem_cons.mp hne
      obtain ⟨hcut, hcuts⟩ := List.forall_mem_cons.mp hlast
      obtain ⟨hbefore, hbefores⟩ := List.forall_mem_cons.mp hfirst
      cases groups with
      | nil => simp [hcut, hg]
      | cons next others =>
          rw [List.intercalate_cons_cons, List.append_assoc, List.singleton_append, hbefore,
            List.filter_cons_of_pos (by simpa using hg), ih hgroups hcuts hbefores]

end ViewGen.Text
