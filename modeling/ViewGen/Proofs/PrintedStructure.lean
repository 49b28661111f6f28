import ViewGen.Proofs.PrintedTokens

/-!
# Printed expressions keep their structure

The text of an expression is read as the same expression, with chains of one connective nested to
the left.

## Main definitions

* `Reading.readRank` — reading at a level of precedence that is given by its rank
* `Reading.JoinsOn` — items that go on with a chain of a connective
* `Reading.Reads` — a text whose items are a tree at a level
* `Expr.ReadsAs` — the text of an expression is read as a tree

## Main statements

* `readRank_of_le` — items without loose operators are read alike at all loose levels
* `Reads.enclose`, `Reads.access`, `Reads.not`, `Reads.compare`, `Reads.logical` — the text of each
  kind of expression, from the texts of its parts
* `Expr.readsAs_of_tree?` — the text of an expression is read at the level of the expression
* `printed_expression_reads_back` — the text of an expression is read as its tree

## Design notes

An operand may be printed without parentheses in two cases.  Either it hangs together more strongly
than its place asks for, and has no operator that the level of its place looks for; or both are
chains of the same connective, and the longer chain is cut at the signs of both.  The second case is
the only one where the tree changes.
-/

namespace ViewGen

namespace Reading

/-! ## Parts between signs -/

section Cut

variable {α β : Type} {sign? : α → Option β}

theorem cut_eq_self {xs : List α} (h : ∀ x ∈ xs, sign? x = none) : cut sign? xs = (xs, []) := by
  induction xs with
  | nil => rfl
  | cons x xs ih =>
      obtain ⟨hx, hxs⟩ := List.forall_mem_cons.mp h
      simp only [cut, ih hxs, hx]

theorem cut_append {x : α} {sign : β} (h : sign? x = some sign) (xs ys : List α) :
    cut sign? (xs ++ x :: ys) =
      ((cut sign? xs).1, (cut sign? xs).2 ++ (sign, (cut sign? ys).1) :: (cut sign? ys).2) := by
  induction xs with
  | nil => simp only [List.nil_append, cut, h]
  | cons y xs ih =>
      rw [List.cons_append]
      simp only [cut, ih]
      cases sign? y <;> rfl

end Cut

section Joined

variable {β : Type} {sign? : Item → Option β} {join : β → Tree → Tree → Tree}
  {part : List Item → Option Tree}

theorem joinParts_append (left : Tree) (ps qs : List (β × List Item)) :
    joinParts join part left (ps ++ qs) =
      (joinParts join part left ps).bind fun t => joinParts join part t qs := by
  induction ps generalizing left with
  | nil => rfl
  | cons p ps ih =>
      rw [List.cons_append, joinParts, joinParts]
      cases part p.2 with
      | none => rfl
      | some right => exact ih _

/-- Items without signs are a single part. -/
theorem readJoined_eq_part {is : List Item} (h : ∀ i ∈ is, sign? i = none) :
    readJoined sign? join part is = part is := by
  rw [readJoined, cut_eq_self h]
  simp [joinParts]

/-- The part after the last sign is joined to what stands before it. -/
theorem readJoined_append {i : Item} {sign : β} (h : sign? i = some sign) (is : List Item)
    {js : List Item} (hjs : ∀ j ∈ js, sign? j = none) :
    readJoined sign? join part (is ++ i :: js) =
      (readJoined sign? join part is).bind fun left =>
        (part js).map fun right => join sign left right := by
  rw [readJoined, cut_append h, cut_eq_self hjs, readJoined]
  simp only [joinParts_append, Option.bind_assoc]
  congr
  funext first
  congr
  funext left
  simp only [joinParts]
  cases part js <;> rfl

end Joined

/-! ## Levels -/

/-- The rank of the level that an item belongs to. -/
def Item.rank : Item → Nat
  | .lexeme .comma => Strength.arrow.rank
  | .lexeme (.connective connective) => connective.strength.rank
  | .lexeme (.comparison _) => Strength.comparison.rank
  | .lexeme .not => Strength.unary.rank
  | _ => Strength.primary.rank

/-- Read at the level with a rank. -/
def readRank : Nat → List Item → Option Tree
  | 0 | 1 => readOr
  | 2 => readAnd
  | 3 => readComparison
  | 4 => readNot
  | _ => readAccess

theorem connective?_eq_none {c : Connective} {i : Item} (h : c.strength.rank < i.rank) :
    i.connective? c = none := by
  unfold Item.connective?
  split
  · next found =>
    refine if_neg fun heq => ?_
    subst heq
    exact absurd h (Nat.lt_irrefl _)
  · rfl

theorem comparison?_eq_none {i : Item} (h : Strength.comparison.rank < i.rank) :
    i.comparison? = none := by
  unfold Item.comparison?
  split
  · exact absurd h (Nat.lt_irrefl _)
  · rfl

theorem comma?_eq_none {i : Item} (h : 0 < i.rank) : i.comma? = none := by
  unfold Item.comma?
  split
  · exact absurd h (Nat.lt_irrefl _)
  · rfl

theorem readNot_eq_readAccess {is : List Item} (h : ∀ i ∈ is, Strength.unary.rank < i.rank) :
    readNot is = readAccess is := by
  unfold readNot
  split
  · exact absurd (h _ List.mem_cons_self) (Nat.lt_irrefl _)
  · rfl

theorem readRank_connective (c : Connective) :
    readRank c.strength.rank =
      readJoined (Item.connective? c) .logical (readRank (c.strength.rank + 1)) := by
  cases c <;> rfl

/-- Items without the operators of a level are read at the next one. -/
theorem readRank_succ {n : Nat} {is : List Item} (h : ∀ i ∈ is, n < i.rank) :
    readRank n is = readRank (n + 1) is := by
  match n with
  | 0 => rfl
  | 1 => exact readJoined_eq_part fun i hi => connective?_eq_none (c := .or) (h i hi)
  | 2 => exact readJoined_eq_part fun i hi => connective?_eq_none (c := .and) (h i hi)
  | 3 => exact readJoined_eq_part fun i hi => comparison?_eq_none (h i hi)
  | 4 => exact readNot_eq_readAccess h
  | n + 5 => rfl

/-- **Items without loose operators are read alike at all loose levels.** -/
theorem readRank_of_le {least rank : Nat} (hle : least ≤ rank) {is : List Item}
    (h : ∀ i ∈ is, rank ≤ i.rank) : readRank least is = readRank rank is := by
  induction hle with
  | refl => rfl
  | step _ ih =>
      rw [ih fun i hi => Nat.le_of_lt (h i hi), readRank_succ h]

theorem readRank_nil (n : Nat) : readRank n [] = none := by
  rw [readRank_of_le (Nat.le_add_right n 5) (by simp)]
  rfl

/-! ## Chains -/

/-- Items that go on with a chain: put after a chain and its connective, they are attached to it. -/
def JoinsOn (c : Connective) (is : List Item) (t : Tree) : Prop :=
  ∀ before left, readRank c.strength.rank before = some left →
    readRank c.strength.rank (before ++ .lexeme (.connective c) :: is) = some (left.attach c t)

theorem connective?_self (c : Connective) :
    Item.connective? c (.lexeme (.connective c)) = some c :=
  if_pos rfl

/-- A part without the connective goes on with a chain when its tree is no chain itself. -/
theorem joinsOn_of_single {c : Connective} {is : List Item} {t : Tree}
    (hrank : ∀ i ∈ is, c.strength.rank < i.rank)
    (hread : readRank (c.strength.rank + 1) is = some t) (hsingle : t.Single c) :
    JoinsOn c is t := by
  intro before left hleft
  rw [readRank_connective] at hleft ⊢
  rw [readJoined_append (connective?_self c) before fun i hi => connective?_eq_none (hrank i hi),
    hleft, Option.bind_some, hread, Option.map_some, hsingle]

/-- Two parts that go on with a chain do so one after the other. -/
theorem JoinsOn.append {c : Connective} {is js : List Item} {s t : Tree} (h : JoinsOn c is s)
    (h' : JoinsOn c js t) : JoinsOn c (is ++ .lexeme (.connective c) :: js) (s.attach c t) := by
  intro before left hleft
  have hboth := h' _ _ (h before left hleft)
  rw [List.append_assoc, List.cons_append] at hboth
  rw [hboth, Tree.attach_attach]

/-! ## Texts that are read as trees -/

/-- A text whose items are read as a tree at a level, and at no looser level as anything else. -/
structure Reads (rank : Nat) (number : Bool) (x : List Char) (is : List Item) (t : Tree) :
    Prop where
  passes : Passes number x is
  -- An equals sign would make a comparison of a negation before it.
  starts : ∃ c ∈ x.head?, c ≠ '='
  pos : 0 < rank
  rank_le : ∀ i ∈ is, rank ≤ i.rank
  read : readRank rank is = some t
  joins : ∀ c : Connective, c.strength.rank = rank → JoinsOn c is t

section Reads

variable {rank : Nat} {number : Bool} {x y : List Char} {is js : List Item} {s t : Tree}

theorem strength_rank_lt (c : Connective) : c.strength.rank < Strength.comparison.rank := by
  cases c <;> decide

/-- Only the texts of chains have to go on with chains. -/
theorem Reads.of_comparison_le (hpasses : Passes number x is) (hstarts : ∃ c ∈ x.head?, c ≠ '=')
    (hle : Strength.comparison.rank ≤ rank) (hrank : ∀ i ∈ is, rank ≤ i.rank)
    (hread : readRank rank is = some t) : Reads rank number x is t where
  passes := hpasses
  starts := hstarts
  pos := Nat.lt_of_lt_of_le (by decide) hle
  rank_le := hrank
  read := hread
  joins c hc := by
    have hlt := strength_rank_lt c
    omega

theorem Reads.mono {number' : Bool} (h : Reads rank number x is t)
    (hle : number = true → number' = true) : Reads rank number' x is t where
  __ := h
  passes := h.passes.mono hle

/-- A text that is read at a level is read at looser ones. -/
theorem Reads.weaken (h : Reads rank number x is t) {least : Nat} (hpos : 0 < least)
    (hle : least ≤ rank)
    (hsingle : least < rank → ∀ c : Connective, c.strength.rank = least → t.Single c) :
    Reads least number x is t where
  passes := h.passes
  starts := h.starts
  pos := hpos
  rank_le i hi := Nat.le_trans hle (h.rank_le i hi)
  read := (readRank_of_le hle h.rank_le).trans h.read
  joins c hc := by
    rcases Nat.lt_or_eq_of_le hle with hlt | rfl
    -- The items have no sign of a looser level, so they are a single part of a chain there.
    · subst hc
      refine joinsOn_of_single (fun i hi => Nat.lt_of_lt_of_le hlt (h.rank_le i hi)) ?_
        (hsingle hlt c rfl)
      exact (readRank_of_le hlt h.rank_le).trans h.read
    · exact h.joins c hc

theorem Reads.ne_nil (h : Reads rank number x is t) : is ≠ [] := by
  rintro rfl
  exact absurd h.read (by simp [readRank_nil])

theorem Reads.readOr (h : Reads rank number x is t) : readOr is = some t :=
  (readRank_of_le (show 1 ≤ rank from h.pos) h.rank_le).trans h.read

theorem Reads.comma?_eq_none (h : Reads rank number x is t) : ∀ i ∈ is, i.comma? = none :=
  fun i hi => Reading.comma?_eq_none (Nat.lt_of_lt_of_le h.pos (h.rank_le i hi))

/-! ### Items and groups -/

theorem Reads.readGroup (h : Reads rank number x is t) : readGroup is = some [t] := by
  rw [Reading.readGroup, if_neg (by simp [h.ne_nil]), cut_eq_self h.comma?_eq_none]
  simp [h.readOr]

theorem Reads.readGroup_append (h : Reads rank number x is t) (hjs : js ≠ []) {ts : List Tree}
    (hgroup : Reading.readGroup js = some ts) :
    Reading.readGroup (is ++ .lexeme .comma :: js) = some (t :: ts) := by
  rw [Reading.readGroup, if_neg (by simp [hjs])] at hgroup
  have hcomma : Item.comma? (.lexeme .comma) = some () := rfl
  rw [Reading.readGroup, if_neg (by simp), cut_append hcomma, cut_eq_self h.comma?_eq_none,
    List.nil_append, List.map_cons, List.mapM_cons, hgroup, h.readOr]
  rfl

/-- A text that stands by itself, as an item with a tree. -/
theorem reads_primary {i : Item} (hpasses : Passes number x [i])
    (hstarts : ∃ c ∈ x.head?, c ≠ '=') (hrank : i.rank = Strength.primary.rank)
    (htree : i.primary? = some t) : Reads Strength.primary.rank number x [i] t := by
  refine .of_comparison_le hpasses hstarts (by decide) ?_ ?_
  · intro j hj
    rw [List.mem_singleton.mp hj, hrank]
  · show (i.primary?).bind (fun tree => readAccessors tree []) = some t
    rw [htree]
    rfl

/-- A name is read as a name, unless it is a word for a value. -/
theorem reads_word {name : String} (h : isIdentifier name = true)
    (hvalue : valueWords.contains name = false) :
    Reads Strength.primary.rank false name.toList [.lexeme (.word name)] (.name name) := by
  have hne : name ≠ "true" ∧ name ≠ "false" ∧ name ≠ "null" := by
    simpa [valueWords] using hvalue
  refine reads_primary (passes_word h) ?_ rfl ?_
  · obtain ⟨c, cs, hname, hstarts, -⟩ := Literal.exists_cons_of_isIdentifier h
    refine ⟨c, by rw [hname]; rfl, ?_⟩
    rintro rfl
    exact absurd hstarts (by decide)
  · unfold Item.primary?
    split <;> simp_all

theorem reads_number {x : Float} (hnan : x.isNaN = false) (hinf : x.isInf = false) :
    Reads Strength.primary.rank true (Number.text x).toList [.lexeme (.number (Number.text x))]
      (.number (Number.text x)) := by
  refine reads_primary (passes_number hnan hinf) ?_ rfl rfl
  obtain ⟨u, hu, htext | htext⟩ := exists_isUnsigned_text hnan hinf
  · obtain ⟨d, ds, hcons, hd⟩ := hu.exists_cons
    refine ⟨d, by rw [htext, hcons]; rfl, ?_⟩
    rintro rfl
    exact absurd hd (by decide)
  · exact ⟨'-', by rw [htext, String.toList_append]; rfl, by decide⟩

theorem reads_quote (asciiOnly : Bool) (s : String) :
    Reads Strength.primary.rank false (Literal.quote asciiOnly s).toList [.lexeme (.literal s)]
      (.literal s) := by
  have hhead : (Literal.quote asciiOnly s).toList.head? = some '\'' := by
    rw [Literal.quote, String.toList_ofList]
    rfl
  exact reads_primary (passes_quote asciiOnly s) ⟨'\'', hhead, by decide⟩ rfl rfl

/-- A text in parentheses is read at every level. -/
theorem Reads.enclose (h : Reads rank number x is t) {least : Nat} (hpos : 0 < least)
    (hle : least ≤ Strength.primary.rank)
    (hsingle : ∀ c : Connective, c.strength.rank = least → t.Single c) :
    Reads least false ('(' :: (x ++ [')'])) [.group .round [t]] t := by
  have hpasses := h.passes.enclose h.readGroup .round
  exact (reads_primary hpasses ⟨'(', rfl, by decide⟩ rfl rfl).weaken hpos hle fun _ => hsingle

theorem exists_head_append (h : ∃ c ∈ x.head?, c ≠ '=') (y : List Char) :
    ∃ c ∈ (x ++ y).head?, c ≠ '=' := by
  obtain ⟨c, hc, hne⟩ := h
  exact ⟨c, by rw [List.head?_append, Option.mem_def.mp hc]; rfl, hne⟩

/-! ### Accesses -/

theorem readAccessors_append {object : Tree} (h : readAccessors object is = some t)
    (js : List Item) : readAccessors object (is ++ js) = readAccessors t js := by
  fun_induction readAccessors object is with
  | case1 object => rw [Option.some.inj h, List.nil_append]
  | case2 object property rest ih =>
      rw [List.cons_append, List.cons_append, readAccessors, ih h]
  | case3 object property rest ih => rw [List.cons_append, readAccessors, ih h]
  | case4 callee arguments rest ih => rw [List.cons_append, readAccessors, ih h]
  | case5 => exact absurd h (by simp)

theorem readAccess_append (h : readAccess is = some t) (js : List Item) :
    readAccess (is ++ js) = readAccessors t js := by
  cases is with
  | nil => exact absurd h (by simp [readAccess])
  | cons i is =>
      obtain ⟨object, hobject, haccessors⟩ := Option.bind_eq_some_iff.mp h
      rw [List.cons_append, readAccess, hobject, Option.bind_some, readAccessors_append haccessors]

/-- Member accesses and calls after a text. -/
theorem Reads.access (h : Reads Strength.member.rank number x is s) {c : Char}
    (hc : extendsToken number c = false) (hpasses : Passes false (c :: y) js)
    (hrank : ∀ j ∈ js, Strength.member.rank ≤ j.rank) (hread : readAccessors s js = some t) :
    Reads Strength.member.rank false (x ++ c :: y) (is ++ js) t := by
  refine .of_comparison_le (h.passes.append hc hpasses) (exists_head_append h.starts _) (by decide)
    ?_ ?_
  · exact List.forall_mem_append.mpr ⟨h.rank_le, hrank⟩
  · exact (readAccess_append h.read js).trans hread

/-- A group after a text is a key of it, or its arguments. -/
theorem Reads.access_group {number' : Bool} {ts : List Tree} (b : Bracket)
    (h : Reads Strength.member.rank number x is s) (hpasses : Passes number' y js)
    (hgroup : Reading.readGroup js = some ts) (hread : readAccessors s [.group b ts] = some t) :
    Reads Strength.member.rank false (x ++ b.first :: (y ++ [b.second])) (is ++ [.group b ts])
      t := by
  have hfirst : extendsToken number b.first = false := by
    cases b <;> cases number <;> decide
  exact h.access hfirst (hpasses.enclose hgroup b)
    (List.forall_mem_singleton.mpr (show 5 ≤ 6 by decide)) hread

theorem Reads.member_word (h : Reads Strength.member.rank false x is s) {property : String}
    (hproperty : isIdentifier property = true) :
    Reads Strength.member.rank false (x ++ '.' :: property.toList)
      (is ++ [.lexeme .dot, .lexeme (.word property)]) (.member s property) := by
  have hdot := (passes_word hproperty).lexeme (c := '.') (x := []) rfl fun _ => rfl
  exact h.access rfl hdot (by simp [Item.rank, Strength.rank]) rfl

/-! ### Operators -/

theorem Reads.not (h : Reads Strength.unary.rank number x is t) :
    Reads Strength.unary.rank number ('!' :: x) (.lexeme .not :: is) (.not t) := by
  have htoken : ∀ rest, tokenAt? '!' ([] ++ (x ++ rest)) = some (.lexeme .not, 0) := by
    intro rest
    obtain ⟨c, hc, hne⟩ := h.starts
    obtain ⟨cs, rfl⟩ := List.head?_eq_some_iff.mp hc
    show signAt? '!' (c :: (cs ++ rest)) = _
    rw [signAt?]
    exact fun tail heq => hne (List.cons.inj heq).1
  refine .of_comparison_le (h.passes.lexeme rfl htoken) ⟨'!', rfl, by decide⟩ (by decide) ?_ ?_
  · exact List.forall_mem_cons.mpr ⟨Nat.le_refl _, h.rank_le⟩
  · show (readRank Strength.unary.rank is).map Tree.not = _
    rw [h.read, Option.map_some]

/-- The sign of an operator, which is a token of its own before a blank. -/
def IsSign (sign : String) (l : Lexeme) : Prop :=
  ∃ c z, sign.toList = c :: z ∧ Json.isGap c = false ∧
    ∀ rest, tokenAt? c (z ++ ' ' :: rest) = some (.lexeme l, z.length)

theorem isSign_comparison (comparison : Comparison) :
    IsSign comparison.sign (.comparison comparison) := by
  cases comparison <;> exact ⟨_, _, rfl, rfl, fun _ => rfl⟩

theorem isSign_connective (c : Connective) : IsSign c.sign (.connective c) := by
  cases c <;> exact ⟨_, _, rfl, rfl, fun _ => rfl⟩

/-- The tokens of two operands with a sign between them. -/
theorem Reads.passes_operator {number' : Bool} {sign : String} {l : Lexeme}
    (h : Reads rank number x is s) (hsign : IsSign sign l) (h' : Passes number' y js) :
    Passes number' (x ++ ' ' :: (sign.toList ++ ' ' :: y)) (is ++ .lexeme l :: js) := by
  obtain ⟨c, z, hchars, hgap, htoken⟩ := hsign
  have hblank : extendsToken number ' ' = false := by
    cases number <;> decide
  rw [hchars]
  exact h.passes.append hblank (h'.blank.lexeme hgap fun rest => htoken _).blank

/-- A comparison of operands that hang together more strongly. -/
theorem Reads.compare {number' : Bool} (comparison : Comparison)
    (h : Reads Strength.unary.rank number x is s) (h' : Reads Strength.unary.rank number' y js t) :
    Reads Strength.comparison.rank number' (x ++ ' ' :: (comparison.sign.toList ++ ' ' :: y))
      (is ++ .lexeme (.comparison comparison) :: js) (.compare comparison s t) := by
  have hnone : ∀ {ks : List Item}, (∀ k ∈ ks, Strength.unary.rank ≤ k.rank) →
      ∀ k ∈ ks, k.comparison? = none := fun hks k hk => comparison?_eq_none (hks k hk)
  have hleft : readJoined Item.comparison? .compare readNot is = some s :=
    (readJoined_eq_part (hnone h.rank_le)).trans h.read
  have hright : readNot js = some t := h'.read
  refine .of_comparison_le (h.passes_operator (isSign_comparison comparison) h'.passes)
    (exists_head_append h.starts _) (Nat.le_refl _) ?_ ?_
  · refine List.forall_mem_append.mpr ⟨fun i hi => Nat.le_of_lt (h.rank_le i hi), ?_⟩
    exact List.forall_mem_cons.mpr ⟨Nat.le_refl _, fun j hj => Nat.le_of_lt (h'.rank_le j hj)⟩
  · show readJoined Item.comparison? .compare readNot _ = _
    rw [readJoined_append (show Item.comparison? _ = some comparison from rfl) is
      (hnone h'.rank_le), hleft, Option.bind_some, hright, Option.map_some]

/-- A chain of operands that are chains of the same connective or hang together more strongly. -/
theorem Reads.logical {number' : Bool} (c : Connective)
    (h : Reads c.strength.rank number x is s) (h' : Reads c.strength.rank number' y js t) :
    Reads c.strength.rank number' (x ++ ' ' :: (c.sign.toList ++ ' ' :: y))
      (is ++ .lexeme (.connective c) :: js) (s.attach c t) where
  passes := h.passes_operator (isSign_connective c) h'.passes
  starts := exists_head_append h.starts _
  pos := h.pos
  rank_le := List.forall_mem_append.mpr
    ⟨h.rank_le, List.forall_mem_cons.mpr ⟨Nat.le_refl _, h'.rank_le⟩⟩
  read := h'.joins c rfl is s h.read
  joins d hd := by
    -- Two connectives of one level are the same, and both operands go on with its chains.
    obtain rfl : d = c := by
      revert hd
      cases d <;> cases c <;> decide
    exact (h.joins d rfl).append (h'.joins d rfl)

/-! ### Lists -/

/-- Texts with commas between them are read one by one. -/
theorem exists_passes_intercalate {texts : List String} {ts : List Tree}
    (h : List.Forall₂ (fun text t => ∃ rank number is, Reads rank number text.toList is t) texts
      ts) :
    ∃ is, Passes true (", ".intercalate texts).toList is ∧ Reading.readGroup is = some ts := by
  induction h with
  | nil => exact ⟨[], passes_nil true, rfl⟩
  | @cons text t texts ts hfirst hrest ih =>
      obtain ⟨rank, number, is, hreads⟩ := hfirst
      cases hrest with
      | nil =>
          rw [String.intercalate_singleton]
          exact ⟨is, hreads.passes.mono fun _ => rfl, hreads.readGroup⟩
      | @cons next u texts ts hnext hlast =>
          obtain ⟨js, hpasses, hgroup⟩ := ih
          have hjs : js ≠ [] := by
            rintro rfl
            exact absurd hgroup (by simp [Reading.readGroup])
          have hcomma : extendsToken number ',' = false := by
            cases number <;> decide
          refine ⟨is ++ .lexeme .comma :: js, ?_, hreads.readGroup_append hjs hgroup⟩
          rw [String.intercalate_cons_cons, String.toList_append, String.toList_append,
            List.append_assoc]
          exact hreads.passes.append hcomma (hpasses.blank.lexeme (x := []) rfl fun _ => rfl)

end Reads

end Reading

/-! ## Printed expressions -/

open Reading

/-- Chains are the trees of chains. -/
theorem Expr.strength_of_tree?_logical {e : Expr} {c : Connective} {l r : Tree}
    (h : e.tree? = some (.logical c l r)) : e.strength = c.strength := by
  cases e with
  | logical d left right =>
      obtain ⟨_, _, hright⟩ := Option.bind_eq_some_iff.mp h
      obtain ⟨_, _, heq⟩ := Option.map_eq_some_iff.mp hright
      rw [Expr.strength, (Tree.logical.inj heq).1]
  | _ => simp [Expr.tree?, Option.bind_eq_some_iff] at h

/-- An expression that is no chain of a connective has no such chain for a tree. -/
theorem Expr.single_of_tree? {e : Expr} {t : Tree} (h : e.tree? = some t) {c : Connective}
    (hc : c.strength.rank ≠ e.strength.rank) : t.leftNested.Single c := by
  cases t with
  | logical d l r =>
      have hne : d ≠ c := by
        rintro rfl
        exact hc (by rw [Expr.strength_of_tree?_logical h])
      obtain ⟨first, last, hchain⟩ := Tree.exists_attach_eq d l.leftNested r.leftNested
      rw [Tree.leftNested, hchain]
      exact Tree.single_logical hne first last
  | _ => exact fun _ => rfl

/-- Whether the text of an operand may end in a number. -/
def mayEndInNumber (e : Expr) (rank : Nat) : Bool :=
  e.isNumber || decide (rank < Strength.member.rank)

/-- An operand is read as it is at the level of its place, in parentheses if need be. -/
theorem exists_reads_parenthesize {e : Expr} {t : Tree} {text : String} (htree : e.tree? = some t)
    (h : ∃ is, Reads e.strength.rank (mayEndInNumber e e.strength.rank) text.toList is t.leftNested)
    (least : Strength) (hpos : 0 < least.rank) :
    ∃ is, Reads least.rank (mayEndInNumber e least.rank) (parenthesize least e text).toList is
      t.leftNested := by
  obtain ⟨is, h⟩ := h
  unfold parenthesize
  split
  · next hlt =>
    -- In parentheses, the operand may be any chain but one of the level that it stands at.
    have hchars : ("(" ++ text ++ ")").toList = '(' :: (text.toList ++ [')']) := by
      simp
    have hle : least.rank ≤ Strength.primary.rank := by
      cases least <;> decide
    rw [hchars]
    refine ⟨_, (h.enclose hpos hle fun c hc => Expr.single_of_tree? htree ?_).mono nofun⟩
    omega
  · next hle =>
    refine ⟨is, (h.weaken hpos (Nat.le_of_not_lt hle) fun hlt c hc => ?_).mono fun hend => ?_⟩
    · exact Expr.single_of_tree? htree (by omega)
    · simp only [mayEndInNumber, Bool.or_eq_true, decide_eq_true_eq] at hend ⊢
      exact hend.imp_right fun hlt => by omega

theorem toList_array (items : String) :
    ("[" ++ items ++ "]").toList = '[' :: (items.toList ++ [']']) := by
  simp

theorem toList_key (object key : String) :
    (object ++ "[" ++ key ++ "]").toList = object.toList ++ '[' :: (key.toList ++ [']']) := by
  simp

theorem toList_call (callee arguments : String) :
    (callee ++ "(" ++ arguments ++ ")").toList =
      callee.toList ++ '(' :: (arguments.toList ++ [')']) := by
  simp

theorem toList_operator (a sign b : String) :
    (a ++ " " ++ sign ++ " " ++ b).toList =
      a.toList ++ ' ' :: (sign.toList ++ ' ' :: b.toList) := by
  simp

/-- The text of an expression is read as a tree, at the level of the expression. -/
def Expr.ReadsAs (style : Style) (element : ElementId → Nat → String) (e : Expr) (layout : Layout)
    (level : Nat) (t : Tree) : Prop :=
  ∃ is, Reads e.strength.rank (mayEndInNumber e e.strength.rank)
    (e.text style element layout level).toList is t.leftNested

namespace Expr.ReadsAs

variable {style : Style} {element : ElementId → Nat → String} {level : Nat}

/-- A property is read after a dot, or as a literal in brackets. -/
theorem member {object : Expr} {o : Tree} (htree : object.tree? = some o)
    (h : object.ReadsAs style element .inline level o) (hnumber : object.isNumber = false)
    (property : String) (layout : Layout) :
    (Expr.member object property).ReadsAs style element layout level (.member o property) := by
  obtain ⟨is, hobject⟩ := exists_reads_parenthesize htree h .member (by decide)
  have hends : mayEndInNumber object Strength.member.rank = false := by
    simp [mayEndInNumber, hnumber]
  rw [hends] at hobject
  rw [ReadsAs, Expr.text]
  split
  · next hproperty =>
    rw [String.toList_append, String.toList_append, List.append_assoc]
    exact ⟨_, hobject.member_word hproperty⟩
  · have hkey : Reads Strength.primary.rank false (style.literal property).toList _ _ :=
      reads_quote style.asciiOnly property
    rw [toList_key]
    exact ⟨_, hobject.access_group .square hkey.passes hkey.readGroup rfl⟩

theorem array {items : List Expr} {ts : List Tree}
    (h : List.Forall₂ (fun text t => ∃ rank number is, Reads rank number text.toList is t)
      (exprTexts style element level items) (leftNestedAll ts)) (layout : Layout) :
    (Expr.array items).ReadsAs style element layout level (.array ts) := by
  obtain ⟨is, hpasses, hgroup⟩ := exists_passes_intercalate h
  rw [ReadsAs, Expr.text, toList_array]
  exact ⟨_, reads_primary (hpasses.enclose hgroup .square) ⟨'[', rfl, by decide⟩ rfl rfl⟩

theorem compare {left right : Expr} {l r : Tree} (hl : left.tree? = some l)
    (hleft : left.ReadsAs style element .inline level l) (hr : right.tree? = some r)
    (hright : right.ReadsAs style element .inline level r) (comparison : Comparison)
    (layout : Layout) :
    (Expr.compare comparison left right).ReadsAs style element layout level
      (.compare comparison l r) := by
  obtain ⟨is, hleft⟩ := exists_reads_parenthesize hl hleft .unary (by decide)
  obtain ⟨js, hright⟩ := exists_reads_parenthesize hr hright .unary (by decide)
  rw [ReadsAs, Expr.text, toList_operator]
  exact ⟨_, (hleft.compare comparison hright).mono fun _ => rfl⟩

/-- Operands of a connective are read at its own level, so chains of it are read from the left. -/
theorem logical {left right : Expr} {l r : Tree} (hl : left.tree? = some l)
    (hleft : left.ReadsAs style element .inline level l) (hr : right.tree? = some r)
    (hright : right.ReadsAs style element .inline level r) (connective : Connective)
    (layout : Layout) :
    (Expr.logical connective left right).ReadsAs style element layout level
      (.logical connective l r) := by
  have hpos : 0 < connective.strength.rank := by
    cases connective <;> decide
  obtain ⟨is, hleft⟩ := exists_reads_parenthesize hl hleft connective.strength hpos
  obtain ⟨js, hright⟩ := exists_reads_parenthesize hr hright connective.strength hpos
  rw [ReadsAs, Expr.text, toList_operator]
  refine ⟨_, (hleft.logical connective hright).mono fun _ => ?_⟩
  cases connective <;> rfl

theorem not {argument : Expr} {t : Tree} (htree : argument.tree? = some t)
    (h : argument.ReadsAs style element .inline level t) (layout : Layout) :
    (Expr.not argument).ReadsAs style element layout level (.not t) := by
  obtain ⟨is, hargument⟩ := exists_reads_parenthesize htree h .unary (by decide)
  rw [ReadsAs, Expr.text, String.toList_append]
  exact ⟨_, hargument.not.mono fun _ => rfl⟩

theorem call {callee : Expr} {f : Tree} (htree : callee.tree? = some f)
    (hcallee : callee.ReadsAs style element .inline level f) {arguments : List Expr}
    {ts : List Tree}
    (harguments : List.Forall₂
      (fun text t => ∃ rank number is, Reads rank number text.toList is t)
      (exprTexts style element level arguments) (leftNestedAll ts)) (layout : Layout) :
    (Expr.call callee arguments).ReadsAs style element layout level (.call f ts) := by
  obtain ⟨is, hcallee⟩ := exists_reads_parenthesize htree hcallee .member (by decide)
  obtain ⟨js, hpasses, hgroup⟩ := exists_passes_intercalate harguments
  rw [ReadsAs, Expr.text, toList_call]
  exact ⟨_, hcallee.access_group .round hpasses hgroup rfl⟩

end Expr.ReadsAs

mutual

/-- The text of an expression is read as its tree, at the level of the expression. -/
theorem Expr.readsAs_of_tree? (style : Style) (element : ElementId → Nat → String) :
    ∀ (e : Expr) (layout : Layout) (level : Nat) {t : Tree}, e.tree? = some t →
      e.ReadsAs style element layout level t
  | .ident name, layout, level, t, h => by
    unfold Expr.tree? at h
    split at h
    · next hname =>
      obtain rfl := Option.some.inj h
      simp only [Bool.and_eq_true, Bool.not_eq_true'] at hname
      rw [Expr.ReadsAs, Expr.text]
      exact ⟨_, reads_word hname.1 hname.2⟩
    · exact nomatch h
  | .member object property, layout, level, t, h => by
    unfold Expr.tree? at h
    split at h
    · exact nomatch h
    · next hnumber =>
      obtain ⟨o, ho, rfl⟩ := Option.map_eq_some_iff.mp h
      exact .member ho (object.readsAs_of_tree? style element .inline level ho)
        (Bool.eq_false_iff.mpr hnumber) property layout
  | .str s, layout, level, t, h => by
    obtain rfl := Option.some.inj h
    rw [Expr.ReadsAs, Expr.text]
    exact ⟨_, reads_quote style.asciiOnly s⟩
  | .num x, layout, level, t, h => by
    unfold Expr.tree? at h
    split at h
    · exact nomatch h
    · next hfinite =>
      obtain rfl := Option.some.inj h
      simp only [Bool.or_eq_true, not_or, Bool.not_eq_true] at hfinite
      rw [Expr.ReadsAs, Expr.text]
      exact ⟨_, reads_number hfinite.1 hfinite.2⟩
  | .bool b, layout, level, t, h => by
    obtain rfl := Option.some.inj h
    rw [Expr.ReadsAs, Expr.text]
    cases b with
    | true => exact ⟨_, reads_primary (passes_word rfl) ⟨'t', rfl, by decide⟩ rfl rfl⟩
    | false => exact ⟨_, reads_primary (passes_word rfl) ⟨'f', rfl, by decide⟩ rfl rfl⟩
  | .null, layout, level, t, h => by
    obtain rfl := Option.some.inj h
    rw [Expr.ReadsAs, Expr.text]
    exact ⟨_, reads_primary (passes_word rfl) ⟨'n', rfl, by decide⟩ rfl rfl⟩
  | .array items, layout, level, t, h => by
    obtain ⟨ts, hts, rfl⟩ := Option.map_eq_some_iff.mp h
    exact .array (forall₂_reads_exprTexts style element items level hts) layout
  | .compare comparison left right, layout, level, t, h => by
    obtain ⟨l, hl, hright⟩ := Option.bind_eq_some_iff.mp h
    obtain ⟨r, hr, rfl⟩ := Option.map_eq_some_iff.mp hright
    exact .compare hl (left.readsAs_of_tree? style element .inline level hl) hr
      (right.readsAs_of_tree? style element .inline level hr) comparison layout
  | .logical connective left right, layout, level, t, h => by
    obtain ⟨l, hl, hright⟩ := Option.bind_eq_some_iff.mp h
    obtain ⟨r, hr, rfl⟩ := Option.map_eq_some_iff.mp hright
    exact .logical hl (left.readsAs_of_tree? style element .inline level hl) hr
      (right.readsAs_of_tree? style element .inline level hr) connective layout
  | .not argument, layout, level, t, h => by
    obtain ⟨u, hu, rfl⟩ := Option.map_eq_some_iff.mp h
    exact .not hu (argument.readsAs_of_tree? style element .inline level hu) layout
  | .call callee arguments, layout, level, t, h => by
    obtain ⟨f, hf, harguments⟩ := Option.bind_eq_some_iff.mp h
    obtain ⟨ts, hts, rfl⟩ := Option.map_eq_some_iff.mp harguments
    exact .call hf (callee.readsAs_of_tree? style element .inline level hf)
      (forall₂_reads_exprTexts style element arguments level hts) layout
  | .object _, _, _, _, h | .arrow _ _, _, _, _, h | .arrowBlock _ _, _, _, _, h
  | .element _, _, _, _, h => nomatch h

theorem forall₂_reads_exprTexts (style : Style) (element : ElementId → Nat → String) :
    ∀ (es : List Expr) (level : Nat) {ts : List Tree}, treesOf? es = some ts →
      List.Forall₂ (fun text t => ∃ rank number is, Reads rank number text.toList is t)
        (exprTexts style element level es) (leftNestedAll ts)
  | [], level, ts, h => by
    obtain rfl := Option.some.inj h
    exact .nil
  | e :: rest, level, ts, h => by
    obtain ⟨t, ht, hrest⟩ := Option.bind_eq_some_iff.mp h
    obtain ⟨us, hus, rfl⟩ := Option.map_eq_some_iff.mp hrest
    obtain ⟨is, hreads⟩ := e.readsAs_of_tree? style element .inline level ht
    exact .cons ⟨_, _, is, hreads⟩ (forall₂_reads_exprTexts style element rest level hus)

end

/-- **Printed expressions keep their structure.**  The text of an expression that is built from
names, member accesses, literals, finite numbers, arrays, calls, comparisons, connectives and
negations is read as the same expression, but for chains of one connective, which are read from the
left. -/
theorem printed_expression_reads_back (a : Arena) (style : Style) {e : Expr} {t : Tree}
    (h : e.tree? = some t) :
    Reading.read (a.exprText style e) = some t.leftNested ∧ t.Reassociates t.leftNested := by
  refine ⟨?_, t.reassociates_leftNested⟩
  obtain ⟨is, hreads⟩ := e.readsAs_of_tree? style (a.elementText style a.size) .inline 0 h
  have hpasses := hreads.passes [] (follows_nil _) [] []
  rw [List.append_nil, List.nil_append] at hpasses
  calc Reading.read (a.exprText style e)
      = readText [] [] (a.exprText style e).toList := rfl
    _ = readText [] is [] := hpasses
    _ = readOr is := rfl
    _ = some t.leftNested := hreads.readOr

/-- A chain that is nested to the right, with a weaker chain, a comparison and a call in it. -/
def guardedCall : Expr :=
  .logical .and (.logical .or (.ident "a") (.ident "b"))
    (.logical .and (.not (.compare .greater (.ident "c") (.ident "d")))
      (.call (.member (.member (.ident "x") "y") "a b") [.array [.str "it's", .null], .bool true]))

/-- The tree of `(a || b) && !(c > d) && x.y['a b'](['it\'s', null], true)`. -/
def guardedTree : Tree :=
  .logical .and
    (.logical .and (.logical .or (.name "a") (.name "b"))
      (.not (.compare .greater (.name "c") (.name "d"))))
    (.call (.member (.member (.name "x") "y") "a b")
      [.array [.literal "it's", .null], .bool true])

theorem guardedCall_reads_back :
    (∃ t, guardedCall.tree? = some t ∧ t.leftNested = guardedTree) ∧
      Reading.read (Arena.exprText {} {} guardedCall) = some guardedTree :=
  ⟨⟨_, rfl, rfl⟩, (printed_expression_reads_back {} {} (e := guardedCall) rfl).1⟩

end ViewGen
