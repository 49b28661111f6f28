import ViewGen.Proofs.PageChecks

/-!
# What makes a component valid

A tree is made of parts that have to be in order by themselves: elements, which need a type, and
conditionals, whose conditions need the right operands.  Rules say which parts a tree has, one for
every way to get from a node to a node inside it; a rule also says which steps lead to the part and
how the walk over the tree gets there.  Each part has faults of its own.

Validation agrees with the rules.  It succeeds exactly when the component has a name, its root can
be shown and no part has a fault, and otherwise it reports the first fault on the walk.

## Main definitions

* `Violations`, `Violations.First` — what is wrong, in the order of a walk, and the first of it
* `Finds` — a check that reports the first violation
* `NodePart`, `ElementPart` — the parts of a tree, rule by rule
* `Part.Fault` — what is wrong with a part by itself
* `Component.Valid`, `Component.Violation` — when a component is valid, and why it is not

## Main statements

* `Finds.followedBy` — two checks in a row report the first violation of both
* `finds_node`, `finds_element`, … — validation of each form of node finds the faults of its parts
* `Component.validate_reports_first_violation` — validation succeeds on valid components alone, and
  reports the first violation of all others
-/

namespace ViewGen

-- All proofs below rewrite with the equations of these functions; they are generated here, once.
attribute [local simp] Node.validate validateElement validateAttrs validateNodes

/-! ## Checks that report the first violation -/

/-- Errors at positions of a walk.  Positions are compared as words are. -/
abbrev Violations (ε : Type) := List Nat → ε → Prop

namespace Violations

variable {ε : Type}

/-- An error is that of the first violation: all others are at later positions. -/
def First (V : Violations ε) (e : ε) : Prop :=
  ∃ position, V position e ∧ ∀ other e', V other e' → position < other ∨ other = position ∧ e' = e

/-- One error, where the walk stands. -/
def single (p : Prop) (e : ε) : Violations ε := fun position e' => p ∧ position = [] ∧ e' = e

/-- The violations of a part that the walk gets to at a position. -/
def within (V : Violations ε) (start : List Nat) : Violations ε := fun position e =>
  ∃ rest, V rest e ∧ position = start ++ rest

/-- The violations of some items, where the first item has the number `first`. -/
def listed {α : Type} (V : Nat → α → Violations ε) (first : Nat) (items : List α) :
    Violations ε := fun position e =>
  ∃ i a, items[i]? = some a ∧ (V (first + i) a).within [first + i] position e

variable {V W : Violations ε}

/-- There is one first violation at most. -/
theorem First.unique {e e' : ε} (h : V.First e) (h' : V.First e') : e = e' := by
  obtain ⟨position, hp, hfirst⟩ := h
  obtain ⟨position', hp', hfirst'⟩ := h'
  rcases hfirst position' e' hp' with hlt | ⟨-, rfl⟩
  · rcases hfirst' position e hp with hlt' | ⟨-, rfl⟩
    · exact absurd hlt' (List.lt_asymm hlt)
    · rfl
  · rfl

theorem within_before {a b : Nat} {rest rest' position position' : List Nat} {e e' : ε}
    (hlt : a < b) (hV : V.within (a :: rest) position e)
    (hW : W.within (b :: rest') position' e') : position < position' := by
  obtain ⟨_, -, rfl⟩ := hV
  obtain ⟨_, -, rfl⟩ := hW
  exact List.cons_lt_cons_iff.mpr (.inl hlt)

theorem listed_cons_iff {α : Type} {V : Nat → α → Violations ε} {first : Nat} {a : α}
    {rest : List α} {position : List Nat} {e : ε} :
    listed V first (a :: rest) position e ↔
      (V first a).within [first] position e ∨ listed V (first + 1) rest position e := by
  constructor
  · rintro ⟨i, b, hb, hfound⟩
    cases i with
    | zero =>
        obtain rfl := Option.some.inj hb
        exact .inl hfound
    | succ i =>
        rw [Nat.add_comm i 1, ← Nat.add_assoc] at hfound
        exact .inr ⟨i, b, hb, hfound⟩
  · rintro (hfound | ⟨i, b, hb, hfound⟩)
    · exact ⟨0, a, rfl, hfound⟩
    · rw [Nat.add_assoc, Nat.add_comm 1 i] at hfound
      exact ⟨i + 1, b, hb, hfound⟩

end Violations

/-- A check succeeds when there are no violations, and otherwise fails with the first one. -/
inductive Finds {ε : Type} (V : Violations ε) : Except ε Unit → Prop
  | nothing : (∀ position e, ¬ V position e) → Finds V (.ok ())
  | first {e : ε} : V.First e → Finds V (.error e)

namespace Finds

variable {ε : Type} {V W : Violations ε} {check first second : Except ε Unit}

theorem congr (h : Finds V check) (hiff : ∀ position e, W position e ↔ V position e) :
    Finds W check := by
  have heq : W = V := funext fun position => funext fun e => propext (hiff position e)
  rwa [heq]

theorem single {b : Bool} {p : Prop} (hb : b = true ↔ p) (e : ε) :
    Finds (.single p e) (if b then .error e else .ok ()) := by
  cases b with
  | false => exact .nothing fun position e' h => absurd (hb.mpr h.1) (by decide)
  | true => exact .first ⟨[], ⟨hb.mp rfl, rfl, rfl⟩, fun other e' h => .inr h.2⟩

/-- A check of a part finds the violations of the part in its place. -/
theorem within (h : Finds V check) (start : List Nat) : Finds (V.within start) check := by
  cases h with
  | nothing hnone => exact .nothing fun position e ⟨rest, hrest, _⟩ => hnone rest e hrest
  | first hfirst =>
      obtain ⟨position, hposition, hleast⟩ := hfirst
      refine .first ⟨start ++ position, ⟨position, hposition, rfl⟩, ?_⟩
      rintro _ e' ⟨rest, hrest, rfl⟩
      rcases hleast rest e' hrest with hlt | ⟨rfl, rfl⟩
      · exact .inl (List.append_left_lt hlt)
      · exact .inr ⟨rfl, rfl⟩

/-- **Two checks in a row report the first violation of both**, when all violations of the first
check come before those of the second. -/
theorem followedBy (hfirst : Finds V first) (hsecond : Finds W second)
    (hbefore : ∀ {position other e e'}, V position e → W other e' → position < other) :
    Finds (fun position e => V position e ∨ W position e) (first >>= fun _ => second) := by
  cases hfirst with
  | first hleast =>
      obtain ⟨position, hposition, hleast⟩ := hleast
      refine .first ⟨position, .inl hposition, ?_⟩
      rintro other e' (hother | hother)
      · exact hleast other e' hother
      · exact .inl (hbefore hposition hother)
  | nothing hnone => exact hsecond.congr fun position e => or_iff_right (hnone position e)

/-- An item without violations can be passed over. -/
theorem skip {α : Type} {V : Nat → α → Violations ε} {k : Nat} {a : α} {rest : List α}
    (hnone : ∀ position e, ¬ V k a position e) (hrest : Finds (.listed V (k + 1) rest) check) :
    Finds (.listed V k (a :: rest)) check := by
  refine hrest.congr fun position e => Violations.listed_cons_iff.trans (or_iff_right ?_)
  rintro ⟨position', hitem, -⟩
  exact hnone position' e hitem

/-- A check of the first item and then of the others. -/
theorem cons {α : Type} {V : Nat → α → Violations ε} {k : Nat} {a : α} {rest : List α}
    (hitem : Finds (V k a) first) (hrest : Finds (.listed V (k + 1) rest) second) :
    Finds (.listed V k (a :: rest)) (first >>= fun _ => second) := by
  refine ((hitem.within [k]).followedBy hrest ?_).congr fun _ _ => Violations.listed_cons_iff
  rintro position other e e' hposition ⟨i, b, -, hother⟩
  exact Violations.within_before (by omega) hposition hother

theorem ok_iff (h : Finds V check) : check = .ok () ↔ ∀ position e, ¬ V position e := by
  cases h with
  | nothing hnone => exact iff_of_true rfl hnone
  | first hfirst =>
      obtain ⟨position, hposition, -⟩ := hfirst
      exact iff_of_false (fun h => nomatch h) fun hnone => hnone position _ hposition

theorem error_iff (h : Finds V check) (e : ε) : check = .error e ↔ V.First e := by
  cases h with
  | nothing hnone =>
      refine iff_of_false (fun h => nomatch h) ?_
      rintro ⟨position, hposition, -⟩
      exact hnone position e hposition
  | first hfirst =>
      constructor
      · rintro ⟨⟩
        exact hfirst
      · intro h
        rw [hfirst.unique h]

end Finds

/-! ## Parts and their faults -/

/-- A text of nothing but white space. -/
def Text.Blank (s : String) : Prop :=
  ∀ ch ∈ s.toList, Text.isBlank ch = true

theorem Text.allBlank_iff {s : String} : Text.allBlank s = true ↔ Text.Blank s :=
  List.all_eq_true

/-- What has to be in order by itself. -/
inductive Part where
  | element (element : Element Node)
  | conditional (conditional : Conditional Node)

/-- Where something stands: the steps that lead there in the document, and its position on the
walk. -/
structure Spot where
  steps : List Step
  position : List Nat

/-- A spot in a part of a tree, as a spot in the whole. -/
def Spot.inside (s : Spot) (steps : List Step) (position : List Nat) : Spot :=
  ⟨steps ++ s.steps, position ++ s.position⟩

mutual

/-- The parts of a node.  The walk comes to a conditional before it comes to what is inside it. -/
inductive NodePart : Node → Spot → Part → Prop
  | element {e : Element Node} {s : Spot} {p : Part} :
      ElementPart e s p → NodePart (.element e) s p
  | template {l : Loop Node} {s : Spot} {p : Part} :
      ElementPart l.template s p → NodePart (.loop l) (s.inside [.field "node"] []) p
  | conditional {c : Conditional Node} : NodePart (.conditional c) ⟨[], []⟩ (.conditional c)
  | guarded {c : Conditional Node} {s : Spot} {p : Part} :
      NodePart c.node s p → NodePart (.conditional c) (s.inside [.field "node"] [1]) p
  | fallback {slot : Slot Node} {n : Node} {s : Spot} {p : Part} :
      slot.fallback = some n → NodePart n s p →
        NodePart (.slot slot) (s.inside [.field "fallback"] []) p

/-- The parts of an element: first the element itself, then what is in its attributes, then what is
in its children. -/
inductive ElementPart : Element Node → Spot → Part → Prop
  | self {e : Element Node} : ElementPart e ⟨[], []⟩ (.element e)
  | passed {e : Element Node} {i : Nat} {name : String} {n : Node} {s : Spot} {p : Part} :
      e.attrs[i]? = some (name, .slot n) → NodePart n s p →
        ElementPart e (s.inside [.field "attrs", .field name] [1, i]) p
  | child {e : Element Node} {i : Nat} {n : Node} {s : Spot} {p : Part} :
      e.children[i]? = some n → NodePart n s p →
        ElementPart e (s.inside [.field "children", .index i] [2, i]) p

end

/-- An operation that looks at the subject alone. -/
def Operation.Unary (o : Operation) : Prop :=
  o = .truthy ∨ o = .falsy

/-- What is wrong with a condition. -/
inductive Condition.Fault (c : Condition) : Defect → Prop
  | operandGiven : c.operation.Unary → c.operand ≠ none → Fault c .truthinessWithOperand
  | operandMissing : ¬ c.operation.Unary → c.operand = none → Fault c .comparisonWithoutOperand

/-- What is wrong with a part by itself.  The condition of a conditional matters only if there is no
value to compare with. -/
inductive Part.Fault : Part → Spot → Defect → Prop
  | blankType {e : Element Node} :
      Text.Blank e.tag → Fault (.element e) ⟨[], [0]⟩ .elementTypeBlank
  | noConditions {c : Conditional Node} {t : Test} :
      c.value = none → c.condition = some t → t.conditions = [] →
        Fault (.conditional c) ⟨[.field "condition"], [0]⟩ .conditionWithoutOperands
  | condition {c : Conditional Node} {t : Test} {i : Nat} {condition : Condition}
      {defect : Defect} :
      c.value = none → c.condition = some t → t.conditions[i]? = some condition →
        condition.Fault defect →
        Fault (.conditional c) ⟨[.field "condition", .field "conditions", .index i], [0, i]⟩ defect

theorem Part.Fault.exists_position {p : Part} {s : Spot} {defect : Defect}
    (h : p.Fault s defect) : ∃ number, s.position = 0 :: number := by
  cases h <;> exact ⟨_, rfl⟩

/-- A test that can be carried out: it has conditions, those on the subject alone have no operand,
and all others have one. -/
structure Test.WellFormed (t : Test) : Prop where
  conditions : t.conditions ≠ []
  operands : ∀ c ∈ t.conditions, c.operand = none ↔ c.operation.Unary

theorem Condition.sound_iff {c : Condition} :
    (∀ defect, ¬ c.Fault defect) ↔ (c.operand = none ↔ c.operation.Unary) := by
  constructor
  · intro hsound
    constructor
    · intro hmissing
      exact Classical.byContradiction fun h => hsound _ (.operandMissing h hmissing)
    · intro hunary
      exact Classical.byContradiction fun h => hsound _ (.operandGiven hunary h)
  · intro hoperand defect hfault
    cases hfault with
    | operandGiven hunary hgiven => exact hgiven (hoperand.mpr hunary)
    | operandMissing hbinary hmissing => exact hbinary (hoperand.mp hmissing)

/-- Nothing is wrong with a conditional by itself if its condition can be tested, or if there is a
value in its place. -/
theorem Part.sound_conditional_iff {c : Conditional Node} :
    (∀ s defect, ¬ (Part.conditional c).Fault s defect) ↔
      (c.value = none → ∀ t, c.condition = some t → t.WellFormed) := by
  constructor
  · intro hsound hvalue t ht
    refine ⟨fun h => hsound _ _ (.noConditions hvalue ht h), fun condition hcondition => ?_⟩
    obtain ⟨i, hi⟩ := List.getElem?_of_mem hcondition
    exact Condition.sound_iff.mp fun defect hfault =>
      hsound _ _ (.condition hvalue ht hi hfault)
  · intro hwell s defect hfault
    cases hfault with
    | noConditions hvalue ht hnone => exact (hwell hvalue _ ht).conditions hnone
    | condition hvalue ht hi hfault =>
        have hoperand := (hwell hvalue _ ht).operands _ (List.mem_of_getElem? hi)
        exact Condition.sound_iff.mpr hoperand _ hfault

/-- The errors for the faults of some parts, which stand in a tree at a location. -/
def faultsOf (parts : Spot → Part → Prop) (location : Location) : Violations DocumentError :=
  fun position e => ∃ s p s' defect, parts s p ∧ p.Fault s' defect ∧
    position = s.position ++ s'.position ∧
      e = .malformed ⟨location.steps ++ (s.steps ++ s'.steps)⟩ defect

/-- One part, where the walk stands. -/
def Part.alone (p : Part) : Spot → Part → Prop := fun s p' => s = ⟨[], []⟩ ∧ p' = p

section Faults

variable {parts others : Spot → Part → Prop} {location inner : Location} {steps : List Step}
  {start position other : List Nat} {e e' : DocumentError} {p : Part}

theorem faultsOf_congr (h : ∀ s p, parts s p ↔ others s p) :
    faultsOf parts location position e ↔ faultsOf others location position e := by
  have heq : parts = others := funext fun s => funext fun p => propext (h s p)
  rw [heq]

theorem faultsOf_or_iff :
    faultsOf (fun s p => parts s p ∨ others s p) location position e ↔
      faultsOf parts location position e ∨ faultsOf others location position e := by
  constructor
  · rintro ⟨s, p, s', defect, hs | hs, hfault⟩
    · exact .inl ⟨s, p, s', defect, hs, hfault⟩
    · exact .inr ⟨s, p, s', defect, hs, hfault⟩
  · rintro (⟨s, p, s', defect, hs, hfault⟩ | ⟨s, p, s', defect, hs, hfault⟩)
    · exact ⟨s, p, s', defect, .inl hs, hfault⟩
    · exact ⟨s, p, s', defect, .inr hs, hfault⟩

/-- The faults of the parts of something are faults of what it is inside of. -/
theorem faultsOf_inside_iff (hinner : inner.steps = location.steps ++ steps) :
    faultsOf (fun s p => ∃ s₀, parts s₀ p ∧ s = s₀.inside steps start) location position e ↔
      (faultsOf parts inner).within start position e := by
  constructor
  · rintro ⟨_, p, s', defect, ⟨s, hs, rfl⟩, hfault, rfl, rfl⟩
    refine ⟨s.position ++ s'.position, ⟨s, p, s', defect, hs, hfault, rfl, ?_⟩, ?_⟩
    · simp [Spot.inside, hinner]
    · simp [Spot.inside]
  · rintro ⟨_, ⟨s, p, s', defect, hs, hfault, rfl, rfl⟩, rfl⟩
    refine ⟨_, p, s', defect, ⟨s, hs, rfl⟩, hfault, ?_, ?_⟩
    · simp [Spot.inside]
    · simp [Spot.inside, hinner]

theorem faultsOf_alone_iff :
    faultsOf p.alone location position e ↔
      ∃ s defect, p.Fault s defect ∧ position = s.position ∧
        e = .malformed ⟨location.steps ++ s.steps⟩ defect := by
  constructor
  · rintro ⟨_, _, s, defect, ⟨rfl, rfl⟩, hfault⟩
    exact ⟨s, defect, hfault⟩
  · rintro ⟨s, defect, hfault⟩
    exact ⟨_, _, s, defect, ⟨rfl, rfl⟩, hfault⟩

/-- The walk comes to the faults of a part before it comes to anything inside the part. -/
theorem faultsOf_alone_before {V : Violations DocumentError} {k : Nat} {rest : List Nat}
    (hown : faultsOf p.alone location position e)
    (hother : V.within ((k + 1) :: rest) other e') : position < other := by
  obtain ⟨s, defect, hfault, rfl, -⟩ := faultsOf_alone_iff.mp hown
  obtain ⟨_, -, rfl⟩ := hother
  obtain ⟨number, hposition⟩ := hfault.exists_position
  rw [hposition]
  exact List.cons_lt_cons_iff.mpr (.inl (Nat.succ_pos k))

end Faults

/-! ## Conditions -/

theorem Operation.isUnary_iff {o : Operation} : o.isUnary = true ↔ o.Unary := by
  cases o <;> simp [isUnary, Unary]

/-- The errors for a condition. -/
def conditionFaults (location : Location) (k : Nat) (c : Condition) : Violations DocumentError :=
  fun position e => position = [] ∧
    ∃ defect, c.Fault defect ∧ e = .malformed ((location.field "conditions").index k) defect

theorem finds_condition (location : Location) (k : Nat) (c : Condition) :
    Finds (conditionFaults location k c)
      (c.validate ((location.field "conditions").index k)) := by
  have hunary := c.operation.isUnary_iff
  rw [Condition.validate]
  cases hu : c.operation.isUnary <;> cases ho : c.operand <;> rw [hu] at hunary
  · refine .first ⟨[], ⟨rfl, _, .operandMissing (fun h => ?_) ho, rfl⟩, ?_⟩
    · exact absurd (hunary.mpr h) (by decide)
    · rintro other e' ⟨rfl, defect, hfault, rfl⟩
      cases hfault with
      | operandGiven h => exact absurd (hunary.mpr h) (by decide)
      | operandMissing => exact .inr ⟨rfl, rfl⟩
  · refine .nothing ?_
    rintro position e ⟨-, defect, hfault, -⟩
    cases hfault with
    | operandGiven h => exact absurd (hunary.mpr h) (by decide)
    | operandMissing _ h => exact absurd (ho.symm.trans h) (by simp)
  · refine .nothing ?_
    rintro position e ⟨-, defect, hfault, -⟩
    cases hfault with
    | operandGiven _ h => exact h ho
    | operandMissing h => exact h (hunary.mp rfl)
  · refine .first ⟨[], ⟨rfl, _, .operandGiven (hunary.mp rfl) (by simp [ho]), rfl⟩, ?_⟩
    rintro other e' ⟨rfl, defect, hfault, rfl⟩
    cases hfault with
    | operandGiven => exact .inr ⟨rfl, rfl⟩
    | operandMissing h => exact absurd (hunary.mp rfl) h

theorem finds_conditions (location : Location) (conditions : List Condition) (first : Nat) :
    Finds (.listed (conditionFaults location) first conditions)
      (validateConditions location first conditions) := by
  induction conditions generalizing first with
  | nil => exact .nothing fun position e ⟨i, a, ha, _⟩ => nomatch ha
  | cons c rest ih => exact .cons (finds_condition location first c) (ih _)

/-- **The faults of a conditional by itself are found.** -/
theorem finds_deciding (location : Location) (c : Conditional Node) :
    Finds (faultsOf (Part.conditional c).alone location)
      (validateDeciding c.value c.condition (location.field "condition")) := by
  cases hvalue : c.value with
  | some value =>
      refine .nothing fun position e hfault => ?_
      obtain ⟨s, defect, hfault, -⟩ := faultsOf_alone_iff.mp hfault
      cases hfault with
      | noConditions h | condition h => exact absurd (hvalue.symm.trans h) (by simp)
  | none =>
    cases hcondition : c.condition with
    | none =>
        refine .nothing fun position e hfault => ?_
        obtain ⟨s, defect, hfault, -⟩ := faultsOf_alone_iff.mp hfault
        cases hfault with
        | noConditions _ h | condition _ h => exact absurd (hcondition.symm.trans h) (by simp)
    | some t =>
        rw [validateDeciding, Test.validate]
        split
        · next hempty =>
          have hnil : t.conditions = [] := List.isEmpty_iff.mp hempty
          have hhere : faultsOf (Part.conditional c).alone location [0]
              (.malformed (location.field "condition") .conditionWithoutOperands) :=
            faultsOf_alone_iff.mpr ⟨_, _, .noConditions hvalue hcondition hnil, rfl, rfl⟩
          refine .first ⟨_, hhere, fun other e' hother => ?_⟩
          obtain ⟨s, defect, hfault, rfl, rfl⟩ := faultsOf_alone_iff.mp hother
          cases hfault with
          | noConditions => exact .inr ⟨rfl, rfl⟩
          | condition _ h hi =>
              obtain rfl := Option.some.inj (hcondition.symm.trans h)
              exact absurd hi (by simp [hnil])
        · next hempty =>
          have hne : t.conditions ≠ [] := fun h => hempty (List.isEmpty_iff.mpr h)
          have hconditions := finds_conditions (location.field "condition") t.conditions 0
          refine (hconditions.within [0]).congr fun position e => faultsOf_alone_iff.trans ?_
          constructor
          · rintro ⟨s, defect, hfault, rfl, rfl⟩
            cases hfault with
            | noConditions _ h hnil =>
                obtain rfl := Option.some.inj (hcondition.symm.trans h)
                exact absurd hnil hne
            | @condition _ _ i condition _ _ h hi hfault =>
                obtain rfl := Option.some.inj (hcondition.symm.trans h)
                refine ⟨[i], ⟨i, condition, hi, [], ⟨rfl, defect, hfault, ?_⟩, ?_⟩, rfl⟩
                · simp [Location.field, Location.index]
                · simp
          · rintro ⟨_, ⟨i, condition, hi, _, ⟨rfl, defect, hfault, rfl⟩, rfl⟩, rfl⟩
            refine ⟨_, defect, .condition hvalue hcondition hi hfault, ?_, ?_⟩
            · simp
            · simp [Location.field, Location.index]

/-! ## Validation as a walk -/

/-- The faults of what an attribute passes. -/
def attributeFaults (location : Location) (_ : Nat) :
    String × Attribute Node → Violations DocumentError
  | (name, .slot n) => faultsOf (NodePart n) (location.field name)
  | (_, .static _) | (_, .dynamic _) | (_, .imported _) => fun _ _ => False

/-- The faults of a child. -/
def childFaults (location : Location) (k : Nat) (n : Node) : Violations DocumentError :=
  faultsOf (NodePart n) (location.index k)

section Parts

variable {location : Location} {position : List Nat} {error : DocumentError}

theorem faultsOf_loop_iff {l : Loop Node} :
    faultsOf (NodePart (.loop l)) location position error ↔
      (faultsOf (ElementPart l.template) (location.field "node")).within [] position error := by
  refine (faultsOf_congr fun s p => ⟨fun hpart => ?_, ?_⟩).trans (faultsOf_inside_iff rfl)
  · cases hpart with
    | template htemplate => exact ⟨_, htemplate, rfl⟩
  · rintro ⟨s₀, htemplate, rfl⟩
    exact .template htemplate

theorem faultsOf_slot_iff {name : Option String} {n : Node} :
    faultsOf (NodePart (.slot ⟨name, some n⟩)) location position error ↔
      (faultsOf (NodePart n) (location.field "fallback")).within [] position error := by
  refine (faultsOf_congr fun s p => ⟨fun hpart => ?_, ?_⟩).trans (faultsOf_inside_iff rfl)
  · cases hpart with
    | fallback hfallback hnode =>
        obtain rfl := Option.some.inj hfallback
        exact ⟨_, hnode, rfl⟩
  · rintro ⟨s₀, hnode, rfl⟩
    exact .fallback rfl hnode

/-- The faults of a conditional: its own and those of the node inside it. -/
theorem faultsOf_conditional_iff {c : Conditional Node} :
    faultsOf (NodePart (.conditional c)) location position error ↔
      faultsOf (Part.conditional c).alone location position error ∨
        (faultsOf (NodePart c.node) (location.field "node")).within [1] position error := by
  refine (faultsOf_congr fun s p => ⟨fun hpart => ?_, ?_⟩).trans
    (faultsOf_or_iff.trans (or_congr_right (faultsOf_inside_iff rfl)))
  · cases hpart with
    | conditional => exact .inl ⟨rfl, rfl⟩
    | guarded hnode => exact .inr ⟨_, hnode, rfl⟩
  · rintro (⟨rfl, rfl⟩ | ⟨s₀, hnode, rfl⟩)
    · exact .conditional
    · exact .guarded hnode

/-- The faults of an element: its own, those in its attributes and those in its children. -/
theorem faultsOf_element_iff {e : Element Node} :
    faultsOf (ElementPart e) location position error ↔
      faultsOf (Part.element e).alone location position error ∨
        (Violations.listed (attributeFaults (location.field "attrs")) 0 e.attrs).within [1]
            position error ∨
          (Violations.listed (childFaults (location.field "children")) 0 e.children).within [2]
            position error := by
  constructor
  · rintro ⟨s, p, s', defect, hpart, hfault, rfl, rfl⟩
    cases hpart with
    | self => exact .inl ⟨_, _, s', defect, ⟨rfl, rfl⟩, hfault, rfl, rfl⟩
    | @passed _ i name n s₀ _ hattr hnode =>
        refine .inr (.inl ⟨_, ⟨i, _, hattr, _, ⟨s₀, p, s', defect, hnode, hfault, rfl, ?_⟩, rfl⟩,
          ?_⟩)
        · simp [Spot.inside, Location.field]
        · simp [Spot.inside]
    | @child _ i n s₀ _ hchild hnode =>
        refine .inr (.inr ⟨_, ⟨i, _, hchild, _, ⟨s₀, p, s', defect, hnode, hfault, rfl, ?_⟩, rfl⟩,
          ?_⟩)
        · simp [Spot.inside, Location.field, Location.index]
        · simp [Spot.inside]
  · rintro (⟨_, _, s', defect, ⟨rfl, rfl⟩, hfault, rfl, rfl⟩ |
      ⟨_, ⟨i, ⟨name, attr⟩, hattr, _, hfound, rfl⟩, rfl⟩ |
      ⟨_, ⟨i, n, hchild, _, ⟨s, p, s', defect, hnode, hfault, rfl, rfl⟩, rfl⟩, rfl⟩)
    · exact ⟨_, _, s', defect, .self, hfault, rfl, rfl⟩
    · cases attr with
      | slot n =>
          obtain ⟨s, p, s', defect, hnode, hfault, rfl, rfl⟩ := hfound
          refine ⟨_, p, s', defect, .passed hattr hnode, hfault, ?_, ?_⟩
          · simp [Spot.inside]
          · simp [Spot.inside, Location.field]
      | static value => exact hfound.elim
      | dynamic r => exact hfound.elim
      | imported id => exact hfound.elim
    · refine ⟨_, p, s', defect, .child hchild hnode, hfault, ?_, ?_⟩
      · simp [Spot.inside]
      · simp [Spot.inside, Location.field, Location.index]

/-- The type of an element is the only thing that can be wrong with it by itself. -/
theorem finds_type (location : Location) (e : Element Node) :
    Finds (faultsOf (Part.element e).alone location)
      (if Text.allBlank e.tag then .error (.malformed location .elementTypeBlank) else .ok ()) := by
  have htype := Finds.single (Text.allBlank_iff (s := e.tag))
    (DocumentError.malformed location .elementTypeBlank)
  refine (htype.within [0]).congr fun position error => faultsOf_alone_iff.trans ⟨?_, ?_⟩
  · rintro ⟨s, defect, hfault, rfl, rfl⟩
    cases hfault with
    | blankType hblank => exact ⟨[], ⟨hblank, rfl, by simp⟩, rfl⟩
  · rintro ⟨_, ⟨hblank, rfl, rfl⟩, rfl⟩
    exact ⟨_, _, .blankType hblank, rfl, by simp⟩

end Parts

mutual

/-- **Validation of a node finds the faults of its parts.** -/
theorem finds_node : ∀ (n : Node) (location : Location),
    Finds (faultsOf (NodePart n) location) (n.validate location)
  | .static _, _ => .nothing fun position e ⟨_, _, _, _, hpart, _⟩ => nomatch hpart
  | .dynamic _, _ => .nothing fun position e ⟨_, _, _, _, hpart, _⟩ => nomatch hpart
  | .raw _, _ => .nothing fun position e ⟨_, _, _, _, hpart, _⟩ => nomatch hpart
  | .element e, location => by
      rw [Node.validate]
      refine (finds_element e location).congr fun position error => faultsOf_congr fun s p => ?_
      refine ⟨fun hpart => ?_, .element⟩
      cases hpart with
      | element hpart => exact hpart
  | .loop ⟨template, source, names⟩, location => by
      have htemplate := finds_element template (location.field "node")
      rw [Node.validate]
      exact (htemplate.within []).congr fun position error => faultsOf_loop_iff
  | .conditional ⟨node, subject, value, condition⟩, location => by
      have hdeciding := finds_deciding location ⟨node, subject, value, condition⟩
      have hnode := finds_node node (location.field "node")
      rw [Node.validate]
      refine (hdeciding.followedBy (hnode.within [1]) ?_).congr fun position error =>
        faultsOf_conditional_iff
      exact faultsOf_alone_before
  | .slot ⟨name, none⟩, location => by
      rw [Node.validate]
      refine .nothing ?_
      rintro position e ⟨_, _, _, _, hpart, -⟩
      cases hpart with
      | fallback hfallback => exact nomatch hfallback
  | .slot ⟨name, some fallback⟩, location => by
      have hfallback := finds_node fallback (location.field "fallback")
      rw [Node.validate]
      exact (hfallback.within []).congr fun position error => faultsOf_slot_iff

theorem finds_element : ∀ (e : Element Node) (location : Location),
    Finds (faultsOf (ElementPart e) location) (validateElement e location)
  | ⟨tag, name, key, selfClosing, attrs, events, style, children, dependency⟩, location => by
      have htype := finds_type location
        ⟨tag, name, key, selfClosing, attrs, events, style, children, dependency⟩
      have hattrs := finds_attrs attrs (location.field "attrs") 0
      have hchildren := finds_nodes children (location.field "children") 0
      have hvalidate : validateElement
          ⟨tag, name, key, selfClosing, attrs, events, style, children, dependency⟩ location =
            (if Text.allBlank tag then .error (.malformed location .elementTypeBlank)
              else .ok ()) >>= fun _ => validateAttrs (location.field "attrs") attrs >>=
                fun _ => validateNodes (location.field "children") 0 children := by
        rw [validateElement]
        cases Text.allBlank tag <;> rfl
      rw [hvalidate]
      refine (htype.followedBy ((hattrs.within [1]).followedBy (hchildren.within [2]) ?_)
        ?_).congr fun position error => faultsOf_element_iff
      · exact Violations.within_before (by decide)
      · rintro position other e e' hown (hother | hother)
        · exact faultsOf_alone_before hown hother
        · exact faultsOf_alone_before hown hother

theorem finds_attrs : ∀ (attrs : List (String × Attribute Node)) (location : Location)
    (first : Nat),
    Finds (.listed (attributeFaults location) first attrs) (validateAttrs location attrs)
  | [], _, _ => .nothing fun position e ⟨i, a, ha, _⟩ => nomatch ha
  | (name, .static value) :: rest, location, first => by
      rw [validateAttrs]
      exact .skip (fun position e h => h) (finds_attrs rest location (first + 1))
  | (name, .dynamic r) :: rest, location, first => by
      rw [validateAttrs]
      exact .skip (fun position e h => h) (finds_attrs rest location (first + 1))
  | (name, .imported id) :: rest, location, first => by
      rw [validateAttrs]
      exact .skip (fun position e h => h) (finds_attrs rest location (first + 1))
  | (name, .slot content) :: rest, location, first => by
      have hcontent := finds_node content (location.field name)
      rw [validateAttrs]
      exact .cons hcontent (finds_attrs rest location (first + 1))

theorem finds_nodes : ∀ (ns : List Node) (location : Location) (first : Nat),
    Finds (.listed (childFaults location) first ns) (validateNodes location first ns)
  | [], _, _ => .nothing fun position e ⟨i, a, ha, _⟩ => nomatch ha
  | n :: rest, location, first => by
      have hnode := finds_node n (location.index first)
      rw [validateNodes]
      exact .cons hnode (finds_nodes rest location (first + 1))

end

/-! ## Components -/

namespace Component

/-- A component is valid: its name is not blank, its root can be shown, every element anywhere in
its tree has a type, and the condition of a conditional without a value can be tested, if there is
one. -/
structure Valid (c : Component) : Prop where
  name : ¬ Text.Blank c.name
  root : (∃ e, c.node = .element e) ∨ (∃ l, c.node = .loop l) ∨ ∃ k, c.node = .conditional k
  elements : ∀ s e, NodePart c.node s (.element e) → ¬ Text.Blank e.tag
  conditionals : ∀ s k, NodePart c.node s (.conditional k) → k.value = none →
    ∀ t, k.condition = some t → t.WellFormed

/-- What is wrong with a component: first its name, then the form of its root, then the parts of its
tree. -/
inductive Violation (c : Component) : Violations DocumentError
  | name : Text.Blank c.name → Violation c [0] (.malformed .root .componentNameBlank)
  | root : c.node.isRoot = false →
      Violation c [1] (.malformed .root (.rootUnsupported c.name c.node.kind))
  | part {s s' : Spot} {p : Part} {defect : Defect} :
      NodePart c.node s p → p.Fault s' defect →
        Violation c (2 :: (s.position ++ s'.position)) (.malformed ⟨s.steps ++ s'.steps⟩ defect)

theorem isRoot_iff {n : Node} :
    n.isRoot = true ↔
      (∃ e, n = .element e) ∨ (∃ l, n = .loop l) ∨ ∃ k, n = .conditional k := by
  cases n <;> simp [Node.isRoot]

/-- A component is valid when there is nothing wrong with it. -/
theorem valid_iff {c : Component} : c.Valid ↔ ∀ position e, ¬ c.Violation position e := by
  constructor
  · rintro ⟨hname, hroot, helements, hconditionals⟩ position e hviolation
    cases hviolation with
    | name hblank => exact hname hblank
    | root hother => exact absurd (isRoot_iff.mpr hroot) (by simp [hother])
    | @part s _ p defect hpart hfault =>
        cases p with
        | element element =>
            cases hfault with
            | blankType hblank => exact helements s element hpart hblank
        | conditional k =>
            exact Part.sound_conditional_iff.mpr (hconditionals s k hpart) _ defect hfault
  · intro hnone
    refine ⟨fun h => hnone _ _ (.name h), isRoot_iff.mp ?_,
      fun s e hpart hblank => hnone _ _ (.part hpart (.blankType hblank)),
      fun s k hpart => Part.sound_conditional_iff.mp fun s' defect hfault =>
        hnone _ _ (.part hpart hfault)⟩
    cases hroot : c.node.isRoot with
    | true => rfl
    | false => exact absurd (.root hroot) (hnone _ _)

/-- **Validation of a component finds what is wrong with it.** -/
theorem finds_component (c : Component) : Finds c.Violation c.validate := by
  have hname := Finds.single (Text.allBlank_iff (s := c.name))
    (DocumentError.malformed .root .componentNameBlank)
  have hroot := Finds.single (b := !c.node.isRoot) (p := c.node.isRoot = false) (by simp)
    (DocumentError.malformed .root (.rootUnsupported c.name c.node.kind))
  have htree := finds_node c.node .root
  have hvalidate : c.validate =
      (if Text.allBlank c.name then .error (.malformed .root .componentNameBlank) else .ok ()) >>=
        fun _ => (if !c.node.isRoot then
            .error (.malformed .root (.rootUnsupported c.name c.node.kind)) else .ok ()) >>=
          fun _ => c.node.validate .root := by
    rw [validate]
    cases Text.allBlank c.name <;> cases c.node.isRoot <;> rfl
  rw [hvalidate]
  refine ((hname.within [0]).followedBy ((hroot.within [1]).followedBy (htree.within [2]) ?_)
    ?_).congr fun position e => ⟨?_, ?_⟩
  · exact Violations.within_before (by decide)
  · rintro position other e e' hfirst (hother | hother)
    · exact Violations.within_before (by decide) hfirst hother
    · exact Violations.within_before (by decide) hfirst hother
  · intro hviolation
    cases hviolation with
    | name hblank => exact .inl ⟨[], ⟨hblank, rfl, rfl⟩, rfl⟩
    | root hother => exact .inr (.inl ⟨[], ⟨hother, rfl, rfl⟩, rfl⟩)
    | part hpart hfault =>
        exact .inr (.inr ⟨_, ⟨_, _, _, _, hpart, hfault, rfl, rfl⟩, rfl⟩)
  · rintro (⟨_, ⟨hblank, rfl, rfl⟩, rfl⟩ | ⟨_, ⟨hother, rfl, rfl⟩, rfl⟩ |
      ⟨_, ⟨_, _, _, _, hpart, hfault, rfl, rfl⟩, rfl⟩)
    · exact .name hblank
    · exact .root hother
    · exact .part hpart hfault

/-- **Validation decides whether a component is valid.**  It succeeds exactly on the valid ones.  It
fails with an error exactly when that is the error of the first violation on the walk, for the
location of the violation. -/
theorem validate_reports_first_violation (c : Component) :
    (c.validate = .ok () ↔ c.Valid) ∧
      ∀ e, c.validate = .error e ↔ Violations.First c.Violation e :=
  ⟨(finds_component c).ok_iff.trans valid_iff.symm, (finds_component c).error_iff⟩

end Component

end ViewGen
