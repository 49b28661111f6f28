import ViewGen.Proofs.StructuralValidity

/-!
# What the test of a conditional means

A conditional says when its node is shown: when its subject equals a value, or when all or some of
the conditions on it hold, or when it is truthy.  The script has one expression for this, made with
the operators of the script.  Here the expression is evaluated, for any values that a script may
compute with and any meaning of the comparisons.  On a valid conditional it is truthy exactly when
the conditional says that the node is shown.

## Main definitions

* `Values` — what a script computes with
* `Values.eval` — the value of an expression; connectives stop as soon as they are decided
* `Condition.Holds`, `Test.Holds`, `Conditional.Holds` — what a document says about a subject

## Main statements

* `Values.eval_logical` — a connective is truthy when its sides are, both or one of them
* `Values.eval_test` — the expression of a test is truthy when the test holds
* `conditional_test_means_document` — the expression of a valid conditional says what the document
  says

## Design notes

An operation on the subject alone compiles to the subject itself and not to a truth value, so all
statements are about whether a value is truthy, and not about which value it is.
-/

namespace ViewGen

/-! ## Values of expressions -/

/-- What a script computes with: values, some of them truthy, with the literals and the results of
comparisons among them. -/
structure Values (V : Type) where
  truthy : V → Bool
  bool : Bool → V
  number : Float → V
  text : String → V
  null : V
  compare : Comparison → V → V → Bool
  truthy_bool : ∀ b, truthy (bool b) = b

namespace Values

variable {V : Type} (m : Values V)

/-- The value of a literal. -/
def scalar : Scalar → V
  | .bool b => m.bool b
  | .number x => m.number x
  | .text s => m.text s

/-- The value of an expression, if it has one.  A connective has the value of its left side if that
decides, and otherwise the value of its right side, which is not looked at before.  What is made of
names, members, calls and the like has the value that `scope` gives. -/
def eval (scope : Expr → Option V) : Expr → Option V
  | .bool b => some (m.bool b)
  | .num x => some (m.number x)
  | .str s => some (m.text s)
  | .null => some m.null
  | .not e => (eval scope e).map fun v => m.bool (!m.truthy v)
  | .compare comparison l r =>
    (eval scope l).bind fun a => (eval scope r).map fun b => m.bool (m.compare comparison a b)
  | .logical .and l r =>
    (eval scope l).bind fun a => if m.truthy a then eval scope r else some a
  | .logical .or l r =>
    (eval scope l).bind fun a => if m.truthy a then some a else eval scope r
  | e => scope e

end Values

/-! ## What a document says about a subject -/

section Meaning

variable {V : Type} (m : Values V) (v : V)

/-- What a condition says about a subject.  A comparison is named by its sign. -/
inductive Condition.Holds : Condition → Prop
  | truthy {operand : Option Scalar} : m.truthy v = true → Holds ⟨.truthy, operand⟩
  | falsy {operand : Option Scalar} : m.truthy v = false → Holds ⟨.falsy, operand⟩
  | compare {operation : Operation} {comparison : Comparison} {x : Scalar} :
      comparison.sign = operation.name → m.compare comparison v (m.scalar x) = true →
        Holds ⟨operation, some x⟩

/-- All of some things, or any of them. -/
def Quantifier.Holds {α : Type} (q : Quantifier) (P : α → Prop) (items : List α) : Prop :=
  match q with
  | .all => ∀ a ∈ items, P a
  | .any => ∃ a ∈ items, P a

/-- What a test says about a subject: all of its conditions hold, or any of them. -/
def Test.Holds (t : Test) : Prop :=
  t.quantifier.Holds (Condition.Holds m v) t.conditions

/-- When a conditional shows its node: the subject equals the value, or there is no value and the
condition holds, or there is neither and the subject is truthy. -/
def Conditional.Holds (c : Conditional Node) : Prop :=
  (∃ x, c.value = some x ∧ m.compare .equal v (m.scalar x) = true) ∨
    (∃ t, c.value = none ∧ c.condition = some t ∧ t.Holds m v) ∨
      c.value = none ∧ c.condition = none ∧ m.truthy v = true

end Meaning

/-! ## Evaluation of tests -/

/-- Both of two propositions, or one of them. -/
def Connective.Joins : Connective → Prop → Prop → Prop
  | .and, p, q => p ∧ q
  | .or, p, q => p ∨ q

theorem Comparison.sign_injective {c c' : Comparison} : c.sign = c'.sign → c = c' := by
  cases c <;> cases c' <;> decide

/-- The comparison of an operation has the sign that names the operation. -/
theorem Operation.comparison?_eq_some_iff {o : Operation} {comparison : Comparison} :
    o.comparison? = some comparison ↔ comparison.sign = o.name := by
  cases o <;> cases comparison <;> decide

theorem Operation.comparison?_eq_none_iff {o : Operation} : o.comparison? = none ↔ o.Unary := by
  cases o <;> simp [comparison?, Unary]

namespace Values

variable {V : Type} {m : Values V} {scope : Expr → Option V} {subject : Expr} {v : V}

theorem eval_ofScalar (x : Scalar) : m.eval scope (Expr.ofScalar x) = some (m.scalar x) := by
  cases x <;> rfl

/-- **A connective is truthy when its sides are**, both or one of them. -/
theorem eval_logical (k : Connective) {l r : Expr} {a b : V} (hl : m.eval scope l = some a)
    (hr : m.eval scope r = some b) :
    ∃ w, m.eval scope (.logical k l r) = some w ∧
      (m.truthy w = true ↔ k.Joins (m.truthy a = true) (m.truthy b = true)) := by
  cases k with
  | and =>
      cases ha : m.truthy a with
      | true => exact ⟨b, by simp [eval, hl, hr, ha], by simp [Connective.Joins]⟩
      | false => exact ⟨a, by simp [eval, hl, ha], by simp [Connective.Joins, ha]⟩
  | or =>
      cases ha : m.truthy a with
      | true => exact ⟨a, by simp [eval, hl, ha], by simp [Connective.Joins, ha]⟩
      | false => exact ⟨b, by simp [eval, hl, hr, ha], by simp [Connective.Joins]⟩

/-- The expression of a condition with the right operand is truthy when the condition holds. -/
theorem eval_condition (hv : m.eval scope subject = some v) {c : Condition}
    (hoperand : c.operand = none ↔ c.operation.Unary) :
    ∃ w, m.eval scope (c.expr subject) = some w ∧ (m.truthy w = true ↔ c.Holds m v) := by
  obtain ⟨operation, operand⟩ := c
  cases hcomparison : operation.comparison? with
  | some comparison =>
      cases operand with
      | none =>
          have hnone := Operation.comparison?_eq_none_iff.mpr (hoperand.mp rfl)
          exact absurd (hcomparison.symm.trans hnone) (by simp)
      | some x =>
          have hexpr : Condition.expr subject ⟨operation, some x⟩ =
              .compare comparison subject (Expr.ofScalar x) := by
            simp [Condition.expr, hcomparison]
          refine ⟨m.bool (m.compare comparison v (m.scalar x)), ?_, ?_⟩
          · rw [hexpr]
            simp [eval, hv, eval_ofScalar]
          · have hsign := Operation.comparison?_eq_some_iff.mp hcomparison
            rw [m.truthy_bool]
            refine ⟨fun htrue => .compare hsign htrue, fun hholds => ?_⟩
            cases hholds with
            | truthy | falsy => exact nomatch hcomparison
            | compare hother htrue =>
                obtain rfl := Comparison.sign_injective (hsign.trans hother.symm)
                exact htrue
  | none =>
      rcases Operation.comparison?_eq_none_iff.mp hcomparison with rfl | rfl
      · refine ⟨v, hv, fun htruthy => .truthy htruthy, fun hholds => ?_⟩
        cases hholds with
        | truthy htruthy => exact htruthy
        | @compare _ comparison _ hsign =>
            exact absurd (Operation.comparison?_eq_some_iff.mpr hsign) (by simp [hcomparison])
      · have heval : m.eval scope (.not subject) = some (m.bool (!m.truthy v)) := by
          simp [eval, hv]
        refine ⟨_, heval, ?_⟩
        rw [m.truthy_bool, Bool.not_eq_true']
        refine ⟨fun hfalsy => .falsy hfalsy, fun hholds => ?_⟩
        cases hholds with
        | falsy hfalsy => exact hfalsy
        | @compare _ comparison _ hsign =>
            exact absurd (Operation.comparison?_eq_some_iff.mpr hsign) (by simp [hcomparison])

/-- Conditions that are joined to an expression one by one. -/
theorem eval_foldl (k : Connective) (hv : m.eval scope subject = some v)
    {conditions : List Condition}
    (hoperands : ∀ c ∈ conditions, c.operand = none ↔ c.operation.Unary) {left : Expr} {a : V}
    (hleft : m.eval scope left = some a) :
    ∃ w, m.eval scope
        (conditions.foldl (fun left c => .logical k left (c.expr subject)) left) = some w ∧
      (m.truthy w = true ↔
        conditions.foldl (fun p c => k.Joins p (c.Holds m v)) (m.truthy a = true)) := by
  induction conditions generalizing left a with
  | nil => exact ⟨a, hleft, Iff.rfl⟩
  | cons c rest ih =>
      obtain ⟨hoperand, hrest⟩ := List.forall_mem_cons.mp hoperands
      obtain ⟨b, hb, hholds⟩ := eval_condition hv hoperand
      obtain ⟨joined, hjoined, htruthy⟩ := eval_logical k hleft hb
      have heq : (m.truthy joined = true) = k.Joins (m.truthy a = true) (c.Holds m v) := by
        rw [← propext hholds]
        exact propext htruthy
      obtain ⟨w, hw, hfold⟩ := ih hrest hjoined
      rw [heq] at hfold
      exact ⟨w, hw, hfold⟩

end Values

/-- Joining one by one with the connective of a quantifier is what the quantifier says. -/
theorem Quantifier.foldl_joins_iff {α : Type} (q : Quantifier) (P : α → Prop) (first : α)
    (rest : List α) :
    rest.foldl (fun p a => q.connective.Joins p (P a)) (P first) ↔ q.Holds P (first :: rest) := by
  have hgeneral : ∀ p : Prop, rest.foldl (fun p a => q.connective.Joins p (P a)) p ↔
      q.connective.Joins p (q.Holds P rest) := by
    induction rest with
    | nil =>
        intro p
        cases q with
        | all => simp [Holds, connective, Connective.Joins]
        | any => simp [Holds, connective, Connective.Joins]
    | cons a rest ih =>
        intro p
        rw [List.foldl_cons, ih]
        cases q with
        | all => simp [Holds, connective, Connective.Joins, and_assoc]
        | any => simp [Holds, connective, Connective.Joins, or_assoc]
  rw [hgeneral]
  cases q with
  | all => simp [Holds, connective, Connective.Joins]
  | any => simp [Holds, connective, Connective.Joins]

/-- **The expression of a test is truthy when the test holds.** -/
theorem Values.eval_test {V : Type} {m : Values V} {scope : Expr → Option V} {subject : Expr}
    {v : V} (hv : m.eval scope subject = some v) {t : Test} (h : t.WellFormed) :
    ∃ w, m.eval scope (t.expr subject) = some w ∧ (m.truthy w = true ↔ t.Holds m v) := by
  obtain ⟨conditions, quantifier⟩ := t
  cases conditions with
  | nil => exact absurd rfl h.conditions
  | cons c rest =>
      obtain ⟨hoperand, hrest⟩ := List.forall_mem_cons.mp h.operands
      obtain ⟨a, ha, hholds⟩ := eval_condition hv hoperand
      obtain ⟨w, hw, hfold⟩ := eval_foldl quantifier.connective hv hrest ha
      rw [propext hholds] at hfold
      exact ⟨w, hw, hfold.trans (quantifier.foldl_joins_iff _ c rest)⟩

/-! ## Conditionals -/

namespace Conditional

variable {c : Conditional Node}

/-- The test of a valid conditional can be carried out, whatever it is made of. -/
theorem wellFormed_test {location : Location}
    (h : Node.validate (.conditional c) location = .ok ()) : c.test.WellFormed := by
  obtain ⟨node, subject, value, condition⟩ := c
  have hdeciding := (validate_conditional_iff.mp h).1
  have hsound : ∀ s defect,
      ¬ (Part.conditional ⟨node, subject, value, condition⟩).Fault s defect := by
    intro s defect hfault
    exact (finds_deciding location _).ok_iff.mp hdeciding _ _
      (faultsOf_alone_iff.mpr ⟨s, defect, hfault, rfl, rfl⟩)
  cases value with
  | some x => exact ⟨by simp [test], by simp [test, Operation.Unary]⟩
  | none =>
      cases condition with
      | some t => exact Part.sound_conditional_iff.mp hsound rfl t rfl
      | none => exact ⟨by simp [test], by simp [test, Operation.Unary]⟩

/-- The test of a conditional holds when the conditional says so. -/
theorem holds_test_iff {V : Type} {m : Values V} {v : V} : c.test.Holds m v ↔ c.Holds m v := by
  obtain ⟨node, subject, value, condition⟩ := c
  cases value with
  | some x =>
      have hcompare : Condition.Holds m v ⟨.equal, some x⟩ ↔
          m.compare .equal v (m.scalar x) = true := by
        refine ⟨fun hholds => ?_, fun htrue => .compare rfl htrue⟩
        cases hholds with
        | @compare _ comparison _ hsign htrue =>
            obtain rfl : comparison = .equal := Comparison.sign_injective hsign
            exact htrue
      simp [test, Test.Holds, Quantifier.Holds, Holds, hcompare]
  | none =>
      cases condition with
      | some t => simp [test, Holds]
      | none =>
          have htruthy : Condition.Holds m v ⟨.truthy, none⟩ ↔ m.truthy v = true := by
            refine ⟨fun hholds => ?_, fun htrue => .truthy htrue⟩
            cases hholds with
            | truthy htrue => exact htrue
          simp [test, Test.Holds, Quantifier.Holds, Holds, htruthy]

end Conditional

/-- **The expression of a valid conditional says what the document says.**  Whatever a script
computes with and whatever the comparisons mean, if the subject has a value then so has the
expression that is built for the test, and it is truthy exactly when the conditional shows its node
for that value.  The test has conditions, and each condition that compares has something to compare
with. -/
theorem conditional_test_means_document {V : Type} (m : Values V) (scope : Expr → Option V)
    (c : Conditional Node) (location : Location)
    (h : Node.validate (.conditional c) location = .ok ()) (subject : Expr) (v : V)
    (hv : m.eval scope subject = some v) :
    (∃ w, m.eval scope (c.test.expr subject) = some w ∧ (m.truthy w = true ↔ c.Holds m v)) ∧
      c.test.conditions ≠ [] ∧
        ∀ condition ∈ c.test.conditions, condition.operation.comparison? ≠ none →
          condition.operand ≠ none := by
  have hwell := Conditional.wellFormed_test h
  obtain ⟨w, hw, htruthy⟩ := Values.eval_test hv hwell
  refine ⟨⟨w, hw, htruthy.trans Conditional.holds_test_iff⟩, hwell.conditions, ?_⟩
  intro condition hcondition hcompares hnone
  exact hcompares (Operation.comparison?_eq_none_iff.mpr
    ((hwell.operands condition hcondition).mp hnone))

/-- The answer of a comparison, from how its sides are ordered. -/
def Comparison.answer (equal less greater : Bool) : Comparison → Bool
  | .equal => equal
  | .notEqual => !equal
  | .greater => greater
  | .greaterOrEqual => greater || equal
  | .less => less
  | .lessOrEqual => less || equal

/-- Literals and nothing else, compared without conversions. -/
def literalValues : Values (Option Scalar) where
  truthy
    | none => false
    | some (.bool b) => b
    | some (.number x) => !(x == 0 || x.isNaN)
    | some (.text s) => !s.isEmpty
  bool b := some (.bool b)
  number x := some (.number x)
  text s := some (.text s)
  null := none
  compare comparison a b :=
    match a, b with
    | none, none => comparison.answer true false false
    | some (.bool x), some (.bool y) => comparison.answer (x == y) (!x && y) (x && !y)
    | some (.number x), some (.number y) => comparison.answer (x == y) (x < y) (y < x)
    | some (.text s), some (.text s') => comparison.answer (s == s') (s < s') (s' < s)
    | _, _ => comparison.answer false false false
  truthy_bool _ := rfl

/-- A reminder that is shown when the status is `late`, and when it is not given. -/
def reminder : Conditional Node where
  node := .element { tag := "b" }
  subject := ⟨"status", .prop⟩
  condition := some ⟨[⟨.equal, some (.text "late")⟩, ⟨.falsy, none⟩], .any⟩

/-- The reminder is shown when the status is empty. -/
theorem reminder_means_document :
    let scope : Expr → Option (Option Scalar) := fun _ => some (some (.text ""))
    Node.validate (.conditional reminder) .root = .ok () ∧
      ∃ w, literalValues.eval scope (reminder.test.expr (Expr.path "props.status")) = some w ∧
        literalValues.truthy w = true := by
  intro scope
  have hvalid : Node.validate (.conditional reminder) .root = .ok () := rfl
  have hsubject : literalValues.eval scope (Expr.path "props.status") = some (some (.text "")) :=
    rfl
  obtain ⟨⟨w, hw, hmeans⟩, -⟩ := conditional_test_means_document literalValues scope reminder .root
    hvalid (Expr.path "props.status") _ hsubject
  have hshown : reminder.Holds literalValues (some (.text "")) :=
    .inr (.inl ⟨_, rfl, rfl, ⟨.falsy, none⟩, by simp, .falsy rfl⟩)
  exact ⟨hvalid, w, hw, hmeans.mpr hshown⟩

end ViewGen
