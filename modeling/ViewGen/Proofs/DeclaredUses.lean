import ViewGen.Proofs.Dictionaries
import ViewGen.Proofs.Resolution

/-!
# Uses of names and their declarations

Which names a tree uses, and where, is a matter of rules: one for every place in a tree where a
reference or a handler can stand.  A rule says which loops are around the use, where in the document
it stands, and how the walk over the tree gets there.  Whether a use is declared depends on the
component and the loops around it, and on nothing else.

Resolution agrees with the rules.  It succeeds exactly when every use is declared, and otherwise it
reports the first undeclared use on the walk.

## Main definitions

* `Use`, `Place` — a use of a name and where it stands
* `NodeUse`, `ElementUse` — the uses of a tree, rule by rule
* `Use.Declared` — a use has a declaration

## Main statements

* `walks_node`, `walks_element`, … — resolution of each form of node is a walk over its uses
* `resolve_reports_first_undeclared_use` — resolution succeeds when all uses are declared, and
  reports the first one that is not
-/

namespace ViewGen

-- All proofs below rewrite with the equations of these functions; they are generated here, once.
attribute [local simp] Node.resolve resolveElement resolveAttrs resolveNodes

/-! ## Uses -/

/-- A use of a name: a reference, or what a handler of an event sets or calls. -/
inductive Use where
  | reference (reference : Reference)
  | handler (event : String) (handler : Handler)

/-- Where a use stands in a tree: the loops around it, innermost first, the steps that lead there in
the document, and its position on the walk.  Positions are compared as words are. -/
structure Place where
  loops : List LoopNames
  steps : List Step
  position : List Nat

/-- A place in a part of a tree, as a place in the whole. -/
def Place.inside (p : Place) (loops : List LoopNames) (steps : List Step) (position : List Nat) :
    Place :=
  ⟨p.loops ++ loops, steps ++ p.steps, position ++ p.position⟩

mutual

/-- The uses of a node.  A loop is around its key and its template, and not around its source; the
walk goes to the source, then to the key, then to the template. -/
inductive NodeUse : Node → Place → Use → Prop
  | dynamic {r : Reference} : NodeUse (.dynamic r) ⟨[], [], []⟩ (.reference r)
  | element {e : Element Node} {p : Place} {u : Use} :
      ElementUse e p u → NodeUse (.element e) p u
  | source {l : Loop Node} {r : Reference} :
      l.source = .reference r →
        NodeUse (.loop l) ⟨[], [.field "dataSource"], [0]⟩ (.reference r)
  | key {l : Loop Node} :
      NodeUse (.loop l) ⟨[l.names], [.field "meta", .field "iteratorKey"], [1]⟩
        (.reference ⟨l.names.keyPath, .loop⟩)
  | template {l : Loop Node} {p : Place} {u : Use} :
      ElementUse l.template p u → NodeUse (.loop l) (p.inside [l.names] [.field "node"] [2]) u
  | subject {c : Conditional Node} :
      NodeUse (.conditional c) ⟨[], [.field "reference"], [0]⟩ (.reference c.subject)
  | guarded {c : Conditional Node} {p : Place} {u : Use} :
      NodeUse c.node p u → NodeUse (.conditional c) (p.inside [] [.field "node"] [1]) u
  | fallback {s : Slot Node} {n : Node} {p : Place} {u : Use} :
      s.fallback = some n → NodeUse n p u →
        NodeUse (.slot s) (p.inside [] [.field "fallback"] []) u

/-- The uses of an element: first those of its attributes, then those of its style, its events and
its children. -/
inductive ElementUse : Element Node → Place → Use → Prop
  | attr {e : Element Node} {i : Nat} {name : String} {r : Reference} :
      e.attrs[i]? = some (name, .dynamic r) →
        ElementUse e ⟨[], [.field "attrs", .field name], [0, i]⟩ (.reference r)
  | passed {e : Element Node} {i : Nat} {name : String} {n : Node} {p : Place} {u : Use} :
      e.attrs[i]? = some (name, .slot n) → NodeUse n p u →
        ElementUse e (p.inside [] [.field "attrs", .field name] [0, i]) u
  | style {e : Element Node} {i : Nat} {name : String} {r : Reference} :
      e.style[i]? = some (name, .dynamic r) →
        ElementUse e ⟨[], [.field "style", .field name], [1, i]⟩ (.reference r)
  | handler {e : Element Node} {i j : Nat} {event : String} {hs : List Handler} {h : Handler} :
      e.events[i]? = some (event, hs) → hs[j]? = some h →
        ElementUse e ⟨[], [.field "events", .field event], [2, i, j]⟩ (.handler event h)
  | child {e : Element Node} {i : Nat} {n : Node} {p : Place} {u : Use} :
      e.children[i]? = some n → NodeUse n p u →
        ElementUse e (p.inside [] [.field "children", .index i] [3, i]) u

end

/-! ## Declarations -/

/-- A loop binds the name of its items, and `index` if it counts them. -/
def LoopNames.Binds (names : LoopNames) (name : String) : Prop :=
  name = names.iteratorName ∨ names.bindsIndex = true ∧ name = LoopNames.index

/-- A reference has a declaration in the component, or in one of the loops around it. -/
def Reference.Declared (c : Component) (loops : List LoopNames) (r : Reference) : Prop :=
  match r.kind with
  | .prop => r.rootName ∈ c.props.keys
  | .state => r.rootName ∈ c.states.keys
  | .token => r.rootName ∈ c.tokens.keys
  | .loop => ∃ names ∈ loops, names.Binds r.rootName

namespace Use

/-- What is used has a declaration. -/
def Declared (c : Component) (loops : List LoopNames) : Use → Prop
  | .reference r => r.Declared c loops
  | .handler _ (.setState state _) => state ∈ c.states.keys
  | .handler _ (.callProp prop _) => prop ∈ c.props.keys

/-- The error for a use without a declaration. -/
def error (c : Component) (location : Location) : Use → ScopeError
  | .reference r => .unresolved r location c.name
  | .handler event (.setState state _) => .unknownState event state location c.name
  | .handler event (.callProp prop _) => .unknownProp event prop location c.name

end Use

variable {c : Component} {outer : List LoopNames} {location : Location}

theorem LoopNames.mem_bound_iff {names : LoopNames} {name : String} :
    name ∈ names.bound ↔ names.Binds name := by
  rw [bound, Binds]
  cases names.bindsIndex <;> simp

theorem Component.declares_iff {r : Reference} :
    c.declares (outer.flatMap LoopNames.bound) r = true ↔ r.Declared c outer := by
  rw [Component.declares, Reference.Declared]
  cases r.kind with
  | prop => exact Dict.has_iff
  | state => exact Dict.has_iff
  | token => exact Dict.has_iff
  | loop => simp only [List.contains_iff_mem, List.mem_flatMap, LoopNames.mem_bound_iff]

/-! ## Walks -/

theorem lt_of_append_lt_append {start a b : List Nat} (h : start ++ a < start ++ b) : a < b := by
  induction start with
  | nil => exact h
  | cons n rest ih =>
      rcases List.cons_lt_cons_iff.mp h with hlt | ⟨-, hlt⟩
      · exact absurd hlt (Nat.lt_irrefl n)
      · exact ih hlt

/-- Uses at places. -/
abbrev Uses := Place → Use → Prop

namespace Uses

/-- One use, where the walk stands. -/
def single (u : Use) : Uses := fun p v => p = ⟨[], [], []⟩ ∧ v = u

/-- The uses of a part. -/
def inside (U : Uses) (loops : List LoopNames) (steps : List Step) (position : List Nat) : Uses :=
  fun p u => ∃ q, U q u ∧ p = q.inside loops steps position

/-- The uses of some items, where the first item has the number `first`. -/
def listed {α : Type} (V : Nat → α → Uses) (first : Nat) (items : List α) : Uses := fun p u =>
  ∃ i a, items[i]? = some a ∧ (V (first + i) a).inside [] [] [first + i] p u

theorem inside_before {U V : Uses} {loops loops' : List LoopNames} {steps steps' : List Step}
    {a b : Nat} {rest rest' : List Nat} (hlt : a < b) {p q : Place} {u v : Use}
    (hp : U.inside loops steps (a :: rest) p u) (hq : V.inside loops' steps' (b :: rest') q v) :
    p.position < q.position := by
  obtain ⟨p', -, rfl⟩ := hp
  obtain ⟨q', -, rfl⟩ := hq
  exact List.cons_lt_cons_iff.mpr (.inl hlt)

theorem listed_cons_iff {α : Type} {V : Nat → α → Uses} {first : Nat} {a : α} {rest : List α}
    {p : Place} {u : Use} :
    listed V first (a :: rest) p u ↔
      (V first a).inside [] [] [first] p u ∨ listed V (first + 1) rest p u := by
  constructor
  · rintro ⟨i, b, hb, huse⟩
    cases i with
    | zero =>
        obtain rfl := Option.some.inj hb
        exact .inl huse
    | succ i =>
        rw [Nat.add_comm i 1, ← Nat.add_assoc] at huse
        exact .inr ⟨i, b, hb, huse⟩
  · rintro (huse | ⟨i, b, hb, huse⟩)
    · exact ⟨0, a, rfl, huse⟩
    · rw [Nat.add_assoc, Nat.add_comm 1 i] at huse
      exact ⟨i + 1, b, hb, huse⟩

end Uses

/-- A check walks over some uses, with loops around them: the uses stand at different positions; if
the check succeeds then all are declared; if it fails then with the error of the first that is
not. -/
structure Walks (c : Component) (outer : List LoopNames) (location : Location)
    (check : Except ScopeError Unit) (U : Uses) : Prop where
  unique : ∀ {p q u v}, U p u → U q v → p.position = q.position → p = q ∧ u = v
  declared : check = .ok () → ∀ {p u}, U p u → u.Declared c (p.loops ++ outer)
  undeclared : ∀ {e}, check = .error e → ∃ p u, U p u ∧ ¬ u.Declared c (p.loops ++ outer) ∧
    e = u.error c ⟨location.steps ++ p.steps⟩ ∧
      ∀ q v, U q v → q.position < p.position → v.Declared c (q.loops ++ outer)

namespace Walks

variable {check first second : Except ScopeError Unit} {U V : Uses}

theorem congr (h : Walks c outer location check U) (hiff : ∀ p u, V p u ↔ U p u) :
    Walks c outer location check V := by
  have heq : V = U := funext fun p => funext fun u => propext (hiff p u)
  rwa [heq]

theorem of_empty (h : ∀ p u, ¬ U p u) : Walks c outer location (.ok ()) U where
  unique hp := absurd hp (h _ _)
  declared _ _ _ hp := absurd hp (h _ _)
  undeclared herror := nomatch herror

/-- A test whether a use is declared, with the error of the use, is a walk over the use. -/
theorem single {u : Use} {b : Bool} (hb : b = true ↔ u.Declared c outer) :
    Walks c outer location (if b then .ok () else .error (u.error c location)) (.single u) where
  unique := by
    rintro p q u' v' ⟨rfl, rfl⟩ ⟨rfl, rfl⟩ -
    exact ⟨rfl, rfl⟩
  declared := by
    rintro hcheck p u' ⟨rfl, rfl⟩
    split at hcheck
    · next hdeclared => exact hb.mp hdeclared
    · exact nomatch hcheck
  undeclared := by
    intro e hcheck
    split at hcheck
    · exact nomatch hcheck
    · next hundeclared =>
      obtain rfl := Except.error.inj hcheck
      refine ⟨⟨[], [], []⟩, u, ⟨rfl, rfl⟩, fun h => hundeclared (hb.mpr h), ?_, ?_⟩
      · rw [List.append_nil]
      · rintro q v ⟨rfl, rfl⟩ hlt
        exact absurd hlt (List.lt_irrefl _)

/-- A walk over a part is a walk over the part in its place. -/
theorem inside (loops : List LoopNames) {steps : List Step} {inner : Location}
    (h : Walks c (loops ++ outer) inner check U) (hinner : inner.steps = location.steps ++ steps)
    (position : List Nat) :
    Walks c outer location check (U.inside loops steps position) where
  unique := by
    rintro p q u v ⟨p, hp, rfl⟩ ⟨q, hq, rfl⟩ heq
    obtain ⟨rfl, rfl⟩ := h.unique hp hq (List.append_cancel_left heq)
    exact ⟨rfl, rfl⟩
  declared := by
    rintro hcheck p u ⟨p, hp, rfl⟩
    have hdeclared := h.declared hcheck hp
    rwa [← List.append_assoc] at hdeclared
  undeclared := by
    intro e hcheck
    obtain ⟨p, u, hp, hundeclared, he, hfirst⟩ := h.undeclared hcheck
    refine ⟨_, u, ⟨p, hp, rfl⟩, ?_, ?_, ?_⟩
    · rwa [← List.append_assoc] at hundeclared
    · rw [he, hinner, List.append_assoc]
      rfl
    · rintro q v ⟨q, hq, rfl⟩ hlt
      have hdeclared := hfirst q v hq (lt_of_append_lt_append hlt)
      rwa [← List.append_assoc] at hdeclared

/-- Two walks one after the other, when all uses of the first come before those of the second. -/
theorem followedBy (hfirst : Walks c outer location first U)
    (hsecond : Walks c outer location second V)
    (hbefore : ∀ {p q u v}, U p u → V q v → p.position < q.position) :
    Walks c outer location (first >>= fun _ => second) (fun p u => U p u ∨ V p u) where
  unique := by
    rintro p q u v (hp | hp) (hq | hq) heq
    · exact hfirst.unique hp hq heq
    · exact absurd (heq ▸ hbefore hp hq) (List.lt_irrefl _)
    · exact absurd (heq ▸ hbefore hq hp) (List.lt_irrefl _)
    · exact hsecond.unique hp hq heq
  declared := by
    intro hcheck
    obtain ⟨hone, htwo⟩ := check_then_iff.mp hcheck
    rintro p u (hp | hp)
    · exact hfirst.declared hone hp
    · exact hsecond.declared htwo hp
  undeclared := by
    intro e hcheck
    cases hone : first with
    | error e' =>
        rw [hone] at hcheck
        obtain rfl := Except.error.inj hcheck
        obtain ⟨p, u, hp, hundeclared, he, hleast⟩ := hfirst.undeclared hone
        refine ⟨p, u, .inl hp, hundeclared, he, ?_⟩
        rintro q v (hq | hq) hlt
        · exact hleast q v hq hlt
        · exact absurd hlt (List.lt_asymm (hbefore hp hq))
    | ok _ =>
        rw [hone] at hcheck
        obtain ⟨p, u, hp, hundeclared, he, hleast⟩ := hsecond.undeclared hcheck
        refine ⟨p, u, .inr hp, hundeclared, he, ?_⟩
        rintro q v (hq | hq) hlt
        · exact hfirst.declared hone hq
        · exact hleast q v hq hlt

/-- An item without uses can be passed over. -/
theorem skip {α : Type} {W : Nat → α → Uses} {k : Nat} {a : α} {rest : List α}
    (hnone : ∀ p u, ¬ W k a p u) (hrest : Walks c outer location check (.listed W (k + 1) rest)) :
    Walks c outer location check (.listed W k (a :: rest)) := by
  refine hrest.congr fun p u => Uses.listed_cons_iff.trans ⟨?_, .inr⟩
  rintro (⟨q, hq, -⟩ | huse)
  · exact absurd hq (hnone q u)
  · exact huse

/-- A walk over the first item and then over the others. -/
theorem cons {α : Type} {W : Nat → α → Uses} {k : Nat} {a : α} {rest : List α}
    (hfirst : Walks c outer location first (W k a))
    (hrest : Walks c outer location second (.listed W (k + 1) rest)) :
    Walks c outer location (first >>= fun _ => second) (.listed W k (a :: rest)) := by
  have hitem := hfirst.inside [] (List.append_nil _).symm [k]
  refine (hitem.followedBy hrest ?_).congr fun p u => Uses.listed_cons_iff
  rintro p q u v hp ⟨i, b, -, hq⟩
  exact Uses.inside_before (by omega) hp hq

end Walks

/-! ## Resolution as a walk -/

theorem walks_reference (c : Component) (outer : List LoopNames) (location : Location)
    (r : Reference) :
    Walks c outer location (c.checkReference (outer.flatMap LoopNames.bound) r location)
      (.single (.reference r)) := by
  have hdeclared : c.declares (outer.flatMap LoopNames.bound) r = true ↔
      (Use.reference r).Declared c outer := Component.declares_iff
  exact .single hdeclared

theorem walks_handler (c : Component) (outer : List LoopNames) (location : Location)
    (event : String) (h : Handler) :
    Walks c outer location (c.checkHandler event location h) (.single (.handler event h)) := by
  cases h with
  | setState state update =>
      have hdeclared : c.states.has state = true ↔
          (Use.handler event (.setState state update)).Declared c outer := Dict.has_iff
      exact .single hdeclared
  | callProp prop arguments =>
      have hdeclared : c.props.has prop = true ↔
          (Use.handler event (.callProp prop arguments)).Declared c outer := Dict.has_iff
      exact .single hdeclared

/-- The uses of a loop's source. -/
def sourceUses : LoopSource → Uses
  | .reference r => .single (.reference r)
  | .inline _ => fun _ _ => False

theorem walks_source (c : Component) (outer : List LoopNames) (location : Location)
    (source : LoopSource) :
    Walks c outer location (c.checkSource (outer.flatMap LoopNames.bound) location source)
      (sourceUses source) := by
  cases source with
  | reference r => exact walks_reference c outer location r
  | inline items => exact .of_empty fun _ _ h => h

/-- The uses of an entry of a style. -/
def styleUses (_ : Nat) : String × StyleValue → Uses
  | (name, .dynamic r) => (Uses.single (.reference r)).inside [] [.field name] []
  | (_, .static _) => fun _ _ => False

theorem walks_style (c : Component) (outer : List LoopNames) (location : Location)
    (style : List (String × StyleValue)) (first : Nat) :
    Walks c outer location (c.checkStyle (outer.flatMap LoopNames.bound) location style)
      (.listed styleUses first style) := by
  induction style generalizing first with
  | nil => exact .of_empty fun p u ⟨i, a, ha, _⟩ => nomatch ha
  | cons entry rest ih =>
      obtain ⟨name, value⟩ := entry
      cases value with
      | static value => exact .skip (fun p u h => h) (ih _)
      | dynamic r =>
          have hentry := walks_reference c outer (location.field name) r
          exact .cons (hentry.inside [] rfl []) (ih _)

/-- The uses of the handlers of an event. -/
def eventUses (_ : Nat) (entry : String × List Handler) : Uses :=
  (Uses.listed (fun _ h => .single (.handler entry.1 h)) 0 entry.2).inside [] [.field entry.1] []

theorem walks_handlers (c : Component) (outer : List LoopNames) (location : Location)
    (event : String) (hs : List Handler) (first : Nat) :
    Walks c outer location (c.checkHandlers event location hs)
      (.listed (fun _ h => .single (.handler event h)) first hs) := by
  induction hs generalizing first with
  | nil => exact .of_empty fun p u ⟨i, a, ha, _⟩ => nomatch ha
  | cons h rest ih => exact .cons (walks_handler c outer location event h) (ih _)

theorem walks_events (c : Component) (outer : List LoopNames) (location : Location)
    (events : List (String × List Handler)) (first : Nat) :
    Walks c outer location (c.checkEvents location events) (.listed eventUses first events) := by
  induction events generalizing first with
  | nil => exact .of_empty fun p u ⟨i, a, ha, _⟩ => nomatch ha
  | cons entry rest ih =>
      have hentry := walks_handlers c outer (location.field entry.1) entry.1 entry.2 0
      exact .cons (hentry.inside [] rfl []) (ih _)

/-- The uses of an attribute. -/
def attributeUses (_ : Nat) : String × Attribute Node → Uses
  | (name, .dynamic r) => (Uses.single (.reference r)).inside [] [.field name] []
  | (name, .slot n) => Uses.inside (NodeUse n) [] [.field name] []
  | (_, .static _) | (_, .imported _) => fun _ _ => False

/-- The uses of a child. -/
def childUses (position : Nat) (n : Node) : Uses :=
  Uses.inside (NodeUse n) [] [.index position] []

theorem nodeUse_loop_iff {template : Element Node} {source : LoopSource} {names : LoopNames}
    {p : Place} {u : Use} :
    NodeUse (.loop ⟨template, source, names⟩) p u ↔
      (sourceUses source).inside [] [.field "dataSource"] [0] p u ∨
        (Uses.single (.reference ⟨names.keyPath, .loop⟩)).inside [names]
            [.field "meta", .field "iteratorKey"] [1] p u ∨
          Uses.inside (ElementUse template) [names] [.field "node"] [2] p u := by
  constructor
  · rintro (_ | _ | hsource | _ | htemplate)
    · have hsource : source = _ := hsource
      rw [hsource]
      exact .inl ⟨_, ⟨rfl, rfl⟩, rfl⟩
    · exact .inr (.inl ⟨_, ⟨rfl, rfl⟩, rfl⟩)
    · exact .inr (.inr ⟨_, htemplate, rfl⟩)
  · rintro (⟨q, hsource, rfl⟩ | ⟨q, ⟨rfl, rfl⟩, rfl⟩ | ⟨q, htemplate, rfl⟩)
    · cases source with
      | reference r =>
          obtain ⟨rfl, rfl⟩ := hsource
          exact .source rfl
      | inline items => exact hsource.elim
    · exact .key
    · exact .template htemplate

theorem nodeUse_conditional_iff {node : Node} {subject : Reference} {value : Option Scalar}
    {condition : Option Test} {p : Place} {u : Use} :
    NodeUse (.conditional ⟨node, subject, value, condition⟩) p u ↔
      (Uses.single (.reference subject)).inside [] [.field "reference"] [0] p u ∨
        Uses.inside (NodeUse node) [] [.field "node"] [1] p u := by
  constructor
  · rintro (_ | _ | _ | _ | _ | _ | hnode)
    · exact .inl ⟨_, ⟨rfl, rfl⟩, rfl⟩
    · exact .inr ⟨_, hnode, rfl⟩
  · rintro (⟨q, ⟨rfl, rfl⟩, rfl⟩ | ⟨q, hnode, rfl⟩)
    · exact .subject
    · exact .guarded hnode

theorem nodeUse_slot_iff {name : Option String} {fallback : Node} {p : Place} {u : Use} :
    NodeUse (.slot ⟨name, some fallback⟩) p u ↔
      Uses.inside (NodeUse fallback) [] [.field "fallback"] [] p u := by
  constructor
  · intro huse
    cases huse with
    | fallback hfallback hnode =>
        obtain rfl := Option.some.inj hfallback
        exact ⟨_, hnode, rfl⟩
  · rintro ⟨q, hnode, rfl⟩
    exact .fallback rfl hnode

/-- The uses of an element, part by part. -/
theorem elementUse_iff {e : Element Node} {p : Place} {u : Use} :
    ElementUse e p u ↔
      (Uses.listed attributeUses 0 e.attrs).inside [] [.field "attrs"] [0] p u ∨
        (Uses.listed styleUses 0 e.style).inside [] [.field "style"] [1] p u ∨
          (Uses.listed eventUses 0 e.events).inside [] [.field "events"] [2] p u ∨
            (Uses.listed childUses 0 e.children).inside [] [.field "children"] [3] p u := by
  constructor
  · intro huse
    cases huse with
    | attr hattr =>
        exact .inl ⟨_, ⟨_, _, hattr, _, ⟨_, ⟨rfl, rfl⟩, rfl⟩, rfl⟩, by simp [Place.inside]⟩
    | passed hattr hnode =>
        exact .inl ⟨_, ⟨_, _, hattr, _, ⟨_, hnode, rfl⟩, rfl⟩, by simp [Place.inside]⟩
    | style hstyle =>
        exact .inr (.inl ⟨_, ⟨_, _, hstyle, _, ⟨_, ⟨rfl, rfl⟩, rfl⟩, rfl⟩, by simp [Place.inside]⟩)
    | handler hevent hhandler =>
        exact .inr (.inr (.inl ⟨_, ⟨_, _, hevent, _, ⟨_, ⟨_, _, hhandler, _, ⟨rfl, rfl⟩, rfl⟩, rfl⟩,
          rfl⟩, by simp [Place.inside]⟩))
    | child hchild hnode =>
        exact .inr (.inr (.inr ⟨_, ⟨_, _, hchild, _, ⟨_, hnode, rfl⟩, rfl⟩, by
          simp [Place.inside]⟩))
  · rintro (⟨q, ⟨i, ⟨name, attr⟩, hattr, q', huse, rfl⟩, rfl⟩ |
      ⟨q, ⟨i, ⟨name, value⟩, hstyle, q', huse, rfl⟩, rfl⟩ |
      ⟨q, ⟨i, ⟨event, hs⟩, hevent, q', ⟨q'', ⟨j, h, hhandler, _, ⟨rfl, rfl⟩, rfl⟩, rfl⟩, rfl⟩,
        rfl⟩ |
      ⟨q, ⟨i, n, hchild, q', ⟨q'', hnode, rfl⟩, rfl⟩, rfl⟩)
    · cases attr with
      | dynamic r =>
          obtain ⟨q'', ⟨rfl, rfl⟩, rfl⟩ := huse
          simpa [Place.inside] using ElementUse.attr hattr
      | slot n =>
          obtain ⟨q'', hnode, rfl⟩ := huse
          simpa [Place.inside] using ElementUse.passed hattr hnode
      | static value => exact huse.elim
      | imported id => exact huse.elim
    · cases value with
      | dynamic r =>
          obtain ⟨q'', ⟨rfl, rfl⟩, rfl⟩ := huse
          simpa [Place.inside] using ElementUse.style hstyle
      | static value => exact huse.elim
    · simpa [Place.inside] using ElementUse.handler hevent hhandler
    · simpa [Place.inside] using ElementUse.child hchild hnode

mutual

/-- **Resolution of a node is a walk over its uses.** -/
theorem walks_node (c : Component) : ∀ (n : Node) (outer : List LoopNames) (location : Location),
    Walks c outer location (n.resolve c (outer.flatMap LoopNames.bound) location) (NodeUse n)
  | .static value, outer, location => by
      rw [Node.resolve]
      exact .of_empty fun p u huse => nomatch huse
  | .raw markup, outer, location => by
      rw [Node.resolve]
      exact .of_empty fun p u huse => nomatch huse
  | .dynamic r, outer, location => by
      rw [Node.resolve]
      refine (walks_reference c outer location r).congr fun p u => ⟨?_, ?_⟩
      · rintro (_ | _)
        exact ⟨rfl, rfl⟩
      · rintro ⟨rfl, rfl⟩
        exact .dynamic
  | .element e, outer, location => by
      rw [Node.resolve]
      refine (walks_element c e outer location).congr fun p u => ⟨?_, .element⟩
      rintro (_ | huse)
      exact huse
  | .loop ⟨template, source, names⟩, outer, location => by
      have hsource := walks_source c outer (location.field "dataSource") source
      have hkey := walks_reference c ([names] ++ outer)
        ((location.field "meta").field "iteratorKey") ⟨names.keyPath, .loop⟩
      have htemplate := walks_element c template ([names] ++ outer) (location.field "node")
      rw [Node.resolve]
      refine .congr (.followedBy (hsource.inside [] rfl [0]) (.followedBy
        (hkey.inside [names] (List.append_assoc _ _ _) [1])
        (htemplate.inside [names] rfl [2]) ?_) ?_) fun p u => nodeUse_loop_iff
      · exact Uses.inside_before (by decide)
      · rintro p q u v hp (hq | hq)
        · exact Uses.inside_before (by decide) hp hq
        · exact Uses.inside_before (by decide) hp hq
  | .conditional ⟨node, subject, value, condition⟩, outer, location => by
      have hsubject := walks_reference c outer (location.field "reference") subject
      have hnode := walks_node c node outer (location.field "node")
      rw [Node.resolve]
      refine .congr (.followedBy (hsubject.inside [] rfl [0])
        (hnode.inside [] rfl [1]) ?_) fun p u => nodeUse_conditional_iff
      exact Uses.inside_before (by decide)
  | .slot ⟨name, none⟩, outer, location => by
      rw [Node.resolve]
      refine .of_empty fun p u huse => ?_
      cases huse with
      | fallback hfallback hnode => exact nomatch hfallback
  | .slot ⟨name, some fallback⟩, outer, location => by
      have hfallback := walks_node c fallback outer (location.field "fallback")
      rw [Node.resolve]
      exact (hfallback.inside [] rfl []).congr fun p u => nodeUse_slot_iff

theorem walks_element (c : Component) :
    ∀ (e : Element Node) (outer : List LoopNames) (location : Location),
      Walks c outer location (resolveElement c (outer.flatMap LoopNames.bound) e location)
        (ElementUse e)
  | ⟨tag, name, key, selfClosing, attrs, events, style, children, dependency⟩, outer,
      location => by
      have hattrs := walks_attrs c attrs outer (location.field "attrs") 0
      have hstyle := walks_style c outer (location.field "style") style 0
      have hevents := walks_events c outer (location.field "events") events 0
      have hchildren := walks_nodes c children outer (location.field "children") 0
      rw [resolveElement]
      refine .congr (.followedBy (hattrs.inside [] rfl [0]) (.followedBy
        (hstyle.inside [] rfl [1]) (.followedBy (hevents.inside [] rfl [2])
        (hchildren.inside [] rfl [3]) ?_) ?_) ?_) fun p u => elementUse_iff
      · exact Uses.inside_before (by decide)
      · rintro p q u v hp (hq | hq)
        · exact Uses.inside_before (by decide) hp hq
        · exact Uses.inside_before (by decide) hp hq
      · rintro p q u v hp (hq | hq | hq)
        · exact Uses.inside_before (by decide) hp hq
        · exact Uses.inside_before (by decide) hp hq
        · exact Uses.inside_before (by decide) hp hq

theorem walks_attrs (c : Component) :
    ∀ (attrs : List (String × Attribute Node)) (outer : List LoopNames) (location : Location)
      (first : Nat),
      Walks c outer location (resolveAttrs c (outer.flatMap LoopNames.bound) location attrs)
        (.listed attributeUses first attrs)
  | [], outer, location, first => by
      rw [resolveAttrs]
      exact .of_empty fun p u ⟨i, a, ha, _⟩ => nomatch ha
  | (name, .static value) :: rest, outer, location, first => by
      rw [resolveAttrs]
      exact .skip (fun p u h => h) (walks_attrs c rest outer location (first + 1))
  | (name, .imported id) :: rest, outer, location, first => by
      rw [resolveAttrs]
      exact .skip (fun p u h => h) (walks_attrs c rest outer location (first + 1))
  | (name, .dynamic r) :: rest, outer, location, first => by
      have hentry := walks_reference c outer (location.field name) r
      rw [resolveAttrs]
      exact .cons (hentry.inside [] rfl [])
        (walks_attrs c rest outer location (first + 1))
  | (name, .slot content) :: rest, outer, location, first => by
      have hentry := walks_node c content outer (location.field name)
      rw [resolveAttrs]
      exact .cons (hentry.inside [] rfl [])
        (walks_attrs c rest outer location (first + 1))

theorem walks_nodes (c : Component) :
    ∀ (ns : List Node) (outer : List LoopNames) (location : Location) (first : Nat),
      Walks c outer location (resolveNodes c (outer.flatMap LoopNames.bound) location first ns)
        (.listed childUses first ns)
  | [], outer, location, first => by
      rw [resolveNodes]
      exact .of_empty fun p u ⟨i, a, ha, _⟩ => nomatch ha
  | n :: rest, outer, location, first => by
      have hentry := walks_node c n outer (location.index first)
      rw [resolveNodes]
      exact .cons (hentry.inside [] rfl [])
        (walks_nodes c rest outer location (first + 1))

end

/-- **Resolution finds the first undeclared use.**  It succeeds exactly when every use of a name in
the component's tree is declared.  It fails with an error exactly when that is the error of an
undeclared use, for the location of that use, and all uses before it on the walk are declared.  No
two uses are at the same position of the walk. -/
theorem Component.resolve_reports_first_undeclared_use (c : Component) :
    (c.resolve = .ok () ↔ ∀ p u, NodeUse c.node p u → u.Declared c p.loops) ∧
      (∀ e, c.resolve = .error e ↔
        ∃ p u, NodeUse c.node p u ∧ ¬ u.Declared c p.loops ∧ e = u.error c ⟨p.steps⟩ ∧
          ∀ q v, NodeUse c.node q v → q.position < p.position → v.Declared c q.loops) ∧
        ∀ p q u v, NodeUse c.node p u → NodeUse c.node q v → p.position = q.position →
          p = q ∧ u = v := by
  obtain ⟨hunique, hdeclared, hundeclared⟩ := walks_node c c.node [] .root
  simp only [List.append_nil] at hdeclared hundeclared
  have hchecked : c.resolve = c.node.resolve c ([].flatMap LoopNames.bound) .root := rfl
  rw [← hchecked] at hdeclared hundeclared
  refine ⟨⟨fun hok p u => hdeclared hok, fun hall => ?_⟩, fun e => ⟨?_, ?_⟩,
    fun p q u v => hunique⟩
  · cases hresolve : c.resolve with
    | ok _ => rfl
    | error e =>
        obtain ⟨p, u, huse, hnot, -⟩ := hundeclared hresolve
        exact absurd (hall p u huse) hnot
  · intro herror
    exact hundeclared herror
  · rintro ⟨p, u, huse, hnot, rfl, hfirst⟩
    cases hresolve : c.resolve with
    | ok _ => exact absurd (hdeclared hresolve huse) hnot
    | error e =>
        -- Both uses are first, so neither comes before the other.
        obtain ⟨q, v, hv, hvnot, rfl, hvfirst⟩ := hundeclared hresolve
        rcases Std.lt_trichotomy p.position q.position with hlt | heq | hlt
        · exact absurd (hvfirst p u huse hlt) hnot
        · obtain ⟨rfl, rfl⟩ := hunique huse hv heq
          rfl
        · exact absurd (hfirst q v hv hlt) hvnot

end ViewGen
