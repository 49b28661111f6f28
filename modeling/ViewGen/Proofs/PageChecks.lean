import ViewGen.Project.Pages
import ViewGen.Proofs.DeclaredUses

/-!
# Pages and the checks of their project

A page is a part of the root of its project, moved out of it and made a component of its own.  It is
compiled without being checked again.  What the checks of the project say about it: its tree is
valid, and every name that it uses is declared, but for the state of the route, which the root
declares and the page does not.

## Main definitions

* `Use.OfState` — a use of a state

## Main statements

* `validate_moved` — where a tree stands does not matter to its validity
* `resolve_iff_declared` — a tree is resolved when its uses are declared, wherever it stands
* `mem_pages_cases` — a page is the whole root, or shows a node of it for a value of the route
* `pages_checked_iff` — which pages the checks accept

## Design notes

Between the root and a page there is no loop: a page is the node of a conditional that is the root
or a child of it.  So the loops around a use are the same in the page and in the root.
-/

namespace ViewGen

-- All proofs below rewrite with the equations of these functions; they are generated here, once.
attribute [local simp] Node.validate validateElement validateAttrs validateNodes

/-! ## Validity -/

section Validity

variable {location location' : Location}

/-- A check that refuses in one case and goes on in the other. -/
theorem refuse_then_iff {ε : Type} {b : Bool} {e : ε} {next : Except ε Unit} :
    (if b then .error e else next) = .ok () ↔ b = false ∧ next = .ok () := by
  cases b <;> simp

theorem validateElement_iff {e : Element Node} :
    validateElement e location = .ok () ↔
      Text.allBlank e.tag = false ∧
        validateAttrs (location.field "attrs") e.attrs = .ok () ∧
        validateNodes (location.field "children") 0 e.children = .ok () := by
  obtain ⟨tag, name, key, selfClosing, attrs, events, style, children, dependency⟩ := e
  rw [validateElement, ← check_then_iff]
  exact refuse_then_iff

theorem validate_conditional_iff {node : Node} {subject : Reference} {value : Option Scalar}
    {condition : Option Test} :
    Node.validate (.conditional ⟨node, subject, value, condition⟩) location = .ok () ↔
      validateDeciding value condition (location.field "condition") = .ok () ∧
        node.validate (location.field "node") = .ok () := by
  rw [Node.validate, check_then_iff]

theorem Component.validate_iff {c : Component} :
    c.validate = .ok () ↔
      Text.allBlank c.name = false ∧ c.node.isRoot = true ∧ c.node.validate .root = .ok () := by
  rw [← Bool.not_eq_false', ← refuse_then_iff]
  exact refuse_then_iff

theorem Condition.validate_moved {c : Condition} (h : c.validate location = .ok ()) :
    c.validate location' = .ok () := by
  unfold validate at h ⊢
  split at h
  · exact nomatch h
  · exact nomatch h
  · rfl

theorem validateConditions_moved {conditions : List Condition} {position : Nat}
    (h : validateConditions location position conditions = .ok ()) :
    validateConditions location' position conditions = .ok () := by
  induction conditions generalizing position with
  | nil => rfl
  | cons c rest ih =>
      rw [validateConditions, check_then_iff] at h ⊢
      exact ⟨Condition.validate_moved h.1, ih h.2⟩

theorem validateDeciding_moved {value : Option Scalar} {condition : Option Test}
    (h : validateDeciding value condition location = .ok ()) :
    validateDeciding value condition location' = .ok () := by
  unfold validateDeciding at h ⊢
  split at h
  · rw [Test.validate, refuse_then_iff] at h ⊢
    exact ⟨h.1, validateConditions_moved h.2⟩
  · rfl

end Validity

mutual

/-- **Where a tree stands does not matter to its validity**, only to the errors. -/
theorem validate_moved : ∀ (n : Node) {location location' : Location},
    n.validate location = .ok () → n.validate location' = .ok ()
  | .static _, _, _, _ => rfl
  | .dynamic _, _, _, _ => rfl
  | .raw _, _, _, _ => rfl
  | .element e, _, _, h => validateElement_moved e h
  | .loop ⟨template, _, _⟩, _, _, h => validateElement_moved template h
  | .conditional ⟨node, _, _, _⟩, _, _, h => by
      rw [validate_conditional_iff] at h ⊢
      exact ⟨validateDeciding_moved h.1, validate_moved node h.2⟩
  | .slot ⟨_, none⟩, _, _, _ => rfl
  | .slot ⟨_, some fallback⟩, _, _, h => validate_moved fallback h

theorem validateElement_moved : ∀ (e : Element Node) {location location' : Location},
    validateElement e location = .ok () → validateElement e location' = .ok ()
  | ⟨tag, name, key, selfClosing, attrs, events, style, children, dependency⟩, _, _, h => by
      rw [validateElement_iff] at h ⊢
      exact ⟨h.1, validateAttrs_moved attrs h.2.1, validateNodes_moved children h.2.2⟩

theorem validateAttrs_moved : ∀ (attrs : List (String × Attribute Node))
    {location location' : Location},
    validateAttrs location attrs = .ok () → validateAttrs location' attrs = .ok ()
  | [], _, _, _ => rfl
  | (_, .static _) :: rest, _, _, h => validateAttrs_moved rest h
  | (_, .dynamic _) :: rest, _, _, h => validateAttrs_moved rest h
  | (_, .imported _) :: rest, _, _, h => validateAttrs_moved rest h
  | (_, .slot content) :: rest, _, _, h => by
      rw [validateAttrs, check_then_iff] at h ⊢
      exact ⟨validate_moved content h.1, validateAttrs_moved rest h.2⟩

theorem validateNodes_moved : ∀ (ns : List Node) {location location' : Location}
    {position position' : Nat},
    validateNodes location position ns = .ok () → validateNodes location' position' ns = .ok ()
  | [], _, _, _, _, _ => rfl
  | n :: rest, _, _, _, _, h => by
      rw [validateNodes, check_then_iff] at h ⊢
      exact ⟨validate_moved n h.1, validateNodes_moved rest h.2⟩

end

/-- Every node of a valid list is valid. -/
theorem validate_of_validateNodes {location location' : Location} {position : Nat} {ns : List Node}
    {n : Node} (h : validateNodes location position ns = .ok ()) (hn : n ∈ ns) :
    n.validate location' = .ok () := by
  induction ns generalizing position with
  | nil => exact absurd hn List.not_mem_nil
  | cons first rest ih =>
      rw [validateNodes, check_then_iff] at h
      rcases List.mem_cons.mp hn with rfl | hrest
      · exact validate_moved n h.1
      · exact ih h.2 hrest

/-! ## Uses -/

/-- A tree is resolved exactly when every use of a name in it is declared, wherever it stands. -/
theorem resolve_iff_declared (c : Component) (n : Node) (outer : List LoopNames)
    (location : Location) :
    n.resolve c (outer.flatMap LoopNames.bound) location = .ok () ↔
      ∀ p u, NodeUse n p u → u.Declared c (p.loops ++ outer) := by
  have hwalk := walks_node c n outer location
  refine ⟨fun h p u huse => hwalk.declared h huse, fun h => ?_⟩
  cases hresolve : n.resolve c (outer.flatMap LoopNames.bound) location with
  | ok _ => rfl
  | error e =>
      obtain ⟨p, u, huse, hundeclared, -⟩ := hwalk.undeclared hresolve
      exact absurd (h p u huse) hundeclared

theorem Component.resolve_iff {c : Component} :
    c.resolve = .ok () ↔ ∀ p u, NodeUse c.node p u → u.Declared c p.loops := by
  have hiff := resolve_iff_declared c c.node [] .root
  simp only [List.append_nil] at hiff
  exact hiff

/-- A use of a state: a reference to it or into it, or a handler that sets it. -/
def Use.OfState (state : String) : Use → Prop
  | .reference r => r.kind = .state ∧ r.rootName = state
  | .handler _ (.setState target _) => target = state
  | .handler _ (.callProp _ _) => False

theorem Dict.mem_keys_filter_ne {α : Type} {d : Dict α} {name removed : String} :
    name ∈ Dict.keys (d.filter fun entry => entry.1 != removed) ↔
      name ∈ d.keys ∧ name ≠ removed := by
  simp only [Dict.keys, List.mem_map, List.mem_filter, bne_iff_ne]
  constructor
  · rintro ⟨entry, ⟨hentry, hne⟩, rfl⟩
    exact ⟨⟨entry, hentry, rfl⟩, hne⟩
  · rintro ⟨⟨entry, hentry, rfl⟩, hne⟩
    exact ⟨entry, ⟨hentry, hne⟩, rfl⟩

/-! ## Pages -/

namespace Component

variable {root : Component}

/-- A page is the whole root, or it shows the node of a conditional for a value of the route. -/
theorem mem_pages_cases {page : Page} (h : page ∈ root.pages) :
    page = { path := "/", component := root, fileName := kebabName root.name } ∨
      ∃ c value, .conditional c ∈ root.pageNodes ∧ c.subject = ⟨routeState, .state⟩ ∧
        c.value = some value ∧ page = root.page value.display c.node := by
  unfold pages at h
  split at h
  · exact .inl (List.mem_singleton.mp h)
  · obtain ⟨node, hnode, hpage⟩ := List.mem_filterMap.mp h
    cases node with
    | conditional c =>
        rw [page?] at hpage
        split at hpage
        · next hsubject =>
          obtain ⟨value, hvalue, rfl⟩ := Option.map_eq_some_iff.mp hpage
          refine .inr ⟨c, value, hnode, ?_, hvalue, rfl⟩
          rw [← hsubject.1, ← hsubject.2]
        · exact nomatch hpage
    | static _ | dynamic _ | raw _ | element _ | loop _ | slot _ => exact nomatch hpage

/-- What a page uses the root uses too, with the same loops around it. -/
theorem exists_use_of_pageNode {c : Conditional Node} (h : .conditional c ∈ root.pageNodes)
    {p : Place} {u : Use} (huse : NodeUse c.node p u) :
    ∃ q, NodeUse root.node q u ∧ q.loops = p.loops := by
  have hguarded : NodeUse (.conditional c) _ u := .guarded huse
  unfold pageNodes at h
  split at h
  · next e hroot =>
    obtain ⟨i, hi, hchild⟩ := List.getElem_of_mem h
    have hthere : e.children[i]? = some (.conditional c) :=
      List.getElem?_eq_some_iff.mpr ⟨hi, hchild⟩
    rw [hroot]
    exact ⟨_, .element (.child hthere hguarded), by simp [Place.inside]⟩
  · rw [← List.mem_singleton.mp h]
    exact ⟨_, hguarded, by simp [Place.inside]⟩

/-- The node of a page is valid when the root is. -/
theorem validate_pageNode (hroot : root.node.validate .root = .ok ()) {c : Conditional Node}
    (h : .conditional c ∈ root.pageNodes) : c.node.validate .root = .ok () := by
  have hconditional : Node.validate (.conditional c) .root = .ok () := by
    unfold pageNodes at h
    split at h
    · next e he =>
      rw [he, Node.validate, validateElement_iff] at hroot
      exact validate_of_validateNodes hroot.2.2 h
    · rw [List.mem_singleton.mp h]
      exact hroot
  exact validate_moved c.node (validate_conditional_iff.mp hconditional).2

theorem isRoot_wrapRoot (n : Node) : (wrapRoot n).isRoot = true := by
  unfold wrapRoot
  split
  · assumption
  · rfl

/-- An element around a node is valid when the node is. -/
theorem validate_wrapRoot {n : Node} (h : n.validate .root = .ok ()) :
    (wrapRoot n).validate .root = .ok () := by
  unfold wrapRoot
  split
  · exact h
  · have htag : Text.allBlank "div" = false := by decide
    refine validateElement_iff.mpr ⟨htag, rfl, ?_⟩
    rw [validateNodes, check_then_iff]
    exact ⟨validate_moved n h, rfl⟩

/-- An element around a node uses what the node uses. -/
theorem exists_use_wrapRoot_iff {n : Node} {u : Use} {loops : List LoopNames} :
    (∃ p, NodeUse (wrapRoot n) p u ∧ p.loops = loops) ↔ ∃ p, NodeUse n p u ∧ p.loops = loops := by
  unfold wrapRoot
  split
  · rfl
  · constructor
    · rintro ⟨p, huse, rfl⟩
      cases huse with
      | element huse =>
          cases huse with
          | attr hattr | passed hattr _ | style hattr | handler hattr _ => exact nomatch hattr
          | @child _ i _ p _ hchild huse =>
              obtain rfl := List.mem_singleton.mp (List.mem_of_getElem? hchild)
              exact ⟨p, huse, by simp [Place.inside]⟩
    · rintro ⟨p, huse, rfl⟩
      refine ⟨_, .element (.child (i := 0) rfl huse), by simp [Place.inside]⟩

/-- A page declares what the root declares, but for the route. -/
theorem declared_page_iff {value : String} {node : Node} {u : Use} {loops : List LoopNames} :
    u.Declared (root.page value node).component loops ↔
      u.Declared root loops ∧ ¬ u.OfState routeState := by
  cases u with
  | reference r =>
      obtain ⟨id, kind⟩ := r
      cases kind with
      | state => simp [Use.Declared, Reference.Declared, Use.OfState, page, Dict.mem_keys_filter_ne]
      | prop | token | loop => simp [Use.Declared, Reference.Declared, Use.OfState, page]
  | handler event h =>
      cases h with
      | setState state update => exact Dict.mem_keys_filter_ne
      | callProp prop arguments => simp [Use.Declared, Use.OfState, page]

end Component

theorem Project.checks_of_resolve {p : Project} (h : p.resolve = .ok ()) :
    p.root.validate = .ok () ∧ p.root.resolve = .ok () := by
  have hmap : ∀ {ε ε' : Type} {f : ε → ε'} {x : Except ε Unit},
      x.mapError f = .ok () → x = .ok () := by
    intro ε ε' f x hx
    cases x with
    | ok _ => rfl
    | error e => exact nomatch hx
  obtain ⟨hvalidate, hresolve⟩ := check_then_iff.mp h
  exact ⟨(check_then_iff.mp (hmap hvalidate)).1, (check_then_iff.mp (hmap hresolve)).1⟩

/-- The tree of a page can be shown and is valid. -/
theorem Component.validate_page {root : Component} (h : root.validate = .ok ()) {page : Page}
    (hpage : page ∈ root.pages) :
    page.component.node.isRoot = true ∧ page.component.node.validate .root = .ok () := by
  obtain ⟨-, hroot, hvalid⟩ := validate_iff.mp h
  rcases mem_pages_cases hpage with rfl | ⟨c, value, hnode, -, -, rfl⟩
  · exact ⟨hroot, hvalid⟩
  · exact ⟨isRoot_wrapRoot c.node, validate_wrapRoot (validate_pageNode hvalid hnode)⟩

/-- A page that shows a node for a value of the route is resolved exactly when nothing in it uses
the route. -/
theorem Component.resolve_page_iff {root : Component} (h : root.resolve = .ok ())
    {c : Conditional Node} (hnode : .conditional c ∈ root.pageNodes) (value : String) :
    (root.page value c.node).component.resolve = .ok () ↔
      ∀ p u, NodeUse (wrapRoot c.node) p u → ¬ u.OfState routeState := by
  have hdeclared : ∀ p u, NodeUse (wrapRoot c.node) p u → u.Declared root p.loops := by
    intro p u huse
    obtain ⟨q, hq, hloops⟩ := exists_use_wrapRoot_iff.mp ⟨p, huse, rfl⟩
    obtain ⟨r, hr, hsame⟩ := exists_use_of_pageNode hnode hq
    rw [← hloops, ← hsame]
    exact resolve_iff.mp h r u hr
  rw [resolve_iff]
  constructor
  · intro hpage p u huse
    exact (declared_page_iff.mp (hpage p u huse)).2
  · intro hroute p u huse
    exact declared_page_iff.mpr ⟨hdeclared p u huse, hroute p u huse⟩

/-- **Which pages the checks accept.**  In a project that is accepted, a page is valid unless its
name is blank, and then that is the error.  Its names are all declared exactly when it is the whole
root or nothing in it uses the state of the route. -/
theorem pages_checked_iff (p : Project) (h : p.resolve = .ok ()) (page : Page)
    (hpage : page ∈ p.root.pages) :
    (page.component.validate = .ok () ↔ Text.allBlank page.component.name = false) ∧
      (∀ e, page.component.validate = .error e ↔
        Text.allBlank page.component.name = true ∧ e = .malformed .root .componentNameBlank) ∧
      (page.component.resolve = .ok () ↔ page.component = p.root ∨
        ∀ place u, NodeUse page.component.node place u → ¬ u.OfState routeState) := by
  obtain ⟨hvalidate, hresolve⟩ := Project.checks_of_resolve h
  obtain ⟨hroot, hvalid⟩ := Component.validate_page hvalidate hpage
  have hvalidated : page.component.validate = .ok () ↔
      Text.allBlank page.component.name = false :=
    Component.validate_iff.trans ⟨fun h => h.1, fun h => ⟨h, hroot, hvalid⟩⟩
  refine ⟨hvalidated, fun e => ?_, ?_⟩
  · cases hblank : Text.allBlank page.component.name with
    | false => simp [hvalidated.mpr hblank]
    | true =>
        rw [Component.validate, if_pos hblank]
        simp [throw, throwThe, MonadExceptOf.throw, bind, Except.bind, eq_comm]
  · rcases Component.mem_pages_cases hpage with rfl | ⟨c, value, hnode, -, -, rfl⟩
    · exact iff_of_true hresolve (.inl rfl)
    · have hpageIff := Component.resolve_page_iff hresolve hnode value.display
      refine ⟨fun hok => .inr (hpageIff.mp hok), ?_⟩
      rintro (hwhole | hroute)
      · rw [hwhole]
        exact hresolve
      · exact hpageIff.mpr hroute

/-- The state of a route that starts at the home page. -/
def homeRoute : StateDefinition := { type := .string, default := .text "home" }

/-- What is shown for a value of the route. -/
def shownAt (value : String) (node : Node) : Node :=
  .conditional { node, subject := ⟨routeState, .state⟩, value := some (.text value) }

/-- A shop with a page for a list of offers and a page that repeats what was searched for. -/
def searchShop : Project where
  name := "Shop"
  root := {
    name := "App"
    props := [("offers", { type := .array })]
    states := [(routeState, homeRoute), ("query", { type := .string, default := .text "" })]
    node := .element {
      tag := "div"
      children := [
        shownAt "home" (.loop {
          template := { tag := "li", children := [.dynamic ⟨"item.title", .loop⟩] }
          source := .reference ⟨"offers", .prop⟩ }),
        shownAt "search" (.dynamic ⟨"query", .state⟩)] } }

/-- The page for the search of the shop, whose node is wrapped and refers to a state. -/
theorem searchShop_pages_checked :
    let page := searchShop.root.page "search" (.dynamic ⟨"query", .state⟩)
    searchShop.resolve = .ok () ∧ page ∈ searchShop.root.pages ∧
      page.component.validate = .ok () ∧ page.component.resolve = .ok () ∧
      ∀ place u, NodeUse page.component.node place u → ¬ u.OfState routeState := by
  intro page
  have hpage : page ∈ searchShop.root.pages := .tail _ (.head _)
  obtain ⟨hvalidate, -, hresolve⟩ := pages_checked_iff searchShop rfl page hpage
  have hresolved : page.component.resolve = .ok () := rfl
  have hother : page.component ≠ searchShop.root := fun h => by
    have hname : "search" = "App" := congrArg Component.name h
    exact absurd hname (by decide)
  exact ⟨rfl, hpage, hvalidate.mpr (by decide), hresolved,
    (hresolve.mp hresolved).resolve_left hother⟩

/-- A shop whose home page has a button that leads to another page, by setting the route. -/
def linkedShop : Project where
  name := "Shop"
  root := {
    name := "App"
    states := [(routeState, homeRoute)]
    node := .element {
      tag := "div"
      children := [
        shownAt "home" (.element {
          tag := "button"
          events := [("click", [.setState routeState (.text "about")])] }),
        shownAt "about" (.element { tag := "p" })] } }

/-- A shop with a page for a blank value of the route. -/
def blankShop : Project where
  name := "Shop"
  root := {
    name := "App"
    states := [(routeState, homeRoute)]
    node := .element { tag := "div", children := [shownAt " " (.element { tag := "p" })] } }

/-- Both shops are accepted, but not their pages: the one with the button sets a state that it does
not declare, and the other one has no name. -/
theorem shops_have_unchecked_pages :
    (linkedShop.resolve = .ok () ∧ ∃ page ∈ linkedShop.root.pages,
      page.component.resolve = .error (.unknownState "click" routeState
        ((Location.root.field "events").field "click") "home")) ∧
    (blankShop.resolve = .ok () ∧ ∃ page ∈ blankShop.root.pages,
      page.component.validate = .error (.malformed .root .componentNameBlank)) :=
  ⟨⟨rfl, _, .head _, rfl⟩, rfl, _, .head _, rfl⟩

end ViewGen
