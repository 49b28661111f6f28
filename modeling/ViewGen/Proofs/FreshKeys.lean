import ViewGen.Proofs.KeyAssignment

/-!
# Nothing but fresh keys

`ViewGen.Proofs.KeyAssignment` follows the keys that are given out.  Here the rest of the tree is
looked at: without its keys it is the tree it was, so its elements are met in the order they had, and
a tree whose elements all have keys is left alone.

## Main definitions

* `Node.eraseKeys` — a tree without keys

## Main statements

* `eraseKeys_assignKeys` — giving out keys changes nothing but keys
* `run_assignKeys_of_keyed` — a tree in which every element has a key is left as it is
* `fresh_keys_assigned` — what the pass that gives out keys does to a component
-/

namespace ViewGen

/-! ## Trees without keys -/

mutual

/-- A tree without keys. -/
def Node.eraseKeys : Node → Node
  | .element e => .element (eraseElementKeys e)
  | .loop ⟨template, source, names⟩ => .loop ⟨eraseElementKeys template, source, names⟩
  | .conditional ⟨node, subject, value, condition⟩ =>
    .conditional ⟨Node.eraseKeys node, subject, value, condition⟩
  | .slot ⟨name, some fallback⟩ => .slot ⟨name, some (Node.eraseKeys fallback)⟩
  | .slot ⟨name, none⟩ => .slot ⟨name, none⟩
  | .static value => .static value
  | .dynamic r => .dynamic r
  | .raw markup => .raw markup

/-- An element without its key and without the keys of the elements inside it. -/
def eraseElementKeys : Element Node → Element Node
  | ⟨tag, name, _, selfClosing, attrs, events, style, children, dependency⟩ =>
    ⟨tag, name, "", selfClosing, eraseAttrKeys attrs, events, style, eraseAllKeys children,
      dependency⟩

/-- Attributes without the keys of the elements inside them. -/
def eraseAttrKeys : List (String × Attribute Node) → List (String × Attribute Node)
  | [] => []
  | (name, .slot content) :: rest => (name, .slot (Node.eraseKeys content)) :: eraseAttrKeys rest
  | (name, .static value) :: rest => (name, .static value) :: eraseAttrKeys rest
  | (name, .dynamic r) :: rest => (name, .dynamic r) :: eraseAttrKeys rest
  | (name, .imported id) :: rest => (name, .imported id) :: eraseAttrKeys rest

/-- Nodes without the keys of the elements inside them. -/
def eraseAllKeys : List Node → List Node
  | [] => []
  | n :: rest => Node.eraseKeys n :: eraseAllKeys rest

end

mutual

/-- **Giving out keys changes nothing but keys.** -/
theorem eraseKeys_assignKeys : ∀ (n : Node) (supply : KeySupply),
    (n.assignKeys.run supply).1.eraseKeys = n.eraseKeys
  | .static _, _ => rfl
  | .dynamic _, _ => rfl
  | .raw _, _ => rfl
  | .element e, supply => congrArg Node.element (eraseKeys_assignElementKeys e supply)
  | .loop ⟨template, source, names⟩, supply =>
      congrArg (fun e => Node.loop ⟨e, source, names⟩) (eraseKeys_assignElementKeys template supply)
  | .conditional ⟨node, subject, value, condition⟩, supply =>
      congrArg (fun n => Node.conditional ⟨n, subject, value, condition⟩)
        (eraseKeys_assignKeys node supply)
  | .slot ⟨_, none⟩, _ => rfl
  | .slot ⟨name, some fallback⟩, supply =>
      congrArg (fun n => Node.slot ⟨name, some n⟩) (eraseKeys_assignKeys fallback supply)

theorem eraseKeys_assignElementKeys : ∀ (e : Element Node) (supply : KeySupply),
    eraseElementKeys ((assignElementKeys e).run supply).1 = eraseElementKeys e
  | ⟨tag, name, key, selfClosing, attrs, events, style, children, dependency⟩, supply => by
      rw [run_assignElementKeys]
      simp only [eraseElementKeys, eraseKeys_assignAttrKeys attrs, eraseKeys_assignAllKeys children]

theorem eraseKeys_assignAttrKeys : ∀ (attrs : List (String × Attribute Node)) (supply : KeySupply),
    eraseAttrKeys ((assignAttrKeys attrs).run supply).1 = eraseAttrKeys attrs
  | [], _ => rfl
  | (name, .static value) :: rest, supply =>
      congrArg ((name, Attribute.static value) :: ·) (eraseKeys_assignAttrKeys rest supply)
  | (name, .dynamic r) :: rest, supply =>
      congrArg ((name, Attribute.dynamic r) :: ·) (eraseKeys_assignAttrKeys rest supply)
  | (name, .imported id) :: rest, supply =>
      congrArg ((name, Attribute.imported id) :: ·) (eraseKeys_assignAttrKeys rest supply)
  | (name, .slot content) :: rest, supply =>
      congrArg₂ (fun n others => (name, Attribute.slot n) :: others)
        (eraseKeys_assignKeys content supply)
        (eraseKeys_assignAttrKeys rest (content.assignKeys.run supply).2)

theorem eraseKeys_assignAllKeys : ∀ (ns : List Node) (supply : KeySupply),
    eraseAllKeys ((assignAllKeys ns).run supply).1 = eraseAllKeys ns
  | [], _ => rfl
  | n :: rest, supply =>
      congrArg₂ List.cons (eraseKeys_assignKeys n supply)
        (eraseKeys_assignAllKeys rest (n.assignKeys.run supply).2)

end

/-- An element that is given a key is otherwise the same, and so are the elements inside it. -/
theorem Element.Rekeyed.eraseElementKeys_eq {used : List String} {e e' : Element Node}
    (h : e.Rekeyed used e') : eraseElementKeys e' = eraseElementKeys e := by
  obtain ⟨supply, -, rfl⟩ := h
  exact eraseKeys_assignElementKeys e supply

/-! ## Trees with all their keys -/

mutual

/-- **A tree in which every element has a key is left as it is.** -/
theorem run_assignKeys_of_keyed : ∀ (n : Node) (supply : KeySupply),
    (∀ e ∈ n.elements, e.key ≠ "") → n.assignKeys.run supply = (n, supply)
  | .static _, _, _ => rfl
  | .dynamic _, _, _ => rfl
  | .raw _, _, _ => rfl
  | .element e, supply, h =>
      congrArg (fun r : Element Node × KeySupply => (Node.element r.1, r.2))
        (run_assignElementKeys_of_keyed e supply h)
  | .loop ⟨template, source, names⟩, supply, h =>
      congrArg (fun r : Element Node × KeySupply => (Node.loop ⟨r.1, source, names⟩, r.2))
        (run_assignElementKeys_of_keyed template supply h)
  | .conditional ⟨node, subject, value, condition⟩, supply, h =>
      congrArg (fun r : Node × KeySupply => (Node.conditional ⟨r.1, subject, value, condition⟩, r.2))
        (run_assignKeys_of_keyed node supply h)
  | .slot ⟨_, none⟩, _, _ => rfl
  | .slot ⟨name, some fallback⟩, supply, h =>
      congrArg (fun r : Node × KeySupply => (Node.slot ⟨name, some r.1⟩, r.2))
        (run_assignKeys_of_keyed fallback supply h)

theorem run_assignElementKeys_of_keyed : ∀ (e : Element Node) (supply : KeySupply),
    (∀ o ∈ Node.elementsOf e, o.key ≠ "") → (assignElementKeys e).run supply = (e, supply)
  | ⟨tag, name, key, selfClosing, attrs, events, style, children, dependency⟩, supply, h => by
      rw [Node.elementsOf, List.forall_mem_cons, List.forall_mem_append] at h
      obtain ⟨hkey, hattrs, hchildren⟩ := h
      rw [run_assignElementKeys, KeySupply.keyFor_of_given hkey,
        run_assignAttrKeys_of_keyed attrs supply hattrs,
        run_assignAllKeys_of_keyed children supply hchildren]

theorem run_assignAttrKeys_of_keyed : ∀ (attrs : List (String × Attribute Node))
    (supply : KeySupply), (∀ o ∈ Node.elementsOfAttrs attrs, o.key ≠ "") →
      (assignAttrKeys attrs).run supply = (attrs, supply)
  | [], _, _ => rfl
  | (name, .static value) :: rest, supply, h =>
      congrArg (fun r : List (String × Attribute Node) × KeySupply =>
        ((name, Attribute.static value) :: r.1, r.2))
        (run_assignAttrKeys_of_keyed rest supply h)
  | (name, .dynamic r) :: rest, supply, h =>
      congrArg (fun s : List (String × Attribute Node) × KeySupply =>
        ((name, Attribute.dynamic r) :: s.1, s.2))
        (run_assignAttrKeys_of_keyed rest supply h)
  | (name, .imported id) :: rest, supply, h =>
      congrArg (fun r : List (String × Attribute Node) × KeySupply =>
        ((name, Attribute.imported id) :: r.1, r.2))
        (run_assignAttrKeys_of_keyed rest supply h)
  | (name, .slot content) :: rest, supply, h => by
      rw [Node.elementsOfAttrs, List.forall_mem_append] at h
      have hcontent := run_assignKeys_of_keyed content supply h.1
      have hrest := run_assignAttrKeys_of_keyed rest supply h.2
      rw [assignAttrKeys, StateT.run_bind, hcontent]
      exact congrArg (fun r : List (String × Attribute Node) × KeySupply =>
        ((name, Attribute.slot content) :: r.1, r.2)) hrest

theorem run_assignAllKeys_of_keyed : ∀ (ns : List Node) (supply : KeySupply),
    (∀ o ∈ Node.elementsOfAll ns, o.key ≠ "") → (assignAllKeys ns).run supply = (ns, supply)
  | [], _, _ => rfl
  | n :: rest, supply, h => by
      rw [Node.elementsOfAll, List.forall_mem_append] at h
      have hn := run_assignKeys_of_keyed n supply h.1
      have hrest := run_assignAllKeys_of_keyed rest supply h.2
      rw [assignAllKeys, StateT.run_bind, hn]
      exact congrArg (fun r : List Node × KeySupply => (n :: r.1, r.2)) hrest

end

/-- Giving out keys a second time changes nothing. -/
theorem Node.withKeys_withKeys (n : Node) : n.withKeys.withKeys = n.withKeys := by
  have hrun := run_assignKeys_of_keyed n.withKeys ⟨n.withKeys.givenKeys, []⟩
    fun _ he => key_ne_empty_of_withKeys he
  calc n.withKeys.withKeys
      = (n.withKeys.assignKeys.run ⟨n.withKeys.givenKeys, []⟩).1 := rfl
    _ = n.withKeys := by rw [hrun]

/-! ## The pass -/

/-- **The pass that gives out keys gives out fresh ones and does nothing else.**  Without keys the
component is the one it was.  Its elements come in the same order and differ in their keys alone:
all of them have one, keys that were there are kept, and a key that is given out belongs to one
element only.  A second run changes nothing. -/
theorem fresh_keys_assigned (d : Draft) :
    ∃ n : Node, keyPass.run d = .ok { d with component := { d.component with node := n } } ∧
      n.eraseKeys = d.component.node.eraseKeys ∧
      List.Forall₂ (fun e e' : Element Node =>
          eraseElementKeys e' = eraseElementKeys e ∧ e'.key ≠ "" ∧
            (e.key ≠ "" → e'.key = e.key) ∧
            (e.key = "" → (n.elements.map (·.key)).count e'.key = 1))
        d.component.node.elements n.elements ∧
      keyPass.run { d with component := { d.component with node := n } } =
        .ok { d with component := { d.component with node := n } } := by
  generalize hn : d.component.node = n
  obtain ⟨used, hkeyed⟩ := n.exists_keyed_withKeys
  have hpairs : List.Forall₂ (fun e' e => e' ∈ n.withKeys.elements ∧ e.Rekeyed n.givenKeys e')
      n.withKeys.elements n.elements :=
    (List.forall₂_and_left _ _).mpr ⟨fun _ he' => he', hkeyed.forall₂.flip⟩
  refine ⟨n.withKeys, ?_, eraseKeys_assignKeys n _, hpairs.flip.imp fun e e' hpair => ?_, ?_⟩
  · rw [← hn]
    rfl
  · obtain ⟨he', hrekeyed⟩ := hpair
    refine ⟨hrekeyed.eraseElementKeys_eq, hrekeyed.key_ne_empty, hrekeyed.key_of_given, ?_⟩
    intro hblank
    exact Node.count_key_of_blank he' (hrekeyed.key_of_blank hblank).2
  · have hagain : n.withKeys.withKeys = n.withKeys := n.withKeys_withKeys
    rw [keyPass]
    simp only [hagain]

end ViewGen
