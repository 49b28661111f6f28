import ViewGen.Draft.Keys
import ViewGen.Proofs.FreshNames

/-!
# Keys for elements

Elements that have no key are given one, outer elements first.  A key that is given out is different
from all keys of the document and from all keys given out before, so it belongs to one element
alone.  Keys of the document are kept, and may belong to several elements.

## Main definitions

* `KeySupply.last` — the last number that was given out for a tag
* `KeySupply.keyFor` — the key of an element and the supply it leaves
* `Element.Rekeyed` — an element with keys given out for it and for what is inside it
* `Keyed` — the elements of a tree before and after keys are given out

## Main statements

* `KeySupply.exists_ends_next` — where the search for a key stops
* `KeySupply.next_fresh` — a key that is given out was not in use
* `keyed_assignKeys` — giving out keys over a whole tree
* `count_key_of_rekeyed` — a key that was in use belongs to as many elements as before
* `Node.count_key_of_blank` — an element without a key gets one of its own
-/

namespace ViewGen

/-! ## One key -/

/-- The last number that was given out for a base. -/
def KeySupply.last (supply : KeySupply) (base : String) : Nat :=
  (supply.counters.get? base).getD 0

open Text in
/-- An element without a key is given the key at which the search from the last number on stops, and
the number of this key is the last one then. -/
theorem KeySupply.exists_ends_next (supply : KeySupply) (tag : String) :
    ∃ m, Ends (counted (camel tag) (supply.last (camel tag))) supply.used
        (fun key => !supply.used.contains key) m ∧
      (supply.next tag).1 = counted (camel tag) (supply.last (camel tag)) m ∧
      (supply.next tag).2.counters =
        supply.counters.insert (camel tag) (supply.last (camel tag) + 1 + m) := by
  obtain ⟨m, hends⟩ := exists_ends_notMem
    (counted_injective (camel tag) (supply.last (camel tag))) supply.used
  have hfound := hends.firstCounted_eq
  rw [last] at hfound
  refine ⟨m, hends, ?_, ?_⟩
  · simp only [next, hfound, Option.getD_some]
    rfl
  · simp only [next, hfound, Option.getD_some]
    rfl

/-- **A key that is given out was not in use**, and is in use afterwards. -/
theorem KeySupply.next_fresh (supply : KeySupply) (tag : String) :
    (supply.next tag).1 ≠ "" ∧ (supply.next tag).1 ∉ supply.used ∧
      (supply.next tag).2.used = (supply.next tag).1 :: supply.used := by
  obtain ⟨m, hends, hkey, -⟩ := supply.exists_ends_next tag
  refine ⟨?_, ?_, rfl⟩
  · rw [hkey, Text.counted]
    intro hempty
    exact Text.toString_ne_empty _ (String.append_eq_empty_iff.mp hempty).2
  · rw [hkey]
    simpa using hends.suits_eq

/-- The key of an element, given out if it has none, and the supply that is left. -/
def KeySupply.keyFor (supply : KeySupply) (e : Element Node) : String × KeySupply :=
  if e.key.isEmpty then supply.next e.tag else (e.key, supply)

theorem KeySupply.keyFor_of_blank {e : Element Node} (h : e.key = "") (supply : KeySupply) :
    supply.keyFor e = supply.next e.tag :=
  if_pos (by rw [h]; rfl)

theorem KeySupply.keyFor_of_given {e : Element Node} (h : e.key ≠ "") (supply : KeySupply) :
    supply.keyFor e = (e.key, supply) :=
  if_neg (by simpa using h)

/-- An element gets its key first, then the attributes and the children do. -/
theorem run_assignElementKeys (e : Element Node) (supply : KeySupply) :
    (assignElementKeys e).run supply =
      ({ e with
          key := (supply.keyFor e).1
          attrs := ((assignAttrKeys e.attrs).run (supply.keyFor e).2).1
          children := ((assignAllKeys e.children).run
            ((assignAttrKeys e.attrs).run (supply.keyFor e).2).2).1 },
        ((assignAllKeys e.children).run
          ((assignAttrKeys e.attrs).run (supply.keyFor e).2).2).2) := by
  obtain ⟨tag, name, key, selfClosing, attrs, events, style, children, dependency⟩ := e
  by_cases hkey : key = ""
  · rw [KeySupply.keyFor_of_blank hkey, assignElementKeys, if_pos (by rw [hkey]; rfl)]
    rfl
  · rw [KeySupply.keyFor_of_given hkey, assignElementKeys, if_neg (by simpa using hkey)]
    rfl

/-- An element with keys given out for it and for what is inside it, while some keys were in use. -/
def Element.Rekeyed (used : List String) (e e' : Element Node) : Prop :=
  ∃ supply : KeySupply, used ⊆ supply.used ∧ e' = ((assignElementKeys e).run supply).1

namespace Element.Rekeyed

variable {used : List String} {e e' : Element Node}

theorem style_eq (h : e.Rekeyed used e') : e'.style = e.style := by
  obtain ⟨supply, -, rfl⟩ := h
  rw [run_assignElementKeys]

/-- A key that an element has is kept. -/
theorem key_of_given (h : e.Rekeyed used e') (hkey : e.key ≠ "") : e'.key = e.key := by
  obtain ⟨supply, -, rfl⟩ := h
  rw [run_assignElementKeys, KeySupply.keyFor_of_given hkey]

/-- A key that an element is given was not in use. -/
theorem key_of_blank (h : e.Rekeyed used e') (hkey : e.key = "") :
    e'.key ≠ "" ∧ e'.key ∉ used := by
  obtain ⟨supply, hused, rfl⟩ := h
  obtain ⟨hnew, hfresh, -⟩ := supply.next_fresh e.tag
  rw [run_assignElementKeys, KeySupply.keyFor_of_blank hkey]
  exact ⟨hnew, fun hmem => hfresh (hused hmem)⟩

theorem key_ne_empty (h : e.Rekeyed used e') : e'.key ≠ "" := by
  by_cases hkey : e.key = ""
  · exact (h.key_of_blank hkey).1
  · rw [h.key_of_given hkey]
    exact hkey

/-- An element has a key that was in use if it had it before. -/
theorem key_eq_iff (h : e.Rekeyed used e') {key : String} (hne : key ≠ "") (hkey : key ∈ used) :
    e'.key = key ↔ e.key = key := by
  by_cases hblank : e.key = ""
  · have hfresh : e'.key ≠ key := fun heq => (h.key_of_blank hblank).2 (heq ▸ hkey)
    rw [hblank]
    exact ⟨fun heq => absurd heq hfresh, fun heq => absurd heq.symm hne⟩
  · rw [h.key_of_given hblank]

end Element.Rekeyed

/-- **A key that was in use belongs to as many elements as before.** -/
theorem count_key_of_rekeyed {used : List String} {es es' : List (Element Node)}
    (h : List.Forall₂ (Element.Rekeyed used) es es') {key : String} (hne : key ≠ "")
    (hkey : key ∈ used) : (es'.map (·.key)).count key = (es.map (·.key)).count key := by
  induction h with
  | nil => rfl
  | cons he _ ih =>
      rw [List.map_cons, List.map_cons, List.count_cons, List.count_cons, ih]
      simp only [beq_iff_eq, he.key_eq_iff hne hkey]

/-! ## All keys of a tree -/

/-- Elements before and after keys are given out, with the keys in use before and after.  A key that
is given out is in use for all elements that follow. -/
inductive Keyed :
    List String → List (Element Node) → List (Element Node) → List String → Prop
  | nil {used : List String} : Keyed used [] [] used
  | given {used used' : List String} {e e' : Element Node} {es es' : List (Element Node)} :
      e.key ≠ "" → e.Rekeyed used e' → Keyed used es es' used' →
        Keyed used (e :: es) (e' :: es') used'
  | blank {used used' : List String} {e e' : Element Node} {es es' : List (Element Node)} :
      e.key = "" → e.Rekeyed used e' → Keyed (e'.key :: used) es es' used' →
        Keyed used (e :: es) (e' :: es') used'

theorem Keyed.append {used used' used'' : List String} {es es' others others' : List (Element Node)}
    (h : Keyed used es es' used') (h' : Keyed used' others others' used'') :
    Keyed used (es ++ others) (es' ++ others') used'' := by
  induction h with
  | nil => exact h'
  | given hkey he _ ih => exact .given hkey he (ih h')
  | blank hkey he _ ih => exact .blank hkey he (ih h')

mutual

/-- **Giving out keys over a whole tree.** -/
theorem keyed_assignKeys : ∀ (n : Node) (supply : KeySupply),
    Keyed supply.used n.elements (n.assignKeys.run supply).1.elements
      (n.assignKeys.run supply).2.used
  | .static _, _ => .nil
  | .dynamic _, _ => .nil
  | .raw _, _ => .nil
  | .element e, supply => keyed_assignElementKeys e supply
  | .loop ⟨template, _, _⟩, supply => keyed_assignElementKeys template supply
  | .conditional ⟨node, _, _, _⟩, supply => keyed_assignKeys node supply
  | .slot ⟨_, none⟩, _ => .nil
  | .slot ⟨_, some fallback⟩, supply => keyed_assignKeys fallback supply

theorem keyed_assignElementKeys : ∀ (e : Element Node) (supply : KeySupply),
    Keyed supply.used (Node.elementsOf e)
      (Node.elementsOf ((assignElementKeys e).run supply).1)
      ((assignElementKeys e).run supply).2.used
  | ⟨tag, name, key, selfClosing, attrs, events, style, children, dependency⟩, supply => by
      let e : Element Node :=
        ⟨tag, name, key, selfClosing, attrs, events, style, children, dependency⟩
      have hinside := (keyed_assignAttrKeys attrs (supply.keyFor e).2).append
        (keyed_assignAllKeys children ((assignAttrKeys attrs).run (supply.keyFor e).2).2)
      have he : e.Rekeyed supply.used ((assignElementKeys e).run supply).1 :=
        ⟨supply, List.Subset.refl _, rfl⟩
      rw [run_assignElementKeys e supply] at he ⊢
      by_cases hkey : key = ""
      · have hnext : supply.keyFor e = supply.next tag := KeySupply.keyFor_of_blank hkey supply
        rw [hnext] at he hinside ⊢
        rw [(supply.next_fresh tag).2.2] at hinside
        exact .blank hkey he hinside
      · have hsame : supply.keyFor e = (key, supply) := KeySupply.keyFor_of_given hkey supply
        rw [hsame] at he hinside ⊢
        exact .given hkey he hinside

theorem keyed_assignAttrKeys : ∀ (attrs : List (String × Attribute Node)) (supply : KeySupply),
    Keyed supply.used (Node.elementsOfAttrs attrs)
      (Node.elementsOfAttrs ((assignAttrKeys attrs).run supply).1)
      ((assignAttrKeys attrs).run supply).2.used
  | [], _ => .nil
  | (_, .static _) :: rest, supply => keyed_assignAttrKeys rest supply
  | (_, .dynamic _) :: rest, supply => keyed_assignAttrKeys rest supply
  | (_, .imported _) :: rest, supply => keyed_assignAttrKeys rest supply
  | (_, .slot content) :: rest, supply =>
      (keyed_assignKeys content supply).append
        (keyed_assignAttrKeys rest (content.assignKeys.run supply).2)

theorem keyed_assignAllKeys : ∀ (ns : List Node) (supply : KeySupply),
    Keyed supply.used (Node.elementsOfAll ns)
      (Node.elementsOfAll ((assignAllKeys ns).run supply).1) ((assignAllKeys ns).run supply).2.used
  | [], _ => .nil
  | n :: rest, supply =>
      (keyed_assignKeys n supply).append
        (keyed_assignAllKeys rest (n.assignKeys.run supply).2)

end

/-! ## Whose keys they are -/

namespace Keyed

variable {used used' : List String} {es es' : List (Element Node)}

theorem subset (h : Keyed used es es' used') : used ⊆ used' := by
  induction h with
  | nil => exact List.Subset.refl _
  | given _ _ _ ih => exact ih
  | blank _ _ _ ih => exact fun key hkey => ih (List.mem_cons_of_mem _ hkey)

/-- Every element is there, with a key. -/
theorem forall₂ (h : Keyed used es es' used') : List.Forall₂ (Element.Rekeyed used) es es' := by
  induction h with
  | nil => exact .nil
  | given _ he _ ih => exact .cons he ih
  | blank _ he _ ih =>
      refine .cons he (ih.imp fun o o' ho => ?_)
      obtain ⟨supply, hused, heq⟩ := ho
      exact ⟨supply, fun key hkey => hused (List.mem_cons_of_mem _ hkey), heq⟩

theorem key_ne_empty (h : Keyed used es es' used') : ∀ e' ∈ es', e'.key ≠ "" := by
  induction h with
  | nil => exact fun _ h => absurd h List.not_mem_nil
  | given _ he _ ih => exact List.forall_mem_cons.mpr ⟨he.key_ne_empty, ih⟩
  | blank _ he _ ih => exact List.forall_mem_cons.mpr ⟨he.key_ne_empty, ih⟩

/-- A key that was not in use belongs to one element at most. -/
theorem count_of_notMem (h : Keyed used es es' used')
    (hgiven : ∀ e ∈ es, e.key ≠ "" → e.key ∈ used) {key : String} (hkey : key ∉ used)
    (hmem : key ∈ es'.map (·.key)) : (es'.map (·.key)).count key = 1 := by
  induction h with
  | nil => exact absurd hmem List.not_mem_nil
  | @given used used' e e' es es' hne he _ ih =>
      obtain ⟨hused, hgiven⟩ := List.forall_mem_cons.mp hgiven
      have hother : e'.key ≠ key := by
        rw [he.key_of_given hne]
        exact fun heq => hkey (heq ▸ hused hne)
      rw [List.map_cons, List.mem_cons] at hmem
      rw [List.map_cons, List.count_cons_of_ne hother]
      exact ih hgiven hkey (hmem.resolve_left (Ne.symm hother))
  | @blank used used' e e' es es' hblank he hrest ih =>
      obtain ⟨-, hgiven⟩ := List.forall_mem_cons.mp hgiven
      rw [List.map_cons, List.mem_cons] at hmem
      by_cases heq : e'.key = key
      · -- The key is given out here; from now on it is in use, and no later element has it.
        subst heq
        have hnone : e'.key ∉ es.map (·.key) := by
          intro hmem
          obtain ⟨o, ho, hsame⟩ := List.mem_map.mp hmem
          exact hkey (hsame ▸ hgiven o ho (hsame ▸ he.key_ne_empty))
        rw [List.map_cons, List.count_cons_self,
          count_key_of_rekeyed hrest.forall₂ he.key_ne_empty List.mem_cons_self,
          List.count_eq_zero.mpr hnone]
      · rw [List.map_cons, List.count_cons_of_ne heq]
        refine ih (fun o ho hne => List.mem_cons_of_mem _ (hgiven o ho hne)) ?_
          (hmem.resolve_left (Ne.symm heq))
        rw [List.mem_cons, not_or]
        exact ⟨Ne.symm heq, hkey⟩

end Keyed

namespace Node

/-- The keys that the elements of a tree have in the document. -/
def givenKeys (n : Node) : List String :=
  (n.elements.map (·.key)).filter fun key => !key.isEmpty

variable {n : Node} {e : Element Node}

theorem mem_givenKeys (he : e ∈ n.elements) (hkey : e.key ≠ "") : e.key ∈ n.givenKeys :=
  List.mem_filter.mpr ⟨List.mem_map_of_mem he, by simpa using hkey⟩

theorem exists_keyed_withKeys (n : Node) :
    ∃ used, Keyed n.givenKeys n.elements n.withKeys.elements used :=
  ⟨_, keyed_assignKeys n ⟨n.givenKeys, []⟩⟩

/-- Afterwards every element has a key. -/
theorem key_ne_empty_of_withKeys {e' : Element Node} (he' : e' ∈ n.withKeys.elements) :
    e'.key ≠ "" := by
  obtain ⟨used, hkeyed⟩ := n.exists_keyed_withKeys
  exact hkeyed.key_ne_empty e' he'

/-- **An element without a key gets one of its own.** -/
theorem count_key_of_blank {e' : Element Node} (he' : e' ∈ n.withKeys.elements)
    (hkey : e'.key ∉ n.givenKeys) : (n.withKeys.elements.map (·.key)).count e'.key = 1 := by
  obtain ⟨used, hkeyed⟩ := n.exists_keyed_withKeys
  exact hkeyed.count_of_notMem (fun _ ho => mem_givenKeys ho) hkey (List.mem_map_of_mem he')

end Node

end ViewGen
