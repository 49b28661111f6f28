import ViewGen.Proofs.CompiledElements

/-!
# What the lookup holds

The lookup is written to while a tree is compiled, each element after those inside it, and it is read
by passes that meet the elements of the document in another order.  On a tree with keys the two agree
on the elements: the keys in the lookup are those of the elements that the passes meet, less the
fallbacks of slots where these are not compiled.

## Main definitions

* `Node.elementsOutside` — the elements of a tree that are not inside the fallback of a slot

## Main statements

* `perm_compiled` — which elements are compiled
* `mem_keys_foldl_record` — the keys in the lookup are those of the recorded elements
* `lookup_covers_compiled_elements` — the lookup that the compilation of a tree with keys leaves
-/

namespace ViewGen

open Compile (Yields)

/-! ## Which elements are compiled -/

mutual

/-- The elements of a tree that are not inside the fallback of a slot, outer ones before inner
ones. -/
def Node.elementsOutside : Node → List (Element Node)
  | .element e => elementsOutsideOf e
  | .loop ⟨e, _, _⟩ => elementsOutsideOf e
  | .conditional ⟨n, _, _, _⟩ => Node.elementsOutside n
  | .slot _ | .static _ | .dynamic _ | .raw _ => []

/-- An element and the elements inside it that are not inside a fallback. -/
def elementsOutsideOf : Element Node → List (Element Node)
  | ⟨tag, name, key, selfClosing, attrs, events, style, children, dependency⟩ =>
    ⟨tag, name, key, selfClosing, attrs, events, style, children, dependency⟩ ::
      (elementsOutsideOfAttrs attrs ++ elementsOutsideOfAll children)

/-- The elements inside attributes that are not inside a fallback. -/
def elementsOutsideOfAttrs : List (String × Attribute Node) → List (Element Node)
  | [] => []
  | (_, .slot n) :: rest => Node.elementsOutside n ++ elementsOutsideOfAttrs rest
  | (_, .static _) :: rest => elementsOutsideOfAttrs rest
  | (_, .dynamic _) :: rest => elementsOutsideOfAttrs rest
  | (_, .imported _) :: rest => elementsOutsideOfAttrs rest

/-- The elements inside nodes that are not inside a fallback. -/
def elementsOutsideOfAll : List Node → List (Element Node)
  | [] => []
  | n :: rest => Node.elementsOutside n ++ elementsOutsideOfAll rest

end

mutual

/-- **Which elements are compiled.**  All of them are if fallbacks are shown, and those outside
fallbacks otherwise. -/
theorem perm_compiled : ∀ n : Node,
    (n.compiled .fallbackWhenEmpty).Perm n.elements ∧
      (n.compiled .forwardChildren).Perm n.elementsOutside
  | .static _ => ⟨.refl _, .refl _⟩
  | .dynamic _ => ⟨.refl _, .refl _⟩
  | .raw _ => ⟨.refl _, .refl _⟩
  | .element e => perm_compiledOf e
  | .loop ⟨template, _, _⟩ => perm_compiledOf template
  | .conditional ⟨node, _, _, _⟩ => perm_compiled node
  | .slot ⟨_, none⟩ => ⟨.refl _, .refl _⟩
  | .slot ⟨_, some fallback⟩ => ⟨(perm_compiled fallback).1, .refl _⟩

theorem perm_compiledOf : ∀ e : Element Node,
    (compiledOf .fallbackWhenEmpty e).Perm (Node.elementsOf e) ∧
      (compiledOf .forwardChildren e).Perm (elementsOutsideOf e)
  | ⟨tag, name, key, selfClosing, attrs, events, style, children, dependency⟩ => by
      have hattrs := perm_compiledOfAttrs attrs
      have hchildren := perm_compiledOfAll children
      -- The element comes last when it is compiled, and first when it is met.
      rw [compiledOf, compiledOf, Node.elementsOf, elementsOutsideOf]
      constructor
      · exact (List.perm_append_singleton _ _).trans ((hattrs.1.append hchildren.1).cons _)
      · exact (List.perm_append_singleton _ _).trans ((hattrs.2.append hchildren.2).cons _)

theorem perm_compiledOfAttrs : ∀ attrs : List (String × Attribute Node),
    (compiledOfAttrs .fallbackWhenEmpty attrs).Perm (Node.elementsOfAttrs attrs) ∧
      (compiledOfAttrs .forwardChildren attrs).Perm (elementsOutsideOfAttrs attrs)
  | [] => ⟨.refl _, .refl _⟩
  | (_, .static _) :: rest => perm_compiledOfAttrs rest
  | (_, .dynamic _) :: rest => perm_compiledOfAttrs rest
  | (_, .imported _) :: rest => perm_compiledOfAttrs rest
  | (_, .slot content) :: rest =>
      ⟨(perm_compiled content).1.append (perm_compiledOfAttrs rest).1,
        (perm_compiled content).2.append (perm_compiledOfAttrs rest).2⟩

theorem perm_compiledOfAll : ∀ ns : List Node,
    (compiledOfAll .fallbackWhenEmpty ns).Perm (Node.elementsOfAll ns) ∧
      (compiledOfAll .forwardChildren ns).Perm (elementsOutsideOfAll ns)
  | [] => ⟨.refl _, .refl _⟩
  | n :: rest =>
      ⟨(perm_compiled n).1.append (perm_compiledOfAll rest).1,
        (perm_compiled n).2.append (perm_compiledOfAll rest).2⟩

end

/-! ## Keys -/

/-- Recording an element adds its key, if it has one. -/
theorem mem_keys_record {lookup : Dict ElementId} {place : ElementId × Element Node}
    {key : String} :
    key ∈ (record lookup place).keys ↔ key ∈ lookup.keys ∨ key ≠ "" ∧ place.2.key = key := by
  unfold record
  split
  · next hempty =>
    have hnone : ¬(key ≠ "" ∧ place.2.key = key) := by
      rintro ⟨hkey, rfl⟩
      exact hkey (String.isEmpty_iff.mp hempty)
    rw [or_iff_left hnone]
  · next hgiven =>
    have hiff : (key ≠ "" ∧ place.2.key = key) ↔ key = place.2.key := by
      refine ⟨fun h => h.2.symm, ?_⟩
      rintro rfl
      exact ⟨fun hempty => hgiven (String.isEmpty_iff.mpr hempty), rfl⟩
    rw [Dict.keys_insert, hiff]
    split
    · next hthere => exact ⟨.inl, fun h => h.elim id fun heq => heq ▸ hthere⟩
    · rw [List.mem_append, List.mem_singleton]

/-- The keys in the lookup are those that were there and those of the recorded elements. -/
theorem mem_keys_foldl_record {places : List (ElementId × Element Node)} {lookup : Dict ElementId}
    {key : String} : key ∈ (places.foldl record lookup).keys ↔
      key ∈ lookup.keys ∨ key ≠ "" ∧ ∃ place ∈ places, place.2.key = key := by
  induction places generalizing lookup with
  | nil => simp
  | cons place rest ih =>
      rw [List.foldl_cons, ih, mem_keys_record, List.exists_mem_cons_iff, and_or_left, or_assoc]

namespace Recorded

variable {options : CompileOptions} {w w' : Workspace} {places : List (ElementId × Element Node)}

theorem mem_keys_lookup (h : Recorded options w w' places) (hlookup : w.lookup = [])
    (hgiven : ∀ place ∈ places, place.2.key ≠ "") {key : String} :
    key ∈ w'.lookup.keys ↔ key ∈ (places.map (·.2)).map (·.key) := by
  have hnew : key ∉ w.lookup.keys := by
    rw [hlookup]
    exact List.not_mem_nil
  rw [h.lookup, mem_keys_foldl_record, or_iff_right hnew, List.map_map, List.mem_map]
  refine ⟨fun hkey => hkey.2, ?_⟩
  rintro ⟨place, hplace, rfl⟩
  exact ⟨hgiven place hplace, place, hplace, rfl⟩

theorem get?_lookup (h : Recorded options w w' places) (hlookup : w.lookup = [])
    (hgiven : ∀ place ∈ places, place.2.key ≠ "") (key : String) :
    w'.lookup.get? key = (places.filter fun place => place.2.key = key).getLast?.map (·.1) := by
  by_cases hkey : key = ""
  · -- No element has the empty key, so nothing is recorded under it.
    subst hkey
    have hnone : places.filter (fun place => place.2.key = "") = [] := by
      apply List.filter_eq_nil_iff.mpr
      intro place hplace
      simpa using hgiven place hplace
    rw [hnone, List.getLast?_nil, Option.map_none, Dict.get?_eq_none_iff, h.lookup,
      mem_keys_foldl_record, hlookup]
    rintro (hthere | ⟨hne, -⟩)
    · exact List.not_mem_nil hthere
    · exact hne rfl
  · rw [h.lookup, get?_foldl_record places w.lookup hkey, hlookup]
    exact Option.or_none

end Recorded

/-- **The lookup covers the elements that are compiled.**  A tree with keys is compiled in a
workspace without a lookup.  Then the keys in the lookup are those of the elements of the tree, or of
those outside fallbacks if fallbacks are not shown.  Under each key is the position of the last
element that has it, where each comes after those inside it, and at the position is what the
compilation made of the element. -/
theorem lookup_covers_compiled_elements (options : CompileOptions) {d d' : Draft}
    (hkeys : keyPass.run d = .ok d') {imports : ImportTable} {arena : Arena} {t : Target}
    {w : Workspace}
    (h : Yields (compileNode options d'.component.node) { imports, arena } t w) :
    (options.slots = .fallbackWhenEmpty →
      ∀ key, key ∈ w.lookup.keys ↔ key ∈ d'.component.node.elements.map (·.key)) ∧
    (options.slots = .forwardChildren →
      ∀ key, key ∈ w.lookup.keys ↔ key ∈ d'.component.node.elementsOutside.map (·.key)) ∧
    ∃ places : List (ElementId × Element Node),
      places.map (·.2) = d'.component.node.compiled options.slots ∧
      (∀ key, w.lookup.get? key =
        (places.filter fun place => place.2.key = key).getLast?.map (·.1)) ∧
      (options.AddsMarkup →
        places.Pairwise (fun place later => place.1 < later.1) ∧
        ∀ place ∈ places, options.CompiledBetween { imports, arena } w place) := by
  obtain ⟨places, hmap, hrecorded⟩ := exists_recorded_node d'.component.node h
  obtain rfl := Except.ok.inj hkeys
  have hgiven : ∀ place ∈ places, place.2.key ≠ "" := by
    intro place hplace
    have hcompiled : place.2 ∈ places.map (·.2) := List.mem_map_of_mem hplace
    rw [hmap] at hcompiled
    exact Node.key_ne_empty_of_withKeys ((subperm_compiled _).subset hcompiled)
  refine ⟨?_, ?_, places, hmap, hrecorded.get?_lookup rfl hgiven, ?_⟩
  · intro hslots key
    rw [hrecorded.mem_keys_lookup rfl hgiven, hmap, hslots]
    exact ((perm_compiled _).1.map _).mem_iff
  · intro hslots key
    rw [hrecorded.mem_keys_lookup rfl hgiven, hmap, hslots]
    exact ((perm_compiled _).2.map _).mem_iff
  · intro hadds
    exact ⟨(hrecorded.places hadds).sorted, (hrecorded.places hadds).compiled⟩

/-- A notice with marks in an attribute, in a conditional and in the fallback of a slot, all with one
key, and with an entry that is repeated. -/
def notice : Component where
  name := "Notice"
  props := [("title", { type := .string })]
  node := .element {
    tag := "div"
    attrs := [("icon", .slot (.element { tag := "b", key := "mark" }))]
    children := [
      .raw "<hr>",
      .conditional {
        node := .element { tag := "em", key := "mark" }
        subject := ⟨"title", .prop⟩ },
      .loop { template := { tag := "li" }, source := .inline [.text "x", .text "y"] },
      .slot { fallback := some (.element { tag := "i", key := "mark" }) }] }

/-- Options with which the fallback is compiled. -/
def noticeOptions : CompileOptions where
  injectMarkup := some innerMarkup
  slots := .fallbackWhenEmpty

/-- The mark in the fallback is compiled last, so it is the one that is found. -/
theorem notice_finds_last_mark :
    ∃ t w id e, Yields (compileNode noticeOptions notice.node.withKeys) {} t w ∧
      (∀ key, key ∈ w.lookup.keys ↔ key ∈ notice.node.withKeys.elements.map (·.key)) ∧
      w.lookup.get? "mark" = some id ∧ e.tag = "i" ∧
      noticeOptions.CompiledBetween {} w (id, e) := by
  have hadds : noticeOptions.AddsMarkup :=
    (injectsAfter_of_innerMarkup rfl : noticeOptions.InjectsAfter).addsMarkup
  have hkeys : keyPass.run { component := notice, fileName := "notice" } = .ok _ := rfl
  obtain ⟨t, w, hrun⟩ :
      ∃ t w, Yields (compileNode noticeOptions notice.node.withKeys) {} t w := ⟨_, _, rfl⟩
  obtain ⟨hcovers, -, places, hmap, hfound, hplaces⟩ :=
    lookup_covers_compiled_elements noticeOptions hkeys hrun
  have hlast : ((places.filter fun place => place.2.key = "mark").getLast?.map (·.2)).map
      (·.tag) = some "i" := by
    have hfilter : (places.filter fun place => place.2.key = "mark").map (·.2) =
        (places.map (·.2)).filter (fun e => e.key = "mark") := by
      rw [List.filter_map]
      rfl
    rw [← List.getLast?_map, hfilter, hmap]
    rfl
  cases hplace : (places.filter fun place => place.2.key = "mark").getLast? with
  | none =>
      rw [hplace] at hlast
      simp at hlast
  | some place =>
      rw [hplace] at hlast
      have hmem := List.mem_of_mem_filter (List.mem_of_getLast? hplace)
      refine ⟨t, w, place.1, place.2, hrun, hcovers rfl, ?_, ?_, (hplaces hadds).2 place hmem⟩
      · rw [hfound, hplace]
        rfl
      · simpa using hlast

end ViewGen
