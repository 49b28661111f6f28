import ViewGen.Document.Shape
import ViewGen.Proofs.DocumentTrees

/-!
# Writing a node and reading it back

A node is written as a tree and the tree is sorted.  The tree has the shape of a node, and reading
it gives the node back.  Sorting puts the entries of a node's dictionaries in another order, so the
node that is read is the same up to the order of attributes, events and style entries, at every
depth.

## Main definitions

* `SameNode`, `SameElement` — two trees are the same up to the order of dictionaries

## Main statements

* `checkNodeWithin_toJson` — the tree of a node has the shape of a node
* `exists_read_toJson` — a node is read back
* `written_tree_fits_and_reads_back` — both, for every node whose dictionaries have distinct keys
-/

namespace ViewGen

open Json

-- All proofs below rewrite with the equations of these functions; they are generated here, once.
attribute [local simp] Node.toJson elementToJson attrsToJson nodesToJson Node.elements
  Node.elementsOf Node.elementsOfAttrs Node.elementsOfAll

/-! ## The shape of the tree -/

namespace Json

theorem exists_of_mem_sortedFields {fields : List (String × Json)} {field : String × Json}
    (h : field ∈ sortedFields fields) : ∃ other ∈ fields, field = (other.1, other.2.sorted) := by
  obtain ⟨other, hother, heq⟩ := List.mem_map.mp (mem_of_mem_sortFields h)
  exact ⟨other, hother, heq.symm⟩

/-- A tag takes a level. -/
theorem exists_levels {kind : String} {content : Json} {levels : Nat}
    (h : (tag kind content).sorted.depth ≤ levels) :
    ∃ l, levels = l + 1 ∧ content.sorted.depth ≤ l := by
  obtain ⟨hlevels, hinner⟩ := depth_sorted_tag_le h
  exact ⟨levels - 1, by omega, hinner⟩

theorem tagOf_sorted_tag (kind : String) (content : Json) (location : Location) :
    (tag kind content).sorted.tagOf location = .ok kind := by
  rw [sorted_tag]
  rfl

theorem checkScalar_toJson (s : Scalar) (location : Location) :
    s.toJson.sorted.checkScalar location = .ok () := by
  cases s <;> rfl

theorem checkReference_toJson (r : Reference) (location : Location) :
    r.toJson.sorted.checkReference location = .ok () := by
  have hsorted : r.toJson.sorted = r.toJson := by
    rw [Reference.toJson, sorted_obj, sortedFields_eq_foldl]
    simp only [List.foldl_cons, List.foldl_nil, sorted]
    rw [insertSorted, insertSorted_of_not_lt (by decide) (by decide), insertSorted]
  rw [hsorted]
  rfl

theorem checkSource_toJson (source : LoopSource) (location : Location) :
    source.toJson.sorted.checkSource location = .ok () := by
  cases source with
  | reference r =>
      rw [checkSource, LoopSource.toJson, tagOf_sorted_tag]
      rfl
  | inline items =>
      rw [checkSource, LoopSource.toJson, tagOf_sorted_tag]
      rfl

theorem checkStyle_of_forall {element location : Location} {fields : List (String × Json)}
    (h : ∀ field ∈ fields, ∃ v : StyleValue, field.2 = v.toJson.sorted) :
    checkStyle element location fields = .ok () := by
  induction fields with
  | nil => rfl
  | cons field rest ih =>
      obtain ⟨name, j⟩ := field
      obtain ⟨v, rfl⟩ := h _ List.mem_cons_self
      have hrest := ih fun field hfield => h field (List.mem_cons_of_mem _ hfield)
      rw [checkStyle]
      cases v with
      | static s =>
          rw [StyleValue.toJson, tagOf_sorted_tag]
          exact hrest
      | dynamic r =>
          rw [StyleValue.toJson, tagOf_sorted_tag]
          exact hrest

theorem tagOf_handler (h : Handler) (location : Location) :
    ∃ kind, h.toJson.sorted.tagOf location = .ok kind ∧
      (kind = "stateChange" ∨ kind = "propCall") := by
  cases h with
  | setState state value =>
      rw [Handler.sorted_setState]
      exact ⟨_, rfl, .inl rfl⟩
  | callProp prop arguments =>
      rw [Handler.sorted_callProp]
      exact ⟨_, rfl, .inr rfl⟩

theorem checkHandlers_toJson (location : Location) (position : Nat) (hs : List Handler) :
    checkHandlers location position ((hs.map Handler.toJson).map sorted) = .ok () := by
  induction hs generalizing position with
  | nil => rfl
  | cons h rest ih =>
      obtain ⟨kind, hkind, hknown⟩ := tagOf_handler h (location.index position)
      rw [List.map_cons, List.map_cons, checkHandlers, hkind]
      change (if _ then _ else _) = _
      rw [if_pos hknown]
      exact ih (position + 1)

theorem checkEvents_of_forall {location : Location} {fields : List (String × Json)}
    (h : ∀ field ∈ fields, ∃ hs : List Handler,
      field.2 = (Json.arr (hs.map Handler.toJson)).sorted) :
    checkEvents location fields = .ok () := by
  induction fields with
  | nil => rfl
  | cons field rest ih =>
      obtain ⟨name, j⟩ := field
      obtain ⟨hs, rfl⟩ := h _ List.mem_cons_self
      have hrest := ih fun field hfield => h field (List.mem_cons_of_mem _ hfield)
      rw [sorted_arr, checkEvents, checkHandlers_toJson]
      exact hrest

theorem checkChildren_of_forall {node : Json → Location → Shape} {location : Location}
    {items : List Json} (position : Nat)
    (h : ∀ j ∈ items, ∀ here, node j here = .ok ()) :
    checkChildren node location position items = .ok () := by
  induction items generalizing position with
  | nil => rfl
  | cons j rest ih =>
      rw [checkChildren, h j List.mem_cons_self]
      exact ih (position + 1) fun j hj => h j (List.mem_cons_of_mem _ hj)

/-- A tree has the shape of an attribute, given the check of a node. -/
def FitsAttribute (node : Json → Location → Shape) (j : Json) : Prop :=
  ∃ kind content, j = (tag kind content).sorted ∧
    (kind = "static" ∨ kind = "dynamic" ∨ kind = "import" ∨
      kind = "slot" ∧ ∀ here, node content.sorted here = .ok ())

theorem checkAttrs_of_forall {node : Json → Location → Shape} {element location : Location}
    {fields : List (String × Json)} (h : ∀ field ∈ fields, FitsAttribute node field.2) :
    checkAttrs node element location fields = .ok () := by
  induction fields with
  | nil => rfl
  | cons field rest ih =>
      obtain ⟨name, j⟩ := field
      obtain ⟨kind, content, rfl, hkind⟩ := h _ List.mem_cons_self
      have hrest := ih fun field hfield => h field (List.mem_cons_of_mem _ hfield)
      rw [sorted_tag, checkAttrs]
      rcases hkind with rfl | rfl | rfl | ⟨rfl, hnode⟩
      · exact hrest
      · exact hrest
      · exact hrest
      · change (node content.sorted _ >>= fun _ => checkAttrs node element location rest) = _
        rw [hnode]
        exact hrest

end Json

/-- The tree of an element has the shape of an element if the trees inside have theirs. -/
theorem checkElement_toJson {node : Json → Location → Shape} {e : Element Node}
    (hattrs : ∀ field ∈ attrsToJson e.attrs, FitsAttribute node field.2.sorted)
    (hchildren : ∀ j ∈ nodesToJson e.children, ∀ here, node j.sorted here = .ok ())
    (location : Location) : checkElement node (elementToJson e).sorted location = .ok () := by
  have hfound : ∀ key j, (key, j) ∈ elementFields e →
      (sortedFields (elementFields e)).lookup key = some j.sorted := by
    intro key j hmem
    rw [lookup_sortedFields ((elementFields_sublist e).nodup nodup_elementFieldNames),
      lookup_elementFields hmem]
    rfl
  have htag := hfound "elementType" (.str e.tag) (by simp [elementFields])
  have hattrs' : checkAttrs node location (location.field "attrs")
      (sortedFields (attrsToJson e.attrs)) = .ok () := by
    refine checkAttrs_of_forall fun field hfield => ?_
    obtain ⟨other, hother, rfl⟩ := exists_of_mem_sortedFields hfield
    exact hattrs other hother
  have hstyle : checkStyle location (location.field "style") (sortedFields
      (e.style.map fun entry => (entry.1, entry.2.toJson))) = .ok () := by
    refine checkStyle_of_forall fun field hfield => ?_
    obtain ⟨other, hother, rfl⟩ := exists_of_mem_sortedFields hfield
    obtain ⟨entry, -, rfl⟩ := List.mem_map.mp hother
    exact ⟨entry.2, rfl⟩
  have hevents : checkEvents (location.field "events") (sortedFields
      (e.events.map fun entry => (entry.1, .arr (entry.2.map Handler.toJson)))) = .ok () := by
    refine checkEvents_of_forall fun field hfield => ?_
    obtain ⟨other, hother, rfl⟩ := exists_of_mem_sortedFields hfield
    obtain ⟨entry, -, rfl⟩ := List.mem_map.mp hother
    exact ⟨entry.2, rfl⟩
  have hchildren' : checkChildren node (location.field "children") 0
      ((nodesToJson e.children).map sorted) = .ok () := by
    refine checkChildren_of_forall 0 fun j hj => ?_
    obtain ⟨other, hother, rfl⟩ := List.mem_map.mp hj
    exact hchildren other hother
  have hattrsField := hfound "attrs" (.obj (attrsToJson e.attrs)) (by simp [elementFields])
  have hstyleField := hfound "style" (ofDict StyleValue.toJson e.style) (by simp [elementFields])
  have heventsField := hfound "events"
    (ofDict (fun handlers => .arr (handlers.map Handler.toJson)) e.events) (by simp [elementFields])
  have hchildrenField := hfound "children" (.arr (nodesToJson e.children))
    (by simp [elementFields])
  rw [ofDict] at hstyleField heventsField
  rw [sorted_obj] at hattrsField hstyleField heventsField
  rw [sorted_arr] at hchildrenField
  have hlabel : (Json.str e.tag).sorted = .str e.tag := rfl
  rw [elementToJson_eq, sorted_obj, checkElement]
  simp only [bind, Except.bind, asObject, htag, hlabel, ifPresent, hattrsField, hattrs',
    hstyleField, hstyle, heventsField, hevents, hchildrenField, hchildren']

/-- The tree of a loop has the shape of a loop if the tree of its template has the shape of a
node. -/
theorem checkLoop_toJson {node : Json → Location → Shape} {l : Loop Node}
    (htemplate : ∀ here, node (tag "element" (elementToJson l.template)).sorted here = .ok ())
    (location : Location) : checkLoop node (Json.obj (loopFields l)).sorted location = .ok () := by
  have hlookup := lookup_sortedFields (by simp [loopFields] : ((loopFields l).map Prod.fst).Nodup)
  have hnode : (sortedFields (loopFields l)).lookup "node" = some _ := hlookup "node"
  have hsource : (sortedFields (loopFields l)).lookup "dataSource" = some _ := hlookup "dataSource"
  rw [sorted_obj, checkLoop]
  simp only [bind, Except.bind, asObject, needField, hnode, htemplate, tagOf_sorted_tag, hsource]
  exact checkSource_toJson l.source _

theorem checkConditional_toJson {node : Json → Location → Shape} {c : Conditional Node}
    (hinner : ∀ here, node c.node.toJson.sorted here = .ok ()) (location : Location) :
    checkConditional node (Json.obj (conditionalFields c)).sorted location = .ok () := by
  have hlookup := lookup_sortedFields ((conditionalFields_sublist c).nodup (by decide))
  have hnode : (sortedFields (conditionalFields c)).lookup "node" = some _ := hlookup "node"
  have hreference : (sortedFields (conditionalFields c)).lookup "reference" = some _ :=
    hlookup "reference"
  rw [sorted_obj, checkConditional]
  simp only [bind, Except.bind, asObject, needField, hnode, hinner, tagOf_sorted_tag, hreference]
  rfl

theorem checkSlot_toJson {node : Json → Location → Shape} {s : Slot Node}
    (hfallback : ∀ n, s.fallback = some n → ∀ here, node n.toJson.sorted here = .ok ())
    (location : Location) : checkSlot node (Json.obj (slotFields s)).sorted location = .ok () := by
  have hlookup := lookup_sortedFields ((slotFields_sublist s).nodup (by decide)) "fallback"
  have hfound : (slotFields s).lookup "fallback" = s.fallback.map Node.toJson := by
    simp [slotFields, List.lookup_append, lookup_present]
  rw [hfound] at hlookup
  rw [sorted_obj, checkSlot]
  simp only [bind, Except.bind, asObject, ifPresent, hlookup]
  cases hs : s.fallback with
  | none => rfl
  | some n => exact hfallback n hs _

/-- No dictionary of an element has a key twice. -/
structure Element.DistinctKeys (e : Element Node) : Prop where
  attrs : (e.attrs.map Prod.fst).Nodup
  events : (e.events.map Prod.fst).Nodup
  style : (e.style.map Prod.fst).Nodup

instance (e : Element Node) : Decidable e.DistinctKeys :=
  decidable_of_iff ((e.attrs.map Prod.fst).Nodup ∧ (e.events.map Prod.fst).Nodup ∧
      (e.style.map Prod.fst).Nodup)
    ⟨fun ⟨hattrs, hevents, hstyle⟩ => ⟨hattrs, hevents, hstyle⟩,
      fun h => ⟨h.attrs, h.events, h.style⟩⟩

/-- The attributes and the children of an element are two levels down. -/
theorem exists_levels_element {e : Element Node} (hdistinct : e.DistinctKeys) {levels : Nat}
    (h : (elementToJson e).sorted.depth ≤ levels) :
    ∃ l, levels = l + 1 + 1 ∧ (∀ field ∈ attrsToJson e.attrs, field.2.sorted.depth ≤ l) ∧
      ∀ j ∈ nodesToJson e.children, j.sorted.depth ≤ l := by
  rw [elementToJson_eq] at h
  obtain ⟨hlevels, hinner⟩ := depth_fields_le
    ((elementFields_sublist e).nodup nodup_elementFieldNames) h
  have hattrs := hinner ("attrs", .obj (attrsToJson e.attrs)) (by simp [elementFields])
  have hchildren := hinner ("children", .arr (nodesToJson e.children)) (by simp [elementFields])
  have hkeys : ((attrsToJson e.attrs).map Prod.fst).Nodup := by
    rw [map_fst_attrsToJson]
    exact hdistinct.attrs
  obtain ⟨hlevels', hattrs'⟩ := depth_fields_le hkeys hattrs
  refine ⟨levels - 1 - 1, by omega, hattrs', ?_⟩
  rw [sorted_arr] at hchildren
  exact fun j hj => (depth_arr_le hchildren).2 _ (List.mem_map.mpr ⟨j, hj, rfl⟩)

mutual

/-- The tree of a node has the shape of a node. -/
theorem checkNodeWithin_toJson : ∀ (n : Node) {levels : Nat}, n.toJson.sorted.depth ≤ levels →
    (∀ e ∈ n.elements, e.DistinctKeys) →
      ∀ location, checkNodeWithin levels n.toJson.sorted location = .ok ()
  | .static value, levels, hdepth, hkeys, location => by
      rw [Node.toJson] at hdepth ⊢
      obtain ⟨l, rfl, -⟩ := exists_levels hdepth
      rw [sorted_tag]
      exact checkScalar_toJson value _
  | .dynamic r, levels, hdepth, hkeys, location => by
      rw [Node.toJson] at hdepth ⊢
      obtain ⟨l, rfl, -⟩ := exists_levels hdepth
      rw [sorted_tag]
      exact checkReference_toJson r (location.field "content")
  | .raw markup, levels, hdepth, hkeys, location => by
      rw [Node.toJson] at hdepth ⊢
      obtain ⟨l, rfl, -⟩ := exists_levels hdepth
      rw [sorted_tag]
      rfl
  | .element e, levels, hdepth, hkeys, location => by
      rw [Node.toJson] at hdepth ⊢
      obtain ⟨l, rfl, hinner⟩ := exists_levels hdepth
      rw [Node.elements] at hkeys
      rw [sorted_tag]
      exact checkElementWithin_toJson e hinner hkeys _
  | .loop ⟨template, source, names⟩, levels, hdepth, hkeys, location => by
      rw [Node.toJson_loop] at hdepth ⊢
      obtain ⟨l, rfl, hinner⟩ := exists_levels hdepth
      obtain ⟨-, hfields⟩ := depth_fields_le (by simp [loopFields]) hinner
      have hnode := hfields ("node", .tag "element" (elementToJson template)) (by simp [loopFields])
      rw [Node.elements] at hkeys
      rw [sorted_tag]
      refine checkLoop_toJson (fun here => ?_) (location.field "content")
      obtain ⟨k, rfl, htemplate⟩ := exists_levels (Nat.le_trans hnode (Nat.sub_le _ _))
      rw [sorted_tag]
      exact checkElementWithin_toJson template htemplate hkeys (here.field "content")
  | .conditional ⟨node, subject, value, condition⟩, levels, hdepth, hkeys, location => by
      rw [Node.toJson_conditional] at hdepth ⊢
      obtain ⟨l, rfl, hinner⟩ := exists_levels hdepth
      obtain ⟨-, hfields⟩ := depth_fields_le
        ((conditionalFields_sublist _).nodup (by decide)) hinner
      have hnode := hfields ("node", node.toJson) (by simp [conditionalFields])
      rw [Node.elements] at hkeys
      rw [sorted_tag]
      exact checkConditional_toJson
        (checkNodeWithin_toJson node (Nat.le_trans hnode (Nat.sub_le _ _)) hkeys)
        (location.field "content")
  | .slot ⟨name, none⟩, levels, hdepth, hkeys, location => by
      rw [Node.toJson_slot] at hdepth ⊢
      obtain ⟨l, rfl, -⟩ := exists_levels hdepth
      rw [sorted_tag]
      exact checkSlot_toJson (fun n hn => absurd hn (Option.some_ne_none n).symm)
        (location.field "content")
  | .slot ⟨name, some fallback⟩, levels, hdepth, hkeys, location => by
      rw [Node.toJson_slot] at hdepth ⊢
      obtain ⟨l, rfl, hinner⟩ := exists_levels hdepth
      obtain ⟨-, hfields⟩ := depth_fields_le ((slotFields_sublist _).nodup (by decide)) hinner
      have hfallback := hfields ("fallback", fallback.toJson) (by simp [slotFields, present])
      rw [Node.elements] at hkeys
      have hnode := checkNodeWithin_toJson fallback
        (Nat.le_trans hfallback (Nat.sub_le _ _)) hkeys
      rw [sorted_tag]
      exact checkSlot_toJson (fun n hn => Option.some.inj hn ▸ hnode) (location.field "content")

theorem checkElementWithin_toJson : ∀ (e : Element Node) {levels : Nat},
    (elementToJson e).sorted.depth ≤ levels → (∀ e' ∈ Node.elementsOf e, e'.DistinctKeys) →
      ∀ location, checkElement (checkNodeWithin levels) (elementToJson e).sorted location = .ok ()
  | ⟨tag, name, key, selfClosing, attrs, events, style, children, dependency⟩, levels, hdepth,
      hkeys, location => by
      rw [Node.elementsOf, List.forall_mem_cons, List.forall_mem_append] at hkeys
      obtain ⟨hdistinct, hattrs, hchildren⟩ := hkeys
      obtain ⟨l, rfl, hattrsDepth, hchildrenDepth⟩ := exists_levels_element hdistinct hdepth
      have hless : l ≤ l + 1 + 1 := by omega
      refine checkElement_toJson ?_ ?_ location
      · exact fitsAttribute_toJson attrs
          (fun field hfield => Nat.le_trans (hattrsDepth field hfield) hless) hattrs
      · exact checkNodesWithin_toJson children
          (fun j hj => Nat.le_trans (hchildrenDepth j hj) hless) hchildren

theorem fitsAttribute_toJson : ∀ (attrs : List (String × Attribute Node)) {levels : Nat},
    (∀ field ∈ attrsToJson attrs, field.2.sorted.depth ≤ levels) →
      (∀ e ∈ Node.elementsOfAttrs attrs, e.DistinctKeys) →
        ∀ field ∈ attrsToJson attrs, FitsAttribute (checkNodeWithin levels) field.2.sorted
  | [], levels, hdepth, hkeys => fun _ h => nomatch h
  | (name, .static value) :: rest, levels, hdepth, hkeys => by
      rw [attrsToJson, List.forall_mem_cons] at hdepth ⊢
      rw [Node.elementsOfAttrs] at hkeys
      exact ⟨⟨_, _, rfl, .inl rfl⟩, fitsAttribute_toJson rest hdepth.2 hkeys⟩
  | (name, .dynamic r) :: rest, levels, hdepth, hkeys => by
      rw [attrsToJson, List.forall_mem_cons] at hdepth ⊢
      rw [Node.elementsOfAttrs] at hkeys
      exact ⟨⟨_, _, rfl, .inr (.inl rfl)⟩, fitsAttribute_toJson rest hdepth.2 hkeys⟩
  | (name, .imported id) :: rest, levels, hdepth, hkeys => by
      rw [attrsToJson, List.forall_mem_cons] at hdepth ⊢
      rw [Node.elementsOfAttrs] at hkeys
      exact ⟨⟨_, _, rfl, .inr (.inr (.inl rfl))⟩, fitsAttribute_toJson rest hdepth.2 hkeys⟩
  | (name, .slot content) :: rest, levels, hdepth, hkeys => by
      rw [attrsToJson, List.forall_mem_cons] at hdepth ⊢
      rw [Node.elementsOfAttrs, List.forall_mem_append] at hkeys
      have hcontent := (depth_sorted_tag_le hdepth.1).2
      have hnode := checkNodeWithin_toJson content (Nat.le_trans hcontent (Nat.sub_le _ _)) hkeys.1
      exact ⟨⟨_, _, rfl, .inr (.inr (.inr ⟨rfl, hnode⟩))⟩,
        fitsAttribute_toJson rest hdepth.2 hkeys.2⟩

theorem checkNodesWithin_toJson : ∀ (ns : List Node) {levels : Nat},
    (∀ j ∈ nodesToJson ns, j.sorted.depth ≤ levels) →
      (∀ e ∈ Node.elementsOfAll ns, e.DistinctKeys) →
        ∀ j ∈ nodesToJson ns, ∀ location, checkNodeWithin levels j.sorted location = .ok ()
  | [], levels, hdepth, hkeys => fun _ h => nomatch h
  | n :: rest, levels, hdepth, hkeys => by
      rw [nodesToJson, List.forall_mem_cons] at hdepth ⊢
      rw [Node.elementsOfAll, List.forall_mem_append] at hkeys
      exact ⟨checkNodeWithin_toJson n hdepth.1 hkeys.1,
        checkNodesWithin_toJson rest hdepth.2 hkeys.2⟩

end

/-! ## Reading the tree -/

mutual

/-- Two nodes are the same up to the order of dictionaries. -/
inductive SameNode : Node → Node → Prop
  | static {value : Scalar} : SameNode (.static value) (.static value)
  | dynamic {r : Reference} : SameNode (.dynamic r) (.dynamic r)
  | raw {markup : String} : SameNode (.raw markup) (.raw markup)
  | element {e e' : Element Node} : SameElement e e' → SameNode (.element e) (.element e')
  | loop {template template' : Element Node} {source : LoopSource} {names : LoopNames} :
      SameElement template template' →
        SameNode (.loop ⟨template, source, names⟩) (.loop ⟨template', source, names⟩)
  | conditional {n n' : Node} {subject : Reference} {value : Option Scalar}
      {condition : Option Test} :
      SameNode n n' → SameNode (.conditional ⟨n, subject, value, condition⟩)
        (.conditional ⟨n', subject, value, condition⟩)
  | slot {name : Option String} : SameNode (.slot ⟨name, none⟩) (.slot ⟨name, none⟩)
  | fallback {name : Option String} {n n' : Node} :
      SameNode n n' → SameNode (.slot ⟨name, some n⟩) (.slot ⟨name, some n'⟩)

/-- Two elements have the same attributes, events and style entries, in any order, and else the same
fields. -/
inductive SameElement : Element Node → Element Node → Prop
  | intro {e : Element Node} {attrs attrs' : List (String × Attribute Node)}
      {events : List (String × List Handler)} {style : List (String × StyleValue)}
      {children : List Node} :
      SameAttrs e.attrs attrs → attrs'.Perm attrs → events.Perm e.events → style.Perm e.style →
        SameNodes e.children children →
          SameElement e { e with attrs := attrs', events, style, children }

/-- Attributes with the same names and the same values, one by one. -/
inductive SameAttrs : List (String × Attribute Node) → List (String × Attribute Node) → Prop
  | nil : SameAttrs [] []
  | static {name : String} {value : Scalar} {rest rest' : List (String × Attribute Node)} :
      SameAttrs rest rest' →
      SameAttrs ((name, .static value) :: rest) ((name, .static value) :: rest')
  | dynamic {name : String} {r : Reference} {rest rest' : List (String × Attribute Node)} :
      SameAttrs rest rest' → SameAttrs ((name, .dynamic r) :: rest) ((name, .dynamic r) :: rest')
  | imported {name id : String} {rest rest' : List (String × Attribute Node)} :
      SameAttrs rest rest' →
      SameAttrs ((name, .imported id) :: rest) ((name, .imported id) :: rest')
  | slot {name : String} {n n' : Node} {rest rest' : List (String × Attribute Node)} :
      SameNode n n' → SameAttrs rest rest' →
        SameAttrs ((name, .slot n) :: rest) ((name, .slot n') :: rest')

/-- Nodes that are the same, one by one. -/
inductive SameNodes : List Node → List Node → Prop
  | nil : SameNodes [] []
  | cons {n n' : Node} {rest rest' : List Node} :
      SameNode n n' → SameNodes rest rest' → SameNodes (n :: rest) (n' :: rest')

end

attribute [local simp] Node.read readElement readAttrs readAttribute readNodes readTemplate readLoop
  readConditional readSlot

/-- A dictionary of values that are read back is read back, in another order. -/
theorem exists_dict?_ofDict {α : Type} {write : α → Json} {read : Json → Option α} {d : Dict α}
    {levels : Nat} (hdepth : (ofDict write d).sorted.depth ≤ levels)
    (hnodup : (d.map Prod.fst).Nodup)
    (hread : ∀ a, (write a).sorted.depth ≤ levels - 1 → read (write a).sorted = some a) :
    ∃ d', (ofDict write d).sorted.dict? levels read = some d' ∧ d'.Perm d := by
  have hkeys : ((d.map fun entry => (entry.1, write entry.2)).map Prod.fst).Nodup := by
    rw [List.map_map]
    exact hnodup
  obtain ⟨hlevels, hinner⟩ := depth_fields_le hkeys hdepth
  refine exists_dict?_sorted hlevels hkeys ?_
  rw [List.forall₂_map_left_iff, List.forall₂_same]
  intro entry hentry
  exact ⟨rfl, hread entry.2 (hinner _ (List.mem_map.mpr ⟨entry, hentry, rfl⟩))⟩

/-- The attributes of an element are read back if each of them is, perhaps in another order. -/
theorem exists_readAttrs_of_inside {attrs attrs' : List (String × Attribute Node)}
    {arrival : Arrival} {levels : Nat} (hnodup : (attrs.map Prod.fst).Nodup)
    (hread : List.Forall₂ (fun field entry => field.1 = entry.1 ∧
      readAttribute arrival levels field.2.sorted = some entry.2) (attrsToJson attrs) attrs') :
    ∃ d, readAttrs arrival (levels + 1) (Json.obj (attrsToJson attrs)).sorted = some d ∧
      d.Perm attrs' := by
  have hkeys : ((attrsToJson attrs).map Prod.fst).Nodup := by
    rw [map_fst_attrsToJson]
    exact hnodup
  obtain ⟨d, hd, hperm⟩ := exists_dict?_sorted (Nat.succ_ne_zero levels) hkeys hread
  refine ⟨d, ?_, hperm⟩
  rw [readAttrs]
  exact hd

/-- Events are read back, perhaps in another order. -/
theorem exists_readEvents {events : Dict (List Handler)} (arrival : Arrival) {levels : Nat}
    (hdepth : (ofDict (fun hs => .arr (hs.map Handler.toJson)) events).sorted.depth ≤ levels)
    (hnodup : (events.map Prod.fst).Nodup) :
    ∃ d, (ofDict (fun hs => .arr (hs.map Handler.toJson)) events).sorted.dict? levels
        (Json.list? (levels - 1) (Handler.read arrival (levels - 1 - 1))) = some d ∧
      d.Perm events := by
  refine exists_dict?_ofDict hdepth hnodup fun hs hhs => ?_
  obtain ⟨hlevels, hitems⟩ := depth_items_le hhs
  exact list?_sorted hlevels (forall₂_read fun h hh => h.read_toJson arrival (hitems h hh))

/-- A style is read back, perhaps in another order. -/
theorem exists_readStyle {style : Dict StyleValue} (arrival : Arrival) {levels : Nat}
    (hdepth : (ofDict StyleValue.toJson style).sorted.depth ≤ levels)
    (hnodup : (style.map Prod.fst).Nodup) :
    ∃ d, (ofDict StyleValue.toJson style).sorted.dict? levels
        (StyleValue.read arrival (levels - 1)) = some d ∧ d.Perm style :=
  exists_dict?_ofDict hdepth hnodup fun v hv => v.read_toJson arrival hv

/-- An element is read back if its attributes and its children are. -/
theorem exists_readElement_of_inside {e : Element Node} (hdistinct : e.DistinctKeys)
    {arrival : Arrival} {levels : Nat} (hdepth : (elementToJson e).sorted.depth ≤ levels + 1 + 1)
    {attrs : List (String × Attribute Node)} {children : List Node}
    (hattrs : List.Forall₂ (fun field entry => field.1 = entry.1 ∧
      readAttribute arrival levels field.2.sorted = some entry.2) (attrsToJson e.attrs) attrs)
    (hsame : SameAttrs e.attrs attrs)
    (hchildren : List.Forall₂ (fun j n => Node.read arrival levels j.sorted = some n)
      (nodesToJson e.children) children)
    (hsameNodes : SameNodes e.children children) :
    ∃ e', readElement arrival (levels + 1 + 1) (elementToJson e).sorted = some e' ∧
      SameElement e e' := by
  rw [elementToJson_eq] at hdepth ⊢
  obtain ⟨record, hrecord, hlookup, hinner⟩ := exists_record?_sorted hdepth nodup_elementFieldNames
    (elementFields_sublist e)
  have hfound : ∀ key j, (key, j) ∈ elementFields e →
      record.lookup key = some j.sorted ∧ j.sorted.depth ≤ levels + 1 := by
    intro key j hmem
    refine ⟨?_, hinner key j (lookup_elementFields hmem)⟩
    rw [hlookup, lookup_elementFields hmem]
    rfl
  have htag : record.required "elementType" Json.str? = some e.tag :=
    Record.required_of_lookup (hlookup "elementType")
  have hname : record.optional "name" Json.str? = some e.name := by
    refine Record.optional_present .str ?_ (fun _ _ => rfl) rfl
    rw [hlookup]
    simp [elementFields, List.lookup_append, lookup_present, List.lookup_cons]
  have hkey : record.orDefault "key" "" Json.str? = some e.key :=
    Record.orDefault_of_lookup (hfound "key" (.str e.key) (by simp [elementFields])).1
  have hselfClosing : record.orDefault "selfClosing" false Json.bool? = some e.selfClosing :=
    Record.orDefault_of_lookup
      (hfound "selfClosing" (.bool e.selfClosing) (by simp [elementFields])).1
  obtain ⟨attrs', hattrsRead, hattrsPerm⟩ := exists_readAttrs_of_inside hdistinct.attrs hattrs
  have hattrsField : record.orDefault "attrs" [] (readAttrs arrival (levels + 1)) =
      some attrs' := by
    have hfield := hfound "attrs" (.obj (attrsToJson e.attrs)) (by simp [elementFields])
    rw [Record.orDefault_of_lookup hfield.1, hattrsRead]
  obtain ⟨heventsFound, heventsDepth⟩ := hfound "events"
    (ofDict (fun hs => .arr (hs.map Handler.toJson)) e.events) (by simp [elementFields])
  obtain ⟨events, heventsRead, heventsPerm⟩ :=
    exists_readEvents arrival heventsDepth hdistinct.events
  obtain ⟨hstyleFound, hstyleDepth⟩ := hfound "style" (ofDict StyleValue.toJson e.style)
    (by simp [elementFields])
  obtain ⟨style, hstyleRead, hstylePerm⟩ := exists_readStyle arrival hstyleDepth hdistinct.style
  have hchildrenRead : record.orDefault "children" [] (readNodes arrival (levels + 1)) =
      some children := by
    have hfield := hfound "children" (.arr (nodesToJson e.children)) (by simp [elementFields])
    rw [Record.orDefault_of_lookup hfield.1, readNodes]
    exact list?_sorted (Nat.succ_ne_zero levels) hchildren
  have hdependency : record.optional "dependency" (Dependency.read arrival (levels + 1)) =
      some e.dependency := by
    have hfield : (elementFields e).lookup "dependency" = e.dependency.map Dependency.toJson := by
      simp [elementFields, List.lookup_append, lookup_present, List.lookup_cons]
    refine Record.optional_present Dependency.toJson ?_ (fun d hd => ?_) rfl
    · rw [hlookup, hfield]
    · rw [hd] at hfield
      exact d.read_toJson arrival (hinner _ _ hfield)
  refine ⟨{ e with attrs := attrs', events, style, children }, ?_,
    .intro hsame hattrsPerm heventsPerm hstylePerm hsameNodes⟩
  rw [readElement]
  rw [elementFieldNames] at hrecord
  simp only [hrecord, htag, hname, hkey, hselfClosing, hattrsField,
    Record.orDefault_of_lookup heventsFound, heventsRead, Record.orDefault_of_lookup hstyleFound,
    hstyleRead, hchildrenRead, hdependency, Option.bind_eq_bind, Option.bind_some]
  rfl

theorem readImported_toJson (id : String) {levels : Nat}
    (hdepth : (Json.obj [("id", .str id)]).sorted.depth ≤ levels) :
    readImported levels (Json.obj [("id", .str id)]).sorted = some id := by
  rw [sorted_obj] at hdepth ⊢
  obtain ⟨hlevels, -⟩ := depth_obj_le hdepth
  simp [readImported, objectRecord?, sortedFields, sortFields, insertSorted, sorted, hlevels,
    Record.required, Json.str?]

/-- A loop is read back if its template is. -/
theorem readLoop_of_inside {l : Loop Node} {template : Element Node} {arrival : Arrival}
    {levels : Nat} (hdepth : (Json.obj (loopFields l)).sorted.depth ≤ levels + 1 + 1)
    (htemplate : readElement .kept levels (elementToJson l.template).sorted = some template) :
    readLoop arrival (levels + 1 + 1) (Json.obj (loopFields l)).sorted =
      some { l with template } := by
  obtain ⟨record, hrecord, hlookup, hinner⟩ := exists_record?_sorted hdepth
    (by decide : ["node", "dataSource", "meta"].Nodup) (.refl _)
  have hnode : record.required "node" (readTemplate arrival (levels + 1)) = some template := by
    have hreadable : (tag "element" (elementToJson l.template)).readable = true :=
      readable_tag_iff.mpr (readable_elementToJson l.template)
    rw [Record.required_of_lookup (hlookup "node"), readTemplate]
    exact (variant?_sorted_tag hreadable (hinner "node" _ rfl)).trans htemplate
  have hsource : record.required "dataSource" (LoopSource.read arrival (levels + 1)) =
      some l.source := by
    rw [Record.required_of_lookup (hlookup "dataSource")]
    exact l.source.read_toJson arrival (hinner "dataSource" _ rfl)
  have hnames : record.orDefault "meta" {} (LoopNames.read (levels + 1)) = some l.names := by
    rw [Record.orDefault_of_lookup (hlookup "meta")]
    exact l.names.read_toJson (hinner "meta" _ rfl)
  rw [readLoop, hrecord]
  simp only [Option.bind_eq_bind, Option.bind_some, hnode, hsource, hnames]
  rfl

/-- A conditional is read back if the node in it is. -/
theorem readConditional_of_inside {c : Conditional Node} {node : Node} {arrival : Arrival}
    {levels : Nat} (hdepth : (Json.obj (conditionalFields c)).sorted.depth ≤ levels + 1)
    (hread : Node.read arrival levels c.node.toJson.sorted = some node) :
    readConditional arrival (levels + 1) (Json.obj (conditionalFields c)).sorted =
      some { c with node } := by
  obtain ⟨record, hrecord, hlookup, hinner⟩ := exists_record?_sorted hdepth (by decide)
    (conditionalFields_sublist c)
  have hnode : record.required "node" (Node.read arrival levels) = some node := by
    rw [Record.required_of_lookup (hlookup "node")]
    exact hread
  have hsubject : record.required "reference" (Json.variant? arrival levels
      [("dynamic", fun inner => Reference.read inner (levels - 1))]) = some c.subject := by
    have hfield := hinner "reference" (.tag "dynamic" c.subject.toJson) rfl
    have hcontent := c.subject.read_toJson .kept (depth_sorted_tag_le hfield).2
    have hreadable : (tag "dynamic" c.subject.toJson).readable = true :=
      readable_tag_iff.mpr c.subject.readable_toJson
    rw [Record.required_of_lookup (hlookup "reference")]
    exact (variant?_sorted_tag hreadable hfield).trans hcontent
  have hvalue : record.optional "value" Scalar.read = some c.value := by
    refine Record.optional_present Scalar.toJson ?_ (fun s _ => s.read_toJson) rfl
    rw [hlookup]
    simp [conditionalFields, List.lookup_append, lookup_present, List.lookup_cons]
  have hcondition : record.optional "condition" (Test.read arrival levels) =
      some c.condition := by
    have hfield : (conditionalFields c).lookup "condition" = c.condition.map Test.toJson := by
      simp [conditionalFields, List.lookup_append, lookup_present, List.lookup_cons]
    refine Record.optional_present Test.toJson ?_ (fun t ht => ?_) rfl
    · rw [hlookup, hfield]
    · rw [ht] at hfield
      exact t.read_toJson arrival (hinner _ _ hfield)
  rw [readConditional, hrecord]
  simp only [Option.bind_eq_bind, Option.bind_some, hnode, hsubject, hvalue, hcondition]
  rfl

/-- A slot is read back if its fallback is. -/
theorem readSlot_of_inside {s : Slot Node} {fallback : Option Node} {arrival : Arrival}
    {levels : Nat} (hdepth : (Json.obj (slotFields s)).sorted.depth ≤ levels + 1)
    (hnone : s.fallback = none → fallback = none)
    (hread : ∀ n, s.fallback = some n →
      ∃ m, Node.read arrival levels n.toJson.sorted = some m ∧ fallback = some m) :
    readSlot arrival (levels + 1) (Json.obj (slotFields s)).sorted = some { s with fallback } := by
  obtain ⟨record, hrecord, hlookup, -⟩ := exists_record?_sorted hdepth (by decide)
    (slotFields_sublist s)
  have hname : record.optional "name" Json.str? = some s.name := by
    refine Record.optional_present .str ?_ (fun _ _ => rfl) rfl
    rw [hlookup]
    simp [slotFields, List.lookup_append, lookup_present]
  have hfield : record.lookup "fallback" = (s.fallback.map Node.toJson).map sorted := by
    rw [hlookup]
    simp [slotFields, List.lookup_append, lookup_present]
  have hfallback : record.optional "fallback" (Node.read arrival levels) = some fallback := by
    cases hs : s.fallback with
    | none =>
        rw [hs] at hfield
        rw [Record.optional, hnone hs, show record.lookup "fallback" = none from hfield]
    | some n =>
        obtain ⟨m, hm, rfl⟩ := hread n hs
        rw [hs] at hfield
        exact Record.optional_of_lookup hfield hm (by cases levels <;> rfl)
  rw [readSlot, hrecord]
  simp only [Option.bind_eq_bind, Option.bind_some, hname, hfallback]
  rfl

/-! ### Nodes around others -/

section

variable {arrival : Arrival} {levels : Nat}

/-- A loop is read back if its template is, at every depth that holds it. -/
theorem exists_read_loop {l : Loop Node} (hdepth : (Node.loop l).toJson.sorted.depth ≤ levels)
    (htemplate : ∀ {levels}, (elementToJson l.template).sorted.depth ≤ levels →
      ∃ e, readElement .kept levels (elementToJson l.template).sorted = some e ∧
        SameElement l.template e) :
    ∃ m, Node.read arrival levels (Node.loop l).toJson.sorted = some m ∧ SameNode (.loop l) m := by
  have hreadable := Node.readable_toJson (.loop l)
  rw [Node.toJson_loop] at hdepth hreadable ⊢
  obtain ⟨k, rfl, hinner⟩ := exists_levels hdepth
  obtain ⟨hlevels, hfields⟩ := depth_fields_le (by simp [loopFields]) hinner
  obtain ⟨j, hj, hdeep⟩ := exists_levels
    (hfields ("node", .tag "element" (elementToJson l.template)) (by simp [loopFields]))
  obtain rfl : k = j + 1 + 1 := by omega
  obtain ⟨template, hread, hsame⟩ := htemplate hdeep
  have hloop : readLoop .kept (j + 1 + 1) _ = _ := readLoop_of_inside hinner hread
  refine ⟨.loop { l with template }, ?_, .loop hsame⟩
  rw [Node.read, variant?_sorted_tag hreadable hdepth]
  exact congrArg (Option.map Node.loop) hloop

/-- A conditional is read back if the node in it is, at every depth that holds it. -/
theorem exists_read_conditional {c : Conditional Node}
    (hdepth : (Node.conditional c).toJson.sorted.depth ≤ levels)
    (hnode : ∀ {levels}, c.node.toJson.sorted.depth ≤ levels →
      ∃ m, Node.read .kept levels c.node.toJson.sorted = some m ∧ SameNode c.node m) :
    ∃ m, Node.read arrival levels (Node.conditional c).toJson.sorted = some m ∧
      SameNode (.conditional c) m := by
  have hreadable := Node.readable_toJson (.conditional c)
  rw [Node.toJson_conditional] at hdepth hreadable ⊢
  obtain ⟨l, rfl, hinner⟩ := exists_levels hdepth
  obtain ⟨hlevels, hfields⟩ := depth_fields_le
    ((conditionalFields_sublist _).nodup (by decide)) hinner
  obtain ⟨k, rfl⟩ := Nat.exists_eq_succ_of_ne_zero hlevels
  obtain ⟨node, hread, hsame⟩ :=
    hnode (hfields ("node", c.node.toJson) (by simp [conditionalFields]))
  have hconditional : readConditional .kept (k + 1) _ = _ :=
    readConditional_of_inside hinner hread
  refine ⟨.conditional { c with node }, ?_, .conditional hsame⟩
  rw [Node.read, variant?_sorted_tag hreadable hdepth]
  exact congrArg (Option.map Node.conditional) hconditional

/-- A slot without a fallback is read back. -/
theorem exists_read_slot {name : Option String}
    (hdepth : (Node.slot ⟨name, none⟩).toJson.sorted.depth ≤ levels) :
    ∃ m, Node.read arrival levels (Node.slot ⟨name, none⟩).toJson.sorted = some m ∧
      SameNode (.slot ⟨name, none⟩) m := by
  have hreadable := Node.readable_toJson (.slot ⟨name, none⟩)
  rw [Node.toJson_slot] at hdepth hreadable ⊢
  obtain ⟨l, rfl, hinner⟩ := exists_levels hdepth
  obtain ⟨hlevels, -⟩ := depth_fields_le ((slotFields_sublist _).nodup (by decide)) hinner
  obtain ⟨k, rfl⟩ := Nat.exists_eq_succ_of_ne_zero hlevels
  have hslot : readSlot .kept (k + 1) _ = some ⟨name, none⟩ :=
    readSlot_of_inside hinner (fun _ => rfl) fun n hn => absurd hn (Option.some_ne_none n).symm
  refine ⟨.slot ⟨name, none⟩, ?_, .slot⟩
  rw [Node.read, variant?_sorted_tag hreadable hdepth]
  exact congrArg (Option.map Node.slot) hslot

/-- A slot is read back if its fallback is, at every depth that holds it. -/
theorem exists_read_fallback {name : Option String} {fallback : Node}
    (hdepth : (Node.slot ⟨name, some fallback⟩).toJson.sorted.depth ≤ levels)
    (hfallback : ∀ {levels}, fallback.toJson.sorted.depth ≤ levels →
      ∃ m, Node.read .kept levels fallback.toJson.sorted = some m ∧ SameNode fallback m) :
    ∃ m, Node.read arrival levels (Node.slot ⟨name, some fallback⟩).toJson.sorted = some m ∧
      SameNode (.slot ⟨name, some fallback⟩) m := by
  have hreadable := Node.readable_toJson (.slot ⟨name, some fallback⟩)
  rw [Node.toJson_slot] at hdepth hreadable ⊢
  obtain ⟨l, rfl, hinner⟩ := exists_levels hdepth
  obtain ⟨hlevels, hfields⟩ := depth_fields_le ((slotFields_sublist _).nodup (by decide)) hinner
  obtain ⟨k, rfl⟩ := Nat.exists_eq_succ_of_ne_zero hlevels
  obtain ⟨fallback', hread, hsame⟩ :=
    hfallback (hfields ("fallback", fallback.toJson) (by simp [slotFields, present]))
  have hslot : readSlot .kept (k + 1) _ = some ⟨name, some fallback'⟩ :=
    readSlot_of_inside hinner (fun hn => absurd hn (Option.some_ne_none fallback)) fun n hn =>
      ⟨fallback', Option.some.inj hn ▸ hread, rfl⟩
  refine ⟨.slot ⟨name, some fallback'⟩, ?_, .fallback hsame⟩
  rw [Node.read, variant?_sorted_tag hreadable hdepth]
  exact congrArg (Option.map Node.slot) hslot

end

mutual

/-- A node is read back from its tree. -/
theorem exists_read_toJson : ∀ (n : Node) (arrival : Arrival) {levels : Nat},
    n.toJson.sorted.depth ≤ levels → (∀ e ∈ n.elements, e.DistinctKeys) →
      ∃ m, Node.read arrival levels n.toJson.sorted = some m ∧ SameNode n m
  | .static value, arrival, levels, hdepth, hkeys => by
      have hreadable := Node.readable_toJson (.static value)
      rw [Node.toJson] at hdepth hreadable ⊢
      obtain ⟨l, rfl, -⟩ := exists_levels hdepth
      refine ⟨.static value, ?_, .static⟩
      rw [Node.read, variant?_sorted_tag hreadable hdepth]
      exact congrArg (Option.map Node.static) value.read_toJson
  | .dynamic r, arrival, levels, hdepth, hkeys => by
      have hreadable := Node.readable_toJson (.dynamic r)
      rw [Node.toJson] at hdepth hreadable ⊢
      obtain ⟨l, rfl, hinner⟩ := exists_levels hdepth
      have hcontent := r.read_toJson .kept hinner
      refine ⟨.dynamic r, ?_, .dynamic⟩
      rw [Node.read, variant?_sorted_tag hreadable hdepth]
      exact congrArg (Option.map Node.dynamic) hcontent
  | .raw markup, arrival, levels, hdepth, hkeys => by
      have hreadable := Node.readable_toJson (.raw markup)
      rw [Node.toJson] at hdepth hreadable ⊢
      obtain ⟨l, rfl, -⟩ := exists_levels hdepth
      refine ⟨.raw markup, ?_, .raw⟩
      rw [Node.read, variant?_sorted_tag hreadable hdepth]
      rfl
  | .element e, arrival, levels, hdepth, hkeys => by
      have hreadable := Node.readable_toJson (.element e)
      rw [Node.elements] at hkeys
      rw [Node.toJson] at hdepth hreadable ⊢
      obtain ⟨l, rfl, hinner⟩ := exists_levels hdepth
      obtain ⟨e', hread, hsame⟩ := exists_readElement_toJson e .kept hinner hkeys
      refine ⟨.element e', ?_, .element hsame⟩
      rw [Node.read, variant?_sorted_tag hreadable hdepth]
      exact congrArg (Option.map Node.element) hread
  | .loop ⟨template, source, names⟩, arrival, levels, hdepth, hkeys => by
      rw [Node.elements] at hkeys
      exact exists_read_loop hdepth fun hdeep =>
        exists_readElement_toJson template .kept hdeep hkeys
  | .conditional ⟨node, subject, value, condition⟩, arrival, levels, hdepth, hkeys => by
      rw [Node.elements] at hkeys
      exact exists_read_conditional hdepth fun hdeep => exists_read_toJson node .kept hdeep hkeys
  | .slot ⟨name, none⟩, arrival, levels, hdepth, hkeys => exists_read_slot hdepth
  | .slot ⟨name, some fallback⟩, arrival, levels, hdepth, hkeys => by
      rw [Node.elements] at hkeys
      exact exists_read_fallback hdepth fun hdeep => exists_read_toJson fallback .kept hdeep hkeys

theorem exists_readElement_toJson : ∀ (e : Element Node) (arrival : Arrival) {levels : Nat},
    (elementToJson e).sorted.depth ≤ levels → (∀ e' ∈ Node.elementsOf e, e'.DistinctKeys) →
      ∃ e', readElement arrival levels (elementToJson e).sorted = some e' ∧ SameElement e e'
  | ⟨tag, name, key, selfClosing, attrs, events, style, children, dependency⟩, arrival, levels,
      hdepth, hkeys => by
      rw [Node.elementsOf, List.forall_mem_cons, List.forall_mem_append] at hkeys
      obtain ⟨hdistinct, hattrs, hchildren⟩ := hkeys
      obtain ⟨l, rfl, hattrsDepth, hchildrenDepth⟩ := exists_levels_element hdistinct hdepth
      obtain ⟨attrs', hattrsRead, hattrsSame⟩ :=
        exists_readAttribute_toJson attrs arrival hattrsDepth hattrs
      obtain ⟨children', hchildrenRead, hchildrenSame⟩ :=
        exists_readNodes_toJson children arrival hchildrenDepth hchildren
      exact exists_readElement_of_inside hdistinct hdepth hattrsRead hattrsSame hchildrenRead
        hchildrenSame

theorem exists_readAttribute_toJson : ∀ (attrs : List (String × Attribute Node))
    (arrival : Arrival) {levels : Nat},
    (∀ field ∈ attrsToJson attrs, field.2.sorted.depth ≤ levels) →
      (∀ e ∈ Node.elementsOfAttrs attrs, e.DistinctKeys) →
        ∃ attrs', List.Forall₂ (fun field entry => field.1 = entry.1 ∧
          readAttribute arrival levels field.2.sorted = some entry.2) (attrsToJson attrs) attrs' ∧
            SameAttrs attrs attrs'
  | [], arrival, levels, hdepth, hkeys => ⟨[], .nil, .nil⟩
  | (name, .static value) :: rest, arrival, levels, hdepth, hkeys => by
      rw [Node.elementsOfAttrs] at hkeys
      rw [attrsToJson, List.forall_mem_cons] at hdepth
      obtain ⟨l, rfl, -⟩ := exists_levels hdepth.1
      obtain ⟨rest', hrest, hsame⟩ := exists_readAttribute_toJson rest arrival hdepth.2 hkeys
      refine ⟨(name, .static value) :: rest', .cons ⟨rfl, ?_⟩ hrest, .static hsame⟩
      rw [readAttribute, variant?_sorted_tag (readable_tag_iff.mpr value.readable_toJson) hdepth.1]
      exact congrArg (Option.map Attribute.static) value.read_toJson
  | (name, .dynamic r) :: rest, arrival, levels, hdepth, hkeys => by
      rw [Node.elementsOfAttrs] at hkeys
      rw [attrsToJson, List.forall_mem_cons] at hdepth
      obtain ⟨l, rfl, hinner⟩ := exists_levels hdepth.1
      have hcontent := r.read_toJson .kept hinner
      obtain ⟨rest', hrest, hsame⟩ := exists_readAttribute_toJson rest arrival hdepth.2 hkeys
      refine ⟨(name, .dynamic r) :: rest', .cons ⟨rfl, ?_⟩ hrest, .dynamic hsame⟩
      rw [readAttribute, variant?_sorted_tag (readable_tag_iff.mpr r.readable_toJson) hdepth.1]
      exact congrArg (Option.map Attribute.dynamic) hcontent
  | (name, .imported id) :: rest, arrival, levels, hdepth, hkeys => by
      rw [Node.elementsOfAttrs] at hkeys
      rw [attrsToJson, List.forall_mem_cons] at hdepth
      obtain ⟨l, rfl, hinner⟩ := exists_levels hdepth.1
      obtain ⟨rest', hrest, hsame⟩ := exists_readAttribute_toJson rest arrival hdepth.2 hkeys
      refine ⟨(name, .imported id) :: rest', .cons ⟨rfl, ?_⟩ hrest, .imported hsame⟩
      have hcontent := readImported_toJson id hinner
      rw [readAttribute, variant?_sorted_tag (readable_tag_iff.mpr rfl) hdepth.1]
      exact congrArg (Option.map Attribute.imported) hcontent
  | (name, .slot content) :: rest, arrival, levels, hdepth, hkeys => by
      rw [Node.elementsOfAttrs, List.forall_mem_append] at hkeys
      rw [attrsToJson, List.forall_mem_cons] at hdepth
      obtain ⟨l, rfl, hinner⟩ := exists_levels hdepth.1
      obtain ⟨content', hcontent, hsameContent⟩ := exists_read_toJson content .kept hinner hkeys.1
      obtain ⟨rest', hrest, hsame⟩ := exists_readAttribute_toJson rest arrival hdepth.2 hkeys.2
      refine ⟨(name, .slot content') :: rest', .cons ⟨rfl, ?_⟩ hrest, .slot hsameContent hsame⟩
      rw [readAttribute,
        variant?_sorted_tag (readable_tag_iff.mpr content.readable_toJson) hdepth.1]
      exact congrArg (Option.map Attribute.slot) hcontent

theorem exists_readNodes_toJson : ∀ (ns : List Node) (arrival : Arrival) {levels : Nat},
    (∀ j ∈ nodesToJson ns, j.sorted.depth ≤ levels) →
      (∀ e ∈ Node.elementsOfAll ns, e.DistinctKeys) →
        ∃ ns', List.Forall₂ (fun j n => Node.read arrival levels j.sorted = some n)
          (nodesToJson ns) ns' ∧ SameNodes ns ns'
  | [], arrival, levels, hdepth, hkeys => ⟨[], .nil, .nil⟩
  | n :: rest, arrival, levels, hdepth, hkeys => by
      rw [Node.elementsOfAll, List.forall_mem_append] at hkeys
      rw [nodesToJson, List.forall_mem_cons] at hdepth
      obtain ⟨n', hn, hsame⟩ := exists_read_toJson n arrival hdepth.1 hkeys.1
      obtain ⟨rest', hrest, hsames⟩ := exists_readNodes_toJson rest arrival hdepth.2 hkeys.2
      exact ⟨n' :: rest', .cons hn hrest, .cons hsame hsames⟩

end

/-- **A written node has the right shape and is read back.**  Write a node whose dictionaries have
no key twice, and sort the tree.  The tree passes the check of its shape, wherever it stands, and
reading it with at least the levels that it has gives the node again, with the dictionaries at every
depth perhaps in another order.  Numbers are carried over as they are. -/
theorem Node.written_tree_fits_and_reads_back (n : Node)
    (hkeys : ∀ e ∈ n.elements, e.DistinctKeys) :
    (∀ location, n.toJson.sorted.checkNode location = .ok ()) ∧
      ∀ arrival levels, n.toJson.sorted.depth ≤ levels →
        ∃ m, Node.read arrival levels n.toJson.sorted = some m ∧ SameNode n m :=
  ⟨checkNodeWithin_toJson n (Nat.le_refl _) hkeys,
    fun arrival _ hdepth => exists_read_toJson n arrival hdepth hkeys⟩

/-- A form whose attributes, events and style entries are not in the order of their names, with
nodes of all kinds inside. -/
def orderForm : Node :=
  .element {
    tag := "form"
    name := some "Order"
    attrs := [("title", .dynamic ⟨"title", .prop⟩),
      ("icon", .slot (.element {
        tag := "Icon"
        selfClosing := true
        attrs := [("size", .static (.number 12)), ("glyph", .imported "star")]
        dependency := some (Dependency.package "icons" (some "^2.0.0")).byName }))]
    events := [("onSubmit", [.callProp "submit" [.bool true], .setState "open" (.text "$toggle")]),
      ("onReset", [])]
    style := [("width", .static (.number 4)), ("color", .dynamic ⟨"accent", .token⟩)]
    children := [.raw "<hr>",
      .loop {
        template := { tag := "li", children := [.dynamic ⟨"item.name", .loop⟩] }
        source := .inline [.text "a", .number 1]
        names := { iterator := some "row", useIndex := true } },
      .conditional {
        node := .slot { name := some "note", fallback := some (.static (.text "none")) }
        subject := ⟨"open", .state⟩
        condition := some ⟨[⟨.truthy, none⟩, ⟨.notEqual, some (.number 3)⟩], .any⟩ },
      .slot {}] }

theorem orderForm_reads_back :
    (∀ e ∈ orderForm.elements, e.DistinctKeys) ∧
      (∀ location, orderForm.toJson.sorted.checkNode location = .ok ()) ∧
        ∃ m, Node.read .direct orderForm.toJson.sorted.depth orderForm.toJson.sorted = some m ∧
          SameNode orderForm m := by
  have hkeys : ∀ e ∈ orderForm.elements, e.DistinctKeys := by decide
  obtain ⟨hfits, hreads⟩ := Node.written_tree_fits_and_reads_back orderForm hkeys
  exact ⟨hkeys, hfits, hreads .direct _ (Nat.le_refl _)⟩

end ViewGen
