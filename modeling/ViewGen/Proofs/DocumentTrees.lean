import ViewGen.Document.Decoding
import ViewGen.Proofs.SortedTrees

/-!
# The trees of documents

What is written for the values inside a node is read back: scalars, references, tests, handlers,
style values, dependencies and the parts of loops.  The trees of nodes are given by their fields,
and everything in them can be read.

All statements about reading are about the sorted tree, read with at least as many levels as it has.

## Main definitions

* `elementFields`, `loopFields`, `conditionalFields`, `slotFields` — the fields of a node's content

## Main statements

* `Reference.read_toJson`, `Handler.read_toJson`, `Dependency.read_toJson`, … — values are read back
* `Node.readable_toJson` — everything in the tree of a node can be read
-/

namespace ViewGen

/-! ## Values -/

namespace Json

section

variable {α : Type} {write : α → Json} (h : ∀ a, (write a).readable = true)

include h

theorem readable_present {name : String} {value : Option α} :
    ∀ field ∈ present name (value.map write), field.2.readable = true := by
  cases value with
  | none => exact fun field hfield => nomatch hfield
  | some a =>
      intro field hfield
      rw [List.mem_singleton.mp hfield]
      exact h a

theorem readable_items {items : List α} : (Json.arr (items.map write)).readable = true := by
  rw [readable_arr_iff, List.forall_mem_map]
  exact fun a _ => h a

theorem readable_ofDict {d : Dict α} : (ofDict write d).readable = true := by
  rw [ofDict, readable_obj_iff, List.forall_mem_map]
  exact fun entry _ => h entry.2

end

/-- The tag of a value selects the reader of its content. -/
theorem variant?_sorted_tag {α : Type} {arrival : Arrival} {levels : Nat}
    {readers : List (String × (Arrival → Json → Option α))} {kind : String} {content : Json}
    (hreadable : (tag kind content).readable = true)
    (hdepth : (tag kind content).sorted.depth ≤ levels) :
    (tag kind content).sorted.variant? arrival levels readers =
      (readers.lookup kind).bind fun read => read .kept content.sorted := by
  rw [variant?, tagged?_sorted_tag hreadable hdepth]
  cases readers.lookup kind <;> rfl

end Json

open Json

theorem Scalar.readable_toJson (s : Scalar) : s.toJson.readable = true := by
  cases s <;> rfl

theorem Scalar.read_toJson (s : Scalar) : Scalar.read s.toJson.sorted = some s := by
  cases s <;> rfl

theorem Scalar.sorted_toJson (s : Scalar) : s.toJson.sorted = s.toJson := by
  cases s <;> rfl

theorem Reference.readable_toJson (r : Reference) : r.toJson.readable = true := rfl

theorem Reference.read_toJson (r : Reference) (arrival : Arrival) {levels : Nat}
    (hdepth : r.toJson.sorted.depth ≤ levels) :
    Reference.read arrival levels r.toJson.sorted = some r := by
  rw [Reference.toJson] at hdepth ⊢
  obtain ⟨record, hrecord, hlookup, -⟩ := exists_record?_sorted hdepth
    (by decide : ["id", "referenceType"].Nodup) (.refl _)
  have hid : record.required "id" Json.str? = some r.id :=
    Record.required_of_lookup (hlookup "id")
  have hkind : record.required "referenceType" (name? arrival (levels - 1) ReferenceKind.table) =
      some r.kind := by
    rw [Record.required_of_lookup (hlookup "referenceType")]
    cases r.kind <;> rfl
  simp [Reference.read, hrecord, hid, hkind]

theorem Condition.readable_toJson (c : Condition) : c.toJson.readable = true := by
  rw [Condition.toJson, readable_obj_iff, List.forall_mem_cons]
  exact ⟨rfl, readable_present fun s => s.readable_toJson⟩

theorem Condition.read_toJson (c : Condition) (arrival : Arrival) {levels : Nat}
    (hdepth : c.toJson.sorted.depth ≤ levels) :
    Condition.read arrival levels c.toJson.sorted = some c := by
  rw [Condition.toJson] at hdepth ⊢
  obtain ⟨record, hrecord, hlookup, -⟩ := exists_record?_sorted hdepth
    (by decide : ["operation", "operand"].Nodup) (.cons_cons _ (map_fst_present_sublist _ _))
  have hoperation : record.required "operation" (name? arrival (levels - 1) Operation.table) =
      some c.operation := by
    rw [Record.required_of_lookup (hlookup "operation")]
    cases c.operation <;> rfl
  have hoperand : record.optional "operand" Scalar.read = some c.operand := by
    refine Record.optional_present Scalar.toJson ?_ (fun s _ => s.read_toJson) rfl
    rw [hlookup]
    simp [lookup_present, List.lookup_cons]
  simp [Condition.read, hrecord, hoperation, hoperand]

/-- What is read back item by item. -/
theorem forall₂_read {α : Type} {read : Json → Option α} {write : α → Json} {items : List α}
    (h : ∀ a ∈ items, read (write a).sorted = some a) :
    List.Forall₂ (fun j a => read j.sorted = some a) (items.map write) items := by
  rw [List.forall₂_map_left_iff, List.forall₂_same]
  exact h

/-- The items of a list are less deep than what the list is written in. -/
theorem depth_items_le {α : Type} {write : α → Json} {items : List α} {levels : Nat}
    (h : (Json.arr (items.map write)).sorted.depth ≤ levels) :
    levels ≠ 0 ∧ ∀ a ∈ items, (write a).sorted.depth ≤ levels - 1 := by
  rw [sorted_arr, List.map_map] at h
  obtain ⟨hlevels, hitems⟩ := depth_arr_le h
  exact ⟨hlevels, fun a ha => hitems _ (List.mem_map.mpr ⟨a, ha, rfl⟩)⟩

theorem Test.readable_toJson (t : Test) : t.toJson.readable = true := by
  rw [Test.toJson, readable_obj_iff, List.forall_mem_cons]
  exact ⟨readable_items fun c => c.readable_toJson, by simp [readable]⟩

theorem Test.read_toJson (t : Test) (arrival : Arrival) {levels : Nat}
    (hdepth : t.toJson.sorted.depth ≤ levels) :
    Test.read arrival levels t.toJson.sorted = some t := by
  rw [Test.toJson] at hdepth ⊢
  obtain ⟨record, hrecord, hlookup, hinner⟩ := exists_record?_sorted hdepth
    (by decide : ["conditions", "matchType"].Nodup) (.refl _)
  have hconditions : record.required "conditions"
      (Json.list? (levels - 1) (Condition.read arrival (levels - 1 - 1))) = some t.conditions := by
    obtain ⟨hlevels, hitems⟩ := depth_items_le (hinner "conditions" _ rfl)
    rw [Record.required_of_lookup (hlookup "conditions")]
    exact list?_sorted hlevels (forall₂_read fun c hc => c.read_toJson arrival (hitems c hc))
  have hquantifier : record.orDefault "matchType" .all
      (name? arrival (levels - 1) Quantifier.table) = some t.quantifier := by
    rw [Record.orDefault_of_lookup (hlookup "matchType")]
    cases t.quantifier <;> rfl
  simp [Test.read, hrecord, hconditions, hquantifier]

theorem StyleValue.readable_toJson (v : StyleValue) : v.toJson.readable = true := by
  cases v with
  | static s => exact readable_tag_iff.mpr s.readable_toJson
  | dynamic r => exact readable_tag_iff.mpr r.readable_toJson

theorem StyleValue.read_toJson (v : StyleValue) (arrival : Arrival) {levels : Nat}
    (hdepth : v.toJson.sorted.depth ≤ levels) :
    StyleValue.read arrival levels v.toJson.sorted = some v := by
  have hreadable := v.readable_toJson
  cases v with
  | static s =>
      rw [StyleValue.read, StyleValue.toJson, variant?_sorted_tag hreadable hdepth]
      simp [s.read_toJson]
  | dynamic r =>
      have hcontent := r.read_toJson .kept (depth_sorted_tag_le hdepth).2
      rw [StyleValue.read, StyleValue.toJson, variant?_sorted_tag hreadable hdepth]
      simp [List.lookup_cons, hcontent]

theorem LoopSource.readable_toJson (source : LoopSource) : source.toJson.readable = true := by
  cases source with
  | reference r => exact readable_tag_iff.mpr r.readable_toJson
  | inline items => exact readable_tag_iff.mpr (readable_items fun s => s.readable_toJson)

theorem LoopSource.read_toJson (source : LoopSource) (arrival : Arrival) {levels : Nat}
    (hdepth : source.toJson.sorted.depth ≤ levels) :
    LoopSource.read arrival levels source.toJson.sorted = some source := by
  have hreadable := source.readable_toJson
  cases source with
  | reference r =>
      have hcontent := r.read_toJson .kept (depth_sorted_tag_le hdepth).2
      rw [LoopSource.read, LoopSource.toJson, variant?_sorted_tag hreadable hdepth]
      simp [hcontent]
  | inline items =>
      obtain ⟨hlevels, -⟩ := depth_items_le (depth_sorted_tag_le hdepth).2
      have hcontent := list?_sorted hlevels
        (forall₂_read fun s (_ : s ∈ items) => s.read_toJson)
      rw [LoopSource.read, LoopSource.toJson, variant?_sorted_tag hreadable hdepth]
      simp [List.lookup_cons, hcontent]

theorem LoopNames.readable_toJson (names : LoopNames) : names.toJson.readable = true := by
  obtain ⟨iterator, key, useIndex⟩ := names
  cases iterator <;> cases key <;> rfl

theorem LoopNames.read_toJson (names : LoopNames) {levels : Nat}
    (hdepth : names.toJson.sorted.depth ≤ levels) :
    LoopNames.read levels names.toJson.sorted = some names := by
  rw [LoopNames.toJson] at hdepth ⊢
  obtain ⟨record, hrecord, hlookup, -⟩ := exists_record?_sorted hdepth
    (by decide : ["iteratorName", "iteratorKey", "useIndex"].Nodup) (.refl _)
  have hiterator : record.optional "iteratorName" Json.str? = some names.iterator :=
    Record.optional_orNull .str (hlookup "iteratorName") (fun _ _ => rfl) rfl
  have hkey : record.optional "iteratorKey" Json.str? = some names.key :=
    Record.optional_orNull .str (hlookup "iteratorKey") (fun _ _ => rfl) rfl
  have hindex : record.orDefault "useIndex" false Json.bool? = some names.useIndex :=
    Record.orDefault_of_lookup (hlookup "useIndex")
  simp [LoopNames.read, hrecord, hiterator, hkey, hindex]

theorem Handler.readable_toJson (h : Handler) : h.toJson.readable = true := by
  cases h with
  | setState state value =>
      rw [Handler.toJson, readable_obj_iff]
      simp [value.readable_toJson, readable]
  | callProp prop arguments =>
      rw [Handler.toJson, readable_obj_iff, List.forall_mem_cons, List.forall_mem_cons,
        List.forall_mem_singleton]
      exact ⟨rfl, rfl, readable_items fun s => s.readable_toJson⟩

theorem Handler.sorted_setState (state : String) (value : Scalar) :
    (Handler.setState state value).toJson.sorted =
      .obj [("modifies", .str state), ("newState", value.toJson),
        ("type", .str "stateChange")] := by
  rw [Handler.toJson, sorted_obj, sortedFields_eq_foldl]
  simp only [List.foldl_cons, List.foldl_nil, sorted, value.sorted_toJson]
  rw [insertSorted, insertSorted_of_lt (by decide) (by decide),
    insertSorted_of_not_lt (by decide) (by decide), insertSorted_of_lt (by decide) (by decide)]

theorem Handler.sorted_callProp (prop : String) (arguments : List Scalar) :
    (Handler.callProp prop arguments).toJson.sorted =
      .obj [("args", (Json.arr (arguments.map Scalar.toJson)).sorted), ("calls", .str prop),
        ("type", .str "propCall")] := by
  rw [Handler.toJson, sorted_obj, sortedFields_eq_foldl]
  simp only [List.foldl_cons, List.foldl_nil, sorted]
  rw [insertSorted, insertSorted_of_lt (by decide) (by decide),
    insertSorted_of_lt (by decide) (by decide)]

theorem Handler.read_toJson (h : Handler) (arrival : Arrival) {levels : Nat}
    (hdepth : h.toJson.sorted.depth ≤ levels) :
    Handler.read arrival levels h.toJson.sorted = some h := by
  have hkept : (h.toJson.sorted.readable && decide (h.toJson.sorted.depth ≤ levels)) = true := by
    simp [readable_sorted h.readable_toJson, hdepth]
  unfold Handler.read
  rw [if_pos hkept]
  clear hkept
  cases h with
  | setState state value =>
      rw [Handler.sorted_setState] at hdepth ⊢
      obtain ⟨hlevels, -⟩ := depth_obj_le hdepth
      have hvalue := value.read_toJson
      rw [value.sorted_toJson] at hvalue
      simp [label?, Handler.readers, Handler.readSetState, record?, objectRecord?, hlevels,
        Record.required, List.lookup_cons, Json.str?, hvalue]
  | callProp prop arguments =>
      rw [Handler.sorted_callProp] at hdepth ⊢
      obtain ⟨hlevels, -⟩ := depth_obj_le hdepth
      have harguments := list?_sorted hlevels
        (forall₂_read fun s (_ : s ∈ arguments) => s.read_toJson)
      simp [label?, Handler.readers, Handler.readCallProp, record?, objectRecord?, hlevels,
        Record.required, Record.orDefault, List.lookup_cons, Json.str?, harguments]

theorem Dependency.readable_toJson (d : Dependency) : d.toJson.readable = true := by
  obtain ⟨kind, path, version, named, renamedFrom, importAlias⟩ := d
  cases version <;> cases renamedFrom <;> cases importAlias <;> rfl

/-- The part of a dependency's tree that says how it is bound. -/
def Dependency.bindingToJson (d : Dependency) : Json :=
  .obj (("named", .bool d.named) :: (present "originalName" (d.renamedFrom.map .str) ++
    present "importAlias" (d.importAlias.map .str)))

theorem Dependency.toJson_eq (d : Dependency) :
    d.toJson = .obj ([("type", .str d.kind.name), ("path", .str d.path)] ++
      present "version" (d.version.map .str) ++ [("meta", d.bindingToJson)]) := rfl

theorem Dependency.readBinding_toJson (d e : Dependency) {levels : Nat}
    (hdepth : d.bindingToJson.sorted.depth ≤ levels) :
    Dependency.readBinding levels e d.bindingToJson.sorted =
      some { e with
        named := d.named
        renamedFrom := d.renamedFrom
        importAlias := d.importAlias } := by
  rw [Dependency.bindingToJson] at hdepth ⊢
  obtain ⟨record, hrecord, hlookup, -⟩ := exists_record?_sorted hdepth
    (by decide : ["named", "originalName", "importAlias"].Nodup)
    (.cons_cons _ (by
      rw [List.map_append]
      exact (map_fst_present_sublist _ _).append (map_fst_present_sublist _ _)))
  have hnamed : record.orDefault "named" false Json.bool? = some d.named :=
    Record.orDefault_of_lookup (hlookup "named")
  have hrenamed : record.optional "originalName" Json.str? = some d.renamedFrom := by
    refine Record.optional_present .str ?_ (fun _ _ => rfl) rfl
    rw [hlookup]
    simp [List.lookup_append, lookup_present, List.lookup_cons]
  have halias : record.optional "importAlias" Json.str? = some d.importAlias := by
    refine Record.optional_present .str ?_ (fun _ _ => rfl) rfl
    rw [hlookup]
    simp [List.lookup_append, lookup_present, List.lookup_cons]
  simp [Dependency.readBinding, hrecord, hnamed, hrenamed, halias]

theorem Dependency.read_toJson (d : Dependency) (arrival : Arrival) {levels : Nat}
    (hdepth : d.toJson.sorted.depth ≤ levels) :
    Dependency.read arrival levels d.toJson.sorted = some d := by
  rw [Dependency.toJson_eq] at hdepth ⊢
  obtain ⟨record, hrecord, hlookup, hinner⟩ := exists_record?_sorted hdepth
    (by decide : ["type", "path", "version", "meta"].Nodup)
    (by cases d.version <;> simp [present])
  have hkind : record.required "type" (name? arrival (levels - 1) DependencyKind.table) =
      some d.kind := by
    rw [Record.required_of_lookup (hlookup "type")]
    cases d.kind <;> rfl
  have hpath : record.required "path" Json.str? = some d.path :=
    Record.required_of_lookup (hlookup "path")
  have hversion : record.optional "version" Json.str? = some d.version := by
    refine Record.optional_present .str ?_ (fun _ _ => rfl) rfl
    rw [hlookup]
    simp [List.lookup_append, lookup_present, List.lookup_cons]
  have hfound : List.lookup "meta" ([("type", .str d.kind.name), ("path", .str d.path)] ++
      present "version" (d.version.map .str) ++ [("meta", d.bindingToJson)]) =
        some d.bindingToJson := by
    simp [List.lookup_append, lookup_present, List.lookup_cons]
  have hmeta : ∀ e, record.orDefault "meta" e (Dependency.readBinding (levels - 1) e) =
      some { e with
        named := d.named
        renamedFrom := d.renamedFrom
        importAlias := d.importAlias } := by
    intro e
    rw [Record.orDefault_of_lookup ((hlookup "meta").trans (congrArg _ hfound))]
    exact d.readBinding_toJson e (hinner _ _ hfound)
  rw [Dependency.read, hrecord]
  simp [hkind, hpath, hversion, hmeta]

/-! ## The trees of nodes -/

-- All proofs below rewrite with the equations of these functions; they are generated here, once.
attribute [local simp] Node.toJson elementToJson attrsToJson nodesToJson

/-- The fields of an element's tree. -/
def elementFields (e : Element Node) : List (String × Json) :=
  [("elementType", .str e.tag)] ++ present "name" (e.name.map .str) ++
    [("key", .str e.key), ("selfClosing", .bool e.selfClosing),
      ("attrs", .obj (attrsToJson e.attrs)),
      ("events", ofDict (fun handlers => .arr (handlers.map Handler.toJson)) e.events),
      ("style", ofDict StyleValue.toJson e.style), ("children", .arr (nodesToJson e.children))] ++
    present "dependency" (e.dependency.map Dependency.toJson)

theorem elementToJson_eq (e : Element Node) : elementToJson e = .obj (elementFields e) := by
  obtain ⟨tag, name, key, selfClosing, attrs, events, style, children, dependency⟩ := e
  rw [elementToJson]
  rfl

/-- The names of the fields of an element. -/
def elementFieldNames : List String :=
  ["elementType", "name", "key", "selfClosing", "attrs", "events", "style", "children",
    "dependency"]

theorem nodup_elementFieldNames : elementFieldNames.Nodup := by
  decide

theorem elementFields_sublist (e : Element Node) :
    ((elementFields e).map Prod.fst).Sublist elementFieldNames := by
  unfold elementFields elementFieldNames
  cases e.name <;> cases e.dependency <;> simp [present]

theorem lookup_elementFields {e : Element Node} {key : String} {j : Json}
    (h : (key, j) ∈ elementFields e) : (elementFields e).lookup key = some j :=
  (Dict.get?_eq_some_iff ((elementFields_sublist e).nodup nodup_elementFieldNames)).mpr h

/-- The fields of a loop's tree. -/
def loopFields (l : Loop Node) : List (String × Json) :=
  [("node", .tag "element" (elementToJson l.template)), ("dataSource", l.source.toJson),
    ("meta", l.names.toJson)]

theorem Node.toJson_loop (l : Loop Node) :
    (Node.loop l).toJson = .tag "repeat" (.obj (loopFields l)) := by
  obtain ⟨template, source, names⟩ := l
  rw [Node.toJson]
  rfl

/-- The fields of a conditional's tree. -/
def conditionalFields (c : Conditional Node) : List (String × Json) :=
  [("node", c.node.toJson), ("reference", .tag "dynamic" c.subject.toJson)] ++
    present "value" (c.value.map Scalar.toJson) ++
    present "condition" (c.condition.map Test.toJson)

theorem Node.toJson_conditional (c : Conditional Node) :
    (Node.conditional c).toJson = .tag "conditional" (.obj (conditionalFields c)) := by
  obtain ⟨node, subject, value, condition⟩ := c
  rw [Node.toJson]
  rfl

theorem conditionalFields_sublist (c : Conditional Node) :
    ((conditionalFields c).map Prod.fst).Sublist ["node", "reference", "value", "condition"] := by
  unfold conditionalFields
  cases c.value <;> cases c.condition <;> simp [present]

/-- The fields of a slot's tree. -/
def slotFields (s : Slot Node) : List (String × Json) :=
  present "name" (s.name.map .str) ++ present "fallback" (s.fallback.map Node.toJson)

theorem Node.toJson_slot (s : Slot Node) :
    (Node.slot s).toJson = .tag "slot" (.obj (slotFields s)) := by
  obtain ⟨name, fallback⟩ := s
  cases fallback with
  | none =>
      rw [Node.toJson, slotFields]
      exact congrArg (fun fields => Json.tag "slot" (.obj fields)) (List.append_nil _).symm
  | some n =>
      rw [Node.toJson]
      rfl

theorem slotFields_sublist (s : Slot Node) :
    ((slotFields s).map Prod.fst).Sublist ["name", "fallback"] := by
  unfold slotFields
  cases s.name <;> cases s.fallback <;> simp [present]

/-- The keys of attributes are kept. -/
theorem map_fst_attrsToJson (attrs : List (String × Attribute Node)) :
    (attrsToJson attrs).map Prod.fst = attrs.map Prod.fst := by
  induction attrs with
  | nil => rfl
  | cons entry rest ih =>
      obtain ⟨name, attr⟩ := entry
      cases attr <;> rw [attrsToJson, List.map_cons, ih, List.map_cons]

mutual

/-- Everything in the tree of a node can be read. -/
theorem Node.readable_toJson : ∀ n : Node, n.toJson.readable = true
  | .static value => by
      rw [Node.toJson]
      exact readable_tag_iff.mpr value.readable_toJson
  | .dynamic r => by
      rw [Node.toJson]
      exact readable_tag_iff.mpr r.readable_toJson
  | .raw markup => by
      rw [Node.toJson]
      exact readable_tag_iff.mpr rfl
  | .element e => by
      rw [Node.toJson]
      exact readable_tag_iff.mpr (readable_elementToJson e)
  | .loop ⟨template, source, names⟩ => by
      have htemplate : (tag "element" (elementToJson template)).readable = true :=
        readable_tag_iff.mpr (readable_elementToJson template)
      rw [Node.toJson]
      refine readable_tag_iff.mpr (readable_obj_iff.mpr ?_)
      simp only [List.forall_mem_cons]
      exact ⟨htemplate, source.readable_toJson, names.readable_toJson, fun _ h => nomatch h⟩
  | .conditional ⟨node, subject, value, condition⟩ => by
      have hnode := node.readable_toJson
      have hsubject : (tag "dynamic" subject.toJson).readable = true :=
        readable_tag_iff.mpr subject.readable_toJson
      rw [Node.toJson]
      refine readable_tag_iff.mpr (readable_obj_iff.mpr ?_)
      simp only [List.forall_mem_append, List.forall_mem_cons]
      exact ⟨⟨⟨hnode, hsubject, fun _ h => nomatch h⟩,
        readable_present fun s => s.readable_toJson⟩, readable_present fun t => t.readable_toJson⟩
  | .slot ⟨name, none⟩ => by
      rw [Node.toJson]
      exact readable_tag_iff.mpr (readable_obj_iff.mpr (readable_present fun s => rfl))
  | .slot ⟨name, some fallback⟩ => by
      have hfallback := fallback.readable_toJson
      rw [Node.toJson]
      refine readable_tag_iff.mpr (readable_obj_iff.mpr ?_)
      simp only [List.forall_mem_append, List.forall_mem_singleton]
      exact ⟨readable_present fun s => rfl, hfallback⟩

theorem readable_elementToJson : ∀ e : Element Node, (elementToJson e).readable = true
  | ⟨tag, name, key, selfClosing, attrs, events, style, children, dependency⟩ => by
      have hattrs := readable_obj_iff.mpr (readable_attrsToJson attrs)
      have hchildren := readable_arr_iff.mpr (readable_nodesToJson children)
      rw [elementToJson]
      refine readable_obj_iff.mpr ?_
      simp only [List.forall_mem_append, List.forall_mem_cons]
      refine ⟨⟨⟨⟨rfl, fun _ h => nomatch h⟩, readable_present fun s => rfl⟩, rfl, rfl, hattrs, ?_,
        ?_, hchildren, fun _ h => nomatch h⟩, readable_present fun d => d.readable_toJson⟩
      · exact readable_ofDict fun hs => readable_items fun h => h.readable_toJson
      · exact readable_ofDict fun v => v.readable_toJson

theorem readable_attrsToJson : ∀ attrs : List (String × Attribute Node),
    ∀ field ∈ attrsToJson attrs, field.2.readable = true
  | [] => fun _ h => nomatch h
  | (name, .static value) :: rest => by
      rw [attrsToJson, List.forall_mem_cons]
      exact ⟨readable_tag_iff.mpr value.readable_toJson, readable_attrsToJson rest⟩
  | (name, .dynamic r) :: rest => by
      rw [attrsToJson, List.forall_mem_cons]
      exact ⟨readable_tag_iff.mpr r.readable_toJson, readable_attrsToJson rest⟩
  | (name, .imported id) :: rest => by
      rw [attrsToJson, List.forall_mem_cons]
      exact ⟨readable_tag_iff.mpr rfl, readable_attrsToJson rest⟩
  | (name, .slot content) :: rest => by
      rw [attrsToJson, List.forall_mem_cons]
      exact ⟨readable_tag_iff.mpr content.readable_toJson, readable_attrsToJson rest⟩

theorem readable_nodesToJson : ∀ ns : List Node, ∀ j ∈ nodesToJson ns, j.readable = true
  | [] => fun _ h => nomatch h
  | n :: rest => by
      rw [nodesToJson, List.forall_mem_cons]
      exact ⟨n.readable_toJson, readable_nodesToJson rest⟩

end

end ViewGen
