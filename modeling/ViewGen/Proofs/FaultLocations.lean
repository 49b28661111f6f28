import ViewGen.Document.Shape
import ViewGen.Proofs.SortedTrees

/-!
# Where a document is at fault

The check of a document's shape stops at the first fault and reports it with a location, which is put
together on the way down.  Here the location is followed from the other side: its steps are taken in
the tree, and what is found there has to be what the error says.

## Main definitions

* `Json.part?` — the part of a tree that steps lead to
* `Json.distinctKeys` — no object of a tree has a key twice
* `Defect.ShownBy` — a part of a tree has a defect
* `Json.Refuses` — the content of an element has an attribute or a style that is not supported
* `Json.FaultAt` — an error points at a part of a tree, and what it says is true of that part
* `Json.Justifies` — this holds of every error of a check

## Main statements

* `Json.distinctKeys_sorted` — a sorted tree has distinct keys
* `Json.justifies_checkNodeWithin` — every error of the check of a node points at a fault
* `Json.shape_errors_point_at_faults` — what the errors of the check say is true of the parts they
  point at

## Design notes

A check is a sequence of smaller checks of the tree and of its parts.  `Json.Justifies` is closed
under both: `Justifies.bind` puts checks one after the other, and `Justifies.inside` takes a check of
a part for one of the whole.  So the location of an error is looked at only where the error arises.

An error about an attribute is located at the content of the element, and says nothing of where the
element is.  This is why the checks inside an element are followed from its node on.
-/

namespace ViewGen

/-- The location that some steps lead to from another one. -/
def Location.after (l : Location) (steps : List Step) : Location :=
  ⟨l.steps ++ steps⟩

theorem Location.after_nil (l : Location) : l.after [] = l := by
  rw [after, List.append_nil]

theorem Location.after_after (l : Location) (steps others : List Step) :
    (l.after steps).after others = l.after (steps ++ others) := by
  rw [after, after, after, List.append_assoc]

namespace Json

variable {j k content : Json} {p : Location} {fields : List (String × Json)} {name kind : String}

/-! ## Parts of a tree -/

/-- The part of a tree that one step leads to: a field by its key, an item by its position. -/
def step? (j : Json) : Step → Option Json
  | .field name => j.field? name
  | .index position => j.items?.bind (·[position]?)

/-- The part of a tree that steps lead to. -/
def part? (j : Json) (steps : List Step) : Option Json :=
  steps.foldlM step? j

theorem part?_cons (j : Json) (s : Step) (steps : List Step) :
    j.part? (s :: steps) = (j.step? s).bind (·.part? steps) :=
  rfl

theorem part?_append (j : Json) (steps others : List Step) :
    j.part? (steps ++ others) = (j.part? steps).bind (·.part? others) :=
  List.foldlM_append

/-! ## Distinct keys -/

mutual

/-- No object of the tree has a key twice. -/
def distinctKeys : Json → Bool
  | .arr items => distinctKeysItems items
  | .obj fields => decide (fields.map Prod.fst).Nodup && distinctKeysFields fields
  | _ => true

/-- No object of the items has a key twice. -/
def distinctKeysItems : List Json → Bool
  | [] => true
  | j :: js => distinctKeys j && distinctKeysItems js

/-- No object of the values has a key twice. -/
def distinctKeysFields : List (String × Json) → Bool
  | [] => true
  | (_, j) :: fs => distinctKeys j && distinctKeysFields fs

end

theorem distinctKeys_arr_iff {items : List Json} :
    (Json.arr items).distinctKeys = true ↔ ∀ j ∈ items, j.distinctKeys = true := by
  rw [distinctKeys]
  induction items with
  | nil => simp [distinctKeysItems]
  | cons j rest ih => rw [distinctKeysItems, Bool.and_eq_true, ih, List.forall_mem_cons]

theorem distinctKeys_obj_iff :
    (Json.obj fields).distinctKeys = true ↔
      (fields.map Prod.fst).Nodup ∧ ∀ field ∈ fields, field.2.distinctKeys = true := by
  have hvalues : distinctKeysFields fields = true ↔
      ∀ field ∈ fields, field.2.distinctKeys = true := by
    induction fields with
    | nil => simp [distinctKeysFields]
    | cons field rest ih => rw [distinctKeysFields, Bool.and_eq_true, ih, List.forall_mem_cons]
  rw [distinctKeys, Bool.and_eq_true, decide_eq_true_iff, hvalues]

/-- Fields are put into their places, so that their keys go up. -/
theorem pairwise_insertSorted (h : (fields.map Prod.fst).Pairwise (· < ·)) (value : Json) :
    ((insertSorted name value fields).map Prod.fst).Pairwise (· < ·) := by
  induction fields with
  | nil => exact List.pairwise_singleton _ _
  | cons head rest ih =>
      obtain ⟨key, v⟩ := head
      rw [List.map_cons, List.pairwise_cons] at h
      obtain ⟨hkey, hrest⟩ := h
      rw [insertSorted]
      split
      · next heq =>
        subst heq
        exact List.pairwise_cons.mpr ⟨hkey, hrest⟩
      · next hne =>
        split
        · next hlt =>
          refine List.pairwise_cons.mpr ⟨?_, List.pairwise_cons.mpr ⟨hkey, hrest⟩⟩
          intro other hother
          rcases List.mem_cons.mp hother with rfl | hother
          · exact hlt
          · exact String.lt_trans hlt (hkey other hother)
        · next hnot =>
          refine List.pairwise_cons.mpr ⟨?_, ih hrest⟩
          intro other hother
          obtain ⟨field, hfield, rfl⟩ := List.mem_map.mp hother
          rcases mem_of_mem_insertSorted hfield with rfl | hfield
          · exact Std.lt_of_le_of_ne hnot (Ne.symm hne)
          · exact hkey field.1 (List.mem_map_of_mem hfield)

theorem pairwise_sortFields (fields : List (String × Json)) :
    ((sortFields fields).map Prod.fst).Pairwise (· < ·) := by
  have hfold : ∀ (fields done : List (String × Json)), (done.map Prod.fst).Pairwise (· < ·) →
      ((fields.foldl (fun sorted entry => insertSorted entry.1 entry.2 sorted) done).map
        Prod.fst).Pairwise (· < ·) := by
    intro fields
    induction fields with
    | nil => exact fun done h => h
    | cons head rest ih => exact fun done h => ih _ (pairwise_insertSorted h head.2)
  exact hfold fields [] .nil

mutual

/-- **A sorted tree has distinct keys.** -/
theorem distinctKeys_sorted : ∀ j : Json, j.sorted.distinctKeys = true
  | .null => rfl
  | .bool _ => rfl
  | .int _ => rfl
  | .float _ => rfl
  | .str _ => rfl
  | .unreadable => rfl
  | .arr items => by
      rw [sorted_arr, distinctKeys_arr_iff]
      exact distinctKeys_sortedItems items
  | .obj fields => by
      rw [sorted_obj, distinctKeys_obj_iff]
      refine ⟨(pairwise_sortFields _).imp fun hlt heq => ?_, fun field hfield => ?_⟩
      · exact String.lt_irrefl _ (heq ▸ hlt)
      · exact distinctKeys_sortedValues fields field (mem_of_mem_sortFields hfield)

theorem distinctKeys_sortedItems : ∀ (items : List Json),
    ∀ j ∈ items.map sorted, j.distinctKeys = true
  | [] => fun _ h => absurd h List.not_mem_nil
  | j :: rest => List.forall_mem_cons.mpr ⟨distinctKeys_sorted j, distinctKeys_sortedItems rest⟩

theorem distinctKeys_sortedValues : ∀ (fields : List (String × Json)),
    ∀ field ∈ fields.map (fun field => (field.1, field.2.sorted)), field.2.distinctKeys = true
  | [] => fun _ h => absurd h List.not_mem_nil
  | (_, j) :: rest =>
      List.forall_mem_cons.mpr ⟨distinctKeys_sorted j, distinctKeys_sortedValues rest⟩

end

/-- A part of a tree is less deep than the tree, and has distinct keys if the tree does. -/
theorem inside_of_step? {s : Step} (h : j.step? s = some k) :
    k.depth < j.depth ∧ (j.distinctKeys = true → k.distinctKeys = true) := by
  cases s with
  | field name =>
      cases j with
      | obj fields =>
          have hmem : (name, k) ∈ fields := Dict.mem_of_get? h
          obtain ⟨-, hdepth⟩ := depth_obj_le (Nat.le_refl (Json.obj fields).depth)
          refine ⟨?_, fun hkeys => (distinctKeys_obj_iff.mp hkeys).2 (name, k) hmem⟩
          rw [depth] at hdepth ⊢
          exact Nat.lt_succ_of_le (hdepth (name, k) hmem)
      | _ => exact absurd h (Option.some_ne_none k).symm
  | index position =>
      cases j with
      | arr items =>
          have hmem : k ∈ items := List.mem_of_getElem? h
          obtain ⟨-, hdepth⟩ := depth_arr_le (Nat.le_refl (Json.arr items).depth)
          refine ⟨?_, fun hkeys => distinctKeys_arr_iff.mp hkeys k hmem⟩
          rw [depth] at hdepth ⊢
          exact Nat.lt_succ_of_le (hdepth k hmem)
      | _ => exact absurd h (Option.some_ne_none k).symm

/-- The fields of an object with distinct keys are found under their keys. -/
theorem lookup_of_mem (h : (Json.obj fields).distinctKeys = true) {field : String × Json}
    (hfield : field ∈ fields) : fields.lookup field.1 = some field.2 :=
  (Dict.get?_eq_some_iff (distinctKeys_obj_iff.mp h).1).mpr hfield

end Json

/-! ## What errors say -/

/-- A part of a tree has a defect that the check of a node reports. -/
def Defect.ShownBy (part : Json) : Defect → Prop
  | .noObject => part.fields? = none
  | .noTypeTag => part.fields?.isSome ∧ ∀ kind, part.field? "type" ≠ some (.str kind)
  | .noContent =>
    (∃ kind ∈ Node.kinds, part.field? "type" = some (.str kind)) ∧ part.field? "content" = none
  | .rawNotText => part.str? = none
  | .staticNotScalar =>
    part.str? = none ∧ part.bool? = none ∧ (∀ n, part ≠ .int n) ∧ ∀ x, part ≠ .float x
  | .referenceIncomplete =>
    part.fields?.isSome ∧ ¬ ∃ id kind, part.field? "id" = some (.str id) ∧
      part.field? "referenceType" = some (.str kind)
  | .loopWithoutNode | .conditionalWithoutNode =>
    part.fields?.isSome ∧ part.field? "node" = none
  | .loopTemplateNoElement => ∃ kind, part.field? "type" = some (.str kind) ∧ kind ≠ "element"
  | .loopWithoutSource => part.fields?.isSome ∧ part.field? "dataSource" = none
  | .loopSourceUnsupported kind =>
    part.field? "type" = some (.str kind) ∧ kind ∉ ["dynamic", "static"]
  | .conditionalWithoutReference => part.fields?.isSome ∧ part.field? "reference" = none
  | .conditionalReferenceNotDynamic =>
    ∃ kind, part.field? "type" = some (.str kind) ∧ kind ≠ "dynamic"
  | .elementWithoutType =>
    part.fields?.isSome ∧ ∀ tag, part.field? "elementType" ≠ some (.str tag)
  | .slotAttributeWithoutContent =>
    part.field? "type" = some (.str "slot") ∧ part.field? "content" = none
  | .handlersNoArray | .childrenNoArray => part.items? = none
  | .handlerUnsupported kind =>
    part.field? "type" = some (.str kind) ∧ kind ∉ ["stateChange", "propCall"]
  | _ => False

namespace Json

variable {j k content : Json} {p : Location} {fields : List (String × Json)} {name kind : String}

/-- The content of an element has an attribute of a kind that is not supported, or a style of such a
kind, which is reported under the name of the style after `style.`. -/
def Refuses (content : Json) (name kind : String) : Prop :=
  (content.part? [.field "attrs", .field name, .field "type"] = some (.str kind) ∧
    kind ∉ ["static", "dynamic", "import", "slot"]) ∨
  ∃ property, name = "style." ++ property ∧
    content.part? [.field "style", .field property, .field "type"] = some (.str kind) ∧
    kind ∉ ["static", "dynamic"]

/-- A node that is an element, with its content. -/
structure IsElement (j content : Json) : Prop where
  kind : j.field? "type" = some (.str "element")
  content : j.field? "content" = some content

/-- An error points at a part of a tree that stands at a location, and what it says is true of that
part. -/
inductive FaultAt (j : Json) (p : Location) : DocumentError → Prop
  | malformed {steps : List Step} {part : Json} {defect : Defect} :
      j.part? steps = some part → defect.ShownBy part →
        FaultAt j p (.malformed (p.after steps) defect)
  | unsupportedNode {steps : List Step} {part : Json} {kind : String} :
      j.part? steps = some part → part.field? "type" = some (.str kind) → kind ∉ Node.kinds →
        FaultAt j p (.unsupportedNode (p.after steps) kind)
  | unsupportedAttribute {steps : List Step} {part content : Json} {name kind : String} :
      j.part? steps = some part → part.IsElement content → content.Refuses name kind →
        FaultAt j p (.unsupportedAttribute (p.after (steps ++ [.field "content"])) name kind)

/-- A fault of a part is a fault of the whole. -/
theorem FaultAt.inside {s : Step} (hstep : j.step? s = some k) {x : DocumentError}
    (h : k.FaultAt (p.after [s]) x) : j.FaultAt p x := by
  have hpart : ∀ steps, j.part? (s :: steps) = k.part? steps := by
    intro steps
    rw [part?_cons, hstep, Option.bind_some]
  cases h with
  | malformed hpart' hshown =>
      rw [Location.after_after]
      exact .malformed ((hpart _).trans hpart') hshown
  | unsupportedNode hpart' htype hkind =>
      rw [Location.after_after]
      exact .unsupportedNode ((hpart _).trans hpart') htype hkind
  | unsupportedAttribute hpart' helement hrefuses =>
      rw [Location.after_after]
      exact .unsupportedAttribute ((hpart _).trans hpart') helement hrefuses

/-! ## Checks in general -/

/-- Every error of a check points at a fault of a tree that stands at a location. -/
def Justifies {α : Type} (j : Json) (p : Location) (check : Except DocumentError α) : Prop :=
  ∀ x, check = .error x → j.FaultAt p x

namespace Justifies

variable {α β : Type} {check : Except DocumentError α}

theorem ok (a : α) : j.Justifies p (.ok a : Except DocumentError α) :=
  fun _ h => absurd h (by simp)

/-- One check after the other. -/
theorem bind {next : α → Except DocumentError β} (h : j.Justifies p check)
    (hnext : ∀ a, check = .ok a → j.Justifies p (next a)) : j.Justifies p (check >>= next) := by
  cases check with
  | error x => exact fun y hy => h y (congrArg Except.error (Except.error.inj hy))
  | ok a => exact hnext a rfl

/-- A check of the value of a field. -/
theorem field (hfield : j.field? name = some k) (h : k.Justifies (p.field name) check) :
    j.Justifies p check := by
  intro x hx
  have hstep : j.step? (.field name) = some k := hfield
  exact (h x hx).inside hstep

/-- A check of an item. -/
theorem index {items : List Json} {position : Nat} (hitem : items[position]? = some k)
    (h : k.Justifies (p.index position) check) : (Json.arr items).Justifies p check := by
  intro x hx
  have hstep : (Json.arr items).step? (.index position) = some k := hitem
  exact (h x hx).inside hstep

/-- A defect of the tree itself. -/
theorem malformed {defect : Defect} (h : defect.ShownBy j) :
    j.Justifies p (Json.malformed p defect : Except DocumentError α) := by
  intro x hx
  obtain rfl := Except.error.inj hx
  have hhere : j.FaultAt p (.malformed (p.after []) defect) := .malformed rfl h
  rwa [Location.after_nil] at hhere

end Justifies

/-! ## Fields, tags and scalars -/

theorem asObject_eq_ok_iff : j.asObject p = .ok fields ↔ j = .obj fields := by
  cases j <;> simp [asObject, malformed]

theorem justifies_asObject : j.Justifies p (j.asObject p) := by
  cases j with
  | obj fields => exact .ok fields
  | _ => exact .malformed rfl

theorem typeTag_eq_ok_iff :
    typeTag fields p = .ok kind ↔ (Json.obj fields).field? "type" = some (.str kind) := by
  rw [typeTag, field?]
  split
  · next found hfound => rw [hfound, Except.ok.injEq, Option.some.injEq, Json.str.injEq]
  · next hnone =>
    refine ⟨fun h => absurd h (by simp [malformed]), fun h => absurd h (hnone kind)⟩

theorem justifies_typeTag : (Json.obj fields).Justifies p (typeTag fields p) := by
  rw [typeTag]
  split
  · exact .ok _
  · next hnone => exact .malformed ⟨rfl, hnone⟩

theorem tagOf_eq_ok_iff : j.tagOf p = .ok kind ↔ j.field? "type" = some (.str kind) := by
  cases j with
  | obj fields => exact typeTag_eq_ok_iff
  | _ => simp [tagOf, asObject, malformed, field?, bind, Except.bind]

theorem justifies_tagOf : j.Justifies p (j.tagOf p) := by
  refine justifies_asObject.bind fun fields hfields => ?_
  rw [asObject_eq_ok_iff.mp hfields]
  exact justifies_typeTag

theorem needField_eq_ok_iff {defect : Defect} :
    needField fields name p defect = .ok k ↔ (Json.obj fields).field? name = some k := by
  rw [needField, field?]
  cases fields.lookup name <;> simp [malformed]

theorem justifies_needField {defect : Defect}
    (h : (Json.obj fields).field? name = none → defect.ShownBy (.obj fields)) :
    (Json.obj fields).Justifies p (needField fields name p defect) := by
  rw [needField]
  split
  · exact .ok _
  · next hnone => exact .malformed (h hnone)

theorem justifies_ifPresent {check : Json → Shape}
    (h : ∀ k, (Json.obj fields).field? name = some k → j.Justifies p (check k)) :
    j.Justifies p (ifPresent fields name check) := by
  rw [ifPresent]
  split
  · next found hfound => exact h found hfound
  · exact .ok ()

theorem justifies_checkScalar : j.Justifies p (j.checkScalar p) := by
  cases j with
  | str s => exact .ok ()
  | int n => exact .ok ()
  | float x => exact .ok ()
  | bool b => exact .ok ()
  | _ => exact .malformed ⟨rfl, rfl, nofun, nofun⟩

theorem justifies_checkReference : j.Justifies p (j.checkReference p) := by
  refine justifies_asObject.bind fun fields hfields => ?_
  rw [asObject_eq_ok_iff.mp hfields]
  split
  · exact .ok ()
  · next hnone =>
    refine .malformed ⟨rfl, ?_⟩
    rintro ⟨id, kind, hid, hkind⟩
    exact hnone id kind hid hkind

theorem justifies_checkSource : j.Justifies p (j.checkSource p) := by
  refine justifies_tagOf.bind fun kind hkind => ?_
  split
  · exact .ok ()
  · next hother =>
    exact .malformed ⟨tagOf_eq_ok_iff.mp hkind, by simpa using hother⟩

/-! ## Checks of nodes inside -/

/-- The keys of a tree are distinct, and the check of a node points at faults of everything inside
the tree. -/
structure SoundInside (node : Json → Location → Shape) (j : Json) : Prop where
  keys : j.distinctKeys = true
  justifies : ∀ k : Json, k.depth < j.depth → k.distinctKeys = true → ∀ q, k.Justifies q (node k q)

namespace SoundInside

variable {node : Json → Location → Shape} {items : List Json}

theorem of_step? (h : SoundInside node j) {s : Step} (hstep : j.step? s = some k) :
    SoundInside node k where
  keys := (inside_of_step? hstep).2 h.keys
  justifies l hdepth := h.justifies l (Nat.lt_trans hdepth (inside_of_step? hstep).1)

theorem field (h : SoundInside node j) (hfield : j.field? name = some k) : SoundInside node k := by
  have hstep : j.step? (.field name) = some k := hfield
  exact h.of_step? hstep

theorem justifies_field (h : SoundInside node j) (hfield : j.field? name = some k) (q : Location) :
    k.Justifies q (node k q) := by
  have hstep : j.step? (.field name) = some k := hfield
  exact h.justifies k (inside_of_step? hstep).1 (h.of_step? hstep).keys q

theorem justifies_index (h : SoundInside node (.arr items)) {position : Nat}
    (hitem : items[position]? = some k) (q : Location) : k.Justifies q (node k q) := by
  have hstep : (Json.arr items).step? (.index position) = some k := hitem
  exact h.justifies k (inside_of_step? hstep).1 (h.of_step? hstep).keys q

end SoundInside

/-! ## Inside an element -/

section Element

variable {node : Json → Location → Shape}

/-- An attribute or a style that is not supported is a fault of the element it belongs to. -/
theorem justifies_refusal (hj : j.IsElement content) (h : content.Refuses name kind) :
    j.Justifies p (.error (.unsupportedAttribute (p.field "content") name kind) : Shape) := by
  intro x hx
  obtain rfl := Except.error.inj hx
  have hhere : j.part? [] = some j := rfl
  exact .unsupportedAttribute hhere hj h

/-- The type tag of an entry of an object in a field. -/
theorem part?_entry {label entry : String} (hfields : j.field? label = some (.obj fields))
    (hentry : fields.lookup entry = some k) {tag : Json} (htag : k.field? "type" = some tag) :
    j.part? [.field label, .field entry, .field "type"] = some tag := by
  rw [part?_cons, step?, hfields, Option.bind_some, part?_cons, step?, field?, hentry,
    Option.bind_some, part?_cons, step?, htag, Option.bind_some]
  rfl

/-- The values of a style. -/
theorem justifies_checkStyle (hj : j.IsElement content) {style : List (String × Json)}
    (hstyle : content.field? "style" = some (.obj style)) (rest : List (String × Json))
    (hrest : ∀ field ∈ rest, style.lookup field.1 = some field.2) :
    j.Justifies p (checkStyle (p.field "content") ((p.field "content").field "style") rest) := by
  induction rest with
  | nil => exact .ok ()
  | cons head rest ih =>
      obtain ⟨property, value⟩ := head
      obtain ⟨hvalue, hrest⟩ := List.forall_mem_cons.mp hrest
      have htag : j.Justifies p
          (value.tagOf (((p.field "content").field "style").field property)) :=
        .field hj.content (.field hstyle (.field hvalue justifies_tagOf))
      refine htag.bind fun kind hkind => ?_
      split
      · exact ih hrest
      · next hother =>
        have htype := part?_entry hstyle hvalue (tagOf_eq_ok_iff.mp hkind)
        exact justifies_refusal hj (.inr ⟨property, rfl, htype, by simpa using hother⟩)

/-- The handlers of one event. -/
theorem justifies_checkHandlers {items : List Json} (rest : List Json) (position : Nat)
    (hrest : ∀ i, rest[i]? = items[position + i]?) :
    (Json.arr items).Justifies p (checkHandlers p position rest) := by
  induction rest generalizing position with
  | nil => exact .ok ()
  | cons handler rest ih =>
      have hhandler : items[position]? = some handler := (hrest 0).symm
      have htag : (Json.arr items).Justifies p (handler.tagOf (p.index position)) :=
        .index hhandler justifies_tagOf
      refine htag.bind fun kind hkind => ?_
      split
      · refine ih (position + 1) fun i => ?_
        rw [Nat.add_assoc, Nat.add_comm 1 i]
        exact hrest (i + 1)
      · next hother =>
        exact .index hhandler (.malformed ⟨tagOf_eq_ok_iff.mp hkind, by simpa using hother⟩)

/-- The handlers of all events. -/
theorem justifies_checkEvents {events : List (String × Json)} (rest : List (String × Json))
    (hrest : ∀ field ∈ rest, events.lookup field.1 = some field.2) :
    (Json.obj events).Justifies p (checkEvents p rest) := by
  induction rest with
  | nil => exact .ok ()
  | cons head rest ih =>
      obtain ⟨event, value⟩ := head
      obtain ⟨hvalue, hothers⟩ := List.forall_mem_cons.mp hrest
      have hfield : (Json.obj events).field? event = some value := hvalue
      cases value with
      | arr handlers =>
          have hhandlers : (Json.arr handlers).Justifies (p.field event)
              (checkHandlers (p.field event) 0 handlers) :=
            justifies_checkHandlers handlers 0 fun i => by rw [Nat.zero_add]
          exact (Justifies.field hfield hhandlers).bind fun _ _ => ih hothers
      | _ => exact .field hfield (.malformed rfl)

/-- Children. -/
theorem justifies_checkChildren {items : List Json} (hnode : SoundInside node (.arr items))
    (rest : List Json) (position : Nat) (hrest : ∀ i, rest[i]? = items[position + i]?) :
    (Json.arr items).Justifies p (checkChildren node p position rest) := by
  induction rest generalizing position with
  | nil => exact .ok ()
  | cons child rest ih =>
      have hchild : items[position]? = some child := (hrest 0).symm
      have hfirst : (Json.arr items).Justifies p (node child (p.index position)) :=
        .index hchild (hnode.justifies_index hchild _)
      refine hfirst.bind fun _ _ => ih (position + 1) fun i => ?_
      rw [Nat.add_assoc, Nat.add_comm 1 i]
      exact hrest (i + 1)

/-- Attributes, with the nodes that they pass. -/
theorem justifies_checkAttrs (hj : j.IsElement content) {attrs : List (String × Json)}
    (hattrs : content.field? "attrs" = some (.obj attrs)) (hnode : SoundInside node (.obj attrs))
    (rest : List (String × Json)) (hrest : ∀ field ∈ rest, attrs.lookup field.1 = some field.2) :
    j.Justifies p
      (checkAttrs node (p.field "content") ((p.field "content").field "attrs") rest) := by
  induction rest with
  | nil => exact .ok ()
  | cons head rest ih =>
      obtain ⟨name, value⟩ := head
      obtain ⟨hvalue, hothers⟩ := List.forall_mem_cons.mp hrest
      have hfield : (Json.obj attrs).field? name = some value := hvalue
      have hinside : ∀ {α : Type} {check : Except DocumentError α},
          value.Justifies (((p.field "content").field "attrs").field name) check →
            j.Justifies p check :=
        fun h => .field hj.content (.field hattrs (.field hfield h))
      refine (hinside justifies_asObject).bind fun fields hfields => ?_
      obtain rfl := asObject_eq_ok_iff.mp hfields
      refine (hinside justifies_typeTag).bind fun kind hkind => ?_
      have htype := typeTag_eq_ok_iff.mp hkind
      split
      · exact ih hothers
      · exact ih hothers
      · exact ih hothers
      · have hneed := justifies_needField (p := ((p.field "content").field "attrs").field name)
          fun hnone => show Defect.slotAttributeWithoutContent.ShownBy _ from ⟨htype, hnone⟩
        refine (hinside hneed).bind fun k hk => ?_
        have hcontent := needField_eq_ok_iff.mp hk
        exact (hinside (.field hcontent ((hnode.field hfield).justifies_field hcontent _))).bind fun _ _ => ih hothers
      · next hstatic hdynamic himport hpassed =>
        refine justifies_refusal hj (.inl ⟨part?_entry hattrs hvalue htype, ?_⟩)
        simp only [List.mem_cons, List.not_mem_nil, or_false, not_or]
        exact ⟨hstatic, hdynamic, himport, hpassed⟩

end Element

/-! ## Nodes -/

section Nodes

variable {node : Json → Location → Shape}

/-- The content of an element. -/
theorem justifies_checkElement (hj : j.IsElement content) (hnode : SoundInside node content) :
    j.Justifies p (checkElement node content (p.field "content")) := by
  refine (Justifies.field hj.content justifies_asObject).bind fun fields hfields => ?_
  obtain rfl := asObject_eq_ok_iff.mp hfields
  split
  · refine Justifies.bind (justifies_ifPresent fun k hattrs => ?_) fun _ _ => ?_
    · refine (Justifies.field hj.content (.field hattrs justifies_asObject)).bind fun attrs hk => ?_
      obtain rfl := asObject_eq_ok_iff.mp hk
      exact justifies_checkAttrs hj hattrs (hnode.field hattrs) attrs
        fun _ => lookup_of_mem (hnode.field hattrs).keys
    refine Justifies.bind (justifies_ifPresent fun k hstyle => ?_) fun _ _ => ?_
    · refine (Justifies.field hj.content (.field hstyle justifies_asObject)).bind fun style hk => ?_
      obtain rfl := asObject_eq_ok_iff.mp hk
      exact justifies_checkStyle hj hstyle style fun _ => lookup_of_mem (hnode.field hstyle).keys
    refine Justifies.bind (justifies_ifPresent fun k hevents => ?_) fun _ _ => ?_
    · refine .field hj.content (.field hevents (justifies_asObject.bind fun events hk => ?_))
      obtain rfl := asObject_eq_ok_iff.mp hk
      exact justifies_checkEvents events fun _ => lookup_of_mem (hnode.field hevents).keys
    refine justifies_ifPresent fun children hchildren => ?_
    refine .field hj.content (.field hchildren ?_)
    cases children with
    | arr items =>
        exact justifies_checkChildren (hnode.field hchildren) items 0 fun i => by rw [Nat.zero_add]
    | _ => exact .malformed rfl
  · next hnone => exact .field hj.content (.malformed ⟨rfl, hnone⟩)

/-- The content of a loop. -/
theorem justifies_checkLoop (hnode : SoundInside node content) :
    content.Justifies p (checkLoop node content p) := by
  refine justifies_asObject.bind fun fields hfields => ?_
  obtain rfl := asObject_eq_ok_iff.mp hfields
  refine (justifies_needField fun hnone => ?_).bind fun template htemplate => ?_
  · exact ⟨rfl, hnone⟩
  have hfield := needField_eq_ok_iff.mp htemplate
  refine (Justifies.field hfield (hnode.justifies_field hfield _)).bind fun _ _ => ?_
  refine (Justifies.field hfield justifies_tagOf).bind fun kind hkind => ?_
  dsimp only
  split
  · next hother =>
    refine Justifies.bind (.field hfield (.malformed ?_)) fun _ hok => ?_
    · exact ⟨kind, tagOf_eq_ok_iff.mp hkind, hother⟩
    · exact absurd hok (by simp [malformed])
  · refine (justifies_needField fun hnone => ?_).bind fun source hsource => ?_
    · exact ⟨rfl, hnone⟩
    · exact .field (needField_eq_ok_iff.mp hsource) justifies_checkSource

/-- The content of a conditional. -/
theorem justifies_checkConditional (hnode : SoundInside node content) :
    content.Justifies p (checkConditional node content p) := by
  refine justifies_asObject.bind fun fields hfields => ?_
  obtain rfl := asObject_eq_ok_iff.mp hfields
  refine (justifies_needField fun hnone => ?_).bind fun inner hinner => ?_
  · exact ⟨rfl, hnone⟩
  have hfield := needField_eq_ok_iff.mp hinner
  refine (Justifies.field hfield (hnode.justifies_field hfield _)).bind fun _ _ => ?_
  refine (justifies_needField fun hnone => ?_).bind fun reference hreference => ?_
  · exact ⟨rfl, hnone⟩
  have hsubject := needField_eq_ok_iff.mp hreference
  refine (Justifies.field hsubject justifies_tagOf).bind fun kind hkind => ?_
  split
  · next hother =>
    exact .field hsubject (.malformed ⟨kind, tagOf_eq_ok_iff.mp hkind, hother⟩)
  · exact .ok ()

/-- The content of a slot. -/
theorem justifies_checkSlot (hnode : SoundInside node content) :
    content.Justifies p (checkSlot node content p) := by
  refine justifies_asObject.bind fun fields hfields => ?_
  obtain rfl := asObject_eq_ok_iff.mp hfields
  refine justifies_ifPresent fun fallback hfallback => ?_
  exact .field hfallback (hnode.justifies_field hfallback _)

/-- A node of an unknown kind. -/
theorem justifies_unsupportedNode {α : Type} (htype : j.field? "type" = some (.str kind))
    (hkind : kind ∉ Node.kinds) :
    j.Justifies p (.error (.unsupportedNode p kind) : Except DocumentError α) := by
  intro x hx
  obtain rfl := Except.error.inj hx
  have hhere : j.FaultAt p (.unsupportedNode (p.after []) kind) :=
    .unsupportedNode rfl htype hkind
  rwa [Location.after_nil] at hhere

end Nodes

/-- **Every error of the check of a node points at a fault.**  The levels have to be enough for the
tree: with none left, the tree is taken for one without fields. -/
theorem justifies_checkNodeWithin (levels : Nat) (j : Json) (hdepth : j.depth ≤ levels)
    (hkeys : j.distinctKeys = true) (p : Location) :
    j.Justifies p (checkNodeWithin levels j p) := by
  induction levels generalizing j p with
  | zero =>
      refine .malformed ?_
      cases j with
      | obj fields => exact absurd hdepth (by simp [depth])
      | _ => rfl
  | succ levels ih =>
      refine justifies_asObject.bind fun fields hfields => ?_
      obtain rfl := asObject_eq_ok_iff.mp hfields
      refine justifies_typeTag.bind fun kind hkind => ?_
      have htype := typeTag_eq_ok_iff.mp hkind
      dsimp only
      split
      · next hunknown =>
        exact (justifies_unsupportedNode htype (by simpa using hunknown)).bind fun _ hok =>
          absurd hok (by simp)
      · next hknown =>
        have hmem : kind ∈ Node.kinds := by simpa using hknown
        refine (justifies_needField fun hnone => ?_).bind fun content hfield => ?_
        · exact ⟨⟨kind, hmem, htype⟩, hnone⟩
        have hcontent := needField_eq_ok_iff.mp hfield
        have hnode : SoundInside (checkNodeWithin levels) (.obj fields) :=
          ⟨hkeys, fun k hk hkeys q => ih k (Nat.le_of_lt_succ (Nat.lt_of_lt_of_le hk hdepth)) hkeys q⟩
        split
        · exact .field hcontent justifies_checkScalar
        · refine .field hcontent ?_
          split
          · exact .ok ()
          · next hnone => exact .malformed (by simpa [Defect.ShownBy] using hnone)
        · exact .field hcontent justifies_checkReference
        · exact justifies_checkElement ⟨htype, hcontent⟩ (hnode.field hcontent)
        · exact .field hcontent (justifies_checkLoop (hnode.field hcontent))
        · exact .field hcontent (justifies_checkConditional (hnode.field hcontent))
        · exact .field hcontent (justifies_checkSlot (hnode.field hcontent))
        · next hstatic hraw hdynamic helement hloop hconditional hslot =>
          refine absurd hmem ?_
          simp only [Node.kinds, List.mem_cons, List.not_mem_nil, or_false, not_or]
          exact ⟨hstatic, hdynamic, hraw, helement, hloop, hconditional, hslot⟩

/-- **What the errors of the check of a node say is true of the parts they point at.**  The location
of an error is that of the node with some steps after it, and the steps lead to a part of the node.
A malformed part has the reported defect.  A node of an unsupported kind has the reported kind for
its type, and no kind of node is called so.  An unsupported attribute is reported at the content of
an element, which has that attribute, or that style, with the reported kind for its type. -/
theorem shape_errors_point_at_faults {j : Json} (hkeys : j.distinctKeys = true) (p : Location)
    {x : DocumentError} (h : j.checkNode p = .error x) :
    ∃ (steps : List Step) (part : Json), j.part? steps = some part ∧
      ((∃ defect, x = .malformed (p.after steps) defect ∧ defect.ShownBy part) ∨
        (∃ kind, x = .unsupportedNode (p.after steps) kind ∧
          part.field? "type" = some (.str kind) ∧ kind ∉ Node.kinds) ∨
        ∃ name kind before node, x = .unsupportedAttribute (p.after steps) name kind ∧
          steps = before ++ [.field "content"] ∧ j.part? before = some node ∧
          node.field? "type" = some (.str "element") ∧ part.Refuses name kind) := by
  have hfault : j.FaultAt p x :=
    justifies_checkNodeWithin j.depth j (Nat.le_refl _) hkeys p x h
  cases hfault with
  | @malformed steps part defect hpart hshown =>
      exact ⟨steps, part, hpart, .inl ⟨defect, rfl, hshown⟩⟩
  | @unsupportedNode steps part kind hpart htype hkind =>
      exact ⟨steps, part, hpart, .inr (.inl ⟨kind, rfl, htype, hkind⟩)⟩
  | @unsupportedAttribute steps node content name kind hpart hnode hrefuses =>
      have hcontent : j.part? (steps ++ [.field "content"]) = some content := by
        rw [part?_append, hpart, Option.bind_some, part?_cons, step?, hnode.content,
          Option.bind_some]
        rfl
      exact ⟨_, content, hcontent, .inr (.inr ⟨name, kind, steps, node, rfl, rfl, hpart,
        hnode.kind, hrefuses⟩)⟩

/-- A list whose second child repeats an item with an icon that is passed as an attribute.  The icon
has a width of a kind that there is not. -/
def iconList : Json :=
  .obj [("type", .str "element"), ("content", .obj [
    ("elementType", .str "ul"),
    ("children", .arr [
      .obj [("type", .str "static"), ("content", .str "Icons")],
      .obj [("type", .str "repeat"), ("content", .obj [
        ("node", .obj [("type", .str "element"), ("content", .obj [
          ("elementType", .str "li"),
          ("attrs", .obj [
            ("icon", .obj [("type", .str "slot"), ("content", .obj [
              ("type", .str "element"), ("content", .obj [
                ("elementType", .str "i"),
                ("style", .obj [
                  ("color", .obj [("type", .str "static"), ("content", .str "red")]),
                  ("width", .obj [("type", .str "computed"), ("content", .int 4)])])])])])])])]),
        ("dataSource", .obj [("type", .str "static"), ("content", .arr [])])])]])])]

/-- The width is reported at the content of the icon. -/
theorem iconList_fault_found :
    ∃ (steps : List Step) (part : Json),
      iconList.sorted.checkNode (Location.root.field "node") =
        .error (.unsupportedAttribute ((Location.root.field "node").after steps) "style.width"
          "computed") ∧
      iconList.sorted.part? steps = some part ∧ part.Refuses "style.width" "computed" := by
  have hcheck : iconList.sorted.checkNode (Location.root.field "node") =
      .error (.unsupportedAttribute ((Location.root.field "node").after
        [.field "content", .field "children", .index 1, .field "content", .field "node",
          .field "content", .field "attrs", .field "icon", .field "content", .field "content"])
        "style.width" "computed") := by
    decide +kernel
  obtain ⟨steps, part, hpart, ⟨defect, hx, -⟩ | ⟨kind, hx, -⟩ | hattribute⟩ :=
    shape_errors_point_at_faults (distinctKeys_sorted iconList) (Location.root.field "node") hcheck
  · exact absurd hx (by simp)
  · exact absurd hx (by simp)
  · obtain ⟨name, kind, before, node, hx, -, -, -, hrefuses⟩ := hattribute
    obtain ⟨hlocation, rfl, rfl⟩ := DocumentError.unsupportedAttribute.inj hx
    exact ⟨steps, part, hlocation ▸ hcheck, hpart, hrefuses⟩

end Json

end ViewGen
