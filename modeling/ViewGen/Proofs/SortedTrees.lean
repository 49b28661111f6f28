import Mathlib.Data.List.Forall2
import Mathlib.Data.List.Perm.Basic
import ViewGen.Document.Encoding
import ViewGen.Json.Record
import ViewGen.Proofs.Dictionaries

/-!
# Sorted trees

A tree whose objects are sorted by key holds the same fields as before, as long as no key is there
twice.  What the readers of records, lists, dictionaries and tags make of a sorted tree is said here
in terms of the fields before sorting, so that nobody else has to look at their order.

A tag comes after its content in a sorted tree, so the content has to be kept: it is read only if
all of it is readable and within the levels that are left.

## Main statements

* `perm_sortedFields`, `lookup_sortedFields` — sorting keeps fields with different keys
* `depth_obj_le`, `depth_arr_le`, `readable_sorted` — depth and readability, part by part
* `exists_record?_sorted`, `list?_sorted`, `exists_dict?_sorted`, `tagged?_sorted_tag` — the readers
-/

namespace ViewGen

namespace Json

variable {fields : List (String × Json)} {key : String} {value : Json}

/-! ## Fields -/

theorem sortedItems_eq_map (items : List Json) : sortedItems items = items.map sorted := by
  induction items with
  | nil => rfl
  | cons j rest ih => rw [sortedItems, ih, List.map_cons]

theorem sortedValues_eq_map (fields : List (String × Json)) :
    sortedValues fields = fields.map fun field => (field.1, field.2.sorted) := by
  induction fields with
  | nil => rfl
  | cons field rest ih => rw [sortedValues, ih, List.map_cons]

theorem insertSorted_of_lt {k : String} {v : Json} (hne : key ≠ k) (hlt : key < k) :
    insertSorted key value ((k, v) :: fields) = (key, value) :: (k, v) :: fields := by
  rw [insertSorted, if_neg hne, if_pos hlt]

theorem insertSorted_of_not_lt {k : String} {v : Json} (hne : key ≠ k) (hnot : ¬ key < k) :
    insertSorted key value ((k, v) :: fields) = (k, v) :: insertSorted key value fields := by
  rw [insertSorted, if_neg hne, if_neg hnot]

theorem mem_of_mem_insertSorted {field : String × Json}
    (h : field ∈ insertSorted key value fields) : field = (key, value) ∨ field ∈ fields := by
  induction fields with
  | nil => exact .inl (List.mem_singleton.mp h)
  | cons head rest ih =>
      obtain ⟨k, v⟩ := head
      rw [insertSorted] at h
      split at h
      · exact (List.mem_cons.mp h).imp_right (List.mem_cons_of_mem _)
      · split at h
        · exact List.mem_cons.mp h
        · rcases List.mem_cons.mp h with rfl | hrest
          · exact .inr List.mem_cons_self
          · exact (ih hrest).imp_right (List.mem_cons_of_mem _)

theorem perm_insertSorted (h : key ∉ fields.map Prod.fst) :
    (insertSorted key value fields).Perm ((key, value) :: fields) := by
  induction fields with
  | nil => exact .refl _
  | cons head rest ih =>
      obtain ⟨k, v⟩ := head
      have hne : key ≠ k := fun heq => h (heq ▸ List.mem_cons_self)
      rw [insertSorted, if_neg hne]
      split
      · exact .refl _
      · exact ((ih fun hmem => h (List.mem_cons_of_mem _ hmem)).cons _).trans (.swap _ _ _)

/-- Sorting adds no field. -/
theorem mem_of_mem_sortFields {field : String × Json} (h : field ∈ sortFields fields) :
    field ∈ fields := by
  have hfold : ∀ (fields done : List (String × Json)),
      field ∈ fields.foldl (fun sorted entry => insertSorted entry.1 entry.2 sorted) done →
        field ∈ done ∨ field ∈ fields := by
    intro fields
    induction fields with
    | nil => exact fun done h => .inl h
    | cons head rest ih =>
        intro done h
        rcases ih _ h with hdone | hrest
        · rcases mem_of_mem_insertSorted hdone with rfl | hdone
          · exact .inr List.mem_cons_self
          · exact .inl hdone
        · exact .inr (List.mem_cons_of_mem _ hrest)
  exact (hfold fields [] h).resolve_left List.not_mem_nil

/-- Sorting keeps all fields if no key is there twice. -/
theorem perm_sortFields (h : (fields.map Prod.fst).Nodup) : (sortFields fields).Perm fields := by
  have hfold : ∀ (fields done : List (String × Json)), ((fields ++ done).map Prod.fst).Nodup →
      (fields.foldl (fun sorted entry => insertSorted entry.1 entry.2 sorted) done).Perm
        (fields ++ done) := by
    intro fields
    induction fields with
    | nil => exact fun done _ => .refl _
    | cons head rest ih =>
        intro done h
        rw [List.cons_append, List.map_cons, List.nodup_cons] at h
        obtain ⟨hnew, hrest⟩ := h
        have hinsert : (insertSorted head.1 head.2 done).Perm (head :: done) := by
          refine perm_insertSorted fun hmem => hnew ?_
          rw [List.map_append]
          exact List.mem_append_right _ hmem
        have hmoved := (hinsert.append_left rest).trans List.perm_middle
        refine (ih _ ?_).trans hmoved
        exact (hmoved.map Prod.fst).nodup_iff.mpr (List.nodup_cons.mpr ⟨hnew, hrest⟩)
  have hall := hfold fields [] (by rwa [List.append_nil])
  rwa [List.append_nil] at hall

/-- The fields of an object after sorting. -/
def sortedFields (fields : List (String × Json)) : List (String × Json) :=
  sortFields (fields.map fun field => (field.1, field.2.sorted))

theorem sortedFields_eq_foldl (fields : List (String × Json)) :
    sortedFields fields =
      fields.foldl (fun done field => insertSorted field.1 field.2.sorted done) [] := by
  rw [sortedFields, sortFields, List.foldl_map]

theorem sorted_obj (fields : List (String × Json)) :
    (Json.obj fields).sorted = .obj (sortedFields fields) := by
  rw [sorted, sortedValues_eq_map, sortedFields]

theorem sorted_arr (items : List Json) : (Json.arr items).sorted = .arr (items.map sorted) := by
  rw [sorted, sortedItems_eq_map]

theorem map_fst_sortedValues (fields : List (String × Json)) :
    (fields.map fun field => (field.1, field.2.sorted)).map Prod.fst = fields.map Prod.fst := by
  rw [List.map_map]
  rfl

theorem perm_sortedFields (h : (fields.map Prod.fst).Nodup) :
    (sortedFields fields).Perm (fields.map fun field => (field.1, field.2.sorted)) :=
  perm_sortFields (by rwa [map_fst_sortedValues])

theorem lookup_map_snd (fields : List (String × Json)) (f : Json → Json) (key : String) :
    (fields.map fun field => (field.1, f field.2)).lookup key = (fields.lookup key).map f := by
  induction fields with
  | nil => rfl
  | cons field rest ih =>
      rw [List.map_cons, List.lookup_cons, List.lookup_cons, ih]
      cases key == field.1 <;> rfl

/-- What is found in a sorted object is what was there before, sorted. -/
theorem lookup_sortedFields (h : (fields.map Prod.fst).Nodup) (key : String) :
    (sortedFields fields).lookup key = (fields.lookup key).map sorted := by
  have hnodup : ((sortedFields fields).map Prod.fst).Nodup := by
    rw [((perm_sortedFields h).map Prod.fst).nodup_iff, map_fst_sortedValues]
    exact h
  exact (Dict.get?_eq_of_perm (perm_sortedFields h) hnodup key).trans (lookup_map_snd fields _ key)

/-! ## Depth and readability -/

theorem depthFields_le_iff {levels : Nat} :
    depthFields fields ≤ levels ↔ ∀ field ∈ fields, field.2.depth ≤ levels := by
  induction fields with
  | nil => simp [depthFields]
  | cons field rest ih => rw [depthFields, Nat.max_le, ih, List.forall_mem_cons]

theorem depthItems_le_iff {items : List Json} {levels : Nat} :
    depthItems items ≤ levels ↔ ∀ j ∈ items, j.depth ≤ levels := by
  induction items with
  | nil => simp [depthItems]
  | cons j rest ih => rw [depthItems, Nat.max_le, ih, List.forall_mem_cons]

/-- The fields of an object are less deep than the object. -/
theorem depth_obj_le {levels : Nat} (h : (Json.obj fields).depth ≤ levels) :
    levels ≠ 0 ∧ ∀ field ∈ fields, field.2.depth ≤ levels - 1 := by
  rw [depth] at h
  exact ⟨by omega, depthFields_le_iff.mp (by omega)⟩

/-- The items of an array are less deep than the array. -/
theorem depth_arr_le {items : List Json} {levels : Nat} (h : (Json.arr items).depth ≤ levels) :
    levels ≠ 0 ∧ ∀ j ∈ items, j.depth ≤ levels - 1 := by
  rw [depth] at h
  exact ⟨by omega, depthItems_le_iff.mp (by omega)⟩

/-- The fields of an object are less deep than the sorted object if none of them is dropped. -/
theorem depth_fields_le {levels : Nat} (hnodup : (fields.map Prod.fst).Nodup)
    (h : (Json.obj fields).sorted.depth ≤ levels) :
    levels ≠ 0 ∧ ∀ field ∈ fields, field.2.sorted.depth ≤ levels - 1 := by
  rw [sorted_obj] at h
  obtain ⟨hlevels, hinner⟩ := depth_obj_le h
  refine ⟨hlevels, fun field hfield => ?_⟩
  exact hinner (field.1, field.2.sorted)
    ((perm_sortedFields hnodup).mem_iff.mpr (List.mem_map.mpr ⟨field, hfield, rfl⟩))

theorem readableFields_iff :
    readableFields fields = true ↔ ∀ field ∈ fields, field.2.readable = true := by
  induction fields with
  | nil => simp [readableFields]
  | cons field rest ih => rw [readableFields, Bool.and_eq_true, ih, List.forall_mem_cons]

theorem readableItems_iff {items : List Json} :
    readableItems items = true ↔ ∀ j ∈ items, j.readable = true := by
  induction items with
  | nil => simp [readableItems]
  | cons j rest ih => rw [readableItems, Bool.and_eq_true, ih, List.forall_mem_cons]

theorem readable_obj_iff :
    (Json.obj fields).readable = true ↔ ∀ field ∈ fields, field.2.readable = true := by
  rw [readable, readableFields_iff]

theorem readable_arr_iff {items : List Json} :
    (Json.arr items).readable = true ↔ ∀ j ∈ items, j.readable = true := by
  rw [readable, readableItems_iff]

mutual

/-- A readable tree is readable after sorting. -/
theorem readable_sorted : ∀ {j : Json}, j.readable = true → j.sorted.readable = true
  | .null, h => h
  | .bool _, h => h
  | .int _, h => h
  | .float _, h => h
  | .str _, h => h
  | .unreadable, h => h
  | .arr items, h => by
      rw [sorted_arr, readable_arr_iff]
      rw [readable] at h
      exact readableItems_iff.mp (readableItems_sorted h)
  | .obj fields, h => by
      rw [sorted_obj, readable_obj_iff]
      rw [readable] at h
      intro field hfield
      exact readableFields_iff.mp (readableFields_sorted h) field (mem_of_mem_sortFields hfield)

theorem readableItems_sorted : ∀ {items : List Json}, readableItems items = true →
    readableItems (items.map sorted) = true
  | [], h => h
  | j :: rest, h => by
      rw [readableItems, Bool.and_eq_true] at h
      rw [List.map_cons, readableItems, Bool.and_eq_true]
      exact ⟨readable_sorted h.1, readableItems_sorted h.2⟩

theorem readableFields_sorted : ∀ {fields : List (String × Json)}, readableFields fields = true →
    readableFields (fields.map fun field => (field.1, field.2.sorted)) = true
  | [], h => h
  | (k, j) :: rest, h => by
      rw [readableFields, Bool.and_eq_true] at h
      rw [List.map_cons, readableFields, Bool.and_eq_true]
      exact ⟨readable_sorted h.1, readableFields_sorted h.2⟩

end

/-! ## Records -/

/-- A field that may be left out has its own name or none. -/
theorem map_fst_present_sublist (name : String) (value : Option Json) :
    ((present name value).map Prod.fst).Sublist [name] := by
  cases value with
  | none => exact List.nil_sublist _
  | some j => exact .refl _

theorem lookup_present (name : String) (value : Option Json) (key : String) :
    (present name value).lookup key = if key = name then value else none := by
  cases value with
  | none => simp [present]
  | some j =>
      by_cases h : key = name
      · simp [present, h]
      · simp [present, List.lookup_cons, beq_false_of_ne h, h]

/-- The record of a sorted object that has some of the fields of the record, in any order: what is
found in it is what was written, sorted, and it is less deep than the object. -/
theorem exists_record?_sorted {names : List String} {levels : Nat}
    (hdepth : (Json.obj fields).sorted.depth ≤ levels) (hnames : names.Nodup)
    (hkeys : (fields.map Prod.fst).Sublist names) :
    ∃ r : Record, (Json.obj fields).sorted.record? levels names = some r ∧
      (∀ key, r.lookup key = (fields.lookup key).map sorted) ∧
        ∀ key j, fields.lookup key = some j → j.sorted.depth ≤ levels - 1 := by
  have hnodup : (fields.map Prod.fst).Nodup := hkeys.nodup hnames
  obtain ⟨hlevels, hinner⟩ := depth_fields_le hnodup hdepth
  have hperm := (perm_sortedFields hnodup).map Prod.fst
  rw [map_fst_sortedValues] at hperm
  refine ⟨sortedFields fields, ?_, lookup_sortedFields hnodup,
    fun key j hj => hinner _ (Dict.mem_of_get? hj)⟩
  have hknown : (sortedFields fields).filter (fun field => names.contains field.1) =
      sortedFields fields := by
    refine List.filter_eq_self.mpr fun field hfield => ?_
    have hkey : field.1 ∈ fields.map Prod.fst :=
      hperm.mem_iff.mp (List.mem_map.mpr ⟨field, hfield, rfl⟩)
    exact List.contains_iff_mem.mpr (hkeys.subset hkey)
  rw [sorted_obj, record?, objectRecord?, hknown,
    if_pos ⟨hlevels, hperm.nodup_iff.mpr hnodup⟩]
  exact fun items h => nomatch h

end Json

namespace Record

variable {α : Type} {r : Record} {name : String} {j : Json} {read : Json → Option α}

theorem required_of_lookup (h : r.lookup name = some j) : r.required name read = read j := by
  rw [required, h]
  rfl

theorem orDefault_of_lookup {default : α} (h : r.lookup name = some j) :
    r.orDefault name default read = read j := by
  rw [orDefault, h]

theorem optional_of_lookup {a : α} (h : r.lookup name = some j) (hread : read j = some a)
    (hnull : read .null = none) : r.optional name read = some (some a) := by
  unfold optional
  split
  · next hnone => rw [h] at hnone; exact nomatch hnone
  · next hsome =>
    rw [h] at hsome
    obtain rfl := Option.some.inj hsome
    rw [hread] at hnull
    exact nomatch hnull
  · next hsome =>
    rw [h] at hsome
    obtain rfl := Option.some.inj hsome
    rw [hread]
    rfl

/-- A field that is left out when it has no value is read back. -/
theorem optional_present {value : Option α} (write : α → Json)
    (h : r.lookup name = (value.map write).map Json.sorted)
    (hread : ∀ a, value = some a → read (write a).sorted = some a) (hnull : read .null = none) :
    r.optional name read = some value := by
  cases value with
  | none => rw [optional, show r.lookup name = none from h]
  | some a => exact optional_of_lookup h (hread a rfl) hnull

/-- A field that is null when it has no value is read back. -/
theorem optional_orNull {value : Option α} (write : α → Json)
    (h : r.lookup name = some (Json.orNull (value.map write)).sorted)
    (hread : ∀ a, value = some a → read (write a).sorted = some a) (hnull : read .null = none) :
    r.optional name read = some value := by
  cases value with
  | none => rw [optional, show r.lookup name = some .null from h]
  | some a => exact optional_of_lookup h (hread a rfl) hnull

end Record

namespace Json

/-! ## Lists and dictionaries -/

variable {fields : List (String × Json)}

variable {α : Type} {read : Json → Option α}

theorem mapM_eq_some_of_forall₂ {β γ : Type} {f : β → Option γ} {xs : List β} {ys : List γ}
    (h : List.Forall₂ (fun x y => f x = some y) xs ys) : xs.mapM f = some ys := by
  induction h with
  | nil => rfl
  | cons hhead _ ih =>
      rw [List.mapM_cons, hhead, ih]
      rfl

/-- A list is read item by item. -/
theorem list?_sorted {items : List Json} {values : List α} {levels : Nat} (hlevels : levels ≠ 0)
    (h : List.Forall₂ (fun j a => read j.sorted = some a) items values) :
    (Json.arr items).sorted.list? levels read = some values := by
  rw [sorted_arr, list?, if_neg hlevels]
  exact mapM_eq_some_of_forall₂ (List.forall₂_map_left_iff.mpr h)

/-- A dictionary is read entry by entry; the entries come out in another order. -/
theorem exists_dict?_sorted {entries : Dict α} {levels : Nat} (hlevels : levels ≠ 0)
    (hnodup : (fields.map Prod.fst).Nodup)
    (h : List.Forall₂ (fun field entry => field.1 = entry.1 ∧ read field.2.sorted = some entry.2)
      fields entries) :
    ∃ d, (Json.obj fields).sorted.dict? levels read = some d ∧ d.Perm entries := by
  have hkeys : fields.map Prod.fst = entries.keys := by
    clear hnodup
    induction h with
    | nil => rfl
    | cons hhead _ ih => rw [List.map_cons, ih, hhead.1, Dict.keys, Dict.keys, List.map_cons]
  have hsorted : List.Forall₂ (fun field entry => field.1 = entry.1 ∧ read field.2 = some entry.2)
      (fields.map fun field => (field.1, field.2.sorted)) entries :=
    List.forall₂_map_left_iff.mpr h
  obtain ⟨d, hread, hperm⟩ := List.perm_comp_forall₂ (perm_sortedFields hnodup) hsorted
  refine ⟨d, ?_, hperm⟩
  have hdistinct : (Dict.keys d).Nodup := by
    rw [hkeys] at hnodup
    exact (hperm.map Prod.fst).nodup_iff.mpr hnodup
  have hentries := mapM_eq_some_of_forall₂ (f := fun field : String × Json =>
    (read field.2).map fun a => (field.1, a)) (hread.imp fun field entry hentry => by
      rw [hentry.2, hentry.1]
      rfl)
  rw [sorted_obj, dict?, if_neg hlevels, hentries, Option.map_some,
    Dict.ofList_of_nodup hdistinct]

/-! ## Tags -/

theorem sorted_tag (kind : String) (content : Json) :
    (tag kind content).sorted = .obj [("content", content.sorted), ("type", .str kind)] := by
  rw [tag, sorted_obj, sortedFields_eq_foldl]
  simp only [List.foldl_cons, List.foldl_nil, sorted]
  rw [insertSorted, insertSorted_of_lt (by decide) (by decide)]

/-- A content is less deep than its tag. -/
theorem depth_sorted_tag_le {kind : String} {content : Json} {levels : Nat}
    (h : (tag kind content).sorted.depth ≤ levels) :
    levels ≠ 0 ∧ content.sorted.depth ≤ levels - 1 := by
  rw [sorted_tag] at h
  obtain ⟨hlevels, hinner⟩ := depth_obj_le h
  exact ⟨hlevels, hinner _ List.mem_cons_self⟩

theorem readable_tag_iff {kind : String} {content : Json} :
    (tag kind content).readable = true ↔ content.readable = true := by
  rw [tag, readable_obj_iff]
  simp [readable]

/-- A tag comes after its content, so the content is kept. -/
theorem tagged?_sorted_tag {β : Type} {arrival : Arrival} {levels : Nat} {table : List (String × β)}
    {kind : String} {content : Json} (hreadable : (tag kind content).readable = true)
    (hdepth : (tag kind content).sorted.depth ≤ levels) :
    (tag kind content).sorted.tagged? arrival levels table =
      (table.lookup kind).map fun a => (a, .kept, content.sorted) := by
  obtain ⟨hlevels, hinner⟩ := depth_sorted_tag_le hdepth
  rw [sorted_tag, tagged?, if_neg hlevels]
  simp [readable_sorted (readable_tag_iff.mp hreadable), hinner, name?]

end Json

end ViewGen
