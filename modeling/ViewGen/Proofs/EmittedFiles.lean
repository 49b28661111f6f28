import Mathlib.Data.List.Perm.Basic
import ViewGen.Project.Component
import ViewGen.Proofs.ProjectFiles

/-!
# Chunks are written once

The chunks of a component come in one order and go into files of several types.  One pass puts each
chunk behind the others of its type, and starts a group for the first of a type; chunks without text
are left out.  Every step puts one chunk into one group, so no chunk is lost or written twice, and
the chunks of a group keep their order.  The files are these groups in the order of the types.

## Main definitions

* `FileType.place` — the order of the types
* `Chunk.addTo`, `Chunk.gather` — a step of the pass, and the pass
* `Chunk.Gathers` — groups that have every chunk once, in order, with the others of its type
* `Emission.written` — the chunks that have a text
* `Text.EndsLine` — a text that ends with one line feed and no white space before it

## Main statements

* `Chunk.Gathers.addTo`, `Chunk.gathers_gather` — what a step keeps, and what the pass yields
* `Chunk.Gathers.mem_iff` — there is a group for each type, and for no other
* `Emission.files_eq_map` — the files are the groups in order
* `Emission.chunks_emitted_once` — files, groups and the end of every file
-/

namespace ViewGen

namespace FileType

/-- The place of a type in the order of types. -/
def place : FileType → Nat
  | .js => 0
  | .css => 1
  | .html => 2
  | .json => 3
  | .vue => 4

theorem pairwise_place_all : (all.map place).Pairwise (· < ·) := by
  decide

theorem mem_all (t : FileType) : t ∈ all := by
  cases t <;> decide

end FileType

namespace Chunk

/-! ## One pass over chunks -/

/-- Put a chunk into the group of its type, behind the others, or start a group for it at the
end. -/
def addTo (c : Chunk) : List (FileType × List Chunk) → List (FileType × List Chunk)
  | [] => [(c.fileType, [c])]
  | (t, cs) :: rest =>
    if t = c.fileType then (t, cs ++ [c]) :: rest else (t, cs) :: c.addTo rest

/-- The groups of chunks after one pass. -/
def gather (chunks : List Chunk) : List (FileType × List Chunk) :=
  chunks.foldl (fun groups c => c.addTo groups) []

/-- The chunks of a type. -/
def ofType (chunks : List Chunk) (t : FileType) : List Chunk :=
  chunks.filter fun c => c.fileType = t

/-- Groups that have every chunk once, with the others of its type and in order. -/
structure Gathers (chunks : List Chunk) (groups : List (FileType × List Chunk)) : Prop where
  /-- There is one group for a type. -/
  types : (groups.map (·.1)).Nodup
  /-- No group is empty. -/
  nonempty : ∀ g ∈ groups, g.2 ≠ []
  /-- A group has the chunks of its type, in order. -/
  lookup : ∀ t, (groups.lookup t).getD [] = ofType chunks t
  /-- The groups together have every chunk once. -/
  once : (groups.flatMap (·.2)).Perm chunks

variable {c : Chunk} {chunks : List Chunk} {groups : List (FileType × List Chunk)}

theorem mem_types_addTo {t : FileType} :
    t ∈ (c.addTo groups).map (·.1) ↔ t ∈ groups.map (·.1) ∨ t = c.fileType := by
  induction groups with
  | nil => simp [addTo]
  | cons g rest ih =>
      rw [addTo]
      split
      · next htype =>
        refine (or_iff_left_of_imp ?_).symm
        rintro rfl
        exact List.mem_cons.mpr (.inl htype.symm)
      · rw [List.map_cons, List.map_cons, List.mem_cons, List.mem_cons, ih, or_assoc]

theorem nodup_addTo (h : (groups.map (·.1)).Nodup) : ((c.addTo groups).map (·.1)).Nodup := by
  induction groups with
  | nil => simp [addTo]
  | cons g rest ih =>
      obtain ⟨hnew, hrest⟩ := List.nodup_cons.mp h
      rw [addTo]
      split
      · exact h
      · next hother =>
        refine List.nodup_cons.mpr ⟨?_, ih hrest⟩
        rw [mem_types_addTo]
        rintro (hmem | htype)
        · exact hnew hmem
        · exact hother htype

theorem nonempty_addTo (h : ∀ g ∈ groups, g.2 ≠ []) : ∀ g ∈ c.addTo groups, g.2 ≠ [] := by
  induction groups with
  | nil => simp [addTo]
  | cons g rest ih =>
      obtain ⟨hg, hrest⟩ := List.forall_mem_cons.mp h
      rw [addTo]
      split
      · exact List.forall_mem_cons.mpr ⟨by simp, hrest⟩
      · exact List.forall_mem_cons.mpr ⟨hg, ih hrest⟩

theorem lookup_cons_of_ne {t u : FileType} (h : t ≠ u) (cs : List Chunk) :
    List.lookup t ((u, cs) :: groups) = groups.lookup t := by
  rw [List.lookup_cons, beq_false_of_ne h]

/-- A chunk is added to the group of its type, and the other groups stay as they are. -/
theorem lookup_addTo (t : FileType) :
    ((c.addTo groups).lookup t).getD [] = (groups.lookup t).getD [] ++ ofType [c] t := by
  induction groups with
  | nil =>
      rw [addTo]
      by_cases htype : t = c.fileType
      · simp [ofType, htype]
      · simp [ofType, lookup_cons_of_ne htype, Ne.symm htype]
  | cons g rest ih =>
      obtain ⟨u, cs⟩ := g
      rw [addTo]
      by_cases hfound : t = u
      · subst hfound
        by_cases htype : t = c.fileType
        · simp [ofType, htype]
        · simp [ofType, htype, Ne.symm htype]
      · by_cases htype : u = c.fileType
        · have hother : c.fileType ≠ t := fun heq => hfound (heq.symm.trans htype.symm)
          simp [htype, ofType, hother, lookup_cons_of_ne (Ne.symm hother)]
        · rw [if_neg htype, lookup_cons_of_ne hfound, lookup_cons_of_ne hfound, ih]

theorem lookup_of_mem (h : (groups.map (·.1)).Nodup) {g : FileType × List Chunk}
    (hg : g ∈ groups) : groups.lookup g.1 = some g.2 := by
  induction groups with
  | nil => exact absurd hg List.not_mem_nil
  | cons first rest ih =>
      obtain ⟨hnew, hrest⟩ := List.nodup_cons.mp h
      rcases List.mem_cons.mp hg with rfl | hg
      · exact List.lookup_cons_self
      · have hne : g.1 ≠ first.1 := fun heq => hnew (List.mem_map.mpr ⟨g, hg, heq⟩)
        rw [lookup_cons_of_ne hne, ih hrest hg]

/-- A step adds one chunk to the groups. -/
theorem perm_addTo : ((c.addTo groups).flatMap (·.2)).Perm (groups.flatMap (·.2) ++ [c]) := by
  induction groups with
  | nil => simp [addTo]
  | cons g rest ih =>
      rw [addTo, List.flatMap_cons]
      split
      · rw [List.flatMap_cons, List.append_assoc, List.append_assoc]
        exact List.perm_append_comm.append_left g.2
      · rw [List.flatMap_cons, List.append_assoc]
        exact ih.append_left g.2

/-- **A step keeps every chunk once**, and adds the new one. -/
theorem Gathers.addTo (h : Gathers chunks groups) (c : Chunk) :
    Gathers (chunks ++ [c]) (c.addTo groups) where
  types := nodup_addTo h.types
  nonempty := nonempty_addTo h.nonempty
  lookup := by
    intro t
    rw [lookup_addTo, h.lookup, ofType, ofType, ofType, List.filter_append]
  once := perm_addTo.trans (h.once.append_right [c])

/-- **The pass keeps every chunk once.** -/
theorem gathers_gather (chunks : List Chunk) : Gathers chunks (gather chunks) := by
  -- From the end: the last chunk is added to the groups of those before it.
  induction chunks using List.reverseRecOn with
  | nil => exact ⟨List.nodup_nil, by simp [gather], fun _ => rfl, .refl _⟩
  | append_singleton chunks c ih =>
      rw [gather, List.foldl_append]
      exact ih.addTo c

/-- **There is a group for each type that a chunk has, and for no other**; it has the chunks of this
type. -/
theorem Gathers.mem_iff (h : Gathers chunks groups) {g : FileType × List Chunk} :
    g ∈ groups ↔ g.2 = ofType chunks g.1 ∧ g.2 ≠ [] := by
  have hlookup : ∀ g ∈ groups, g.2 = ofType chunks g.1 := by
    intro g hg
    rw [← h.lookup, lookup_of_mem h.types hg]
    rfl
  constructor
  · intro hg
    exact ⟨hlookup g hg, h.nonempty g hg⟩
  · rintro ⟨hgroup, hne⟩
    -- A chunk of the type is in one of the groups, which is the group of its type.
    obtain ⟨c, hc⟩ := List.exists_mem_of_ne_nil _ hne
    rw [hgroup] at hc
    obtain ⟨hmem, htype⟩ := List.mem_filter.mp hc
    obtain ⟨g', hg', hc'⟩ := List.mem_flatMap.mp (h.once.mem_iff.mpr hmem)
    rw [hlookup g' hg'] at hc'
    have htypes : g.1 = g'.1 :=
      (of_decide_eq_true htype).symm.trans (of_decide_eq_true (List.mem_filter.mp hc').2)
    have heq : g = g' := Prod.ext htypes (by rw [hgroup, hlookup g' hg', htypes])
    exact heq ▸ hg'

end Chunk

namespace Emission

open Chunk

variable (e : Emission) (arena : Arena) (chunks : List Chunk)

/-! ## Files -/

/-- The chunks that have a text. -/
def written : List Chunk :=
  chunks.filter fun c => !(c.fileText e.style arena).isEmpty

theorem textsOf_eq_map (t : FileType) :
    e.textsOf arena chunks t =
      (ofType (e.written arena chunks) t).map (·.fileText e.style arena) := by
  rw [textsOf, texts, List.filter_map, ofType, written, List.filter_filter, List.filter_filter]
  congr 1
  refine List.filter_congr fun c _ => ?_
  rw [Bool.and_comm]
  rfl

/-- The chunks that have a text in groups, in the order of the types. -/
def groups : List (FileType × List Chunk) :=
  (FileType.all.filter fun t => !(ofType (e.written arena chunks) t).isEmpty).map fun t =>
    (t, ofType (e.written arena chunks) t)

theorem mem_groups_iff {g : FileType × List Chunk} :
    g ∈ e.groups arena chunks ↔ g.2 = ofType (e.written arena chunks) g.1 ∧ g.2 ≠ [] := by
  rw [groups, List.mem_map]
  constructor
  · rintro ⟨t, ht, rfl⟩
    exact ⟨rfl, by simpa using (List.mem_filter.mp ht).2⟩
  · rintro ⟨hgroup, hne⟩
    rw [hgroup] at hne
    exact ⟨g.1, List.mem_filter.mpr ⟨g.1.mem_all, by simpa using hne⟩,
      Prod.ext rfl hgroup.symm⟩

/-- The types of the groups are different, and in order. -/
theorem pairwise_groups : ((e.groups arena chunks).map (·.1.place)).Pairwise (· < ·) := by
  have hplaces : (e.groups arena chunks).map (·.1.place) =
      (FileType.all.filter fun t => !(ofType (e.written arena chunks) t).isEmpty).map
        FileType.place := by
    rw [groups, List.map_map]
    rfl
  rw [hplaces]
  exact FileType.pairwise_place_all.sublist (List.filter_sublist.map _)

/-- The groups are those of one pass, in the order of the types. -/
theorem perm_gather_groups :
    (e.groups arena chunks).Perm (gather (e.written arena chunks)) := by
  have hpass := gathers_gather (e.written arena chunks)
  have hnodup : (e.groups arena chunks).Nodup :=
    List.Nodup.of_map _ ((e.pairwise_groups arena chunks).imp Nat.ne_of_lt)
  refine (List.perm_ext_iff_of_nodup hnodup (List.Nodup.of_map _ hpass.types)).mpr fun g => ?_
  rw [mem_groups_iff, hpass.mem_iff]

/-- **The files are the groups in order**, each group as the text of one file. -/
theorem files_eq_map (fileName : String) :
    e.files arena chunks fileName =
      (e.groups arena chunks).map fun g =>
        { path := fileName ++ "." ++ g.1.extension
          fileType := g.1
          content := e.postProcessors.foldl (fun code p => p.process g.1 code)
            ("\n\n".intercalate (g.2.map (·.fileText e.style arena))) } := by
  rw [files_eq, groups, List.map_map]
  simp only [textsOf_eq_map, List.isEmpty_map]
  rfl

end Emission

/-! ## The end of a file -/

/-- A text that ends with one line feed, which no white space precedes. -/
def Text.EndsLine (s : String) : Prop :=
  ∃ body : String, s = body ++ "\n" ∧ ∀ c ∈ body.toList.getLast?, Text.isBlank c = false

/-- There is no white space at the end of a text that is trimmed. -/
theorem Text.isBlank_getLast?_trimEnd (s : String) :
    ∀ c ∈ (Text.trimEnd s).toList.getLast?, Text.isBlank c = false := by
  intro c hc
  rw [Text.trimEnd, String.toList_ofList, Text.dropEndWhile, List.getLast?_reverse] at hc
  have hhead := List.head?_dropWhile_not Text.isBlank s.toList.reverse
  rw [Option.mem_def.mp hc] at hhead
  exact hhead

/-- The built-in processors end a text with one line feed. -/
theorem Emission.endsLine_process {e : Emission} {o : GeneratorOptions}
    (h : e.postProcessors = (Generator.ofOptions o).emission.postProcessors) (t : FileType)
    (code : String) : Text.EndsLine (e.process t code) := by
  have htrims : ∃ text, e.process t code = Text.trimEnd text ++ "\n" := by
    rw [Emission.process, h, Generator.ofOptions]
    dsimp only
    split
    · exact ⟨code, rfl⟩
    · exact ⟨unicodeUnescape.process t code, rfl⟩
  obtain ⟨text, htext⟩ := htrims
  exact ⟨Text.trimEnd text, htext, Text.isBlank_getLast?_trimEnd text⟩

/-- **Every chunk is written once.**  The files are groups of chunks: there is one for each type
that a chunk with a text has, they come in the order of the types, and each has exactly the chunks
of its type that have a text, in their order.  Together the groups have every chunk with a text
once, and they are those of one pass over the chunks.  A file has the texts of its group with a
blank line between them, after all processing.  With the built-in processors every file ends with
one line feed that no white space precedes. -/
theorem Emission.chunks_emitted_once (e : Emission) (arena : Arena) (chunks : List Chunk)
    (fileName : String) :
    (∃ groups : List (FileType × List Chunk),
      (groups.map (·.1.place)).Pairwise (· < ·) ∧
      (∀ g, g ∈ groups ↔ g.2 = Chunk.ofType (e.written arena chunks) g.1 ∧ g.2 ≠ []) ∧
      (groups.flatMap (·.2)).Perm (e.written arena chunks) ∧
      groups.Perm (Chunk.gather (e.written arena chunks)) ∧
      e.files arena chunks fileName = groups.map fun g =>
        { path := fileName ++ "." ++ g.1.extension
          fileType := g.1
          content := e.postProcessors.foldl (fun code p => p.process g.1 code)
            ("\n\n".intercalate (g.2.map (·.fileText e.style arena))) }) ∧
    ∀ o : GeneratorOptions, e.postProcessors = (Generator.ofOptions o).emission.postProcessors →
      ∀ f ∈ e.files arena chunks fileName, Text.EndsLine f.content := by
  have hpass := e.perm_gather_groups arena chunks
  constructor
  · refine ⟨e.groups arena chunks, e.pairwise_groups arena chunks,
      fun g => e.mem_groups_iff arena chunks, ?_, hpass, e.files_eq_map arena chunks fileName⟩
    exact (hpass.flatMap_right _).trans (Chunk.gathers_gather (e.written arena chunks)).once
  · intro o ho f hf
    rw [files_eq_map] at hf
    obtain ⟨g, -, rfl⟩ := List.mem_map.mp hf
    exact endsLine_process ho g.1 _

/-- Scripts and style sheets in turn, with white space at their ends, and a script without text. -/
def interleavedChunks : List Chunk :=
  [{ name := "title", fileType := .js, content := .text "const title = 1;  " },
    { name := "title-rule", fileType := .css, content := .text ".title \x7b\x7d\n" },
    { name := "blank", fileType := .js, content := .text " \n" },
    { name := "export", fileType := .js, content := .text "export default title;\n\n" },
    { name := "body-rule", fileType := .css, content := .text ".body \x7b\x7d" }]

/-- The scripts and the style sheets are put together, and the file of the style sheets ends with
one line feed. -/
theorem Emission.interleavedChunks_emitted :
    (Generator.ofOptions {}).emission.files {} interleavedChunks "card" =
        [⟨"card.js", .js, "const title = 1;\n\nexport default title;\n"⟩,
          ⟨"card.css", .css, ".title \x7b\x7d\n\n.body \x7b\x7d\n"⟩] ∧
      Text.EndsLine ".title \x7b\x7d\n\n.body \x7b\x7d\n" := by
  have hfiles : (Generator.ofOptions {}).emission.files {} interleavedChunks "card" =
      [⟨"card.js", .js, "const title = 1;\n\nexport default title;\n"⟩,
        ⟨"card.css", .css, ".title \x7b\x7d\n\n.body \x7b\x7d\n"⟩] := rfl
  have hsheet : ⟨"card.css", .css, ".title \x7b\x7d\n\n.body \x7b\x7d\n"⟩ ∈
      (Generator.ofOptions {}).emission.files {} interleavedChunks "card" := by
    rw [hfiles]
    exact List.mem_cons_of_mem _ List.mem_cons_self
  have hall :=
    (chunks_emitted_once (Generator.ofOptions {}).emission {} interleavedChunks "card").2 {} rfl
  exact ⟨hfiles, hall _ hsheet⟩

end ViewGen
