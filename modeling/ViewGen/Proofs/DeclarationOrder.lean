import Mathlib.Data.List.Sort
import ViewGen.Proofs.TagBindings

/-!
# The order of declarations in a component's script

The chunks of a function component are added in another order than they are read in: the imports
come last, and the types of the props after the export.  What puts them in order are their links,
which every pass adds for its own chunks.  Other passes may add chunks of their own, with any links;
these take part in the same sort, and the chunks of the component still come out in one fixed order.

## Main definitions

* `ChunkName.script` — the chunks of a component's script, from the first to the last
* `ChunkName.predecessors` — the chunks that each of them has to come after
* `Linked` — the chunks of a list name all chunks that they have to come after
* `Pass.AddsOthers` — a pass that only adds chunks under other names

## Main statements

* `linked_addComponent`, `LatePass.linked`, `Pass.AddsOthers.linked` — what each pass does to links
* `exists_orderChunks_of_runPasses` — what every pass keeps holds of the chunks that are sorted
* `sublist_script_of_linked` — linked chunks are put in the order of the script
* `script_in_order` — the order of the chunks of a component, with further passes

## Design notes

A chunk of imports is named by the chunks after it before it is there; every other chunk is named
once it is there.  Links from the imports to the types of the props or the export are missing; they
follow from those to and from the component, which is always there.
-/

namespace ViewGen

namespace ChunkName

/-- The chunks of a component's script, from the first to the last. -/
def script : List String :=
  [packageImports, customImports, projectImports, tokens, component, propTypes, exporting]

/-- The chunks that the chunk of a name has to come after. -/
def predecessors (name : String) : List String :=
  if name = customImports then [packageImports]
  else if name = projectImports then [packageImports, customImports]
  else if name = tokens then imports
  else if name = component then imports ++ [tokens]
  else if name = propTypes then [component]
  else if name = exporting then [component, propTypes]
  else []

/-- Only the chunks of the script have to come before or after others. -/
theorem mem_script_of_mem_predecessors {name link : String} (h : link ∈ predecessors name) :
    name ∈ script ∧ link ∈ script := by
  have hname : name ∈ script := by
    by_contra hname
    simp only [script, List.mem_cons, List.not_mem_nil, or_false, not_or] at hname
    simp [predecessors, hname] at h
  have hall : ∀ name ∈ script, ∀ link ∈ predecessors name, link ∈ script := by decide
  exact ⟨hname, hall name hname link h⟩

/-- A chunk of the script has to come after all those before it, directly or through the
component. -/
theorem predecessors_cover : ∀ name ∈ script, ∀ link ∈ script, rank link < rank name →
    link ∈ predecessors name ∨ link ∈ predecessors component ∧ component ∈ predecessors name := by
  decide

/-- Only the export has to come after the types of the props. -/
theorem eq_exporting_of_propTypes_mem {name : String} (h : propTypes ∈ predecessors name) :
    name = exporting := by
  have hall : ∀ name ∈ script, propTypes ∈ predecessors name → name = exporting := by decide
  exact hall name (mem_script_of_mem_predecessors h).1 h

end ChunkName

/-! ## Names of chunks -/

/-- The names of chunks. -/
def chunkNames (chunks : List Chunk) : List String :=
  chunks.map Chunk.name

theorem chunkNames_cons (c : Chunk) (rest : List Chunk) :
    chunkNames (c :: rest) = c.name :: chunkNames rest := rfl

theorem chunkNames_put (c : Chunk) (chunks : List Chunk) :
    chunkNames (c.put chunks) =
      if c.name ∈ chunkNames chunks then chunkNames chunks else chunkNames chunks ++ [c.name] := by
  induction chunks with
  | nil => rfl
  | cons d rest ih =>
      rw [Chunk.put]
      split
      · next heq => simp [chunkNames_cons, heq]
      · next hne =>
        rw [chunkNames_cons, ih, chunkNames_cons]
        by_cases hmem : c.name ∈ chunkNames rest
        · rw [if_pos hmem, if_pos (List.mem_cons_of_mem _ hmem)]
        · rw [if_neg hmem, if_neg (by simpa [Ne.symm hne] using hmem), List.cons_append]

theorem mem_chunkNames_put {c : Chunk} {chunks : List Chunk} {name : String} :
    name ∈ chunkNames (c.put chunks) ↔ name = c.name ∨ name ∈ chunkNames chunks := by
  rw [chunkNames_put]
  split
  · next hmem =>
    refine ⟨.inr, ?_⟩
    rintro (rfl | h)
    · exact hmem
    · exact h
  · rw [List.mem_append, List.mem_singleton, or_comm]

theorem nodup_chunkNames_put {c : Chunk} {chunks : List Chunk} (h : (chunkNames chunks).Nodup) :
    (chunkNames (c.put chunks)).Nodup := by
  rw [chunkNames_put]
  split
  · exact h
  · next hnew =>
    refine List.nodup_append.mpr ⟨h, List.nodup_singleton _, fun name hname other hother heq => ?_⟩
    rw [heq, List.mem_singleton.mp hother] at hname
    exact hnew hname

theorem chunkNames_linkAfter (name link : String) (chunks : List Chunk) :
    chunkNames (linkAfter name link chunks) = chunkNames chunks := by
  induction chunks with
  | nil => rfl
  | cons c rest ih =>
      rw [linkAfter]
      split
      · rfl
      · rw [chunkNames_cons, chunkNames_cons, ih]

/-- The chunk of the given name is linked, where no name is there twice. -/
theorem mem_after_of_mem_linkAfter {name link : String} {chunks : List Chunk} {e : Chunk}
    (hnodup : (chunkNames chunks).Nodup) (h : e ∈ linkAfter name link chunks)
    (hname : e.name = name) : link ∈ e.after := by
  induction chunks with
  | nil => exact absurd h List.not_mem_nil
  | cons c rest ih =>
      obtain ⟨hfirst, hrest⟩ := List.nodup_cons.mp hnodup
      rw [linkAfter] at h
      split at h
      · next hc =>
        rcases List.mem_cons.mp h with rfl | he
        · exact List.mem_append_right _ (List.mem_singleton_self link)
        · refine absurd (List.mem_map.mpr ⟨e, he, ?_⟩) hfirst
          rw [hname, hc]
      · next hc =>
        rcases List.mem_cons.mp h with rfl | he
        · exact absurd hname hc
        · exact ih hrest he

/-! ## Links -/

/-- No name is there twice, the component is there, and every chunk names the chunks that it has to
come after: all imports, and of the others those that are there. -/
structure Linked (chunks : List Chunk) : Prop where
  nodup : (chunkNames chunks).Nodup
  component : ChunkName.component ∈ chunkNames chunks
  links : ∀ c ∈ chunks, ∀ link ∈ ChunkName.predecessors c.name,
    link ∈ ChunkName.imports ∨ link ∈ chunkNames chunks → link ∈ c.after

/-- A chunk can be put in that has its own links, if it is one of imports or no other chunk has to
come after it. -/
theorem Linked.put {chunks : List Chunk} (h : Linked chunks) {c : Chunk}
    (hlinks : ∀ link ∈ ChunkName.predecessors c.name, link ∈ c.after)
    (hnew : c.name ∈ ChunkName.imports ∨ c.name ∉ ChunkName.script) : Linked (c.put chunks) := by
  refine ⟨nodup_chunkNames_put h.nodup, mem_chunkNames_put.mpr (.inr h.component), ?_⟩
  intro e he link hlink hthere
  rcases Chunk.mem_of_mem_put he with rfl | hold
  · exact hlinks link hlink
  · refine h.links e hold link hlink ?_
    rcases hthere with himports | hnames
    · exact .inl himports
    · rcases mem_chunkNames_put.mp hnames with rfl | hnames
      · refine hnew.imp_right fun hother => ?_
        exact absurd (ChunkName.mem_script_of_mem_predecessors hlink).2 hother
      · exact .inr hnames

/-- A chunk under another name can be put in. -/
theorem Linked.put_other {chunks : List Chunk} (h : Linked chunks) {c : Chunk}
    (hname : c.name ∉ ChunkName.script) : Linked (c.put chunks) :=
  h.put (fun _ hlink => absurd (ChunkName.mem_script_of_mem_predecessors hlink).1 hname)
    (.inr hname)

/-- The types of the props can be put in when the export is linked to them. -/
theorem Linked.putPropTypes {chunks : List Chunk} (h : Linked chunks) (statements : List Statement) :
    Linked (linkAfter ChunkName.exporting ChunkName.propTypes
      ((Chunk.script ChunkName.propTypes statements [ChunkName.component]).put chunks)) := by
  have hnodup := nodup_chunkNames_put
    (c := Chunk.script ChunkName.propTypes statements [ChunkName.component]) h.nodup
  constructor
  · rwa [chunkNames_linkAfter]
  · rw [chunkNames_linkAfter]
    exact mem_chunkNames_put.mpr (.inr h.component)
  · intro e he link hlink hthere
    rw [chunkNames_linkAfter] at hthere
    by_cases hprops : link = ChunkName.propTypes
    · rw [hprops] at hlink ⊢
      exact mem_after_of_mem_linkAfter hnodup he (ChunkName.eq_exporting_of_propTypes_mem hlink)
    -- Any other link was needed before, and links are only added.
    have hbefore : link ∈ ChunkName.imports ∨ link ∈ chunkNames chunks := by
      refine hthere.imp_right fun hnames => ?_
      exact (mem_chunkNames_put.mp hnames).resolve_left hprops
    have hput : ∀ c ∈ (Chunk.script ChunkName.propTypes statements [ChunkName.component]).put chunks,
        link ∈ ChunkName.predecessors c.name → link ∈ c.after := by
      intro c hc hlink
      rcases Chunk.mem_of_mem_put hc with rfl | hold
      · have hown : ∀ link ∈ ChunkName.predecessors ChunkName.propTypes,
            link ∈ [ChunkName.component] := by decide
        exact hown link hlink
      · exact h.links c hold link hlink hbefore
    rcases mem_of_mem_linkAfter he with hold | ⟨c, hc, -, rfl⟩
    · exact hput e hold hlink
    · exact List.mem_append_left _ (hput c hc hlink)

/-- The chunks of a component that is declared first. -/
theorem chunks_addComponent {d : Draft} (h : d.chunks = []) (body : List Statement) :
    (d.addComponent body).chunks =
      (if d.component.tokens.isEmpty then []
        else [.script ChunkName.tokens [d.component.tokensConstant] ChunkName.imports]) ++
      [.script ChunkName.component
        [.constant (.name (componentName d.component.name)) (.arrowBlock ["props"] body)]
        d.componentLinks,
      .script ChunkName.exporting [.exporting (.ident (componentName d.component.name))]
        [ChunkName.component]] := by
  have hfunction : ChunkName.component ≠ ChunkName.exporting := by decide
  have htokens : ChunkName.tokens ≠ ChunkName.component ∧
      ChunkName.tokens ≠ ChunkName.exporting := by decide
  unfold Draft.addComponent Draft.addTokens
  split
  · simp only [Draft.put, h, Chunk.put, Chunk.script, if_neg hfunction, List.nil_append]
  · simp only [Draft.put, h, Chunk.put, Chunk.script, if_neg hfunction, if_neg htokens.1,
      if_neg htokens.2, List.singleton_append]

/-- A component that is declared first is linked. -/
theorem linked_addComponent {d : Draft} (h : d.chunks = []) (body : List Statement) :
    Linked (d.addComponent body).chunks := by
  rw [chunks_addComponent h]
  unfold Draft.componentLinks
  cases d.component.tokens.isEmpty with
  | true =>
      refine ⟨?_, ?_, ?_⟩
      · show [ChunkName.component, ChunkName.exporting].Nodup
        decide
      · exact .head _
      · intro c hc
        have hlinks : ∀ c ∈ [(ChunkName.component, ChunkName.imports),
            (ChunkName.exporting, [ChunkName.component])],
            ∀ link ∈ ChunkName.predecessors c.1, link ∈ ChunkName.imports ∨
              link ∈ [ChunkName.component, ChunkName.exporting] → link ∈ c.2 := by decide
        exact hlinks (c.name, c.after) (List.mem_map_of_mem (f := fun c => (c.name, c.after)) hc)
  | false =>
      refine ⟨?_, ?_, ?_⟩
      · show [ChunkName.tokens, ChunkName.component, ChunkName.exporting].Nodup
        decide
      · exact .tail _ (.head _)
      · intro c hc
        have hlinks : ∀ c ∈ [(ChunkName.tokens, ChunkName.imports),
            (ChunkName.component, ChunkName.imports ++ [ChunkName.tokens]),
            (ChunkName.exporting, [ChunkName.component])],
            ∀ link ∈ ChunkName.predecessors c.1, link ∈ ChunkName.imports ∨
              link ∈ [ChunkName.tokens, ChunkName.component, ChunkName.exporting] →
                link ∈ c.2 := by decide
        exact hlinks (c.name, c.after) (List.mem_map_of_mem (f := fun c => (c.name, c.after)) hc)

/-! ## Passes -/

namespace Draft

/-- Setting an attribute changes the elements and nothing else. -/
theorem exists_setOn (d : Draft) (key name : String) (value : MarkupValue) :
    ∃ arena, d.setOn key name value = d.withArena arena := by
  unfold setOn
  split
  · exact ⟨_, rfl⟩
  · exact ⟨d.arena, rfl⟩

theorem exists_setStyles {options : CompileOptions} {styled : List (Element Node)} {d d' : Draft}
    (h : d.setStyles options styled = .ok d') : ∃ arena, d' = d.withArena arena := by
  induction styled generalizing d with
  | nil => exact ⟨d.arena, (Except.ok.inj h).symm⟩
  | cons e rest ih =>
      obtain ⟨properties, -, hrest⟩ := bind_eq_ok_iff.mp h
      obtain ⟨arena, hset⟩ := d.exists_setOn e.key "style" (.expr (.object properties))
      obtain ⟨arena', rfl⟩ := ih hrest
      exact ⟨arena', by rw [hset]; rfl⟩

theorem exists_setStyled (d : Draft) (classAttribute bound : String) (s : StyledElement) :
    ∃ arena, d.setStyled classAttribute bound s = d.withArena arena := by
  have hclass : ∃ arena, (if s.hasRule then d.setOn s.key classAttribute
      (.expr (.member (.ident bound) s.className)) else d) = d.withArena arena := by
    split
    · exact d.exists_setOn _ _ _
    · exact ⟨d.arena, rfl⟩
  obtain ⟨arena, hclass⟩ := hclass
  unfold setStyled
  dsimp only
  rw [hclass]
  split
  · exact ⟨arena, rfl⟩
  · obtain ⟨arena', hset⟩ := (d.withArena arena).exists_setOn s.key "style"
      (.expr (.object s.properties))
    exact ⟨arena', hset⟩

theorem exists_foldl_setStyled (classAttribute bound : String) (styles : List StyledElement)
    (d : Draft) : ∃ arena, styles.foldl (setStyled classAttribute bound) d = d.withArena arena := by
  induction styles generalizing d with
  | nil => exact ⟨d.arena, rfl⟩
  | cons s rest ih =>
      obtain ⟨arena, hset⟩ := d.exists_setStyled classAttribute bound s
      obtain ⟨arena', hrest⟩ := ih (d.setStyled classAttribute bound s)
      exact ⟨arena', by rw [List.foldl_cons, hrest, hset]; rfl⟩

/-- The draft with a style sheet, which is imported as `styles`. -/
def withStyleSheet (d : Draft) (sheet : String) : Draft :=
  (d.register "styles" (.ofProject ("./" ++ d.fileName ++ ".css"))).2.put
    ⟨ChunkName.styleSheet, .css, .text sheet, []⟩

/-- Moving styles changes the elements, and adds a style sheet or nothing else. -/
theorem exists_moveStyles {classAttribute : String} {options : CompileOptions} {d d' : Draft}
    (h : d.moveStyles classAttribute options = .ok d') :
    ∃ arena, d' = d.withArena arena ∨ ∃ sheet, d' = (d.withStyleSheet sheet).withArena arena := by
  obtain ⟨styles, -, hmoved⟩ := bind_eq_ok_iff.mp h
  by_cases hempty : (styleSheet styles).isEmpty
  · rw [if_pos hempty] at hmoved
    obtain rfl := Except.ok.inj hmoved
    obtain ⟨arena, hset⟩ := exists_foldl_setStyled classAttribute "" styles d
    exact ⟨arena, .inl hset⟩
  · rw [if_neg hempty] at hmoved
    obtain rfl := Except.ok.inj hmoved
    let registered := d.register "styles" (.ofProject ("./" ++ d.fileName ++ ".css"))
    obtain ⟨arena, hset⟩ := exists_foldl_setStyled classAttribute registered.1 styles registered.2
    exact ⟨arena, .inr ⟨styleSheet styles, congrArg (Draft.put · _) hset⟩⟩

theorem linked_putImports {d : Draft} (h : Linked d.chunks) {name : String} (kind : DependencyKind)
    {after : List String} (hname : name ∈ ChunkName.imports)
    (hlinks : ∀ link ∈ ChunkName.predecessors name, link ∈ after) :
    Linked (d.putImports name kind after).chunks := by
  unfold putImports
  split
  · exact h
  · exact h.put hlinks (.inl hname)

end Draft

/-- Every pass after the component keeps the chunks linked. -/
theorem LatePass.linked {p : Pass} (hp : LatePass p) {d d' : Draft} (h : Linked d.chunks)
    (hrun : p.run d = .ok d') : Linked d'.chunks := by
  cases hp with
  | inlineStyle options =>
      obtain ⟨arena, rfl⟩ := Draft.exists_setStyles hrun
      exact h
  | styleSheet classAttribute options =>
      obtain ⟨arena, rfl | ⟨sheet, rfl⟩⟩ := Draft.exists_moveStyles hrun
      · exact h
      · refine Linked.put_other h ?_
        show ChunkName.styleSheet ∉ ChunkName.script
        decide
  | propTypes =>
      obtain rfl := Except.ok.inj hrun
      unfold Draft.declareProps
      split
      · exact h
      · exact h.putPropTypes _
  | imports =>
      obtain rfl := Except.ok.inj hrun
      refine Draft.linked_putImports (Draft.linked_putImports (Draft.linked_putImports h _ ?_ ?_) _
        ?_ ?_) _ ?_ ?_
      all_goals decide

/-- A pass that, if it succeeds, has put in chunks under names that the script of a component does
not have.  What the chunks hold and what they are linked to is left open, and so is what else the
pass has changed. -/
def Pass.AddsOthers (p : Pass) : Prop :=
  ∀ d d', p.run d = .ok d' → ∃ added : List Chunk, (∀ c ∈ added, c.name ∉ ChunkName.script) ∧
    d'.chunks = (added.foldl Draft.put d).chunks

theorem Pass.AddsOthers.linked {p : Pass} (hp : p.AddsOthers) {d d' : Draft} (h : Linked d.chunks)
    (hrun : p.run d = .ok d') : Linked d'.chunks := by
  obtain ⟨added, hadded, hchunks⟩ := hp d d' hrun
  rw [hchunks]
  clear hrun hchunks
  induction added generalizing d with
  | nil => exact h
  | cons c rest ih =>
      obtain ⟨hc, hrest⟩ := List.forall_mem_cons.mp hadded
      exact ih (h.put_other hc : Linked (d.put c).chunks) hrest

/-- What every pass keeps holds when all of them have run, before the chunks are put in order. -/
theorem exists_orderChunks_of_runPasses {P : Draft → Prop} {passes : List Pass}
    (hpasses : ∀ p ∈ passes, ∀ d d', P d → p.run d = .ok d' → P d') {d d' : Draft} (h : P d)
    (hrun : runPasses passes d = .ok d') :
    ∃ applied chunks, P applied ∧ orderChunks applied.chunks = .ok chunks ∧
      d' = { applied with chunks } := by
  induction passes generalizing d with
  | nil =>
      obtain ⟨applied, happlied, horder⟩ := bind_eq_ok_iff.mp hrun
      obtain rfl := Except.ok.inj happlied
      obtain ⟨chunks, hchunks, hd'⟩ := bind_eq_ok_iff.mp horder
      exact ⟨d, chunks, h, hchunks, (Except.ok.inj hd').symm⟩
  | cons p rest ih =>
      obtain ⟨hp, hrest⟩ := List.forall_mem_cons.mp hpasses
      obtain ⟨d₁, hd₁, hrun⟩ := runPasses_cons_iff.mp hrun
      exact ih hrest (hp d d₁ h hd₁) hrun

/-! ## The order of the script -/

/-- In an order in which no chunk comes before one that it is linked to, linked chunks of the script
come in the order of the script. -/
theorem rank_lt_of_linked {chunks ordered : List Chunk} (h : Linked chunks)
    (horder : orderChunks chunks = .ok ordered) :
    ordered.Pairwise fun c e => c.name ∈ ChunkName.script → e.name ∈ ChunkName.script →
      ChunkName.rank c.name < ChunkName.rank e.name := by
  have hperm := perm_of_orderChunks horder
  have hnames : (chunkNames ordered).Perm (chunkNames chunks) := hperm.map _
  have hsorted := List.pairwise_iff_getElem.mp (pairwise_of_orderChunks horder)
  have hdistinct := List.pairwise_iff_getElem.mp
    (List.pairwise_map.mp (hnames.nodup_iff.mpr h.nodup))
  -- A chunk comes after those that it has to come after.
  have hafter : ∀ i j (hi : i < ordered.length) (hj : j < ordered.length),
      ordered[j].name ∈ ChunkName.predecessors ordered[i].name → ¬i < j := by
    intro i j hi hj hlink hlt
    have hthere : ordered[j].name ∈ chunkNames ordered :=
      List.mem_map.mpr ⟨ordered[j], List.getElem_mem hj, rfl⟩
    have hmem := h.links ordered[i] (hperm.mem_iff.mp (List.getElem_mem hi)) _ hlink
      (.inr (hnames.mem_iff.mp hthere))
    have hfree := hsorted i j hi hj hlt
    simp [precedes, hmem] at hfree
  obtain ⟨k, hk, hcomponent⟩ : ∃ k, ∃ hk : k < ordered.length,
      ordered[k].name = ChunkName.component := by
    obtain ⟨c, hc, hname⟩ := List.mem_map.mp (hnames.mem_iff.mpr h.component)
    obtain ⟨k, hk, rfl⟩ := List.getElem_of_mem hc
    exact ⟨k, hk, hname⟩
  refine List.pairwise_iff_getElem.mpr fun i j hi hj hlt hc he => ?_
  have htotal : ∀ a ∈ ChunkName.script, ∀ b ∈ ChunkName.script, a ≠ b →
      ChunkName.rank a < ChunkName.rank b ∨ ChunkName.rank b < ChunkName.rank a := by decide
  rcases htotal _ hc _ he (hdistinct i j hi hj hlt) with hrank | hrank
  · exact hrank
  -- The other way round the first chunk has to come after the second, if not directly then because
  -- the component is between them.
  rcases ChunkName.predecessors_cover _ hc _ he hrank with hlink | ⟨hlink, hlink'⟩
  · exact absurd hlt (hafter i j hi hj hlink)
  · rw [← hcomponent] at hlink hlink'
    have hkj := hafter k j hk hj hlink
    have hik := hafter i k hi hk hlink'
    omega

/-- **Linked chunks are put in the order of the script.** -/
theorem sublist_script_of_linked {chunks ordered : List Chunk} (h : Linked chunks)
    (horder : orderChunks chunks = .ok ordered) :
    ((chunkNames ordered).filter (· ∈ ChunkName.script)).Sublist ChunkName.script := by
  let before (a b : String) : Prop := ChunkName.rank a < ChunkName.rank b
  have hsorted : ((chunkNames ordered).filter (· ∈ ChunkName.script)).Pairwise before := by
    rw [List.pairwise_filter, chunkNames, List.pairwise_map]
    simpa only [decide_eq_true_eq] using rank_lt_of_linked h horder
  have hscript : ChunkName.script.Pairwise before := by decide
  have hsubset : (chunkNames ordered).filter (· ∈ ChunkName.script) ⊆ ChunkName.script := by
    intro name hname
    simpa using (List.mem_filter.mp hname).2
  have : Std.Antisymm before := ⟨fun a b hab hba => absurd hab (Nat.lt_asymm hba)⟩
  have : Std.Irrefl before := ⟨fun a => Nat.lt_irrefl _⟩
  exact List.sublist_of_subperm_of_pairwise (List.subperm_of_subset hsorted.nodup hsubset) hsorted
    hscript

/-! ## Whole pipelines -/

theorem GeneratorOptions.latePass_stylePass (o : GeneratorOptions) : LatePass o.stylePass := by
  unfold stylePass
  split
  · exact .inlineStyle _
  · exact .styleSheet _ _

/-- A function component is declared right after its elements were given keys.  Its styles follow,
then the types of its props if there are any, and the imports come last. -/
theorem GeneratorOptions.exists_passes (o : GeneratorOptions) (h : o.framework ≠ .vue) :
    ∃ later, (later = [o.stylePass] ∨ later = [o.stylePass, propTypesPass]) ∧
      (∀ p ∈ later, LatePass p) ∧
      o.passes = keyPass :: functionComponentPass o.framework o.compileOptions :: later ++
        [importPass] := by
  have hstyle := o.latePass_stylePass
  unfold passes
  split
  · next hvue => exact absurd hvue h
  · next hpreact =>
    rw [hpreact]
    exact ⟨_, .inl rfl, List.forall_mem_singleton.mpr hstyle, rfl⟩
  · next hreact =>
    rw [hreact]
    refine ⟨_, .inr rfl, ?_, rfl⟩
    exact List.forall_mem_cons.mpr ⟨hstyle, List.forall_mem_singleton.mpr .propTypes⟩

/-- Further passes run in the order they are given in, right before the last one. -/
theorem Generator.passes_foldl_withPass (extras : List Pass) {g : Generator} {before : List Pass}
    {last : Pass} (h : g.passes = before ++ [last]) :
    (extras.foldl withPass g).passes = before ++ extras ++ [last] := by
  induction extras generalizing g before with
  | nil => rw [List.foldl_nil, h, List.append_nil]
  | cons p rest ih =>
      have hstep : (g.withPass p).passes = before ++ [p] ++ [last] := by
        rw [withPass, h, List.dropLast_concat, List.getLast?_concat, Option.toList_some]
      rw [List.foldl_cons, ih hstep, List.append_assoc before, List.singleton_append]

/-- The passes of a function component, with further ones: the component is declared from the tree
with keys, and the other passes follow. -/
theorem exists_declared_of_runPasses_withPass {o : GeneratorOptions} (hframework : o.framework ≠ .vue)
    {extras : List Pass} {c : Component} {fileName : String} {d : Draft}
    (hrun : runPasses (extras.foldl Generator.withPass (Generator.ofOptions o)).passes
      { component := c, fileName } = .ok d) :
    ∃ later declared, (later = [o.stylePass] ∨ later = [o.stylePass, propTypesPass]) ∧
      (∀ p ∈ later, LatePass p) ∧
      (functionComponentPass o.framework o.compileOptions).run
        { component := { c with node := c.node.withKeys }, fileName } = .ok declared ∧
      runPasses (later ++ extras ++ [importPass]) declared = .ok d := by
  obtain ⟨later, hlater, hlate, hpasses⟩ := o.exists_passes hframework
  rw [Generator.passes_foldl_withPass extras (g := Generator.ofOptions o) hpasses] at hrun
  obtain ⟨keyed, hkeyed, hrest⟩ := runPasses_cons_iff.mp hrun
  obtain ⟨declared, hdeclared, hlast⟩ := runPasses_cons_iff.mp hrest
  obtain rfl := Except.ok.inj hkeyed
  exact ⟨later, declared, hlater, hlate, hdeclared, hlast⟩

/-- The passes of a function component: the component is declared from the tree with keys, and late
passes follow, with the imports at the end. -/
theorem exists_declared_of_runPasses {o : GeneratorOptions} (hframework : o.framework ≠ .vue)
    {c : Component} {fileName : String} {d : Draft}
    (hrun : runPasses o.passes { component := c, fileName } = .ok d) :
    ∃ later declared, (later = [o.stylePass] ∨ later = [o.stylePass, propTypesPass]) ∧
      (∀ p ∈ later ++ [importPass], LatePass p) ∧
      (functionComponentPass o.framework o.compileOptions).run
        { component := { c with node := c.node.withKeys }, fileName } = .ok declared ∧
      runPasses (later ++ [importPass]) declared = .ok d := by
  have hnone : runPasses (([] : List Pass).foldl Generator.withPass (Generator.ofOptions o)).passes
      { component := c, fileName } = .ok d := hrun
  obtain ⟨later, declared, hlater, hlate, hdeclared, hlast⟩ :=
    exists_declared_of_runPasses_withPass hframework hnone
  rw [List.append_nil] at hlast
  exact ⟨later, declared, hlater, List.forall_mem_append.mpr
    ⟨hlate, List.forall_mem_singleton.mpr .imports⟩, hdeclared, hlast⟩

/-- A component that is declared first is linked. -/
theorem linked_of_functionComponentPass {framework : Framework} {options : CompileOptions}
    {d d' : Draft} (h : d.chunks = []) (hrun : (functionComponentPass framework options).run d =
      .ok d') : Linked d'.chunks := by
  obtain ⟨runtime, hruntime⟩ := Draft.exists_runtime_of_declareComponent hrun
  obtain ⟨imports, body, w, -, -, rfl⟩ := (Draft.declareComponent_iff hruntime).mp hrun
  exact linked_addComponent (d := { d with workspace := w }) h body

/-- **The script of a component has one order.**  Whatever passes are added that put in chunks under
other names, with any links and any contents: if all passes succeed, then the chunks of the script
that are there come in the order of the script, with the other chunks anywhere between them. -/
theorem script_in_order (o : GeneratorOptions) (hframework : o.framework ≠ .vue)
    (extras : List Pass) (hextras : ∀ p ∈ extras, p.AddsOthers) (c : Component) (fileName : String)
    {d' : Draft} (hrun : runPasses (extras.foldl Generator.withPass (Generator.ofOptions o)).passes
      { component := c, fileName } = .ok d') :
    ((chunkNames d'.chunks).filter (· ∈ ChunkName.script)).Sublist ChunkName.script := by
  obtain ⟨later, declared, -, hlater, hdeclared, hlast⟩ :=
    exists_declared_of_runPasses_withPass hframework hrun
  have hkept : ∀ p ∈ later ++ extras ++ [importPass], ∀ d d', Linked d.chunks →
      p.run d = .ok d' → Linked d'.chunks := by
    intro p hp d d' hd hd'
    rcases List.mem_append.mp hp with hp | hp
    · rcases List.mem_append.mp hp with hp | hp
      · exact (hlater p hp).linked hd hd'
      · exact (hextras p hp).linked hd hd'
    · rw [List.mem_singleton.mp hp] at hd'
      exact LatePass.imports.linked hd hd'
  obtain ⟨applied, chunks, hlinked, horder, rfl⟩ :=
    exists_orderChunks_of_runPasses hkept (linked_of_functionComponentPass rfl hdeclared) hlast
  exact sublist_script_of_linked hlinked horder

/-- A pass that puts in one chunk. -/
def putPass (chunk : Chunk) : Pass where
  name := "put " ++ chunk.name
  run d := .ok (d.put chunk)

/-- A badge with a color from its design tokens and a label. -/
def badge : Component where
  name := "Badge"
  tokens := [("color", .text "red")]
  props := [("label", { type := .string })]
  node := .element { tag := "b", children := [.dynamic { id := "label", kind := .prop }] }

/-- A note that has to come after the export and a notice that has to come after the imports are put
into the script of the badge, the note first; its own chunks stay in order. -/
theorem badge_in_order :
    let note : Chunk := ⟨"note", .js, .text "// end", [ChunkName.exporting]⟩
    let notice : Chunk := ⟨"notice", .js, .text "// begin", ChunkName.imports⟩
    ∃ d', runPasses ([putPass note, putPass notice].foldl Generator.withPass
        (Generator.ofOptions {})).passes { component := badge, fileName := "badge" } = .ok d' ∧
      chunkNames d'.chunks = ["import-lib", "tokens", "jsx-component", "prop-types", "export", "note",
        "notice"] ∧
      ((chunkNames d'.chunks).filter (· ∈ ChunkName.script)).Sublist ChunkName.script := by
  intro note notice
  have hadds : ∀ chunk : Chunk, chunk.name ∉ ChunkName.script → (putPass chunk).AddsOthers := by
    intro chunk hname d d' hrun
    obtain rfl := Except.ok.inj hrun
    exact ⟨[chunk], List.forall_mem_singleton.mpr hname, rfl⟩
  have hextras : ∀ p ∈ [putPass note, putPass notice], p.AddsOthers :=
    List.forall_mem_cons.mpr ⟨hadds note (by decide),
      List.forall_mem_singleton.mpr (hadds notice (by decide))⟩
  have hrun : runPasses ([putPass note, putPass notice].foldl Generator.withPass
      (Generator.ofOptions {})).passes { component := badge, fileName := "badge" } = .ok _ := rfl
  exact ⟨_, hrun, rfl, script_in_order {} (by decide) _ hextras badge "badge" hrun⟩

end ViewGen
