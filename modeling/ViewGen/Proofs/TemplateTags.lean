import ViewGen.Proofs.MarkupTags
import ViewGen.Proofs.TemplateSteps

/-!
# The tags of written elements

The counterpart of the tags of compiled elements for templates.  A template lists the components it
uses beside its markup; a tag that stands for a dependency is on the list, once, from the moment it
is written.

## Main definitions

* `Template.Grows` — bindings and components are kept, and no component is listed twice
* `Template.NodeWritten`, `Template.ElementWritten`, … — a text is the markup of a piece of the
  tree, and every tag in it is related to the tag and the dependency of its element

## Main statements

* `Template.grows_node` — writing a tree keeps bindings and components
* `Template.written_node` — the tags of a written tree mean the dependencies of its elements, and
  are listed, in every template that keeps what was written
* `Template.nodeWith_assignKeys` — keys do not matter to templates
-/

namespace ViewGen

namespace Template

open Writing (Yields)

/-! ## What is kept -/

/-- Bindings and components are kept, and no component is listed twice unless one was before. -/
structure Grows (t t' : Template) : Prop where
  imports : t.imports.Grows t'.imports
  components : t.components <+: t'.components
  nodup : t.components.Nodup → t'.components.Nodup

theorem Grows.refl (t : Template) : t.Grows t :=
  ⟨.refl _, List.prefix_rfl, id⟩

theorem Grows.trans {t t' t'' : Template} (h : t.Grows t') (h' : t'.Grows t'') : t.Grows t'' :=
  ⟨h.imports.trans h'.imports, h.components.trans h'.components, fun hn => h'.nodup (h.nodup hn)⟩

/-- A tag is added to the components when it is not among them. -/
theorem grows_withTag (t : Template) (name : String) (d : Dependency) :
    t.Grows (t.withTag name d) := by
  have himports := t.imports.grows_register name d
  by_cases hlisted : t.components.contains (t.imports.register name d).1
  · have hcomponents : (t.withTag name d).components = t.components := if_pos hlisted
    exact ⟨himports, hcomponents ▸ List.prefix_rfl, fun h => hcomponents ▸ h⟩
  · have hcomponents : (t.withTag name d).components =
        t.components ++ [(t.imports.register name d).1] := if_neg hlisted
    refine ⟨himports, hcomponents ▸ List.prefix_append _ _, fun h => ?_⟩
    rw [hcomponents, List.nodup_append]
    refine ⟨h, List.nodup_singleton _, fun component hcomponent bound hbound heq => hlisted ?_⟩
    rw [List.contains_iff_mem, ← List.mem_singleton.mp hbound, ← heq]
    exact hcomponent

theorem mem_components_withTag (t : Template) (name : String) (d : Dependency) :
    (t.imports.register name d).1 ∈ (t.withTag name d).components := by
  by_cases hlisted : t.components.contains (t.imports.register name d).1
  · have hcomponents : (t.withTag name d).components = t.components := if_pos hlisted
    rw [hcomponents]
    exact List.contains_iff_mem.mp hlisted
  · have hcomponents : (t.withTag name d).components =
        t.components ++ [(t.imports.register name d).1] := if_neg hlisted
    rw [hcomponents]
    exact List.mem_append_right _ (List.mem_singleton_self _)

variable {print : Expr → String}

theorem grows_tag {name bound : String} {dependency : Option Dependency} {t t' : Template}
    (h : Yields (tag name dependency) t bound t') : t.Grows t' := by
  cases dependency with
  | none =>
      obtain ⟨-, rfl⟩ := yields_tag_none.mp h
      exact .refl t'
  | some d =>
      obtain ⟨-, rfl⟩ := yields_tag_some.mp h
      exact t.grows_withTag name d

/-- Write a node with the given directives if it is an element. -/
def nodeWith (print : Expr → String) (directives : List String) : Node → Nat → Writing String
  | .element e, level => element print e directives level
  | n, level => node print n level

theorem nodeWith_nil (n : Node) (level : Nat) : nodeWith print [] n level = node print n level := by
  cases n with
  | element e => rw [node, nodeWith]
  | _ => rfl

/-- What is inside a conditional is written with its directive, or in a wrapping that has it. -/
theorem yields_conditional_cases {inner : Node} {subject : Reference} {value : Option Scalar}
    {condition : Option Test} {level : Nat} {t t' : Template} {text : String}
    (h : Yields (node print (.conditional ⟨inner, subject, value, condition⟩) level) t text t') :
    ∃ directive, (∃ e, inner = .element e) ∧
        Yields (nodeWith print [directive] inner level) t text t' ∨
      (∀ e, inner ≠ .element e) ∧
        ∃ content, Yields (nodeWith print [] inner (level + 1)) t content t' ∧
          text = "<template " ++ directive ++ ">" ++ content ++ "</template>" := by
  by_cases helement : ∃ e, inner = .element e
  · obtain ⟨e, rfl⟩ := helement
    obtain ⟨directive, -, he⟩ := yields_conditional_element.mp h
    exact ⟨directive, .inl ⟨⟨e, rfl⟩, he⟩⟩
  · have hinner : ∀ e, inner ≠ .element e := fun e he => helement ⟨e, he⟩
    obtain ⟨directive, content, -, hcontent, htext⟩ := (yields_conditional hinner).mp h
    rw [← nodeWith_nil] at hcontent
    exact ⟨directive, .inr ⟨hinner, content, hcontent, htext⟩⟩

mutual

/-- **Writing a tree keeps bindings and components.** -/
theorem grows_node : ∀ (n : Node) {directives : List String} {level : Nat} {t t' : Template}
    {text : String}, Yields (nodeWith print directives n level) t text t' → t.Grows t'
  | .static value, directives, level, t, t', text, h => by
      simp only [nodeWith] at h
      obtain ⟨-, rfl⟩ := yields_static.mp h
      exact .refl t'
  | .dynamic r, directives, level, t, t', text, h => by
      simp only [nodeWith] at h
      obtain ⟨e, -, -, rfl⟩ := yields_dynamic.mp h
      exact .refl t'
  | .raw markup, directives, level, t, t', text, h => by
      simp only [nodeWith] at h
      obtain ⟨-, rfl⟩ := yields_raw.mp h
      exact .refl t'
  | .element e, directives, level, t, t', text, h => grows_element e h
  | .loop ⟨template, source, names⟩, directives, level, t, t', text, h => by
      simp only [nodeWith] at h
      obtain ⟨_, -, htemplate⟩ := yields_loop.mp h
      exact grows_element template htemplate
  | .conditional ⟨inner, subject, value, condition⟩, directives, level, t, t', text, h => by
      obtain ⟨directive, ⟨-, hinner⟩ | ⟨-, content, hinner, -⟩⟩ := yields_conditional_cases h
      · exact grows_node inner hinner
      · exact grows_node inner hinner
  | .slot ⟨name, none⟩, directives, level, t, t', text, h => by
      simp only [nodeWith] at h
      obtain ⟨-, rfl⟩ := yields_slot_none.mp h
      exact .refl t'
  | .slot ⟨name, some fallback⟩, directives, level, t, t', text, h => by
      simp only [nodeWith] at h
      obtain ⟨content, hcontent, -⟩ := yields_slot_some.mp h
      rw [← nodeWith_nil] at hcontent
      exact grows_node fallback hcontent

theorem grows_element : ∀ (e : Element Node) {directives : List String} {level : Nat}
    {t t' : Template} {text : String}, Yields (element print e directives level) t text t' →
      t.Grows t'
  | ⟨name, label, key, selfClosing, attrs, handlers, rules, children, dependency⟩, directives,
      level, t, t', text, h => by
      obtain ⟨bound, t₁, written, slots, t₂, styles, listeners, texts, hbound, hattrs, -, -,
        hchildren, -⟩ := yields_element.mp h
      exact ((grows_tag hbound).trans (grows_attributes attrs hattrs)).trans
        (grows_nodes children hchildren)

theorem grows_attributes : ∀ (attrs : List (String × Attribute Node)) {level : Nat}
    {t t' : Template} {written slots : List String},
    Yields (attributes print level attrs) t (written, slots) t' → t.Grows t'
  | [], level, t, t', written, slots, h => by
      obtain ⟨-, -, rfl⟩ := yields_attributes_nil.mp h
      exact .refl t'
  | (name, .static value) :: rest, level, t, t', written, slots, h => by
      obtain ⟨others, hrest, -⟩ := yields_attributes_static.mp h
      exact grows_attributes rest hrest
  | (name, .dynamic r) :: rest, level, t, t', written, slots, h => by
      obtain ⟨e, others, -, hrest, -⟩ := yields_attributes_dynamic.mp h
      exact grows_attributes rest hrest
  | (name, .imported id) :: rest, level, t, t', written, slots, h => by
      obtain ⟨others, hrest, -⟩ := yields_attributes_imported.mp h
      exact grows_attributes rest hrest
  | (name, .slot content) :: rest, level, t, t', written, slots, h => by
      obtain ⟨inner, t₁, others, hinner, hrest, -⟩ := yields_attributes_slot.mp h
      rw [← nodeWith_nil] at hinner
      exact (grows_node content hinner).trans (grows_attributes rest hrest)

theorem grows_nodes : ∀ (ns : List Node) {level : Nat} {t t' : Template} {texts : List String},
    Yields (nodes print ns level) t texts t' → t.Grows t'
  | [], level, t, t', texts, h => by
      obtain ⟨-, rfl⟩ := yields_nodes_nil.mp h
      exact .refl t'
  | n :: rest, level, t, t', texts, h => by
      obtain ⟨text, t₁, others, htext, hothers, -⟩ := yields_nodes_cons.mp h
      rw [← nodeWith_nil] at htext
      exact (grows_node n htext).trans (grows_nodes rest hothers)

end

/-! ## Trees and their markup -/

section Relations

variable (P : String → Option Dependency → String → Prop)

mutual

/-- A text is the markup of a node at a level of nesting, and its tags are related to the elements
of the node. -/
inductive NodeWritten : Node → Nat → String → Prop
  | static {value level} : NodeWritten (.static value) level (literalText value.display)
  | dynamic {r level text} : NodeWritten (.dynamic r) level text
  | raw {markup level} : NodeWritten (.raw markup) level markup
  | element {e level text} : ElementWritten e level text → NodeWritten (.element e) level text
  | loop {template source names level text} : ElementWritten template level text →
      NodeWritten (.loop ⟨template, source, names⟩) level text
  | conditionalElement {e subject value condition level text} : ElementWritten e level text →
      NodeWritten (.conditional ⟨.element e, subject, value, condition⟩) level text
  | conditional {inner subject value condition level directive content} :
      (∀ e, inner ≠ .element e) → NodeWritten inner (level + 1) content →
      NodeWritten (.conditional ⟨inner, subject, value, condition⟩) level
        ("<template " ++ directive ++ ">" ++ content ++ "</template>")
  | slot {name level} : NodeWritten (.slot ⟨name, none⟩) level (slotOpening name ++ "</slot>")
  | slotFallback {name fallback level content} : NodeWritten fallback (level + 1) content →
      NodeWritten (.slot ⟨name, some fallback⟩) level (slotOpening name ++ content ++ "</slot>")

/-- A text is the markup of an element with a related tag. -/
inductive ElementWritten : Element Node → Nat → String → Prop
  | intro {e level tag attributes slots texts} : P e.tag e.dependency tag →
      SlotsWritten level e.attrs slots → NodesWritten e.children (level + 1) texts →
      ElementWritten e level (elementText level tag attributes e.selfClosing
        (e.children.any isInline) (slots ++ texts))

/-- The markup of the nodes that are passed as attributes. -/
inductive SlotsWritten : Nat → List (String × Attribute Node) → List String → Prop
  | nil {level} : SlotsWritten level [] []
  | plain {level name given rest slots} : (∀ content, given ≠ .slot content) →
      SlotsWritten level rest slots → SlotsWritten level ((name, given) :: rest) slots
  | slot {level name content inner rest slots} : NodeWritten content (level + 1) inner →
      SlotsWritten level rest slots → SlotsWritten level ((name, .slot content) :: rest)
        (("<template #" ++ name ++ ">" ++ inner ++ "</template>") :: slots)

/-- The markup of nodes. -/
inductive NodesWritten : List Node → Nat → List String → Prop
  | nil {level} : NodesWritten [] level []
  | cons {n rest level text texts} : NodeWritten n level text → NodesWritten rest level texts →
      NodesWritten (n :: rest) level (text :: texts)

end

end Relations

/-- A tag can be written at any later moment, and is listed if it stands for a dependency. -/
theorem tags_of_yields_tag {name written : String} {dependency : Option Dependency}
    {t t' final : Template} (h : Yields (tag name dependency) t written t')
    (hfinal : t'.Grows final) (hproper : final.imports.Proper) :
    final.imports.Tags name dependency written ∧
      (dependency.isSome → written ∈ final.components) := by
  cases dependency with
  | none =>
      obtain ⟨rfl, -⟩ := yields_tag_none.mp h
      exact ⟨rfl, fun hnone => absurd hnone (by simp)⟩
  | some d =>
      obtain ⟨rfl, rfl⟩ := yields_tag_some.mp h
      exact ⟨ImportTable.tags_register hfinal.imports hproper,
        fun _ => hfinal.components.subset (t.mem_components_withTag name d)⟩

/-- Tags are read in a later template, where those that can be written are related to their
elements. -/
structure ReadsTags (final : Template) (P : String → Option Dependency → String → Prop) :
    Prop where
  proper : final.imports.Proper
  tags : ∀ tag dependency written, final.imports.Tags tag dependency written →
    (dependency.isSome → written ∈ final.components) → P tag dependency written

section Trees

variable {final : Template} {P : String → Option Dependency → String → Prop}

mutual

/-- **The tags of a written tree mean the dependencies of its elements**, and are listed, in every
template that keeps what was written. -/
theorem written_node (hreads : final.ReadsTags P) :
    ∀ (n : Node) {directives : List String} {level : Nat} {t t' : Template} {text : String},
      Yields (nodeWith print directives n level) t text t' → t'.Grows final →
        NodeWritten P n level text
  | .static value, directives, level, t, t', text, h, hfinal => by
      simp only [nodeWith] at h
      obtain ⟨rfl, -⟩ := yields_static.mp h
      exact .static
  | .dynamic r, directives, level, t, t', text, h, hfinal => .dynamic
  | .raw markup, directives, level, t, t', text, h, hfinal => by
      simp only [nodeWith] at h
      obtain ⟨rfl, -⟩ := yields_raw.mp h
      exact .raw
  | .element e, directives, level, t, t', text, h, hfinal =>
      .element (written_element hreads e h hfinal)
  | .loop ⟨template, source, names⟩, directives, level, t, t', text, h, hfinal => by
      simp only [nodeWith] at h
      obtain ⟨_, -, htemplate⟩ := yields_loop.mp h
      exact .loop (written_element hreads template htemplate hfinal)
  | .conditional ⟨inner, subject, value, condition⟩, directives, level, t, t', text, h, hfinal => by
      obtain ⟨directive, ⟨⟨e, he⟩, hyields⟩ | ⟨hinner, content, hyields, rfl⟩⟩ :=
        yields_conditional_cases h
      · have hwritten := written_node hreads inner hyields hfinal
        rw [he] at hwritten ⊢
        cases hwritten with
        | element hwritten => exact .conditionalElement hwritten
      · exact .conditional hinner (written_node hreads inner hyields hfinal)
  | .slot ⟨name, none⟩, directives, level, t, t', text, h, hfinal => by
      simp only [nodeWith] at h
      obtain ⟨rfl, -⟩ := yields_slot_none.mp h
      exact .slot
  | .slot ⟨name, some fallback⟩, directives, level, t, t', text, h, hfinal => by
      simp only [nodeWith] at h
      obtain ⟨content, hcontent, rfl⟩ := yields_slot_some.mp h
      rw [← nodeWith_nil] at hcontent
      exact .slotFallback (written_node hreads fallback hcontent hfinal)

theorem written_element (hreads : final.ReadsTags P) :
    ∀ (e : Element Node) {directives : List String} {level : Nat} {t t' : Template}
      {text : String}, Yields (element print e directives level) t text t' → t'.Grows final →
        ElementWritten P e level text
  | ⟨name, label, key, selfClosing, attrs, handlers, rules, children, dependency⟩, directives,
      level, t, t', text, h, hfinal => by
      obtain ⟨bound, t₁, written, slots, t₂, styles, listeners, texts, hbound, hattrs, -, -,
        hchildren, rfl⟩ := yields_element.mp h
      have hwritten : t₂.Grows final := (grows_nodes children hchildren).trans hfinal
      have hfixed : t₁.Grows final := (grows_attributes attrs hattrs).trans hwritten
      obtain ⟨htag, hlisted⟩ := tags_of_yields_tag hbound hfixed hreads.proper
      exact .intro (hreads.tags _ _ _ htag hlisted) (written_slots hreads attrs hattrs hwritten)
        (written_nodes hreads children hchildren hfinal)

/-- Nodes that are passed as attributes are written one after the other. -/
theorem written_slots (hreads : final.ReadsTags P) :
    ∀ (attrs : List (String × Attribute Node)) {level : Nat} {t t' : Template}
      {written slots : List String},
      Yields (attributes print level attrs) t (written, slots) t' → t'.Grows final →
        SlotsWritten P level attrs slots
  | [], level, t, t', written, slots, h, hfinal => by
      obtain ⟨-, rfl, -⟩ := yields_attributes_nil.mp h
      exact .nil
  | (name, .static value) :: rest, level, t, t', written, slots, h, hfinal => by
      obtain ⟨others, hrest, -⟩ := yields_attributes_static.mp h
      exact .plain (by simp) (written_slots hreads rest hrest hfinal)
  | (name, .dynamic r) :: rest, level, t, t', written, slots, h, hfinal => by
      obtain ⟨e, others, -, hrest, -⟩ := yields_attributes_dynamic.mp h
      exact .plain (by simp) (written_slots hreads rest hrest hfinal)
  | (name, .imported id) :: rest, level, t, t', written, slots, h, hfinal => by
      obtain ⟨others, hrest, -⟩ := yields_attributes_imported.mp h
      exact .plain (by simp) (written_slots hreads rest hrest hfinal)
  | (name, .slot content) :: rest, level, t, t', written, slots, h, hfinal => by
      obtain ⟨inner, t₁, others, hinner, hrest, rfl⟩ := yields_attributes_slot.mp h
      rw [← nodeWith_nil] at hinner
      have hkeeps : t₁.Grows final := (grows_attributes rest hrest).trans hfinal
      exact .slot (written_node hreads content hinner hkeeps)
        (written_slots hreads rest hrest hfinal)

/-- Nodes are written one after the other. -/
theorem written_nodes (hreads : final.ReadsTags P) :
    ∀ (ns : List Node) {level : Nat} {t t' : Template} {texts : List String},
      Yields (nodes print ns level) t texts t' → t'.Grows final → NodesWritten P ns level texts
  | [], level, t, t', texts, h, hfinal => by
      obtain ⟨rfl, -⟩ := yields_nodes_nil.mp h
      exact .nil
  | n :: rest, level, t, t', texts, h, hfinal => by
      obtain ⟨text, t₁, others, htext, hothers, rfl⟩ := yields_nodes_cons.mp h
      rw [← nodeWith_nil] at htext
      have hkeeps : t₁.Grows final := (grows_nodes rest hothers).trans hfinal
      exact .cons (written_node hreads n htext hkeeps) (written_nodes hreads rest hothers hfinal)

end

end Trees

/-! ## Keys -/

section Keys

/-- Only an element is an element once it has a key. -/
theorem assignKeys_ne_element {n : Node} (h : ∀ e, n ≠ .element e) (supply : KeySupply)
    (e : Element Node) : (n.assignKeys.run supply).1 ≠ .element e := by
  intro hkeyed
  cases n with
  | element e' => exact h e' rfl
  | slot s =>
      obtain ⟨name, _ | fallback⟩ := s <;> injection hkeyed
  | _ => injection hkeyed

/-- Whether a child stays on the line of its parent does not depend on keys. -/
theorem isInline_assignKeys (n : Node) (supply : KeySupply) :
    isInline (n.assignKeys.run supply).1 = isInline n := by
  cases n with
  | slot s =>
      obtain ⟨name, _ | fallback⟩ := s <;> rfl
  | _ => rfl

theorem any_isInline_assignAllKeys (ns : List Node) (supply : KeySupply) :
    ((assignAllKeys ns).run supply).1.any isInline = ns.any isInline := by
  induction ns generalizing supply with
  | nil => rfl
  | cons n rest ih =>
      change (isInline (n.assignKeys.run supply).1 ||
        ((assignAllKeys rest).run (n.assignKeys.run supply).2).1.any isInline) = _
      rw [isInline_assignKeys, ih]
      rfl

mutual

/-- **Keys do not matter to templates.** -/
theorem nodeWith_assignKeys : ∀ (n : Node) (supply : KeySupply) (directives : List String)
    (level : Nat), nodeWith print directives (n.assignKeys.run supply).1 level =
      nodeWith print directives n level
  | .static value, supply, directives, level => rfl
  | .dynamic r, supply, directives, level => rfl
  | .raw markup, supply, directives, level => rfl
  | .element e, supply, directives, level => element_assignKeys e supply directives level
  | .loop ⟨template, source, names⟩, supply, directives, level => by
      change node print (.loop ⟨((assignElementKeys template).run supply).1, source, names⟩) level =
        node print (.loop ⟨template, source, names⟩) level
      rw [node, node]
      refine bind_congr fun directives => ?_
      exact element_assignKeys template supply directives level
  | .conditional ⟨inner, subject, value, condition⟩, supply, directives, level => by
      have hinner := nodeWith_assignKeys inner supply
      change node print (.conditional ⟨(inner.assignKeys.run supply).1, subject, value,
        condition⟩) level = node print (.conditional ⟨inner, subject, value, condition⟩) level
      by_cases helement : ∃ e, inner = .element e
      · obtain ⟨e, rfl⟩ := helement
        change node print (.conditional ⟨.element ((assignElementKeys e).run supply).1, subject,
          value, condition⟩) level = _
        rw [node, node]
        refine bind_congr fun directive => ?_
        exact hinner [directive] level
      · have hne : ∀ e, inner ≠ .element e := fun e he => helement ⟨e, he⟩
        have hcontent := hinner [] (level + 1)
        rw [nodeWith_nil, nodeWith_nil] at hcontent
        rw [node, node, hcontent]
        · rfl
        · exact hne
        · exact assignKeys_ne_element hne supply
  | .slot ⟨name, none⟩, supply, directives, level => rfl
  | .slot ⟨name, some fallback⟩, supply, directives, level => by
      have hcontent := nodeWith_assignKeys fallback supply [] (level + 1)
      rw [nodeWith_nil, nodeWith_nil] at hcontent
      change node print (.slot ⟨name, some (fallback.assignKeys.run supply).1⟩) level =
        node print (.slot ⟨name, some fallback⟩) level
      rw [node, node, hcontent]

theorem element_assignKeys : ∀ (e : Element Node) (supply : KeySupply) (directives : List String)
    (level : Nat), element print ((assignElementKeys e).run supply).1 directives level =
      element print e directives level
  | ⟨tag, name, key, selfClosing, attrs, events, style, children, dependency⟩, supply, directives,
      level => by
      obtain ⟨key', supply₁, supply₂, hkeyed⟩ := exists_run_assignElementKeys
        ⟨tag, name, key, selfClosing, attrs, events, style, children, dependency⟩ supply
      rw [hkeyed, element, element, attributes_assignKeys attrs supply₁ level,
        nodes_assignKeys children supply₂ (level + 1), any_isInline_assignAllKeys]

theorem attributes_assignKeys : ∀ (attrs : List (String × Attribute Node)) (supply : KeySupply)
    (level : Nat), attributes print level ((assignAttrKeys attrs).run supply).1 =
      attributes print level attrs
  | [], supply, level => rfl
  | (name, .static value) :: rest, supply, level => by
      change attributes print level
        ((name, .static value) :: ((assignAttrKeys rest).run supply).1) = _
      cases value <;> simp only [attributes, attributes_assignKeys rest supply level]
  | (name, .dynamic r) :: rest, supply, level => by
      change attributes print level
        ((name, .dynamic r) :: ((assignAttrKeys rest).run supply).1) = _
      rw [attributes, attributes, attributes_assignKeys rest supply level]
  | (name, .imported id) :: rest, supply, level => by
      change attributes print level
        ((name, .imported id) :: ((assignAttrKeys rest).run supply).1) = _
      rw [attributes, attributes, attributes_assignKeys rest supply level]
  | (name, .slot content) :: rest, supply, level => by
      change attributes print level ((name, .slot (content.assignKeys.run supply).1) ::
        ((assignAttrKeys rest).run (content.assignKeys.run supply).2).1) = _
      have hcontent := nodeWith_assignKeys content supply [] (level + 1)
      rw [nodeWith_nil, nodeWith_nil] at hcontent
      rw [attributes, attributes, hcontent, attributes_assignKeys rest _ level]

theorem nodes_assignKeys : ∀ (ns : List Node) (supply : KeySupply) (level : Nat),
    nodes print ((assignAllKeys ns).run supply).1 level = nodes print ns level
  | [], supply, level => rfl
  | n :: rest, supply, level => by
      change nodes print ((n.assignKeys.run supply).1 ::
        ((assignAllKeys rest).run (n.assignKeys.run supply).2).1) level = _
      have hn := nodeWith_assignKeys n supply [] level
      rw [nodeWith_nil, nodeWith_nil] at hn
      rw [nodes, nodes, hn, nodes_assignKeys rest _ level]

end

theorem node_withKeys (n : Node) (level : Nat) :
    node print n.withKeys level = node print n level := by
  rw [← nodeWith_nil, ← nodeWith_nil]
  exact nodeWith_assignKeys n _ [] level

end Keys

end Template

end ViewGen
