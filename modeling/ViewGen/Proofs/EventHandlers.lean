import ViewGen.Proofs.MarkupTags
import ViewGen.Proofs.Words

/-!
# Handlers of events

Each event of an element that has handlers sets an attribute, which is named after the event.  Two
events can come to the same name: `click` and `onClick` do.  The attribute is then set twice, and
the handlers of the later event stay.  Events that are named in lower case letters alone, as the
events of a page are, never come to the same name.

## Main definitions

* `Element.heardBy` — the events with handlers that set an attribute
* `Text.LowerCase` — a name of lower case letters alone

## Main statements

* `exists_listeners` — the attributes that events set, one for each event with handlers
* `eventAttribute_inj` — different names in lower case letters give different attributes
* `handlers_of_last_event_stay` — an attribute runs the handlers of the last event that sets it
-/

namespace ViewGen

open Compile (Yields)

/-! ## Attributes for events -/

/-- An event with handlers sets an attribute to the function that runs them. -/
def CompileOptions.Listens (options : CompileOptions) (entry : String × List Handler)
    (listener : String × MarkupValue) : Prop :=
  listener.1 = eventAttribute entry.1 ∧
    ∃ run, options.handlers entry.2 = .ok run ∧ listener.2 = .expr run

/-- Events set one attribute for each event with handlers, in order. -/
theorem exists_listeners {options : CompileOptions} {events : List (String × List Handler)}
    {m m' : Markup} (h : Compile.events options m events = .ok m') :
    ∃ late, m' = m.withAttributes late ∧
      List.Forall₂ options.Listens (events.filter fun entry => !entry.2.isEmpty) late := by
  induction events generalizing m with
  | nil => exact ⟨[], (Except.ok.inj h).symm, .nil⟩
  | cons entry rest ih =>
      obtain ⟨event, handlers⟩ := entry
      cases handlers with
      | nil =>
          rw [events_skip] at h
          exact ih h
      | cons handler others =>
          obtain ⟨run, hrun, hrest⟩ := events_cons_iff.mp h
          obtain ⟨late, rfl, hlate⟩ := ih hrest
          exact ⟨(eventAttribute event, .expr run) :: late, rfl, .cons ⟨rfl, run, hrun, rfl⟩ hlate⟩

/-- The handlers of every event are compiled. -/
theorem exists_handlers_of_events {options : CompileOptions}
    {events : List (String × List Handler)} {m m' : Markup}
    (h : Compile.events options m events = .ok m') {event : String} {hs : List Handler}
    (hentry : (event, hs) ∈ events) (hne : hs ≠ []) : ∃ run, options.handlers hs = .ok run := by
  obtain ⟨late, -, hlate⟩ := exists_listeners h
  have hcompiled : List.Forall₂ (fun entry listener =>
      (∃ run, options.handlers entry.2 = .ok run) ∧ options.Listens entry listener) _ late :=
    hlate.imp fun entry listener hlistens => ⟨hlistens.2.imp fun run hrun => hrun.1, hlistens⟩
  have hmem : (event, hs) ∈ events.filter fun entry => !entry.2.isEmpty :=
    List.mem_filter.mpr ⟨hentry, by simpa using hne⟩
  exact ((List.forall₂_and_left _ _).mp hcompiled).1 _ hmem

/-- The last items of related lists are related. -/
theorem exists_getLast?_of_forall₂ {α β : Type} {R : α → β → Prop} {l : List α} {l' : List β}
    (h : List.Forall₂ R l l') {a : α} (ha : l.getLast? = some a) :
    ∃ b, l'.getLast? = some b ∧ R a b := by
  have hreverse : List.Forall₂ R l.reverse l'.reverse := List.rel_reverse h
  simp only [← List.head?_reverse] at ha ⊢
  generalize l.reverse = first, l'.reverse = first' at ha hreverse ⊢
  cases hreverse with
  | nil => exact nomatch ha
  | cons hab _ =>
      obtain rfl := Option.some.inj ha
      exact ⟨_, rfl, hab⟩

namespace Element

/-- The events with handlers that set an attribute, in order. -/
def heardBy (e : Element Node) (name : String) : List (String × List Handler) :=
  e.events.filter fun entry => !entry.2.isEmpty && eventAttribute entry.1 == name

variable {e : Element Node} {name event : String} {hs : List Handler}

theorem mem_heardBy_iff :
    (event, hs) ∈ e.heardBy name ↔
      (event, hs) ∈ e.events ∧ hs ≠ [] ∧ eventAttribute event = name := by
  simp [heardBy]

/-- An attribute is set to the function of the last event that sets it. -/
theorem get?_of_heardBy {options : CompileOptions} {m m' : Markup}
    (h : Compile.events options m e.events = .ok m')
    (hlast : (e.heardBy name).getLast? = some (event, hs)) :
    ∃ run, options.handlers hs = .ok run ∧ m'.attributes.get? name = some (.expr run) := by
  obtain ⟨late, rfl, hlate⟩ := exists_listeners h
  have hnames : Relator.LiftFun options.Listens (· ↔ ·)
      (fun entry => (eventAttribute entry.1 == name) = true)
      (fun listener => decide (listener.1 = name) = true) := by
    intro entry listener hlistener
    simp only [beq_iff_eq, decide_eq_true_eq, hlistener.1]
  -- The events that set the attribute are matched with the entries under its name, one by one, so
  -- the last ones of both belong together.
  have hset : List.Forall₂ options.Listens (e.heardBy name)
      (late.filter fun listener => listener.1 = name) := by
    have hfilter := List.rel_filter hnames hlate
    rw [List.filter_filter] at hfilter
    simpa only [heardBy, Bool.and_comm] using hfilter
  obtain ⟨⟨_, value⟩, hvalue, -, run, hrun, rfl⟩ := exists_getLast?_of_forall₂ hset hlast
  refine ⟨run, hrun, ?_⟩
  rw [Markup.withAttributes, Dict.get?_insertAll, hvalue]
  rfl

end Element

/-! ## Names in lower case letters -/

namespace Text

/-- A name of lower case letters alone. -/
def LowerCase (s : String) : Prop :=
  ∀ c ∈ s.toList, 'a' ≤ c ∧ c ≤ 'z'

instance (s : String) : Decidable (LowerCase s) :=
  decidable_of_iff ((s.toList.all fun c => 'a' ≤ c && c ≤ 'z') = true) (by simp [LowerCase])

theorem LowerCase.isLower {s : String} (h : LowerCase s) : ∀ c ∈ s.toList, c.isLower = true := by
  intro c hc
  exact Bool.and_eq_true_iff.mpr ⟨decide_eq_true (h c hc).1, decide_eq_true (h c hc).2⟩

/-- What case conversion needs to know of a lower case letter. -/
theorem lowerLetter {c : Char} (hc : c.isLower = true) :
    c.isUpper = false ∧ upper c = [c.toUpper] ∧ c.toUpper.toLower = c :=
  forall_isAlphanum (fun c => c.isLower = true →
    c.isUpper = false ∧ upper c = [c.toUpper] ∧ c.toUpper.toLower = c) (by decide)
    (isAlphanum_of_isLower hc) hc

/-- A name in lower case letters is capitalized at its first letter alone. -/
theorem toList_pascal {s : String} (h : LowerCase s) {c : Char} {rest : List Char}
    (hs : s.toList = c :: rest) : (pascal s).toList = c.toUpper :: rest := by
  have hletters := h.isLower
  rw [hs] at hletters
  have hkind : OneKind (c :: rest) := .inl hletters
  have hword : words s = [c :: rest] := by
    rw [words, hs, hkind.cutWords_eq]
    rfl
  have hcapital := (lowerLetter (hletters c List.mem_cons_self)).2.1
  rw [pascal, hword, List.flatMap_singleton, String.toList_ofList, capitalize, hcapital,
    hkind.tail.lowerWord_eq]
  rfl

theorem pascal_of_empty {s : String} (hs : s.toList = []) : (pascal s).toList = [] := by
  rw [pascal, words, hs]
  rfl

/-- Capitalizing keeps names in lower case letters apart. -/
theorem pascal_inj {s s' : String} (h : LowerCase s) (h' : LowerCase s')
    (heq : pascal s = pascal s') : s = s' := by
  apply String.toList_inj.mp
  cases hs : s.toList with
  | nil =>
      cases hs' : s'.toList with
      | nil => rfl
      | cons c' rest' =>
          rw [← String.toList_inj, pascal_of_empty hs, toList_pascal h' hs'] at heq
          exact nomatch heq
  | cons c rest =>
      cases hs' : s'.toList with
      | nil =>
          rw [← String.toList_inj, pascal_of_empty hs', toList_pascal h hs] at heq
          exact nomatch heq
      | cons c' rest' =>
          rw [← String.toList_inj, toList_pascal h hs, toList_pascal h' hs'] at heq
          obtain ⟨hcapital, rfl⟩ := List.cons.inj heq
          have hc := (lowerLetter (h.isLower c (by rw [hs]; exact List.mem_cons_self))).2.2
          have hc' := (lowerLetter (h'.isLower c' (by rw [hs']; exact List.mem_cons_self))).2.2
          rw [← hc, hcapital, hc']

end Text

/-- The part of an attribute's name that tells the event. -/
def eventWord (event : String) : String :=
  (compoundEvents.lookup event).getD (Text.pascal event)

theorem eventAttribute_of_lowerCase {event : String} (h : Text.LowerCase event) :
    eventAttribute event = "on" ++ eventWord event := by
  have hplain : isEventAttribute event = false := by
    unfold isEventAttribute
    split
    · next c rest hevent =>
      exact (Text.lowerLetter (h.isLower c (by simp [hevent]))).1
    · rfl
  rw [eventAttribute, hplain, eventWord]
  rfl

/-- The name of a compound event has a capital inside, where a capitalized name has none. -/
theorem ne_pascal_of_mem_compoundEvents {entry : String × String} (hentry : entry ∈ compoundEvents)
    {event : String} (h : Text.LowerCase event) : entry.2 ≠ Text.pascal event := by
  have hcapitals : ∀ entry ∈ compoundEvents, entry.2.toList.tail.any Char.isUpper = true := by
    decide
  intro heq
  have hcapital := hcapitals entry hentry
  rw [heq] at hcapital
  cases hevent : event.toList with
  | nil =>
      rw [Text.pascal_of_empty hevent] at hcapital
      exact nomatch hcapital
  | cons c rest =>
      rw [Text.toList_pascal h hevent] at hcapital
      obtain ⟨d, hd, hupper⟩ := List.any_eq_true.mp hcapital
      have hmem : d ∈ event.toList := hevent ▸ List.mem_cons_of_mem _ hd
      have hlower := (Text.lowerLetter (h.isLower d hmem)).1
      rw [hlower] at hupper
      exact nomatch hupper

/-- **Different names in lower case letters give different attributes.** -/
theorem eventAttribute_inj {event other : String} (h : Text.LowerCase event)
    (h' : Text.LowerCase other) (heq : eventAttribute event = eventAttribute other) :
    event = other := by
  have hcompound : ∀ entry ∈ compoundEvents, ∀ entry' ∈ compoundEvents, entry.2 = entry'.2 →
      entry.1 = entry'.1 := by
    decide
  have hmem : ∀ {event word : String}, compoundEvents.lookup event = some word →
      (event, word) ∈ compoundEvents := fun hlookup => Dict.mem_of_get? hlookup
  rw [eventAttribute_of_lowerCase h, eventAttribute_of_lowerCase h', String.append_right_inj] at heq
  unfold eventWord at heq
  cases hevent : compoundEvents.lookup event with
  | some word =>
      cases hother : compoundEvents.lookup other with
      | some word' =>
          rw [hevent, hother] at heq
          exact hcompound _ (hmem hevent) _ (hmem hother) heq
      | none =>
          rw [hevent, hother] at heq
          exact absurd heq (ne_pascal_of_mem_compoundEvents (hmem hevent) h')
  | none =>
      cases hother : compoundEvents.lookup other with
      | some word' =>
          rw [hevent, hother] at heq
          exact absurd heq.symm (ne_pascal_of_mem_compoundEvents (hmem hother) h)
      | none =>
          rw [hevent, hother] at heq
          exact Text.pascal_inj h h' heq

/-! ## Elements -/

/-- An event with handlers is heard by its attribute. -/
theorem Element.exists_getLast?_heardBy {e : Element Node} {event : String} {hs : List Handler}
    (hentry : (event, hs) ∈ e.events) (hne : hs ≠ []) :
    ∃ last, (e.heardBy (eventAttribute event)).getLast? = some last := by
  have hmem := mem_heardBy_iff.mpr ⟨hentry, hne, rfl⟩
  exact ⟨_, List.getLast?_eq_some_getLast (List.ne_nil_of_mem hmem)⟩

/-- Where all events have different names in lower case letters, only the event itself is heard by
its attribute. -/
theorem Element.eq_of_mem_heardBy {e : Element Node} (hnodup : (Dict.keys e.events).Nodup)
    (hlower : ∀ event ∈ Dict.keys e.events, Text.LowerCase event)
    {entry other : String × List Handler} (hentry : entry ∈ e.events)
    (hother : other ∈ e.heardBy (eventAttribute entry.1)) :
    other = entry := by
  obtain ⟨hmem, -, hsame⟩ := mem_heardBy_iff.mp hother
  have hkey := eventAttribute_inj (hlower _ (List.mem_map_of_mem hmem))
    (hlower _ (List.mem_map_of_mem hentry)) hsame
  exact List.inj_on_of_nodup_map hnodup hmem hentry hkey

/-- **An attribute runs the handlers of the last event that sets it.**  So an event with handlers
keeps them exactly when the last event with handlers that sets the same attribute runs the same.
Where all events have different names in lower case letters, every event keeps its handlers. -/
theorem handlers_of_last_event_stay (options : CompileOptions) (e : Element Node)
    {w w' : Workspace} {id : ElementId} (h : Yields (compileElement options e) w id w') :
    ∃ m, w'.arena.get? id = some m ∧
      (∀ name event hs, (e.heardBy name).getLast? = some (event, hs) →
        ∃ run, options.handlers hs = .ok run ∧ m.attributes.get? name = some (.expr run)) ∧
      (∀ event hs, (event, hs) ∈ e.events → hs ≠ [] →
        ∃ run last, options.handlers hs = .ok run ∧
          (e.heardBy (eventAttribute event)).getLast? = some last ∧
          (m.attributes.get? (eventAttribute event) = some (.expr run) ↔
            options.handlers last.2 = .ok run)) ∧
      ((Dict.keys e.events).Nodup → (∀ event ∈ Dict.keys e.events, Text.LowerCase event) →
        ∀ event hs, (event, hs) ∈ e.events → hs ≠ [] →
          ∃ run, options.handlers hs = .ok run ∧
            m.attributes.get? (eventAttribute event) = some (.expr run)) := by
  obtain ⟨bound, w₁, m, w₂, m', cs, w₃, -, -, hevents, -, rfl, rfl⟩ := yields_element.mp h
  have hlast : ∀ name event hs, (e.heardBy name).getLast? = some (event, hs) →
      ∃ run, options.handlers hs = .ok run ∧ m'.attributes.get? name = some (.expr run) :=
    fun name event hs hheard => Element.get?_of_heardBy hevents hheard
  refine ⟨_, Arena.get?_push_self _ _, hlast, fun event hs hentry hne => ?_,
    fun hnodup hlower event hs hentry hne => ?_⟩
  · obtain ⟨run, hrun⟩ := exists_handlers_of_events hevents hentry hne
    obtain ⟨last, hheard⟩ := Element.exists_getLast?_heardBy hentry hne
    obtain ⟨stays, hstays, hvalue⟩ := hlast _ _ _ hheard
    refine ⟨run, last, hrun, hheard, ?_⟩
    have hattributes : Dict.get? ({ m' with children := cs } : Markup).attributes
        (eventAttribute event) = some (.expr stays) := hvalue
    rw [hattributes, hstays]
    simp
  · obtain ⟨last, hheard⟩ := Element.exists_getLast?_heardBy hentry hne
    obtain rfl : last = (event, hs) :=
      Element.eq_of_mem_heardBy hnodup hlower hentry (List.mem_of_getLast? hheard)
    exact hlast _ _ _ hheard

/-- A field that can be opened, closed and submitted.  One of its events has no handlers, and two
are named by compounds. -/
def searchField : Element Node where
  tag := "input"
  events := [
    ("click", [.setState "open" (.bool true), .callProp "onOpen" []]),
    ("focus", []),
    ("dblclick", [.setState "open" (.text Handler.toggle)]),
    ("keydown", [.callProp "onSubmit" [.text "key"]])]

/-- All three events of the field that have handlers keep them. -/
theorem searchField_keeps_handlers :
    ∃ w' m, Yields (compileElement {} searchField) {} 0 w' ∧ w'.arena.get? 0 = some m ∧
      m.attributes.keys = ["onClick", "onDoubleClick", "onKeyDown"] ∧
      ∀ event hs, (event, hs) ∈ searchField.events → hs ≠ [] →
        ∃ run, CompileOptions.handlers {} hs = .ok run ∧
          m.attributes.get? (eventAttribute event) = some (.expr run) := by
  have hrun : Yields (compileElement {} searchField) {} 0 _ := rfl
  have hlower : ∀ event ∈ Dict.keys searchField.events, Text.LowerCase event := by decide
  obtain ⟨m, hm, -, -, hkeeps⟩ := handlers_of_last_event_stay {} searchField hrun
  refine ⟨_, m, hrun, hm, ?_, hkeeps (by decide) hlower⟩
  obtain rfl := Option.some.inj hm
  rfl

/-- A button that closes a panel and tells about it, under two names of one event. -/
def closeButton : Element Node where
  tag := "button"
  events := [
    ("click", [.setState "open" (.bool false)]),
    ("onClick", [.callProp "onClose" []])]

/-- Both events of the button set the same attribute, and the button does not close the panel. -/
theorem closeButton_loses_handler :
    ∃ w' m, Yields (compileElement {} closeButton) {} 0 w' ∧ w'.arena.get? 0 = some m ∧
      ¬ ∀ event hs, (event, hs) ∈ closeButton.events → hs ≠ [] →
        ∃ run, CompileOptions.handlers {} hs = .ok run ∧
          m.attributes.get? (eventAttribute event) = some (.expr run) := by
  refine ⟨_, _, rfl, rfl, fun hkeeps => ?_⟩
  obtain ⟨run, hrun, hvalue⟩ :=
    hkeeps "click" [.setState "open" (.bool false)] List.mem_cons_self (List.cons_ne_nil _ _)
  obtain rfl := Except.ok.inj hrun
  have hcalls :
      some (MarkupValue.expr (.arrow [] (.call (.member (.ident "props") "onClose") []))) =
        some (.expr (.arrow [] (.call (.ident "setOpen") [.bool false]))) := hvalue
  simp at hcalls

end ViewGen
