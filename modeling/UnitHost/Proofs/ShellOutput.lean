import UnitHost.Proofs.Blocks
import UnitHost.Proofs.Observations

/-!
# What the shell shows of the console

A shell that is not quiet drains the console after each submission and shows the entries before the response; a quiet one
never drains it. The two sessions are compared through `Session.seen`, which forgets the times of marks; as both submit
a text at the same time, the marks carry the same time too. `Behind` says that the quiet session is the other one behind
all entries shown so far. One deed keeps them so and shows the same but for entries (`perform_behind`), hence so does a
run (`askEach_perform_behind`). As the quiet session is never drained, its console holds all entries ever made, and
`Behind.recorded` says that those shown and those still held are these.

`Prints` says in which words and on which stream an item appears.
-/

namespace UnitHost

/-- Entries made at the same time that differ in the times of marks at most are the same. -/
theorem Event.eq_of_map_timeless {time : Nat} {events events' : List Event} (made : ∀ e ∈ events, e.MadeAt time)
    (made' : ∀ e ∈ events', e.MadeAt time) (same : events.map timeless = events'.map timeless) : events = events' := by
  have one {e e' : Event} (made : e.MadeAt time) (made' : e'.MadeAt time) (same : e.timeless = e'.timeless) :
      e = e' := by
    cases e <;> cases e' <;> simp_all [timeless, MadeAt]
  induction events generalizing events' with
  | nil => exact (List.map_eq_nil_iff.1 same.symm).symm
  | cons e rest ih =>
    cases events' with
    | nil => cases same
    | cons e' rest' =>
      obtain ⟨first, others⟩ := List.cons.inj same
      obtain ⟨here, later⟩ := List.forall_mem_cons.1 made
      obtain ⟨here', later'⟩ := List.forall_mem_cons.1 made'
      rw [one here here' first, ih later later' others]

/-- Submits a text at some time after the session began. -/
def Session.submitAt (fuel : Nat) (s : Session) (asked : Nat × String) : Option (Except Failure Response × Session) :=
  (s.atTime asked.1).submit fuel asked.2

namespace Shell

/-! Kinds of items. -/

/-- The console entry that an item shows. -/
def Item.event? : Item → Option Event
  | .event e => some e
  | _ => none

/-- The response that an item shows. -/
def Item.response? : Item → Option Response
  | .response r => some r
  | _ => none

/-- The console entries among items. -/
def eventsOf (items : List Item) : List Event := items.filterMap Item.event?

/-- The responses among items. -/
def responsesOf (items : List Item) : List Response := items.filterMap Item.response?

/-- All items but console entries. -/
def withoutEvents (items : List Item) : List Item := items.filter (·.event?.isNone)

@[simp] theorem eventsOf_append (items more : List Item) : eventsOf (items ++ more) = eventsOf items ++ eventsOf more :=
  List.filterMap_append

@[simp] theorem responsesOf_append (items more : List Item) :
    responsesOf (items ++ more) = responsesOf items ++ responsesOf more :=
  List.filterMap_append

@[simp] theorem withoutEvents_append (items more : List Item) :
    withoutEvents (items ++ more) = withoutEvents items ++ withoutEvents more :=
  List.filter_append items more

@[simp] theorem eventsOf_events (events : List Event) : eventsOf (events.map .event) = events := by
  induction events with
  | nil => rfl
  | cons e rest ih => exact congrArg (e :: ·) ih

@[simp] theorem responsesOf_events (events : List Event) : responsesOf (events.map .event) = [] := by
  simp [responsesOf, Item.response?]

@[simp] theorem withoutEvents_events (events : List Event) : withoutEvents (events.map .event) = [] := by
  simp [withoutEvents, Item.event?]

@[simp] theorem eventsOf_response (r : Response) : eventsOf [.response r] = [] := rfl

@[simp] theorem responsesOf_response (r : Response) : responsesOf [.response r] = [r] := rfl

@[simp] theorem withoutEvents_response (r : Response) : withoutEvents [.response r] = [.response r] := rfl

/-- An item that shows neither an entry nor a response: what a command lists, or what could not be done. -/
def Item.IsRemark (i : Item) : Prop := i.event? = none ∧ i.response? = none

section Remarks

variable {items : List Item} (remarks : ∀ i ∈ items, i.IsRemark)
include remarks

theorem eventsOf_remarks : eventsOf items = [] :=
  List.filterMap_eq_nil_iff.2 fun i mem => (remarks i mem).1

theorem responsesOf_remarks : responsesOf items = [] :=
  List.filterMap_eq_nil_iff.2 fun i mem => (remarks i mem).2

theorem withoutEvents_remarks : withoutEvents items = items :=
  List.filter_eq_self.2 fun i mem => by rw [(remarks i mem).1]; rfl

end Remarks

theorem listed_remarks (s : Session) (c : Command) : ∀ i ∈ listed s c, i.IsRemark := by
  intro i mem
  cases c with
  | units =>
    have mem : i ∈ listUnits s.units := mem
    unfold listUnits at mem
    split at mem
    · rw [List.mem_singleton.1 mem]
      exact ⟨rfl, rfl⟩
    · obtain ⟨u, -, rfl⟩ := List.mem_map.1 mem
      exact ⟨rfl, rfl⟩
  | history =>
    obtain ⟨entry, -, rfl⟩ := List.mem_map.1 (mem : i ∈ listHistory s.history)
    exact ⟨rfl, rfl⟩
  | memory =>
    rw [List.mem_singleton.1 (mem : i ∈ listMemory s.snapshot)]
    exact ⟨rfl, rfl⟩
  | unknown name =>
    rw [List.mem_singleton.1 mem]
    exact ⟨rfl, rfl⟩
  | load path => cases mem
  | quit => cases mem

theorem listed_seen (s : Session) (before : Array Event) (c : Command) : listed (s.seen before) c = listed s c := by
  cases c <;> rfl

/-! What is printed for items. -/

/-- Two blanks for each group that is open. -/
def blanks : Nat → String
  | 0 => ""
  | depth + 1 => "  " ++ blanks depth

/-- The line that is printed for an item, and the stream that it is printed on. -/
inductive Prints : Item → Printed → Prop where
  | log (depth : Nat) (text : String) : Prints (.event (.message .log depth text)) (.out (blanks depth ++ text))
  | warning (depth : Nat) (text : String) :
      Prints (.event (.message .warn depth text)) (.err (blanks depth ++ "warning: " ++ text))
  | error (depth : Nat) (text : String) :
      Prints (.event (.message .error depth text)) (.err (blanks depth ++ "error: " ++ text))
  | group (depth : Nat) (label : String) : Prints (.event (.opened depth label)) (.out (blanks depth ++ "▸ " ++ label))
  | mark (name : String) (elapsed : Nat) :
      Prints (.event (.mark name elapsed)) (.out ("; " ++ name ++ " at " ++ duration elapsed))
  | output (text : String) : Prints (.response (.output text)) (.out text)
  | failure (text : String) : Prints (.response (.error text)) (.err ("; error: " ++ text))
  | listed (text : String) : Prints (.listed text) (.out text)
  | refused (text : String) : Prints (.refused text) (.err text)

/-- Whether an item is the end of a group. -/
def Item.isGroupEnd : Item → Bool
  | .event (.closed _) => true
  | _ => false

theorem indent_eq (depth : Nat) : indent depth = blanks depth := by
  induction depth with
  | zero => rfl
  | succ depth ih =>
    have more : indent (depth + 1) = "  " ++ indent depth := by
      apply String.toList_inj.1
      simp [indent, Nat.mul_succ, List.replicate_succ]
    rw [more, ih, blanks]

theorem prints_of_print? {i : Item} {p : Printed} (printed : i.print? = some p) : Prints i p := by
  cases i with
  | event e =>
    cases e with
    | message channel depth text =>
      cases channel <;> cases printed <;> rw [indent_eq]
      · exact .log depth text
      · exact .warning depth text
      · exact .error depth text
    | opened depth label =>
      cases printed
      rw [indent_eq]
      exact .group depth label
    | closed depth => cases printed
    | mark name elapsed => cases printed; exact .mark name elapsed
  | response r =>
    cases r with
    | output text => cases printed; exact .output text
    | error text => cases printed; exact .failure text
  | listed text => cases printed; exact .listed text
  | refused text => cases printed; exact .refused text

theorem Item.print?_isNone (i : Item) : i.print?.isNone = i.isGroupEnd := by
  cases i with
  | event e =>
    cases e with
    | message channel depth text => cases channel <;> rfl
    | _ => rfl
  | response r => cases r <;> rfl
  | _ => rfl

/-- Items are printed one by one, but for the ends of groups. -/
theorem forall₂_prints (items : List Item) :
    List.Forall₂ Prints (items.filter (!·.isGroupEnd)) (items.filterMap Item.print?) := by
  induction items with
  | nil => exact .nil
  | cons i rest ih =>
    rw [List.filter_cons, List.filterMap_cons, ← i.print?_isNone]
    cases printed : i.print? with
    | none => exact ih
    | some p => exact .cons (prints_of_print? printed) ih

/-! One deed of two shells. -/

/-- A session that was never drained, and one that is the same behind entries that were shown. -/
structure Behind (whole rest : Session) (shown : List Event) : Prop where
  seen : whole.seen #[] = rest.seen (shown.map Event.timeless).toArray
  /-- The entries shown and those still held are all that were made. -/
  recorded : whole.world.recorded = shown ++ rest.world.recorded

namespace Behind

variable {whole rest rest' : Session} {shown : List Event} {fuel : Nat} {asked : Nat × String}

theorem refl (s : Session) : Behind s s [] := ⟨rfl, rfl⟩

/-- Draining the console moves entries from those held to those shown. -/
theorem drain (h : Behind whole rest shown) : Behind whole rest.drainConsole.2 (shown ++ rest.world.recorded) := by
  have drained := rest.drainConsole_seen (shown.map Event.timeless).toArray
  have kept : (shown.map Event.timeless).toArray ++ rest.drainConsole.1.map Event.timeless =
      ((shown ++ rest.world.recorded).map Event.timeless).toArray := by
    apply Array.toList_inj.1
    simp [World.recorded, Session.drainConsole, Journal.drain, Console.drain]
  rw [kept] at drained
  exact ⟨h.seen.trans drained.symm, h.recorded.trans (List.append_nil _).symm⟩

/-- Both sessions answer a submission at the same time alike, as far as can be seen without a watch. -/
theorem submitAt_seen (h : Behind whole rest shown) (fuel : Nat) (asked : Nat × String) :
    (whole.submitAt fuel asked).map (fun told => (told.1, told.2.seen #[])) =
      (rest.submitAt fuel asked).map fun told => (told.1, told.2.seen (shown.map Event.timeless).toArray) := by
  have alone : (whole.seen #[]).submit fuel asked.2 = _ := (whole.atTime asked.1).submit_seen #[] fuel asked.2
  have other : (rest.seen (shown.map Event.timeless).toArray).submit fuel asked.2 = _ :=
    (rest.atTime asked.1).submit_seen (shown.map Event.timeless).toArray fuel asked.2
  rw [h.seen] at alone
  exact alone.symm.trans other

theorem submit (h : Behind whole rest shown) {answer : Except Failure Response}
    (submitted : rest.submitAt fuel asked = some (answer, rest')) :
    ∃ whole', whole.submitAt fuel asked = some (answer, whole') ∧ Behind whole' rest' shown := by
  have same := h.submitAt_seen fuel asked
  rw [submitted] at same
  obtain ⟨⟨answer', whole'⟩, alone, same⟩ := Option.map_eq_some_iff.1 same
  obtain ⟨rfl, seen⟩ := Prod.mk.inj same
  refine ⟨whole', alone, seen, ?_⟩
  -- The entries that the two add were made at the same time, and without times they are the same.
  obtain ⟨-, new, events, -, made⟩ := Session.submit_records alone
  obtain ⟨-, new', events', -, made'⟩ := Session.submit_records submitted
  have wholly : whole'.world.recorded = whole.world.recorded ++ new := events
  have partly : rest'.world.recorded = rest.world.recorded ++ new' := events'
  have timeless := congrArg (fun s : Session => s.world.recorded) seen
  simp only [Session.recorded_seen, wholly, partly, h.recorded, List.map_append, List.append_assoc, List.nil_append,
    List.append_cancel_left_eq] at timeless
  rw [wholly, partly, h.recorded, Event.eq_of_map_timeless made made' timeless, List.append_assoc]

theorem submit_none (h : Behind whole rest shown) (submitted : rest.submitAt fuel asked = none) :
    whole.submitAt fuel asked = none := by
  have same := h.submitAt_seen fuel asked
  rw [submitted] at same
  exact Option.map_eq_none_iff.1 same

theorem listed (h : Behind whole rest shown) (c : Command) : Shell.listed whole c = Shell.listed rest c := by
  rw [← listed_seen whole #[] c, h.seen, listed_seen]

end Behind

/-- What a deed submits, and when. -/
def Deed.submission? : Deed → Option (Nat × String)
  | .submit time text => some (time, text)
  | .list _ | .refuse .. => none

/-- What a deed shows that leads a session which is never drained from one state to the next, after entries that were
shown before: a submission shows the entries made since then and its response. -/
inductive Shows (fuel : Nat) (s s' : Session) (before : List Event) : Deed → List Item → Prop where
  | submission (time : Nat) (text : String) (r : Response) (new : List Event)
      (submitted : s.submitAt fuel (time, text) = some (.ok r, s')) (recorded : s'.world.recorded = before ++ new) :
      Shows fuel s s' before (.submit time text) (new.map .event ++ [.response r])
  | remarks (d : Deed) (items : List Item) (silent : d.submission? = none) (same : s' = s)
      (remarks : ∀ i ∈ items, i.IsRemark) : Shows fuel s s' before d items

section Deeds

variable {fuel : Nat} {whole rest : Session} {shown : List Event}

/-- One deed is done by both shells or by none. They show the same but for entries, and stay alike. -/
theorem perform_behind (fuel : Nat) (h : Behind whole rest shown) (ready : rest.state = .ready) (d : Deed) :
    (perform fuel true whole d = none ∧ perform fuel false rest d = none) ∨
    ∃ items whole' rest', perform fuel true whole d = some (withoutEvents items, whole') ∧
      perform fuel false rest d = some (items, rest') ∧ Behind whole' rest' (shown ++ eventsOf items) ∧
      Shows fuel whole whole' shown d items := by
  cases d with
  | submit time text =>
    have asking (quiet : Bool) (s : Session) : perform fuel quiet s (.submit time text) =
      (s.submitAt fuel (time, text)).bind fun told => told.1.toOption.map fun response =>
        if quiet then ([.response response], told.2)
        else (told.2.drainConsole.1.toList.map .event ++ [.response response], told.2.drainConsole.2) := rfl
    rw [asking, asking]
    cases submitted : rest.submitAt fuel (time, text) with
    | none =>
      rw [h.submit_none submitted]
      exact .inl ⟨rfl, rfl⟩
    | some told =>
      obtain ⟨answer, next⟩ := told
      obtain ⟨r, rfl, -⟩ := Session.submit_answered (s := rest.atTime time) ready submitted
      obtain ⟨whole', alone, behind⟩ := h.submit submitted
      rw [alone]
      refine .inr ⟨next.world.recorded.map .event ++ [.response r], whole', _, ?_, rfl, ?_,
        .submission time text r _ alone behind.recorded⟩
      · simp [Except.toOption]
      · simpa using behind.drain
  | list c =>
    have remarks := listed_remarks rest c
    refine .inr ⟨listed rest c, whole, rest, ?_, rfl, ?_, .remarks _ _ rfl rfl remarks⟩
    · rw [withoutEvents_remarks remarks, ← h.listed c]
      rfl
    · rw [eventsOf_remarks remarks, List.append_nil]
      exact h
  | refuse path fault =>
    refine .inr ⟨_, whole, rest, rfl, rfl, ?_, .remarks _ _ rfl rfl ?_⟩
    · exact (List.append_nil shown).symm ▸ h
    · intro i mem
      rw [List.mem_singleton.1 mem]
      exact ⟨rfl, rfl⟩

/-- What a deed shows, read off the session that is never drained. -/
theorem perform_shows (h : Behind whole rest shown) (ready : rest.state = .ready) {d : Deed} {items : List Item}
    {next : Session} (done : perform fuel false rest d = some (items, next)) :
    ∃ whole', Behind whole' next (shown ++ eventsOf items) ∧ Shows fuel whole whole' shown d items := by
  rcases perform_behind fuel h ready d with ⟨-, refused⟩ | ⟨_, whole', _, -, noisy, behind, shows⟩
  · rw [done] at refused
    cases refused
  · rw [done] at noisy
    cases noisy
    exact ⟨whole', behind, shows⟩

/-! Runs of two shells. -/

/-- Both shells do the same deeds, and the quiet one shows what the other shows without entries. -/
theorem askEach_perform_behind (fuel : Nat) (h : Behind whole rest shown) (ready : rest.state = .ready)
    (deeds : List Deed) :
    (askEach (perform fuel true) whole deeds).map (fun told => told.1.flatten) =
      (askEach (perform fuel false) rest deeds).map fun told => withoutEvents told.1.flatten := by
  induction deeds generalizing whole rest shown with
  | nil => rfl
  | cons d deeds ih =>
    rw [askEach_cons, askEach_cons]
    rcases perform_behind fuel h ready d with ⟨quiet, noisy⟩ | ⟨items, whole', rest', quiet, noisy, behind, -⟩
    · rw [quiet, noisy]
      rfl
    · have later := ih behind (perform_history fuel false ready noisy).1
      rw [quiet, noisy]
      cases told : askEach (perform fuel true) whole' deeds <;>
        cases told' : askEach (perform fuel false) rest' deeds <;> simp_all

/-- The texts that deeds submit, with their times. -/
def submitted (deeds : List Deed) : List (Nat × String) := deeds.filterMap Deed.submission?

theorem submitted_cons (d : Deed) (deeds : List Deed) :
    submitted (d :: deeds) = d.submission?.toList ++ submitted deeds := by
  unfold submitted
  rw [List.filterMap_cons]
  cases d.submission? <;> rfl

namespace Shows

variable {s s' : Session} {before : List Event} {d : Deed} {items : List Item}

/-- A deed shows as many responses as it submits texts. -/
theorem length_responses (h : Shows fuel s s' before d items) :
    (responsesOf items).length = d.submission?.toList.length := by
  cases h with
  | submission time text r new submitted recorded => simp [Deed.submission?]
  | remarks _ _ silent same remarks => rw [responsesOf_remarks remarks, silent, Option.toList_none]; rfl

/-- The responses that a deed shows answer what it submits. -/
theorem askEach_submit (h : Shows fuel s s' before d items) (later : List (Nat × String)) :
    askEach (Session.submitAt fuel) s (d.submission?.toList ++ later) =
      (askEach (Session.submitAt fuel) s' later).map fun told => ((responsesOf items).map .ok ++ told.1, told.2) := by
  cases h with
  | submission time text r new submitted recorded =>
    have one : (Deed.submit time text).submission?.toList ++ later = (time, text) :: later := rfl
    rw [one, askEach_cons, submitted]
    simp
  | remarks _ _ silent same remarks =>
    rw [responsesOf_remarks remarks, silent, same]
    simp

/-- A response in what a deed and later ones show is a later one, or answers this deed after the entries made since. -/
theorem split (h : Shows fuel s s' before d items) {later earlier after : List Item} {r : Response}
    (all : items ++ later = earlier ++ .response r :: after) :
    (∃ more, earlier = items ++ more ∧ later = more ++ .response r :: after) ∨
    ∃ time text new, d = .submit time text ∧ s.submitAt fuel (time, text) = some (.ok r, s') ∧
      earlier = new.map .event ∧ s'.world.recorded = before ++ new := by
  rcases List.append_eq_append_iff.1 all with ⟨more, first, second⟩ | ⟨more, first, second⟩
  · exact .inl ⟨more, first, second⟩
  · cases more with
    | nil => exact .inl ⟨[], by simpa using first.symm, second.symm⟩
    | cons i more =>
      cases (List.cons.inj second).1
      cases h with
      | remarks _ _ silent same remarks =>
        have among := remarks (.response r) (by rw [first]; simp)
        cases among.2
      | submission time text r' new submitted recorded =>
        -- The response of the deed is its last item, and no entry before it is one.
        rcases List.eq_nil_or_concat more with rfl | ⟨more, i, rfl⟩
        · obtain ⟨rfl, same⟩ := List.append_inj' first rfl
          cases same
          exact .inr ⟨time, text, new, rfl, submitted, rfl, recorded⟩
        · rw [List.concat_eq_append, ← List.cons_append, ← List.append_assoc] at first
          have entries := (List.append_inj' first rfl).1
          have among : Item.response r ∈ new.map Item.event := by rw [entries]; simp
          obtain ⟨e, -, wrong⟩ := List.mem_map.1 among
          cases wrong

end Shows

section Told

variable {last : Session} {deeds : List Deed} {told : List (List Item)}

/-- The responses shown answer the submissions, one each. If anything is submitted, all entries are shown that were
made. -/
theorem shown_of_run (h : Behind whole rest shown) (ready : rest.state = .ready)
    (done : askEach (perform fuel false) rest deeds = some (told, last)) :
    ∃ whole', askEach (Session.submitAt fuel) whole (submitted deeds) =
        some ((responsesOf told.flatten).map .ok, whole') ∧
      shown ++ eventsOf told.flatten = if submitted deeds = [] then shown else whole'.world.recorded := by
  induction deeds generalizing whole rest shown told with
  | nil =>
    cases done
    exact ⟨whole, rfl, by simp [submitted, eventsOf]⟩
  | cons d deeds ih =>
    obtain ⟨items, next, more, first, others, rfl⟩ := askEach_cons_some done
    obtain ⟨middle, behind, shows⟩ := perform_shows h ready first
    obtain ⟨whole', answered, entries⟩ := ih behind (perform_history fuel false ready first).1 others
    rw [List.flatten_cons, submitted_cons]
    refine ⟨whole', ?_, ?_⟩
    · rw [shows.askEach_submit, answered]
      simp
    · rw [eventsOf_append, ← List.append_assoc, entries]
      cases shows with
      | remarks _ _ silent same remarks => simp [silent, eventsOf_remarks remarks]
      | submission time text r new alone recorded =>
        by_cases none : submitted deeds = []
        · rw [none] at answered ⊢
          obtain ⟨-, rfl⟩ := Prod.mk.inj (Option.some.inj answered)
          simp [Deed.submission?, recorded]
        · simp [none]

/-- Before a response all entries are shown, and nothing else of the console, that were made up to the end of the
submission it answers. -/
theorem shown_of_response (h : Behind whole rest shown) (ready : rest.state = .ready)
    (done : askEach (perform fuel false) rest deeds = some (told, last)) {before after : List Item} {r : Response}
    (all : told.flatten = before ++ .response r :: after) :
    ∃ whole', askEach (Session.submitAt fuel) whole ((submitted deeds).take ((responsesOf before).length + 1)) =
        some ((responsesOf before ++ [r]).map .ok, whole') ∧
      shown ++ eventsOf before = whole'.world.recorded := by
  induction deeds generalizing whole rest shown told before with
  | nil =>
    cases done
    simp at all
  | cons d deeds ih =>
    obtain ⟨items, next, more, first, others, rfl⟩ := askEach_cons_some done
    obtain ⟨middle, behind, shows⟩ := perform_shows h ready first
    rw [List.flatten_cons] at all
    rw [submitted_cons]
    rcases shows.split all with ⟨before, rfl, later⟩ | ⟨time, text, new, rfl, alone, rfl, recorded⟩
    · obtain ⟨whole', answered, entries⟩ := ih behind (perform_history fuel false ready first).1 others later
      have count : (responsesOf (items ++ before)).length + 1 =
          d.submission?.toList.length + ((responsesOf before).length + 1) := by
        rw [responsesOf_append, List.length_append, shows.length_responses, Nat.add_assoc]
      refine ⟨whole', ?_, ?_⟩
      · rw [count, List.take_length_add_append, shows.askEach_submit, answered]
        simp
      · rw [eventsOf_append, ← List.append_assoc, entries]
    · refine ⟨middle, ?_, by simp [recorded]⟩
      simp [Deed.submission?, askEach_cons, alone, askEach]

end Told

end Deeds

/-- A base that logs an empty text when it is initialized. Its evaluator opens a group named by the text, warns and
complains of it in the group, marks the time and closes the group. A text of one byte is posted as output, any other as
an error. -/
def Sample.chattyBase : Wasm.Module :=
  .ofEvaluator [.log, .group, .warn, .error, .mark, .groupEnd, .postOutput, .postError] [.i32 0, .i32 0, .call 0]
    [.localGet 0, .localGet 1, .call 1, .localGet 0, .localGet 1, .call 2, .localGet 0, .localGet 1, .call 3,
      .localGet 0, .localGet 1, .call 4, .call 5, .localGet 1, .i32 1, .binary .eq,
      .branch {} [.localGet 0, .localGet 1, .call 6] [.localGet 0, .localGet 1, .call 7]]

/-- Two texts, and between them a command and a file that cannot be read. -/
def Sample.chattyLines : List (Option Line) :=
  [some { text := "a", time := 1500 }, some { text := ":history", time := 1600 }, some { text := ":l x", time := 1700 },
    some { text := "bc", time := 2000000 }]

/-- What is shown for them before the last response. -/
def Sample.chattyItems : List Item :=
  [.event (.message .log 0 ""), .event (.opened 0 "a"), .event (.message .warn 1 "a"), .event (.message .error 1 "a"),
    .event (.mark "a" 1500), .event (.closed 0), .response (.output "a"), .listed "  0  a  => a",
    .refused "; cannot read x: No such file or directory (os error 2)", .event (.opened 0 "bc"),
    .event (.message .warn 1 "bc"), .event (.message .error 1 "bc"), .event (.mark "bc" 2000000), .event (.closed 0)]

/-- What is printed for them. -/
def Sample.chattyPrinted : List Printed :=
  [.out "", .out "▸ a", .err "  warning: a", .err "  error: a", .out "; a at 1.5µs", .out "a", .out "  0  a  => a",
    .err "; cannot read x: No such file or directory (os error 2)", .out "▸ bc", .err "  warning: bc",
    .err "  error: bc", .out "; bc at 2ms"]

/-- A quiet shell shows what one shows that is not quiet, in the same order and with the same end, but for the console
entries. The other one shows, before each response, exactly the entries that a session which is never drained has made
by the end of the submission that is answered, those made while it was loaded first. So the entries of a submission
stand between the response before it and its own; if anything is submitted, none that was made by the end is missing.
What is shown is printed in its order and each item once, but for the ends of groups, with the text and on the stream
that `Prints` gives. -/
theorem console_shown_before_responses {loading : Nat} {engine : Engine} {base : Wasm.Module} {config : Config}
    {log : Array Notice} {s : Session} (loaded : Session.load loading engine base config log = some (.ok s)) (fuel : Nat)
    (read : String → Except ReadFault (List UInt8)) (lines : List (Option Line)) :
    let texts := submitted (Deed.ofBlocks read (cut [] (readable lines)).1)
    loop fuel read true { loaded := .ok s } "" lines =
      (loop fuel read false { loaded := .ok s } "" lines).map (fun ended => (withoutEvents ended.1, ended.2)) ∧
    (∀ items fault, loop fuel read false { loaded := .ok s } "" lines = some (items, fault) →
      (∃ last, askEach (Session.submitAt fuel) s texts = some ((responsesOf items).map .ok, last) ∧
        eventsOf items = if texts = [] then [] else last.world.recorded) ∧
      ∀ before r after, items = before ++ .response r :: after → ∃ next,
        askEach (Session.submitAt fuel) s (texts.take ((responsesOf before).length + 1)) =
          some ((responsesOf before ++ [r]).map .ok, next) ∧
        eventsOf before = next.world.recorded) ∧
    ∀ quiet items fault, loop fuel read quiet { loaded := .ok s } "" lines = some (items, fault) →
      List.Forall₂ Prints (items.filter (!·.isGroupEnd)) (items.filterMap Item.print?) := by
  obtain ⟨ready, -⟩ := Session.load_ok loaded
  have run (quiet : Bool) := loop_eq fuel quiet read ready [] lines
  simp only [blockText_nil] at run
  refine ⟨?_, fun items fault ended => ?_, fun quiet items fault ended => forall₂_prints items⟩
  · have same := askEach_perform_behind fuel (.refl s) ready (Deed.ofBlocks read (cut [] (readable lines)).1)
    rw [run, run]
    have paired := congrArg (Option.map fun items => (items,
      if (cut [] (readable lines)).1.any (fun block => quits (trimmed block)) then none else ending lines)) same
    simpa [Option.map_map, Function.comp_def] using paired
  · rw [run] at ended
    obtain ⟨⟨told, last⟩, done, ended⟩ := Option.map_eq_some_iff.1 ended
    obtain ⟨rfl, -⟩ := Prod.mk.inj ended
    exact ⟨shown_of_run (.refl s) ready done, fun before r after all => shown_of_response (.refl s) ready done all⟩

/-- The entry made while the base was initialized is shown with those of the first text; the command and the file come
before the entries of the second one, and the quiet shell shows them too. -/
theorem entries_between_responses : ∃ s next, Session.load 100 {} Sample.chattyBase {} = some (.ok s) ∧
    loop 100 Sample.files false { loaded := .ok s } "" Sample.chattyLines =
      some (Sample.chattyItems ++ [.response (.error "bc")], none) ∧
    loop 100 Sample.files true { loaded := .ok s } "" Sample.chattyLines =
      some (withoutEvents Sample.chattyItems ++ [.response (.error "bc")], none) ∧
    askEach (Session.submitAt 100) s [(1500, "a"), (2000000, "bc")] =
      some ([.ok (.output "a"), .ok (.error "bc")], next) ∧
    next.world.recorded = eventsOf Sample.chattyItems ∧
    (Sample.chattyItems ++ [Item.response (.error "bc")]).filterMap Item.print? =
      Sample.chattyPrinted ++ [.err "; error: bc"] ∧
    (withoutEvents Sample.chattyItems ++ [Item.response (.error "bc")]).filterMap Item.print? =
      [.out "a", .out "  0  a  => a", .err "; cannot read x: No such file or directory (os error 2)",
        .err "; error: bc"] ∧
    List.Forall₂ Prints ((Sample.chattyItems ++ [Item.response (.error "bc")]).filter (!·.isGroupEnd))
      (Sample.chattyPrinted ++ [.err "; error: bc"]) := by
  have evaluated : ((Session.load 100 {} Sample.chattyBase {}).bind fun loaded => loaded.toOption.bind fun s =>
      loop 100 Sample.files false { loaded := .ok s } "" Sample.chattyLines) =
      some (Sample.chattyItems ++ [.response (.error "bc")], none) := by decide +kernel
  have texts : submitted (Deed.ofBlocks Sample.files (cut [] (readable Sample.chattyLines)).1) =
    [(1500, "a"), (2000000, "bc")] := by decide +kernel
  have printed : (Sample.chattyItems ++ [Item.response (.error "bc")]).filterMap Item.print? =
    Sample.chattyPrinted ++ [.err "; error: bc"] := by decide +kernel
  obtain ⟨loaded, begun, evaluated⟩ := Option.bind_eq_some_iff.1 evaluated
  obtain ⟨s, ok, noisy⟩ := Option.bind_eq_some_iff.1 evaluated
  rw [ok_of_toOption ok] at begun
  obtain ⟨quiet, shown, prints⟩ := console_shown_before_responses begun 100 Sample.files Sample.chattyLines
  obtain ⟨next, told, entries⟩ := (shown _ _ noisy).2 _ _ [] rfl
  rw [texts] at told
  have lines := prints _ _ _ noisy
  rw [printed] at lines
  refine ⟨s, next, begun, noisy, ?_, told, entries.symm, printed, by decide +kernel, lines⟩
  rw [quiet, noisy]
  simp

end Shell

end UnitHost
