import Mathlib
import Portuni.Transcript.Collapsed

/-!
The rows that a list of events without repeated calls makes: what one event adds to them, and what
it leaves alone.
-/

namespace Portuni.Transcript

open EventStream (ChatEvent)

namespace ToolItem

def call : ToolItem → ToolCall
  | .mk _ call _ => call

mutual

def events : ToolItem → List Item
  | .mk seq call subcalls => ⟨seq, .toolCall call⟩ :: eventsAll subcalls

def eventsAll : List ToolItem → List Item
  | [] => []
  | x :: rest => events x ++ eventsAll rest

end

mutual

def Nested : ToolItem → Prop
  | .mk _ call subcalls => NestedAll call.toolUseId subcalls

def NestedAll (parent : String) : List ToolItem → Prop
  | [] => True
  | x :: rest => (x.call.parentToolUseId = some parent ∧ Nested x) ∧ NestedAll parent rest

end

variable {parent id : String} {seq : ℕ} {call : ToolCall}

theorem eventsAll_append (xs ys : List ToolItem) :
    eventsAll (xs ++ ys) = eventsAll xs ++ eventsAll ys := by
  induction xs with
  | nil => rfl
  | cons x xs ih => simp only [List.cons_append, eventsAll, ih, List.append_assoc]

theorem nestedAll_append (xs ys : List ToolItem) :
    NestedAll parent (xs ++ ys) ↔ NestedAll parent xs ∧ NestedAll parent ys := by
  induction xs with
  | nil => simp [NestedAll]
  | cons x xs ih => simp [NestedAll, ih, and_assoc]

theorem call_pushUnder (item x : ToolItem) : (pushUnder parent item x).call = x.call := by
  cases x
  rfl

mutual

theorem filter_pushUnder_of_ne (h : call.toolUseId ≠ id) : (x : ToolItem) →
    (events (pushUnder parent (.mk seq call []) x)).filter (fun e => toolIdOf e = some id) =
      (events x).filter fun e => toolIdOf e = some id
  | .mk seq' call' subcalls => by
      have hnew : (eventsAll (if call'.toolUseId = parent then [ToolItem.mk seq call []] else
          [])).filter (fun e => toolIdOf e = some id) = [] := by
        split
        · simp [eventsAll, events, toolIdOf, callOf, h]
        · rfl
      simp only [pushUnder, events, eventsAll_append, List.filter_cons, List.filter_append, hnew,
        List.append_nil, filter_pushUnderAll_of_ne h subcalls]

theorem filter_pushUnderAll_of_ne (h : call.toolUseId ≠ id) : (xs : List ToolItem) →
    (eventsAll (pushUnderAll parent (.mk seq call []) xs)).filter (fun e => toolIdOf e = some id) =
      (eventsAll xs).filter fun e => toolIdOf e = some id
  | [] => rfl
  | x :: rest => by
      simp only [pushUnderAll, eventsAll, List.filter_append, filter_pushUnder_of_ne h x,
        filter_pushUnderAll_of_ne h rest]

end

mutual

theorem filter_pushUnder_self : (x : ToolItem) →
    (∀ e ∈ events x, toolIdOf e ≠ some call.toolUseId) →
    (events (pushUnder parent (.mk seq call []) x)).filter
        (fun e => toolIdOf e = some call.toolUseId) =
      ((events x).filter fun e => toolIdOf e = some parent).map fun _ => ⟨seq, .toolCall call⟩
  | .mk seq' call' subcalls, hfresh => by
      simp only [events, List.forall_mem_cons] at hfresh
      have hnew : (eventsAll (if call'.toolUseId = parent then [ToolItem.mk seq call []] else
          [])).filter (fun e => toolIdOf e = some call.toolUseId) =
          if call'.toolUseId = parent then [⟨seq, .toolCall call⟩] else [] := by
        split
        · simp [eventsAll, events, toolIdOf, callOf]
        · rfl
      have hroot : ∀ s, toolIdOf ⟨s, .toolCall call'⟩ = some call'.toolUseId := fun s => rfl
      simp only [pushUnder, events, eventsAll_append, List.filter_cons, List.filter_append, hnew,
        filter_pushUnderAll_self subcalls hfresh.2, hroot]
      by_cases heq : call'.toolUseId = parent
      · have hcomm : ∀ n, List.replicate n (⟨seq, .toolCall call⟩ : Item) ++
            [⟨seq, .toolCall call⟩] = ⟨seq, .toolCall call⟩ :: List.replicate n
              ⟨seq, .toolCall call⟩ := fun n => by
          rw [← List.replicate_succ', List.replicate_succ]
        have hne : call'.toolUseId ≠ call.toolUseId := fun h =>
          hfresh.1 (by rw [hroot, h])
        rw [heq] at hne
        simp [heq, hcomm, List.map_const', hne]
      · have hne : call'.toolUseId ≠ call.toolUseId := fun h =>
          hfresh.1 (by rw [hroot, h])
        simp [heq, hne]

theorem filter_pushUnderAll_self : (xs : List ToolItem) →
    (∀ e ∈ eventsAll xs, toolIdOf e ≠ some call.toolUseId) →
    (eventsAll (pushUnderAll parent (.mk seq call []) xs)).filter
        (fun e => toolIdOf e = some call.toolUseId) =
      ((eventsAll xs).filter fun e => toolIdOf e = some parent).map fun _ => ⟨seq, .toolCall call⟩
  | [], _ => rfl
  | x :: rest, hfresh => by
      simp only [eventsAll, List.forall_mem_append] at hfresh
      simp only [pushUnderAll, eventsAll, List.filter_append, List.map_append,
        filter_pushUnder_self x hfresh.1, filter_pushUnderAll_self rest hfresh.2]

end

mutual

theorem nested_pushUnder {item : ToolItem} (hparent : item.call.parentToolUseId = some parent)
    (hitem : Nested item) : (x : ToolItem) → Nested x → Nested (pushUnder parent item x)
  | .mk seq' call' subcalls, h => by
      simp only [pushUnder, Nested, nestedAll_append]
      refine ⟨nestedAll_pushUnderAll hparent hitem subcalls h, ?_⟩
      split
      · next heq => simp [NestedAll, heq, hparent, hitem]
      · trivial

theorem nestedAll_pushUnderAll {item : ToolItem} {id : String}
    (hparent : item.call.parentToolUseId = some parent) (hitem : Nested item) :
    (xs : List ToolItem) → NestedAll id xs → NestedAll id (pushUnderAll parent item xs)
  | [], _ => trivial
  | x :: rest, h => by
      simp only [pushUnderAll, NestedAll, call_pushUnder]
      exact ⟨⟨h.1.1, nested_pushUnder hparent hitem x h.1.2⟩,
        nestedAll_pushUnderAll hparent hitem rest h.2⟩

end

end ToolItem

section

variable {first : String → Option ℕ} {d : Derivation} {e x : Item} {item : ActivityItem}
  {parent id : String} {tool : ToolItem}

namespace ActivityItem

def toolEvents : ActivityItem → List Item
  | .tool x => x.events
  | _ => []

def plain : ActivityItem → List ActivityItem
  | .tool _ => []
  | x => [x]

def Nested : ActivityItem → Prop
  | .tool x => x.Nested
  | _ => True

theorem keySeq_pushUnder (item : ActivityItem) :
    (item.pushUnder parent tool).keySeq first = item.keySeq first := by
  cases item with
  | reasoning => rfl
  | fileChange => rfl
  | tool x =>
    cases x
    simp only [pushUnder, ToolItem.pushUnder, keySeq]

theorem plain_pushUnder (item : ActivityItem) :
    (item.pushUnder parent tool).plain = item.plain := by
  cases item <;> rfl

end ActivityItem

namespace TranscriptRow

def items : TranscriptRow → List ActivityItem
  | .activity group => group.items
  | _ => []

def plainRow : TranscriptRow → Option TranscriptRow
  | .activity _ => none
  | row => some row

theorem items_pushUnder (row : TranscriptRow) :
    (row.pushUnder parent tool).items = row.items.map (ActivityItem.pushUnder parent tool) := by
  cases row <;> rfl

theorem key_pushUnder (row : TranscriptRow) : (row.pushUnder parent tool).key = row.key := by
  cases row <;> rfl

theorem plainRow_pushUnder (row : TranscriptRow) :
    (row.pushUnder parent tool).plainRow = row.plainRow := by
  cases row <;> rfl

end TranscriptRow

namespace Derivation

def items (d : Derivation) : List ActivityItem := d.allRows.flatMap TranscriptRow.items

@[simp]
theorem allRows_pushUnder (d : Derivation) (parent : String) (tool : ToolItem) :
    (d.pushUnder parent tool).allRows = d.allRows.map (TranscriptRow.pushUnder parent tool) := by
  cases h : d.open_ with
  | none => simp [pushUnder, allRows, h]
  | some group => simp [pushUnder, allRows, h, TranscriptRow.pushUnder]

theorem items_push (first : String → Option ℕ) (d : Derivation) (item : ActivityItem) :
    (d.push first item).items = d.items ++ [item] := by
  cases h : d.open_ with
  | none | some group => simp [push, items, allRows, h, TranscriptRow.items]

theorem items_pushUnder (d : Derivation) (parent : String) (tool : ToolItem) :
    (d.pushUnder parent tool).items = d.items.map (ActivityItem.pushUnder parent tool) := by
  simp only [items, allRows_pushUnder, List.flatMap_map, TranscriptRow.items_pushUnder,
    List.map_flatMap]

theorem toolItems_push (first : String → Option ℕ) (d : Derivation) (item : ActivityItem) :
    (d.push first item).toolItems = d.toolItems := by
  unfold push
  split <;> rfl

theorem plainRows_push (first : String → Option ℕ) (d : Derivation) (item : ActivityItem) :
    (d.push first item).allRows.filterMap TranscriptRow.plainRow =
      d.allRows.filterMap TranscriptRow.plainRow := by
  cases h : d.open_ with
  | none => simp [push, allRows, h, TranscriptRow.plainRow]
  | some group => simp [push, allRows, h, TranscriptRow.plainRow, List.filterMap_cons]

theorem plainRows_pushUnder (d : Derivation) (parent : String) (tool : ToolItem) :
    (d.pushUnder parent tool).allRows.filterMap TranscriptRow.plainRow =
      d.allRows.filterMap TranscriptRow.plainRow := by
  rw [allRows_pushUnder, List.filterMap_map]
  refine List.filterMap_congr fun row _ => TranscriptRow.plainRow_pushUnder row

theorem keys_pushUnder (d : Derivation) (parent : String) (tool : ToolItem) :
    (d.pushUnder parent tool).allRows.map TranscriptRow.key = d.allRows.map TranscriptRow.key := by
  rw [allRows_pushUnder, List.map_map]
  exact List.map_congr_left fun row _ => TranscriptRow.key_pushUnder row

end Derivation

def shownAs (e : Item) : Option TranscriptRow :=
  match e.event with
  | .userMessage text => some (.prompt (eventKey e.seq) text)
  | .assistantMessage text => some (.answer (eventKey e.seq) text)
  | .question title code params => some (.question (eventKey e.seq) title (truthy code)
      (if (truthy code).isSome then params else none))
  | .compaction => some (.compaction (eventKey e.seq))
  | .handoff => some (.summary (eventKey e.seq))
  | .error message code params => some (.error (eventKey e.seq) message (truthy code)
      (if (truthy code).isSome then params else none) code.isNone)
  | .runStarted _ resume _ =>
    if resume = some .handoff then some (.resumedFromHandoff (eventKey e.seq)) else none
  | .runEnded _ reason =>
    match reason with
    | .interrupted => some (.interrupted (eventKey e.seq))
    | .completed | .suspended => none
    | .error | .limit | .hostLost => some (.runEnded (eventKey e.seq) reason)
  | _ => none

def itemOf (e : Item) : Option ActivityItem :=
  match e.event with
  | .reasoning summary durationMs => some (.reasoning e.seq summary durationMs)
  | .toolCall call => some (.tool (.mk e.seq call []))
  | .fileChange path op => some (.fileChange e.seq path op)
  | _ => none

/-- The events that close the open group: an answer, a prompt, a run's boundary and the other
rows. -/
def isBoundary (e : Item) : Bool :=
  match e.event with
  | .userMessage _ | .assistantMessage _ | .runStarted _ _ _ | .runEnded _ _ | .question _ _ _
  | .compaction | .handoff | .error _ _ _ => true
  | _ => false

structure Closes (d d' : Derivation) (row : Option TranscriptRow) : Prop where
  rows : d'.rows = d.allRows ++ row.toList
  open_ : d'.open_ = none
  toolItems : d'.toolItems = d.toolItems

theorem Closes.allRows {d' : Derivation} {row : Option TranscriptRow} (h : Closes d d' row) :
    d'.allRows = d.allRows ++ row.toList := by
  rw [Derivation.allRows, h.rows, h.open_]
  simp

theorem closes_pushRow (d : Derivation) (row : TranscriptRow) :
    Closes d (d.pushRow row) (some row) where
  rows := rfl
  open_ := rfl
  toolItems := rfl

theorem step_other (first : String → Option ℕ) (d : Derivation) (h : toolIdOf e = none) :
    (isBoundary e = true ∧ itemOf e = none ∧ Closes d (d.step first e) (shownAs e)) ∨
      (isBoundary e = false ∧ shownAs e = none ∧ ∃ item, itemOf e = some item ∧
        d.step first e = d.push first item) ∨
      (isBoundary e = false ∧ shownAs e = none ∧ itemOf e = none ∧ d.step first e = d) := by
  unfold Derivation.step shownAs itemOf isBoundary
  unfold toolIdOf callOf at h
  cases hevent : e.event with
  | toolCall call =>
    rw [hevent] at h
    cases h
  | userMessage | assistantMessage | question | compaction | handoff | error =>
    exact .inl ⟨rfl, rfl, closes_pushRow d _⟩
  | reasoning | fileChange => exact .inr (.inl ⟨rfl, rfl, _, rfl, rfl⟩)
  | turnEnded | stateChanged | contextUsage => exact .inr (.inr ⟨rfl, rfl, rfl, rfl⟩)
  | runStarted runId resume carried =>
    refine .inl ⟨rfl, rfl, ?_⟩
    dsimp only
    split
    · exact ⟨rfl, rfl, rfl⟩
    · exact ⟨(List.append_nil _).symm, rfl, rfl⟩
  | runEnded runId reason =>
    refine .inl ⟨rfl, rfl, ?_⟩
    cases reason with
    | completed | suspended => exact ⟨(List.append_nil _).symm, rfl, rfl⟩
    | interrupted | error | limit | hostLost => exact ⟨rfl, rfl, rfl⟩

variable {call : ToolCall}

theorem step_call (first : String → Option ℕ) (d : Derivation) (h : e.event = .toolCall call) :
    (∃ parent, d.parentOf call = some parent ∧ d.step first e =
        { d with toolItems := call.toolUseId :: d.toolItems }.pushUnder parent
          (.mk e.seq call [])) ∨
      (d.parentOf call = none ∧ d.step first e =
        { d with toolItems := call.toolUseId :: d.toolItems }.push first
          (.tool (.mk e.seq call []))) := by
  unfold Derivation.step
  rw [h]
  dsimp only
  cases hparent : d.parentOf call with
  | some parent => exact .inl ⟨parent, rfl, rfl⟩
  | none => exact .inr ⟨rfl, rfl⟩

variable (h : e.event = .toolCall call)

include h

theorem shownAs_toolCall : shownAs e = none := by
  rw [shownAs, h]

theorem itemOf_toolCall : itemOf e = some (.tool (.mk e.seq call [])) := by
  rw [itemOf, h]

theorem isBoundary_toolCall : isBoundary e = false := by
  rw [isBoundary, h]

omit h

theorem shownAs_plain {row : TranscriptRow} (h : shownAs e = some row) :
    row.plainRow = some row ∧ row.items = [] ∧ row.key = eventKey e.seq := by
  unfold shownAs at h
  cases hevent : e.event with
  | toolCall | reasoning | fileChange | turnEnded | stateChanged | contextUsage =>
    rw [hevent] at h
    cases h
  | userMessage | assistantMessage | question | compaction | handoff | error =>
    rw [hevent] at h
    cases h
    exact ⟨rfl, rfl, rfl⟩
  | runStarted runId resume carried =>
    rw [hevent] at h
    dsimp only at h
    split at h
    · cases h
      exact ⟨rfl, rfl, rfl⟩
    · cases h
  | runEnded runId reason =>
    rw [hevent] at h
    cases reason with
    | completed | suspended => cases h
    | interrupted | error | limit | hostLost =>
      cases h
      exact ⟨rfl, rfl, rfl⟩

theorem plainRows_step (first : String → Option ℕ) (d : Derivation) (e : Item) :
    (d.step first e).allRows.filterMap TranscriptRow.plainRow =
      d.allRows.filterMap TranscriptRow.plainRow ++ (shownAs e).toList := by
  cases he : callOf e with
  | none =>
    have h : toolIdOf e = none := by rw [toolIdOf, he, Option.map_none]
    rcases step_other first d h with ⟨-, -, hcloses⟩ | ⟨-, hshown, item, -, heq⟩ |
        ⟨-, hshown, -, heq⟩
    · rw [hcloses.allRows, List.filterMap_append]
      congr 1
      cases hshown : shownAs e with
      | none => rfl
      | some row => simp [(shownAs_plain hshown).1]
    · rw [heq, hshown, Derivation.plainRows_push]
      simp
    · rw [heq, hshown]
      simp
  | some call =>
    have hcall := exists_call he
    rw [shownAs_toolCall hcall, Option.toList_none, List.append_nil]
    rcases step_call first d hcall with ⟨parent, -, heq⟩ | ⟨-, heq⟩
    · rw [heq, Derivation.plainRows_pushUnder]
      rfl
    · rw [heq, Derivation.plainRows_push]
      rfl

theorem items_step_other (first : String → Option ℕ) (d : Derivation) (h : toolIdOf e = none) :
    (d.step first e).items = d.items ++ (itemOf e).toList ∧
      (d.step first e).toolItems = d.toolItems := by
  rcases step_other first d h with ⟨-, hitem, hcloses⟩ | ⟨-, -, item, hitem, heq⟩ |
      ⟨-, -, hitem, heq⟩
  · refine ⟨?_, hcloses.toolItems⟩
    rw [Derivation.items, hcloses.allRows, List.flatMap_append, hitem]
    congr 1
    cases hshown : shownAs e with
    | none => rfl
    | some row => simp [(shownAs_plain hshown).2.1]
  · rw [heq, hitem, Derivation.items_push, Derivation.toolItems_push]
    exact ⟨rfl, rfl⟩
  · rw [heq, hitem]
    exact ⟨(List.append_nil _).symm, rfl⟩

end

section

variable {first : String → Option ℕ} {d : Derivation} {e x : Item} {events : List Item}
  {parent id : String} {call : ToolCall} {seq : ℕ}

def plainItemOf (e : Item) : Option ActivityItem :=
  if (toolIdOf e).isSome then none else itemOf e

theorem filter_items_of_ne (h : call.toolUseId ≠ id) (items : List ActivityItem) :
    ((items.map (ActivityItem.pushUnder parent (.mk seq call []))).flatMap
        ActivityItem.toolEvents).filter (fun e => toolIdOf e = some id) =
      (items.flatMap ActivityItem.toolEvents).filter fun e => toolIdOf e = some id := by
  rw [List.flatMap_map, List.filter_flatMap, List.filter_flatMap]
  refine List.flatMap_congr fun item _ => ?_
  cases item with
  | tool x => exact ToolItem.filter_pushUnder_of_ne h x
  | reasoning | fileChange => rfl

theorem filter_items_self (items : List ActivityItem)
    (hfresh : ∀ e ∈ items.flatMap ActivityItem.toolEvents, toolIdOf e ≠ some call.toolUseId) :
    ((items.map (ActivityItem.pushUnder parent (.mk seq call []))).flatMap
        ActivityItem.toolEvents).filter (fun e => toolIdOf e = some call.toolUseId) =
      ((items.flatMap ActivityItem.toolEvents).filter fun e => toolIdOf e = some parent).map
        fun _ => ⟨seq, .toolCall call⟩ := by
  rw [List.flatMap_map, List.filter_flatMap, List.filter_flatMap, List.map_flatMap]
  refine List.flatMap_congr fun item hitem => ?_
  cases item with
  | tool x =>
    refine ToolItem.filter_pushUnder_self x fun e he => ?_
    exact hfresh e (List.mem_flatMap.mpr ⟨_, hitem, he⟩)
  | reasoning | fileChange => rfl

theorem nested_pushUnder {item : ActivityItem} (h : item.Nested)
    (hparent : call.parentToolUseId = some parent) :
    (item.pushUnder parent (.mk seq call [])).Nested := by
  cases item with
  | tool x =>
    have hnew : (ToolItem.mk seq call []).call.parentToolUseId = some parent := hparent
    exact ToolItem.nested_pushUnder hnew trivial x h
  | reasoning | fileChange => trivial

structure Accounts (events : List Item) (d : Derivation) : Prop where
  known : ∀ id, id ∈ d.toolItems ↔ ∃ x ∈ events, toolIdOf x = some id
  calls : ∀ id, (d.items.flatMap ActivityItem.toolEvents).filter (fun e => toolIdOf e = some id) =
    events.filter fun e => toolIdOf e = some id
  nested : ∀ item ∈ d.items, item.Nested
  plain : d.items.flatMap ActivityItem.plain = events.filterMap plainItemOf

theorem accounts_start : Accounts [] {} where
  known id := by simp
  calls id := rfl
  nested item h := by cases h
  plain := rfl

theorem Accounts.other (hd : Accounts events d) (h : toolIdOf e = none) :
    Accounts (events ++ [e]) (d.step first e) := by
  obtain ⟨hitems, htoolItems⟩ := items_step_other first d h
  have htool : ∀ item ∈ itemOf e, item.toolEvents = [] ∧ item.Nested ∧ item.plain = [item] := by
    intro item hitem
    unfold itemOf at hitem
    unfold toolIdOf callOf at h
    cases hevent : e.event <;> simp [hevent] at h hitem <;> subst hitem <;>
      exact ⟨rfl, trivial, rfl⟩
  refine ⟨fun id => ?_, fun id => ?_, fun item hitem => ?_, ?_⟩
  · rw [htoolItems, hd.known]
    simp [h]
  · rw [hitems, List.flatMap_append, List.filter_append, hd.calls, List.filter_append]
    congr 1
    cases hitem : itemOf e with
    | none => simp [h]
    | some item => simp [h, (htool item hitem).1]
  · rw [hitems] at hitem
    rcases List.mem_append.mp hitem with hitem | hitem
    · exact hd.nested item hitem
    · exact (htool item (Option.mem_toList.mp hitem)).2.1
  · rw [hitems, List.flatMap_append, List.filterMap_append, hd.plain]
    congr 1
    cases hitem : itemOf e with
    | none => simp [plainItemOf, h, hitem]
    | some item => simp [plainItemOf, h, hitem, (htool item hitem).2.2]

theorem Accounts.toolCall (hd : Accounts events d) (h : e.event = .toolCall call)
    (hfresh : ∀ x ∈ events, toolIdOf x ≠ some call.toolUseId)
    (hlone : ∀ id, (events.filter fun x => toolIdOf x = some id).length ≤ 1)
    (hself : call.parentToolUseId ≠ some call.toolUseId) :
    Accounts (events ++ [e]) (d.step first e) := by
  have hid := toolIdOf_toolCall h
  have he : e = ⟨e.seq, .toolCall call⟩ := by rw [← h]
  have htoolItems : (d.step first e).toolItems = call.toolUseId :: d.toolItems := by
    rcases step_call first d h with ⟨parent, -, heq⟩ | ⟨-, heq⟩
    · rw [heq]
      rfl
    · rw [heq, Derivation.toolItems_push]
  have hknown : ∀ id, id ∈ (d.step first e).toolItems ↔
      ∃ x ∈ events ++ [e], toolIdOf x = some id := by
    intro id
    rw [htoolItems, List.mem_cons, hd.known]
    constructor
    · rintro (rfl | ⟨x, hx, hxid⟩)
      · exact ⟨e, by simp, hid⟩
      · exact ⟨x, List.mem_append_left _ hx, hxid⟩
    · rintro ⟨x, hx, hxid⟩
      rcases List.mem_append.mp hx with hx | hx
      · exact .inr ⟨x, hx, hxid⟩
      · rw [List.mem_singleton.mp hx, hid] at hxid
        exact .inl (Option.some.inj hxid).symm
  have hnone : events.filter (fun x => toolIdOf x = some call.toolUseId) = [] := by
    simpa [List.filter_eq_nil_iff] using hfresh
  have hplain : (events ++ [e]).filterMap plainItemOf = events.filterMap plainItemOf := by
    simp [plainItemOf, hid]
  rcases step_call first d h with ⟨parent, hparent, heq⟩ | ⟨-, heq⟩
  · have hitems : (d.step first e).items =
        d.items.map (ActivityItem.pushUnder parent (.mk e.seq call [])) := by
      rw [heq, Derivation.items_pushUnder]
      rfl
    obtain ⟨htruthy, hmem⟩ := Option.filter_eq_some_iff.mp hparent
    have hnamed : call.parentToolUseId = some parent :=
      (Option.filter_eq_some_iff.mp htruthy).1
    have hold : parent ∈ d.toolItems := by
      have hin : parent ∈ call.toolUseId :: d.toolItems := of_decide_eq_true hmem
      rcases List.mem_cons.mp hin with rfl | hin
      · exact absurd hnamed hself
      · exact hin
    refine ⟨hknown, fun id => ?_, fun item hitem => ?_, ?_⟩
    · rw [hitems, List.filter_append]
      by_cases heq : call.toolUseId = id
      · subst heq
        rw [filter_items_self, hd.calls, hnone]
        · obtain ⟨x, hx, hxid⟩ := (hd.known parent).mp hold
          have hone : (events.filter fun x => toolIdOf x = some parent).length = 1 := by
            refine Nat.le_antisymm (hlone parent) (List.length_pos_iff.mpr ?_)
            exact List.ne_nil_of_mem (List.mem_filter.mpr ⟨hx, decide_eq_true hxid⟩)
          obtain ⟨y, hy⟩ := List.length_eq_one_iff.mp hone
          rw [hy]
          simp [hid, ← he]
        · intro x hx hxid
          have hin : x ∈ (d.items.flatMap ActivityItem.toolEvents).filter
              fun e => toolIdOf e = some call.toolUseId :=
            List.mem_filter.mpr ⟨hx, decide_eq_true hxid⟩
          rw [hd.calls, hnone] at hin
          cases hin
      · rw [filter_items_of_ne heq, hd.calls]
        simp [hid, heq]
    · rw [hitems] at hitem
      obtain ⟨item₀, hitem₀, rfl⟩ := List.mem_map.mp hitem
      exact nested_pushUnder (hd.nested item₀ hitem₀) hnamed
    · rw [hplain, hitems, List.flatMap_map, ← hd.plain]
      exact List.flatMap_congr fun item _ => ActivityItem.plain_pushUnder item
  · have hitems : (d.step first e).items = d.items ++ [.tool (.mk e.seq call [])] := by
      rw [heq, Derivation.items_push]
      rfl
    have hevents : ActivityItem.toolEvents (.tool (.mk e.seq call [])) = [e] := by
      simp only [ActivityItem.toolEvents, ToolItem.events, ToolItem.eventsAll, ← he]
    refine ⟨hknown, fun id => ?_, fun item hitem => ?_, ?_⟩
    · rw [hitems, List.flatMap_append, List.filter_append, hd.calls, List.filter_append]
      simp [hevents]
    · rw [hitems] at hitem
      rcases List.mem_append.mp hitem with hitem | hitem
      · exact hd.nested item hitem
      · rw [List.mem_singleton.mp hitem]
        trivial
    · rw [hplain, hitems, List.flatMap_append, hd.plain]
      simp [ActivityItem.plain]

theorem accounts_foldl (first : String → Option ℕ) (events : List Item)
    (hlone : ∀ id, (events.filter fun x => toolIdOf x = some id).length ≤ 1)
    (hself : ∀ x ∈ events, ∀ call, x.event = .toolCall call →
      call.parentToolUseId ≠ some call.toolUseId) :
    Accounts events (events.foldl (Derivation.step first) {}) := by
  induction events using List.reverseRecOn with
  | nil => exact accounts_start
  | append_singleton events e ih =>
    have hlone' : ∀ id, (events.filter fun x => toolIdOf x = some id).length ≤ 1 := by
      intro id
      have h := hlone id
      rw [List.filter_append, List.length_append] at h
      omega
    have hd := ih hlone' fun x hx => hself x (List.mem_append_left _ hx)
    rw [List.foldl_append]
    cases he : callOf e with
    | none => exact hd.other (by rw [toolIdOf, he, Option.map_none])
    | some call =>
      have hcall := exists_call he
      refine hd.toolCall hcall (fun x hx hxid => ?_) hlone' (hself e (by simp) call hcall)
      have h := hlone call.toolUseId
      have hmem : x ∈ events.filter fun x => toolIdOf x = some call.toolUseId :=
        List.mem_filter.mpr ⟨hx, decide_eq_true hxid⟩
      have hpos := List.length_pos_of_mem hmem
      have hone : [e].filter (fun x => toolIdOf x = some call.toolUseId) = [e] := by
        simp [toolIdOf_toolCall hcall]
      rw [List.filter_append, List.length_append, hone, List.length_singleton] at h
      omega

end

section

variable {first : String → Option ℕ} {d : Derivation} {e : Item} {events : List Item}

def placeOf (first : String → Option ℕ) (e : Item) : ℕ :=
  ((itemOf e).map (ActivityItem.keySeq first)).getD e.seq

structure Segments (first : String → Option ℕ) (events : List Item) (d : Derivation) : Prop where
  placed : ∀ row ∈ d.allRows, ∀ x ∈ row.items, ∃ e ∈ events, placeOf first e = x.keySeq first
  groups : ∀ row ∈ d.allRows, ∀ x ∈ row.items, ∀ y ∈ row.items, ∀ b ∈ events,
    isBoundary b = true → x.keySeq first < b.seq → y.keySeq first < b.seq
  open_ : ∀ group, d.open_ = some group → ∀ x ∈ group.items, ∀ b ∈ events,
    isBoundary b = true → b.seq < x.keySeq first

theorem segments_start : Segments first [] {} where
  placed row h := by cases h
  groups row h := by cases h
  open_ group h := by cases h

theorem placeOf_boundary (h : itemOf e = none) : placeOf first e = e.seq := by
  rw [placeOf, h]
  rfl

theorem itemOf_boundary (h : isBoundary e = true) : itemOf e = none := by
  unfold isBoundary at h
  unfold itemOf
  cases hevent : e.event <;> simp [hevent] at h ⊢

theorem Segments.mono {d' : Derivation} (hd : Segments first events d)
    (hnew : isBoundary e = true → ∀ x ∈ events, placeOf first x < e.seq)
    (hrows : ∀ row' ∈ d'.allRows, row'.items = [] ∨ ∃ row ∈ d.allRows,
      row'.items.map (ActivityItem.keySeq first) = row.items.map (ActivityItem.keySeq first))
    (hopen : isBoundary e = true ∧ d'.open_ = none ∨ isBoundary e = false ∧
      ∀ group', d'.open_ = some group' → ∃ group, d.open_ = some group ∧
        group'.items.map (ActivityItem.keySeq first) =
          group.items.map (ActivityItem.keySeq first)) :
    Segments first (events ++ [e]) d' := by
  have hback : ∀ {xs ys : List ActivityItem} {x : ActivityItem},
      xs.map (ActivityItem.keySeq first) = ys.map (ActivityItem.keySeq first) → x ∈ xs →
        ∃ y ∈ ys, y.keySeq first = x.keySeq first := by
    intro xs ys x heq hx
    have hmem : x.keySeq first ∈ ys.map (ActivityItem.keySeq first) :=
      heq ▸ List.mem_map_of_mem hx
    exact List.mem_map.mp hmem
  have hrow : ∀ row' ∈ d'.allRows, ∀ x ∈ row'.items, ∃ row ∈ d.allRows,
      row'.items.map (ActivityItem.keySeq first) = row.items.map (ActivityItem.keySeq first) := by
    intro row' hrow' x hx
    rcases hrows row' hrow' with hnone | hold
    · rw [hnone] at hx
      cases hx
    · exact hold
  refine ⟨fun row' hrow' x hx => ?_, fun row' hrow' x hx y hy b hb hboundary hlt => ?_,
    fun group' hgroup' x hx b hb hboundary => ?_⟩
  · obtain ⟨row, hmem, heq⟩ := hrow row' hrow' x hx
    obtain ⟨x₀, hx₀, hsame⟩ := hback heq hx
    obtain ⟨e₀, he₀, hplace⟩ := hd.placed row hmem x₀ hx₀
    exact ⟨e₀, List.mem_append_left _ he₀, hplace.trans hsame⟩
  · obtain ⟨row, hmem, heq⟩ := hrow row' hrow' x hx
    obtain ⟨x₀, hx₀, hxsame⟩ := hback heq hx
    obtain ⟨y₀, hy₀, hysame⟩ := hback heq hy
    rcases List.mem_append.mp hb with hb | hb
    · rw [← hysame]
      exact hd.groups row hmem x₀ hx₀ y₀ hy₀ b hb hboundary (hxsame ▸ hlt)
    · obtain rfl := List.mem_singleton.mp hb
      obtain ⟨e₀, he₀, hplace⟩ := hd.placed row hmem y₀ hy₀
      have := hnew hboundary e₀ he₀
      omega
  · rcases hopen with ⟨-, hnone⟩ | ⟨hnot, hopen⟩
    · rw [hnone] at hgroup'
      cases hgroup'
    · obtain ⟨group, hgroup, heq⟩ := hopen group' hgroup'
      obtain ⟨x₀, hx₀, hsame⟩ := hback heq hx
      rcases List.mem_append.mp hb with hb | hb
      · rw [← hsame]
        exact hd.open_ group hgroup x₀ hx₀ b hb hboundary
      · rw [List.mem_singleton.mp hb, hnot] at hboundary
        cases hboundary

theorem mem_allRows_open {group : ActivityRow} (h : d.open_ = some group) :
    .activity group ∈ d.allRows := by
  simp [Derivation.allRows, h]

theorem Segments.push {d₀ : Derivation} {item : ActivityItem} (hd : Segments first events d)
    (hsame : d₀.allRows = d.allRows ∧ d₀.open_ = d.open_) (hitem : itemOf e = some item)
    (hnot : isBoundary e = false) (hnew : ∀ x ∈ events, placeOf first x < item.keySeq first) :
    Segments first (events ++ [e]) (d₀.push first item) := by
  have hplace : placeOf first e = item.keySeq first := by
    rw [placeOf, hitem]
    rfl
  have hbefore : ∀ b ∈ events ++ [e], isBoundary b = true → b ∈ events := by
    intro b hb hboundary
    rcases List.mem_append.mp hb with hb | hb
    · exact hb
    · rw [List.mem_singleton.mp hb, hnot] at hboundary
      cases hboundary
  have hlast : ∀ b ∈ events, isBoundary b = true → b.seq < item.keySeq first := by
    intro b hb hboundary
    have := hnew b hb
    rwa [placeOf_boundary (itemOf_boundary hboundary)] at this
  have hclosed : ∀ row ∈ d.rows, ∀ x ∈ row.items, row ∈ d.allRows := by
    intro row hrow _ _
    exact List.mem_append_left _ hrow
  have hrows : d₀.rows = d.rows := by
    have hall := hsame.1
    rw [Derivation.allRows, Derivation.allRows, hsame.2] at hall
    exact List.append_cancel_right hall
  -- The items of the open group, with the new one.
  obtain ⟨old, group', hopen', hitems, hold⟩ : ∃ old group',
      (d₀.push first item).open_ = some group' ∧ group'.items = old ++ [item] ∧
        (old = [] ∨ ∃ group, d.open_ = some group ∧ group.items = old) := by
    unfold Derivation.push
    cases hgroup : d.open_ with
    | none =>
      rw [hsame.2, hgroup]
      exact ⟨[], _, rfl, rfl, .inl rfl⟩
    | some group =>
      rw [hsame.2, hgroup]
      exact ⟨group.items, _, rfl, rfl, .inr ⟨group, rfl, rfl⟩⟩
  have hrows' : (d₀.push first item).rows = d.rows := by
    rw [← hrows]
    unfold Derivation.push
    split <;> rfl
  have hallRows : (d₀.push first item).allRows = d.rows ++ [.activity group'] := by
    rw [Derivation.allRows, hrows', hopen']
    rfl
  have holdItems : ∀ x ∈ old, (∃ e₀ ∈ events, placeOf first e₀ = x.keySeq first) ∧
      ∀ b ∈ events, isBoundary b = true → b.seq < x.keySeq first := by
    intro x hx
    rcases hold with rfl | ⟨group, hgroup, rfl⟩
    · cases hx
    · exact ⟨hd.placed _ (mem_allRows_open hgroup) x hx, hd.open_ group hgroup x hx⟩
  have hafter : ∀ x ∈ group'.items, ∀ b ∈ events ++ [e], isBoundary b = true →
      b.seq < x.keySeq first := by
    intro x hx b hb hboundary
    rw [hitems] at hx
    rcases List.mem_append.mp hx with hx | hx
    · exact (holdItems x hx).2 b (hbefore b hb hboundary) hboundary
    · rw [List.mem_singleton.mp hx]
      exact hlast b (hbefore b hb hboundary) hboundary
  refine ⟨fun row hrow x hx => ?_, fun row hrow x hx y hy b hb hboundary hlt => ?_,
    fun group hgroup x hx b hb hboundary => ?_⟩
  · rw [hallRows] at hrow
    rcases List.mem_append.mp hrow with hrow | hrow
    · obtain ⟨e₀, he₀, hp⟩ := hd.placed row (hclosed row hrow x hx) x hx
      exact ⟨e₀, List.mem_append_left _ he₀, hp⟩
    · rw [List.mem_singleton.mp hrow, TranscriptRow.items, hitems] at hx
      rcases List.mem_append.mp hx with hx | hx
      · obtain ⟨e₀, he₀, hp⟩ := (holdItems x hx).1
        exact ⟨e₀, List.mem_append_left _ he₀, hp⟩
      · rw [List.mem_singleton.mp hx]
        exact ⟨e, by simp, hplace⟩
  · rw [hallRows] at hrow
    rcases List.mem_append.mp hrow with hrow | hrow
    · exact hd.groups row (hclosed row hrow x hx) x hx y hy b (hbefore b hb hboundary) hboundary hlt
    · rw [List.mem_singleton.mp hrow] at hx
      exact absurd hlt (Nat.lt_asymm (hafter x hx b hb hboundary))
  · rw [hopen'] at hgroup
    cases hgroup
    exact hafter x hx b hb hboundary

theorem keySeqs_pushUnder (items : List ActivityItem) (parent : String) (tool : ToolItem) :
    (items.map (ActivityItem.pushUnder parent tool)).map (ActivityItem.keySeq first) =
      items.map (ActivityItem.keySeq first) := by
  rw [List.map_map]
  exact List.map_congr_left fun item _ => ActivityItem.keySeq_pushUnder item

theorem segments_foldl (events : List Item)
    (hplaces : (events.map (placeOf first)).Pairwise (· < ·)) :
    Segments first events (events.foldl (Derivation.step first) {}) := by
  induction events using List.reverseRecOn with
  | nil => exact segments_start
  | append_singleton events e ih =>
    rw [List.map_append, List.pairwise_append] at hplaces
    obtain ⟨hplaces, -, hlast⟩ := hplaces
    have hnew : ∀ x ∈ events, placeOf first x < placeOf first e := fun x hx =>
      hlast _ (List.mem_map_of_mem hx) _ (List.mem_singleton.mpr rfl)
    have hd := ih hplaces
    rw [List.foldl_append, List.foldl_cons, List.foldl_nil]
    generalize events.foldl (Derivation.step first) {} = d at hd
    cases he : callOf e with
    | none =>
      have h : toolIdOf e = none := by rw [toolIdOf, he, Option.map_none]
      rcases step_other first d h with ⟨hboundary, hitem, hcloses⟩ |
          ⟨hnot, -, item, hitem, heq⟩ | ⟨hnot, -, -, heq⟩
      · refine hd.mono (fun _ => ?_) (fun row' hrow' => ?_) (.inl ⟨hboundary, hcloses.open_⟩)
        · rwa [placeOf_boundary hitem] at hnew
        · rw [hcloses.allRows] at hrow'
          rcases List.mem_append.mp hrow' with hrow' | hrow'
          · exact .inr ⟨row', hrow', rfl⟩
          · exact .inl (shownAs_plain (Option.mem_toList.mp hrow')).2.1
      · rw [heq]
        have hplace : placeOf first e = item.keySeq first := by
          rw [placeOf, hitem]
          rfl
        exact hd.push ⟨rfl, rfl⟩ hitem hnot (hplace ▸ hnew)
      · rw [heq]
        refine hd.mono (fun hboundary => ?_) (fun row' hrow' => .inr ⟨row', hrow', rfl⟩)
          (.inr ⟨hnot, fun group' hgroup' => ⟨group', hgroup', rfl⟩⟩)
        rw [hnot] at hboundary
        cases hboundary
    | some call =>
      have hcall := exists_call he
      have hnot := isBoundary_toolCall hcall
      rcases step_call first d hcall with ⟨parent, -, heq⟩ | ⟨-, heq⟩
      · rw [heq]
        refine hd.mono (fun hboundary => ?_) (fun row' hrow' => ?_)
          (.inr ⟨hnot, fun group' hgroup' => ?_⟩)
        · rw [hnot] at hboundary
          cases hboundary
        · rw [Derivation.allRows_pushUnder] at hrow'
          obtain ⟨row, hrow, rfl⟩ := List.mem_map.mp hrow'
          refine .inr ⟨row, hrow, ?_⟩
          rw [TranscriptRow.items_pushUnder, keySeqs_pushUnder]
        · obtain ⟨group, hgroup, rfl⟩ := Option.map_eq_some_iff.mp hgroup'
          exact ⟨group, hgroup, keySeqs_pushUnder _ _ _⟩
      · rw [heq]
        have hitem := itemOf_toolCall hcall
        have hplace : placeOf first e =
            ActivityItem.keySeq first (.tool (.mk e.seq call [])) := by
          rw [placeOf, hitem]
          rfl
        exact hd.push ⟨rfl, rfl⟩ hitem hnot (hplace ▸ hnew)

end

variable {first : String → Option ℕ} {d : Derivation} {e : Item} {events : List Item}

inductive Shape where
  /-- It closes the open group, and may bring a row. -/
  | row (key : Option String)
  | item (key : String)
  | call (id : String) (parent : Option String) (key : String)
  | nothing

def shapeOf (first : String → Option ℕ) (e : Item) : Shape :=
  match callOf e with
  | some call =>
    .call call.toolUseId (truthy call.parentToolUseId) (activityKey (placeOf first e))
  | none =>
    if isBoundary e then .row ((shownAs e).map TranscriptRow.key)
    else if (itemOf e).isSome then .item (activityKey (placeOf first e))
    else .nothing

structure Skeleton where
  keys : List String := []
  open_ : Bool := false
  known : List String := []

namespace Skeleton

def push (s : Skeleton) (key : String) : Skeleton :=
  { s with keys := if s.open_ then s.keys else s.keys ++ [key], open_ := true }

def step (s : Skeleton) : Shape → Skeleton
  | .row key => { s with keys := s.keys ++ key.toList, open_ := false }
  | .item key => s.push key
  | .call id parent key =>
    let known := { s with known := id :: s.known }
    if (parent.filter fun p => p ∈ id :: s.known).isSome then known else known.push key
  | .nothing => s

end Skeleton

def Derivation.skeleton (d : Derivation) : Skeleton where
  keys := d.allRows.map TranscriptRow.key
  open_ := d.open_.isSome
  known := d.toolItems

theorem skeleton_push (first : String → Option ℕ) (d : Derivation) (item : ActivityItem) :
    (d.push first item).skeleton = d.skeleton.push (activityKey (item.keySeq first)) := by
  cases h : d.open_ with
  | none => simp [Derivation.push, Derivation.skeleton, Skeleton.push, h, Derivation.allRows,
      TranscriptRow.key]
  | some group => simp [Derivation.push, Derivation.skeleton, Skeleton.push, h,
      Derivation.allRows, TranscriptRow.key]

theorem placeOf_of_item {item : ActivityItem} (h : itemOf e = some item) :
    placeOf first e = item.keySeq first := by
  rw [placeOf, h]
  rfl

theorem skeleton_step (first : String → Option ℕ) (d : Derivation) (e : Item) :
    (d.step first e).skeleton = d.skeleton.step (shapeOf first e) := by
  unfold shapeOf
  cases he : callOf e with
  | none =>
    have h : toolIdOf e = none := by rw [toolIdOf, he, Option.map_none]
    dsimp only
    rcases step_other first d h with ⟨hboundary, -, hcloses⟩ | ⟨hnot, -, item, hitem, heq⟩ |
        ⟨hnot, -, hitem, heq⟩
    · rw [if_pos hboundary, Derivation.skeleton, hcloses.allRows, hcloses.open_, hcloses.toolItems]
      cases hshown : shownAs e <;> simp [Skeleton.step, Derivation.skeleton]
    · rw [if_neg (by simp [hnot]), if_pos (by simp [hitem]), heq, skeleton_push,
        placeOf_of_item hitem]
      rfl
    · rw [if_neg (by simp [hnot]), if_neg (by simp [hitem]), heq]
      rfl
  | some call =>
    have hcall := exists_call he
    dsimp only [Skeleton.step]
    rcases step_call first d hcall with ⟨parent, hparent, heq⟩ | ⟨hparent, heq⟩
    · have hsome : (d.parentOf call).isSome = true := by rw [hparent]; rfl
      rw [Derivation.parentOf] at hsome
      rw [if_pos (by exact hsome), heq, Derivation.skeleton, Derivation.keys_pushUnder]
      simp [Derivation.skeleton, Derivation.pushUnder, Derivation.allRows]
    · have hnone : ¬(d.parentOf call).isSome = true := by rw [hparent]; exact Bool.false_ne_true
      rw [Derivation.parentOf] at hnone
      rw [if_neg (by exact hnone), heq, skeleton_push, placeOf_of_item (itemOf_toolCall hcall)]
      rfl

theorem skeleton_foldl (first : String → Option ℕ) (events : List Item) (d : Derivation) :
    (events.foldl (Derivation.step first) d).skeleton =
      (events.map (shapeOf first)).foldl Skeleton.step d.skeleton := by
  induction events generalizing d with
  | nil => rfl
  | cons e events ih => rw [List.foldl_cons, ih, skeleton_step, List.map_cons, List.foldl_cons]

theorem keys_step (s : Skeleton) (shape : Shape) : s.keys <+: (s.step shape).keys := by
  have hpush : ∀ (s' : Skeleton) (key : String), s'.keys = s.keys →
      s.keys <+: (s'.push key).keys := by
    intro s' key hkeys
    unfold Skeleton.push
    dsimp only
    split
    · exact hkeys ▸ List.prefix_rfl
    · exact hkeys ▸ List.prefix_append _ _
  cases shape with
  | row key => exact List.prefix_append _ _
  | item key => exact hpush s key rfl
  | call id parent key =>
    unfold Skeleton.step
    dsimp only
    split
    · exact List.prefix_rfl
    · exact hpush _ key rfl
  | nothing => exact List.prefix_rfl

theorem keys_foldl (shapes : List Shape) (s : Skeleton) :
    s.keys <+: (shapes.foldl Skeleton.step s).keys := by
  induction shapes generalizing s with
  | nil => exact List.prefix_rfl
  | cons shape shapes ih => exact (keys_step s shape).trans (ih _)

def rowKey (first : String → Option ℕ) (e : Item) : String :=
  if (itemOf e).isSome then activityKey (placeOf first e) else eventKey (placeOf first e)

theorem keys_sublist_step (first : String → Option ℕ) (s : Skeleton) (e : Item) :
    (s.step (shapeOf first e)).keys = s.keys ∨
      (s.step (shapeOf first e)).keys = s.keys ++ [rowKey first e] := by
  have hpush : ∀ s' : Skeleton, s'.keys = s.keys → (itemOf e).isSome = true →
      (s'.push (activityKey (placeOf first e))).keys = s.keys ∨
        (s'.push (activityKey (placeOf first e))).keys = s.keys ++ [rowKey first e] := by
    intro s' hkeys hitem
    unfold Skeleton.push rowKey
    rw [if_pos hitem]
    dsimp only
    split
    · exact .inl hkeys
    · exact .inr (by rw [hkeys])
  unfold shapeOf
  cases he : callOf e with
  | some call =>
    dsimp only [Skeleton.step]
    split
    · exact .inl rfl
    · exact hpush _ rfl (by rw [itemOf_toolCall (exists_call he)]; rfl)
  | none =>
    dsimp only
    split
    · next hboundary =>
      have hitem := itemOf_boundary hboundary
      cases hshown : shownAs e with
      | none => exact .inl (List.append_nil _)
      | some row =>
        right
        rw [rowKey, hitem, if_neg (by simp), placeOf_boundary hitem, ← (shownAs_plain hshown).2.2]
        rfl
    · split
      · next hitem => exact hpush s rfl hitem
      · exact .inl rfl

theorem keys_sublist (first : String → Option ℕ) (events : List Item) :
    ((events.map (shapeOf first)).foldl Skeleton.step {}).keys.Sublist
      (events.map (rowKey first)) := by
  induction events using List.reverseRecOn with
  | nil => exact List.Sublist.slnil
  | append_singleton events e ih =>
    rw [List.map_append, List.foldl_append, List.map_append]
    rcases keys_sublist_step first ((events.map (shapeOf first)).foldl Skeleton.step {}) e with
      heq | heq
    · exact heq ▸ ih.trans (List.sublist_append_left _ _)
    · exact heq ▸ ih.append (List.Sublist.refl _)

theorem tagged_injective {tag : String} {m n : ℕ} (h : tag ++ toString m = tag ++ toString n) :
    m = n := by
  have hlist := congrArg String.toList h
  rw [String.toList_append, String.toList_append] at hlist
  exact Nat.repr_injective (String.toList_injective (List.append_cancel_left hlist))

theorem eventKey_ne_activityKey (m n : ℕ) : eventKey m ≠ activityKey n := by
  intro h
  have hlist := congrArg String.toList h
  rw [eventKey, activityKey, String.toList_append, String.toList_append] at hlist
  have hhead := congrArg List.head? hlist
  simp at hhead

theorem placeOf_of_rowKey {x y : Item} (h : rowKey first x = rowKey first y) :
    placeOf first x = placeOf first y := by
  unfold rowKey at h
  split at h <;> split at h
  · exact tagged_injective h
  · exact absurd h.symm (eventKey_ne_activityKey _ _)
  · exact absurd h (eventKey_ne_activityKey _ _)
  · exact tagged_injective h

theorem nodup_rowKeys (hplaces : (events.map (placeOf first)).Pairwise (· < ·)) :
    (events.map (rowKey first)).Nodup := by
  rw [List.pairwise_map] at hplaces
  rw [List.Nodup, List.pairwise_map]
  refine hplaces.imp fun {x y} hlt heq => ?_
  rw [placeOf_of_rowKey heq] at hlt
  exact Nat.lt_irrefl _ hlt

end Portuni.Transcript
