import Portuni.ChangeFeed.Model
import Portuni.Library.Runs

/-!
What the poller hands on is the published sequence, with a reset at every gap, and no wait sleeps
through a change.
-/

namespace Portuni.ChangeFeed

open Library.LogReader Library.Runs

section

inductive World.Answers (w : World) (place : ℕ) : ChangesSince → Prop
  | reset {cursor : Cursor} {further : ℕ} : place ≤ further → w.Stands cursor further →
      Answers w place ⟨cursor, true, []⟩
  | changes {cursor : Cursor} {changes : List NodeChangeEvent} : w.poller.cursor ≠ none →
      changes <+: w.log.drop place → w.Stands cursor (place + changes.length) →
        Answers w place ⟨cursor, false, changes⟩

/-- The poller has handed on what the sequence has up to `place`, from its first cursor on. -/
structure World.ReadTo (w : World) (place : ℕ) : Prop where
  fresh : w.poller.cursor = none → w.calls = [] ∧ place = 0
  reads : ∀ cursor, w.poller.cursor = some cursor → w.Stands cursor place ∧
    ∃ first rest, w.calls = .reset :: rest ∧ Reads w.log first rest place
  answer : ∀ r, w.answer = some r → w.Answers place r

structure World.Good (w : World) : Prop where
  publishes : w.Publishes
  readTo : ∃ place, w.ReadTo place

variable {w w' : World} {place : ℕ} {instanceId : String}

theorem good_initial : (World.initial instanceId).Good where
  publishes := by
    constructor <;> simp [World.initial, World.current, Numbered]
  readTo := ⟨0, by constructor <;> simp [World.initial]⟩

theorem World.Answers.bounded (hw : w.Publishes) {r : ChangesSince} (h : w.Answers place r) :
    place ≤ w.log.length := by
  cases h with
  | reset hplace hstands => exact Nat.le_trans hplace (hstands.le hw)
  | changes _ _ hstands => exact Nat.le_trans (Nat.le_add_right _ _) (hstands.le hw)

structure World.Later (w w' : World) : Prop where
  log : w.log <+: w'.log
  stands : ∀ cursor place, w.Stands cursor place → w'.Stands cursor place

theorem World.ReadTo.mono (hw : w.Publishes) (h : w.ReadTo place) (later : w.Later w')
    (hcursor : w'.poller.cursor = w.poller.cursor) (hcalls : w'.calls = w.calls)
    (hanswer : ∀ r, w'.answer = some r → w.answer = some r) : w'.ReadTo place where
  fresh hfresh := hcalls ▸ h.fresh (hcursor ▸ hfresh)
  reads cursor hsome := by
    obtain ⟨hstands, first, rest, hstart, hreads⟩ := h.reads cursor (hcursor ▸ hsome)
    exact ⟨later.stands _ _ hstands, first, rest, hcalls.trans hstart, hreads.mono later.log⟩
  answer r hr := by
    have hanswered := h.answer r (hanswer r hr)
    have hbounded := hanswered.bounded hw
    cases hanswered with
    | reset hplace hstands => exact .reset hplace (later.stands _ _ hstands)
    | changes hsome hpiece hstands =>
      exact .changes (hcursor ▸ hsome) (hpiece.trans (drop_prefix_drop later.log hbounded))
        (later.stands _ _ hstands)

theorem later_published (nodeId : String) (kind : NodeChangeKind) (now : ℕ) :
    w.Later (w.published nodeId kind now) where
  log := List.prefix_append _ _
  stands cursor place h := by
    rcases h with ⟨hown, hplace, hseq⟩ | hother
    · exact .inl ⟨hown, hplace, Nat.le_succ_of_le hseq⟩
    · exact .inr hother

theorem publishes_published (hw : w.Publishes) (nodeId : String) (kind : NodeChangeKind)
    (now : ℕ) : (w.published nodeId kind now).Publishes := by
  have hlength := hw.length
  have hcurrent : (w.published nodeId kind now).current =
      w.current ++ [w.feed.nextChange nodeId kind now] :=
    List.drop_append_of_le_length (show w.began ≤ w.log.length by omega)
  refine ⟨?_, ?_, ?_, hw.known, by simp [World.published]⟩
  · simp only [World.published, Feed.publishNodeChange, List.length_append, List.length_singleton]
    omega
  · rw [hcurrent]
    refine numbered_concat hw.numbered ?_
    rw [hw.current_length, Nat.add_comm]
    rfl
  · have hring := hw.ring
    have hcount := hw.current_length
    have hkept : w.feed.ring ++ [w.feed.nextChange nodeId kind now] =
        (w.current ++ [w.feed.nextChange nodeId kind now]).drop (w.feed.seq - changeFeedRing) := by
      rw [List.drop_append_of_le_length (by omega), hring]
    have hskip : w.feed.seq - changeFeedRing +
        (w.feed.seq + 1 - (w.feed.seq - changeFeedRing) - changeFeedRing) =
          w.feed.seq + 1 - changeFeedRing := by omega
    have hnext : (w.published nodeId kind now).feed.ring =
        pushed w.feed.ring (w.feed.nextChange nodeId kind now) := by
      simp only [World.published, Feed.publishNodeChange]
    have hseq : (w.published nodeId kind now).feed.seq = w.feed.seq + 1 := rfl
    rw [hcurrent, hnext, hseq, pushed, hkept, List.drop_drop, List.length_drop, List.length_append,
      List.length_singleton, hcount, hskip]

theorem later_restarted (hw : w.Publishes) (hfresh : instanceId ∉ w.instances) :
    w.Later (w.restarted instanceId) where
  log := List.prefix_rfl
  stands cursor place h := by
    have hbounded := h.le hw
    have hknown : cursor.instanceId ∈ w.instances := by
      rcases h with ⟨hown, -, -⟩ | ⟨-, hknown, -⟩
      · exact hown ▸ hw.known
      · exact hknown
    exact .inr ⟨fun heq : cursor.instanceId = instanceId => hfresh (heq ▸ hknown),
      List.mem_append_left _ hknown, hbounded⟩

theorem publishes_restarted : (w.restarted instanceId).Publishes := by
  constructor <;> simp [World.restarted, World.current, Numbered]

theorem publishes_waited (hw : w.Publishes) (id : ℕ) (cursor : Option Cursor) (aborted : Bool) :
    (w.waited id cursor aborted).Publishes := by
  unfold World.waited
  split
  next => exact ⟨hw.length, hw.numbered, hw.ring, hw.known, hw.waiters⟩
  next hwaits =>
    refine ⟨hw.length, hw.numbered, hw.ring, hw.known, fun waiter hmem => ?_⟩
    rcases List.mem_append.mp hmem with hmem | hmem
    · exact hw.waiters waiter hmem
    · rw [List.mem_singleton.mp hmem]
      simp only [Feed.waitForChanges] at hwaits
      split at hwaits
      next => simp at hwaits
      next after hparse =>
        split at hwaits
        next => simp at hwaits
        next hseq =>
          obtain ⟨own, hown, rfl⟩ := Option.map_eq_some_iff.mp hparse
          obtain ⟨rfl, hinstance⟩ := Option.filter_eq_some_iff.mp hown
          exact ⟨own, rfl, by simpa using hinstance, Nat.le_of_not_lt hseq⟩

theorem answers_changesSince (hw : w.Publishes) (h : w.ReadTo place) (max : ℕ) :
    w.Answers place (w.feed.changesSince w.poller.cursor max) := by
  have hlength := hw.length
  cases hcursor : w.poller.cursor with
  | none =>
    obtain ⟨-, rfl⟩ := h.fresh hcursor
    exact .reset (Nat.zero_le _) (stands_end w)
  | some cursor =>
    obtain ⟨hstands, -⟩ := h.reads cursor hcursor
    rcases changesSince_spec hw hstands with hreset | ⟨next, changes, heq, hpiece, hnext, -⟩
    · rw [hreset]
      exact .reset (hlength ▸ hstands.le hw) (stands_end w)
    · rw [heq]
      exact .changes (by simp [hcursor]) hpiece hnext

theorem answered_of_stopped {poller : Poller} (r : ChangesSince) (throws : Bool)
    (h : poller.stopped = true) :
    (poller.answered r throws).1.cursor = poller.cursor ∧ (poller.answered r throws).2 = [] := by
  rw [Poller.answered, if_pos h]
  exact ⟨rfl, rfl⟩

theorem answered_of_running {poller : Poller} (r : ChangesSince) (throws : Bool)
    (h : poller.stopped = false) : (poller.answered r throws).1.cursor = some r.cursor ∧
      (poller.answered r throws).2 = r.call := by
  simp only [Poller.answered, h]
  split
  next hstopped => simp at hstopped
  next =>
    split
    next => exact ⟨rfl, rfl⟩
    next =>
      split
      next => exact ⟨rfl, rfl⟩
      next => exact ⟨rfl, rfl⟩

theorem readTo_deliver (hw : w.Publishes) (h : w.ReadTo place) {r : ChangesSince} {throws : Bool}
    (hanswer : w.answer = some r) : ∃ place', World.ReadTo { w with
      poller := (w.poller.answered r throws).1
      answer := none
      calls := w.calls ++ (w.poller.answered r throws).2 } place' := by
  cases hstopped : w.poller.stopped with
  | true =>
    obtain ⟨hcursor, hcalls⟩ := answered_of_stopped r throws hstopped
    refine ⟨place, ?_, ?_, by simp⟩
    · intro hnone
      rw [hcalls, List.append_nil]
      exact h.fresh (hcursor ▸ hnone)
    · intro cursor hsome
      rw [hcalls, List.append_nil]
      exact h.reads cursor (hcursor ▸ hsome)
  | false =>
    obtain ⟨hcursor, hcalls⟩ := answered_of_running r throws hstopped
    rw [hcalls]
    have hbegun : ∀ own, w.poller.cursor = some own → ∃ first rest,
        w.calls = .reset :: rest ∧ Reads w.log first rest place := fun own hown =>
      (h.reads own hown).2
    cases h.answer r hanswer with
    | @reset cursor further hplace hstands =>
      refine ⟨further, by simp [hcursor], ?_, by simp⟩
      intro own hown
      obtain rfl := Option.some.inj (hcursor.symm.trans hown)
      refine ⟨hstands, ?_⟩
      have hbounded := hstands.le hw
      cases hold : w.poller.cursor with
      | none =>
        rw [(h.fresh hold).1]
        exact ⟨further, [], rfl, .nil hbounded⟩
      | some old =>
        obtain ⟨first, rest, hstart, hreads⟩ := hbegun old hold
        exact ⟨first, rest ++ [.reset], by rw [hstart]; rfl, .reset hreads hplace hbounded⟩
    | @changes cursor changes hsome hpiece hstands =>
      refine ⟨place + changes.length, by simp [hcursor], ?_, by simp⟩
      intro own hown
      obtain rfl := Option.some.inj (hcursor.symm.trans hown)
      refine ⟨hstands, ?_⟩
      obtain ⟨old, hold⟩ := Option.ne_none_iff_exists'.mp hsome
      obtain ⟨first, rest, hstart, hreads⟩ := hbegun old hold
      rcases eq_or_ne changes [] with rfl | hne
      · exact ⟨first, rest, by simpa [ChangesSince.call] using hstart, hreads⟩
      · refine ⟨first, rest ++ [.batch changes], ?_, .batch hreads hpiece⟩
        simp [ChangesSince.call, hne, hstart]

theorem later_of_same (hfeed : w'.feed = w.feed) (hlog : w'.log = w.log)
    (hbegan : w'.began = w.began) (hinstances : w'.instances = w.instances) : w.Later w' where
  log := hlog ▸ List.prefix_rfl
  stands cursor place h := by simpa only [World.Stands, hfeed, hbegan, hinstances] using h

theorem later_step (hw : w.Publishes) {a : Action} (hstep : step w a = some w') : w.Later w' := by
  cases a with
  | publish nodeId kind now =>
    cases hstep
    exact later_published nodeId kind now
  | restart instanceId =>
    simp only [step] at hstep
    split at hstep
    next => cases hstep
    next hfresh =>
      cases hstep
      exact later_restarted hw hfresh
  | wait id cursor aborted =>
    cases hstep
    unfold World.waited
    split <;> exact later_of_same rfl rfl rfl rfl
  | start | stop =>
    cases hstep
    exact later_of_same rfl rfl rfl rfl
  | timeoutOrAbort | read | deliver | fail | wake =>
    simp only [step] at hstep
    split at hstep
    next =>
      cases hstep
      exact later_of_same rfl rfl rfl rfl
    next => cases hstep

theorem good_of_same (h : w.Good) (hfeed : w'.feed = w.feed) (hlog : w'.log = w.log)
    (hbegan : w'.began = w.began) (hinstances : w'.instances = w.instances)
    (hwaiters : ∀ waiter ∈ w'.waiters, waiter ∈ w.waiters)
    (hcursor : w'.poller.cursor = w.poller.cursor) (hcalls : w'.calls = w.calls)
    (hanswer : ∀ r, w'.answer = some r → w.answer = some r) : w'.Good where
  publishes := by
    obtain ⟨hlength, hnumbered, hring, hknown, hwaits⟩ := h.publishes
    refine ⟨?_, ?_, ?_, ?_, fun waiter hmem => ?_⟩
    · rw [hlog, hbegan, hfeed, hlength]
    · rw [World.current, hlog, hbegan]
      exact hnumbered
    · rw [World.current, hlog, hbegan, hfeed]
      exact hring
    · rw [hfeed, hinstances]
      exact hknown
    · rw [hfeed]
      exact hwaits waiter (hwaiters waiter hmem)
  readTo := by
    obtain ⟨place, hread⟩ := h.readTo
    exact ⟨place, hread.mono h.publishes (later_of_same hfeed hlog hbegan hinstances) hcursor
      hcalls hanswer⟩

theorem failed_cursor (poller : Poller) : poller.failed.cursor = poller.cursor := rfl

theorem start_cursor (poller : Poller) : poller.start.cursor = poller.cursor := by
  unfold Poller.start
  split <;> rfl

theorem good_step (h : w.Good) {a : Action} (hstep : step w a = some w') : w'.Good := by
  obtain ⟨place, hread⟩ := h.readTo
  have later := later_step h.publishes hstep
  cases a with
  | publish nodeId kind now =>
    cases hstep
    exact ⟨publishes_published h.publishes nodeId kind now,
      place, hread.mono h.publishes later rfl rfl fun _ hr => hr⟩
  | restart instanceId =>
    simp only [step] at hstep
    split at hstep
    next => cases hstep
    next =>
      cases hstep
      exact ⟨publishes_restarted, place, hread.mono h.publishes later rfl rfl fun _ hr => hr⟩
  | wait id cursor aborted =>
    cases hstep
    refine ⟨publishes_waited h.publishes id cursor aborted, place, ?_⟩
    unfold World.waited at later ⊢
    split at later <;> exact hread.mono h.publishes later rfl rfl fun _ hr => hr
  | timeoutOrAbort id =>
    simp only [step] at hstep
    split at hstep
    next =>
      cases hstep
      exact good_of_same h rfl rfl rfl rfl (fun _ hmem => (List.mem_filter.mp hmem).1) rfl rfl
        fun _ hr => hr
    next => cases hstep
  | start =>
    cases hstep
    exact good_of_same h rfl rfl rfl rfl (fun _ hmem => hmem) (start_cursor _) rfl fun _ hr => hr
  | stop =>
    cases hstep
    exact good_of_same h rfl rfl rfl rfl (fun _ hmem => hmem) rfl rfl fun _ hr => hr
  | read max =>
    simp only [step] at hstep
    split at hstep
    next =>
      cases hstep
      refine ⟨⟨h.publishes.1, h.publishes.2, h.publishes.3, h.publishes.4, h.publishes.5⟩,
        place, hread.fresh, hread.reads, ?_⟩
      intro r hr
      have hanswers := answers_changesSince h.publishes hread max
      rw [Option.some.inj hr] at hanswers
      cases hanswers with
      | reset hplace hstands => exact .reset hplace hstands
      | changes hsome hpiece hstands => exact .changes hsome hpiece hstands
    next => cases hstep
  | deliver throws =>
    simp only [step] at hstep
    split at hstep
    next r _ hanswer =>
      cases hstep
      exact ⟨⟨h.publishes.1, h.publishes.2, h.publishes.3, h.publishes.4, h.publishes.5⟩,
        readTo_deliver h.publishes hread hanswer⟩
    next => cases hstep
  | fail =>
    simp only [step] at hstep
    split at hstep
    next =>
      cases hstep
      exact good_of_same h rfl rfl rfl rfl (fun _ hmem => hmem) (failed_cursor _) rfl (by simp)
    next => cases hstep
  | wake =>
    simp only [step] at hstep
    split at hstep
    next =>
      cases hstep
      exact good_of_same h rfl rfl rfl rfl (fun _ hmem => hmem) rfl rfl fun _ hr => hr
    next => cases hstep

end

variable {w₀ w : World} {acts : List Action} {instanceId : String}

theorem good_run (run : Run step (fun _ _ => True) (World.initial instanceId) acts w) : w.Good :=
  run.inv World.Good good_initial fun _ _ _ h _ hstep => good_step h hstep

theorem later_run (h : w₀.Good) (run : Run step (fun _ _ => True) w₀ acts w) : w₀.Later w := by
  have hrun : w.Good ∧ w₀.Later w := by
    refine run.inv (fun w => w.Good ∧ w₀.Later w) ⟨h, later_of_same rfl rfl rfl rfl⟩ ?_
    intro w a w' ⟨hgood, hlater⟩ _ hstep
    have hnext := later_step hgood.publishes hstep
    exact ⟨good_step hgood hstep, hlater.log.trans hnext.log,
      fun cursor place hstands => hnext.stands _ _ (hlater.stands _ _ hstands)⟩
  exact hrun.2

theorem passed_wakes (hw : w.Publishes) {cursor : Cursor} {place : ℕ}
    (hstands : w.Stands cursor place) (hpassed : place < w.log.length) :
    (∀ waiter ∈ w.waiters, waiter.cursor ≠ some cursor) ∧
      ∀ aborted, w.feed.waitForChanges (some cursor) aborted = some true := by
  have hlength := hw.length
  rcases hstands with ⟨hown, hplace, hseq⟩ | ⟨hother, -, -⟩
  · have hlt : cursor.seq < w.feed.seq := by omega
    constructor
    · intro waiter hmem heq
      obtain ⟨own, hcursor, -, hle⟩ := hw.waiters waiter hmem
      obtain rfl := Option.some.inj (heq.symm.trans hcursor)
      omega
    · intro aborted
      simp only [Feed.waitForChanges, parseCursor_own hown, if_pos hlt]
  · constructor
    · intro waiter hmem heq
      obtain ⟨own, hcursor, hown, -⟩ := hw.waiters waiter hmem
      obtain rfl := Option.some.inj (heq.symm.trans hcursor)
      exact hother hown
    · intro aborted
      simp only [Feed.waitForChanges, parseCursor_other hother]

theorem reads_all_of_call_nil (h : w.Good) {max : ℕ} (hmax : 1 ≤ max)
    (hcall : (w.feed.changesSince w.poller.cursor max).call = []) :
    ∃ first rest, w.calls = .reset :: rest ∧ Reads w.log first rest w.log.length := by
  obtain ⟨place, hread⟩ := h.readTo
  cases hcursor : w.poller.cursor with
  | none =>
    rw [hcursor] at hcall
    simp [Feed.changesSince, Feed.parseCursor, ChangesSince.call] at hcall
  | some cursor =>
    obtain ⟨hstands, first, rest, hstart, hreads⟩ := hread.reads cursor hcursor
    rw [hcursor] at hcall
    rcases changesSince_spec h.publishes hstands with hreset | ⟨next, changes, heq, -, -, hend⟩
    · rw [hreset] at hcall
      simp [ChangesSince.call] at hcall
    · rw [heq] at hcall
      have hnil : changes = [] := by simpa [ChangesSince.call] using hcall
      exact ⟨first, rest, hstart, hend hmax hnil ▸ hreads⟩

/-- The changes handed to `onChanges` are the published sequence from the first cursor on, each
once and in order, with a reset in front of every gap; whatever is published after a cursor was
given out wakes a wait on it, one that runs and one that comes. -/
theorem handed_on_without_gaps (instanceId : String) (before after : List Action) (w₀ w : World)
    (hbefore : Run step (fun _ _ => True) (World.initial instanceId) before w₀)
    (hafter : Run step (fun _ _ => True) w₀ after w) :
    (w.calls = [] ∨ ∃ first rest place, w.calls = .reset :: rest ∧
      Reads w.log first rest place ∧ (rest.flatMap Call.items).Sublist (w.log.drop first)) ∧
    (∀ max, 1 ≤ max → (w.feed.changesSince w.poller.cursor max).call = [] →
      ∃ first rest, w.calls = .reset :: rest ∧ Reads w.log first rest w.log.length) ∧
    (∀ nodeId kind now, ∀ waiter ∈ w.waiters,
      (waiter.id, true) ∈ (w.published nodeId kind now).woken) ∧
    (∀ cursor place, w₀.Stands cursor place → w₀.log.length < w.log.length →
      (∀ waiter ∈ w.waiters, waiter.cursor ≠ some cursor) ∧
        ∀ aborted, w.feed.waitForChanges (some cursor) aborted = some true) ∧
    (∀ since max, (∀ cursor, since = some cursor → ∃ place, w₀.Stands cursor place) →
      ∃ place, w₀.Stands (w₀.feed.changesSince since max).cursor place) := by
  have hstart := good_run hbefore
  have later := later_run hstart hafter
  have hgood := good_run (hbefore.trans hafter)
  refine ⟨?_, fun max => reads_all_of_call_nil hgood, ?_, ?_, ?_⟩
  · obtain ⟨place, hread⟩ := hgood.readTo
    cases hcursor : w.poller.cursor with
    | none => exact .inl (hread.fresh hcursor).1
    | some cursor =>
      obtain ⟨-, first, rest, hcalls, hreads⟩ := hread.reads cursor hcursor
      refine .inr ⟨first, rest, place, hcalls, hreads, hreads.sublist.trans ?_⟩
      exact (List.take_sublist _ _).drop _
  · intro nodeId kind now waiter hmem
    exact List.mem_append_right _ (List.mem_map_of_mem hmem)
  · intro cursor place hstands hpublished
    have hbounded := hstands.le hstart.publishes
    exact passed_wakes hgood.publishes (later.stands _ _ hstands) (by omega)
  · intro since max hsince
    cases since with
    | none => exact ⟨_, stands_end w₀⟩
    | some cursor =>
      obtain ⟨place, hstands⟩ := hsince cursor rfl
      rcases changesSince_spec hstart.publishes hstands with hreset | ⟨_, _, heq, -, hnext, -⟩
      · exact ⟨_, by rw [hreset]; exact stands_end w₀⟩
      · exact ⟨_, by rw [heq]; exact hnext⟩

/-- A first cursor, a wait on it, and two changes handed on one by one, the first to a callback
that throws; then a lost answer, and a process that is replaced before the third is read. -/
def cursorTaken : List Action :=
  [.start, .read 500, .deliver false, .wait 7 (some ⟨"first", 0⟩) false]

def threeChanges : List Action :=
  [.publish "a" .node 10, .publish "b" .files 11, .read 1, .deliver true, .wake, .read 1,
    .deliver false, .wake, .publish "c" .node 12, .read 1, .fail, .wake, .restart "second",
    .read 500, .deliver false]

theorem handed_on_threeChanges : ∃ w₀ w,
    exec step (World.initial "first") cursorTaken = some w₀ ∧
    exec step w₀ threeChanges = some w ∧
    w.calls = [.reset, .batch [⟨1, "a", .node, 10⟩], .batch [⟨2, "b", .files, 11⟩], .reset] ∧
    w.woken = [(7, true)] ∧
    w.feed.waitForChanges (some ⟨"first", 0⟩) false = some true := by
  have htaken : (exec step (World.initial "first") cursorTaken).any (fun w₀ =>
      decide (w₀.feed.instanceId = "first" ∧ w₀.feed.seq = 0 ∧ w₀.began = 0 ∧ w₀.log.length = 0) &&
      (exec step w₀ threeChanges).any fun w =>
        decide (w.log.length = 3 ∧ w.calls = [.reset, .batch [⟨1, "a", .node, 10⟩],
          .batch [⟨2, "b", .files, 11⟩], .reset] ∧ w.woken = [(7, true)])) = true := by
    decide +kernel
  obtain ⟨w₀, hw₀, hchecked⟩ := (Option.any_eq_true _ _).mp htaken
  obtain ⟨hfirst, hsecond⟩ := Bool.and_eq_true_iff.mp hchecked
  obtain ⟨w, hw, hends⟩ := (Option.any_eq_true _ _).mp hsecond
  obtain ⟨hinstance, hseq, hbegan, hempty⟩ := of_decide_eq_true hfirst
  obtain ⟨hthree, hcalls, hwoken⟩ := of_decide_eq_true hends
  have hstands : w₀.Stands ⟨"first", 0⟩ 0 := .inl ⟨hinstance.symm, by simp [hbegan], by simp⟩
  have hpassed := (handed_on_without_gaps "first" cursorTaken threeChanges w₀ w
    (Run.of_exec_eq_some hw₀) (Run.of_exec_eq_some hw)).2.2.2.1 ⟨"first", 0⟩ 0 hstands (by omega)
  exact ⟨w₀, w, hw₀, hw, hcalls, hwoken, hpassed.2 false⟩

variable {instanceId : String} {acts : List Action} {w : World}

theorem oldest_eq (hw : w.Publishes) (hne : w.feed.ring ≠ []) :
    w.feed.oldest = 1 + (w.feed.seq - changeFeedRing) := by
  obtain ⟨oldest, rest, hring⟩ := List.exists_cons_of_ne_nil hne
  have hnumbered := hw.numbered.drop (w.feed.seq - changeFeedRing)
  rw [← hw.ring, hring] at hnumbered
  rw [Feed.oldest, hring]
  exact (numbered_cons.mp hnumbered).1

/-- In every run a reader is told to refetch just when its cursor is of another process, or more
changes have come since than the ring keeps, whatever the size of its pages. -/
theorem reset_iff_behind_ring (run : Run step (fun _ _ => True) (World.initial instanceId) acts w)
    (cursor : Cursor) (max : ℕ) : (w.feed.changesSince (some cursor) max).reset = true ↔
      cursor.instanceId ≠ w.feed.instanceId ∨ cursor.seq + changeFeedRing < w.feed.seq := by
  by_cases hown : cursor.instanceId = w.feed.instanceId
  · have hw := (good_run run).publishes
    have hlength : w.feed.ring.length = w.feed.seq - (w.feed.seq - changeFeedRing) := by
      rw [hw.ring, List.length_drop, hw.current_length]
    have hpos : 0 < changeFeedRing := by decide
    simp only [Feed.changesSince, parseCursor_own hown, hown, ne_eq, not_true_eq_false, false_or]
    by_cases hnil : w.feed.ring = []
    · rw [hnil, List.length_nil] at hlength
      rw [if_neg (by simp [hnil]; omega)]
      exact iff_of_false Bool.false_ne_true (by omega)
    · simp only [oldest_eq hw hnil, hnil, not_false_eq_true, and_true, false_and, or_false]
      split
      · exact iff_of_true rfl (by omega)
      · exact iff_of_false Bool.false_ne_true (by omega)
  · simp [Feed.changesSince, parseCursor_other hown, hown]

theorem reset_iff_behind_ring_cursorTaken : ∃ w,
    exec step (World.initial "first") cursorTaken = some w ∧
      ((w.feed.changesSince (some ⟨"first", 0⟩) 500).reset = true ↔
        "first" ≠ w.feed.instanceId ∨ 0 + changeFeedRing < w.feed.seq) := by
  refine (Option.isSome_iff_exists.mp (by decide +kernel)).imp fun w hw => ⟨hw, ?_⟩
  exact reset_iff_behind_ring (Run.of_exec_eq_some hw) ⟨"first", 0⟩ 500

end Portuni.ChangeFeed
