import Portuni.TurnsInFlight.Model

/-!
The count of the web: what one more event of the log makes of it.
-/

namespace Portuni.TurnsInFlight

open Transcript (CanonicalEvent RunEndReason Resume sinceStart countPending turnInFlight)

variable {run : String} {log : List CanonicalEvent} {e : CanonicalEvent}

def recount (run : String) (log : List CanonicalEvent) : ℕ :=
  let since := (sinceStart run log).getD (0, log)
  since.2.foldl (countPending run) since.1

theorem turnInFlight_some (log : List CanonicalEvent) (run : String) :
    turnInFlight log (some run) = decide (0 < recount run log) := rfl

def carriedBy (run : String) : CanonicalEvent → Option ℕ
  | .runStarted id _ carried => if id = run then some (carried.getD 0) else none
  | _ => none

theorem sinceStart_cons (run : String) (e : CanonicalEvent) (log : List CanonicalEvent) :
    sinceStart run (e :: log) =
      (sinceStart run log).or ((carriedBy run e).map fun n => (n, log)) := by
  cases hrest : sinceStart run log with
  | some since => cases e <;> simp [sinceStart, hrest]
  | none =>
    cases e with
    | runStarted id resume carried =>
      by_cases h : id = run <;> simp [sinceStart, hrest, carriedBy, h]
    | _ => simp [sinceStart, hrest, carriedBy]

theorem sinceStart_concat (log : List CanonicalEvent) (e : CanonicalEvent) :
    sinceStart run (log ++ [e]) = (((carriedBy run e).map fun n => (n, [])).or
        ((sinceStart run log).map fun since => (since.1, since.2 ++ [e]))) := by
  induction log with
  | nil =>
    rw [List.nil_append, sinceStart_cons, sinceStart]
    cases carriedBy run e <;> rfl
  | cons x log ih =>
    rw [List.cons_append, sinceStart_cons, ih, sinceStart_cons]
    cases carriedBy run e with
    | some n => rfl
    | none =>
      cases sinceStart run log with
      | some since => rfl
      | none => cases carriedBy run x <;> rfl

theorem recount_concat (run : String) (log : List CanonicalEvent) (e : CanonicalEvent) :
    recount run (log ++ [e]) = (carriedBy run e).getD (countPending run (recount run log) e) := by
  unfold recount
  rw [sinceStart_concat]
  cases carriedBy run e with
  | some n => rfl
  | none =>
    cases sinceStart run log with
    | some since => simp
    | none => simp

theorem recount_userMessage (run : String) (log : List CanonicalEvent) (text : String) :
    recount run (log ++ [.userMessage text]) = recount run log + 1 :=
  recount_concat run log _

theorem recount_turnEnded (run : String) (log : List CanonicalEvent) (consumed : Option ℕ) :
    recount run (log ++ [.turnEnded run consumed]) = recount run log - consumed.getD 1 := by
  rw [recount_concat]
  exact if_pos rfl

theorem recount_turnEnded_of_ne {other : String} (h : other ≠ run) (log : List CanonicalEvent)
    (consumed : Option ℕ) :
    recount run (log ++ [.turnEnded other consumed]) = recount run log := by
  rw [recount_concat]
  exact if_neg h

theorem recount_runStarted (run : String) (log : List CanonicalEvent) (resume : Option Resume)
    (carried : Option ℕ) :
    recount run (log ++ [.runStarted run resume carried]) = carried.getD 0 := by
  rw [recount_concat, carriedBy, if_pos rfl]
  rfl

theorem recount_runEnded (run other : String) (log : List CanonicalEvent) (reason : RunEndReason) :
    recount run (log ++ [.runEnded other reason]) = recount run log :=
  recount_concat run log _

theorem recount_plain (h : isPlain e = true) (run : String) (log : List CanonicalEvent) :
    recount run (log ++ [e]) = recount run log := by
  rw [recount_concat]
  cases e <;> first | rfl | cases h

end Portuni.TurnsInFlight

namespace Portuni.TurnsInFlight

open Library.Runs
open Transcript (CanonicalEvent turnInFlight)

variable {s s' : State} {x : Starting}

def Send.run : Send → Option String
  | .counted run _ _ | .written run _ _ | .settling run _ _ _ => some run
  | _ => none

def Send.waits : Send → Bool
  | .counted _ _ _ | .written _ _ _ | .settling _ _ _ _ | .settled _ _ _ => true
  | _ => false

def Send.unwritten : Send → Bool
  | .counted _ _ _ => true
  | _ => false

def Send.refused : Send → Bool
  | .settling _ _ _ _ => true
  | _ => false

def Send.attempt : Send → ℕ
  | .counted _ _ attempt | .written _ _ attempt => attempt
  | _ => 0

def State.unwritten (s : State) : Bool := s.send.any Send.unwritten

def State.refused (s : State) : Bool := s.send.any Send.refused

/-- A start under way is the only one, and its run's count is the brief. -/
structure Begun (s : State) (x : Starting) : Prop where
  lone : s.starts = [x]
  current : s.currentRun = some x.run
  settling : s.settlingRun = none
  live : s.liveRun = none
  sink : x.run ∈ s.sinks ↔ x.stage = .handed
  uncounted : x.stage ≠ .handed → x.briefCounted = false
  bound : s.turnsInFlight ≤ if x.briefCounted then 1 else 0
  same : x.stage ≠ .begun → s.turnsInFlight = recount x.run s.log

structure Sending (s : State) (x : Send) : Prop where
  starts : s.starts = []
  runs : s.runs ≠ []
  live : ∀ r, s.liveRun = some r → x.run = some r
  first : x.attempt = 0

/-- A live run is the current one, it is waited for, and its count is that of the log but for the
message that is not written. -/
structure Live (s : State) (r : String) : Prop where
  current : s.currentRun = some r
  settling : s.settlingRun = some r
  starts : s.starts = []
  same : s.refused = false → s.turnsInFlight = recount r s.log + if s.unwritten then 1 else 0

structure Inv (s : State) : Prop where
  current_mem : ∀ r, s.currentRun = some r → r ∈ s.runs
  settling_mem : ∀ r, s.settlingRun = some r → r ∈ s.runs
  sinks_mem : ∀ r ∈ s.sinks, r ∈ s.runs
  ending : ∀ r ∈ s.ending, r ∈ s.runs ∧ s.currentRun ≠ some r
  live : ∀ r, s.liveRun = some r → Live s r
  begun : ∀ x ∈ s.starts, Begun s x
  sending : ∀ x, s.send = some x → x.waits = true → Sending s x
  idle : s.liveRun = none → s.starts = [] → s.turnsInFlight = 0 ∧ s.currentRun = none

def proper (s : State) : Action → Bool
  | .sendRejected runEnded => runEnded
  | .startTask _ _ | .resume _ _ => decide (s.starts = [] ∧ s.settlingRun = none)
  | .runEnded run _ _ => decide (∀ x ∈ s.starts, x.run ≠ run)
  | .event run (.turnEnded _ consumed) =>
    decide (s.currentRun = some run → s.unwritten = true → consumed.getD 1 < s.turnsInFlight)
  | _ => true

theorem inv_init : Inv init where
  current_mem r h := by cases h
  settling_mem r h := by cases h
  sinks_mem r h := by cases h
  ending r h := by cases h
  live r h := by cases h
  begun x h := by cases h
  sending x h := by cases h
  idle _ _ := ⟨rfl, rfl⟩

theorem Inv.live_none (h : Inv s) (hsettling : s.settlingRun = none) : s.liveRun = none := by
  cases hlive : s.liveRun with
  | none => rfl
  | some r =>
    have hsome := (h.live r hlive).settling
    rw [hsettling] at hsome
    cases hsome

theorem Inv.starts_nil (h : Inv s) {r : String} (hsettling : s.settlingRun = some r) :
    s.starts = [] := by
  refine List.eq_nil_iff_forall_not_mem.mpr fun x hx => ?_
  have hnone := (h.begun x hx).settling
  rw [hsettling] at hnone
  cases hnone

theorem Inv.append (h : Inv s) {events : List CanonicalEvent}
    (hsame : ∀ r, s.currentRun = some r → recount r (s.log ++ events) = recount r s.log) :
    Inv (appendAndPublish s events) where
  __ := h
  live r hr := by
    have hlive := h.live r hr
    refine ⟨hlive.current, hlive.settling, hlive.starts, fun hrefused => ?_⟩
    exact (hlive.same hrefused).trans (congrArg (· + _) (hsame r hlive.current).symm)
  begun x hx := by
    have hbegun := h.begun x hx
    exact { hbegun with same := fun hstage =>
      (hbegun.same hstage).trans (hsame x.run hbegun.current).symm }
  sending y hy hwaits := { h.sending y hy hwaits with }

theorem Inv.unread (h : Inv s) {pendingQuestion : Bool} {lastActivityAt activityTicks : Option ℕ}
    {clock : ℕ} :
    Inv { s with
      pendingQuestion := pendingQuestion, lastActivityAt := lastActivityAt
      activityTicks := activityTicks, clock := clock } where
  __ := h
  live r hr := { h.live r hr with }
  begun x hx := { h.begun x hx with }
  sending y hy hwaits := { h.sending y hy hwaits with }

theorem Inv.touch (h : Inv s) : Inv (touchActivity s) := h.unread

section

theorem Inv.setSend (h : Inv s) {send : Option Send}
    (hsend : ∀ y, send = some y → y.waits = true → Sending s y)
    (hsame : ∀ r, s.liveRun = some r → send.any Send.refused = false →
      s.turnsInFlight = recount r s.log + if send.any Send.unwritten then 1 else 0) :
    Inv { s with send := send } where
  __ := h
  live r hr := { h.live r hr with same := hsame r hr }
  begun x hx := { h.begun x hx with }
  sending y hy hwaits := { hsend y hy hwaits with }

variable {run text : String} {attempt : ℕ} {logged : Bool}

theorem deliverAfterRunEnd_some
    (hlimit : ¬maxDeliveryAttempts ≤ attempt + 1) (hsettling : s.settlingRun = some run) :
    deliverAfterRunEnd s text attempt logged =
      { s with send := some (.settling run text logged attempt) } := by
  rw [deliverAfterRunEnd, if_neg hlimit]
  simp only [hsettling]

theorem deliverAfterRunEnd_none
    (hlimit : ¬maxDeliveryAttempts ≤ attempt + 1) (hsettling : s.settlingRun = none) :
    deliverAfterRunEnd s text attempt logged =
      { s with send := some (.settled text logged attempt) } := by
  rw [deliverAfterRunEnd, if_neg hlimit]
  simp only [hsettling]

theorem sendMessageLocked_live (hlive : s.liveRun = some run) (text : String) :
    sendMessageLocked s text false 0 =
      { addTurnInFlight (touchActivity s) with send := some (.counted run text 0) } := by
  simp only [sendMessageLocked, hlive]
  rfl

theorem sendMessageLocked_settling
    (hlive : s.liveRun = none) (hsettling : s.settlingRun = some run) :
    sendMessageLocked s text logged attempt = deliverAfterRunEnd s text attempt logged := by
  simp only [sendMessageLocked, hlive, hsettling]

theorem sendMessageLocked_none (hlive : s.liveRun = none) (hsettling : s.settlingRun = none) :
    sendMessageLocked s text logged attempt = { s with send := some (.resuming text logged) } := by
  simp only [sendMessageLocked, hlive, hsettling]

variable (h : Inv s)

include h

theorem Inv.deliver (text : String) (logged : Bool) (hstarts : s.starts = []) (hruns : s.runs ≠ [])
    (hover : s.liveRun = none ∨ attempt = 0) : Inv (deliverAfterRunEnd s text attempt logged) := by
  by_cases hlimit : maxDeliveryAttempts ≤ attempt + 1
  · have hlive : s.liveRun = none := by
      rcases hover with hlive | rfl
      · exact hlive
      · exact absurd hlimit (by decide)
    rw [deliverAfterRunEnd, if_pos hlimit]
    refine h.setSend (fun y hy => by cases hy) fun r hr => ?_
    rw [hlive] at hr
    cases hr
  · cases hsettling : s.settlingRun with
    | some run =>
      rw [deliverAfterRunEnd_some hlimit hsettling]
      refine h.setSend (fun y hy _ => ?_) fun r hr hrefused => ?_
      · cases hy
        refine ⟨hstarts, hruns, fun r hr => ?_, rfl⟩
        exact hsettling.symm.trans (h.live r hr).settling
      · exact absurd hrefused (by simp [Send.refused])
    | none =>
      have hlive := h.live_none hsettling
      rw [deliverAfterRunEnd_none hlimit hsettling]
      refine h.setSend (fun y hy _ => ?_) fun r hr => ?_
      · cases hy
        refine ⟨hstarts, hruns, fun r hr => ?_, rfl⟩
        rw [hlive] at hr
        cases hr
      · rw [hlive] at hr
        cases hr

theorem Inv.runs_ne_nil {r : String} (hsettling : s.settlingRun = some r) :
    s.runs ≠ [] := List.ne_nil_of_mem (h.settling_mem r hsettling)

theorem Inv.counted (hlive : s.liveRun = some run) (hsend : s.send = none) (text : String) :
    Inv { addTurnInFlight (touchActivity s) with send := some (.counted run text 0) } := by
  have hrun := h.live run hlive
  refine ⟨h.current_mem, h.settling_mem, h.sinks_mem, h.ending, fun r hr => ?_,
    fun x hx => ?_, fun y hy _ => ?_, fun hnone => ?_⟩
  · have hr' := h.live r hr
    refine ⟨hr'.current, hr'.settling, hr'.starts, fun _ => ?_⟩
    have hsame := hr'.same (by rw [State.refused, hsend]; rfl)
    rw [State.unwritten, hsend] at hsame
    exact congrArg (· + 1) hsame
  · have hnil : x ∈ s.starts := hx
    rw [hrun.starts] at hnil
    cases hnil
  · cases hy
    refine ⟨hrun.starts, h.runs_ne_nil hrun.settling, fun r hr => ?_, rfl⟩
    exact hlive.symm.trans hr
  · exact absurd (hlive.symm.trans hnone) (by simp)

theorem Inv.sendMessage (text : String)
    (hover : s.liveRun = none ∨ s.send = none ∧ logged = false ∧ attempt = 0) :
    Inv (sendMessageLocked s text logged attempt) := by
  cases hlive : s.liveRun with
  | some run =>
    rcases hover with hnone | ⟨hsend, rfl, rfl⟩
    · rw [hlive] at hnone
      cases hnone
    · rw [sendMessageLocked_live hlive]
      exact h.counted hlive hsend text
  | none =>
    cases hsettling : s.settlingRun with
    | some run =>
      rw [sendMessageLocked_settling hlive hsettling]
      exact h.deliver text logged (h.starts_nil hsettling) (h.runs_ne_nil hsettling) (.inl hlive)
    | none =>
      rw [sendMessageLocked_none hlive hsettling]
      refine h.setSend (fun y hy hwaits => ?_) fun r hr => ?_
      · cases hy
        cases hwaits
      · rw [hlive] at hr
        cases hr

theorem Inv.written (hsend : s.send = some (.counted run text attempt)) :
    Inv { appendAndPublish s [.userMessage text] with
      send := some (.written run text attempt) } := by
  have hsending := h.sending _ hsend rfl
  refine ⟨h.current_mem, h.settling_mem, h.sinks_mem, h.ending, fun r hr => ?_,
    fun x hx => ?_, fun y hy _ => ?_, h.idle⟩
  · have hlive := h.live r hr
    refine ⟨hlive.current, hlive.settling, hlive.starts, fun _ => ?_⟩
    have hsame := hlive.same (by rw [State.refused, hsend]; rfl)
    rw [State.unwritten, hsend] at hsame
    rw [appendAndPublish, recount_userMessage]
    exact hsame
  · have hnil : x ∈ s.starts := hx
    rw [hsending.starts] at hnil
    cases hnil
  · cases hy
    exact ⟨hsending.starts, hsending.runs, hsending.live, hsending.first⟩

theorem Inv.giveBack {y : Send} (hsend : s.send = some y) (hwaits : y.waits = true)
    (hcounted : ∀ r, s.liveRun = some r → s.turnsInFlight - 1 = recount r s.log) :
    Inv { dropTurnInFlight s 1 with send := none } := by
  have hsending := h.sending y hsend hwaits
  refine ⟨h.current_mem, h.settling_mem, h.sinks_mem, h.ending, fun r hr => ?_,
    fun x hx => ?_, fun z hz => ?_, fun hlive hstarts => ?_⟩
  · have hlive := h.live r hr
    exact ⟨hlive.current, hlive.settling, hlive.starts, fun _ => hcounted r hr⟩
  · have hnil : x ∈ s.starts := hx
    rw [hsending.starts] at hnil
    cases hnil
  · cases hz
  · obtain ⟨hzero, hcurrent⟩ := h.idle hlive hstarts
    exact ⟨by rw [dropTurnInFlight, hzero], hcurrent⟩

omit h

theorem deliverAfterRunEnd_send (s : State) (send : Option Send) (text : String) (attempt : ℕ)
    (logged : Bool) :
    deliverAfterRunEnd { s with send := send } text attempt logged =
      deliverAfterRunEnd s text attempt logged := rfl

theorem Inv.refuse (h : Inv s) (hsend : s.send = some (.written run text attempt)) :
    Inv (deliverAfterRunEnd (dropTurnInFlight s 1) text attempt true) := by
  have hsending := h.sending _ hsend rfl
  have hfirst : attempt = 0 := hsending.first
  subst hfirst
  cases hlive : s.liveRun with
  | none =>
    have hback := h.giveBack hsend rfl fun r hr => by
      rw [hlive] at hr
      cases hr
    rw [← deliverAfterRunEnd_send _ none]
    exact hback.deliver text true hsending.starts hsending.runs (.inl hlive)
  | some run' =>
    have hrun := h.live run' hlive
    rw [deliverAfterRunEnd_some (by decide)
      (show (dropTurnInFlight s 1).settlingRun = some run' from hrun.settling)]
    refine ⟨h.current_mem, h.settling_mem, h.sinks_mem, h.ending, fun r hr => ?_,
      fun x hx => ?_, fun y hy _ => ?_, fun hnone => ?_⟩
    · have hr' := h.live r hr
      refine ⟨hr'.current, hr'.settling, hr'.starts, fun hrefused => ?_⟩
      cases hrefused
    · have hnil : x ∈ s.starts := hx
      rw [hsending.starts] at hnil
      cases hnil
    · cases hy
      exact ⟨hsending.starts, hsending.runs, fun r hr => hlive.symm.trans hr, rfl⟩
    · exact absurd (hlive.symm.trans hnone) (by simp)

end

theorem mem_of_startOf {run : String} (h : startOf s run = some x) :
    x ∈ s.starts ∧ x.run = run := by
  refine ⟨List.mem_of_find?_eq_some h, ?_⟩
  simpa using List.find?_some h

theorem setStart_lone {x' : Starting} (h : s.starts = [x]) (hrun : x'.run = x.run) :
    setStart s x' = { s with starts := [x'] } := by
  unfold setStart
  rw [h]
  simp [hrun]

theorem handOver_lone (h : s.starts = [x]) (briefCounted : Bool) :
    handOver s x briefCounted = { s with
        sinks := x.run :: s.sinks
        starts := [{ x with briefCounted := briefCounted, stage := .handed }] } :=
  setStart_lone (s := { s with sinks := x.run :: s.sinks }) h rfl

theorem Inv.not_waits (h : Inv s) (hx : Begun s x) {y : Send} (hy : s.send = some y) :
    y.waits = false := by
  cases hwaits : y.waits with
  | false => rfl
  | true =>
    have hnil := (h.sending y hy hwaits).starts
    rw [hx.lone] at hnil
    cases hnil

theorem Inv.advance (h : Inv s) (hx : Begun s x) {x' : Starting} {log : List CanonicalEvent}
    {count : ℕ} {sinks : List String} (hrun : x'.run = x.run) (hsinks : ∀ r ∈ sinks, r ∈ s.runs)
    (hsink : x.run ∈ sinks ↔ x'.stage = .handed)
    (huncounted : x'.stage ≠ .handed → x'.briefCounted = false)
    (hbound : count ≤ if x'.briefCounted then 1 else 0)
    (hsame : x'.stage ≠ .begun → count = recount x.run log) :
    Inv { s with log := log, turnsInFlight := count, sinks := sinks, starts := [x'] } where
  __ := h
  sinks_mem := hsinks
  live r hr := absurd (hx.live.symm.trans hr) (by simp)
  begun z hz := by
    obtain rfl := List.mem_singleton.mp hz
    refine ⟨rfl, ?_, hx.settling, hx.live, ?_, huncounted, hbound, ?_⟩
    · rw [hrun]
      exact hx.current
    · rw [hrun]
      exact hsink
    · rw [hrun]
      exact hsame
  sending y hy hwaits := by
    rw [h.not_waits hx hy] at hwaits
    cases hwaits
  idle _ hstarts := by cases hstarts

theorem Inv.begins (h : Inv s) {run : String} (hstarts : s.starts = [])
    (hsettling : s.settlingRun = none) (hrun : run ∉ s.runs) (brief : Option Brief)
    (resume : Option Transcript.Resume) {send : Option Send}
    (hsend : ∀ y, send = some y → y.waits = false) :
    Inv { beginRun s run brief resume with send := send } := by
  have hlive := h.live_none hsettling
  obtain ⟨hzero, -⟩ := h.idle hlive hstarts
  refine ⟨fun r hr => ?_, fun r hr => ?_, fun r hr => ?_, fun r hr => ⟨?_, fun hcurrent => ?_⟩,
    fun r hr => ?_, fun x hx => ?_, fun y hy hwaits => ?_, fun _ hnil => by cases hnil⟩
  · cases hr
    exact List.mem_cons_self
  · exact List.mem_cons_of_mem _ (h.settling_mem r hr)
  · exact List.mem_cons_of_mem _ (h.sinks_mem r hr)
  · exact List.mem_cons_of_mem _ (h.ending r hr).1
  · cases hcurrent
    exact hrun (h.ending _ hr).1
  · exact absurd (hlive.symm.trans hr) (by simp)
  · have hmem : x ∈ (⟨run, brief, resume, false, .begun⟩ : Starting) :: s.starts := hx
    rw [hstarts, List.mem_singleton] at hmem
    subst hmem
    refine ⟨congrArg (List.cons _) hstarts, rfl, hsettling, hlive, ?_, fun _ => rfl, ?_,
      fun hstage => absurd rfl hstage⟩
    · exact ⟨fun hsink => absurd (h.sinks_mem _ hsink) hrun, fun hstage => by cases hstage⟩
    · exact Nat.le_of_eq hzero
  · rw [hsend y hy] at hwaits
    cases hwaits

theorem Inv.handedOver (h : Inv s) (hx : Begun s x) (log : List CanonicalEvent) {count : ℕ}
    {briefCounted : Bool} (hbound : count ≤ if briefCounted then 1 else 0)
    (hsame : count = recount x.run log) :
    Inv (handOver { s with log := log, turnsInFlight := count } x briefCounted) := by
  rw [handOver_lone (s := { s with log := log, turnsInFlight := count }) hx.lone]
  refine h.advance hx rfl (fun r hr => ?_) ⟨fun _ => rfl, fun _ => List.mem_cons_self⟩
    (fun hstage => absurd rfl hstage) hbound fun _ => hsame
  rcases List.mem_cons.mp hr with rfl | hr
  · exact h.current_mem _ hx.current
  · exact h.sinks_mem r hr

theorem Begun.zero (hx : Begun s x) (hstage : x.stage ≠ .handed) : s.turnsInFlight = 0 := by
  have hbound := hx.bound
  rw [hx.uncounted hstage] at hbound
  exact Nat.le_zero.mp hbound

theorem runStartedWritten_none (hbrief : x.brief = none) (s : State) :
    runStartedWritten s x =
      handOver (appendAndPublish s [.runStarted x.run x.resume none]) x false := by
  unfold runStartedWritten
  simp only [hbrief]
  rfl

theorem runStartedWritten_logged {text : String} (hbrief : x.brief = some ⟨text, true⟩)
    (s : State) :
    runStartedWritten s x =
      setStart (appendAndPublish s [.runStarted x.run x.resume none])
        { x with stage := .written } := by
  unfold runStartedWritten
  simp only [hbrief]
  rfl

theorem runStartedWritten_carried {text : String} (hbrief : x.brief = some ⟨text, false⟩)
    (s : State) :
    runStartedWritten s x =
      handOver (addTurnInFlight (appendAndPublish s [.runStarted x.run x.resume (some 1)])) x
        true := by
  unfold runStartedWritten
  simp only [hbrief]
  rfl

theorem Inv.runStarted (h : Inv s) (hx : Begun s x) (hstage : x.stage = .begun) :
    Inv (runStartedWritten s x) := by
  have hzero := hx.zero (by simp [hstage])
  cases hbrief : x.brief with
  | none =>
    rw [runStartedWritten_none hbrief]
    refine h.handedOver hx _ (Nat.le_of_eq hzero) ?_
    rw [hzero, recount_runStarted]
    rfl
  | some brief =>
    obtain ⟨text, logBrief⟩ := brief
    cases logBrief with
    | true =>
      have hset : setStart (appendAndPublish s [.runStarted x.run x.resume none])
          { x with stage := .written } =
            { appendAndPublish s [.runStarted x.run x.resume none] with
              starts := [{ x with stage := .written }] } :=
        setStart_lone hx.lone rfl
      rw [runStartedWritten_logged hbrief, hset]
      refine h.advance hx rfl h.sinks_mem ?_ (fun _ => ?_) hx.bound fun _ => ?_
      · exact ⟨fun hsink => absurd (hx.sink.mp hsink) (by simp [hstage]),
          fun hhanded => by cases hhanded⟩
      · exact hx.uncounted (by simp [hstage])
      · rw [appendAndPublish, recount_runStarted]
        exact hzero
    | false =>
      rw [runStartedWritten_carried hbrief]
      refine h.handedOver hx _ (Nat.le_of_eq (congrArg (· + 1) hzero)) ?_
      rw [appendAndPublish, recount_runStarted]
      exact congrArg (· + 1) hzero

theorem Inv.briefWritten (h : Inv s) (hx : Begun s x) (hstage : x.stage = .written)
    (text : String) :
    Inv (handOver (addTurnInFlight (appendAndPublish s [.userMessage text])) x true) := by
  have hzero := hx.zero (by simp [hstage])
  refine h.handedOver hx _ (Nat.le_of_eq (congrArg (· + 1) hzero)) ?_
  rw [appendAndPublish, recount_userMessage]
  exact congrArg (· + 1) (hx.same (by simp [hstage]))

theorem endStart_lone (hx : s.starts = [x]) :
    endStart s x.run =
      { s with starts := [], send := if s.send = some (.starting x.run) then none else s.send } := by
  unfold endStart
  rw [hx]
  simp

theorem Inv.endStart_not_waits (h : Inv s) (hx : Begun s x) {y : Send}
    (hy : (if s.send = some (.starting x.run) then none else s.send) = some y) :
    y.waits = false := by
  split at hy
  · cases hy
  · exact h.not_waits hx hy

theorem unwritten_of_not_waits {send : Option Send}
    (h : ∀ y, send = some y → y.waits = false) : send.any Send.unwritten = false := by
  cases send with
  | none => rfl
  | some y =>
    have hy := h y rfl
    cases y <;> first | rfl | cases hy

theorem Inv.resolved (h : Inv s) (hx : Begun s x) (hstage : x.stage = .handed) :
    Inv (startResolved s x.run) := by
  unfold startResolved
  rw [endStart_lone hx.lone]
  refine Inv.touch ⟨h.current_mem, fun r hr => ?_, h.sinks_mem, h.ending, fun r hr => ?_,
    fun z hz => (by cases hz), fun y hy hwaits => ?_, fun hnone => (by cases hnone)⟩
  · cases hr
    exact h.current_mem _ hx.current
  · cases hr
    refine ⟨hx.current, rfl, rfl, fun _ => ?_⟩
    rw [State.unwritten, unwritten_of_not_waits fun y hy => h.endStart_not_waits hx hy]
    exact hx.same (by simp [hstage])
  · rw [h.endStart_not_waits hx hy] at hwaits
    cases hwaits

theorem Inv.failed (h : Inv s) (hx : Begun s x) : Inv (startFailed s x) := by
  have hdropped : ∀ count, count = 0 → Inv
      { endStart { s with turnsInFlight := count } x.run with
        currentRun := if s.currentRun = some x.run then none else s.currentRun } := by
    intro count hcount
    rw [endStart_lone (s := { s with turnsInFlight := count }) hx.lone, if_pos hx.current]
    refine ⟨fun r hr => (by cases hr), h.settling_mem, h.sinks_mem,
      fun r hr => ⟨(h.ending r hr).1, by simp⟩, fun r hr => ?_, fun z hz => (by cases hz),
      fun y hy hwaits => ?_, fun _ _ => ⟨hcount, rfl⟩⟩
    · exact absurd (hx.live.symm.trans hr) (by simp)
    · rw [h.endStart_not_waits hx hy] at hwaits
      cases hwaits
  have hbound := hx.bound
  unfold startFailed
  cases hcounted : x.briefCounted with
  | true =>
    rw [hcounted] at hbound
    exact hdropped _ (Nat.sub_eq_zero_of_le hbound)
  | false =>
    rw [hcounted] at hbound
    exact hdropped _ (Nat.le_zero.mp hbound)

section

variable {run : String}

variable (h : Inv s)

include h

theorem Inv.turnEnded (hrun : run ∈ s.sinks) {consumed : Option ℕ}
    (hproper : s.currentRun = some run → s.unwritten = true → consumed.getD 1 < s.turnsInFlight)
    (hcurrent : s.currentRun = some run) :
    Inv (dropTurnInFlight (touchActivity (appendAndPublish s [.turnEnded run consumed]))
      (consumed.getD 1)) := by
  refine ⟨h.current_mem, h.settling_mem, h.sinks_mem, h.ending, fun r hr => ?_,
    fun x hx => ?_, fun y hy hwaits => ?_, fun hlive hstarts => ?_⟩
  · have hlive := h.live r hr
    obtain rfl := Option.some.inj (hcurrent.symm.trans hlive.current)
    refine ⟨hlive.current, hlive.settling, hlive.starts, fun hrefused => ?_⟩
    have hsame := hlive.same hrefused
    change s.turnsInFlight - consumed.getD 1 =
      recount run (s.log ++ [.turnEnded run consumed]) + if s.unwritten then 1 else 0
    rw [recount_turnEnded]
    cases hunwritten : s.unwritten with
    | true =>
      have hlt := hproper hcurrent hunwritten
      rw [hunwritten] at hsame
      simp only [if_true] at hsame ⊢
      omega
    | false =>
      rw [hunwritten] at hsame
      exact congrArg (· - consumed.getD 1) hsame
  · have hbegun := h.begun x hx
    obtain rfl := Option.some.inj (hcurrent.symm.trans hbegun.current)
    refine ⟨hbegun.lone, hbegun.current, hbegun.settling, hbegun.live, hbegun.sink,
      hbegun.uncounted, (Nat.sub_le _ _).trans hbegun.bound, fun hstage => ?_⟩
    change s.turnsInFlight - consumed.getD 1 = recount x.run (s.log ++ [.turnEnded x.run consumed])
    rw [recount_turnEnded, hbegun.same hstage]
  · have hsending := h.sending y hy hwaits
    exact ⟨hsending.starts, hsending.runs, hsending.live, hsending.first⟩
  · obtain ⟨hzero, hnone⟩ := h.idle hlive hstarts
    exact absurd (hcurrent.symm.trans hnone) (by simp)

theorem Inv.event (hrun : run ∈ s.sinks) {event : CanonicalEvent}
    (hproper : proper s (.event run event) = true)
    (hstep : handleAdapterEvent s run event = some s') : Inv s' := by
  have hplain : isPlain event = true →
      some (touchActivity (appendAndPublish s [event])) = some s' → Inv s' := by
    intro hevent heq
    cases heq
    exact (h.append fun r _ => recount_plain hevent r s.log).touch
  cases event with
  | turnEnded id consumed =>
    simp only [handleAdapterEvent] at hstep
    by_cases hid : id = run
    · subst hid
      rw [if_pos rfl] at hstep
      cases hstep
      by_cases hcurrent : s.currentRun = some id
      · rw [if_pos (show (touchActivity (appendAndPublish s _)).currentRun = some id from
          hcurrent)]
        exact h.turnEnded hrun (of_decide_eq_true hproper) hcurrent
      · rw [if_neg (show ¬(touchActivity (appendAndPublish s _)).currentRun = some id from
          hcurrent)]
        refine (h.append fun r hr => recount_turnEnded_of_ne ?_ s.log consumed).touch
        rintro rfl
        exact hcurrent hr
    · rw [if_neg hid] at hstep
      cases hstep
  | userMessage | runStarted | runEnded => cases hstep
  | _ => exact hplain rfl hstep

theorem Inv.torndown (hcurrent : s.currentRun = some run) (hproper : ∀ x ∈ s.starts, x.run ≠ run)
    {ending : List String} (hending : ∀ r ∈ ending, r ∈ s.runs)
    {lastActivityAt activityTicks : Option ℕ} :
    Inv { s with
      turnsInFlight := 0, currentRun := none, liveRun := none, ending := ending
      lastActivityAt := lastActivityAt, activityTicks := activityTicks } := by
  have hstarts : s.starts = [] := by
    refine List.eq_nil_iff_forall_not_mem.mpr fun x hx => ?_
    exact hproper x hx (Option.some.inj ((h.begun x hx).current.symm.trans hcurrent))
  refine ⟨fun r hr => (by cases hr), h.settling_mem, h.sinks_mem,
    fun r hr => ⟨hending r hr, by simp⟩, fun r hr => (by cases hr), fun x hx => ?_,
    fun y hy hwaits => ?_, fun _ _ => ⟨rfl, rfl⟩⟩
  · have hnil : x ∈ s.starts := hx
    rw [hstarts] at hnil
    cases hnil
  · have hsending := h.sending y hy hwaits
    exact ⟨hsending.starts, hsending.runs, fun r hr => (by cases hr), hsending.first⟩

theorem Inv.marked (hrun : run ∈ s.runs) (hcurrent : s.currentRun ≠ some run) :
    Inv { s with ending := run :: s.ending } where
  __ := h
  ending r hr := by
    rcases List.mem_cons.mp hr with rfl | hr
    · exact ⟨hrun, hcurrent⟩
    · exact h.ending r hr
  live r hr := { h.live r hr with }
  begun x hx := { h.begun x hx with }
  sending y hy hwaits := { h.sending y hy hwaits with }

theorem Inv.handleRunEnded (hrun : run ∈ s.runs) (hproper : ∀ x ∈ s.starts, x.run ≠ run)
    (reason : Transcript.RunEndReason) (recorded : Bool) :
    Inv (handleRunEnded s run reason recorded) := by
  have hend : ∀ t : State, Inv t → t.currentRun = s.currentRun → t.starts = s.starts →
      t.runs = s.runs →
      Inv (if (touchActivity { t with ending := run :: t.ending }).currentRun = some run then
        { touchActivity { t with ending := run :: t.ending } with
          turnsInFlight := 0, currentRun := none, liveRun := none
          lastActivityAt := none, activityTicks := none }
        else touchActivity { t with ending := run :: t.ending }) := by
    intro t ht hcurrent hstarts hruns
    split
    · next hsame =>
      refine ht.torndown hsame (hstarts ▸ hproper) fun r hr => ?_
      rcases List.mem_cons.mp hr with rfl | hr
      · exact hruns ▸ hrun
      · exact (ht.ending r hr).1
    · next hother => exact (ht.marked (hruns ▸ hrun) hother).touch
  unfold TurnsInFlight.handleRunEnded
  cases recorded with
  | true =>
    exact hend _ (h.append fun r _ => recount_runEnded r run s.log reason) rfl rfl rfl
  | false => exact hend s h rfl rfl rfl

theorem Inv.erased (run : String) : Inv { s with ending := s.ending.erase run } where
  __ := h
  ending r hr := h.ending r (List.mem_of_mem_erase hr)
  live r hr := { h.live r hr with }
  begun x hx := { h.begun x hx with }
  sending y hy hwaits := { h.sending y hy hwaits with }

omit h

theorem settledBy_kept (run : String) (y : Send) (h : (settledBy run y).waits = true) :
    y.waits = true ∧ (settledBy run y).attempt = y.attempt := by
  cases y with
  | settling waited text logged attempt =>
    refine ⟨rfl, ?_⟩
    simp only [settledBy]
    split <;> rfl
  | _ => exact ⟨h, rfl⟩

theorem Inv.settled (h : Inv s) (hending : run ∈ s.ending) :
    Inv (settleRun { s with ending := s.ending.erase run } run) := by
  have hlive : ∀ r, s.liveRun = some r → r ≠ run := by
    rintro r hr rfl
    exact (h.ending r hending).2 (h.live r hr).current
  have herased : Inv { s with ending := s.ending.erase run } := h.erased run
  by_cases hsettling : s.settlingRun = some run
  · have hnone : s.liveRun = none := by
      refine Option.eq_none_iff_forall_ne_some.mpr fun r hr => hlive r hr ?_
      exact Option.some.inj ((h.live r hr).settling.symm.trans hsettling)
    rw [settleRun, if_pos (by exact hsettling)]
    refine ⟨h.current_mem, fun r hr => (by cases hr), h.sinks_mem, herased.ending, fun r hr => ?_,
      fun x hx => ?_, fun y hy hwaits => ?_, h.idle⟩
    · exact absurd (hnone.symm.trans hr) (by simp)
    · have hbegun := h.begun x hx
      exact ⟨hbegun.lone, hbegun.current, rfl, hbegun.live, hbegun.sink, hbegun.uncounted,
        hbegun.bound, hbegun.same⟩
    · obtain ⟨z, hz, rfl⟩ := Option.map_eq_some_iff.mp hy
      obtain ⟨hwaited, hattempt⟩ := settledBy_kept run z hwaits
      have hsending := h.sending z hz hwaited
      refine ⟨hsending.starts, hsending.runs, fun r hr => ?_, hattempt.trans hsending.first⟩
      exact absurd (hnone.symm.trans hr) (by simp)
  · rw [settleRun, if_neg (by exact hsettling)]
    exact herased

end

theorem inv_step (h : Inv s) {a : Action} (hproper : proper s a = true)
    (hstep : step s a = some s') : Inv s' := by
  cases a with
  | send text =>
    simp only [step] at hstep
    split at hstep
    · next hsend =>
      cases hstep
      exact h.sendMessage text (.inr ⟨hsend, rfl, rfl⟩)
    · cases hstep
  | userMessageWritten =>
    simp only [step] at hstep
    split at hstep
    · next hsend =>
      cases hstep
      exact h.written hsend
    · cases hstep
  | userMessageFailed =>
    simp only [step] at hstep
    split at hstep
    · next hsend =>
      cases hstep
      refine h.giveBack hsend rfl fun r hr => ?_
      have hsame := (h.live r hr).same (by rw [State.refused, hsend]; rfl)
      rw [State.unwritten, hsend] at hsame
      exact congrArg (· - 1) hsame
    · cases hstep
  | sendResolved | resumeRefused =>
    simp only [step] at hstep
    split at hstep
    · next hsend =>
      cases hstep
      refine h.setSend (fun y hy => (by cases hy)) fun r hr _ => ?_
      have hsame := (h.live r hr).same (by rw [State.refused, hsend]; rfl)
      rw [State.unwritten, hsend] at hsame
      exact hsame
    · cases hstep
  | sendRejected runEnded =>
    obtain rfl : runEnded = true := hproper
    simp only [step] at hstep
    split at hstep
    · next hsend =>
      cases hstep
      exact h.refuse hsend
    · cases hstep
  | sendAgain =>
    simp only [step] at hstep
    split at hstep
    · next hsend =>
      cases hstep
      refine h.sendMessage _ (.inl (Option.eq_none_iff_forall_ne_some.mpr fun r hr => ?_))
      cases (h.sending _ hsend rfl).live r hr
    · cases hstep
  | startTask run brief =>
    obtain ⟨hstarts, hsettling⟩ := of_decide_eq_true hproper
    simp only [step] at hstep
    split at hstep
    · next hruns =>
      cases hstep
      refine h.begins hstarts hsettling (by simp [hruns]) _ _ fun y hy => ?_
      cases hwaits : y.waits with
      | false => rfl
      | true => exact absurd hruns (h.sending y hy hwaits).runs
    · cases hstep
  | resume run mode =>
    obtain ⟨hstarts, hsettling⟩ := of_decide_eq_true hproper
    simp only [step] at hstep
    split at hstep
    · split at hstep
      · cases hstep
      · next hrun =>
        cases hstep
        refine h.begins hstarts hsettling hrun _ _ fun y hy => ?_
        cases hy
        rfl
    · cases hstep
  | runStartedWritten run =>
    simp only [step] at hstep
    split at hstep
    · next x hx =>
      obtain ⟨hmem, rfl⟩ := mem_of_startOf hx
      split at hstep
      · next hstage =>
        cases hstep
        exact h.runStarted (h.begun x hmem) hstage
      · cases hstep
    · cases hstep
  | briefWritten run =>
    simp only [step] at hstep
    split at hstep
    · next x hx =>
      obtain ⟨hmem, rfl⟩ := mem_of_startOf hx
      split at hstep
      · next hstage =>
        cases hstep
        exact h.briefWritten (h.begun x hmem) hstage _
      · cases hstep
    · cases hstep
  | startResolved run =>
    simp only [step] at hstep
    split at hstep
    · next x hx =>
      obtain ⟨hmem, rfl⟩ := mem_of_startOf hx
      split at hstep
      · next hstage =>
        cases hstep
        exact h.resolved (h.begun x hmem) hstage
      · cases hstep
    · cases hstep
  | startFailed run =>
    simp only [step] at hstep
    split at hstep
    · next x hx =>
      obtain ⟨hmem, rfl⟩ := mem_of_startOf hx
      cases hstep
      exact h.failed (h.begun x hmem)
    · cases hstep
  | event run event =>
    simp only [step] at hstep
    split at hstep
    · next hrun => exact h.event hrun hproper hstep
    · cases hstep
  | runEnded run reason recorded =>
    simp only [step] at hstep
    split at hstep
    · next hrun =>
      cases hstep
      exact h.handleRunEnded (h.sinks_mem run hrun) (of_decide_eq_true hproper) reason recorded
    · cases hstep
  | settle run =>
    simp only [step] at hstep
    split at hstep
    · next hending =>
      cases hstep
      exact h.settled hending
    · cases hstep
  | append event =>
    simp only [step] at hstep
    split at hstep
    · next hplain =>
      cases hstep
      exact h.append fun r _ => recount_plain hplain r s.log
    · cases hstep
  | question pending | wait ms =>
    cases hstep
    exact h.unread

variable {acts : List Action}

theorem inv_of_run (run : Run step (fun s a => proper s a = true) init acts s) : Inv s :=
  run.inv Inv inv_init fun _ _ _ h hproper hstep => inv_step h hproper hstep

/-- With no send under way the two agree on the live run, and so the sweep ends a run that the chat
shows as working only with a question open, and keeps none past the limit that it shows as idle. -/
theorem working_agrees (run : Run step (fun s a => proper s a = true) init acts s)
    (hsend : s.send = none) {r : String} (hlive : s.liveRun = some r) :
    isTurnInFlight s = turnInFlight s.log (some r) ∧
      ∀ tick idleMs now,
        (endsIdleRun s tick idleMs now = true → turnInFlight s.log (some r) = true →
          s.pendingQuestion = true) ∧
        (turnInFlight s.log (some r) = false → s.activityTicks = tick →
          idleMs < now - s.lastActivityAt.getD now → endsIdleRun s tick idleMs now = true) := by
  have hsame := ((inv_of_run run).live r hlive).same (by rw [State.refused, hsend]; rfl)
  rw [State.unwritten, hsend] at hsame
  have hagree : isTurnInFlight s = turnInFlight s.log (some r) := by
    rw [isTurnInFlight, turnInFlight_some]
    exact congrArg (fun n => decide (0 < n)) hsame
  refine ⟨hagree, fun tick idleMs now => ⟨fun hends hworking => ?_, fun hidle htick hlong => ?_⟩⟩
  · rw [← hagree] at hworking
    unfold endsIdleRun isIdleRun at hends
    simp only [hworking, Bool.and_eq_true, Bool.true_and, Bool.not_not] at hends
    exact hends.2.1
  · rw [← hagree] at hidle
    simp [endsIdleRun, isIdleRun, hlive, htick, hidle, hlong]

/-- Two messages answered by one turn, a third that the ending run refuses and the next run carries,
and a late event of the first run. -/
def redelivered : List Action :=
  [.startTask "r1" (some "a"), .runStartedWritten "r1", .briefWritten "r1", .startResolved "r1",
    .send "b", .userMessageWritten, .sendResolved, .event "r1" (.turnEnded "r1" (some 2)),
    .send "c", .userMessageWritten, .sendRejected true, .runEnded "r1" .error true, .settle "r1",
    .sendAgain, .resume "r2" (some .conversation), .runStartedWritten "r2", .startResolved "r2",
    .event "r1" (.turnEnded "r1" none)]

theorem working_agrees_redelivered :
    (exec step init redelivered).any (fun s => decide (s.liveRun = some "r2") &&
      isTurnInFlight s && turnInFlight s.log (some "r2")) = true := by
  obtain ⟨s, hs, hchecks⟩ := (Option.any_eq_true _ _).mp (show (exec step init redelivered).any
    (fun s => decide (s.liveRun = some "r2" ∧ s.send = none ∧ isTurnInFlight s = true)) = true
      by decide)
  rw [decide_eq_true_eq] at hchecks
  obtain ⟨hlive, hsend, hworking⟩ := hchecks
  have hagree := (working_agrees (Run.of_exec hs (by decide)) hsend hlive).1
  rw [hs, Option.any_some, ← hagree, hworking, hlive]
  rfl

/-- A message that the run rejects while it is alive: the chat goes on waiting for its answer, and
the sweep ends the run. -/
theorem rejected_message_still_awaited :
    ¬∀ (acts : List Action) (s : State), Run step (fun _ _ => True) init acts s →
      s.send = none → ∀ r, s.liveRun = some r → isTurnInFlight s = turnInFlight s.log (some r) := by
  intro h
  obtain ⟨s, hs, hwrong⟩ := (Option.any_eq_true _ _).mp (show (exec step init
      [.startTask "r1" (some "a"), .runStartedWritten "r1", .briefWritten "r1",
        .startResolved "r1", .event "r1" (.turnEnded "r1" none), .send "b", .userMessageWritten,
        .sendRejected false]).any (fun s => decide (s.send = none ∧ s.liveRun = some "r1" ∧
      isTurnInFlight s = false ∧ turnInFlight s.log (some "r1") = true)) = true by decide)
  rw [decide_eq_true_eq] at hwrong
  obtain ⟨hsend, hlive, hidle, hworking⟩ := hwrong
  have hagree := h _ s (Run.of_exec_eq_some hs) hsend "r1" hlive
  rw [hidle, hworking] at hagree
  cases hagree

end Portuni.TurnsInFlight
