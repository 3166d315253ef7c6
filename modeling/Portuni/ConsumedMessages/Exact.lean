import Mathlib.Data.List.Induction
import Mathlib.Data.List.Nodup
import Portuni.Library.Runs

/-!
Which of the messages sent to an agent are still to be answered. The adapter keeps the uuids of the
messages it pushed and takes off what a result of the agent reports; the agent reads the messages
from the prompt stream into its queue, takes a turn's messages from the front of it, and throws the
queue away when it is interrupted.
-/

namespace Portuni.ConsumedMessages

section

/-- What a result says about the messages: the echoes, and the length of the agent's queue. -/
structure ResultMessage (U : Type*) where
  userMessageUuid : Option U
  userMessageUuids : Option (List U)
  queuedTurnCount : Option ℕ
  cutShort : Bool
  /-- The reason of `providerResultFailure`. -/
  failure : Option String

variable {U : Type*} [DecidableEq U]

def takeEchoed (pending : List U) (msg : ResultMessage U) : List U :=
  let list := msg.userMessageUuids
  let last := msg.userMessageUuid
  if (list.getD []).any (· ∈ pending) then pending.filter (· ∉ list.getD [])
  else
    match last with
    | some uuid => if uuid ∈ pending then pending.drop (pending.idxOf uuid + 1) else pending
    | none => if list = none then pending.drop 1 else pending

def consumeSendUuids (pending : List U) (msg : ResultMessage U) : List U × ℕ :=
  if pending = [] then ([], 0)
  else
    let left := takeEchoed pending msg
    let left := match msg.queuedTurnCount with
      | some queued => left.drop (left.length - queued)
      | none => left
    (left, pending.length - left.length)

/-- The part of `RunTranslationState` that the messages and the results go through. -/
structure RunTranslationState (U : Type*) where
  pendingSends : List U
  interruptRequested : Bool
  providerEndReason : Option String

def createState : RunTranslationState U := ⟨[], false, none⟩

def pushPrompt (state : RunTranslationState U) (uuid : U) : RunTranslationState U :=
  { state with pendingSends := state.pendingSends ++ [uuid] }

inductive Sent where
  | error (reason : String)
  | turnEnded (consumedMessages : ℕ)
deriving DecidableEq

/-- The branch of `translateMessage` for a result: the new state, and what goes to the sink. -/
def translateResult (state : RunTranslationState U) (msg : ResultMessage U) :
    RunTranslationState U × Option Sent :=
  let interrupted := state.interruptRequested && msg.cutShort
  let consumed := consumeSendUuids state.pendingSends msg
  let failure := if interrupted then none else msg.failure
  let after : RunTranslationState U :=
    { state with pendingSends := consumed.1, interruptRequested := false }
  match failure with
  | some reason =>
    if state.providerEndReason = none then
      ({ after with providerEndReason := some reason }, some (.error reason))
    else (after, none)
  | none => (after, some (.turnEnded consumed.2))

end

inductive Echo where
  | all
  | last
  | silent
deriving DecidableEq

structure Produced (U : Type*) where
  msg : ResultMessage U
  /-- The messages that left the agent's queue since the result before, in the order they were
  sent; the flag tells an answered message from a discarded one. -/
  left : List (U × Bool)
  /-- The agent's queue when the result was produced. -/
  waiting : List U

structure State (U : Type*) where
  adapter : RunTranslationState U
  sent : List U
  stream : List U
  queue : List U
  /-- What left the queue since the last result was produced. -/
  left : List (U × Bool)
  /-- The results that were produced and not handled, the oldest first. -/
  results : List (Produced U)
  sink : List Sent

inductive Action (U : Type*) where
  | send (uuid : U)
  | read
  | take
  | interrupt
  | discard
  | produce (echo : Echo) (counts cutShort : Bool) (failure : Option String)
  | handle
deriving DecidableEq

variable {U : Type*}

def names (left : List (U × Bool)) : List U := left.map (·.1)

def answered (left : List (U × Bool)) : List U := (left.filter (·.2)).map (·.1)

def resultOf (left : List (U × Bool)) (waiting : List U) (echo : Echo) (counts cutShort : Bool)
    (failure : Option String) : ResultMessage U where
  userMessageUuid := if echo = .silent then none else (answered left).getLast?
  userMessageUuids := if echo = .all then some (answered left) else none
  queuedTurnCount := if counts then some waiting.length else none
  cutShort := cutShort
  failure := failure

def init : State U := ⟨createState, [], [], [], [], [], []⟩

def step [DecidableEq U] (s : State U) : Action U → Option (State U)
  | .send uuid =>
    if uuid ∈ s.sent ∨ s.adapter.providerEndReason ≠ none then none
    else some
      { s with
        adapter := pushPrompt s.adapter uuid
        sent := s.sent ++ [uuid]
        stream := s.stream ++ [uuid] }
  | .read =>
    match s.stream with
    | [] => none
    | uuid :: stream => some { s with stream := stream, queue := s.queue ++ [uuid] }
  | .take =>
    match s.queue with
    | [] => none
    | uuid :: queue => some { s with queue := queue, left := s.left ++ [(uuid, true)] }
  | .interrupt => some { s with adapter := { s.adapter with interruptRequested := true } }
  | .discard => some { s with queue := [], left := s.left ++ s.queue.map (·, false) }
  | .produce echo counts cutShort failure =>
    some
      { s with
        left := []
        results := s.results ++
          [⟨resultOf s.left s.queue echo counts cutShort failure, s.left, s.queue⟩] }
  | .handle =>
    match s.results with
    | [] => none
    | result :: results =>
      let after := translateResult s.adapter result.msg
      some
        { s with
          adapter := after.1
          results := results
          sink := s.sink ++ after.2.toList }

end Portuni.ConsumedMessages

namespace Portuni.ConsumedMessages

open Library.Runs

section

variable {U : Type*} {left : List (U × Bool)} {rest waiting : List U}

def discarded (left : List (U × Bool)) : List U := (left.filter fun m => !m.2).map (·.1)

theorem mem_answered {uuid : U} : uuid ∈ answered left ↔ (uuid, true) ∈ left := by
  simp [answered]

theorem drop_eq_rest_iff (kept : List U) {n : ℕ} (hn : n ≤ rest.length) :
    (kept ++ rest).drop ((kept ++ rest).length - n) = rest ↔ rest.length = n := by
  have hdrop : (kept ++ rest).length - n = kept.length + (rest.length - n) := by
    rw [List.length_append]
    omega
  rw [hdrop, ← List.drop_drop, List.drop_left]
  constructor
  · intro heq
    have hlength := congrArg List.length heq
    rw [List.length_drop] at hlength
    omega
  · intro heq
    rw [heq, Nat.sub_self, List.drop_zero]

theorem seen_iff (hnodup : (names left ++ rest).Nodup) (hwaiting : waiting <+: rest) :
    (∀ uuid ∈ names left ++ rest, uuid ∈ names left ∨ uuid ∈ waiting) ↔
      rest.length = waiting.length := by
  obtain ⟨later, rfl⟩ := hwaiting
  constructor
  · intro hseen
    have hnone : later = [] := by
      refine List.eq_nil_iff_forall_not_mem.mpr fun uuid huuid => ?_
      have hdisjoint := List.nodup_append.mp hnodup
      have hlater := List.nodup_append.mp hdisjoint.2.1
      rcases hseen uuid (by simp [huuid]) with h | h
      · exact hdisjoint.2.2 uuid h uuid (by simp [huuid]) rfl
      · exact hlater.2.2 uuid h uuid huuid rfl
    rw [hnone, List.append_nil]
  · intro hlength uuid huuid
    have hnone : later = [] := by
      rw [List.length_append] at hlength
      exact List.length_eq_zero_iff.mp (by omega)
    rw [hnone, List.append_nil] at huuid
    exact List.mem_append.mp huuid

theorem answered_append_singleton (m : U × Bool) :
    answered (left ++ [m]) = if m.2 then answered left ++ [m.1] else answered left := by
  cases m with
  | mk uuid flag => cases flag <;> simp [answered]

theorem exists_last_answered {uuid : U} (h : (answered left).getLast? = some uuid) :
    ∃ before behind, left = before ++ (uuid, true) :: behind ∧ ∀ m ∈ behind, m.2 = false := by
  induction left using List.reverseRecOn with
  | nil => cases h
  | append_singleton left m ih =>
    rw [answered_append_singleton] at h
    cases hm : m.2 with
    | true =>
      rw [hm, if_pos rfl, List.getLast?_concat, Option.some.injEq] at h
      exact ⟨left, [], by rw [← h, ← hm], by simp⟩
    | false =>
      rw [hm, if_neg Bool.false_ne_true] at h
      obtain ⟨before, behind, rfl, hbehind⟩ := ih h
      refine ⟨before, behind ++ [m], by simp, fun n hn => ?_⟩
      rcases List.mem_append.mp hn with hn | hn
      · exact hbehind n hn
      · exact List.mem_singleton.mp hn ▸ hm

variable [DecidableEq U]

theorem filter_answered (hnodup : (names left ++ rest).Nodup) :
    (names left ++ rest).filter (· ∉ answered left) = discarded left ++ rest := by
  have hparts := List.nodup_append.mp hnodup
  have hrest : rest.filter (· ∉ answered left) = rest := by
    refine List.filter_eq_self.mpr fun uuid huuid => decide_eq_true fun hmem => ?_
    exact hparts.2.2 uuid (List.mem_map_of_mem (mem_answered.mp hmem)) uuid huuid rfl
  have hleft : (names left).filter (· ∉ answered left) = discarded left := by
    rw [names, List.filter_map, discarded]
    congr 1
    refine List.filter_congr fun m hm => ?_
    rw [Function.comp_apply, Bool.eq_iff_iff, decide_eq_true_eq, mem_answered,
      Bool.not_eq_true', ← Bool.not_eq_true]
    refine not_congr ⟨fun hmem => ?_, fun hflag => ?_⟩
    · rw [List.inj_on_of_nodup_map hparts.1 hm hmem rfl]
    · rw [← hflag]
      exact hm
  rw [List.filter_append, hleft, hrest]

end

section

variable {U : Type*}

def Silent (msg : ResultMessage U) : Prop :=
  msg.userMessageUuids = none ∧ msg.userMessageUuid = none

/-- The echoes of a result, with no count beside them, tell of everything that left. -/
def EchoesAll (result : Produced U) : Prop :=
  if result.msg.userMessageUuids ≠ none then ∀ m ∈ result.left, m.2 = true
  else if result.msg.userMessageUuid ≠ none then
    result.left.getLast?.map (·.1) = result.msg.userMessageUuid
  else result.left.length = 1

/-- A result tells what left: it names a message or stands for one, and either it counts the
agent's queue when every message still owed has arrived there, or its echoes tell of everything. -/
def Tells (result : Produced U) (owed : List U) : Prop :=
  (Silent result.msg → result.left = [] → owed = []) ∧
    (owed ≠ [] →
      if result.msg.queuedTurnCount = none then EchoesAll result
      else ∀ uuid ∈ owed, uuid ∈ names result.left ∨ uuid ∈ result.waiting)

variable [DecidableEq U] {left : List (U × Bool)} {rest waiting : List U}

instance (msg : ResultMessage U) : Decidable (Silent msg) := inferInstanceAs (Decidable (_ ∧ _))

instance (result : Produced U) : Decidable (EchoesAll result) :=
  inferInstanceAs (Decidable (ite _ _ _))

instance (result : Produced U) (owed : List U) : Decidable (Tells result owed) :=
  inferInstanceAs (Decidable (_ ∧ _))

theorem takeEchoed_resultOf (hnodup : (names left ++ rest).Nodup) {echo : Echo}
    {counts cutShort : Bool} {failure : Option String}
    (htold : Silent (resultOf left waiting echo counts cutShort failure) → left ≠ []) :
    ∃ kept, takeEchoed (names left ++ rest) (resultOf left waiting echo counts cutShort failure) =
        kept ++ rest ∧ (kept = [] ↔
        EchoesAll ⟨resultOf left waiting echo counts cutShort failure, left, waiting⟩) := by
  have hsilent : ∀ msg : ResultMessage U, Silent msg → left ≠ [] →
      ∃ kept, takeEchoed (names left ++ rest) msg = kept ++ rest ∧
        (kept = [] ↔ EchoesAll ⟨msg, left, waiting⟩) := by
    intro msg hmsg hne
    cases left with
    | nil => exact absurd rfl hne
    | cons m left =>
      refine ⟨names left, ?_, ?_⟩
      · simp [takeEchoed, hmsg.1, hmsg.2, names]
      · simp [EchoesAll, hmsg.1, hmsg.2, names]
  cases echo with
  | silent => exact hsilent _ ⟨rfl, rfl⟩ (htold ⟨rfl, rfl⟩)
  | all =>
    refine ⟨discarded left, ?_, ?_⟩
    · have hlist : (resultOf left waiting .all counts cutShort failure).userMessageUuids.getD [] =
          answered left := rfl
      rw [takeEchoed, hlist, filter_answered hnodup]
      split
      · rfl
      · next hnone =>
        have hempty : answered left = [] := by
          refine List.eq_nil_iff_forall_not_mem.mpr fun uuid huuid => hnone ?_
          refine List.any_eq_true.mpr ⟨uuid, huuid, decide_eq_true ?_⟩
          exact List.mem_append_left _ (List.mem_map_of_mem (mem_answered.mp huuid))
        have hfilter := filter_answered hnodup
        rw [hempty] at hfilter
        simpa [resultOf, hempty] using hfilter
    · simp [EchoesAll, resultOf, discarded]
  | last =>
    cases hlast : (answered left).getLast? with
    | none =>
      have hmsg : Silent (resultOf left waiting .last counts cutShort failure) :=
        ⟨rfl, by simp [resultOf, hlast]⟩
      exact hsilent _ hmsg (htold hmsg)
    | some uuid =>
      obtain ⟨before, behind, rfl, hbehind⟩ := exists_last_answered hlast
      refine ⟨names behind, ?_, ?_⟩
      · have hlist : (resultOf (before ++ (uuid, true) :: behind) waiting .last counts cutShort
            failure).userMessageUuid = some uuid := hlast
        have hnames : names (before ++ (uuid, true) :: behind) ++ rest =
            names before ++ uuid :: (names behind ++ rest) := by simp [names]
        rw [hnames] at hnodup ⊢
        have hfirst : uuid ∉ names before := fun h =>
          (List.nodup_append.mp hnodup).2.2 uuid h uuid List.mem_cons_self rfl
        have hindex : (names before ++ uuid :: (names behind ++ rest)).idxOf uuid =
            (names before).length := by
          rw [List.idxOf_append_of_notMem hfirst, List.idxOf_cons_self, Nat.add_zero]
        rw [takeEchoed, hlist]
        simp [resultOf, hindex]
      · have hechoes : EchoesAll
            ⟨resultOf (before ++ (uuid, true) :: behind) waiting .last counts cutShort failure,
              before ++ (uuid, true) :: behind, waiting⟩ ↔
            (before ++ (uuid, true) :: behind).getLast?.map (·.1) = some uuid := by
          simp [EchoesAll, resultOf, hlast]
        rw [hechoes, names, List.map_eq_nil_iff]
        constructor
        · rintro rfl
          simp
        · intro hlastName
          by_contra hne
          obtain ⟨behind, m, rfl⟩ := (List.eq_nil_or_concat' behind).resolve_left hne
          have hname : m.1 = uuid := by
            rw [← List.cons_append, ← List.append_assoc, List.getLast?_concat] at hlastName
            exact Option.some.inj hlastName
          have hnames : (uuid :: names (behind ++ [m]) ++ rest).Nodup := by
            refine hnodup.sublist ?_
            simp [names]
          exact (List.nodup_cons.mp hnames).1 (by simp [names, hname])

theorem consumeSendUuids_eq_iff (hnodup : (names left ++ rest).Nodup) (hwaiting : waiting <+: rest)
    (echo : Echo) (counts cutShort : Bool) (failure : Option String) :
    (consumeSendUuids (names left ++ rest)
        (resultOf left waiting echo counts cutShort failure)).1 = rest ↔
      Tells ⟨resultOf left waiting echo counts cutShort failure, left, waiting⟩
        (names left ++ rest) := by
  have hcount : (resultOf left waiting echo counts cutShort failure).queuedTurnCount =
      if counts then some waiting.length else none := rfl
  by_cases hnone : names left ++ rest = []
  · have hrest := (List.append_eq_nil_iff.mp hnone).2
    rw [consumeSendUuids, if_pos hnone, Tells, hnone, hrest]
    exact ⟨fun _ => ⟨fun _ _ => rfl, fun h => absurd rfl h⟩, fun _ => rfl⟩
  by_cases hsilent : Silent (resultOf left waiting echo counts cutShort failure) ∧ left = []
  · obtain ⟨hmsg, rfl⟩ := hsilent
    have hne : rest ≠ [] := by simpa [names] using hnone
    have htaken : takeEchoed (names [] ++ rest)
        (resultOf [] waiting echo counts cutShort failure) = rest.drop 1 := by
      simp [takeEchoed, hmsg.1, hmsg.2, names]
    constructor
    · intro heq
      have hlength := congrArg List.length heq
      have hpos := List.length_pos_iff.mpr hne
      rw [consumeSendUuids, if_neg hnone, htaken] at hlength
      cases counts with
      | true =>
        simp only [hcount, if_pos, List.length_drop] at hlength
        omega
      | false =>
        simp only [hcount, Bool.false_eq_true, if_false, List.length_drop] at hlength
        omega
    · exact fun htells => absurd (htells.1 hmsg rfl) hnone
  · have htold : Silent (resultOf left waiting echo counts cutShort failure) → left ≠ [] :=
      fun hmsg hnil => hsilent ⟨hmsg, hnil⟩
    obtain ⟨kept, htaken, hkept⟩ := takeEchoed_resultOf hnodup htold
    have htells : Tells ⟨resultOf left waiting echo counts cutShort failure, left, waiting⟩
        (names left ++ rest) ↔ if counts then rest.length = waiting.length else kept = [] := by
      have hfirst : Silent (resultOf left waiting echo counts cutShort failure) → left = [] →
          names left ++ rest = [] := fun hmsg hnil => absurd ⟨hmsg, hnil⟩ hsilent
      rw [Tells, and_iff_right hfirst, imp_iff_right hnone, hcount]
      cases counts with
      | true => simpa using seen_iff hnodup hwaiting
      | false => simpa using hkept.symm
    rw [htells, consumeSendUuids, if_neg hnone, htaken, hcount]
    cases counts with
    | true => simpa using drop_eq_rest_iff kept hwaiting.length_le
    | false => simp

end

variable {U : Type*}

/-- The messages that no handled result tells to have left the agent, in the order they were
sent. -/
def State.owed (s : State U) : List U :=
  names (s.results.flatMap (·.left)) ++ names s.left ++ s.queue ++ s.stream

/-- Each result that waits to be handled saw the agent's queue as it then was. -/
def Waits (results : List (Produced U)) (tail : List U) : Prop :=
  match results with
  | [] => True
  | result :: results =>
    result.waiting <+: names (results.flatMap (·.left)) ++ tail ∧
      (∃ echo counts cutShort failure,
        result.msg = resultOf result.left result.waiting echo counts cutShort failure) ∧
      Waits results tail

variable {results : List (Produced U)} {tail : List U}

theorem Waits.mono {tail' : List U} (h : Waits results tail) (hle : tail <+: tail') :
    Waits results tail' := by
  induction results with
  | nil => trivial
  | cons result results ih =>
    obtain ⟨hseen, hmsg, hrest⟩ := h
    exact ⟨hseen.trans ((List.prefix_append_right_inj _).mpr hle), hmsg, ih hrest⟩

theorem Waits.concat {left : List (U × Bool)} {queue stream : List U}
    (h : Waits results (names left ++ queue ++ stream)) (echo : Echo) (counts cutShort : Bool)
    (failure : Option String) :
    Waits (results ++ [⟨resultOf left queue echo counts cutShort failure, left, queue⟩])
      (queue ++ stream) := by
  induction results with
  | nil =>
    refine ⟨?_, ⟨echo, counts, cutShort, failure, rfl⟩, trivial⟩
    simp [names]
  | cons result results ih =>
    obtain ⟨hseen, hmsg, hrest⟩ := h
    refine ⟨?_, hmsg, ih hrest⟩
    simpa [names] using hseen

structure Inv (s : State U) : Prop where
  pending : s.adapter.pendingSends = s.owed
  nodup : s.owed.Nodup
  sent : ∀ uuid ∈ s.owed, uuid ∈ s.sent
  waits : Waits s.results (names s.left ++ s.queue ++ s.stream)

theorem inv_init : Inv (init : State U) where
  pending := rfl
  nodup := List.nodup_nil
  sent := by simp [State.owed, init, names]
  waits := trivial

variable [DecidableEq U]

def ResultsTell (s : State U) (a : Action U) : Prop :=
  a = .handle → ∀ result ∈ s.results.head?, Tells result s.owed

instance (s : State U) (a : Action U) : Decidable (ResultsTell s a) :=
  inferInstanceAs (Decidable (_ → _))

theorem translateResult_pendingSends (state : RunTranslationState U) (msg : ResultMessage U) :
    (translateResult state msg).1.pendingSends = (consumeSendUuids state.pendingSends msg).1 := by
  unfold translateResult
  dsimp only
  generalize (if (state.interruptRequested && msg.cutShort) = true then none else msg.failure) =
    failure
  cases failure with
  | none => rfl
  | some reason =>
    dsimp only
    split <;> rfl

theorem translateResult_turnEnded {state : RunTranslationState U} {msg : ResultMessage U} {n : ℕ}
    (h : (translateResult state msg).2 = some (.turnEnded n)) :
    n = state.pendingSends.length - (translateResult state msg).1.pendingSends.length := by
  rw [translateResult_pendingSends]
  have hcount : n = (consumeSendUuids state.pendingSends msg).2 := by
    revert h
    unfold translateResult
    dsimp only
    generalize (if (state.interruptRequested && msg.cutShort) = true then none else msg.failure) =
      failure
    cases failure with
    | none =>
      intro h
      cases h
      rfl
    | some reason =>
      dsimp only
      split <;> exact fun h => nomatch h
  rw [hcount, consumeSendUuids]
  split
  · next hnone => rw [hnone]; rfl
  · rfl

theorem Inv.handle_iff {s : State U} (h : Inv s) {result : Produced U}
    (hresults : s.results = result :: results) :
    (translateResult s.adapter result.msg).1.pendingSends =
        names (results.flatMap (·.left)) ++ names s.left ++ s.queue ++ s.stream ↔
      Tells result s.owed := by
  have howed : s.owed = names result.left ++
      (names (results.flatMap (·.left)) ++ (names s.left ++ s.queue ++ s.stream)) := by
    simp [State.owed, hresults, names]
  obtain ⟨hwaiting, ⟨echo, counts, cutShort, failure, hmsg⟩, -⟩ := hresults ▸ h.waits
  have hnodup := howed ▸ h.nodup
  have hiff := consumeSendUuids_eq_iff hnodup hwaiting echo counts cutShort failure
  rw [← hmsg, ← howed] at hiff
  rw [translateResult_pendingSends, h.pending, ← hiff, List.append_assoc, List.append_assoc,
    ← List.append_assoc (names s.left)]

theorem inv_step {s s' : State U} {a : Action U} (h : Inv s) (hallowed : ResultsTell s a)
    (hstep : step s a = some s') : Inv s' := by
  have hsame : s'.owed = s.owed → s'.adapter.pendingSends = s.adapter.pendingSends →
      s'.sent = s.sent → Waits s'.results (names s'.left ++ s'.queue ++ s'.stream) → Inv s' := by
    intro howed hpending hsent hwaits
    exact ⟨by rw [hpending, howed, h.pending], howed ▸ h.nodup, howed ▸ hsent ▸ h.sent, hwaits⟩
  cases a with
  | send uuid =>
    simp only [step] at hstep
    split at hstep
    · cases hstep
    · next hfresh =>
      cases hstep
      have hnew : uuid ∉ s.sent := fun hmem => hfresh (.inl hmem)
      have howed : State.owed { s with
          adapter := pushPrompt s.adapter uuid
          sent := s.sent ++ [uuid]
          stream := s.stream ++ [uuid] } = s.owed ++ [uuid] := by
        simp [State.owed]
      refine ⟨?_, ?_, ?_, ?_⟩
      · rw [howed, pushPrompt, h.pending]
      · rw [howed]
        refine List.nodup_append.mpr ⟨h.nodup, List.nodup_singleton uuid, ?_⟩
        rintro x hx y hy rfl
        exact hnew (List.mem_singleton.mp hy ▸ h.sent x hx)
      · rw [howed]
        intro x hx
        rcases List.mem_append.mp hx with hx | hx
        · exact List.mem_append_left _ (h.sent x hx)
        · exact List.mem_append_right _ hx
      · refine h.waits.mono ?_
        rw [← List.append_assoc]
        exact List.prefix_append _ _
  | read =>
    simp only [step] at hstep
    split at hstep
    · cases hstep
    · next uuid stream hstream =>
      cases hstep
      refine hsame ?_ rfl rfl ?_
      · simp [State.owed, hstream]
      · simpa [hstream] using h.waits
  | take =>
    simp only [step] at hstep
    split at hstep
    · cases hstep
    · next uuid queue hqueue =>
      cases hstep
      refine hsame ?_ rfl rfl ?_
      · simp [State.owed, hqueue, names]
      · simpa [hqueue, names] using h.waits
  | interrupt =>
    cases hstep
    exact hsame rfl rfl rfl h.waits
  | discard =>
    cases hstep
    refine hsame ?_ rfl rfl ?_
    · simp [State.owed, names, Function.comp_def]
    · simpa [names, Function.comp_def] using h.waits
  | produce echo counts cutShort failure =>
    cases hstep
    refine hsame ?_ rfl rfl ?_
    · simp [State.owed, names]
    · simpa [names] using h.waits.concat echo counts cutShort failure
  | handle =>
    simp only [step] at hstep
    split at hstep
    · cases hstep
    · next result results hresults =>
      cases hstep
      have htells := hallowed rfl result (by rw [hresults]; rfl)
      have hpending := (h.handle_iff hresults).mpr htells
      have howed : s.owed = names result.left ++
          (names (results.flatMap (·.left)) ++ names s.left ++ s.queue ++ s.stream) := by
        simp [State.owed, hresults, names]
      refine ⟨hpending, ?_, ?_, ?_⟩
      · exact (List.nodup_append.mp (howed ▸ h.nodup)).2.1
      · exact fun uuid huuid => h.sent uuid (howed ▸ List.mem_append_right _ huuid)
      · have hwaits := h.waits
        rw [hresults] at hwaits
        exact hwaits.2.2

/-- In a run whose results all tell, the pending messages are those that the agent still owes an
answer to; and the next result is accounted for exactly, the number of messages that left
included, if and only if it tells too. -/
theorem consumed_messages_exact {acts : List (Action U)} {s : State U}
    (run : Run step ResultsTell init acts s) :
    s.adapter.pendingSends = s.owed ∧
      ∀ result results s', s.results = result :: results → step s .handle = some s' →
        ((s'.adapter.pendingSends = s'.owed ∧
            ∀ n, s'.sink = s.sink ++ [.turnEnded n] → n = result.left.length) ↔
          Tells result s.owed) := by
  have h := run.inv Inv inv_init fun s a s' hinv hallowed hstep => inv_step hinv hallowed hstep
  refine ⟨h.pending, fun result results s' hresults hstep => ?_⟩
  simp only [step, hresults] at hstep
  cases hstep
  have hiff := h.handle_iff hresults
  refine ⟨fun hexact => hiff.mp hexact.1, fun htells => ⟨hiff.mpr htells, fun n hsink => ?_⟩⟩
  have hended : (translateResult s.adapter result.msg).2 = some (.turnEnded n) := by
    have hlist := List.append_cancel_left hsink
    cases hsent : (translateResult s.adapter result.msg).2 with
    | none => simp [hsent] at hlist
    | some sent => simpa [hsent] using hlist
  have hlength := congrArg List.length (hiff.mpr htells)
  have howed : s.owed.length = result.left.length +
      (names (results.flatMap (·.left)) ++ names s.left ++ s.queue ++ s.stream).length := by
    simp [State.owed, hresults, names]
  rw [translateResult_turnEnded hended, h.pending, hlength, howed]
  omega

/-- Two messages that were folded into one turn, a third one thrown away. -/
theorem consumed_messages_exact_folded : (exec step (init : State ℕ)
      [.send 0, .send 1, .read, .read, .take, .take, .send 2, .read, .interrupt, .discard,
        .produce .last true true none, .handle]).any
      (fun s => decide (s.adapter.pendingSends = s.owed ∧ s.sink = [.turnEnded 3])) = true := by
  obtain ⟨s, hs⟩ := Option.isSome_iff_exists.mp (show (exec step (init : State ℕ)
      [.send 0, .send 1, .read, .read, .take, .take, .send 2, .read, .interrupt, .discard,
        .produce .last true true none, .handle]).isSome = true by decide)
  have hexact := (consumed_messages_exact (Run.of_exec hs (by decide))).1
  rw [hs, Option.any_some, decide_eq_true_eq]
  refine ⟨hexact, ?_⟩
  have hsink : (exec step (init : State ℕ)
      [.send 0, .send 1, .read, .read, .take, .take, .send 2, .read, .interrupt, .discard,
        .produce .last true true none, .handle]).map (·.sink) = some [.turnEnded 3] := by decide
  rw [hs] at hsink
  exact Option.some.inj hsink

/-- A message that is sent while a result is on its way is counted as consumed with it. -/
theorem sent_while_underway_dropped :
    ¬∀ (acts : List (Action ℕ)) (s : State ℕ), Run step (fun _ _ => True) init acts s →
      s.adapter.pendingSends = s.owed := by
  intro h
  obtain ⟨s, hs, hwrong⟩ := (Option.any_eq_true _ _).mp (show (exec step (init : State ℕ)
      [.send 0, .read, .take, .produce .all true false none, .send 1, .handle]).any
      (fun s => decide (s.adapter.pendingSends ≠ s.owed ∧ s.sink = [.turnEnded 2])) = true by decide)
  rw [decide_eq_true_eq] at hwrong
  exact hwrong.1 (h _ s (Run.of_exec_eq_some hs))

end Portuni.ConsumedMessages
