import Mathlib.Algebra.Group.Nat.Defs
import Mathlib.Logic.Function.Basic
import Portuni.Library.Runs

/-!
The loop that watches the remotes: its tick, which waits at every call it makes, and the
catch-up sweeps it starts, which land between those waits.
-/

namespace Portuni.WatchLoop

structure BackoffState where
  consecutiveFailures : ℕ
  nextAttemptAt : ℕ

def initialBackoff : BackoffState := ⟨0, 0⟩

/-- One failure waits for the interval, each further one twice as long, up to a limit. -/
def backoffMsFor (consecutiveFailures baseMs maxMs : ℕ) : ℕ :=
  if consecutiveFailures = 0 then 0 else min (baseMs * 2 ^ (consecutiveFailures - 1)) maxMs

def shouldAttempt (state : BackoffState) (now : ℕ) : Bool :=
  state.nextAttemptAt ≤ now

def recordUnreachable (state : BackoffState) (now baseMs maxMs : ℕ) : BackoffState :=
  ⟨state.consecutiveFailures + 1, now + backoffMsFor (state.consecutiveFailures + 1) baseMs maxMs⟩

def maxBackoffMs : ℕ := 60 * 60000

structure Options where
  intervalMs : ℕ
  sweepIntervalMs : ℕ

/-- What the loop keeps of a remote; one it has not met yet has this state as well. -/
structure RemoteState where
  hasFeed : Bool := true
  backoff : BackoffState := initialBackoff
  lastTickAt : Option ℕ := none
  lastError : Option String := none
  lastFullSweepAt : Option ℕ := none
  sweepsInFlight : ℕ := 0
  sweepBackoff : BackoffState := initialBackoff
  sweepError : Option String := none
  cursorUpdatedAt : Option String := none

/-- A sweep that was begun; once it is settled only its count is left. -/
structure Sweep where
  remoteName : String
  nodeIds : List String
  isFullSweep : Bool
  settled : Bool := false

inductive Event where
  | started (remoteName : String) (time : ℕ)
  | succeeded (remoteName : String) (time : ℕ)
  | failed (remoteName : String) (time : ℕ)
deriving DecidableEq

/-- Where the tick waits. `rest` are the remotes it has not come to, `guarded` says that an
error is caught and counts against the remote. -/
inductive Phase where
  | idle
  | listing
  | remotes (rest : List String)
  | adapter (remoteName : String) (now : ℕ) (rest : List String)
  | ticking (remoteName : String) (sweptByTick : Bool) (rest : List String)
  | cursor (remoteName : String) (sweptByTick : Bool) (errors : List String) (rest : List String)
  | watched (remoteName : String) (guarded : Bool) (rest : List String)
deriving DecidableEq

/-- `log` is the history of the full sweeps, the latest first, which the code does not keep. -/
structure Loop where
  now : ℕ := 0
  states : String → RemoteState := fun _ => {}
  phase : Phase := .idle
  sweeps : List Sweep := []
  stopped : Bool := false
  log : List Event := []

/-- What happens to the loop: the clock, a call of `tick` or `stop`, the answer the tick waits
for, the sweeps that the feed asks for during it, and a sweep that lands. -/
inductive Action where
  | advance (ms : ℕ)
  | tick
  | stop
  | listed (answer : Except String (List String))
  | next
  | gotAdapter (answer : Except String Bool)
  | askFullSweep (nodeIds : List String)
  | askSweepNodes (nodeIds : List String)
  | ticked (answer : Except String (List String))
  | gotCursor (answer : Except String (Option String))
  | gotWatched (answer : Except String (List String))
  | settle (i : ℕ) (answer : Except String Unit)
  | release (i : ℕ)

namespace Loop

variable (opts : Options) (s : Loop)

def setState (remoteName : String) (state : RemoteState) : Loop :=
  { s with states := Function.update s.states remoteName state }

def fail (remoteName : String) (e : String) : Loop :=
  let state := s.states remoteName
  s.setState remoteName
    { state with
      lastTickAt := some s.now
      lastError := some e
      backoff := recordUnreachable state.backoff s.now opts.intervalMs maxBackoffMs }

def beginCatchUp (remoteName : String) (nodeIds : List String) (isFullSweep : Bool) : Loop :=
  let state := s.states remoteName
  if isFullSweep && !shouldAttempt state.sweepBackoff s.now then
    s.setState remoteName { state with lastFullSweepAt := none }
  else
    { s.setState remoteName { state with sweepsInFlight := state.sweepsInFlight + 1 } with
      sweeps := s.sweeps ++ [⟨remoteName, nodeIds, isFullSweep, false⟩]
      log := if isFullSweep then .started remoteName s.now :: s.log else s.log }

/-- The checks of `maybeFullSweep`, after which it waits for the nodes of the remote. -/
def maybeFullSweep (remoteName : String) (now : ℕ) (guarded : Bool) (rest : List String) : Loop :=
  let state := s.states remoteName
  if state.sweepsInFlight > 0 then { s with phase := .remotes rest }
  else if !shouldAttempt state.sweepBackoff now then { s with phase := .remotes rest }
  else if state.lastFullSweepAt.any fun last => now - last < opts.sweepIntervalMs then
    { s with phase := .remotes rest }
  else { s with phase := .watched remoteName guarded rest }

def settled (sweep : Sweep) (answer : Except String Unit) : Loop :=
  let state := s.states sweep.remoteName
  match answer with
  | .ok () =>
    { s.setState sweep.remoteName
        { state with
          lastFullSweepAt := if sweep.isFullSweep then some s.now else state.lastFullSweepAt
          sweepBackoff := initialBackoff
          sweepError := none } with
      log := if sweep.isFullSweep then .succeeded sweep.remoteName s.now :: s.log else s.log }
  | .error e =>
    { s.setState sweep.remoteName
        { state with
          sweepError := some e
          sweepBackoff :=
            recordUnreachable state.sweepBackoff s.now opts.intervalMs maxBackoffMs } with
      log := if sweep.isFullSweep then .failed sweep.remoteName s.now :: s.log else s.log }

end Loop

/-- One step of the loop; an answer that nobody waits for is none. -/
def step (opts : Options) (s : Loop) : Action → Option Loop
  | .advance ms => some { s with now := s.now + ms }
  | .stop => some { s with stopped := true }
  | .tick =>
    if s.phase ≠ .idle || s.stopped then some s else some { s with phase := .listing }
  | .listed answer =>
    match s.phase, answer with
    | .listing, .ok remotes => some { s with phase := .remotes remotes }
    | .listing, .error _ => some { s with phase := .idle }
    | _, _ => none
  | .next =>
    match s.phase with
    | .remotes [] => some { s with phase := .idle }
    | .remotes (name :: rest) =>
      if shouldAttempt (s.states name).backoff s.now then
        some { s with phase := .adapter name s.now rest }
      else some { s with phase := .remotes rest }
    | _ => none
  | .gotAdapter answer =>
    match s.phase, answer with
    | .adapter name _ rest, .error e => some { s.fail opts name e with phase := .remotes rest }
    | .adapter name now rest, .ok false =>
      some ((s.setState name { s.states name with hasFeed := false }).maybeFullSweep opts name
        now false rest)
    | .adapter name _ rest, .ok true =>
      some { s.setState name { s.states name with hasFeed := true } with
        phase := .ticking name false rest }
    | _, _ => none
  | .askFullSweep nodeIds =>
    match s.phase with
    | .ticking name _ rest =>
      some { s.beginCatchUp name nodeIds true with phase := .ticking name true rest }
    | _ => none
  | .askSweepNodes nodeIds =>
    match s.phase with
    | .ticking name _ _ => some (s.beginCatchUp name nodeIds false)
    | _ => none
  | .ticked answer =>
    match s.phase, answer with
    | .ticking name _ rest, .error e => some { s.fail opts name e with phase := .remotes rest }
    | .ticking name swept rest, .ok errors =>
      some { s with phase := .cursor name swept errors rest }
    | _, _ => none
  | .gotCursor answer =>
    match s.phase, answer with
    | .cursor name _ _ rest, .error e => some { s.fail opts name e with phase := .remotes rest }
    | .cursor name _ (e :: _) rest, .ok cursor =>
      some { (s.setState name { s.states name with cursorUpdatedAt := cursor }).fail opts name e with
        phase := .remotes rest }
    | .cursor name swept [] rest, .ok cursor =>
      let t := s.setState name
        { s.states name with
          cursorUpdatedAt := cursor
          lastTickAt := some s.now
          backoff := initialBackoff
          lastError := none }
      if swept then some { t with phase := .remotes rest }
      else some (t.maybeFullSweep opts name s.now true rest)
    | _, _ => none
  | .gotWatched answer =>
    match s.phase, answer with
    | .watched name _ rest, .ok nodeIds =>
      some { s.beginCatchUp name nodeIds true with phase := .remotes rest }
    | .watched name true rest, .error e =>
      some { s.fail opts name e with phase := .remotes rest }
    | .watched _ false _, .error _ => some { s with phase := .idle }
    | _, _ => none
  | .settle i answer =>
    match s.sweeps[i]? with
    | some sweep =>
      if sweep.settled then none
      else
        some { s.settled opts sweep answer with
          sweeps := s.sweeps.set i { sweep with settled := true } }
    | none => none
  | .release i =>
    match s.sweeps[i]? with
    | some sweep =>
      if sweep.settled then
        let state := s.states sweep.remoteName
        some { s.setState sweep.remoteName
            { state with sweepsInFlight := state.sweepsInFlight - 1 } with
          sweeps := s.sweeps.eraseIdx i }
      else none
    | none => none

open Library.Runs

variable {opts : Options} {s t : Loop} {a : Action} {name : String}

def failures (name : String) : List Event → List ℕ
  | [] => []
  | .started _ _ :: log => failures name log
  | .succeeded n _ :: log => if n = name then [] else failures name log
  | .failed n time :: log => if n = name then time :: failures name log else failures name log

def dueAfter (opts : Options) : List ℕ → ℕ
  | [] => 0
  | time :: earlier => time + backoffMsFor (earlier.length + 1) opts.intervalMs maxBackoffMs

/-- Every full sweep was started after the wait that the failures before it asked for. -/
def Waited (opts : Options) : List Event → Prop
  | [] => True
  | .started name time :: log => dueAfter opts (failures name log) ≤ time ∧ Waited opts log
  | .succeeded _ _ :: log => Waited opts log
  | .failed _ _ :: log => Waited opts log

def ErrorKept (s : Loop) : Prop :=
  ∀ name, failures name s.log ≠ [] → (s.states name).sweepError ≠ none

/-- A sweep of single nodes succeeds only where no full sweep has failed since the last one that
succeeded. -/
def FullOnly (s : Loop) : Action → Prop
  | .settle i (.ok ()) =>
    ∀ sweep ∈ s.sweeps[i]?, sweep.isFullSweep = false → failures sweep.remoteName s.log = []
  | _ => True

/-- The clock and what the sweeps left in the states and in the history are the same, but for
time that has passed. -/
structure Quiet (s t : Loop) : Prop where
  now : s.now ≤ t.now
  log : t.log = s.log
  error : ∀ name, (t.states name).sweepError = (s.states name).sweepError
  backoff : ∀ name, (t.states name).sweepBackoff = (s.states name).sweepBackoff

structure Starts (s t : Loop) (name : String) : Prop where
  admitted : (s.states name).sweepBackoff.nextAttemptAt ≤ s.now
  now : t.now = s.now
  log : t.log = .started name s.now :: s.log
  error : ∀ name, (t.states name).sweepError = (s.states name).sweepError
  backoff : ∀ name, (t.states name).sweepBackoff = (s.states name).sweepBackoff

theorem Quiet.refl (s : Loop) : Quiet s s :=
  ⟨Nat.le_refl _, rfl, fun _ => rfl, fun _ => rfl⟩

theorem Quiet.phase (h : Quiet s t) (phase : Phase) : Quiet s { t with phase } :=
  ⟨h.now, h.log, h.error, h.backoff⟩

theorem Starts.phase (h : Starts s t name) (phase : Phase) : Starts s { t with phase } name :=
  ⟨h.admitted, h.now, h.log, h.error, h.backoff⟩

theorem Quiet.trans {u : Loop} (h : Quiet s t) (h' : Quiet t u) : Quiet s u :=
  ⟨Nat.le_trans h.now h'.now, h'.log.trans h.log, fun n => (h'.error n).trans (h.error n),
    fun n => (h'.backoff n).trans (h.backoff n)⟩

variable {state : RemoteState} {times : List ℕ} {now : ℕ}

theorem quiet_setState (herror : state.sweepError = (s.states name).sweepError)
    (hbackoff : state.sweepBackoff = (s.states name).sweepBackoff) :
    Quiet s (s.setState name state) where
  now := Nat.le_refl _
  log := rfl
  error n := by
    rcases eq_or_ne n name with rfl | hne
    · simpa [Loop.setState] using herror
    · simp [Loop.setState, hne]
  backoff n := by
    rcases eq_or_ne n name with rfl | hne
    · simpa [Loop.setState] using hbackoff
    · simp [Loop.setState, hne]

theorem quiet_fail (e : String) : Quiet s (s.fail opts name e) :=
  quiet_setState rfl rfl

theorem quiet_maybeFullSweep (now : ℕ) (guarded : Bool) (rest : List String) :
    Quiet s (s.maybeFullSweep opts name now guarded rest) := by
  simp only [Loop.maybeFullSweep]
  split
  · exact (Quiet.refl s).phase _
  · split
    · exact (Quiet.refl s).phase _
    · split <;> exact (Quiet.refl s).phase _

theorem quiet_counted (name : String) :
    Quiet s (s.setState name
      { s.states name with sweepsInFlight := (s.states name).sweepsInFlight + 1 }) :=
  quiet_setState rfl rfl

theorem quiet_beginCatchUp_nodes (nodeIds : List String) :
    Quiet s (s.beginCatchUp name nodeIds false) :=
  ⟨Nat.le_refl _, rfl, (quiet_counted name).error, (quiet_counted name).backoff⟩

theorem beginCatchUp_full (nodeIds : List String) :
    Quiet s (s.beginCatchUp name nodeIds true) ∨ Starts s (s.beginCatchUp name nodeIds true) name := by
  simp only [Loop.beginCatchUp, Bool.true_and, if_true]
  cases hattempt : shouldAttempt (s.states name).sweepBackoff s.now with
  | false => exact .inl (quiet_setState rfl rfl)
  | true =>
    exact .inr ⟨by simpa [shouldAttempt] using hattempt, rfl, rfl, (quiet_counted name).error,
      (quiet_counted name).backoff⟩

theorem step_cases (hstep : step opts s a = some t) :
    Quiet s t ∨ (∃ name, Starts s t name) ∨
      ∃ i answer sweep, a = .settle i answer ∧ s.sweeps[i]? = some sweep ∧
        t = { s.settled opts sweep answer with
          sweeps := s.sweeps.set i { sweep with settled := true } } := by
  cases a with
  | advance ms =>
    cases hstep
    exact .inl ⟨Nat.le_add_right _ _, rfl, fun _ => rfl, fun _ => rfl⟩
  | stop =>
    cases hstep
    exact .inl ⟨Nat.le_refl _, rfl, fun _ => rfl, fun _ => rfl⟩
  | tick =>
    simp only [step] at hstep
    split at hstep <;> obtain rfl := Option.some.inj hstep
    · exact .inl (.refl s)
    · exact .inl ((Quiet.refl s).phase _)
  | listed answer =>
    simp only [step] at hstep
    split at hstep <;> cases hstep <;> exact .inl ((Quiet.refl s).phase _)
  | next =>
    simp only [step] at hstep
    split at hstep
    · cases hstep
      exact .inl ((Quiet.refl s).phase _)
    · split at hstep <;> cases hstep <;> exact .inl ((Quiet.refl s).phase _)
    · cases hstep
  | gotAdapter answer =>
    simp only [step] at hstep
    split at hstep <;> cases hstep
    · exact .inl ((quiet_fail _).phase _)
    · refine .inl ((quiet_setState ?_ ?_).trans (quiet_maybeFullSweep _ _ _)) <;> rfl
    · refine .inl ((quiet_setState ?_ ?_).phase _) <;> rfl
  | askFullSweep nodeIds =>
    simp only [step] at hstep
    split at hstep <;> cases hstep
    rcases beginCatchUp_full nodeIds with h | h
    · exact .inl (h.phase _)
    · exact .inr (.inl ⟨_, h.phase _⟩)
  | askSweepNodes nodeIds =>
    simp only [step] at hstep
    split at hstep <;> cases hstep
    exact .inl (quiet_beginCatchUp_nodes nodeIds)
  | ticked answer =>
    simp only [step] at hstep
    split at hstep <;> cases hstep
    · exact .inl ((quiet_fail _).phase _)
    · exact .inl ((Quiet.refl s).phase _)
  | gotCursor answer =>
    simp only [step] at hstep
    split at hstep
    · cases hstep
      exact .inl ((quiet_fail _).phase _)
    · cases hstep
      refine .inl (((quiet_setState ?_ ?_).trans (quiet_fail _)).phase _) <;> rfl
    · split at hstep <;> cases hstep
      · refine .inl ((quiet_setState ?_ ?_).phase _) <;> rfl
      · refine .inl ((quiet_setState ?_ ?_).trans (quiet_maybeFullSweep _ _ _)) <;> rfl
    · cases hstep
  | gotWatched answer =>
    simp only [step] at hstep
    split at hstep <;> cases hstep
    · rename_i nodeIds _
      rcases beginCatchUp_full nodeIds with h | h
      · exact .inl (h.phase _)
      · exact .inr (.inl ⟨_, h.phase _⟩)
    · exact .inl ((quiet_fail _).phase _)
    · exact .inl ((Quiet.refl s).phase _)
  | settle i answer =>
    simp only [step] at hstep
    split at hstep
    · rename_i sweep hsweep
      split at hstep <;> cases hstep
      exact .inr (.inr ⟨i, answer, sweep, rfl, hsweep, rfl⟩)
    · cases hstep
  | release i =>
    simp only [step] at hstep
    split at hstep
    · split at hstep <;> cases hstep
      rename_i sweep _ _
      have h : Quiet s (s.setState sweep.remoteName
          { s.states sweep.remoteName with
            sweepsInFlight := (s.states sweep.remoteName).sweepsInFlight - 1 }) :=
        quiet_setState rfl rfl
      exact .inl ⟨h.now, h.log, h.error, h.backoff⟩
    · cases hstep

/-- What the state of a remote holds of the times at which its full sweeps failed. -/
structure Backs (opts : Options) (now : ℕ) (times : List ℕ) (state : RemoteState) : Prop where
  kept : times ≠ [] → state.sweepError ≠ none
  past : ∀ time ∈ times, time ≤ now
  counted : times.length ≤ state.sweepBackoff.consecutiveFailures
  due : dueAfter opts times ≤ state.sweepBackoff.nextAttemptAt

/-- What holds of the history and of the states while no sweep of single nodes clears the
failure of a full one. -/
structure BackedOff (opts : Options) (s : Loop) : Prop where
  waited : Waited opts s.log
  backs : ∀ name, Backs opts s.now (failures name s.log) (s.states name)

theorem backoffMsFor_le {m n baseMs maxMs : ℕ} (hmn : m ≤ n) :
    backoffMsFor m baseMs maxMs ≤ backoffMsFor n baseMs maxMs := by
  unfold backoffMsFor
  split
  · exact Nat.zero_le _
  · rw [if_neg (by omega)]
    have hpow : 2 ^ (m - 1) ≤ 2 ^ (n - 1) := Nat.pow_le_pow_right (by decide) (by omega)
    have hgrown : baseMs * 2 ^ (m - 1) ≤ baseMs * 2 ^ (n - 1) := Nat.mul_le_mul_left _ hpow
    omega

theorem dueAfter_le {n : ℕ} (hpast : ∀ time ∈ times, time ≤ now) (hcounted : times.length ≤ n) :
    dueAfter opts times ≤ now + backoffMsFor n opts.intervalMs maxBackoffMs := by
  cases times with
  | nil => exact Nat.zero_le _
  | cons time earlier =>
    have htime := hpast time List.mem_cons_self
    have hwait : backoffMsFor (time :: earlier).length opts.intervalMs maxBackoffMs ≤
        backoffMsFor n opts.intervalMs maxBackoffMs := backoffMsFor_le hcounted
    simp only [dueAfter, List.length_cons] at hwait ⊢
    omega

theorem states_setState (state : RemoteState) (n : String) :
    (s.setState name state).states n = if n = name then state else s.states n :=
  Function.update_apply _ _ _ _

@[simp] theorem now_setState (state : RemoteState) : (s.setState name state).now = s.now := rfl

theorem backs_nil (now : ℕ) (state : RemoteState) : Backs opts now [] state :=
  ⟨fun h => absurd rfl h, by simp, Nat.zero_le _, Nat.zero_le _⟩

variable (h : Backs opts now times state)

include h

theorem Backs.congr {now' : ℕ} {state' : RemoteState} (hnow : now ≤ now')
    (herror : state'.sweepError = state.sweepError)
    (hbackoff : state'.sweepBackoff = state.sweepBackoff) : Backs opts now' times state' where
  kept := herror ▸ h.kept
  past time htime := Nat.le_trans (h.past time htime) hnow
  counted := hbackoff ▸ h.counted
  due := hbackoff ▸ h.due

theorem Backs.failed (e : String) :
    Backs opts now times { state with
        sweepError := some e
        sweepBackoff := recordUnreachable state.sweepBackoff now opts.intervalMs maxBackoffMs } where
  kept _ := by simp
  past := h.past
  counted := Nat.le_succ_of_le h.counted
  due := dueAfter_le h.past (Nat.le_succ_of_le h.counted)

theorem Backs.failed_full (e : String) :
    Backs opts now (now :: times) { state with
        sweepError := some e
        sweepBackoff := recordUnreachable state.sweepBackoff now opts.intervalMs maxBackoffMs } where
  kept _ := by simp
  past time htime := by
    rcases List.mem_cons.mp htime with rfl | htime
    · exact Nat.le_refl _
    · exact h.past time htime
  counted := Nat.succ_le_succ h.counted
  due := Nat.add_le_add_left (backoffMsFor_le (Nat.succ_le_succ h.counted)) _

omit h

variable (inv : BackedOff opts s)

include inv

theorem BackedOff.quiet (h : Quiet s t) : BackedOff opts t where
  waited := h.log ▸ inv.waited
  backs name := by
    rw [h.log]
    exact (inv.backs name).congr h.now (h.error name) (h.backoff name)

theorem BackedOff.starts (h : Starts s t name) : BackedOff opts t where
  waited := by
    rw [h.log]
    exact ⟨Nat.le_trans (inv.backs name).due h.admitted, inv.waited⟩
  backs n := by
    rw [h.log]
    exact (inv.backs n).congr (Nat.le_of_eq h.now.symm) (h.error n) (h.backoff n)

theorem BackedOff.settled {sweep : Sweep} {answer : Except String Unit}
    (hclear : answer = .ok () → sweep.isFullSweep = false → failures sweep.remoteName s.log = []) :
    BackedOff opts (s.settled opts sweep answer) := by
  have hbacks := inv.backs sweep.remoteName
  constructor
  · cases answer <;> cases hfull : sweep.isFullSweep <;> simp only [Loop.settled, hfull] <;>
      exact inv.waited
  · intro n
    by_cases hn : n = sweep.remoteName
    · subst hn
      cases answer with
      | ok done =>
        have hnone : failures sweep.remoteName (s.settled opts sweep (.ok done)).log = [] := by
          cases hfull : sweep.isFullSweep with
          | true => simp [Loop.settled, hfull, failures]
          | false => simpa [Loop.settled, hfull] using hclear rfl hfull
        rw [hnone]
        exact backs_nil _ _
      | error e =>
        cases hfull : sweep.isFullSweep with
        | true => simpa [Loop.settled, hfull, failures, states_setState] using hbacks.failed_full e
        | false => simpa [Loop.settled, hfull, states_setState] using hbacks.failed e
    · have hlog : failures n (s.settled opts sweep answer).log = failures n s.log := by
        cases answer <;> cases hfull : sweep.isFullSweep <;>
          simp [Loop.settled, hfull, failures, Ne.symm hn]
      have hstate : (s.settled opts sweep answer).states n = s.states n := by
        cases answer <;> simp [Loop.settled, states_setState, hn]
      have hnow : (s.settled opts sweep answer).now = s.now := by
        cases answer <;> rfl
      rw [hlog, hstate, hnow]
      exact inv.backs n

theorem BackedOff.next (hfull : FullOnly s a) (hstep : step opts s a = some t) :
    BackedOff opts t := by
  rcases step_cases hstep with h | ⟨name, h⟩ | ⟨i, answer, sweep, rfl, hsweep, rfl⟩
  · exact inv.quiet h
  · exact inv.starts h
  · have hsettled : BackedOff opts (s.settled opts sweep answer) := by
      refine inv.settled fun hok hnodes => ?_
      subst hok
      exact hfull sweep hsweep hnodes
    exact ⟨hsettled.waited, hsettled.backs⟩

omit inv

theorem backedOff_init (opts : Options) : BackedOff opts {} :=
  ⟨trivial, fun _ => backs_nil _ _⟩

theorem BackedOff.of_run {acts : List Action} (run : Run (step opts) FullOnly {} acts t) :
    BackedOff opts t :=
  run.inv (BackedOff opts) (backedOff_init opts) fun _ _ _ inv hfull hstep => inv.next hfull hstep

theorem not_errorKept_of_not_fullOnly (hstep : step opts s a = some t) (hclears : ¬ FullOnly s a) :
    ¬ ErrorKept t := by
  rcases a with _ | _ | _ | _ | _ | _ | _ | _ | _ | _ | _ | ⟨i, e | done⟩ | _ <;>
    simp only [FullOnly, not_true] at hclears
  simp only [not_forall] at hclears
  obtain ⟨sweep, hsweep, hnodes, hfailed⟩ := hclears
  have hsome : s.sweeps[i]? = some sweep := hsweep
  simp only [step, hsome] at hstep
  split at hstep
  · cases hstep
  · cases hstep
    intro hkept
    refine hkept sweep.remoteName ?_ ?_
    · simpa [Loop.settled, hnodes] using hfailed
    · simp [Loop.settled, states_setState]

/-- While sweeps of single nodes succeed only where no full sweep's failure stands, a full sweep
that failed keeps its error and its wait until a full sweep succeeds; any other such success
clears the error. -/
theorem full_sweep_stays_backed_off (opts : Options) :
    (∀ acts t, Run (step opts) FullOnly {} acts t → Waited opts t.log ∧ ErrorKept t) ∧
      ∀ s a t, step opts s a = some t → ¬ FullOnly s a → ¬ ErrorKept t := by
  refine ⟨fun acts t run => ?_, fun s a t hstep hclears => not_errorKept_of_not_fullOnly hstep hclears⟩
  have inv : BackedOff opts t := .of_run run
  exact ⟨inv.waited, fun name => (inv.backs name).kept⟩

def sweepingTick : List Action :=
  [.tick, .listed (.ok ["drive"]), .next, .gotAdapter (.ok true), .ticked (.ok []),
    .gotCursor (.ok none), .gotWatched (.ok ["a", "b"]), .next]

/-- Two full sweeps fail, a minute apart, and during the tick after them a folder's nodes are
swept. -/
def clearedByNodes : List Action :=
  sweepingTick ++ [.settle 0 (.error "403"), .release 0, .advance 60000] ++
  sweepingTick ++ [.settle 0 (.error "403"), .release 0, .advance 60000] ++
  [.tick, .listed (.ok ["drive"]), .next, .gotAdapter (.ok true), .askSweepNodes ["a"],
    .settle 0 (.ok ()), .release 0, .ticked (.ok []), .gotCursor (.ok none),
    .gotWatched (.ok ["a", "b"])]

def minuteOptions : Options := ⟨60000, 6 * 60 * 60000⟩

/-- The success of the two nodes' sweep clears the error of the full ones, and the third full
sweep starts a minute before it is due. -/
theorem full_sweep_starts_early :
    ∃ t, Run (step minuteOptions) (fun _ _ => True) {} clearedByNodes t ∧
      ¬ Waited minuteOptions t.log ∧ ¬ ErrorKept t := by
  have hreached : (exec (step minuteOptions) {} clearedByNodes).any (fun t =>
      t.log = [.started "drive" 120000, .failed "drive" 60000, .started "drive" 60000,
        .failed "drive" 0, .started "drive" 0] ∧ (t.states "drive").sweepError = none) = true := by
    decide +kernel
  obtain ⟨t, hexec, hfacts⟩ := (Option.any_eq_true _ _).mp hreached
  obtain ⟨hlog, herror⟩ := of_decide_eq_true hfacts
  refine ⟨t, Run.of_exec_eq_some hexec, fun hwaited => ?_, fun hkept => ?_⟩
  · rw [hlog] at hwaited
    exact absurd hwaited.1 (by decide)
  · exact hkept "drive" (by rw [hlog]; decide) herror

end Portuni.WatchLoop
