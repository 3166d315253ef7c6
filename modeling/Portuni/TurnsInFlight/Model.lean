import Portuni.Library.Runs
import Portuni.Transcript.Model

/-!
Whether the agent of a thread is working: the runtime counts the messages that no turn has answered
yet, beside the log that the web counts them from.
-/

namespace Portuni.TurnsInFlight

open Transcript (CanonicalEvent Resume RunEndReason)

/-- The message a run starts with; a redelivered one is in the log already. -/
structure Brief where
  text : String
  logBrief : Bool

inductive StartStage where
  | begun
  | written
  | handed
deriving DecidableEq

structure Starting where
  run : String
  brief : Option Brief
  resume : Option Resume
  briefCounted : Bool := false
  stage : StartStage := .begun

inductive Send where
  | counted (run text : String) (attempt : ℕ)
  | written (run text : String) (attempt : ℕ)
  | settling (run text : String) (logged : Bool) (attempt : ℕ)
  | settled (text : String) (logged : Bool) (attempt : ℕ)
  /-- A run is provisioned for it. -/
  | resuming (text : String) (logged : Bool)
  | starting (run : String)
deriving DecidableEq

structure State where
  log : List CanonicalEvent := []
  turnsInFlight : ℕ := 0
  currentRun : Option String := none
  liveRun : Option String := none
  /-- The run that `runSettling` waits for. -/
  settlingRun : Option String := none
  pendingQuestion : Bool := false
  lastActivityAt : Option ℕ := none
  activityTicks : Option ℕ := none
  starts : List Starting := []
  send : Option Send := none
  runs : List String := []
  sinks : List String := []
  ending : List String := []
  clock : ℕ := 0

def init : State := {}

section

variable (s : State)

def addTurnInFlight : State := { s with turnsInFlight := s.turnsInFlight + 1 }

def dropTurnInFlight (count : ℕ) : State := { s with turnsInFlight := s.turnsInFlight - count }

def isTurnInFlight : Bool := decide (0 < s.turnsInFlight)

def touchActivity : State :=
  { s with
    lastActivityAt := some s.clock
    activityTicks := some (s.activityTicks.getD 0 + 1) }

def appendAndPublish (events : List CanonicalEvent) : State := { s with log := s.log ++ events }

def isIdleRun (idleMs now : ℕ) : Bool :=
  !(isTurnInFlight s && !s.pendingQuestion) && decide (idleMs < now - s.lastActivityAt.getD now)

/-- Whether `checkIdleRunsOnce` ends the run when it comes to a session that it picked at the
tick. -/
def endsIdleRun (tick : Option ℕ) (idleMs now : ℕ) : Bool :=
  s.liveRun.isSome && decide (s.activityTicks = tick) && isIdleRun s idleMs now

end

def maxDeliveryAttempts : ℕ := 3

def deliverAfterRunEnd (s : State) (text : String) (attempt : ℕ) (logged : Bool) : State :=
  if maxDeliveryAttempts ≤ attempt + 1 then { s with send := none }
  else
    match s.settlingRun with
    | some run => { s with send := some (.settling run text logged attempt) }
    | none => { s with send := some (.settled text logged attempt) }

def sendMessageLocked (s : State) (text : String) (logged : Bool) (attempt : ℕ) : State :=
  match s.liveRun with
  | some run =>
    let sending := if logged then Send.written run text attempt else .counted run text attempt
    { addTurnInFlight (touchActivity s) with send := some sending }
  | none =>
    match s.settlingRun with
    | some _ => deliverAfterRunEnd s text attempt logged
    | none => { s with send := some (.resuming text logged) }

def startOf (s : State) (run : String) : Option Starting := s.starts.find? fun x => x.run = run

def setStart (s : State) (x : Starting) : State :=
  { s with starts := s.starts.map fun y => if y.run = x.run then x else y }

def endStart (s : State) (run : String) : State :=
  { s with
    starts := s.starts.filter fun x => x.run ≠ run
    send := if s.send = some (.starting run) then none else s.send }

def beginRun (s : State) (run : String) (brief : Option Brief) (resume : Option Resume) : State :=
  { s with
    runs := run :: s.runs
    currentRun := some run
    starts := ⟨run, brief, resume, false, .begun⟩ :: s.starts }

def handOver (s : State) (x : Starting) (briefCounted : Bool) : State :=
  setStart { s with sinks := x.run :: s.sinks }
    { x with briefCounted := briefCounted, stage := .handed }

def runStartedWritten (s : State) (x : Starting) : State :=
  let carried := (x.brief.filter fun b => !b.logBrief).map fun _ => 1
  let s := appendAndPublish s [.runStarted x.run x.resume carried]
  match x.brief with
  | none => handOver s x false
  | some brief =>
    if brief.logBrief then setStart s { x with stage := .written }
    else handOver (addTurnInFlight s) x true

def startResolved (s : State) (run : String) : State :=
  touchActivity { endStart s run with liveRun := some run, settlingRun := some run }

def startFailed (s : State) (x : Starting) : State :=
  let s := if x.briefCounted then dropTurnInFlight s 1 else s
  { endStart s x.run with
    currentRun := if s.currentRun = some x.run then none else s.currentRun }

def isPlain : CanonicalEvent → Bool
  | .runStarted _ _ _ | .runEnded _ _ | .turnEnded _ _ | .userMessage _ => false
  | _ => true

def handleAdapterEvent (s : State) (run : String) : CanonicalEvent → Option State
  | .turnEnded id consumed =>
    if id = run then
      let s := touchActivity (appendAndPublish s [.turnEnded id consumed])
      some (if s.currentRun = some run then dropTurnInFlight s (consumed.getD 1) else s)
    else none
  | event => if isPlain event then some (touchActivity (appendAndPublish s [event])) else none

/-- `handleRunEnded` up to the teardown; a failed write of the event is only reported. -/
def handleRunEnded (s : State) (run : String) (reason : RunEndReason) (recorded : Bool) : State :=
  let s := if recorded then appendAndPublish s [.runEnded run reason] else s
  let s := touchActivity { s with ending := run :: s.ending }
  if s.currentRun = some run then
    { s with
      turnsInFlight := 0, currentRun := none, liveRun := none
      lastActivityAt := none, activityTicks := none }
  else s

def settledBy (run : String) : Send → Send
  | .settling waited text logged attempt =>
    if waited = run then .settled text logged attempt else .settling waited text logged attempt
  | send => send

def settleRun (s : State) (run : String) : State :=
  if s.settlingRun = some run then
    { s with settlingRun := none, send := s.send.map (settledBy run) }
  else s

inductive Action where
  | send (text : String)
  | userMessageWritten
  | userMessageFailed
  | sendResolved
  /-- `handle.send` rejects, with a `RunEndedError` or another error. -/
  | sendRejected (runEnded : Bool)
  | sendAgain
  /-- No run can be started for the message. -/
  | resumeRefused
  /-- The first run of a session that a task or a handoff opened. -/
  | startTask (run : String) (brief : Option String)
  /-- The run that a message starts. -/
  | resume (run : String) (mode : Option Resume)
  | runStartedWritten (run : String)
  | briefWritten (run : String)
  | startResolved (run : String)
  | startFailed (run : String)
  | event (run : String) (event : CanonicalEvent)
  | runEnded (run : String) (reason : RunEndReason) (recorded : Bool)
  | settle (run : String)
  /-- What the runtime writes itself beside the messages and the starts. -/
  | append (event : CanonicalEvent)
  | question (pending : Bool)
  | wait (ms : ℕ)

def step (s : State) : Action → Option State
  | .send text => if s.send = none then some (sendMessageLocked s text false 0) else none
  | .userMessageWritten =>
    match s.send with
    | some (.counted run text attempt) =>
      some { appendAndPublish s [.userMessage text] with
        send := some (.written run text attempt) }
    | _ => none
  | .userMessageFailed =>
    match s.send with
    | some (.counted _ _ _) => some { dropTurnInFlight s 1 with send := none }
    | _ => none
  | .sendResolved =>
    match s.send with
    | some (.written _ _ _) => some { s with send := none }
    | _ => none
  | .sendRejected runEnded =>
    match s.send with
    | some (.written _ text attempt) =>
      let s := dropTurnInFlight s 1
      some (if runEnded then deliverAfterRunEnd s text attempt true
        else { s with send := none })
    | _ => none
  | .sendAgain =>
    match s.send with
    | some (.settled text logged attempt) => some (sendMessageLocked s text logged (attempt + 1))
    | _ => none
  | .resumeRefused =>
    match s.send with
    | some (.resuming _ _) => some { s with send := none }
    | _ => none
  | .startTask run brief =>
    if s.runs = [] then some (beginRun s run (brief.map fun text => ⟨text, true⟩) none) else none
  | .resume run mode =>
    match s.send with
    | some (.resuming text logged) =>
      if run ∈ s.runs then none
      else some { beginRun s run (some ⟨text, !logged⟩) mode with send := some (.starting run) }
    | _ => none
  | .runStartedWritten run =>
    match startOf s run with
    | some x => if x.stage = .begun then some (runStartedWritten s x) else none
    | none => none
  | .briefWritten run =>
    match startOf s run with
    | some x =>
      if x.stage = .written then
        some (handOver (addTurnInFlight (appendAndPublish s
          [.userMessage ((x.brief.map Brief.text).getD "")])) x true)
      else none
    | none => none
  | .startResolved run =>
    match startOf s run with
    | some x => if x.stage = .handed then some (startResolved s run) else none
    | none => none
  | .startFailed run =>
    match startOf s run with
    | some x => some (startFailed s x)
    | none => none
  | .event run event => if run ∈ s.sinks then handleAdapterEvent s run event else none
  | .runEnded run reason recorded =>
    if run ∈ s.sinks then some (handleRunEnded s run reason recorded) else none
  | .settle run =>
    if run ∈ s.ending then some (settleRun { s with ending := s.ending.erase run } run) else none
  | .append event => if isPlain event then some (appendAndPublish s [event]) else none
  | .question pending => some { s with pendingQuestion := pending }
  | .wait ms => some { s with clock := s.clock + ms }

end Portuni.TurnsInFlight
