import Portuni.EventStream.Model

/-!
The transcript of a chat: the rows that are derived from the events of its log.
-/

namespace Portuni.Transcript

open EventStream (ChatEvent)

inductive ToolCallCategory where
  | command
  | fileRead
  | fileChange
  | mcp
  | other

inductive ToolCallStatus where
  | started
  | completed
  | failed

inductive FileChangeOp where
  | create
  | edit
  | delete
  | rename

inductive RunEndReason where
  | completed
  | interrupted
  | suspended
  | error
  | limit
  | hostLost

inductive Resume where
  | conversation
  | handoff
deriving DecidableEq

abbrev ChatEventParams := List (String × String)

structure ToolCall where
  toolUseId : String
  tool : String
  category : ToolCallCategory
  title : String
  inputSummary : String
  status : ToolCallStatus
  outputExcerpt : Option String
  truncated : Bool
  outputCode : Option String
  outputParams : Option ChatEventParams
  parentToolUseId : Option String

inductive CanonicalEvent where
  | runStarted (runId : String) (resume : Option Resume) (carriedMessages : Option ℕ)
  | runEnded (runId : String) (reason : RunEndReason)
  | turnEnded (runId : String) (consumedMessages : Option ℕ)
  | userMessage (text : String)
  | assistantMessage (text : String)
  | reasoning (summary : String) (durationMs : Option ℕ)
  | toolCall (call : ToolCall)
  | fileChange (path : String) (op : FileChangeOp)
  | question (title : String) (code : Option String) (params : Option ChatEventParams)
  | compaction
  | handoff
  | stateChanged
  | error (message : String) (code : Option String) (params : Option ChatEventParams)
  | contextUsage

abbrev Item := ChatEvent CanonicalEvent

def isToolCall (item : Item) : Bool :=
  match item.event with
  | .toolCall _ => true
  | _ => false

structure Collapsed where
  out : List Item := []
  lastToolCallIndex : List (String × ℕ) := []

namespace Collapsed

def append (c : Collapsed) (item : Item) (call : ToolCall) : Collapsed where
  out := c.out ++ [item]
  lastToolCallIndex := (call.toolUseId, c.out.length) :: c.lastToolCallIndex

def step (c : Collapsed) (item : Item) : Collapsed :=
  match item.event with
  | .toolCall call =>
    match c.lastToolCallIndex.lookup call.toolUseId with
    | some prior =>
      if (c.out[prior]?).any isToolCall then { c with out := c.out.set prior item }
      else c.append item call
    | none => c.append item call
  | _ => { c with out := c.out ++ [item] }

end Collapsed

def collapseToolCalls (events : List Item) : List Item := (events.foldl Collapsed.step {}).out

/-- The messages that the last start of the run carried, and the events behind it. -/
def sinceStart (run : String) : List CanonicalEvent → Option (ℕ × List CanonicalEvent)
  | [] => none
  | e :: rest =>
    match sinceStart run rest with
    | some found => some found
    | none =>
      match e with
      | .runStarted id _ carried => if id = run then some (carried.getD 0, rest) else none
      | _ => none

def countPending (run : String) (pending : ℕ) : CanonicalEvent → ℕ
  | .userMessage _ => pending + 1
  | .turnEnded id consumed => if id = run then pending - consumed.getD 1 else pending
  | _ => pending

def turnInFlight (events : List CanonicalEvent) (liveRunId : Option String) : Bool :=
  match liveRunId with
  | none => false
  | some run =>
    let (pending, rest) := (sinceStart run events).getD (0, events)
    decide (0 < rest.foldl (countPending run) pending)

inductive ToolItem where
  | mk (seq : ℕ) (call : ToolCall) (subcalls : List ToolItem)

inductive ActivityItem where
  | reasoning (seq : ℕ) (summary : String) (durationMs : Option ℕ)
  | tool (item : ToolItem)
  | fileChange (seq : ℕ) (path : String) (op : FileChangeOp)

structure ActivityRow where
  key : String
  runId : Option String
  items : List ActivityItem
  live : Bool

inductive TranscriptRow where
  | prompt (key text : String)
  | answer (key text : String)
  | activity (row : ActivityRow)
  | question (key title : String) (code : Option String) (params : Option ChatEventParams)
  | compaction (key : String)
  | summary (key : String)
  | resumedFromHandoff (key : String)
  | interrupted (key : String)
  | runEnded (key : String) (reason : RunEndReason)
  | error (key message : String) (code : Option String) (params : Option ChatEventParams)
      (content : Bool)

def TranscriptRow.key : TranscriptRow → String
  | .prompt key _ | .answer key _ | .question key _ _ _ | .compaction key | .summary key
  | .resumedFromHandoff key | .interrupted key | .runEnded key _ | .error key _ _ _ _ => key
  | .activity row => row.key

namespace ToolItem

mutual

def pushUnder (parent : String) (item : ToolItem) : ToolItem → ToolItem
  | .mk seq call subcalls =>
    .mk seq call (pushUnderAll parent item subcalls ++
      if call.toolUseId = parent then [item] else [])

def pushUnderAll (parent : String) (item : ToolItem) : List ToolItem → List ToolItem
  | [] => []
  | x :: rest => pushUnder parent item x :: pushUnderAll parent item rest

end

end ToolItem

def ActivityItem.pushUnder (parent : String) (item : ToolItem) : ActivityItem → ActivityItem
  | .tool x => .tool (ToolItem.pushUnder parent item x)
  | other => other

def ActivityRow.pushUnder (parent : String) (item : ToolItem) (row : ActivityRow) : ActivityRow :=
  { row with items := row.items.map (ActivityItem.pushUnder parent item) }

def TranscriptRow.pushUnder (parent : String) (item : ToolItem) : TranscriptRow → TranscriptRow
  | .activity row => .activity (row.pushUnder parent item)
  | other => other

/-- The variables of `deriveTranscriptRows`. The open group is the last row: it is kept apart from
the others until it is closed. -/
structure Derivation where
  rows : List TranscriptRow := []
  open_ : Option ActivityRow := none
  currentRun : Option String := none
  toolItems : List String := []

def truthy (s : Option String) : Option String := s.filter (· ≠ "")

def firstToolSeq (events : List Item) (id : String) : Option ℕ :=
  events.findSome? fun item =>
    match item.event with
    | .toolCall call => if call.toolUseId = id then some item.seq else none
    | _ => none

def eventKey (seq : ℕ) : String := "e" ++ toString seq

def activityKey (seq : ℕ) : String := "a" ++ toString seq

def ActivityItem.keySeq (first : String → Option ℕ) : ActivityItem → ℕ
  | .reasoning seq _ _ => seq
  | .tool (.mk seq call _) => (first call.toolUseId).getD seq
  | .fileChange seq _ _ => seq

namespace Derivation

def allRows (d : Derivation) : List TranscriptRow := d.rows ++ (d.open_.map .activity).toList

def close (d : Derivation) : Derivation := { d with rows := d.allRows, open_ := none }

def pushRow (d : Derivation) (row : TranscriptRow) : Derivation :=
  { d.close with rows := d.close.rows ++ [row] }

def push (first : String → Option ℕ) (d : Derivation) (item : ActivityItem) : Derivation :=
  match d.open_ with
  | some group => { d with open_ := some { group with items := group.items ++ [item] } }
  | none =>
    { d with open_ := some {
      key := activityKey (item.keySeq first), runId := d.currentRun, items := [item],
      live := false } }

def pushUnder (d : Derivation) (parent : String) (item : ToolItem) : Derivation :=
  { d with
    rows := d.rows.map (TranscriptRow.pushUnder parent item)
    open_ := d.open_.map (ActivityRow.pushUnder parent item) }

def parentOf (d : Derivation) (call : ToolCall) : Option String :=
  (truthy call.parentToolUseId).filter fun parent => parent ∈ call.toolUseId :: d.toolItems

def step (first : String → Option ℕ) (d : Derivation) (item : Item) : Derivation :=
  match item.event with
  | .userMessage text => d.pushRow (.prompt (eventKey item.seq) text)
  | .assistantMessage text => d.pushRow (.answer (eventKey item.seq) text)
  | .reasoning summary durationMs => d.push first (.reasoning item.seq summary durationMs)
  | .toolCall call =>
    let tool := ToolItem.mk item.seq call []
    let known := { d with toolItems := call.toolUseId :: d.toolItems }
    match d.parentOf call with
    | some parent => known.pushUnder parent tool
    | none => known.push first (.tool tool)
  | .fileChange path op => d.push first (.fileChange item.seq path op)
  | .runStarted runId resume _ =>
    let d := { d with currentRun := some runId }
    if resume = some .handoff then d.pushRow (.resumedFromHandoff (eventKey item.seq))
    else d.close
  | .runEnded _ reason =>
    let d :=
      match reason with
      | .interrupted => d.pushRow (.interrupted (eventKey item.seq))
      | .completed | .suspended => d.close
      | .error | .limit | .hostLost => d.pushRow (.runEnded (eventKey item.seq) reason)
    { d with currentRun := none }
  | .question title code params =>
    d.pushRow (.question (eventKey item.seq) title (truthy code)
      (if (truthy code).isSome then params else none))
  | .compaction => d.pushRow (.compaction (eventKey item.seq))
  | .handoff => d.pushRow (.summary (eventKey item.seq))
  | .error message code params =>
    d.pushRow (.error (eventKey item.seq) message (truthy code)
      (if (truthy code).isSome then params else none) code.isNone)
  | .turnEnded _ _ | .stateChanged | .contextUsage => d

end Derivation

def markLive (live : Bool) (group : ActivityRow) : ActivityRow := { group with live := live }

def deriveTranscriptRows (events : List Item) (liveRunId : Option String) : List TranscriptRow :=
  let d := (collapseToolCalls events).foldl (Derivation.step (firstToolSeq events)) {}
  let live := liveRunId.isSome && turnInFlight (events.map ChatEvent.event) liveRunId
  { d with open_ := d.open_.map fun group : ActivityRow =>
      markLive (decide (group.runId = liveRunId) && live) group }.allRows

end Portuni.Transcript
