import Mathlib.Data.List.Basic
import Mathlib.Logic.Function.Basic
import Portuni.Sessions.Transitions

/-!
A window's records of its threads: the rows on the server, the frames and list answers on their
way, and the store that both are written into.
-/

namespace Portuni.SessionStore

open Sessions

universe u

variable {Rest : Type u}

/-- A row of `sessions`; `rest` is what only a list carries. -/
structure SessionRow (Rest : Type u) where
  id : String
  nodeId : Option String
  state : SessionState
  waitingSince : Option String
  name : String
  rest : Rest

structure SessionStateMessage where
  sessionId : String
  nodeId : Option String
  state : SessionState
  waitingSince : Option String
  name : Option String

/-- A record is the row of an answer, or the stub that a frame for an unknown session makes. -/
inductive StoredSession (Rest : Type u) where
  | complete (row : SessionRow Rest)
  | stub (message : SessionStateMessage)

def StoredSession.isComplete : StoredSession Rest → Bool
  | .complete _ => true
  | .stub _ => false

def StoredSession.nodeId : StoredSession Rest → Option String
  | .complete row => row.nodeId
  | .stub message => message.nodeId

abbrev Facts := SessionState × Option String × Option String

def SessionRow.facts (row : SessionRow Rest) : Facts := (row.state, row.waitingSince, some row.name)

def SessionStateMessage.facts (message : SessionStateMessage) : Facts :=
  (message.state, message.waitingSince, message.name)

def StoredSession.facts : StoredSession Rest → Facts
  | .complete row => row.facts
  | .stub message => message.facts

/-- The store's map; a record that equals the one it replaces is not told from it. -/
abbrev Records (Rest : Type u) := String → Option (StoredSession Rest)

def Records.put (records : Records Rest) (row : SessionRow Rest) : Records Rest :=
  Function.update records row.id (some (.complete row))

def Records.putMany (records : Records Rest) (rows : List (SessionRow Rest)) : Records Rest :=
  rows.foldl Records.put records

def StoredSession.fold (message : SessionStateMessage) : StoredSession Rest → StoredSession Rest
  | .complete row => .complete { row with
      state := message.state
      waitingSince := message.waitingSince
      name := message.name.getD row.name }
  | .stub known => .stub { known with
      state := message.state
      waitingSince := message.waitingSince
      name := message.name.or known.name }

def Records.applyFrame (records : Records Rest) (message : SessionStateMessage) : Records Rest :=
  Function.update records message.sessionId
    (match records message.sessionId with
    | none => some (.stub message)
    | some existing => some (existing.fold message))

def Records.applyFrames (records : Records Rest) (messages : List SessionStateMessage) :
    Records Rest :=
  messages.foldl Records.applyFrame records

def Records.ofNode (records : Records Rest) (nodeId : String) (keepId : Option String)
    (id : String) : Bool :=
  (records id).any (·.nodeId = some nodeId) && keepId ≠ some id

def Records.removeNode (records : Records Rest) (nodeId : String) (keepId : Option String) :
    Records Rest :=
  fun id => if records.ofNode nodeId keepId id then none else records id

def Records.holdsComplete (records : Records Rest) (id : String) : Bool :=
  (records id).any (·.isComplete)

def nodesToRefetchForFrames (messages : List SessionStateMessage) (openNodeIds : List String)
    (isComplete : String → Bool) : List String :=
  (messages.filterMap fun message =>
    message.nodeId.filter fun nodeId =>
      openNodeIds.contains nodeId && !isComplete message.sessionId).eraseDups

/-- The server's row with the number of its last change of state, waiting or name. -/
structure Read (Rest : Type u) where
  row : SessionRow Rest
  rev : ℕ

/-- A list request: what the server read for it, and the records that were removed since it was
sent. -/
structure ListRequest (Rest : Type u) where
  rows : Option (List (Read Rest)) := none
  removed : String → Bool := fun _ => false

/-- The coalesced request of a node; a caller meanwhile asks for one more behind it. -/
structure Flight (Rest : Type u) where
  request : ListRequest Rest := {}
  trailing : Bool := false

structure Frame where
  message : SessionStateMessage
  rev : ℕ

/-- The server's rows, the channel, and the window. `revs` counts the changes of a row, `announced`
is the count that the last frame sent about it carried, `seen` the count of what its record shows,
and `named` has the sessions that a frame has named to the window. -/
structure World (Rest : Type u) where
  ids : List String := []
  rows : String → Option (SessionRow Rest) := fun _ => none
  frames : List (List Frame) := []
  records : Records Rest := fun _ => none
  openNodeIds : List String := []
  flights : String → Option (Flight Rest) := fun _ => none
  lists : List (String × Bool × ListRequest Rest) := []
  revs : String → ℕ := fun _ => 0
  announced : String → ℕ := fun _ => 0
  seen : String → ℕ := fun _ => 0
  named : String → Bool := fun _ => false

inductive Action (Rest : Type u) where
  | create (row : SessionRow Rest)
  | change (row : SessionRow Rest)
  | delete (id : String)
  | announce (ids : List String)
  | deliver
  | openNode (nodeId : String)
  | closeNode (nodeId : String) (keepId : Option String)
  | refresh (nodeId : String)
  | read (nodeId : String)
  | land (nodeId : String)
  /-- A list request of its own, as the Relace tab sends it. -/
  | askList (nodeId : String) (includeArchived : Bool)
  | readList (index : ℕ)
  | landList (index : ℕ)

variable (w : World Rest)

def refreshed (flights : String → Option (Flight Rest)) (nodeId : String) :
    String → Option (Flight Rest) :=
  Function.update flights nodeId
    (match flights nodeId with
    | none => some {}
    | some flight => some { flight with trailing := true })

def World.messageOf (id : String) : Option Frame :=
  (w.rows id).map fun row =>
    ⟨⟨row.id, row.nodeId, row.state, row.waitingSince, some row.name⟩, w.revs id⟩

def World.listNodeSessions (nodeId : String) (includeArchived : Bool) : List (Read Rest) :=
  w.ids.filterMap fun id =>
    (w.rows id).bind fun row =>
      if row.nodeId = some nodeId ∧ (includeArchived ∨ row.state ≠ .archived) then
        some ⟨row, w.revs id⟩
      else none

def World.changed (row old : SessionRow Rest) : World Rest :=
  { w with
    rows := Function.update w.rows row.id (some row)
    revs := if row.facts = old.facts then w.revs
      else Function.update w.revs row.id (w.revs row.id + 1) }

def World.announcing (ids : List String) : World Rest :=
  { w with
    frames := w.frames ++ [ids.filterMap w.messageOf]
    announced := fun id => if id ∈ ids ∧ (w.rows id).isSome then w.revs id else w.announced id }

/-- The number of changes that the records show once a batch of frames is folded in. -/
def seenAfter (seen : String → ℕ) (batch : List Frame) : String → ℕ :=
  batch.foldl (fun seen frame => Function.update seen frame.message.sessionId frame.rev) seen

def World.delivered (batch : List Frame) (rest : List (List Frame)) : World Rest :=
  let messages := batch.map (·.message)
  let records := w.records.applyFrames messages
  { w with
    frames := rest
    records := records
    flights := (nodesToRefetchForFrames messages w.openNodeIds records.holdsComplete).foldl
      refreshed w.flights
    seen := seenAfter w.seen batch
    named := fun id => w.named id || messages.any (·.sessionId = id) }

def World.opened (nodeId : String) : World Rest :=
  if nodeId ∈ w.openNodeIds then w
  else
    { w with
      openNodeIds := w.openNodeIds ++ [nodeId]
      flights := refreshed w.flights nodeId }

def ListRequest.without (records : Records Rest) (nodeId : String) (keepId : Option String)
    (request : ListRequest Rest) : ListRequest Rest :=
  { request with removed := fun id => request.removed id || records.ofNode nodeId keepId id }

def World.closed (nodeId : String) (keepId : Option String) : World Rest :=
  { w with
    records := w.records.removeNode nodeId keepId
    openNodeIds := w.openNodeIds.filter (· ≠ nodeId)
    flights := fun other => (w.flights other).map fun flight =>
      { flight with request := flight.request.without w.records nodeId keepId }
    lists := w.lists.map fun entry =>
      (entry.1, entry.2.1, entry.2.2.without w.records nodeId keepId) }

def World.filled (rows : List (Read Rest)) : World Rest :=
  { w with
    records := w.records.putMany (rows.map (·.row))
    seen := rows.foldl (fun seen r => Function.update seen r.row.id r.rev) w.seen }

def step : Action Rest → Option (World Rest)
  | .create row =>
    if row.id ∈ w.ids then none
    else
      some { w with
        ids := w.ids ++ [row.id]
        rows := Function.update w.rows row.id (some row)
        revs := Function.update w.revs row.id 1 }
  | .change row =>
    match w.rows row.id with
    | none => none
    | some old =>
      -- a session keeps its node, and `archived` is terminal
      if row.nodeId = old.nodeId ∧ (old.state = .archived → row.state = .archived) then
        some (w.changed row old)
      else none
  | .delete id => some { w with rows := Function.update w.rows id none }
  | .announce ids => some (w.announcing ids)
  | .deliver =>
    match w.frames with
    | [] => none
    | batch :: rest => some (w.delivered batch rest)
  | .openNode nodeId => some (w.opened nodeId)
  | .closeNode nodeId keepId => some (w.closed nodeId keepId)
  | .refresh nodeId => some { w with flights := refreshed w.flights nodeId }
  | .read nodeId =>
    match w.flights nodeId with
    | some ⟨⟨none, removed⟩, trailing⟩ =>
      some { w with
        flights := Function.update w.flights nodeId
          (some ⟨⟨some (w.listNodeSessions nodeId false), removed⟩, trailing⟩) }
    | _ => none
  | .land nodeId =>
    match w.flights nodeId with
    | some ⟨⟨some rows, _⟩, trailing⟩ =>
      some { w.filled rows with
        flights := Function.update w.flights nodeId (if trailing then some {} else none) }
    | _ => none
  | .askList nodeId includeArchived =>
    some { w with lists := w.lists ++ [(nodeId, includeArchived, {})] }
  | .readList index =>
    match w.lists[index]? with
    | some (nodeId, includeArchived, ⟨none, removed⟩) =>
      some { w with
        lists := w.lists.set index (nodeId, includeArchived,
          ⟨some (w.listNodeSessions nodeId includeArchived), removed⟩) }
    | _ => none
  | .landList index =>
    match w.lists[index]? with
    | some (_, _, ⟨some rows, _⟩) =>
      some { w.filled rows with lists := w.lists.eraseIdx index }
    | _ => none

end Portuni.SessionStore
