import Mathlib.Data.Nat.Notation
import Mathlib.Logic.Function.Basic
import Portuni.Sessions.Transitions

/-!
The Streamable HTTP transport of the MCP server: the requests that open a connection, each
as the awaited steps that it takes, the session rows that the connections create, resume or
bind to, and what closing a transport does to its row.
-/

namespace Portuni.McpSessions

open Sessions (SessionState isAllowedSessionTransition)

/-- The columns of a session row that connections read and write, with the number of its
`session_runs` that have not ended. -/
structure SessionRow where
  userId : String
  nodeId : Option String
  state : SessionState
  runner : Option String := none
  openRuns : ℕ := 0

def SessionRow.isDeviceDrivenSession (row : SessionRow) : Bool :=
  row.runner.isSome || 0 < row.openRuns

def SessionRow.live (row : SessionRow) : Bool :=
  row.state = .running && !row.isDeviceDrivenSession

structure McpRequest where
  /-- The `mcp-session-id` header: the connection that the request belongs to. -/
  mcpSessionId : Option ℕ := none
  userId : String
  headless : Bool := false
  homeNodeId : Option String := none
  resumeSessionId : Option String := none
  spawnSessionId : Option String := none
  isInitialize : Bool := true

inductive Refusal where
  | sessionForbidden
  | sessionNotFound
  | capacityReached
  | homeNodeRequired
  | bindRefused
  | resumeRefused
  | scopeUnavailable
  | notInitialized
  | internalError
deriving DecidableEq

def Refusal.status : Refusal → ℕ
  | .sessionForbidden | .resumeRefused => 403
  | .sessionNotFound => 404
  | .capacityReached | .bindRefused | .scopeUnavailable => 503
  | .homeNodeRequired | .notInitialized => 400
  | .internalError => 500

/-- The `code` of the answer; a body that does not initialize is answered by the transport
itself. -/
def Refusal.code : Refusal → Option String
  | .sessionForbidden => some "MCP_SESSION_FORBIDDEN"
  | .sessionNotFound => some "MCP_SESSION_NOT_FOUND"
  | .capacityReached => some "MCP_CAPACITY_REACHED"
  | .homeNodeRequired => some "MCP_HOME_NODE_REQUIRED"
  | .bindRefused => some "SESSION_BIND_REFUSED"
  | .resumeRefused => some "MCP_RESUME_REFUSED"
  | .scopeUnavailable => some "MCP_SCOPE_UNAVAILABLE"
  | .notInitialized => none
  | .internalError => some "INTERNAL_ERROR"

inductive Phase where
  | lookupSpawn (id : String)
  | loadResumable (id home : String)
  /-- The three statements of `transitionSessionState`. -/
  | transitionLoad (id home : String)
  | transitionWrite (id home : String)
  | transitionReload (id home : String)
  /-- `getSessionScope`, of a row that the connection was bound to or has resumed. -/
  | rehydrate (id : String)
  | seed (home : String)
  | handshake
deriving DecidableEq

/-- The step that `closeSessionIfRunning` awaits: its own row, the open runs of it, the row
again, and on a device the end of its dangling runs and the row once more. -/
inductive CloseStage where
  | load
  | runs
  | reload
  | endRuns
  | suspendLoad
  | write
deriving DecidableEq

inductive Status where
  | connecting (phase : Phase)
  | refused (refusal : Refusal)
  | registered
  | closed (closing : Option (CloseStage × String))
deriving DecidableEq

/-- What the scope of a connection knows of its row: nothing, also while `createSession`
inserts it and until the promise of that resolves, and then its id. -/
inductive RowLink where
  | none
  | inserting
  | inserted (id : String)
  | bound (id : String)
deriving DecidableEq

def RowLink.sessionId : RowLink → Option String
  | .bound id => some id
  | _ => Option.none

structure Connection where
  request : McpRequest
  status : Status
  link : RowLink := .none
  scopeHomeNodeId : Option String := none
  scopeNodes : List String := []
  setRunning : Option String := none

structure McpState where
  rows : String → Option SessionRow
  sessionScope : String → List String
  connections : List Connection := []
  /-- The rows that a refused resume request had set running and that still run as it is
  answered. -/
  leftRunning : List String := []
  /-- The rows suspended for a closed connection while another one was open on them. -/
  cutOff : List String := []

inductive Outcome where
  | returns
  | fails
deriving DecidableEq

inductive Action where
  | request (r : McpRequest)
  /-- The step that the request of connection `i` awaits. -/
  | advance (i : ℕ) (o : Outcome)
  /-- The step that the `createSession` of connection `i` awaits; `ulid` is the id it draws. -/
  | create (i : ℕ) (o : Outcome) (ulid : String)
  | close (i : ℕ)
  | closeStep (i : ℕ) (o : Outcome)
  | other (id : String) (row : Option SessionRow)
  | scopeWritten (id : String) (nodes : List String)

def Connection.isOpen (c : Connection) : Bool := c.status = .registered

def Connection.isOpenOn (c : Connection) (id : String) : Bool :=
  c.status = .registered && c.link = .bound id

namespace McpState

variable (s : McpState)

def live (id : String) : Bool := (s.rows id).any SessionRow.live

def isRunning (id : String) : Bool := (s.rows id).any (·.state = .running)

def size : ℕ := s.connections.countP Connection.isOpen

def openOn (id : String) : Bool := s.connections.any (·.isOpenOn id)

def setState (id : String) (state : SessionState) : String → Option SessionRow :=
  Function.update s.rows id ((s.rows id).map fun row => { row with state })

end McpState

inductive Routed where
  | forwarded
  | refused (refusal : Refusal)
  | fresh

def routeToExistingSession (maxSessions : ℕ) (s : McpState) (r : McpRequest) : Routed :=
  match r.mcpSessionId with
  | some id =>
    match s.connections[id]? with
    | some existing =>
      if !existing.isOpen then .refused .sessionNotFound
      else if existing.request.userId ≠ r.userId then .refused .sessionForbidden
      else .forwarded
    | none => .refused .sessionNotFound
  | none => if maxSessions ≤ s.size then .refused .capacityReached else .fresh

/-- Behind the scope, the request is seeded from its home node and then handed to the
transport. -/
def McpRequest.seedOrHandshake (r : McpRequest) : Status :=
  match r.homeNodeId with
  | some home => .connecting (.seed home)
  | none => .connecting .handshake

/-- What `handle` does with a request that opens a connection, up to its first await. -/
def McpRequest.begin (r : McpRequest) : Status :=
  if r.headless && r.homeNodeId.isNone then .refused .homeNodeRequired
  else match r.resumeSessionId with
    | some id =>
      match r.homeNodeId with
      | some home => .connecting (.loadResumable id home)
      | none => .refused .resumeRefused
    | none =>
      match r.spawnSessionId with
      | some id => .connecting (.lookupSpawn id)
      | none => r.seedOrHandshake

namespace Connection

variable (c : Connection)

def refuse (refusal : Refusal) : Connection := { c with status := .refused refusal }

def goTo (phase : Phase) : Connection := { c with status := .connecting phase }

def bind (id : String) (home : Option String) : Connection :=
  { c with status := .connecting (.rehydrate id), link := .bound id, scopeHomeNodeId := home }

/-- `autoSeedFromHome` does nothing for a scope that holds nodes under its home. -/
def seedIsNoop : Bool := c.scopeHomeNodeId.isSome && c.scopeNodes ≠ []

/-- `onsessioninitialized`: the entry of the map, and a row of its own for a connection that
neither resumes nor is bound to one. -/
def register : Connection :=
  { c with
    status := .registered
    link := if c.request.resumeSessionId.isSome || c.link.sessionId.isSome then c.link
      else .inserting }

def advance (s : McpState) : Phase → Outcome → Connection
  | .seed _, .fails =>
    if c.seedIsNoop then c.goTo .handshake else c.refuse .scopeUnavailable
  | _, .fails => c.refuse .internalError
  | .lookupSpawn id, .returns =>
    match s.rows id with
    | none => { c with status := c.request.seedOrHandshake }
    | some row =>
      if row.state ≠ .running || row.userId ≠ c.request.userId then c.refuse .bindRefused
      else c.bind id row.nodeId
  | .loadResumable id home, .returns =>
    match s.rows id with
    | none => c.refuse .resumeRefused
    | some row =>
      if row.userId ≠ c.request.userId || row.nodeId ≠ some home ||
          row.state ≠ .suspended then c.refuse .resumeRefused
      else c.goTo (.transitionLoad id home)
  | .transitionLoad id home, .returns =>
    match s.rows id with
    | none => c.refuse .internalError
    | some row =>
      if row.state = .running then c.bind id (some home)
      else if !isAllowedSessionTransition row.state .running then c.refuse .internalError
      else c.goTo (.transitionWrite id home)
  | .transitionWrite id home, .returns =>
    { c with status := .connecting (.transitionReload id home), setRunning := some id }
  | .transitionReload id home, .returns =>
    if (s.rows id).isSome then c.bind id (some home) else c.refuse .internalError
  | .rehydrate id, .returns =>
    { c with status := c.request.seedOrHandshake, scopeNodes := s.sessionScope id }
  | .seed _, .returns => c.goTo .handshake
  | .handshake, .returns => if c.request.isInitialize then c.register else c.refuse .notInitialized

/-- The row that a resume request has set running, if it still runs as it is refused. -/
def abandons (s : McpState) : List String :=
  match c.status with
  | .refused _ => (c.setRunning.filter s.isRunning).toList
  | _ => []

/-- `createSession` behind the handshake: the `INSERT`, then the audit row and the reload,
after which the scope knows the id. -/
def nextLink (s : McpState) (o : Outcome) (id : String) : RowLink :=
  match c.link, o with
  | .inserting, .returns => if (s.rows id).isSome then .none else .inserted id
  | .inserted id', .returns => if (s.rows id').isSome then .bound id' else .none
  | _, _ => .none

end Connection

def McpRequest.freshRow (r : McpRequest) : SessionRow :=
  { userId := r.userId, nodeId := r.homeNodeId, state := .running }

def Connection.onclose (c : Connection) : Connection :=
  { c with status := .closed (c.link.sessionId.map (CloseStage.load, ·)) }

/-- The step of `closeSessionIfRunning` behind this one, if it goes on. -/
def nextCloseStage (central : Bool) (s : McpState) (id : String) : CloseStage → Option CloseStage
  | .load =>
    if (s.rows id).any fun row => row.state = .running && row.runner.isNone then some .runs
    else none
  | .runs => if (s.rows id).any (0 < ·.openRuns) then none else some .reload
  | .reload =>
    if s.isRunning id then some (if central then .write else .endRuns) else none
  | .endRuns => some .suspendLoad
  | .suspendLoad =>
    if (s.rows id).any fun row => row.state = .running || row.state = .suspended then
      some .write
    else none
  | .write => none

def closeRows (s : McpState) (id : String) : CloseStage → String → Option SessionRow
  | .endRuns => Function.update s.rows id ((s.rows id).map fun row => { row with openRuns := 0 })
  | .write => s.setState id .suspended
  | _ => s.rows

def advanceRows (s : McpState) : Phase → Outcome → String → Option SessionRow
  | .transitionWrite id _, .returns => s.setState id .running
  | _, _ => s.rows

variable (maxSessions : ℕ) (central : Bool)

def step (s : McpState) : Action → Option McpState
  | .request r =>
    match routeToExistingSession maxSessions s r with
    | .forwarded => some s
    | .refused refusal =>
      some { s with
        connections := s.connections ++ [{ request := r, status := .refused refusal }] }
    | .fresh =>
      some { s with connections := s.connections ++ [{ request := r, status := r.begin }] }
  | .advance i o =>
    match s.connections[i]? with
    | some c =>
      match c.status with
      | .connecting phase =>
        let rows := advanceRows s phase o
        let c' := c.advance s phase o
        some { s with
          rows := rows
          connections := s.connections.set i c'
          leftRunning := s.leftRunning ++ c'.abandons s }
      | _ => none
    | none => none
  | .create i o ulid =>
    match s.connections[i]? with
    | some c =>
      let id := c.request.spawnSessionId.getD ulid
      match c.link with
      | .inserting | .inserted _ =>
        some { s with
          rows :=
            if c.link = .inserting ∧ o = .returns ∧ s.rows id = none then
              Function.update s.rows id (some c.request.freshRow)
            else s.rows
          connections := s.connections.set i { c with link := c.nextLink s o id } }
      | _ => none
    | none => none
  | .close i =>
    match s.connections[i]? with
    | some c =>
      if c.isOpen then some { s with connections := s.connections.set i c.onclose } else none
    | none => none
  | .closeStep i o =>
    match s.connections[i]? with
    | some c =>
      match c.status with
      | .closed (some (stage, id)) =>
        let next := if o = .returns then nextCloseStage central s id stage else none
        some { s with
          rows := if o = .returns then closeRows s id stage else s.rows
          connections := s.connections.set i { c with status := .closed (next.map (·, id)) }
          cutOff :=
            if stage = .write ∧ o = .returns ∧ s.openOn id then s.cutOff ++ [id]
            else s.cutOff }
      | _ => none
    | none => none
  -- the runtime and the sweeps set a row running only with a runner that drives it
  | .other id row =>
    if row.any SessionRow.live && !s.live id then none
    else some { s with rows := Function.update s.rows id row }
  | .scopeWritten id nodes =>
    some { s with sessionScope := Function.update s.sessionScope id nodes }

end Portuni.McpSessions
