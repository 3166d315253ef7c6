import Portuni.McpScope.Tools

/-!
The tables `sessions` and `session_scope` and the MCP connections over them: how a connection is
opened, resumed or bound to a session that exists, how its scope is mirrored into the tables, and
the runs of the whole.
-/

namespace Portuni.McpScope

inductive SessionState where
  | draft
  | running
  | suspended
  | closed
  | archived
deriving DecidableEq

structure SessionRow where
  id : String
  userId : String
  nodeId : Option String
  sessionType : SessionType
  state : SessionState

structure SessionScopeRow where
  sessionId : String
  nodeId : String
  addedVia : AddedVia
  reason : String
  writable : Bool := false

inductive Binding where
  | fresh
  | inserted
  | bound
deriving DecidableEq

structure Connection where
  identity : RequestIdentity
  homeNodeId : Option String
  session : String
  binding : Binding
  /-- The node that the scope was anchored to when the connection was opened. -/
  anchor : Option String
  scope : SessionScope

/-- `log` is what was said in each session, under the id of the session; `purged` are the nodes
that were deleted. -/
structure World where
  graph : Graph := {}
  sessions : List SessionRow := []
  rows : List SessionScopeRow := []
  connections : List Connection := []
  log : List (String × Event) := []
  purged : List String := []

def addedViaRank : AddedVia → ℕ
  | .seed => 0
  | .edge => 1
  | .created => 1
  | .disconnected => 2
  | .elicited => 2

namespace World

variable (casing : Casing) (w : World)

def getSession (id : String) : Option SessionRow := w.sessions.find? (·.id = id)

def getSessionScope (sessionId : String) : List SessionScopeRow :=
  w.rows.filter (·.sessionId = sessionId)

def holdsRow (sessionId nodeId : String) : Bool :=
  w.rows.any fun r => r.sessionId = sessionId ∧ r.nodeId = nodeId

/-- A row that is there takes a new class only where it outranks the old one. -/
def upsertSessionScopeRead (sessionId nodeId : String) (addedVia : AddedVia) (reason : String) :
    List SessionScopeRow :=
  if w.holdsRow sessionId nodeId then
    w.rows.map fun r =>
      if r.sessionId = sessionId ∧ r.nodeId = nodeId ∧
          addedViaRank r.addedVia < addedViaRank addedVia then
        { r with addedVia := addedVia, reason := reason }
      else r
  else w.rows ++ [⟨sessionId, nodeId, addedVia, reason, false⟩]

def setSessionScopeWritable (sessionId nodeId : String) : List SessionScopeRow :=
  w.rows.map fun r =>
    if r.sessionId = sessionId ∧ r.nodeId = nodeId then { r with writable := true } else r

/-- What a statement leaves, or `none` where a foreign key refuses it. -/
def write : ScopeWrite → Option (List SessionScopeRow)
  | .upsertRead sessionId nodeId addedVia reason =>
    if w.graph.has nodeId ∧ (w.getSession sessionId).isSome then
      some (w.upsertSessionScopeRead sessionId nodeId addedVia reason)
    else none
  | .setWritable sessionId nodeId => some (w.setSessionScopeWritable sessionId nodeId)

def replay (accumulated : List SessionScopeRow) (reason : String) : List Effect :=
  accumulated.flatMap (fun r => .add r.nodeId :: if r.writable then [.addWritable r.nodeId] else [])
    ++ if accumulated = [] then [] else [.record ⟨accumulated.map (·.nodeId), reason, none⟩]

def listConnectorCreatedWritableNodes (userId : String) : List String :=
  ((w.rows.filter fun r =>
    r.addedVia = .created && r.writable && w.graph.has r.nodeId &&
      w.sessions.any fun k =>
        k.id = r.sessionId && k.userId = userId && k.sessionType = .interactiveChat).map
    (·.nodeId)).eraseDups

def rehydrateConnectorWriteGrants (identity : RequestIdentity) : List Effect :=
  let created := w.listConnectorCreatedWritableNodes identity.userId
  let granted := created.filter fun id =>
    (w.graph.filterVisibleNodeIds casing identity.view created).contains id
  granted.map .addWritable ++
    if granted = [] then []
    else [.record ⟨granted, "created by an earlier connector session of this user " ++
      "(rehydrated write grant)", some .created⟩]

/-- What a connection brings: the identity, the query of the URL, the header, and the id that a
session gets if it brings none. -/
structure OpenRequest where
  identity : RequestIdentity
  homeNodeId : Option String := none
  resumeSessionId : Option String := none
  spawnSessionId : Option String := none
  ulid : String

/-- The row that a spawn id binds to, if there is one; `none` refuses the connection. -/
def lookupSpawnSessionForBind (identity : RequestIdentity) (spawnSessionId : String) :
    Option (Option SessionRow) :=
  match w.getSession spawnSessionId with
  | none => some none
  | some row =>
    if row.state ≠ .running ∨ row.userId ≠ identity.userId then none else some (some row)

def loadResumableSession (identity : RequestIdentity) (homeNodeId sessionId : String) :
    Option SessionRow :=
  (w.getSession sessionId).filter fun row =>
    row.userId = identity.userId && row.nodeId = some homeNodeId && row.state = .suspended

/-- The session that a connection attaches to, if it attaches to one; `none` refuses it. -/
def attachment (req : OpenRequest) : Option (Option SessionRow) :=
  if req.identity.headless ∧ req.homeNodeId = none then none
  else
    match req.resumeSessionId with
    | some k =>
      match req.homeNodeId with
      | none => none
      | some home => (w.loadResumableSession req.identity home k).map some
    | none =>
      match req.spawnSessionId with
      | none => some none
      | some k => w.lookupSpawnSessionForBind req.identity k

def resumedReason (req : OpenRequest) : String :=
  if req.resumeSessionId.isSome then "session resumed: rehydrated from persisted session_scope"
  else "session bound: rehydrated from persisted session_scope"

/-- `resumeSessionPersistence` and `bindExistingSessionPersistence`: the anchor and the rows of the
session, and only then the listeners. -/
def attach (row : SessionRow) (reason : String) (s : SessionScope) : SessionScope :=
  (({ s with sessionId := some row.id, homeNodeId := row.nodeId }.run
    (replay (w.getSessionScope row.id) reason)).wireOngoingSync row.id row.nodeId).runMicrotasks

def attachedScope (req : OpenRequest) (row : Option SessionRow) : SessionScope :=
  match row with
  | none => { sessionType := deriveSessionType req.identity }
  | some row => w.attach row (resumedReason req) { sessionType := deriveSessionType req.identity }

def rehydratedScope (identity : RequestIdentity) (s : SessionScope) : SessionScope :=
  if s.sessionType = .interactiveChat then
    s.perform (w.rehydrateConnectorWriteGrants casing identity)
  else s

def seededScope (req : OpenRequest) (s : SessionScope) : SessionScope :=
  s.perform (autoSeedFromHome casing w.graph req.identity s req.homeNodeId)

def openScope (req : OpenRequest) (row : Option SessionRow) : SessionScope :=
  w.seededScope casing req (w.rehydratedScope casing req.identity (w.attachedScope req row))

def connect (req : OpenRequest) (row : Option SessionRow) : Connection where
  identity := req.identity
  homeNodeId := req.homeNodeId
  session := match row with
    | some row => row.id
    | none => req.spawnSessionId.getD req.ulid
  binding := if row.isSome then .bound else .fresh
  anchor := (w.openScope casing req row).homeNodeId
  scope := w.openScope casing req row

def transitionSessionState (id : String) (state : SessionState) : List SessionRow :=
  w.sessions.map fun k => if k.id = id then { k with state := state } else k

def unused (id : String) : Bool :=
  w.sessions.all (·.id ≠ id) && w.connections.all (·.session ≠ id)

def openConnection (req : OpenRequest) : Option World :=
  if w.unused req.ulid then
    (w.attachment req).map fun row =>
      { w with
        sessions := match req.resumeSessionId with
          | some k => w.transitionSessionState k .running
          | none => w.sessions
        connections := w.connections ++ [w.connect casing req row] }
  else none

inductive Call where
  | sessionInit (args : SessionInitArgs)
  | expandScope (args : ExpandArgs) (dialog : ℕ → ElicitOutcome)
  | read (nodeId : String) (outcome : ElicitOutcome)
  | getContext (nodeId : String) (depth : ℕ) (outcome : ElicitOutcome)
  | write (nodeId : String) (outcome : ElicitOutcome)
  | createNode (args : CreateArgs)

/-- `read` and `write` stand for the gates in front of the tools that read or change one node. -/
inductive Answer where
  | sessionInit (answer : SessionInitAnswer)
  | expandScope (answer : ExpandAnswer)
  | read (answer : ReadGuardOutcome)
  | getContext (answer : ContextAnswer)
  | write (answer : WriteGateResult)
  | createNode (answer : CreateAnswer)

def respond (g : Graph) (c : Connection) : Call → Result Answer
  | .sessionInit args =>
    let r := McpScope.sessionInit casing g c.identity c.scope args
    ⟨.sessionInit r.answer, r.effects, r.events⟩
  | .expandScope args dialog =>
    let r := McpScope.expandScope casing g c.identity c.scope args dialog
    ⟨.expandScope r.answer, r.effects, r.events⟩
  | .read nodeId outcome =>
    let r := guardNodeRead casing g c.identity c.scope nodeId outcome
    ⟨.read r.answer, r.effects, r.events⟩
  | .getContext nodeId depth outcome =>
    let r := McpScope.getContext casing g c.identity c.scope nodeId depth outcome
    ⟨.getContext r.answer, r.effects, r.events⟩
  | .write nodeId outcome =>
    let r := guardNodeWrite c.scope nodeId outcome
    ⟨.write r.answer, r.effects, r.events⟩
  | .createNode args =>
    let r := McpScope.createNode casing g c.identity args
    ⟨.createNode r.answer, r.effects, r.events⟩

/-- The graph after a call: only a creation changes it, under an id that was never given out. -/
def graphAfter (c : Connection) : Call → Option Graph
  | .createNode args =>
    if (McpScope.createNode casing w.graph c.identity args).effects = [] then some w.graph
    else if w.graph.has args.node.id ∨ args.node.id ∈ w.purged then none
    else some (createNodeInternal w.graph c.identity args)
  | _ => some w.graph

def updateConnection (i : ℕ) (f : Connection → Connection) : World :=
  { w with connections := w.connections.modify i f }

def callTool (i : ℕ) (call : Call) : Option World :=
  w.connections[i]?.bind fun c =>
    (w.graphAfter casing c call).map fun g =>
      let r := respond casing w.graph c call
      { w.updateConnection i fun c => { c with scope := c.scope.perform r.effects } with
        graph := g
        log := w.log ++ r.events.map fun e => (c.session, e) }

def insertSession (i : ℕ) : Option World :=
  w.connections[i]?.bind fun c =>
    if c.binding = .fresh ∧ w.getSession c.session = none ∧
        ∀ home ∈ c.homeNodeId, w.graph.has home then
      some { w.updateConnection i fun c => { c with binding := .inserted } with
        sessions := w.sessions ++
          [⟨c.session, c.identity.userId, c.homeNodeId, c.scope.sessionType, .running⟩] }
    else none

def bindSession (i : ℕ) : Option World :=
  w.connections[i]?.bind fun c =>
    if c.binding = .inserted then
      some (w.updateConnection i fun c =>
        { c with
          binding := .bound
          scope := ({ c.scope with sessionId := some c.session }.wireOngoingSync c.session
            c.homeNodeId).runMicrotasks })
    else none

def deliver (i j : ℕ) : Option World :=
  w.connections[i]?.bind fun c =>
    match c.scope.writes[j]? with
    | none => none
    | some [] => none
    | some (statement :: rest) =>
      let left := if rest = [] ∨ w.write statement = none then c.scope.writes.eraseIdx j
        else c.scope.writes.set j rest
      some { w.updateConnection i fun c => { c with scope := { c.scope with writes := left } } with
        rows := (w.write statement).getD w.rows }

def lose (i j : ℕ) : Option World :=
  w.connections[i]?.bind fun c =>
    if j < c.scope.writes.length then
      some (w.updateConnection i fun c =>
        { c with scope := { c.scope with writes := c.scope.writes.eraseIdx j } })
    else none

def startSession (row : SessionRow) : Option World :=
  if w.unused row.id ∧ ∀ n ∈ row.nodeId, w.graph.has n then
    some { w with sessions := w.sessions ++ [row] }
  else none

/-- The rest of the system changes the graph; a node leaves it only through `purge`. -/
def changeGraph (g : Graph) : Option World :=
  if (∀ n ∈ w.graph.nodes, g.has n.id) ∧ ∀ n ∈ g.nodes, n.id ∉ w.purged then
    some { w with graph := g }
  else none

def purge (nodeId : String) : World :=
  { w with
    graph :=
      { nodes := w.graph.nodes.filter (·.id ≠ nodeId)
        edges := w.graph.edges.filter fun e => e.source ≠ nodeId ∧ e.target ≠ nodeId
        access := w.graph.access.filter (·.nodeId ≠ nodeId) }
    sessions := w.sessions.map fun k =>
      if k.nodeId = some nodeId then { k with nodeId := none } else k
    rows := w.rows.filter (·.nodeId ≠ nodeId)
    purged := w.purged ++ [nodeId] }

inductive Action where
  | openConnection (req : OpenRequest)
  | call (i : ℕ) (call : Call)
  | insertSession (i : ℕ)
  | bindSession (i : ℕ)
  | deliver (i j : ℕ)
  | lose (i j : ℕ)
  | startSession (row : SessionRow)
  | setState (id : String) (state : SessionState)
  | changeGraph (g : Graph)
  | purge (nodeId : String)

def step (w : World) : Action → Option World
  | .openConnection req => w.openConnection casing req
  | .call i call => w.callTool casing i call
  | .insertSession i => w.insertSession i
  | .bindSession i => w.bindSession i
  | .deliver i j => w.deliver i j
  | .lose i j => w.lose i j
  | .startSession row => w.startSession row
  | .setState id state => some { w with sessions := w.transitionSessionState id state }
  | .changeGraph g => w.changeGraph g
  | .purge nodeId => some (w.purge nodeId)

def start (g : Graph) : World := { graph := g }

end World

end Portuni.McpScope
