import Portuni.Access.Model

/-!
The graph as the read and write gates of an MCP session see it: nodes, edges, who may see a node,
which nodes are neighbours, and which nodes have a hard floor.
-/

namespace Portuni.McpScope

open Access

structure Node where
  id : String
  name : String
  type : String
  visibility : Visibility
  accessMode : AccessMode
  createdBy : String
  scopeSensitive : Bool

structure Edge where
  id : String
  source : String
  target : String
  relation : String

structure Graph where
  nodes : List Node := []
  edges : List Edge := []
  access : List AccessRow := []

/-- The two case foldings: `String.prototype.toLowerCase` and the `lower` of the database. -/
structure Casing where
  toLowerCase : String → String
  lower : String → String

inductive Via where
  | env
  | sessionJwt
  | oauthGrant
  | deviceToken
deriving DecidableEq

structure RequestIdentity where
  via : Via
  headless : Bool := false
  view : GroupIdentityView

def RequestIdentity.userId (identity : RequestIdentity) : String := identity.view.userId

inductive SessionType where
  | interactiveTask
  | interactiveChat
  | headless
  | env
deriving DecidableEq

def deriveSessionType (identity : RequestIdentity) : SessionType :=
  match identity.via with
  | .env => .env
  | .oauthGrant => .interactiveChat
  | _ => if identity.headless then .headless else .interactiveTask

structure NodeScopeRow where
  found : Bool
  visibility : Visibility
  creatorUserId : Option String
  scopeSensitive : Bool
  name : Option String
  type : Option String

def violatesHardFloor (row : NodeScopeRow) (sessionUserId : String) : Bool :=
  row.scopeSensitive ||
    (row.visibility = .private_ && row.creatorUserId ≠ none &&
      row.creatorUserId ≠ some sessionUserId)

namespace Graph

variable (casing : Casing) (g : Graph)

def node? (id : String) : Option Node := g.nodes.find? (·.id = id)

def has (id : String) : Bool := g.nodes.any (·.id = id)

def nodeNeighbourIds (id : String) : List String :=
  ((g.edges.filter fun e => e.source = id ∨ e.target = id).map fun e =>
    if e.source = id then e.target else e.source).eraseDups.filter (· ≠ "")

def loadNodeScopeMeta (id : String) : NodeScopeRow :=
  match g.node? id with
  | none => ⟨false, .team, none, false, none, none⟩
  | some n => ⟨true, n.visibility, some n.createdBy, n.scopeSensitive, some n.name, some n.type⟩

def accessDb : Db where
  nodes := g.nodes.map fun n => ⟨n.id, n.visibility, n.accessMode, n.createdBy⟩
  edges := (g.edges.filter (·.relation = "belongs_to")).map fun e => ⟨e.source, e.target⟩
  access := g.access

def nodeVisibleTo (identity : GroupIdentityView) (id : String) : Bool :=
  Access.nodeVisibleTo casing.toLowerCase g.accessDb identity id

def filterVisibleNodeIds (identity : GroupIdentityView) (ids : List String) : List String :=
  Access.filterVisibleNodeIds casing.toLowerCase g.accessDb identity ids

def classifyNodeVisibility (identity : GroupIdentityView) (ids : List String) :
    List (String × NodeVisibility) :=
  Access.classifyNodeVisibility casing.toLowerCase g.accessDb identity ids

def floored (userId id : String) : Bool := violatesHardFloor (g.loadNodeScopeMeta id) userId

variable {g} {id : String}

theorem has_iff : g.has id = true ↔ ∃ n ∈ g.nodes, n.id = id := by
  simp [has]

theorem has_eq_isSome : g.has id = (g.node? id).isSome := by
  rw [Bool.eq_iff_iff, has_iff, node?, List.find?_isSome]
  simp

theorem loadNodeScopeMeta_found : (g.loadNodeScopeMeta id).found = g.has id := by
  rw [has_eq_isSome, loadNodeScopeMeta]
  cases g.node? id <;> rfl

end Graph

/-!
The scope of one MCP connection: its read set, its write set, the log of its expansions, and the
listeners that mirror it into `session_scope`. Listeners queue microtasks, and a microtask starts
a chain of statements; the chains of a connection finish in any order.
-/

inductive AddedVia where
  | seed
  | edge
  | disconnected
  | created
  | elicited
deriving DecidableEq

structure ExpansionRecord where
  nodeIds : List String
  reason : String
  addedVia : Option AddedVia := none

inductive ScopeWrite where
  | upsertRead (sessionId nodeId : String) (addedVia : AddedVia) (reason : String)
  | setWritable (sessionId nodeId : String)

structure Microtask where
  sessionId : String
  nodeId : String
  writable : Bool

structure SessionScope where
  sessionType : SessionType
  homeNodeId : Option String := none
  sessionId : Option String := none
  nodes : List String := []
  writeSet : List String := []
  history : List ExpansionRecord := []
  /-- The session whose rows the listeners write, once they are wired. -/
  listeners : Option String := none
  microtasks : List Microtask := []
  /-- The chains of statements that are under way. -/
  writes : List (List ScopeWrite) := []

namespace SessionScope

variable (s : SessionScope)

def has (nodeId : String) : Bool := s.nodes.contains nodeId

def canWrite (nodeId : String) : Bool := s.writeSet.contains nodeId

def add (nodeId : String) : SessionScope :=
  if s.has nodeId then s
  else
    { s with
      nodes := s.nodes ++ [nodeId]
      microtasks := s.microtasks ++ s.listeners.toList.map fun k => ⟨k, nodeId, false⟩ }

def addWritable (nodeId : String) : SessionScope :=
  if (s.add nodeId).canWrite nodeId then s.add nodeId
  else
    { s.add nodeId with
      writeSet := s.writeSet ++ [nodeId]
      microtasks := (s.add nodeId).microtasks ++ s.listeners.toList.map fun k => ⟨k, nodeId, true⟩ }

def recordExpansion (record : ExpansionRecord) : SessionScope :=
  { s with history := s.history ++ [record] }

def classifyNode (nodeId : String) : AddedVia × String :=
  match s.history.reverse.find? fun r => r.nodeIds.contains nodeId with
  | some r => (r.addedVia.getD .seed, r.reason)
  | none => (.seed, "seed")

def statements (t : Microtask) : List ScopeWrite :=
  .upsertRead t.sessionId t.nodeId (s.classifyNode t.nodeId).1 (s.classifyNode t.nodeId).2 ::
    if t.writable then [.setWritable t.sessionId t.nodeId] else []

def runMicrotasks : SessionScope :=
  { s with microtasks := [], writes := s.writes ++ s.microtasks.map s.statements }

def wireOngoingSync (sessionId : String) (homeNodeId : Option String) : SessionScope :=
  { s with
    listeners := some sessionId
    microtasks := s.microtasks ++ s.nodes.map (⟨sessionId, ·, false⟩) ++
      s.writeSet.map (⟨sessionId, ·, true⟩) ++ homeNodeId.toList.map (⟨sessionId, ·, true⟩) }

end SessionScope

/-- What the code does to a scope, one synchronous step at a time; at an `await` the microtasks
that are queued run. -/
inductive Effect where
  | anchor (homeNodeId : String)
  | add (nodeId : String)
  | addWritable (nodeId : String)
  | record (record : ExpansionRecord)
  | await

namespace SessionScope

def effect (s : SessionScope) : Effect → SessionScope
  | .anchor homeNodeId => { s with homeNodeId := some homeNodeId }
  | .add nodeId => s.add nodeId
  | .addWritable nodeId => s.addWritable nodeId
  | .record record => s.recordExpansion record
  | .await => s.runMicrotasks

def run (s : SessionScope) (effects : List Effect) : SessionScope := effects.foldl effect s

def perform (s : SessionScope) (effects : List Effect) : SessionScope :=
  (s.run effects).runMicrotasks

variable {s : SessionScope} {effects : List Effect} {n : String}

@[simp]
theorem run_nil : s.run [] = s := rfl

@[simp]
theorem run_cons (e : Effect) : s.run (e :: effects) = (s.effect e).run effects := rfl

variable (m : String)

@[simp]
theorem add_writeSet : (s.add m).writeSet = s.writeSet := by
  unfold add
  split <;> rfl

@[simp]
theorem add_homeNodeId : (s.add m).homeNodeId = s.homeNodeId := by
  unfold add
  split <;> rfl

@[simp]
theorem add_sessionType : (s.add m).sessionType = s.sessionType := by
  unfold add
  split <;> rfl

@[simp]
theorem add_listeners : (s.add m).listeners = s.listeners := by
  unfold add
  split <;> rfl

@[simp]
theorem add_writes : (s.add m).writes = s.writes := by
  unfold add
  split <;> rfl

theorem mem_addWritable_writeSet {m : String} :
    n ∈ (s.addWritable m).writeSet ↔ n ∈ s.writeSet ∨ n = m := by
  unfold addWritable
  split
  next h =>
    have : m ∈ s.writeSet := by simpa [canWrite] using h
    rw [add_writeSet]
    grind
  next => simp

@[simp]
theorem addWritable_homeNodeId : (s.addWritable m).homeNodeId = s.homeNodeId := by
  unfold addWritable
  split <;> simp

@[simp]
theorem addWritable_sessionType : (s.addWritable m).sessionType = s.sessionType := by
  unfold addWritable
  split <;> simp

@[simp]
theorem addWritable_listeners : (s.addWritable m).listeners = s.listeners := by
  unfold addWritable
  split <;> simp

@[simp]
theorem addWritable_writes : (s.addWritable m).writes = s.writes := by
  unfold addWritable
  split <;> simp

theorem mem_effect_writeSet {e : Effect} :
    n ∈ (s.effect e).writeSet ↔ n ∈ s.writeSet ∨ e = .addWritable n := by
  cases e <;> simp [effect, mem_addWritable_writeSet, recordExpansion, runMicrotasks, eq_comm]

theorem mem_run_writeSet :
    n ∈ (s.run effects).writeSet ↔ n ∈ s.writeSet ∨ .addWritable n ∈ effects := by
  induction effects generalizing s with
  | nil => simp
  | cons e effects ih =>
    rw [run_cons, ih, mem_effect_writeSet]
    simp only [List.mem_cons, @eq_comm _ e]
    tauto

@[simp]
theorem effect_sessionType (e : Effect) : (s.effect e).sessionType = s.sessionType := by
  cases e <;> simp [effect, recordExpansion, runMicrotasks]

@[simp]
theorem effect_listeners (e : Effect) : (s.effect e).listeners = s.listeners := by
  cases e <;> simp [effect, recordExpansion, runMicrotasks]

@[simp]
theorem run_sessionType : (s.run effects).sessionType = s.sessionType := by
  induction effects generalizing s with
  | nil => rfl
  | cons e effects ih => rw [run_cons, ih, effect_sessionType]

@[simp]
theorem run_listeners : (s.run effects).listeners = s.listeners := by
  induction effects generalizing s with
  | nil => rfl
  | cons e effects ih => rw [run_cons, ih, effect_listeners]

theorem run_homeNodeId_of_forall {home : Option String} (start : s.homeNodeId = home)
    (names : ∀ h, .anchor h ∈ effects → some h = home) : (s.run effects).homeNodeId = home := by
  induction effects generalizing s with
  | nil => exact start
  | cons e effects ih =>
    rw [run_cons]
    refine ih ?_ fun h hh => names h (List.mem_cons_of_mem _ hh)
    cases e with
    | anchor h => exact names h List.mem_cons_self
    | add m | addWritable m => simpa [effect] using start
    | record r | await => exact start

end SessionScope

end Portuni.McpScope
