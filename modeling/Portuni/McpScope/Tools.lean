import Portuni.McpScope.Gates

/-!
The tools that change a session's scope: the seed from a home node, `portuni_session_init`,
`portuni_expand_scope`, `portuni_get_context` and `portuni_create_node`.
-/

namespace Portuni.McpScope

variable (casing : Casing) (g : Graph) (identity : RequestIdentity) (s : SessionScope)

def seedNeighbours (homeNodeId : String) : List String :=
  (g.nodeNeighbourIds homeNodeId).filter fun id =>
    (g.filterVisibleNodeIds casing identity.view (g.nodeNeighbourIds homeNodeId)).contains id

def seedScopeFromHome (homeNodeId : String) : List Effect :=
  [.anchor homeNodeId, .add homeNodeId, .await] ++
    (seedNeighbours casing g identity homeNodeId).map .add

def seedIds (homeNodeId : String) : List String :=
  homeNodeId :: seedNeighbours casing g identity homeNodeId

def seeded (reason homeNodeId : String) : List Effect :=
  seedScopeFromHome casing g identity homeNodeId ++
    [.record ⟨seedIds casing g identity homeNodeId, reason, none⟩]

def autoSeedFromHome (homeNodeId : Option String) : List Effect :=
  match homeNodeId with
  | none => []
  | some url =>
    if s.homeNodeId ≠ none ∧ s.nodes.length > 0 then []
    else if g.has (s.homeNodeId.getD url) then
      seeded casing g identity "auto-seed from home_node_id query param" (s.homeNodeId.getD url)
    else []

structure SessionInitArgs where
  homeNodeId : Option String := none
  homeNodeName : Option String := none

def namedLike (name : String) : List Node :=
  g.nodes.filter fun n => casing.lower n.name = casing.lower name

def loadNodeIdFromMaybeName (args : SessionInitArgs) : Option String :=
  match args.homeNodeId.filter (· ≠ "") with
  | some id => some id
  | none =>
    match args.homeNodeName.filter (· ≠ "") with
    | none => none
    | some name =>
      match namedLike casing g name with
      | [n] => some n.id
      | _ => none

inductive SessionInitAnswer where
  | noHome (sessionType : SessionType) (scopeSize : ℕ)
  | notFound (homeNodeId : String)
  | seeded (homeNodeId homeNodeName homeNodeType : String) (sessionType : SessionType)
      (scopeSize : ℕ) (seeded : List String)

def sessionInit (args : SessionInitArgs) : Result SessionInitAnswer :=
  match loadNodeIdFromMaybeName casing g args with
  | none => { answer := .noHome s.sessionType s.nodes.length }
  | some home =>
    match g.node? home with
    | none => { answer := .notFound home }
    | some n =>
      { answer := .seeded home n.name n.type s.sessionType
          (s.run (seedScopeFromHome casing g identity home)).nodes.length
          (seedIds casing g identity home)
        effects := seeded casing g identity "session_init seed (home + depth-1)" home }

structure ExpandArgs where
  nodeIds : List String
  reason : String
  confirmedHardFloor : Bool := false
  writable : Bool := false

structure HardFloorRefusal where
  nodeId : String
  reason : String
  permanent : Bool

structure WriteRefusal where
  nodeId : String
  reason : String

structure ExpandLoop where
  accepted : List String := []
  addedVia : List (String × AddedVia) := []
  rejectedUnknown : List String := []
  refusedHardFloor : List HardFloorRefusal := []
  refusedWrite : List WriteRefusal := []
  effects : List Effect := []
  events : List Event := []

def hardFloorReason (row : NodeScopeRow) : String :=
  if row.scopeSensitive then "meta.scope_sensitive=true"
  else "visibility=private and owner is another user"

def writeRefusalReason : ElicitOutcome → String
  | .unsupported => "This client does not support MCP elicitation dialogs; " ++
      "write-scope expansion has no honor-system fallback."
  | .timeout =>
    "The write-access confirmation dialog was not answered in time; ask the user and retry."
  | _ => "The user declined the write-access confirmation dialog."

/-- The class that the tool computes for a node, from the scope as it is by then. -/
def expandClass (now : SessionScope) (id : String) : AddedVia :=
  if now.has id || isEdgeReachable g now id then .edge else .disconnected

/-- One turn of the loop; `outcome` is how the dialog for the node ends, if one is shown. -/
def expandNode (args : ExpandArgs) (loop : ExpandLoop) (id : String) (outcome : ElicitOutcome) :
    ExpandLoop :=
  if !g.has id then { loop with rejectedUnknown := loop.rejectedUnknown ++ [id] }
  else if !g.nodeVisibleTo casing identity.view id then
    { loop with
      rejectedUnknown := loop.rejectedUnknown ++ [id]
      effects := loop.effects ++ [.await] }
  else if g.floored identity.userId id ∧
      (s.sessionType = .headless ∨ args.confirmedHardFloor = false) then
    { loop with
      refusedHardFloor := loop.refusedHardFloor ++
        [⟨id, hardFloorReason (g.loadNodeScopeMeta id), s.sessionType = .headless⟩]
      effects := loop.effects ++ [.await] }
  else if args.writable then
    if outcome = .accept then
      { loop with
        accepted := loop.accepted ++ [id]
        addedVia := loop.addedVia ++ [(id, expandClass g (s.run loop.effects) id)]
        effects := loop.effects ++ [.await, .addWritable id]
        events := loop.events ++ [.accepted .write id] }
    else
      { loop with
        addedVia := loop.addedVia ++ [(id, expandClass g (s.run loop.effects) id)]
        refusedWrite := loop.refusedWrite ++ [⟨id, writeRefusalReason outcome⟩]
        effects := loop.effects ++ [.await] }
  else
    { loop with
      accepted := loop.accepted ++ [id]
      addedVia := loop.addedVia ++ [(id, expandClass g (s.run loop.effects) id)]
      effects := loop.effects ++ [.await, .add id] }

/-- `dialog k` is how the dialog for the `k`-th node ends. -/
def expandLoop (args : ExpandArgs) (dialog : ℕ → ElicitOutcome) : ExpandLoop :=
  args.nodeIds.zipIdx.foldl (fun loop p => expandNode casing g identity s args loop p.1
    (dialog p.2)) {}

inductive ExpandAnswer where
  | writeExpansionImpossible
  | expanded (added : List String) (addedVia : List (String × AddedVia)) (writable : List String)
      (unknown : List String) (refusedHardFloor : List HardFloorRefusal)
      (refusedWrite : List WriteRefusal) (scopeSize : ℕ)

def expandScope (args : ExpandArgs) (dialog : ℕ → ElicitOutcome) : Result ExpandAnswer :=
  if args.writable ∧ s.sessionType = .headless then { answer := .writeExpansionImpossible }
  else
    let loop := expandLoop casing g identity s args dialog
    { answer := .expanded loop.accepted loop.addedVia (if args.writable then loop.accepted else [])
        loop.rejectedUnknown loop.refusedHardFloor loop.refusedWrite
        (s.run loop.effects).nodes.length
      effects := loop.effects ++
        if loop.accepted = [] then [] else [.record ⟨loop.accepted, args.reason, none⟩]
      events := loop.events ++
        if args.confirmedHardFloor then args.nodeIds.map .confirmedHardFloor else [] }

structure ContextEdge where
  id : String
  relation : String
  outgoing : Bool
  peerId : String
  peerName : String
  peerType : String
  peerRestricted : Bool := false

structure ContextNode where
  id : String
  type : String
  name : String
  edges : List ContextEdge
  depth : ℕ

def edgesByNode (id : String) : List ContextEdge :=
  g.edges.flatMap fun e =>
    match g.node? e.source, g.node? e.target with
    | some ns, some nt =>
      (if e.source = id then [⟨e.id, e.relation, true, e.target, nt.name, nt.type, false⟩]
        else []) ++
      (if e.target = id then [⟨e.id, e.relation, false, e.source, ns.name, ns.type, false⟩]
        else [])
    | _, _ => []

def walkOne (nodeId : String) : List Node :=
  (((g.nodeNeighbourIds nodeId).filter (· ≠ nodeId)).filterMap g.node?).insertionSort
    fun m n => m.name ≤ n.name

def connectedRows (nodeId : String) (depth : ℕ) : List Node :=
  if depth = 0 then [] else walkOne g nodeId

def candidateIds (nodeId : String) (depth : ℕ) : List String :=
  ((connectedRows g nodeId depth).map Node.id ++
    ((nodeId :: (connectedRows g nodeId depth).map Node.id).flatMap fun id =>
      (edgesByNode g id).map ContextEdge.peerId).filter (· ≠ nodeId)).eraseDups

def projectEdges (nodeId : String) (classification : List (String × Access.NodeVisibility))
    (edges : List ContextEdge) : List ContextEdge :=
  (edges.filter fun e => e.peerId = nodeId ∨ classification.lookup e.peerId ≠ some .hidden).map
    fun e => if classification.lookup e.peerId = some .request then
      { e with id := "", peerId := "", peerRestricted := true } else e

/-- The part of the payload that the walk decides: the nodes and their edges. -/
def buildContextPayload (root : Node) (depth : ℕ) : List ContextNode :=
  let classification :=
    g.classifyNodeVisibility casing identity.view (candidateIds g root.id depth)
  ⟨root.id, root.type, root.name, projectEdges root.id classification (edgesByNode g root.id), 0⟩ ::
    ((connectedRows g root.id depth).filter fun n =>
      classification.lookup n.id = some .visible).map fun n =>
        ⟨n.id, n.type, n.name, projectEdges root.id classification (edgesByNode g n.id), 1⟩

def depthHint (nodeId : String) (depth : ℕ) : String :=
  "Traversal depth " ++ toString depth ++ " from " ++ nodeId ++
    " reaches beyond the session scope's depth-1 horizon. Ask the user to confirm the breadth, " ++
    "then call portuni_get_context with depth=1 (and walk further with explicit " ++
    "portuni_expand_scope)."

inductive ContextAnswer where
  | notFound (nodeId : String)
  | elicit (error : ScopeExpansionError)
  | refused (error : ScopeRefusedError)
  | tooDeep (error : ScopeExpansionError)
  | payload (nodes : List ContextNode)

/-- Every node of the payload enters the scope; `added` are the new ones. -/
def traversed (now : SessionScope) (nodeId : String) (depth : ℕ) (payload : List ContextNode) :
    List Effect :=
  let added := (payload.map ContextNode.id).filter fun id => !now.has id
  payload.map (Effect.add ·.id) ++
    if added = [] then []
    else [.record ⟨added, "traversal from " ++ nodeId ++ " depth " ++ toString depth, none⟩]

def getContext (nodeId : String) (depth : ℕ) (outcome : ElicitOutcome) : Result ContextAnswer :=
  let guard := guardNodeRead casing g identity s nodeId outcome
  match guard.answer, g.node? nodeId with
  | .notFound, _ => { answer := .notFound nodeId }
  | .elicit error, _ => { answer := .elicit error }
  | .refused error, _ => { answer := .refused error }
  | .allow, none => { answer := .notFound nodeId }
  | .allow, some root =>
    if depth ≥ 2 then
      { answer := .tooDeep { nodeId := nodeId, hint := depthHint nodeId depth }
        effects := guard.effects
        events := guard.events }
    else
      let payload := buildContextPayload casing g identity root depth
      { answer := .payload payload
        effects := guard.effects ++ .await :: traversed (s.run guard.effects) nodeId depth payload
        events := guard.events }

structure CreateArgs where
  node : Node
  organization : Option (String × String) := none

def createNodeInternal (args : CreateArgs) : Graph :=
  { g with
    nodes := g.nodes ++ [{ args.node with createdBy := identity.userId }]
    edges := g.edges ++ args.organization.toList.map fun o =>
      ⟨o.1, args.node.id, o.2, "belongs_to"⟩ }

inductive CreateAnswer where
  | notFound
  | created (nodeId : String)

def createNode (args : CreateArgs) : Result CreateAnswer :=
  if args.organization.all fun o => g.nodeVisibleTo casing identity.view o.2 then
    { answer := .created args.node.id
      effects := [.addWritable args.node.id,
        .record ⟨[args.node.id], "node created by this session", some .created⟩]
      events := [.created args.node.id] }
  else { answer := .notFound }

end Portuni.McpScope
