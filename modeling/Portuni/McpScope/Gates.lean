import Portuni.McpScope.Scope

/-!
The two gates of a session: `decideRead` with `guardNodeRead` around it, and `guardWrite` with
`guardNodeWrite` around it. A gate returns its answer and what it does to the scope.
-/

namespace Portuni.McpScope

inductive ElicitOutcome where
  | accept
  | decline
  | unsupported
  | timeout
deriving DecidableEq

inductive Purpose where
  | read
  | write

/-- What the user and the agent say in a session: an accepted dialog, the flag of an
`expand_scope` call for the nodes that it names, and the creation of a node. -/
inductive Event where
  | accepted (purpose : Purpose) (nodeId : String)
  | confirmedHardFloor (nodeId : String)
  | created (nodeId : String)

structure Result (α : Type) where
  answer : α
  effects : List Effect := []
  events : List Event := []

def nodeConsentPrompt (action nodeId : String) (name type : Option String) (why : String) :
    String :=
  match name with
  | none => "Allow this session to " ++ action ++ " node " ++ nodeId ++ "? " ++ why
  | some name =>
    "Allow this session to " ++ action ++ " \"" ++ name ++ "\"" ++
      (match type with | some t => " (" ++ t ++ ")" | none => "") ++
      "? " ++ why ++ "\n" ++ nodeId

def userPromptFor (nodeId : String) (row : NodeScopeRow) (why : String) : String :=
  nodeConsentPrompt "read" nodeId row.name row.type why

inductive ScopeRequestDecision where
  | allow (addedViaEdge : Bool)
  | elicit (agentHint : String) (userPrompt : Option String)
  | refused (agentHint : String)

def decideRead (s : SessionScope) (nodeId : String) (row : NodeScopeRow) (sessionUserId : String)
    (reachable : Bool) : ScopeRequestDecision :=
  if s.has nodeId then .allow false
  else if violatesHardFloor row sessionUserId then
    if s.sessionType = .headless then
      .refused ("Node " ++ nodeId ++
        " is scope-sensitive and cannot be reached by a headless session.")
    else
      .elicit
        ("Target node " ++ nodeId ++ " is scope-sensitive. Ask the user to confirm, " ++
          "then call portuni_expand_scope with reason 'user-confirmed-in-chat'.")
        (some (userPromptFor nodeId row
          "It is marked scope-sensitive, so it stays out of reach unless you confirm."))
  else if s.sessionType = .interactiveChat then .allow false
  else if reachable then .allow true
  else if s.sessionType = .headless then
    .elicit
      ("Node " ++ nodeId ++ " is outside the session scope and not reachable via a graph edge " ++
        "from anything already in scope (a disconnected jump). Headless sessions have no " ++
        "user to ask -- call portuni_expand_scope with a reason describing why this node " ++
        "is needed; the jump is recorded and surfaced in review.")
      none
  else
    .elicit
      ("Node " ++ nodeId ++ " is outside the session scope and not reachable via a graph edge " ++
        "from anything already in scope (a disconnected jump). Ask the user to confirm, " ++
        "then call portuni_expand_scope with reason 'user-confirmed-in-chat'.")
      (some (userPromptFor nodeId row
        "It is outside this session's scope and nothing already in scope links to it."))

def timedOutReadHint (nodeId : String) : String :=
  "The confirmation dialog for reading node " ++ nodeId ++
    " was not answered in time, so nothing was read. Ask the user in chat, then either retry " ++
    "the tool (a new dialog is shown) or call portuni_expand_scope with node_ids: [\"" ++ nodeId ++
    "\"], reason 'user-confirmed-in-chat'."

structure ScopeExpansionError where
  error : String := "scope_expansion_required"
  nodeId : String
  hint : String
  dialogTimedOut : Bool := false

def scopeExpansionError (nodeId hint : String) (dialogTimedOut : Bool) : ScopeExpansionError :=
  if dialogTimedOut then
    { nodeId := nodeId, hint := timedOutReadHint nodeId, dialogTimedOut := true }
  else { nodeId := nodeId, hint := hint }

structure ScopeRefusedError where
  error : String := "scope_refused"
  nodeId : String
  hint : String

inductive ReadGuardOutcome where
  | allow
  | elicit (error : ScopeExpansionError)
  | refused (error : ScopeRefusedError)
  | notFound

def isEdgeReachable (g : Graph) (s : SessionScope) (nodeId : String) : Bool :=
  !s.nodes.isEmpty && (g.nodeNeighbourIds nodeId).any s.has

/-- `outcome` is how the dialog ends, if one is shown. -/
def guardNodeRead (casing : Casing) (g : Graph) (identity : RequestIdentity) (s : SessionScope)
    (nodeId : String) (outcome : ElicitOutcome) : Result ReadGuardOutcome :=
  if !(g.loadNodeScopeMeta nodeId).found then { answer := .notFound }
  else if !g.nodeVisibleTo casing identity.view nodeId then { answer := .notFound }
  else
    match decideRead s nodeId (g.loadNodeScopeMeta nodeId) identity.userId
        (s.sessionType ≠ .interactiveChat && (s.has nodeId || isEdgeReachable g s nodeId)) with
    | .refused hint => { answer := .refused { nodeId := nodeId, hint := hint } }
    | .elicit hint _ =>
      if s.sessionType ≠ .headless ∧ outcome = .accept then
        { answer := .allow
          effects := [.add nodeId,
            .record ⟨[nodeId], "elicited (protocol dialog confirmed by user)", some .elicited⟩]
          events := [.accepted .read nodeId] }
      else
        { answer := .elicit (scopeExpansionError nodeId hint
            (s.sessionType ≠ .headless && outcome = .timeout)) }
    | .allow addedViaEdge =>
      if addedViaEdge ∧ ¬ s.has nodeId then
        { answer := .allow
          effects := [.add nodeId,
            .record ⟨[nodeId], "edge-reachable from the current scope set", some .edge⟩] }
      else { answer := .allow }

structure WriteContext where
  sessionType : SessionType
  homeNodeId : Option String
  writableNodes : List String

inductive WriteGuardOutcome where
  | allow
  | elicit (agentHint : String)
  | refused (agentHint : String)
deriving DecidableEq

def guardWrite (ctx : WriteContext) (nodeId : String) : WriteGuardOutcome :=
  if ctx.sessionType = .env then .allow
  else if ctx.homeNodeId = some nodeId ∨ nodeId ∈ ctx.writableNodes then .allow
  else if ctx.sessionType = .headless then
    .refused ("Node " ++ nodeId ++
      " is outside this headless session's write scope (home node only). " ++
      "Headless sessions cannot expand their write set mid-run -- this write cannot proceed.")
  else
    .elicit ("Node " ++ nodeId ++ " is outside this session's write scope. Ask the user to " ++
      "confirm this write, then call portuni_expand_scope with node_ids: [\"" ++ nodeId ++
      "\"], writable: true, reason 'user-confirmed-in-chat'.")

def noElicitationWriteHint (nodeId : String) : String :=
  "Node " ++ nodeId ++ " is outside this session's write scope, and this client does not " ++
    "support MCP elicitation dialogs, so write access cannot be granted from this session -- do " ++
    "NOT call portuni_expand_scope with writable: true, it will be refused for the same reason. " ++
    "Either continue from a client with confirmation dialogs (Claude Code, the Portuni desktop " ++
    "app) or, for new work, create the node from this chat: nodes created by a connector session " ++
    "stay writable in this user's later connector sessions."

def timedOutWriteHint (nodeId : String) : String :=
  "The confirmation dialog for write access to node " ++ nodeId ++ " was not answered in time, " ++
    "so the write did not happen. Nothing was changed. Ask the user in chat, then either retry " ++
    "the tool (a new dialog is shown) or call portuni_expand_scope with node_ids: [\"" ++ nodeId ++
    "\"], writable: true, reason 'user-confirmed-in-chat'."

structure WriteGuardErrorPayload where
  error : String
  nodeId : String
  hint : String
  /-- `elicitation_supported: false` is there. -/
  elicitationUnsupported : Bool := false
  dialogTimedOut : Bool := false
deriving DecidableEq

def writeGuardError (nodeId : String) (refused : Bool) (hint : String)
    (elicitationSupported : Option Bool) (dialogTimedOut : Bool) : WriteGuardErrorPayload where
  error := if refused then "write_refused" else "write_expansion_required"
  nodeId := nodeId
  hint :=
    if elicitationSupported = some false then noElicitationWriteHint nodeId
    else if dialogTimedOut then timedOutWriteHint nodeId
    else hint
  elicitationUnsupported := elicitationSupported = some false
  dialogTimedOut := dialogTimedOut

inductive WriteGateResult where
  | ok
  | error (payload : WriteGuardErrorPayload)
deriving DecidableEq

def writeContextFromScope (s : SessionScope) : WriteContext :=
  ⟨s.sessionType, s.homeNodeId, s.writeSet⟩

/-- `outcome` is how the dialog ends, if one is shown. -/
def guardNodeWrite (s : SessionScope) (nodeId : String) (outcome : ElicitOutcome) :
    Result WriteGateResult :=
  match guardWrite (writeContextFromScope s) nodeId with
  | .allow => { answer := .ok }
  | .refused hint => { answer := .error (writeGuardError nodeId true hint none false) }
  | .elicit hint =>
    if outcome = .accept then
      { answer := .ok
        effects := [.addWritable nodeId]
        events := [.accepted .write nodeId] }
    else
      { answer := .error (writeGuardError nodeId false hint
          (some (decide (outcome ≠ .unsupported))) (outcome = .timeout)) }

variable {ctx : WriteContext} {s : SessionScope} {nodeId : String} {outcome : ElicitOutcome}

theorem guardWrite_eq_allow_iff :
    guardWrite ctx nodeId = .allow ↔
      ctx.sessionType = .env ∨ ctx.homeNodeId = some nodeId ∨ nodeId ∈ ctx.writableNodes := by
  unfold guardWrite
  grind

theorem guardNodeWrite_ok_iff : (guardNodeWrite s nodeId outcome).answer = .ok ↔
      s.sessionType = .env ∨ s.homeNodeId = some nodeId ∨ nodeId ∈ s.writeSet ∨
        s.sessionType ≠ .headless ∧ outcome = .accept := by
  unfold guardNodeWrite guardWrite writeContextFromScope
  grind

theorem guardNodeWrite_effects {e : Effect} (he : e ∈ (guardNodeWrite s nodeId outcome).effects) :
    e = .addWritable nodeId ∧ s.sessionType ≠ .headless ∧
      .accepted .write nodeId ∈ (guardNodeWrite s nodeId outcome).events := by
  revert he
  unfold guardNodeWrite guardWrite writeContextFromScope
  grind

end Portuni.McpScope
