import Portuni.RestGate.Steps
import Portuni.Sessions.Transitions

/-!
The write gate in front of the REST mutations. A request carries an identity and two headers; its
write context comes from the session that the spawn id names, or from the exemptions.
-/

namespace Portuni.RestGate

open McpScope

structure Headers where
  spawnId : List String := []
  webviewProxy : List String := []

def spawnSessionIdFromRequest (req : Headers) : Option String :=
  (req.spawnId.head?.map Sessions.trim).filter (· ≠ "")

def webviewProxySecretFromRequest (req : Headers) : String :=
  (req.webviewProxy.head?.map Sessions.trim).getD ""

def configuredWebviewProxySecret (secret : Option String) : String :=
  Sessions.trim (secret.getD "")

def webviewProxyProven (req : Headers) (configured : String) : Bool :=
  webviewProxySecretFromRequest req = configured

section

variable (secret : Option String) (w : World) (req : Headers) (identity : RequestIdentity)

/-- The session that an id resolves to: a running one of the same user. -/
def resolvedSession (id : String) : Option SessionRow :=
  (w.getSession id).filter fun session =>
    session.userId = identity.userId && session.state = .running

def sessionWriteContext (session : SessionRow) : WriteContext where
  sessionType := .interactiveTask
  homeNodeId := session.nodeId
  writableNodes := ((w.getSessionScope session.id).filter (·.writable)).map (·.nodeId)

def sessionlessWriteContext : WriteContext :=
  match identity.via with
  | .sessionJwt => ⟨.env, none, []⟩
  | .env =>
    if configuredWebviewProxySecret secret = "" ∨
        webviewProxyProven req (configuredWebviewProxySecret secret) then ⟨.env, none, []⟩
    else ⟨.headless, none, []⟩
  | _ => if identity.headless then ⟨.headless, none, []⟩ else ⟨.interactiveTask, none, []⟩

def resolveRestWriteContext : WriteContext :=
  if identity.via = .oauthGrant then ⟨.interactiveChat, none, []⟩
  else
    match spawnSessionIdFromRequest req with
    | none => sessionlessWriteContext secret req identity
    | some id =>
      match resolvedSession w identity id with
      | some session => sessionWriteContext w session
      | none =>
        -- a spawn id that does not resolve fails closed once a secret is set
        if identity.via = .env ∧ configuredWebviewProxySecret secret ≠ "" then
          ⟨.headless, none, []⟩
        else sessionlessWriteContext secret req identity

end

section

structure ApiError where
  status : ℕ := 403
  code : String
  error : String
  nodeId : String
  hint : String
  elicitationUnsupported : Bool
  dialogTimedOut : Bool
deriving DecidableEq

def respondWriteGuardError (payload : WriteGuardErrorPayload) : ApiError where
  code := if payload.error = "write_refused" then "WRITE_REFUSED" else "WRITE_EXPANSION_REQUIRED"
  error := payload.error
  nodeId := payload.nodeId
  hint := payload.hint
  elicitationUnsupported := payload.elicitationUnsupported
  dialogTimedOut := payload.dialogTimedOut

variable (secret : Option String) (w : World) (req : Headers) (identity : RequestIdentity)

def guardRestNodeWrite (nodeId : String) : Except ApiError Unit :=
  match guardWrite (resolveRestWriteContext secret w req identity) nodeId with
  | .allow => .ok ()
  | .elicit hint => .error (respondWriteGuardError (writeGuardError nodeId false hint none false))
  | .refused hint => .error (respondWriteGuardError (writeGuardError nodeId true hint none false))

def guardFileWrite (nodeId : String) : Except ApiError Unit :=
  if identity.via = .deviceToken ∧ identity.headless = false ∧
      spawnSessionIdFromRequest req = none then .ok ()
  else guardRestNodeWrite secret w req identity nodeId

def filterRestWritableNodeIds (nodeIds : List String) : List String :=
  nodeIds.filter fun id => guardWrite (resolveRestWriteContext secret w req identity) id = .allow

/-- The ways in which a request meets the gate; `batch` asks about several nodes at once. -/
inductive Gate where
  | node
  | file
  | batch (nodeIds : List String)

def Gate.Asks (n : String) : Gate → Prop
  | .batch nodeIds => n ∈ nodeIds
  | _ => True

/-- The gate lets a write to `n` through. -/
def Gate.Passes (n : String) : Gate → Prop
  | .node => guardRestNodeWrite secret w req identity n = .ok ()
  | .file => guardFileWrite secret w req identity n = .ok ()
  | .batch nodeIds => n ∈ filterRestWritableNodeIds secret w req identity nodeIds

end

variable {secret : Option String} {w : World} {req : Headers} {identity : RequestIdentity}
  {gate : Gate} {n : String} {session : SessionRow}

/-- The request names a running session of its user, and is no connector's. -/
def Names (w : World) (req : Headers) (identity : RequestIdentity) (session : SessionRow) : Prop :=
  identity.via ≠ .oauthGrant ∧
    ∃ id, spawnSessionIdFromRequest req = some id ∧ resolvedSession w identity id = some session

def Exempt (secret : Option String) (req : Headers) (identity : RequestIdentity) (gate : Gate) :
    Prop :=
  identity.via = .sessionJwt ∨
    (identity.via = .env ∧ (configuredWebviewProxySecret secret = "" ∨
      webviewProxyProven req (configuredWebviewProxySecret secret) = true)) ∨
    (gate = .file ∧ identity.via = .deviceToken ∧ identity.headless = false ∧
      spawnSessionIdFromRequest req = none)

/-- `n` is the home of the session, or one of its rows says that it is writable. -/
def Holds (w : World) (session : SessionRow) (n : String) : Prop :=
  session.nodeId = some n ∨
    ∃ r ∈ w.rows, r.sessionId = session.id ∧ r.nodeId = n ∧ r.writable = true

theorem resolvedSession_eq_some {id : String} (h : resolvedSession w identity id = some session) :
    session ∈ w.sessions ∧ session.id = id ∧ session.userId = identity.userId ∧
      session.state = .running := by
  obtain ⟨hget, hcond⟩ := Option.filter_eq_some_iff.mp h
  simp only [Bool.and_eq_true, decide_eq_true_eq] at hcond
  have hmem := List.mem_of_find?_eq_some hget
  have hid : session.id = id := by simpa using List.find?_some hget
  exact ⟨hmem, hid, hcond⟩

theorem sessionWriteContext_allows_iff :
    guardWrite (sessionWriteContext w session) n = .allow ↔ Holds w session n := by
  rw [guardWrite_eq_allow_iff]
  simp only [sessionWriteContext, World.getSessionScope, Holds, List.mem_map, List.mem_filter,
    decide_eq_true_eq]
  constructor
  · rintro (h | h | ⟨r, ⟨⟨hr, hid⟩, hw⟩, hn⟩)
    · nomatch h
    · exact .inl h
    · exact .inr ⟨r, hr, hid, hn, hw⟩
  · rintro (h | ⟨r, hr, hid, hn, hw⟩)
    · exact .inr (.inl h)
    · exact .inr (.inr ⟨r, ⟨⟨hr, hid⟩, hw⟩, hn⟩)

theorem sessionlessWriteContext_allows
    (h : guardWrite (sessionlessWriteContext secret req identity) n = .allow) :
    Exempt secret req identity gate := by
  rw [guardWrite_eq_allow_iff] at h
  unfold sessionlessWriteContext at h
  unfold Exempt
  split at h
  next hvia => exact .inl hvia
  next hvia =>
    split at h
    next hproof => exact .inr (.inl ⟨hvia, hproof⟩)
    next => simp at h
  next => split at h <;> simp at h

theorem guardRestNodeWrite_ok_iff :
    guardRestNodeWrite secret w req identity n = .ok () ↔
      guardWrite (resolveRestWriteContext secret w req identity) n = .allow := by
  unfold guardRestNodeWrite
  split
  next h => simp [h]
  next h => simp [h]
  next h => simp [h]

theorem resolveRestWriteContext_of_names (h : Names w req identity session) :
    resolveRestWriteContext secret w req identity = sessionWriteContext w session := by
  obtain ⟨hvia, id, hid, hsession⟩ := h
  simp only [resolveRestWriteContext, if_neg hvia, hid, hsession]

theorem passes_iff_of_names (h : Names w req identity session) :
    gate.Passes secret w req identity n ↔ gate.Asks n ∧ Holds w session n := by
  have hctx : resolveRestWriteContext secret w req identity = sessionWriteContext w session :=
    resolveRestWriteContext_of_names h
  have hnode : guardRestNodeWrite secret w req identity n = .ok () ↔ Holds w session n := by
    rw [guardRestNodeWrite_ok_iff, hctx, sessionWriteContext_allows_iff]
  cases gate with
  | node => simpa [Gate.Passes, Gate.Asks] using hnode
  | file =>
    obtain ⟨-, id, hid, -⟩ := h
    simpa [Gate.Passes, Gate.Asks, guardFileWrite, hid] using hnode
  | batch nodeIds =>
    simp [Gate.Passes, Gate.Asks, filterRestWritableNodeIds, hctx, sessionWriteContext_allows_iff]

theorem exempt_of_passes (unnamed : ∀ session, ¬ Names w req identity session)
    (h : gate.Passes secret w req identity n) : Exempt secret req identity gate := by
  have hctx : guardWrite (resolveRestWriteContext secret w req identity) n = .allow →
      Exempt secret req identity gate := by
    intro hallow
    unfold resolveRestWriteContext at hallow
    split at hallow
    next => simp [guardWrite_eq_allow_iff] at hallow
    next hvia =>
      split at hallow
      next => exact sessionlessWriteContext_allows hallow
      next id hid =>
        split at hallow
        next session hsession => exact absurd ⟨hvia, id, hid, hsession⟩ (unnamed session)
        next =>
          split at hallow
          next => simp [guardWrite_eq_allow_iff] at hallow
          next => exact sessionlessWriteContext_allows hallow
  cases gate with
  | node => exact hctx (guardRestNodeWrite_ok_iff.mp h)
  | file =>
    simp only [Gate.Passes, guardFileWrite] at h
    split at h
    next hbare => exact .inr (.inr ⟨rfl, hbare⟩)
    next => exact hctx (guardRestNodeWrite_ok_iff.mp h)
  | batch nodeIds => exact hctx (by simpa using (List.mem_filter.mp h).2)

open World Library.Runs

section

variable {casing : Casing} {g : Graph} {w w' : World} {a : Action} {acts : List Action}

theorem has_graphAfter {c : Connection} {call : Call} {g : Graph} {n : String}
    (hg : w.graphAfter casing c call = some g) (h : w.graph.has n = true) : g.has n = true := by
  unfold graphAfter at hg
  split at hg
  next args =>
    split at hg
    next => exact Option.some.inj hg ▸ h
    next =>
      split at hg
      next => nomatch hg
      next =>
        cases hg
        obtain ⟨node, hnode, hid⟩ := Graph.has_iff.mp h
        exact Graph.has_iff.mpr ⟨node, List.mem_append_left _ hnode, hid⟩
  next => exact Option.some.inj hg ▸ h

theorem rows_have_nodes_step (h : ∀ r ∈ w.rows, w.graph.has r.nodeId = true)
    (hstep : step casing w a = some w') : ∀ r ∈ w'.rows, w'.graph.has r.nodeId = true := by
  intro r hr
  cases step_cases hstep with
  | openConnection | insertSession | bindSession | lose | startSession | setState =>
    exact h r hr
  | call i c call g hc hg => exact has_graphAfter hg (h r hr)
  | deliver i j c st rest hc hj =>
    rcases row_of_write hr with ⟨r₀, hr₀, -, hn, -⟩ | ⟨-, addedVia, reason, rfl⟩
    · exact hn ▸ h r₀ hr₀
    · by_contra hnot
      have hnone : w.write (.upsertRead r.sessionId r.nodeId addedVia reason) = none := by
        have hhas : ¬ w.graph.has r.nodeId = true := hnot
        simp [write, hhas]
      rw [hnone] at hr
      exact hnot (h r hr)
  | changeGraph g keep _ =>
    obtain ⟨node, hnode, hid⟩ := Graph.has_iff.mp (h r hr)
    exact hid ▸ keep node hnode
  | purge nodeId =>
    obtain ⟨hr, hne⟩ := List.mem_filter.mp hr
    obtain ⟨node, hnode, hid⟩ := Graph.has_iff.mp (h r hr)
    refine Graph.has_iff.mpr ⟨node, List.mem_filter.mpr ⟨hnode, ?_⟩, hid⟩
    rwa [hid]

theorem rows_have_nodes (run : Run (step casing) (Steady casing) (start g) acts w) :
    ∀ r ∈ w.rows, w.graph.has r.nodeId = true :=
  run.inv (fun w => ∀ r ∈ w.rows, w.graph.has r.nodeId = true) (by simp [start])
    fun _ _ _ h _ => rows_have_nodes_step h

end

section

variable {casing : Casing} {g : Graph} {w : World} {acts : List Action} {i : ℕ} {c : Connection}
  {identity : RequestIdentity} {session : SessionRow} {req : Headers} {secret : Option String}
  {n : String}

theorem holds_iff (sound : ScopeSound w) (mirrored : Mirrored w)
    (hc : w.connections[i]? = some c) (hbound : c.binding = .bound)
    (hlatest : Latest w.connections i c) (settled : c.scope.writes = [])
    (hsession : session ∈ w.sessions) (hid : session.id = c.session) (hn : w.graph.has n = true) :
    Holds w session n ↔ c.scope.homeNodeId = some n ∨ n ∈ c.scope.writeSet := by
  have h := mirrored i c hc
  have hfresh : c.binding ≠ .fresh := by
    rw [hbound]
    exact fun h => nomatch h
  have alive : n ∉ w.purged := by
    obtain ⟨node, hnode, rfl⟩ := Graph.has_iff.mp hn
    exact sound.consistent.alive node hnode
  have hat : w.SessionAt c.session n ↔ session.nodeId = some n := by
    constructor
    · rintro ⟨k, hk, hkid, hkn⟩
      exact sound.consistent.eq_of_id hk hsession (hkid.trans hid.symm) ▸ hkn
    · exact fun hn => ⟨session, hsession, hid, hn⟩
  have anchored : c.scope.homeNodeId = some n ↔ session.nodeId = some n := by
    rw [(sound.connections c (List.mem_of_getElem? hc)).anchored, ← hat]
    refine ⟨fun hhome => ?_, (h.anchored hfresh n).2⟩
    exact ((h.anchored hfresh n).1 hhome).resolve_left alive
  constructor
  · rintro (hhome | ⟨r, hr, hrid, rfl, hw⟩)
    · exact .inl (anchored.mpr hhome)
    · rcases h.backed hbound hlatest _ ⟨r, hr, hrid.trans hid, rfl, hw⟩ with hb | hb | hb
      · exact .inr hb
      · exact absurd hb alive
      · exact .inl (anchored.mpr (hat.mp hb))
  · rintro (hhome | hmem)
    · exact .inl (anchored.mp hhome)
    · rcases h.reached hbound n hmem hn with hr | ⟨addedVia, reason, hr⟩ | ⟨-, hr⟩
      · obtain ⟨r, hr, hrid, hrn, hw⟩ := hr
        exact .inr ⟨r, hr, hrid.trans hid.symm, hrn, hw⟩
      · rw [settled] at hr
        nomatch hr
      · rw [settled] at hr
        nomatch hr

theorem guardNodeWrite_declined_iff : (guardNodeWrite c.scope n .decline).answer = .ok ↔
      c.scope.sessionType = .env ∨ c.scope.homeNodeId = some n ∨ n ∈ c.scope.writeSet := by
  rw [guardNodeWrite_ok_iff]
  simp

theorem guardWrite_congr {ctx ctx' : WriteContext} (hty : ctx.sessionType ≠ .headless)
    (hty' : ctx'.sessionType ≠ .headless)
    (allow : guardWrite ctx n = .allow ↔ guardWrite ctx' n = .allow) :
    guardWrite ctx n = guardWrite ctx' n := by
  have elicits : ∀ {ctx : WriteContext}, ctx.sessionType ≠ .headless →
      guardWrite ctx n ≠ .allow → guardWrite ctx n = .elicit ("Node " ++ n ++
        " is outside this session's write scope. Ask the user to " ++
        "confirm this write, then call portuni_expand_scope with node_ids: [\"" ++ n ++
        "\"], writable: true, reason 'user-confirmed-in-chat'.") := by
    intro ctx hty hallow
    unfold guardWrite at hallow ⊢
    split at hallow
    next => exact absurd rfl hallow
    next henv =>
      split at hallow
      next => exact absurd rfl hallow
      next hout => rw [if_neg henv, if_neg hout, if_neg hty]
  by_cases h : guardWrite ctx n = .allow
  · rw [h, allow.mp h]
  · rw [elicits hty h, elicits hty' fun h' => h (allow.mpr h')]

end

variable {casing : Casing} {g : Graph} {w : World} {acts : List Action}

def HeadlessCredential (identity : RequestIdentity) : Prop :=
  identity.via = .deviceToken ∧ identity.headless = true

/-- What passes is exempt, and names no session, or belongs to the session that it names. -/
def GrantsNoMore (w : World) : Prop :=
  ∀ secret req identity gate n, Gate.Passes secret w req identity n gate →
    ((∀ session, ¬ Names w req identity session) ∧ Exempt secret req identity gate) ∨
      ∃ session, Names w req identity session ∧ Holds w session n

/-- A headless credential passes for the home and the creations of a headless session of its
own. -/
def Confined (w : World) (secret : Option String) (req : Headers) (identity : RequestIdentity)
    (gate : Gate) (n : String) : Prop :=
  HeadlessCredential identity → gate.Passes secret w req identity n →
    ∃ session, Names w req identity session ∧ session.sessionType = .headless ∧
      (session.nodeId = some n ∨ (session.id, .created n) ∈ w.log)

/-- The REST gate and the gate of the tools answer alike for the session of the connection. -/
def Agrees (w : World) (secret : Option String) (req : Headers) (identity : RequestIdentity)
    (gate : Gate) (c : Connection) (n : String) : Prop :=
  (gate.Asks n → (gate.Passes secret w req identity n ↔
    (guardNodeWrite c.scope n .decline).answer = .ok)) ∧
  (c.scope.sessionType ≠ .headless → guardWrite (resolveRestWriteContext secret w req identity) n =
    guardWrite (writeContextFromScope c.scope) n)

theorem grantsNoMore (w : World) : GrantsNoMore w := by
  intro secret req identity gate n h
  by_cases named : ∃ session, Names w req identity session
  · obtain ⟨session, hnames⟩ := named
    exact .inr ⟨session, hnames, ((passes_iff_of_names hnames).mp h).2⟩
  · have unnamed := not_exists.mp named
    exact .inl ⟨unnamed, exempt_of_passes unnamed h⟩

variable {secret : Option String} {identity : RequestIdentity}

theorem confined (run : Run (step casing) (Steady casing) (start g) acts w) {req : Headers}
    {gate : Gate} {n : String}
    (own : ∀ session, Names w req identity session → session.sessionType = .headless) :
    Confined w secret req identity gate n := by
  rintro ⟨hvia, hheadless⟩ h
  have sound := scopeSound_run (run.mono fun _ _ h => h.1)
  rcases grantsNoMore w secret req identity gate n h with ⟨-, hexempt⟩ | ⟨session, hnames, hholds⟩
  · simp [Exempt, hvia, hheadless] at hexempt
  · have hty := own session hnames
    refine ⟨session, hnames, hty, ?_⟩
    obtain ⟨-, id, -, hresolved⟩ := hnames
    have hmem := (resolvedSession_eq_some hresolved).1
    rcases hholds with hhome | ⟨r, hr, hid, rfl, hw⟩
    · exact .inl hhome
    · have hrow := rows_of_session sound hmem (List.mem_filter.mpr ⟨hr, by simpa using hid⟩)
      obtain ⟨node, hnode, hnid⟩ := Graph.has_iff.mp (rows_have_nodes run r hr)
      rcases hrow.writable hw with hp | hhome | (hlog | ⟨hchat, -⟩) | ⟨hty', -⟩
      · exact absurd (hnid ▸ hp) (sound.consistent.alive node hnode)
      · exact .inl hhome
      · exact .inr hlog
      · exact absurd (hty.symm.trans hchat) (by decide)
      · exact absurd hty hty'

theorem agrees (run : Run (step casing) (Steady casing) (start g) acts w) {i : ℕ} {c : Connection}
    {req : Headers} {session : SessionRow} {gate : Gate} {n : String}
    (hc : w.connections[i]? = some c) (hbound : c.binding = .bound)
    (hlatest : Latest w.connections i c) (settled : c.scope.writes = [])
    (hty : c.scope.sessionType ≠ .env) (hn : w.graph.has n = true)
    (hnames : Names w req identity session) (hid : session.id = c.session) :
    Agrees w secret req identity gate c n := by
  have sound := scopeSound_run (run.mono fun _ _ h => h.1)
  have hmem : session ∈ w.sessions := by
    obtain ⟨-, id, -, hresolved⟩ := hnames
    exact (resolvedSession_eq_some hresolved).1
  have holds := holds_iff sound (mirrored_run run) hc hbound hlatest settled hmem hid hn
  have hok : (guardNodeWrite c.scope n .decline).answer = .ok ↔ Holds w session n := by
    rw [guardNodeWrite_declined_iff, holds]
    simp [hty]
  refine ⟨fun hasks => ?_, fun hheadless => ?_⟩
  · rw [passes_iff_of_names hnames, hok]
    simp [hasks]
  · rw [resolveRestWriteContext_of_names hnames]
    refine guardWrite_congr (fun h => (nomatch h)) hheadless ?_
    rw [sessionWriteContext_allows_iff, holds, guardWrite_eq_allow_iff]
    simp [writeContextFromScope, hty]

/-- Over all tables, what passes the REST gate is exempt or belongs to the session that the
request names; over runs whose steps keep the rows in line, a headless credential that names
headless sessions only is confined to them, and the gate answers for a session as the gate of the
tools does on the connection that was bound to it last, once its statements are delivered. -/
theorem rest_gate_grants_no_more (run : Run (step casing) (Steady casing) (start g) acts w) :
    (∀ w, GrantsNoMore w) ∧ (∀ secret req identity gate n,
      (HeadlessCredential identity → ∀ session, Names w req identity session →
        session.sessionType = .headless) → Confined w secret req identity gate n) ∧
    ∀ i c secret req identity session gate n, w.connections[i]? = some c → c.binding = .bound →
      Latest w.connections i c → c.scope.writes = [] → c.scope.sessionType ≠ .env →
        w.graph.has n = true → Names w req identity session → session.id = c.session →
          Agrees w secret req identity gate c n := by
  refine ⟨grantsNoMore, fun secret req identity gate n own hheadless => ?_, ?_⟩
  · exact confined run (own hheadless) hheadless
  · intro i c secret req identity session gate n hc hbound hlatest settled hty hn hnames hid
    exact agrees run hc hbound hlatest settled hty hn hnames hid

/-- A headless session creates a node, and its statements are delivered. -/
def settledCreation : List Action :=
  [.openConnection { identity := headlessToken, homeNodeId := some "A", ulid := "S" },
    .insertSession 0, .bindSession 0,
    .call 0 (.createNode ⟨⟨"N", "New", "project", .team, .private_, "u", false⟩, none⟩),
    .deliver 0 0, .deliver 0 0, .deliver 0 0, .deliver 0 0, .deliver 0 0, .deliver 0 0]

def spawnedBy (session : String) : Headers := { spawnId := [session] }

theorem rest_gate_grants_no_more_ownCreation :
    ∃ w c, Run (step asciiCasing) (Steady asciiCasing) (start twoNodes) settledCreation w ∧
      w.connections[0]? = some c ∧ GrantsNoMore w ∧
      Confined w none (spawnedBy "S") headlessToken .node "N" ∧
      Agrees w none (spawnedBy "S") headlessToken .node c "N" ∧
      Gate.node.Passes none w (spawnedBy "S") headlessToken "N" := by
  have hfinal : ((exec (step asciiCasing) (start twoNodes) settledCreation).bind fun w =>
      w.connections[0]?.bind fun c => (resolvedSession w headlessToken "S").map fun session =>
        (w, c, session)).any (fun p =>
          decide (p.2.1.binding = .bound ∧ Latest p.1.connections 0 p.2.1 ∧
            p.2.1.scope.writes = [] ∧ p.2.1.scope.sessionType ≠ .env ∧ p.1.graph.has "N" = true ∧
            p.2.2.id = p.2.1.session ∧ p.2.2.sessionType = .headless ∧
            (guardNodeWrite p.2.1.scope "N" .decline).answer = .ok)) = true := by
    decide +kernel
  obtain ⟨⟨w, c, session⟩, hmem, hfacts⟩ := (Option.any_eq_true _ _).mp hfinal
  obtain ⟨w', hw, hc⟩ := Option.bind_eq_some_iff.mp hmem
  obtain ⟨c', hc', hs⟩ := Option.bind_eq_some_iff.mp hc
  obtain ⟨session', hsession, heq⟩ := Option.map_eq_some_iff.mp hs
  obtain ⟨rfl, rfl, rfl⟩ : w' = w ∧ c' = c ∧ session' = session := by simpa using heq
  obtain ⟨hbound, hlatest, settled, hty, hn, hid, hheadless, hok⟩ := of_decide_eq_true hfacts
  have hspawn : spawnSessionIdFromRequest (spawnedBy "S") = some "S" := by decide +kernel
  have hnames : Names w' (spawnedBy "S") headlessToken session' :=
    ⟨by decide, "S", hspawn, hsession⟩
  have run := Run.of_exec hw (by decide +kernel : allowedAlong (step asciiCasing)
    (Steady asciiCasing) (start twoNodes) settledCreation = true)
  obtain ⟨more, confined, agree⟩ := rest_gate_grants_no_more run
  have agreed := agree 0 c' none (spawnedBy "S") headlessToken session' .node "N" hc' hbound
    hlatest settled hty hn hnames hid
  refine ⟨w', c', run, hc', more w', confined _ _ _ _ _ fun _ k hk => ?_, agreed,
    (agreed.1 trivial).mpr hok⟩
  obtain ⟨-, id, hspawn', hk⟩ := hk
  obtain rfl := Option.some.inj (hspawn.symm.trans hspawn')
  exact Option.some.inj (hsession.symm.trans hk) ▸ hheadless

def taskToken : RequestIdentity := ⟨.deviceToken, false, ⟨false, [], [], "u"⟩⟩

def taskSession : List Action :=
  [.openConnection { identity := taskToken, homeNodeId := some "A", ulid := "S" },
    .insertSession 0, .bindSession 0]

/-- A headless credential that names it writes to its home, although there is no headless
session. -/
theorem headless_names_task_session :
    ∃ w, Run (step asciiCasing) (Steady asciiCasing) (start twoNodes) taskSession w ∧
      HeadlessCredential headlessToken ∧ (∀ k ∈ w.sessions, k.sessionType ≠ .headless) ∧
      Gate.node.Passes none w (spawnedBy "S") headlessToken "A" ∧
      ¬ Confined w none (spawnedBy "S") headlessToken .node "A" := by
  obtain ⟨w, hw⟩ : ∃ w, exec (step asciiCasing) (start twoNodes) taskSession = some w := ⟨_, rfl⟩
  have hfinal : (exec (step asciiCasing) (start twoNodes) taskSession).any (fun w =>
      decide ((∀ k ∈ w.sessions, k.sessionType ≠ .headless) ∧
        guardRestNodeWrite none w (spawnedBy "S") headlessToken "A" = .ok ())) = true := by
    decide +kernel
  rw [hw] at hfinal
  obtain ⟨hnone, hpass⟩ := of_decide_eq_true hfinal
  refine ⟨w, Run.of_exec hw (by decide +kernel), ⟨rfl, rfl⟩, hnone, hpass, fun h => ?_⟩
  obtain ⟨session, ⟨-, id, -, hresolved⟩, hheadless, -⟩ := h ⟨rfl, rfl⟩ hpass
  exact hnone session (resolvedSession_eq_some hresolved).1 hheadless

end Portuni.RestGate
