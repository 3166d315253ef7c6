import Portuni.McpScope.Effects

/-!
What every run keeps of the tables and of the connections: session ids are unique, every row of
`session_scope` has its session, and a connection that has left the fresh state has a session of
its own user.
-/

namespace Portuni.McpScope

open World

namespace World

variable {casing : Casing} {w w' : World} {a : Action} {i : ℕ} {c : Connection}
  {f : Connection → Connection}

theorem mem_modify {l : List Connection} (hc : c ∈ l.modify i f) :
    c ∈ l ∨ ∃ c₀, l[i]? = some c₀ ∧ c = f c₀ := by
  obtain ⟨j, hj⟩ := List.mem_iff_getElem?.mp hc
  simp only [List.getElem?_modify] at hj
  obtain ⟨c₀, hc₀, heq⟩ := Option.map_eq_some_iff.mp hj
  split at heq
  next hij => exact .inr ⟨c₀, hij ▸ hc₀, heq.symm⟩
  next => exact .inl (heq ▸ List.mem_of_getElem? hc₀)

variable {id : String} {k : SessionRow}

theorem getSession_eq_some (h : w.getSession id = some k) : k ∈ w.sessions ∧ k.id = id :=
  ⟨List.mem_of_find?_eq_some h, by simpa using List.find?_some h⟩

theorem getSession_eq_none (h : w.getSession id = none) : ∀ k ∈ w.sessions, k.id ≠ id := by
  simpa [getSession] using h

theorem attachment_eq_some {req : OpenRequest} (h : w.attachment req = some (some k)) :
    k ∈ w.sessions ∧ k.userId = req.identity.userId := by
  unfold attachment at h
  split at h
  next => simp at h
  next =>
    split at h
    next id hid =>
      split at h
      next => simp at h
      next home hhome =>
        obtain ⟨k', hk', heq⟩ := Option.map_eq_some_iff.mp h
        cases heq
        obtain ⟨hget, hcond⟩ := Option.filter_eq_some_iff.mp hk'
        simp only [Bool.and_eq_true, decide_eq_true_eq] at hcond
        exact ⟨(getSession_eq_some hget).1, hcond.1.1⟩
    next =>
      split at h
      next => simp at h
      next id hid =>
        unfold lookupSpawnSessionForBind at h
        split at h
        next => simp at h
        next k' hget =>
          split at h
          next => simp at h
          next hcond =>
            obtain rfl := Option.some.inj (Option.some.inj h)
            exact ⟨(getSession_eq_some hget).1, by grind⟩

inductive StepCase (casing : Casing) (w : World) : Action → World → Prop
  | openConnection (req : OpenRequest) (row : Option SessionRow) :
      w.unused req.ulid = true → w.attachment req = some row →
        StepCase casing w (.openConnection req)
          { w with
            sessions := match req.resumeSessionId with
              | some k => w.transitionSessionState k .running
              | none => w.sessions
            connections := w.connections ++ [w.connect casing req row] }
  | call (i : ℕ) (c : Connection) (call : Call) (g : Graph) :
      w.connections[i]? = some c → w.graphAfter casing c call = some g →
        StepCase casing w (.call i call)
          { w.updateConnection i fun c' =>
              { c' with scope := c'.scope.perform (respond casing w.graph c call).effects } with
            graph := g
            log := w.log ++ (respond casing w.graph c call).events.map fun e => (c.session, e) }
  | insertSession (i : ℕ) (c : Connection) :
      w.connections[i]? = some c → c.binding = .fresh → w.getSession c.session = none →
        (∀ home ∈ c.homeNodeId, w.graph.has home = true) →
        StepCase casing w (.insertSession i)
          { w.updateConnection i fun c => { c with binding := .inserted } with
            sessions := w.sessions ++
              [⟨c.session, c.identity.userId, c.homeNodeId, c.scope.sessionType, .running⟩] }
  | bindSession (i : ℕ) (c : Connection) :
      w.connections[i]? = some c → c.binding = .inserted →
        StepCase casing w (.bindSession i)
          (w.updateConnection i fun c =>
            { c with
              binding := .bound
              scope := ({ c.scope with sessionId := some c.session }.wireOngoingSync c.session
                c.homeNodeId).runMicrotasks })
  | deliver (i j : ℕ) (c : Connection) (statement : ScopeWrite) (rest : List ScopeWrite) :
      w.connections[i]? = some c → c.scope.writes[j]? = some (statement :: rest) →
        StepCase casing w (.deliver i j)
          { w.updateConnection i fun c' => { c' with scope := { c'.scope with
              writes := if rest = [] ∨ w.write statement = none then c.scope.writes.eraseIdx j
                else c.scope.writes.set j rest } } with
            rows := (w.write statement).getD w.rows }
  | lose (i j : ℕ) (c : Connection) :
      w.connections[i]? = some c → j < c.scope.writes.length →
        StepCase casing w (.lose i j)
          (w.updateConnection i fun c' =>
            { c' with scope := { c'.scope with writes := c'.scope.writes.eraseIdx j } })
  | startSession (row : SessionRow) :
      w.unused row.id = true → (∀ n ∈ row.nodeId, w.graph.has n = true) →
        StepCase casing w (.startSession row) { w with sessions := w.sessions ++ [row] }
  | setState (id : String) (state : SessionState) :
      StepCase casing w (.setState id state)
        { w with sessions := w.transitionSessionState id state }
  | changeGraph (g : Graph) :
      (∀ n ∈ w.graph.nodes, g.has n.id = true) → (∀ n ∈ g.nodes, n.id ∉ w.purged) →
        StepCase casing w (.changeGraph g) { w with graph := g }
  | purge (nodeId : String) : StepCase casing w (.purge nodeId) (w.purge nodeId)

theorem step_cases (hstep : step casing w a = some w') : StepCase casing w a w' := by
  cases a with
  | openConnection req =>
    simp only [step, openConnection] at hstep
    split at hstep
    next hunused =>
      obtain ⟨row, hrow, rfl⟩ := Option.map_eq_some_iff.mp hstep
      exact .openConnection req row hunused hrow
    next => simp at hstep
  | call i call =>
    simp only [step, callTool, Option.bind_eq_some_iff, Option.map_eq_some_iff] at hstep
    obtain ⟨c, hc, g, hg, rfl⟩ := hstep
    exact .call i c call g hc hg
  | insertSession i =>
    simp only [step, insertSession, Option.bind_eq_some_iff] at hstep
    obtain ⟨c, hc, hstep⟩ := hstep
    split at hstep
    next hcond =>
      cases hstep
      exact .insertSession i c hc hcond.1 hcond.2.1 hcond.2.2
    next => simp at hstep
  | bindSession i =>
    simp only [step, bindSession, Option.bind_eq_some_iff] at hstep
    obtain ⟨c, hc, hstep⟩ := hstep
    split at hstep
    next hcond =>
      cases hstep
      exact .bindSession i c hc hcond
    next => simp at hstep
  | deliver i j =>
    simp only [step, deliver, Option.bind_eq_some_iff] at hstep
    obtain ⟨c, hc, hstep⟩ := hstep
    split at hstep
    next => simp at hstep
    next => simp at hstep
    next statement rest hj =>
      cases hstep
      exact .deliver i j c statement rest hc hj
  | lose i j =>
    simp only [step, lose, Option.bind_eq_some_iff] at hstep
    obtain ⟨c, hc, hstep⟩ := hstep
    split at hstep
    next hj =>
      cases hstep
      exact .lose i j c hc hj
    next => simp at hstep
  | startSession row =>
    simp only [step, startSession] at hstep
    split at hstep
    next hcond =>
      cases hstep
      exact .startSession row hcond.1 hcond.2
    next => simp at hstep
  | setState id state =>
    cases hstep
    exact .setState id state
  | changeGraph g =>
    simp only [step, changeGraph] at hstep
    split at hstep
    next hcond =>
      cases hstep
      exact .changeGraph g hcond.1 hcond.2
    next => simp at hstep
  | purge nodeId =>
    cases hstep
    exact .purge nodeId

/-- How the tables and the log go on: a session keeps its id, its user and its type, and loses
its node only to a purge. -/
structure Grows (w w' : World) : Prop where
  log : ∀ x ∈ w.log, x ∈ w'.log
  purged : ∀ n ∈ w.purged, n ∈ w'.purged
  sessions : ∀ k ∈ w.sessions, ∃ k' ∈ w'.sessions, k'.id = k.id ∧ k'.userId = k.userId ∧
    k'.sessionType = k.sessionType ∧ ∀ n, k.nodeId = some n → k'.nodeId = some n ∨ n ∈ w'.purged

theorem Grows.of_subset (log : ∀ x ∈ w.log, x ∈ w'.log) (purged : ∀ n ∈ w.purged, n ∈ w'.purged)
    (sessions : ∀ k ∈ w.sessions, k ∈ w'.sessions) : Grows w w' :=
  ⟨log, purged, fun k hk => ⟨k, sessions k hk, rfl, rfl, rfl, fun _ h => .inl h⟩⟩

variable {state : SessionState}

theorem mem_transitionSessionState :
    k ∈ w.transitionSessionState id state ↔
      ∃ k₀ ∈ w.sessions, k = if k₀.id = id then { k₀ with state := state } else k₀ := by
  simp [transitionSessionState, eq_comm]

theorem grows_transition (log : ∀ x ∈ w.log, x ∈ w'.log) (purged : ∀ n ∈ w.purged, n ∈ w'.purged)
    (sessions : w'.sessions = w.transitionSessionState id state) : Grows w w' := by
  refine ⟨log, purged, fun k hk => ?_⟩
  refine ⟨_, sessions ▸ mem_transitionSessionState.mpr ⟨k, hk, rfl⟩, ?_⟩
  split <;> exact ⟨rfl, rfl, rfl, fun _ h => .inl h⟩

theorem step_grows (hstep : step casing w a = some w') : Grows w w' := by
  cases step_cases hstep with
  | openConnection req row _ _ =>
    cases hresume : req.resumeSessionId with
    | none => exact .of_subset (fun _ h => h) (fun _ h => h) fun _ h => h
    | some k => exact grows_transition (fun _ h => h) (fun _ h => h) rfl
  | call =>
    exact .of_subset (fun _ h => List.mem_append_left _ h) (fun _ h => h) fun _ h => h
  | insertSession | startSession =>
    exact .of_subset (fun _ h => h) (fun _ h => h) fun _ h => List.mem_append_left _ h
  | bindSession | deliver | lose | changeGraph =>
    exact .of_subset (fun _ h => h) (fun _ h => h) fun _ h => h
  | setState => exact grows_transition (fun _ h => h) (fun _ h => h) rfl
  | purge nodeId =>
    refine ⟨fun _ h => h, fun _ h => List.mem_append_left _ h, fun k hk => ?_⟩
    refine ⟨_, List.mem_map_of_mem hk, ?_⟩
    split
    next hnode =>
      refine ⟨rfl, rfl, rfl, fun n hn => .inr ?_⟩
      rw [hnode] at hn
      simp [purge, Option.some.inj hn]
    next => exact ⟨rfl, rfl, rfl, fun _ h => .inl h⟩

structure Consistent (w : World) : Prop where
  unique : (w.sessions.map (·.id)).Nodup
  alive : ∀ n ∈ w.graph.nodes, n.id ∉ w.purged
  rows : ∀ r ∈ w.rows, ∃ k ∈ w.sessions, k.id = r.sessionId
  held : ∀ c ∈ w.connections, c.binding ≠ .fresh →
    ∃ k ∈ w.sessions, k.id = c.session ∧ k.userId = c.identity.userId
  wired : ∀ c ∈ w.connections, c.scope.listeners ≠ none → c.binding = .bound

theorem Consistent.eq_of_id (h : Consistent w) {k k' : SessionRow} (hk : k ∈ w.sessions)
    (hk' : k' ∈ w.sessions) (hid : k.id = k'.id) : k = k' :=
  List.inj_on_of_nodup_map h.unique hk hk' hid

variable {id : String} {s : SessionScope} {req : OpenRequest} {row : Option SessionRow}

theorem unused_iff :
    w.unused id = true ↔ (∀ k ∈ w.sessions, k.id ≠ id) ∧ ∀ c ∈ w.connections, c.session ≠ id := by
  simp [unused]

theorem map_id_transition :
    (w.transitionSessionState id state).map (·.id) = w.sessions.map (·.id) := by
  simp only [transitionSessionState, List.map_map]
  refine List.map_congr_left fun k _ => ?_
  simp only [Function.comp_apply]
  split <;> rfl

theorem Grows.stays (grows : Grows w w') {user : String}
    (h : ∃ k ∈ w.sessions, k.id = id ∧ k.userId = user) :
    ∃ k ∈ w'.sessions, k.id = id ∧ k.userId = user := by
  obtain ⟨k, hk, rfl, rfl⟩ := h
  obtain ⟨k', hk', hid, huser, -⟩ := grows.sessions k hk
  exact ⟨k', hk', hid, huser⟩

theorem Grows.stays_id (grows : Grows w w') (h : ∃ k ∈ w.sessions, k.id = id) :
    ∃ k ∈ w'.sessions, k.id = id := by
  obtain ⟨k, hk, rfl⟩ := h
  obtain ⟨k', hk', hid, -⟩ := grows.sessions k hk
  exact ⟨k', hk', hid⟩

theorem write_eq_some {st : ScopeWrite} {rows : List SessionScopeRow}
    (h : w.write st = some rows) {r : SessionScopeRow} (hr : r ∈ rows) :
    (∃ k ∈ w.sessions, k.id = r.sessionId) ∨ ∃ r₀ ∈ w.rows, r.sessionId = r₀.sessionId := by
  cases st with
  | upsertRead k n addedVia reason =>
    simp only [write] at h
    split at h
    next hcond =>
      cases h
      unfold upsertSessionScopeRead at hr
      split at hr
      next =>
        obtain ⟨r₀, hr₀, rfl⟩ := List.mem_map.mp hr
        refine .inr ⟨r₀, hr₀, ?_⟩
        split <;> rfl
      next =>
        rcases List.mem_append.mp hr with hr | hr
        · exact .inr ⟨r, hr, rfl⟩
        · rw [List.mem_singleton.mp hr]
          obtain ⟨k', hk'⟩ := Option.isSome_iff_exists.mp hcond.2
          exact .inl ⟨k', (getSession_eq_some hk').1, (getSession_eq_some hk').2⟩
    next => simp at h
  | setWritable k n =>
    cases h
    obtain ⟨r₀, hr₀, rfl⟩ := List.mem_map.mp hr
    refine .inr ⟨r₀, hr₀, ?_⟩
    split <;> rfl

theorem purge_alive (h : Consistent w) (nodeId : String) :
    ∀ n ∈ (w.purge nodeId).graph.nodes, n.id ∉ (w.purge nodeId).purged := by
  intro n hn
  obtain ⟨hn, hne⟩ := List.mem_filter.mp hn
  simp only [purge, List.mem_append, List.mem_singleton, not_or]
  exact ⟨h.alive n hn, by simpa using hne⟩

theorem graphAfter_alive (h : Consistent w) {call : Call} {g : Graph}
    (hg : w.graphAfter casing c call = some g) : ∀ n ∈ g.nodes, n.id ∉ w.purged := by
  unfold graphAfter at hg
  split at hg
  next args =>
    split at hg
    next =>
      cases hg
      exact h.alive
    next =>
      split at hg
      next => simp at hg
      next hfresh =>
        cases hg
        intro n hn
        rcases List.mem_append.mp hn with hn | hn
        · exact h.alive n hn
        · rw [List.mem_singleton.mp hn]
          exact fun hp => hfresh (.inr hp)
  next =>
    cases hg
    exact h.alive

theorem Consistent.held_of (grows : Grows w w') (h : Consistent w)
    (kept : ∀ c ∈ w'.connections, (∃ c₀ ∈ w.connections, c.session = c₀.session ∧
      c.identity = c₀.identity ∧ (c.binding ≠ .fresh → c₀.binding ≠ .fresh)) ∨ (c.binding ≠ .fresh →
        ∃ k ∈ w'.sessions, k.id = c.session ∧ k.userId = c.identity.userId)) :
    ∀ c ∈ w'.connections, c.binding ≠ .fresh →
      ∃ k ∈ w'.sessions, k.id = c.session ∧ k.userId = c.identity.userId := by
  intro c hc hb
  rcases kept c hc with ⟨c₀, hc₀, hs, hid, hbind⟩ | h'
  · rw [hs, hid]
    exact grows.stays (h.held c₀ hc₀ (hbind hb))
  · exact h' hb

variable {effects : List Effect}

theorem perform_listeners : (s.perform effects).listeners = s.listeners :=
  SessionScope.run_listeners

theorem perform_sessionType : (s.perform effects).sessionType = s.sessionType :=
  SessionScope.run_sessionType

variable {identity : RequestIdentity}

@[simp]
theorem rehydratedScope_listeners :
    (w.rehydratedScope casing identity s).listeners = s.listeners := by
  unfold rehydratedScope
  split
  · exact perform_listeners
  · rfl

@[simp]
theorem rehydratedScope_sessionType :
    (w.rehydratedScope casing identity s).sessionType = s.sessionType := by
  unfold rehydratedScope
  split
  · exact perform_sessionType
  · rfl

theorem openScope_listeners : (w.openScope casing req row).listeners = row.map SessionRow.id := by
  rw [openScope, seededScope, perform_listeners, rehydratedScope_listeners]
  cases row <;> rfl

theorem attachedScope_sessionType :
    (w.attachedScope req row).sessionType = deriveSessionType req.identity := by
  cases row with
  | none => rfl
  | some k => exact SessionScope.run_sessionType

theorem openScope_sessionType :
    (w.openScope casing req row).sessionType = deriveSessionType req.identity := by
  rw [openScope, seededScope, perform_sessionType, rehydratedScope_sessionType,
    attachedScope_sessionType]

theorem connect_held
    (hrow : w.attachment req = some row) (hb : (w.connect casing req row).binding ≠ .fresh) :
    ∃ k ∈ w.sessions, k.id = (w.connect casing req row).session ∧
      k.userId = (w.connect casing req row).identity.userId := by
  cases row with
  | none => exact absurd rfl hb
  | some k =>
    obtain ⟨hk, huser⟩ := attachment_eq_some hrow
    exact ⟨k, hk, rfl, huser⟩

theorem connect_wired (hl : (w.connect casing req row).scope.listeners ≠ none) :
    (w.connect casing req row).binding = .bound := by
  cases row with
  | none => exact absurd openScope_listeners hl
  | some k => rfl

theorem kept_modify {f : Connection → Connection} (hc : c ∈ w.connections.modify i f)
    (hf : ∀ c, (f c).session = c.session ∧ (f c).identity = c.identity ∧
      ((f c).binding ≠ .fresh → c.binding ≠ .fresh)) :
    ∃ c₀ ∈ w.connections, c.session = c₀.session ∧ c.identity = c₀.identity ∧
      (c.binding ≠ .fresh → c₀.binding ≠ .fresh) := by
  rcases mem_modify hc with hc | ⟨c₀, hc₀, rfl⟩
  · exact ⟨c, hc, rfl, rfl, fun h => h⟩
  · exact ⟨c₀, List.mem_of_getElem? hc₀, hf c₀⟩

theorem wired_modify (h : Consistent w) {f : Connection → Connection}
    (hc : c ∈ w.connections.modify i f) (hf : ∀ c, (c.scope.listeners ≠ none → c.binding = .bound) →
      (f c).scope.listeners ≠ none → (f c).binding = .bound) :
    c.scope.listeners ≠ none → c.binding = .bound := by
  rcases mem_modify hc with hc | ⟨c₀, hc₀, rfl⟩
  · exact h.wired c hc
  · exact hf c₀ (h.wired c₀ (List.mem_of_getElem? hc₀))

theorem unique_append (h : Consistent w) {row : SessionRow}
    (fresh : ∀ k ∈ w.sessions, k.id ≠ row.id) : ((w.sessions ++ [row]).map (·.id)).Nodup := by
  rw [List.map_append, List.nodup_append]
  refine ⟨h.unique, List.nodup_singleton _, ?_⟩
  intro a ha b hb
  obtain ⟨k, hk, rfl⟩ := List.mem_map.mp ha
  obtain rfl := List.mem_singleton.mp hb
  exact fresh k hk

theorem consistent_step (h : Consistent w) (hstep : step casing w a = some w') :
    Consistent w' := by
  have grows := step_grows hstep
  cases step_cases hstep with
  | openConnection req row _ hrow =>
    refine ⟨?_, h.alive, fun r hr => grows.stays_id (h.rows r hr), ?_, ?_⟩
    · cases hresume : req.resumeSessionId with
      | none => exact h.unique
      | some k => exact (map_id_transition (w := w)) ▸ h.unique
    · refine h.held_of grows fun c hc => ?_
      rcases List.mem_append.mp hc with hc | hc
      · exact .inl ⟨c, hc, rfl, rfl, fun hb => hb⟩
      · rw [List.mem_singleton.mp hc]
        exact .inr fun hb => grows.stays (connect_held hrow hb)
    · intro c hc
      rcases List.mem_append.mp hc with hc | hc
      · exact h.wired c hc
      · rw [List.mem_singleton.mp hc]
        exact connect_wired
  | call i c call g hc hg =>
    refine ⟨h.unique, graphAfter_alive h hg, h.rows, ?_, ?_⟩
    · exact h.held_of grows fun c hc =>
        .inl (kept_modify hc fun c => ⟨rfl, rfl, fun hb => hb⟩)
    · exact fun c hc => wired_modify h hc fun c hc hl => hc (by rwa [perform_listeners] at hl)
  | insertSession i c hc hfresh hnone _ =>
    refine ⟨unique_append h (getSession_eq_none hnone), h.alive,
      fun r hr => grows.stays_id (h.rows r hr), ?_, ?_⟩
    · refine h.held_of grows fun c' hc' => ?_
      rcases mem_modify hc' with hc' | ⟨c₀, hc₀, rfl⟩
      · exact .inl ⟨c', hc', rfl, rfl, fun hb => hb⟩
      · obtain rfl := Option.some.inj (hc.symm.trans hc₀)
        exact .inr fun _ => ⟨_, List.mem_append_right _ (List.mem_singleton_self _), rfl, rfl⟩
    · intro c' hc' hl
      rcases mem_modify hc' with hc' | ⟨c₀, hc₀, rfl⟩
      · exact h.wired c' hc' hl
      · obtain rfl := Option.some.inj (hc.symm.trans hc₀)
        have hbound := h.wired c (List.mem_of_getElem? hc) hl
        rw [hfresh] at hbound
        nomatch hbound
  | bindSession i c hc hinserted =>
    refine ⟨h.unique, h.alive, h.rows, ?_, ?_⟩
    · refine h.held_of grows fun c' hc' => ?_
      rcases mem_modify hc' with hc' | ⟨c₀, hc₀, rfl⟩
      · exact .inl ⟨c', hc', rfl, rfl, fun hb => hb⟩
      · obtain rfl := Option.some.inj (hc.symm.trans hc₀)
        refine .inl ⟨c, List.mem_of_getElem? hc, rfl, rfl, fun _ => ?_⟩
        rw [hinserted]
        exact fun hb => nomatch hb
    · exact fun c hc => wired_modify h hc fun c _ _ => rfl
  | deliver i j c statement rest hc hj =>
    refine ⟨h.unique, h.alive, ?_, ?_, ?_⟩
    · intro r hr
      cases hw : w.write statement with
      | none =>
        rw [hw] at hr
        exact h.rows r hr
      | some rows =>
        rw [hw] at hr
        rcases write_eq_some hw hr with hk | ⟨r₀, hr₀, heq⟩
        · exact hk
        · exact heq ▸ h.rows r₀ hr₀
    · exact h.held_of grows fun c hc =>
        .inl (kept_modify hc fun c => ⟨rfl, rfl, fun hb => hb⟩)
    · exact fun c hc => wired_modify h hc fun c hc hl => hc hl
  | lose i j c hc hj =>
    refine ⟨h.unique, h.alive, h.rows, ?_, ?_⟩
    · exact h.held_of grows fun c hc =>
        .inl (kept_modify hc fun c => ⟨rfl, rfl, fun hb => hb⟩)
    · exact fun c hc => wired_modify h hc fun c hc hl => hc hl
  | startSession row hunused _ =>
    refine ⟨unique_append h (unused_iff.mp hunused).1, h.alive,
      fun r hr => grows.stays_id (h.rows r hr), ?_, h.wired⟩
    exact h.held_of grows fun c hc => .inl ⟨c, hc, rfl, rfl, fun hb => hb⟩
  | setState id state =>
    refine ⟨(map_id_transition (w := w)) ▸ h.unique, h.alive,
      fun r hr => grows.stays_id (h.rows r hr), ?_, h.wired⟩
    exact h.held_of grows fun c hc => .inl ⟨c, hc, rfl, rfl, fun hb => hb⟩
  | changeGraph g _ halive =>
    exact ⟨h.unique, halive, h.rows, h.held, h.wired⟩
  | purge nodeId =>
    refine ⟨?_, purge_alive h nodeId, ?_, ?_, h.wired⟩
    · have hid : (w.purge nodeId).sessions.map (·.id) = w.sessions.map (·.id) := by
        simp only [purge, List.map_map]
        refine List.map_congr_left fun k _ => ?_
        simp only [Function.comp_apply]
        split <;> rfl
      exact hid ▸ h.unique
    · exact fun r hr => grows.stays_id (h.rows r (List.mem_filter.mp hr).1)
    · exact h.held_of grows fun c hc => .inl ⟨c, hc, rfl, rfl, fun hb => hb⟩

theorem consistent_start (g : Graph) : Consistent (start g) := by
  constructor <;> simp [start]

end World

end Portuni.McpScope
