import Portuni.Library.Runs
import Portuni.McpScope.Consistent

/-!
The write scope over whole runs. Sessions are attached to by connections of their own kind and no
`portuni_session_init` anchors a connection anew: then what the write gate lets through is the
anchor, a creation, or what a dialog has granted.
-/

namespace Portuni.McpScope

open World Library.Runs

namespace World

variable {casing : Casing} {w w' : World} {a : Action}

/-- `n` was created by the session, or, for a connector session, by a connector session of the
same user. -/
def CreatedFor (w : World) (ty : SessionType) (session user n : String) : Prop :=
  (session, .created n) ∈ w.log ∨
    (ty = .interactiveChat ∧ ∃ k ∈ w.sessions, k.userId = user ∧
      k.sessionType = .interactiveChat ∧ (k.id, .created n) ∈ w.log)

/-- `n` was created for the session, or the user has accepted a write dialog for it there. -/
def Granted (w : World) (ty : SessionType) (session user n : String) : Prop :=
  w.CreatedFor ty session user n ∨ (ty ≠ .headless ∧ (session, .accepted .write n) ∈ w.log)

/-- Sessions of the two types are bound by the same rules: headless ones, connectors, others. -/
def SameKind (ty ty' : SessionType) : Prop :=
  (ty = .headless ↔ ty' = .headless) ∧ (ty = .interactiveChat ↔ ty' = .interactiveChat)

instance : DecidableRel SameKind := fun ty ty' => by
  unfold SameKind
  exact inferInstance

/-- No connection attaches to a session of another kind, and `portuni_session_init` does not
name another node than the anchor. -/
def Careful (casing : Casing) (w : World) : Action → Prop
  | .openConnection req => ∀ row, w.attachment req = some (some row) →
      SameKind (deriveSessionType req.identity) row.sessionType
  | .call i (.sessionInit args) => ∀ c, w.connections[i]? = some c →
      ∀ home, loadNodeIdFromMaybeName casing w.graph args = some home → w.graph.has home = true →
        c.anchor = some home
  | _ => True

instance (w : World) (a : Action) : Decidable (Careful casing w a) :=
  match a with
  | .openConnection req => decidable_of_iff (∀ row ∈ (w.attachment req).join,
      SameKind (deriveSessionType req.identity) row.sessionType)
        (by simp [Careful, Option.join_eq_some_iff])
  | .call i (.sessionInit args) => inferInstanceAs (Decidable (∀ c ∈ w.connections[i]?,
      ∀ home ∈ loadNodeIdFromMaybeName casing w.graph args, w.graph.has home = true →
        c.anchor = some home))
  | .call _ (.expandScope ..) | .call _ (.read ..) | .call _ (.getContext ..)
  | .call _ (.write ..) | .call _ (.createNode _) | .insertSession _ | .bindSession _
  | .deliver .. | .lose .. | .startSession _ | .setState .. | .changeGraph _ | .purge _ =>
    inferInstanceAs (Decidable True)

section

variable {ty : SessionType} {session user n : String}

theorem CreatedFor.mono (grows : Grows w w')
    (h : w.CreatedFor ty session user n) : w'.CreatedFor ty session user n := by
  rcases h with h | ⟨hty, k, hk, hu, hkt, hl⟩
  · exact .inl (grows.log _ h)
  · obtain ⟨k', hk', hid, hu', hkt', -⟩ := grows.sessions k hk
    exact .inr ⟨hty, k', hk', hu'.trans hu, hkt'.trans hkt, hid ▸ grows.log _ hl⟩

theorem Granted.mono (grows : Grows w w')
    (h : w.Granted ty session user n) : w'.Granted ty session user n :=
  h.imp (CreatedFor.mono grows) fun h => ⟨h.1, grows.log _ h.2⟩

variable {ty' : SessionType}

theorem CreatedFor.of_sameKind (same : SameKind ty ty') (h : w.CreatedFor ty session user n) :
    w.CreatedFor ty' session user n :=
  h.imp (fun h => h) fun h => ⟨same.2.mp h.1, h.2⟩

theorem Granted.of_sameKind (same : SameKind ty ty') (h : w.Granted ty session user n) :
    w.Granted ty' session user n :=
  h.imp (CreatedFor.of_sameKind same) fun h => ⟨fun hty => h.1 (same.1.mpr hty), h.2⟩

theorem SameKind.symm (h : SameKind ty ty') : SameKind ty' ty :=
  ⟨h.1.symm, h.2.symm⟩

end

section

/-- The session of a connection is anchored at `n`. -/
def SessionAt (w : World) (session n : String) : Prop :=
  ∃ k ∈ w.sessions, k.id = session ∧ k.nodeId = some n

variable {n : String} {c : Connection}

theorem SessionAt.mono (grows : Grows w w') {session : String} (h : w.SessionAt session n) :
    n ∈ w'.purged ∨ w'.SessionAt session n := by
  obtain ⟨k, hk, hid, hn⟩ := h
  obtain ⟨k', hk', hid', -, -, hnode⟩ := grows.sessions k hk
  rcases hnode n hn with h | h
  · exact .inr ⟨k', hk', hid'.trans hid, h⟩
  · exact .inl h

def Writes (w : World) (c : Connection) (n : String) : Prop :=
  n ∈ w.purged ∨ w.Granted c.scope.sessionType c.session c.identity.userId n ∨
    (c.anchor = some n ∧ w.SessionAt c.session n)

def Persists (w : World) (c : Connection) (n : String) : Prop :=
  n ∈ w.purged ∨ w.Granted c.scope.sessionType c.session c.identity.userId n ∨
    w.SessionAt c.session n

def Recorded (w : World) (c : Connection) (r : ExpansionRecord) : Prop :=
  r.addedVia = some .created →
    ∀ n ∈ r.nodeIds, w.CreatedFor c.scope.sessionType c.session c.identity.userId n

/-- The reasons for a row of the session `k`. -/
structure RowSound (w : World) (k : SessionRow) (r : SessionScopeRow) : Prop where
  session : k.id = r.sessionId
  writable : r.writable = true → r.nodeId ∈ w.purged ∨ k.nodeId = some r.nodeId ∨
    w.Granted k.sessionType k.id k.userId r.nodeId
  created : r.addedVia = .created → w.CreatedFor k.sessionType k.id k.userId r.nodeId

structure ConnectionSound (w : World) (c : Connection) : Prop where
  anchored : c.scope.homeNodeId = c.anchor
  kind : c.binding ≠ .fresh → ∃ k ∈ w.sessions, k.id = c.session ∧
    SameKind c.scope.sessionType k.sessionType
  inserted : c.binding = .inserted → ∀ n, c.homeNodeId = some n →
    n ∈ w.purged ∨ w.SessionAt c.session n
  scope : Justified c.session (fun _ => True) (w.Writes c) (w.Persists c) (w.Recorded c) c.scope

structure ScopeSound (w : World) : Prop where
  consistent : Consistent w
  rows : ∀ r ∈ w.rows, ∃ k ∈ w.sessions, w.RowSound k r
  connections : ∀ c ∈ w.connections, w.ConnectionSound c

theorem Writes.persists (h : w.Writes c n) : w.Persists c n :=
  h.imp (fun h => h) fun h => h.imp (fun h => h) fun h => h.2

variable (grows : Grows w w')

include grows

theorem Persists.mono (h : w.Persists c n) : w'.Persists c n := by
  rcases h with h | h | h
  · exact .inl (grows.purged n h)
  · exact .inr (.inl (h.mono grows))
  · rcases h.mono grows with h | h
    · exact .inl h
    · exact .inr (.inr h)

theorem Writes.mono (h : w.Writes c n) : w'.Writes c n := by
  rcases h with h | h | ⟨ha, h⟩
  · exact .inl (grows.purged n h)
  · exact .inr (.inl (h.mono grows))
  · rcases h.mono grows with h | h
    · exact .inl h
    · exact .inr (.inr ⟨ha, h⟩)

theorem Recorded.mono {r : ExpansionRecord} (h : w.Recorded c r) : w'.Recorded c r :=
  fun hc n hn => (h hc n hn).mono grows

theorem RowSound.mono {k : SessionRow} (hk : k ∈ w.sessions) {r : SessionScopeRow}
    (h : w.RowSound k r) : ∃ k' ∈ w'.sessions, w'.RowSound k' r := by
  obtain ⟨k', hk', hid, huser, hty, hnode⟩ := grows.sessions k hk
  refine ⟨k', hk', hid.trans h.session, fun hw => ?_, fun hc => ?_⟩
  · rcases h.writable hw with h | h | h
    · exact .inl (grows.purged _ h)
    · rcases hnode _ h with h | h
      · exact .inr (.inl h)
      · exact .inl h
    · rw [hid, huser, hty]
      exact .inr (.inr (h.mono grows))
  · rw [hid, huser, hty]
    exact (h.created hc).mono grows

theorem Justified.mono_world {s : SessionScope}
    (h : Justified c.session (fun _ => True) (w.Writes c) (w.Persists c) (w.Recorded c) s) :
    Justified c.session (fun _ => True) (w'.Writes c) (w'.Persists c) (w'.Recorded c) s :=
  h.mono (fun _ h => h) (fun _ h => h.mono grows) (fun _ h => h.mono grows)
    (fun _ h => h.mono grows) fun _ _ _ h => h.persists

theorem ConnectionSound.mono (h : w.ConnectionSound c) : w'.ConnectionSound c where
  anchored := h.anchored
  kind hb := by
    obtain ⟨k, hk, hid, hkind⟩ := h.kind hb
    obtain ⟨k', hk', hid', -, hty', -⟩ := grows.sessions k hk
    exact ⟨k', hk', hid'.trans hid, hty' ▸ hkind⟩
  inserted hb n hn := by
    rcases h.inserted hb n hn with h | h
    · exact .inl (grows.purged n h)
    · exact h.mono grows
  scope := Justified.mono_world grows h.scope

end

theorem respond_fits {c : Connection} {call : Call}
    (log : w'.log = w.log ++ (respond casing w.graph c call).events.map fun e => (c.session, e)) :
    ∀ e ∈ (respond casing w.graph c call).effects,
      e.Fits (fun _ => True) (w'.Writes c) (w'.Recorded c) := by
  intro e he
  have backed := respond_backed he
  have logged : ∀ x ∈ (respond casing w.graph c call).events, (c.session, x) ∈ w'.log := by
    intro x hx
    rw [log]
    exact List.mem_append_right _ (List.mem_map_of_mem hx)
  cases e with
  | anchor home => trivial
  | add n => trivial
  | await => trivial
  | addWritable n =>
    refine ⟨trivial, .inr (.inl ?_)⟩
    rcases backed with ⟨hty, hx⟩ | hx
    · exact .inr ⟨hty, logged _ hx⟩
    · exact .inl (.inl (logged _ hx))
  | record r => exact fun hc n hn => .inl (logged _ (backed hc n hn))

theorem respond_anchor {c : Connection} {i : ℕ} {call : Call}
    (careful : Careful casing w (.call i call)) (hc : w.connections[i]? = some c)
    {home : String} (he : .anchor home ∈ (respond casing w.graph c call).effects) :
    some home = c.anchor := by
  obtain ⟨args, rfl, hload, hhas⟩ := respond_backed he
  exact (careful c hc home hload hhas).symm

section

variable {req : OpenRequest} {row : Option SessionRow} {k : SessionRow}

theorem replay_effect {accumulated : List SessionScopeRow} {reason : String} {e : Effect}
    (he : e ∈ replay accumulated reason) :
    (∃ r ∈ accumulated, e = .add r.nodeId ∨ (e = .addWritable r.nodeId ∧ r.writable = true)) ∨
      e = .record ⟨accumulated.map (·.nodeId), reason, none⟩ := by
  unfold replay at he
  rcases List.mem_append.mp he with he | he
  · obtain ⟨r, hr, he⟩ := List.mem_flatMap.mp he
    refine .inl ⟨r, hr, ?_⟩
    rcases List.mem_cons.mp he with he | he
    · exact .inl he
    · split at he
      next hw => exact .inr ⟨List.mem_singleton.mp he, hw⟩
      next => simp at he
  · split at he
    next => simp at he
    next => exact .inr (List.mem_singleton.mp he)

theorem attachedScope_homeNodeId :
    (w.attachedScope req row).homeNodeId = row.bind SessionRow.nodeId := by
  cases row with
  | none => rfl
  | some k =>
    refine SessionScope.run_homeNodeId_of_forall rfl fun h he => ?_
    rcases replay_effect he with ⟨r, -, he | ⟨he, -⟩⟩ | he <;> nomatch he

variable {identity : RequestIdentity}

theorem rehydrate_effect {e : Effect} (he : e ∈ w.rehydrateConnectorWriteGrants casing identity) :
    (∃ n ∈ w.listConnectorCreatedWritableNodes identity.userId, e = .addWritable n) ∨
      ∃ ids reason, e = .record ⟨ids, reason, some .created⟩ ∧
        ∀ n ∈ ids, n ∈ w.listConnectorCreatedWritableNodes identity.userId := by
  unfold rehydrateConnectorWriteGrants at he
  simp only at he
  rcases List.mem_append.mp he with he | he
  · obtain ⟨n, hn, rfl⟩ := List.mem_map.mp he
    exact .inl ⟨n, (List.mem_filter.mp hn).1, rfl⟩
  · split at he
    next => simp at he
    next =>
      exact .inr ⟨_, _, List.mem_singleton.mp he, fun n hn => (List.mem_filter.mp hn).1⟩

theorem rehydratedScope_homeNodeId {s : SessionScope} :
    (w.rehydratedScope casing identity s).homeNodeId = s.homeNodeId := by
  unfold rehydratedScope
  split
  · refine SessionScope.run_homeNodeId_of_forall rfl fun h he => ?_
    rcases rehydrate_effect he with ⟨n, -, he⟩ | ⟨ids, reason, he, -⟩ <;> nomatch he
  · rfl

theorem connect_anchor_of_nodeId {n : String} (hn : k.nodeId = some n) :
    (w.connect casing req (some k)).anchor = some n := by
  have hhome : (w.rehydratedScope casing req.identity (w.attachedScope req (some k))).homeNodeId =
      some n := by
    rw [rehydratedScope_homeNodeId, attachedScope_homeNodeId]
    exact hn
  refine SessionScope.run_homeNodeId_of_forall hhome fun h he => ?_
  obtain ⟨url, -, -, -, he⟩ := autoSeedFromHome_effect he
  rcases seeded_effect he with he | ⟨m, -, he⟩ | he | he
  · rw [Effect.anchor.inj he, hhome]
    rfl
  · nomatch he
  · nomatch he
  · nomatch he

theorem rows_of_session (sound : ScopeSound w) (hk : k ∈ w.sessions) {r : SessionScopeRow}
    (hr : r ∈ w.getSessionScope k.id) : w.RowSound k r := by
  obtain ⟨hr, hid⟩ := List.mem_filter.mp hr
  obtain ⟨k', hk', hsound⟩ := sound.rows r hr
  have heq : k' = k := sound.consistent.eq_of_id hk' hk (hsound.session.trans (by simpa using hid))
  exact heq ▸ hsound

theorem createdFor_of_rehydrated (sound : ScopeSound w) {user n session : String}
    (hn : n ∈ w.listConnectorCreatedWritableNodes user) :
    w.CreatedFor .interactiveChat session user n := by
  simp only [listConnectorCreatedWritableNodes, List.mem_eraseDups, List.mem_map, List.mem_filter,
    Bool.and_eq_true, decide_eq_true_eq, List.any_eq_true] at hn
  obtain ⟨r, ⟨hr, ⟨⟨hvia, -⟩, -⟩, k, hk, ⟨hid, huser⟩, hty⟩, rfl⟩ := hn
  obtain ⟨k', hk', hsound⟩ := sound.rows r hr
  have heq : k' = k := sound.consistent.eq_of_id hk' hk (hsound.session.trans hid.symm)
  subst heq
  have hcreated := hsound.created hvia
  rw [hty, huser] at hcreated
  rcases hcreated with h | ⟨-, h⟩
  · exact .inr ⟨rfl, k', hk, huser, hty, h⟩
  · exact .inr ⟨rfl, h⟩

theorem connect_sound (sound : ScopeSound w) (hrow : w.attachment req = some row)
    (careful : Careful casing w (.openConnection req)) :
    w.ConnectionSound (w.connect casing req row) := by
  have hty : (w.connect casing req row).scope.sessionType = deriveSessionType req.identity :=
    openScope_sessionType
  have hscope : Justified (w.connect casing req row).session (fun _ => True)
      (w.Writes (w.connect casing req row)) (w.Persists (w.connect casing req row))
      (w.Recorded (w.connect casing req row)) (w.attachedScope req row) := by
    cases hcase : row with
    | none => exact .new _
    | some k =>
      rw [hcase] at hrow
      obtain ⟨hk, huser⟩ := attachment_eq_some hrow
      have same := careful k hrow
      have grant : ∀ n, w.Granted k.sessionType k.id k.userId n →
          w.Writes (w.connect casing req (some k)) n := by
        intro n hn
        rw [huser] at hn
        rw [hcase] at hty
        refine .inr (.inl ?_)
        rw [hty]
        exact hn.of_sameKind same.symm
      have anchored : ∀ n, k.nodeId = some n → w.Writes (w.connect casing req (some k)) n :=
        fun n hn => .inr (.inr ⟨connect_anchor_of_nodeId hn, k, hk, rfl, hn⟩)
      refine Justified.runMicrotasks (Justified.wireOngoingSync (Justified.run ?_ ?_)
        (fun n hn => hn.persists) fun n hn => ⟨trivial, (anchored n hn).persists⟩)
      · exact { Justified.new (deriveSessionType req.identity) with }
      · intro e he
        rcases replay_effect he with ⟨r, hr, rfl | ⟨rfl, hw⟩⟩ | rfl
        · trivial
        · refine ⟨trivial, ?_⟩
          rcases (rows_of_session sound hk hr).writable hw with h | h | h
          · exact .inl h
          · exact anchored _ h
          · exact grant _ h
        · exact fun h => nomatch h
  refine ⟨rfl, fun hb => ?_, fun hb => ?_, Justified.perform ?_ ?_⟩
  · cases row with
    | none => exact absurd rfl hb
    | some k => exact ⟨k, (attachment_eq_some hrow).1, rfl, hty ▸ careful k hrow⟩
  · cases row with
    | none => nomatch hb
    | some k => nomatch hb
  · unfold rehydratedScope
    split
    next hchat =>
      have hchat' : (w.connect casing req row).scope.sessionType = .interactiveChat := by
        exact hty.trans (attachedScope_sessionType.symm.trans hchat)
      refine hscope.perform fun e he => ?_
      rcases rehydrate_effect he with ⟨n, hn, rfl⟩ | ⟨ids, reason, rfl, hids⟩
      · refine ⟨trivial, .inr (.inl (.inl ?_))⟩
        rw [hchat']
        exact createdFor_of_rehydrated sound hn
      · intro _ n hn
        rw [hchat']
        exact createdFor_of_rehydrated sound (hids n hn)
    next => exact hscope
  · intro e he
    obtain ⟨url, -, -, -, he⟩ := autoSeedFromHome_effect he
    rcases seeded_effect he with rfl | ⟨m, -, rfl⟩ | rfl | rfl
    · trivial
    · trivial
    · trivial
    · exact fun h => nomatch h

end

variable {c : Connection}

theorem ConnectionSound.withScope (h : w.ConnectionSound c) {s : SessionScope}
    (hhome : s.homeNodeId = c.scope.homeNodeId) (hty : s.sessionType = c.scope.sessionType)
    (scope : Justified c.session (fun _ => True) (w.Writes c) (w.Persists c) (w.Recorded c) s) :
    w.ConnectionSound { c with scope := s } where
  anchored := hhome.trans h.anchored
  kind hb := by
    rw [hty]
    exact h.kind hb
  inserted := h.inserted
  scope := by
    refine scope.mono (fun _ h => h) ?_ ?_ ?_ fun _ _ _ hn => hn.persists
    · intro n hn
      unfold Writes at hn ⊢
      rwa [hty]
    · intro n hn
      unfold Persists at hn ⊢
      rwa [hty]
    · intro r hr
      unfold Recorded at hr ⊢
      rwa [hty]

theorem Justified.withWrites {K : String} {A W P : String → Prop} {H : ExpansionRecord → Prop}
    {s : SessionScope} (h : Justified K A W P H s) {writes : List (List ScopeWrite)}
    (sub : ∀ chain ∈ writes, ∀ st ∈ chain, ∃ chain' ∈ s.writes, st ∈ chain')
    (none : s.writes = [] → writes = []) :
    Justified K A W P H { s with writes := writes } where
  __ := h
  writes chain hc st hst := by
    obtain ⟨chain', hc', hst'⟩ := sub chain hc st hst
    exact h.writes chain' hc' st hst'
  idle hl := ⟨(h.idle hl).1, none (h.idle hl).2⟩

theorem connections_modify (grows : Grows w w') (sound : ScopeSound w) {i : ℕ} {c₀ : Connection}
    (hc₀ : w.connections[i]? = some c₀) {f : Connection → Connection}
    (hf : w'.ConnectionSound (f c₀)) (hc : c ∈ w.connections.modify i f) :
    w'.ConnectionSound c := by
  rcases mem_modify hc with hc | ⟨c₁, hc₁, rfl⟩
  · exact (sound.connections c hc).mono grows
  · obtain rfl := Option.some.inj (hc₀.symm.trans hc₁)
    exact hf

theorem rows_mono (grows : Grows w w') (sound : ScopeSound w) :
    ∀ r ∈ w.rows, ∃ k ∈ w'.sessions, w'.RowSound k r := by
  intro r hr
  obtain ⟨k, hk, h⟩ := sound.rows r hr
  exact h.mono grows hk

variable (sound : ScopeSound w)

include sound

theorem write_rowSound {c : Connection}
    (hheld : ∃ k ∈ w.sessions, k.id = c.session ∧ k.userId = c.identity.userId ∧ SameKind
      c.scope.sessionType k.sessionType) {st : ScopeWrite}
    (due : st.Due c.session (fun _ => True) (w.Persists c) (w.Recorded c))
    {rows : List SessionScopeRow} (hw : w.write st = some rows) :
    ∀ r ∈ rows, ∃ k ∈ w.sessions, w.RowSound k r := by
  obtain ⟨k, hk, hid, huser, same⟩ := hheld
  intro r hr
  cases st with
  | upsertRead K n addedVia reason =>
    obtain ⟨rfl, -, classed⟩ := due
    have hcreated : addedVia = .created → w.CreatedFor k.sessionType k.id k.userId n := by
      intro hvia
      rcases classed with ⟨h, -⟩ | ⟨q, hq, hn, hclass, -⟩
      · exact absurd (hvia.symm.trans h) (by decide)
      · rw [hid, huser]
        refine (hq ?_ n hn).of_sameKind same
        rw [hvia] at hclass
        cases hq' : q.addedVia with
        | none =>
          rw [hq'] at hclass
          exact absurd hclass (by decide)
        | some via =>
          rw [hq'] at hclass
          exact congrArg some hclass.symm
    simp only [write] at hw
    split at hw
    next =>
      cases hw
      unfold upsertSessionScopeRead at hr
      split at hr
      next =>
        obtain ⟨r₀, hr₀, rfl⟩ := List.mem_map.mp hr
        obtain ⟨k', hk', h⟩ := sound.rows r₀ hr₀
        split
        next hsame =>
          have heq : k' = k := sound.consistent.eq_of_id hk' hk
            (h.session.trans (hsame.1.trans hid.symm))
          subst heq
          exact ⟨k', hk, h.session, h.writable, fun hvia => hsame.2.1 ▸ hcreated hvia⟩
        next => exact ⟨k', hk', h⟩
      next =>
        rcases List.mem_append.mp hr with hr | hr
        · exact sound.rows r hr
        · rw [List.mem_singleton.mp hr]
          exact ⟨k, hk, hid, fun h => absurd h Bool.false_ne_true, hcreated⟩
    next => simp at hw
  | setWritable K n =>
    obtain ⟨rfl, persists⟩ := due
    cases hw
    obtain ⟨r₀, hr₀, rfl⟩ := List.mem_map.mp hr
    obtain ⟨k', hk', h⟩ := sound.rows r₀ hr₀
    split
    next hsame =>
      have heq : k' = k := sound.consistent.eq_of_id hk' hk
        (h.session.trans (hsame.1.trans hid.symm))
      subst heq
      refine ⟨k', hk, h.session, fun _ => ?_, h.created⟩
      rw [hsame.2]
      rcases persists with h | h | ⟨k'', hk'', hid'', hn⟩
      · exact .inl h
      · rw [hid, huser]
        exact .inr (.inr (h.of_sameKind same))
      · have heq := sound.consistent.eq_of_id hk'' hk (hid''.trans hid.symm)
        exact .inr (.inl (heq ▸ hn))
    next => exact ⟨k', hk', h⟩

theorem session_of_writes (hc : c ∈ w.connections) (hwrites : c.scope.writes ≠ []) :
    ∃ k ∈ w.sessions, k.id = c.session ∧ k.userId = c.identity.userId ∧
      SameKind c.scope.sessionType k.sessionType := by
  have hsound := sound.connections c hc
  have hlisteners : c.scope.listeners ≠ none := fun h => hwrites (hsound.scope.idle h).2
  have hbound : c.binding ≠ .fresh := by
    rw [sound.consistent.wired c hc hlisteners]
    exact fun h => nomatch h
  obtain ⟨k, hk, hid, huser⟩ := sound.consistent.held c hc hbound
  obtain ⟨k', hk', hid', same⟩ := hsound.kind hbound
  have heq := sound.consistent.eq_of_id hk hk' (hid.trans hid'.symm)
  exact ⟨k, hk, hid, huser, heq ▸ same⟩

theorem deliver_rowSound (hc : c ∈ w.connections) {statement : ScopeWrite} {rest : List ScopeWrite}
    (hchain : statement :: rest ∈ c.scope.writes) :
    ∀ r ∈ (w.write statement).getD w.rows, ∃ k ∈ w.sessions, w.RowSound k r := by
  cases hw : w.write statement with
  | none => exact sound.rows
  | some written =>
    exact write_rowSound sound (session_of_writes sound hc (List.ne_nil_of_mem hchain))
      ((sound.connections c hc).scope.writes _ hchain _ List.mem_cons_self) hw

theorem scopeSound_step (careful : Careful casing w a) (hstep : step casing w a = some w') :
    ScopeSound w' := by
  have grows := step_grows hstep
  have consistent := consistent_step sound.consistent hstep
  have rows := rows_mono grows sound
  have others : ∀ c ∈ w.connections, w'.ConnectionSound c :=
    fun c hc => (sound.connections c hc).mono grows
  cases step_cases hstep with
  | openConnection req row _ hrow =>
    refine ⟨consistent, rows, fun c hc => ?_⟩
    rcases List.mem_append.mp hc with hc | hc
    · exact others c hc
    · rw [List.mem_singleton.mp hc]
      exact (connect_sound sound hrow careful).mono grows
  | call i c call g hc hg =>
    have hsound := others c (List.mem_of_getElem? hc)
    refine ⟨consistent, rows, fun c' hc' => connections_modify grows sound hc ?_ hc'⟩
    refine hsound.withScope ?_ perform_sessionType (hsound.scope.perform (respond_fits rfl))
    refine SessionScope.run_homeNodeId_of_forall rfl fun h he => ?_
    rw [hsound.anchored]
    exact respond_anchor careful hc he
  | insertSession i c hc hfresh hnone _ =>
    have hsound := others c (List.mem_of_getElem? hc)
    refine ⟨consistent, rows, fun c' hc' => connections_modify grows sound hc ?_ hc'⟩
    have hnew : (⟨c.session, c.identity.userId, c.homeNodeId, c.scope.sessionType, .running⟩ :
        SessionRow) ∈ w.sessions ++
          [⟨c.session, c.identity.userId, c.homeNodeId, c.scope.sessionType, .running⟩] :=
      List.mem_append_right _ (List.mem_singleton_self _)
    exact ⟨hsound.anchored, fun _ => ⟨_, hnew, rfl, Iff.rfl, Iff.rfl⟩,
      fun _ n hn => .inr ⟨_, hnew, rfl, hn⟩, hsound.scope⟩
  | bindSession i c hc hinserted =>
    have hsound := others c (List.mem_of_getElem? hc)
    refine ⟨consistent, rows, fun c' hc' => connections_modify grows sound hc ?_ hc'⟩
    have hbind : c.binding ≠ .fresh := by
      rw [hinserted]
      exact fun h => nomatch h
    have hwire := Justified.wireOngoingSync (s := { c.scope with sessionId := some c.session })
      { hsound.scope with } (fun n hn => hn.persists)
      fun n hn => ⟨trivial, (hsound.inserted hinserted n hn).imp (fun h => h) .inr⟩
    have hbound := hsound.withScope
      (s := ({ c.scope with sessionId := some c.session }.wireOngoingSync c.session
        c.homeNodeId).runMicrotasks) rfl rfl hwire.runMicrotasks
    exact ⟨hbound.anchored, fun _ => hbound.kind hbind, fun h => (nomatch h), hbound.scope⟩
  | deliver i j c statement rest hc hj =>
    have hmem := List.mem_of_getElem? hc
    have hsound := others c hmem
    have hchain : statement :: rest ∈ c.scope.writes := List.mem_of_getElem? hj
    refine ⟨consistent, ?_, fun c' hc' => connections_modify grows sound hc ?_ hc'⟩
    · intro r hr
      obtain ⟨k, hk, h⟩ := deliver_rowSound sound hmem hchain r hr
      exact h.mono grows hk
    · refine hsound.withScope rfl rfl (Justified.withWrites hsound.scope ?_ ?_)
      · intro chain hmem' st hst
        split at hmem'
        next => exact ⟨chain, List.mem_of_mem_eraseIdx hmem', hst⟩
        next =>
          rcases List.mem_or_eq_of_mem_set hmem' with h | rfl
          · exact ⟨chain, h, hst⟩
          · exact ⟨_, hchain, List.mem_cons_of_mem _ hst⟩
      · intro h
        rw [h] at hchain
        simp at hchain
  | lose i j c hc hj =>
    have hsound := others c (List.mem_of_getElem? hc)
    refine ⟨consistent, rows, fun c' hc' => connections_modify grows sound hc ?_ hc'⟩
    refine hsound.withScope rfl rfl (Justified.withWrites hsound.scope ?_ ?_)
    · exact fun chain hchain st hst => ⟨chain, List.mem_of_mem_eraseIdx hchain, hst⟩
    · intro h
      simp [h]
  | startSession row _ _ | setState id state | changeGraph g _ _ => exact ⟨consistent, rows, others⟩
  | purge nodeId =>
    exact ⟨consistent, fun r hr => rows r (List.mem_filter.mp hr).1, others⟩

omit sound

theorem scopeSound_run {g : Graph} {acts : List Action}
    (run : Run (step casing) (Careful casing) (start g) acts w) : ScopeSound w := by
  refine run.inv ScopeSound ⟨consistent_start g, ?_, ?_⟩ fun _ _ _ h ha hs => scopeSound_step h ha hs
  · simp [start]
  · simp [start]

end World

open World

variable {casing : Casing} {g : Graph} {acts : List Action} {w : World} {i : ℕ} {c : Connection}
  {n : String} {outcome : ElicitOutcome}

/-- In a run whose connections attach to sessions of their own kind and whose
`portuni_session_init` calls name the anchor, the write gate lets a change of an existing node
through only if the node is the anchor of the connection, was created for the session, or has
been granted by an accepted write dialog; headless sessions have no such dialogs. -/
theorem write_scope_confined (run : Run (step casing) (Careful casing) (start g) acts w)
    (hc : w.connections[i]? = some c) (hty : c.scope.sessionType ≠ .env)
    (hn : w.graph.has n = true) (ok : (guardNodeWrite c.scope n outcome).answer = .ok) :
    c.anchor = some n ∨ w.CreatedFor c.scope.sessionType c.session c.identity.userId n ∨
      (c.scope.sessionType ≠ .headless ∧
        (outcome = .accept ∨ (c.session, .accepted .write n) ∈ w.log)) := by
  have sound := scopeSound_run run
  have hsound := sound.connections c (List.mem_of_getElem? hc)
  obtain ⟨node, hnode, rfl⟩ := Graph.has_iff.mp hn
  rcases guardNodeWrite_ok_iff.mp ok with h | h | h | ⟨hheadless, haccept⟩
  · exact absurd h hty
  · exact .inl (hsound.anchored ▸ h)
  · rcases (hsound.scope.writeSet _ h).2 with h | (h | h) | h
    · exact absurd h (sound.consistent.alive node hnode)
    · exact .inr (.inl h)
    · exact .inr (.inr ⟨h.1, .inr h.2⟩)
    · exact .inl h.1
  · exact .inr (.inr ⟨hheadless, .inl haccept⟩)

def twoNodes : Graph where
  nodes := [⟨"A", "Home", "project", .team, .private_, "u", false⟩,
    ⟨"B", "Other", "project", .team, .private_, "u", false⟩]

def asciiCasing : Casing := ⟨id, id⟩

def headlessToken : RequestIdentity := ⟨.deviceToken, true, ⟨false, [], [], "u"⟩⟩

def ownCreation : List Action :=
  [.openConnection { identity := headlessToken, homeNodeId := some "A", ulid := "S" },
    .insertSession 0, .bindSession 0, .call 0 (.sessionInit ⟨some "A", none⟩),
    .call 0 (.createNode ⟨⟨"N", "New", "project", .team, .private_, "u", false⟩, none⟩)]

theorem write_scope_confined_ownCreation :
    ∃ w c, Run (step asciiCasing) (Careful asciiCasing) (start twoNodes) ownCreation w ∧
      w.connections[0]? = some c ∧ (guardNodeWrite c.scope "N" .decline).answer = .ok ∧
      (c.anchor = some "N" ∨ w.CreatedFor c.scope.sessionType c.session c.identity.userId "N" ∨
        (c.scope.sessionType ≠ .headless ∧
          (ElicitOutcome.decline = .accept ∨ (c.session, .accepted .write "N") ∈ w.log))) := by
  have hfinal : ((exec (step asciiCasing) (start twoNodes) ownCreation).bind fun w =>
      w.connections[0]?.map fun c => (w, c)).any (fun p =>
        decide (p.2.scope.sessionType ≠ .env ∧ p.1.graph.has "N" = true ∧
          (guardNodeWrite p.2.scope "N" .decline).answer = .ok)) = true := by
    decide +kernel
  obtain ⟨⟨w, c⟩, hmem, hfacts⟩ := (Option.any_eq_true _ _).mp hfinal
  obtain ⟨w', hw, hc⟩ := Option.bind_eq_some_iff.mp hmem
  obtain ⟨c', hc', heq⟩ := Option.map_eq_some_iff.mp hc
  obtain ⟨rfl, rfl⟩ := Prod.mk.inj heq
  obtain ⟨hty, hn, ok⟩ := of_decide_eq_true hfacts
  have run := Run.of_exec hw (by decide +kernel : allowedAlong (step asciiCasing)
    (Careful asciiCasing) (start twoNodes) ownCreation = true)
  exact ⟨w', c', run, hc', ok, write_scope_confined run hc' hty hn ok⟩

/-- The headless session names the other node in `portuni_session_init`. -/
def reanchored : List Action :=
  [.openConnection { identity := headlessToken, homeNodeId := some "A", ulid := "S" },
    .insertSession 0, .bindSession 0, .call 0 (.sessionInit ⟨some "B", none⟩)]

/-- Its write gate then lets changes of that node through, without a creation or a dialog. -/
theorem reanchored_writes :
    ∃ w c, Run (step asciiCasing) (fun _ _ => True) (start twoNodes) reanchored w ∧
      w.connections[0]? = some c ∧ c.scope.sessionType = .headless ∧ w.graph.has "B" = true ∧
      (guardNodeWrite c.scope "B" .decline).answer = .ok ∧ c.anchor = some "A" ∧ w.log = [] := by
  have hfinal : ((exec (step asciiCasing) (start twoNodes) reanchored).bind fun w =>
      w.connections[0]?.map fun c => (w, c)).any (fun p =>
        decide (p.2.scope.sessionType = .headless ∧ p.1.graph.has "B" = true ∧
          (guardNodeWrite p.2.scope "B" .decline).answer = .ok ∧ p.2.anchor = some "A" ∧
          p.1.log = [])) = true := by
    decide +kernel
  obtain ⟨⟨w, c⟩, hmem, hfacts⟩ := (Option.any_eq_true _ _).mp hfinal
  obtain ⟨w', hw, hc⟩ := Option.bind_eq_some_iff.mp hmem
  obtain ⟨c', hc', heq⟩ := Option.map_eq_some_iff.mp hc
  obtain ⟨rfl, rfl⟩ := Prod.mk.inj heq
  exact ⟨w', c', Run.of_exec_eq_some hw, hc', of_decide_eq_true hfacts⟩

variable {acts' : List Action} {a : Action} {w' : World}

def SessionScopeRow.key (r : SessionScopeRow) : String × String := (r.sessionId, r.nodeId)

/-- The class is the old one, with its reason, or outranks it; a grant is not taken back. -/
def SessionScopeRow.Becomes (r r' : SessionScopeRow) : Prop :=
  r'.key = r.key ∧ (r.writable = true → r'.writable = true) ∧
    (r'.addedVia = r.addedVia ∧ r'.reason = r.reason ∨
      addedViaRank r.addedVia < addedViaRank r'.addedVia)

theorem SessionScopeRow.Becomes.refl (r : SessionScopeRow) : r.Becomes r :=
  ⟨rfl, id, .inl ⟨rfl, rfl⟩⟩

theorem SessionScopeRow.Becomes.trans {r r' r'' : SessionScopeRow} (h : r.Becomes r')
    (h' : r'.Becomes r'') : r.Becomes r'' := by
  refine ⟨h'.1.trans h.1, h'.2.1 ∘ h.2.1, ?_⟩
  obtain ⟨hvia, hreason⟩ | hlt := h.2.2 <;> obtain ⟨hvia', hreason'⟩ | hlt' := h'.2.2
  · exact .inl ⟨hvia'.trans hvia, hreason'.trans hreason⟩
  · exact .inr (hvia ▸ hlt')
  · exact .inr (hvia' ▸ hlt)
  · exact .inr (hlt.trans hlt')

theorem write_becomes {st : ScopeWrite} {rows : List SessionScopeRow}
    (h : w.write st = some rows) : ∃ f, (∀ r : SessionScopeRow, r.Becomes (f r)) ∧
      (rows = w.rows.map f ∨ ∃ r, (∀ r' ∈ w.rows, r'.key ≠ r.key) ∧ rows = w.rows ++ [r]) := by
  cases st with
  | upsertRead k n addedVia reason =>
    obtain ⟨-, h⟩ := Option.ite_none_right_eq_some.mp h
    cases h
    unfold upsertSessionScopeRead
    split
    · refine ⟨_, fun r => ?_, .inl rfl⟩
      split
      next h => exact ⟨rfl, id, .inr h.2.2⟩
      next => exact .refl r
    next hnew =>
      refine ⟨id, .refl, .inr ⟨_, fun r hr hkey => hnew ?_, rfl⟩⟩
      refine List.any_eq_true.mpr ⟨r, hr, decide_eq_true (Prod.mk.inj hkey)⟩
  | setWritable k n =>
    cases h
    refine ⟨_, fun r => ?_, .inl rfl⟩
    split
    · exact ⟨rfl, fun _ => rfl, .inl ⟨rfl, rfl⟩⟩
    · exact .refl r

theorem rows_step (hstep : step casing w a = some w') (nodup : (w.rows.map (·.key)).Nodup) :
    (w'.rows.map (·.key)).Nodup ∧
      ∀ r ∈ w.rows, r.nodeId ∈ w'.purged ∨ ∃ r' ∈ w'.rows, r.Becomes r' := by
  cases step_cases hstep with
  | deliver i j c statement rest _ _ =>
    cases hwrite : w.write statement with
    | none => exact ⟨nodup, fun r hr => .inr ⟨r, hr, .refl r⟩⟩
    | some rows =>
      obtain ⟨f, hf, rfl | ⟨r, hnew, rfl⟩⟩ := write_becomes hwrite
      · have hkeys : (w.rows.map f).map (·.key) = w.rows.map (·.key) := by simp [(hf _).1]
        exact ⟨hkeys ▸ nodup, fun r hr => .inr ⟨_, List.mem_map_of_mem hr, hf r⟩⟩
      · refine ⟨?_, fun r' hr' => .inr ⟨r', List.mem_append_left _ hr', .refl r'⟩⟩
        have hnew : r.key ∉ w.rows.map (·.key) := by simpa using hnew
        simpa [Option.getD] using List.nodup_append_comm.mp (nodup.cons hnew)
  | purge nodeId =>
    refine ⟨nodup.sublist (List.filter_sublist.map _), fun r hr => ?_⟩
    by_cases hnode : r.nodeId = nodeId
    · exact .inl (by simp [purge, hnode])
    · exact .inr ⟨r, List.mem_filter.mpr ⟨hr, by simpa using hnode⟩, .refl r⟩
  | openConnection | call | insertSession | bindSession | lose | startSession | setState
  | changeGraph => exact ⟨nodup, fun r hr => .inr ⟨r, hr, .refl r⟩⟩

/-- Over all interleavings of the connections and whatever statements fail: a node has one row in a
session, which stays until the node is purged, and whose class is never downgraded. -/
theorem scope_rows_escalate (run : Run (step casing) (fun _ _ => True) (start g) acts w)
    (later : Run (step casing) (fun _ _ => True) w acts' w') :
    (w'.rows.map (·.key)).Nodup ∧ (∀ r ∈ w'.rows, ∃ k ∈ w'.sessions, k.id = r.sessionId) ∧
      ∀ r ∈ w.rows, r.nodeId ∈ w'.purged ∨ ∃ r' ∈ w'.rows, r.Becomes r' := by
  have nodup : (w.rows.map (·.key)).Nodup :=
    run.inv (fun w => (w.rows.map (·.key)).Nodup) .nil fun _ _ _ h _ hs => (rows_step hs h).1
  have consistent : Consistent w' :=
    (run.trans later).inv Consistent (consistent_start g) fun _ _ _ h _ hs => consistent_step h hs
  have hrows := later.inv
    (fun w' => (w'.rows.map (·.key)).Nodup ∧
      ∀ r ∈ w.rows, r.nodeId ∈ w'.purged ∨ ∃ r' ∈ w'.rows, r.Becomes r')
    ⟨nodup, fun r hr => .inr ⟨r, hr, .refl r⟩⟩ fun v _ v' h _ hs => by
      obtain ⟨nodup', hstep⟩ := rows_step hs h.1
      refine ⟨nodup', fun r hr => ?_⟩
      rcases h.2 r hr with hpurged | ⟨r', hr', hbecomes⟩
      · exact .inl ((step_grows hs).purged _ hpurged)
      · refine (hstep r' hr').imp (fun hp => ?_) fun ⟨r'', hr'', h''⟩ => ⟨r'', hr'', hbecomes.trans h''⟩
        exact (Prod.mk.inj hbecomes.1).2 ▸ hp
  exact ⟨hrows.1, consistent.rows, hrows.2⟩

theorem scope_rows_escalate_ownCreation : ∃ w w',
    exec (step asciiCasing) (start twoNodes) ownCreation = some w ∧
    exec (step asciiCasing) w [.deliver 0 0, .purge "B"] = some w' ∧
    ∀ r ∈ w'.rows, ∃ k ∈ w'.sessions, k.id = r.sessionId := by
  obtain ⟨w', hw'⟩ := Option.isSome_iff_exists.mp (by decide +kernel :
    ((exec (step asciiCasing) (start twoNodes) ownCreation).bind fun w =>
      exec (step asciiCasing) w [.deliver 0 0, .purge "B"]).isSome = true)
  obtain ⟨w, hw, hlater⟩ := Option.bind_eq_some_iff.mp hw'
  refine ⟨w, w', hw, hlater, ?_⟩
  exact (scope_rows_escalate (Run.of_exec_eq_some hw) (Run.of_exec_eq_some hlater)).2.1

end Portuni.McpScope
