import Portuni.RestGate.Rows

/-!
One step keeps every connection in line with the rows of its session.
-/

namespace Portuni.RestGate

open McpScope World Library.Runs

variable {casing : Casing} {w w' : World} {a : Action} {i j : ℕ} {c c' : Connection} {n : String}

theorem getElem?_concat_cases {l : List Connection} (h : (l ++ [c'])[j]? = some c) :
    l[j]? = some c ∨ (j = l.length ∧ c = c') := by
  rcases Nat.lt_or_ge j l.length with hj | hj
  · exact .inl (List.getElem?_append_left hj ▸ h)
  · rw [List.getElem?_append_right hj] at h
    have hj' : j - l.length = 0 := by
      by_contra hne
      rw [List.getElem?_eq_none (by simp; omega)] at h
      nomatch h
    rw [hj'] at h
    exact .inr ⟨by omega, (Option.some.inj h).symm⟩

section

variable {req : OpenRequest} {row : Option SessionRow} {k : SessionRow}

theorem connect_anchor
    (bare : k.nodeId = none → ∀ home ∈ req.homeNodeId, w.graph.has home = false) :
    (w.connect casing req (some k)).anchor = k.nodeId := by
  cases hnode : k.nodeId with
  | some n => exact connect_anchor_of_nodeId hnode
  | none =>
    have hhome : (w.rehydratedScope casing req.identity
        (w.attachedScope req (some k))).homeNodeId = none := by
      rw [rehydratedScope_homeNodeId, attachedScope_homeNodeId]
      exact hnode
    refine SessionScope.run_homeNodeId_of_forall hhome fun h he => ?_
    obtain ⟨url, hurl, hhas, -, -⟩ := autoSeedFromHome_effect he
    rw [hhome, Option.getD_none] at hhas
    exact absurd hhas (by simp [bare hnode url hurl])

theorem writeSet_openScope {s : SessionScope} (hs : s = w.attachedScope req row)
    (h : n ∈ s.writeSet) : n ∈ (w.openScope casing req row).writeSet := by
  subst hs
  refine writeSet_perform ?_
  unfold rehydratedScope
  split
  · exact writeSet_perform h
  · exact h

theorem queued_openScope (h : n ∈ (w.openScope casing req (some k)).writeSet) :
    Queued k.id (w.openScope casing req (some k)) n := by
  have hattached : (w.attachedScope req (some k)).listeners = some k.id := rfl
  have hrehydrated : (w.rehydratedScope casing req.identity
      (w.attachedScope req (some k))).listeners = some k.id := by
    rw [rehydratedScope_listeners, hattached]
  rcases queued_perform hrehydrated h with h | h
  · refine Queued.perform ?_
    have start : ∀ m ∈ (w.attachedScope req (some k)).writeSet,
        Queued k.id (w.attachedScope req (some k)) m :=
      fun m hm => queued_wireOngoingSync hm
    unfold rehydratedScope at h ⊢
    split at h
    next hchat =>
      rw [if_pos hchat]
      rcases queued_perform hattached h with h | h
      · exact (start n h).perform
      · exact h
    next hchat =>
      rw [if_neg hchat]
      exact start n h
  · exact h

theorem mem_writeSet_replay {r : SessionScopeRow} (hr : r ∈ w.getSessionScope k.id)
    (hw : r.writable = true) : r.nodeId ∈ (w.attachedScope req (some k)).writeSet := by
  refine SessionScope.mem_run_writeSet.mpr (.inr ?_)
  refine List.mem_append_left _ (List.mem_flatMap.mpr ⟨r, hr, ?_⟩)
  simp [hw]

theorem justified_openScope {P : String → Prop}
    (grants : ∀ n ∈ (w.openScope casing req row).writeSet, P n)
    (home : ∀ k ∈ row, ∀ n ∈ k.nodeId, P n) :
    Justified (w.connect casing req row).session (fun _ => True)
      (· ∈ (w.openScope casing req row).writeSet) P (fun _ => True)
      (w.openScope casing req row) := by
  have attached : Justified (w.connect casing req row).session (fun _ => True)
      (· ∈ (w.openScope casing req row).writeSet) P (fun _ => True) (w.attachedScope req row) := by
    cases hrow : row with
    | none => exact .new _
    | some k =>
      subst hrow
      refine Justified.runMicrotasks (Justified.wireOngoingSync (Justified.run_within ?_
        (fun _ => trivial) (fun _ => trivial) fun n hn => ?_) grants
          fun n hn => ⟨trivial, home k rfl n hn⟩)
      · exact { Justified.new (deriveSessionType req.identity) with }
      · exact writeSet_openScope rfl hn
  have within : ∀ n ∈ (w.rehydratedScope casing req.identity (w.attachedScope req row)).writeSet,
      n ∈ (w.openScope casing req row).writeSet := fun n h => writeSet_perform h
  refine (Justified.run_within ?_ (fun _ => trivial) (fun _ => trivial) fun _ h => h).runMicrotasks
  change Justified _ _ (· ∈ (w.openScope casing req row).writeSet) P _ _
  generalize (w.openScope casing req row).writeSet = W at attached within
  unfold rehydratedScope at within ⊢
  split
  next hchat =>
    rw [if_pos hchat] at within
    exact (Justified.run_within attached (fun _ => trivial) (fun _ => trivial) within).runMicrotasks
  next => exact attached

end

def Mirrored (w : World) : Prop := ∀ i c, w.connections[i]? = some c → Mirrors w i c

theorem has_of_freshIds {g : Graph} (fresh : FreshIds w g) (hc : w.connections[i]? = some c) :
    ∀ n ∈ c.scope.writeSet, g.has n = true → w.graph.has n = true := by
  intro n hn hhas
  by_contra hnot
  obtain ⟨node, hnode, rfl⟩ := Graph.has_iff.mp hhas
  exact fresh node hnode (by simpa using hnot) c (List.mem_of_getElem? hc) hn

theorem bound_of_pending (sound : ScopeSound w) (hc : w.connections[i]? = some c)
    (h : Pending c.scope) : c.binding = .bound := by
  have hmem := List.mem_of_getElem? hc
  refine sound.consistent.wired c hmem fun hnone => ?_
  have hidle := (sound.connections c hmem).scope.idle hnone
  simp [Pending, hidle] at h

theorem sessionAt_keeps (sound : ScopeSound w) (hstep : step casing w a = some w')
    (hc : w.connections[i]? = some c) :
    c.binding ≠ .fresh → ∀ n, w'.SessionAt c.session n → w.SessionAt c.session n := by
  intro hb n hat
  obtain ⟨k, hk, hid, -⟩ := sound.consistent.held c (List.mem_of_getElem? hc) hb
  exact sessionAt_of_step hstep ⟨k, hk, hid⟩ hat

theorem pending_deliver {st : ScopeWrite} {rest : List ScopeWrite} {p : ℕ}
    (hj : c.scope.writes[p]? = some (st :: rest))
    (h : Pending { c.scope with writes := leftAfter w c p st rest }) : Pending c.scope := by
  rcases h with h | ⟨chain, hchain, st', hst, hgrants⟩
  · exact .inl h
  · obtain ⟨chain', hchain', hst'⟩ := statement_of_leftAfter hj hchain hst
    exact .inr ⟨chain', hchain', st', hst', hgrants⟩

theorem unbound_of_modify {f : Connection → Connection}
    (h : ∀ c' ∈ w.connections.modify i f, c'.session = c.session → c'.binding ≠ .bound)
    (session : ∀ c, (f c).session = c.session)
    (bound : ∀ c, c.binding = .bound → (f c).binding = .bound) :
    ∀ c' ∈ w.connections, c'.session = c.session → c'.binding ≠ .bound := by
  intro c' hc' hsession hbound
  obtain ⟨p, hp⟩ := List.mem_iff_getElem?.mp hc'
  refine h _ (List.mem_of_getElem? (getElem?_modify_of_some hp)) ?_ ?_
  · split
    · exact (session c').trans hsession
    · exact hsession
  · split
    · exact bound c' hbound
    · exact hbound

variable (sound : ScopeSound w)

include sound

variable (mirrored : Mirrored w)

include mirrored

theorem mirrored_open {req : OpenRequest} {row : Option SessionRow}
    (orderly : Orderly casing w (.openConnection req)) (hrow : w.attachment req = some row)
    (grows : Grows w w')
    (anchored : ∀ (j : ℕ) (c : Connection), w.connections[j]? = some c → c.binding ≠ .fresh → ∀ n,
      w'.SessionAt c.session n → w.SessionAt c.session n)
    (atNode : ∀ k ∈ w.sessions, ∀ n, w'.SessionAt k.id n → w.SessionAt k.id n)
    (rows : w'.rows = w.rows) (graph : w'.graph = w.graph)
    (connections : w'.connections = w.connections ++ [w.connect casing req row]) : Mirrored w' := by
  intro j c hj
  rw [connections] at hj
  rcases getElem?_concat_cases hj with hold | ⟨rfl, rfl⟩
  · refine (mirrored j c hold).keep_rows grows (anchored j c hold) (fun n _ h => graph ▸ h) rows
      ?_ ?_ ?_
    · intro hp hl p c' hjp hp' hsession
      rw [connections] at hp'
      rcases getElem?_concat_cases hp' with hp' | ⟨-, rfl⟩
      · exact hl p c' hjp hp' hsession
      · cases row with
        | none => exact Binding.noConfusion
        | some k =>
          have hpend := (orderly k hrow).1 c (List.mem_of_getElem? hold) hsession.symm
          exact absurd hp hpend
    · exact fun hl => (connections ▸ hl).of_append
    · exact fun hall c' hc' => hall c' (connections ▸ List.mem_append_left _ hc')
  · have last : Latest w'.connections w.connections.length (w.connect casing req row) := by
      intro p c' hp hp' _
      rw [connections, List.getElem?_eq_none (by simp; omega)] at hp'
      simp at hp'
    cases hcase : row with
    | none =>
      subst hcase
      have fresh : ∀ {b : Binding}, b ≠ .fresh → (w.connect casing req none).binding ≠ b :=
        fun hne h => hne h.symm
      refine ⟨fun h => absurd h (fresh (by decide)), fun h => absurd rfl h, ?_, fun _ => last,
        fun h => absurd h (fresh (by decide)), fun h => absurd h (fresh (by decide)),
        fun h => absurd h (fresh (by decide))⟩
      exact justified_openScope (fun n hn => .inl hn) (by simp)
    | some k =>
      subst hcase
      obtain ⟨hk, -⟩ := attachment_eq_some hrow
      have hanchor : (w.connect casing req (some k)).anchor = k.nodeId :=
        connect_anchor (orderly k hrow).2
      have hat : ∀ n, w.SessionAt k.id n ↔ k.nodeId = some n := by
        refine fun n => ⟨?_, fun hn => ⟨k, hk, rfl, hn⟩⟩
        rintro ⟨k', hk', hid, hn⟩
        exact sound.consistent.eq_of_id hk' hk hid ▸ hn
      refine ⟨fun _ => openScope_listeners, fun _ n => ⟨fun hn => ?_, fun hn => ?_⟩, ?_,
        fun _ => last, fun _ n hn _ => .inr (.inl (queued_openScope hn)), fun _ _ n hn => ?_,
        Binding.noConfusion⟩
      · exact ((hat n).mpr (hanchor.symm.trans hn)).mono grows
      · exact hanchor.trans ((hat n).mp (atNode k hk n hn))
      · refine justified_openScope (fun n hn => .inl hn) fun k' hk' n hn => .inr ?_
        cases hk'
        exact ((hat n).mpr hn).mono grows
      · obtain ⟨r, hr, hid, rfl, hw⟩ := hn
        have hmem : r ∈ w.getSessionScope k.id :=
          List.mem_filter.mpr ⟨rows ▸ hr, decide_eq_true hid⟩
        exact .inl (writeSet_openScope rfl (mem_writeSet_replay hmem hw))

theorem mirrored_call {call : Call} {g : Graph} (orderly : Orderly casing w (.call i call))
    (hstep : step casing w (.call i call) = some w') (hc : w.connections[i]? = some c)
    (hg : w.graphAfter casing c call = some g) (rows : w'.rows = w.rows) (graph : w'.graph = g)
    (connections : w'.connections = w.connections.modify i fun c' =>
      { c' with scope := c'.scope.perform (respond casing w.graph c call).effects }) :
    Mirrored w' := by
  have grows := step_grows hstep
  have fresh := (orderly c hc).2 g hg
  have modified : ∀ j c, Latest w.connections j c ↔ Latest w'.connections j c := by
    intro j c
    rw [connections]
    exact ⟨fun h => h.modify (fun _ => rfl) fun _ h => h,
      fun h => h.of_modify (fun _ => rfl) fun _ h => h⟩
  have kept : ∀ j c, w.connections[j]? = some c → Mirrors w' j c := by
    intro j c hj
    refine (mirrored j c hj).keep_rows grows (sessionAt_keeps sound hstep hj) ?_ rows
      (fun _ => (modified j c).mp) (modified j c).mpr ?_
    · exact graph ▸ has_of_freshIds fresh hj
    · intro hall
      rw [connections] at hall
      exact unbound_of_modify hall (fun _ => rfl) fun _ h => h
  intro j c' hj
  rw [connections] at hj
  rcases getElem?_modify_cases hj with ⟨-, hj⟩ | ⟨rfl, c₀, hc₀, rfl⟩
  · exact kept j c' hj
  · obtain rfl := Option.some.inj (hc.symm.trans hc₀)
    refine (kept j c hc).perform fun hp => ?_
    rcases pending_run (pending_runMicrotasks hp) with hp | ⟨n, hn⟩
    · exact (kept j c hc).active hp
    · have hbound : c.binding = .bound := by
        refine sound.consistent.wired c (List.mem_of_getElem? hc) fun hnone => ?_
        have hidle := ((kept j c hc).due_perform
          (respond casing w.graph c call).effects).idle (perform_listeners.trans hnone)
        simp [Pending, hidle] at hp
      exact (modified j c).mp ((orderly c hc).1 hbound ⟨_, hn, rfl⟩)

theorem mirrored_insert (orderly : Orderly casing w (.insertSession i))
    (hstep : step casing w (.insertSession i) = some w') (hc : w.connections[i]? = some c)
    (hfresh : c.binding = .fresh) (hnone : w.getSession c.session = none) (rows : w'.rows = w.rows)
    (graph : w'.graph = w.graph)
    (sessions : w'.sessions = w.sessions ++ [⟨c.session, c.identity.userId, c.homeNodeId,
      c.scope.sessionType, .running⟩])
    (connections : w'.connections =
      w.connections.modify i fun c => { c with binding := .inserted }) : Mirrored w' := by
  have grows := step_grows hstep
  have kept : ∀ j c', w.connections[j]? = some c' → Mirrors w' j c' := by
    intro j c' hj
    have noBound : ∀ c', c'.binding = Binding.bound → ∀ p, w.connections[p]? = some c' → p ≠ i := by
      rintro c' hb p hp rfl
      obtain rfl := Option.some.inj (hc.symm.trans hp)
      rw [hfresh] at hb
      nomatch hb
    refine (mirrored j c' hj).keep_rows grows (sessionAt_keeps sound hstep hj)
      (fun n _ h => graph ▸ h) rows (fun _ h => ?_) (fun h => ?_) fun hall c'' hc'' => ?_
    · rw [connections]
      exact h.modify (fun _ => rfl) fun _ h => (nomatch h)
    · intro p c'' hjp hp hsession hb
      refine h p c'' hjp ?_ hsession hb
      rw [connections, getElem?_modify_of_some hp, if_neg (noBound c'' hb p hp).symm]
    · intro hsession hb
      obtain ⟨p, hp⟩ := List.mem_iff_getElem?.mp hc''
      refine hall c'' (List.mem_iff_getElem?.mpr ⟨p, ?_⟩) hsession hb
      rw [connections, getElem?_modify_of_some hp, if_neg (noBound c'' hb p hp).symm]
  intro j c' hj
  rw [connections] at hj
  rcases getElem?_modify_cases hj with ⟨-, hj⟩ | ⟨rfl, c₀, hc₀, rfl⟩
  · exact kept j c' hj
  · obtain rfl := Option.some.inj (hc.symm.trans hc₀)
    have h := kept j c hc
    have hat : ∀ n, w'.SessionAt c.session n ↔ c.homeNodeId = some n := by
      intro n
      constructor
      · rintro ⟨k, hk, hid, hn⟩
        rw [sessions] at hk
        rcases List.mem_append.mp hk with hk | hk
        · exact absurd hid (getSession_eq_none hnone k hk)
        · rwa [List.mem_singleton.mp hk] at hn
      · intro hn
        exact ⟨_, sessions ▸ List.mem_append_right _ (List.mem_singleton_self _), rfl, hn⟩
    refine ⟨fun h => (nomatch h), fun _ n => ⟨fun hn => ?_, fun hn => ?_⟩, h.due, h.active,
      fun h => (nomatch h), fun h => (nomatch h), fun _ _ r hr hid => ?_⟩
    · exact .inr ((hat n).mpr ((orderly c hc).symm.trans hn))
    · exact (orderly c hc).trans ((hat n).mp hn)
    · obtain ⟨k, hk, hid'⟩ := sound.consistent.rows r (rows ▸ hr)
      exact getSession_eq_none hnone k hk (hid'.trans hid)

theorem mirrored_bind (orderly : Orderly casing w (.bindSession i))
    (hstep : step casing w (.bindSession i) = some w') (hc : w.connections[i]? = some c)
    (hinserted : c.binding = .inserted) (rows : w'.rows = w.rows) (graph : w'.graph = w.graph)
    (purged : w'.purged = w.purged) (sessions : w'.sessions = w.sessions)
    (connections : w'.connections = w.connections.modify i fun c => { c with
        binding := .bound
        scope := ({ c.scope with sessionId := some c.session }.wireOngoingSync c.session
          c.homeNodeId).runMicrotasks }) : Mirrored w' := by
  have grows := step_grows hstep
  have unbound := orderly c hc
  intro j c' hj
  rw [connections] at hj
  rcases getElem?_modify_cases hj with ⟨-, hold⟩ | ⟨rfl, c₀, hc₀, rfl⟩
  · refine (mirrored j c' hold).keep_rows grows (sessionAt_keeps sound hstep hold)
      (fun n _ h => graph ▸ h) rows (fun hp hl => ?_) (fun h => ?_) fun hall => ?_
    · intro p c'' hjp hp' hsession hb
      rw [connections] at hp'
      rcases getElem?_modify_cases hp' with ⟨-, hp'⟩ | ⟨rfl, c₀, hc₀, rfl⟩
      · exact hl p c'' hjp hp' hsession hb
      · obtain rfl := Option.some.inj (hc.symm.trans hc₀)
        exact unbound c' (List.mem_of_getElem? hold) hsession.symm (bound_of_pending sound hold hp)
    · rw [connections] at h
      exact h.of_modify (fun _ => rfl) fun _ _ => rfl
    · rw [connections] at hall
      exact unbound_of_modify hall (fun _ => rfl) fun _ _ => rfl
  · obtain rfl := Option.some.inj (hc.symm.trans hc₀)
    have h := mirrored j c hc
    have hfresh : c.binding ≠ .fresh := by
      rw [hinserted]
      exact fun h => nomatch h
    have hat : ∀ n, w'.SessionAt c.session n ↔ w.SessionAt c.session n := by
      intro n
      rw [SessionAt, SessionAt, sessions]
    refine ⟨fun _ => rfl, fun _ n => ?_, ?_, fun _ => ?_,
      fun _ n hn _ => .inr (.inl (queued_wireOngoingSync hn)), fun _ _ n hn => ?_,
      fun h => (nomatch h)⟩
    · rw [hat, purged]
      exact h.anchored hfresh n
    · have unsent : Justified c.session (fun _ => True) (· ∈ c.scope.writeSet) (Backs w' c)
          (fun _ => True) { c.scope with sessionId := some c.session } := by
        refine { h.due.mono (fun _ h => h) (fun _ h => h) (fun _ h => h.mono grows) (fun _ h => h)
          fun _ _ _ h => .inl h with }
      refine (Justified.wireOngoingSync unsent (fun n hn => .inl hn) fun n hn =>
        ⟨trivial, .inr ?_⟩).runMicrotasks
      have hinv := (sound.connections c (List.mem_of_getElem? hc)).inserted hinserted n hn
      exact hinv.imp (fun h => purged ▸ h) (hat n).mpr
    · intro p c'' hjp hp hsession hb
      rw [connections] at hp
      rcases getElem?_modify_cases hp with ⟨-, hp⟩ | ⟨hpj, -⟩
      · exact unbound c'' (List.mem_of_getElem? hp) hsession hb
      · omega
    · obtain ⟨r, hr, hid, -⟩ := hn
      exact absurd hid (h.unwritten hinserted unbound r (rows ▸ hr))

theorem mirrored_deliver {p : ℕ} {st : ScopeWrite} {rest : List ScopeWrite}
    (hstep : step casing w (.deliver i p) = some w') (hc : w.connections[i]? = some c)
    (hp : c.scope.writes[p]? = some (st :: rest)) (rows : w'.rows = (w.write st).getD w.rows)
    (graph : w'.graph = w.graph)
    (connections : w'.connections = w.connections.modify i fun c' =>
      { c' with scope := { c'.scope with writes := leftAfter w c p st rest } }) : Mirrored w' := by
  have grows := step_grows hstep
  have hchain : st :: rest ∈ c.scope.writes := List.mem_of_getElem? hp
  have hdue := (mirrored i c hc).due.writes _ hchain st List.mem_cons_self
  have hbound : c.binding = .bound := by
    refine sound.consistent.wired c (List.mem_of_getElem? hc) fun hnone => ?_
    exact List.ne_nil_of_mem hchain ((mirrored i c hc).due.idle hnone).2
  have modified : ∀ j c, Latest w.connections j c ↔ Latest w'.connections j c := by
    intro j c
    rw [connections]
    exact ⟨fun h => h.modify (fun _ => rfl) fun _ h => h,
      fun h => h.of_modify (fun _ => rfl) fun _ h => h⟩
  have kept : ∀ j c', w.connections[j]? = some c' → Mirrors w' j c' := by
    intro j c' hj
    refine (mirrored j c' hj).keep grows (sessionAt_keeps sound hstep hj)
      (fun n _ h => graph ▸ h) (fun n _ r hr _ => rows ▸ rows_write hr)
      (fun _ => (modified j c').mp) (modified j c').mpr (fun hb hl n hn => ?_)
      fun hb hall => ?_
    · rcases stored_write rows hn with hn | rfl
      · exact .inl hn
      · -- a grant that is delivered is one of the latest connection
        have hlatest : Latest w.connections i c :=
          (mirrored i c hc).active (.inr ⟨_, hchain, _, List.mem_cons_self, rfl⟩)
        obtain rfl := hlatest.unique ((modified j c').mpr hl) hc hj hdue.1 hbound hb
        obtain rfl := Option.some.inj (hc.symm.trans hj)
        exact .inr (hdue.2.mono grows)
    · rw [connections] at hall
      have hall' := unbound_of_modify hall (fun _ => rfl) fun _ h => h
      refine ⟨hall', fun r hr hid => ?_⟩
      rcases row_of_write (rows ▸ hr) with ⟨r₀, hr₀, hid₀, -⟩ | ⟨-, addedVia, reason, rfl⟩
      · exact ⟨r₀, hr₀, hid₀.symm.trans hid⟩
      · exact absurd hbound (hall' c (List.mem_of_getElem? hc) (hdue.1.symm.trans hid))
  intro j c' hj
  rw [connections] at hj
  rcases getElem?_modify_cases hj with ⟨-, hj⟩ | ⟨rfl, c₀, hc₀, rfl⟩
  · exact kept j c' hj
  · obtain rfl := Option.some.inj (hc.symm.trans hc₀)
    have h := kept j c hc
    have hsession : (w.getSession c.session).isSome = true := by
      obtain ⟨k, hk, hid, -⟩ := session_of_writes sound (List.mem_of_getElem? hc)
        (List.ne_nil_of_mem hchain)
      exact List.find?_isSome.mpr ⟨k, hk, by simpa using hid⟩
    refine ⟨h.wired, h.anchored, ?_, fun hpend => h.active (pending_deliver hp hpend),
      fun hb n hn hhas => ?_, h.backed, h.unwritten⟩
    · refine Justified.withWrites h.due (fun chain hchain st' hst => ?_) fun hnil => ?_
      · exact statement_of_leftAfter hp hchain hst
      · rw [hnil] at hchain
        nomatch hchain
    · have hhas' : w.graph.has n = true := graph ▸ hhas
      exact ((mirrored j c hc).reached hb n hn hhas').deliver rows hp hhas' hsession

theorem mirrored_step (steady : Steady casing w a) (hstep : step casing w a = some w') :
    Mirrored w' := by
  have grows := step_grows hstep
  obtain ⟨-, orderly⟩ := steady
  have alone : w'.connections = w.connections → w'.rows = w.rows →
      (∀ (i : ℕ) (c : Connection), w.connections[i]? = some c → ∀ n ∈ c.scope.writeSet,
        w'.graph.has n = true → w.graph.has n = true) → Mirrored w' := by
    intro connections rows graph i c hc
    rw [connections] at hc
    refine (mirrored i c hc).keep_rows grows (sessionAt_keeps sound hstep hc) (graph i c hc) rows
      ?_ ?_ ?_
    · exact fun _ h => connections ▸ h
    · exact fun h => connections ▸ h
    · exact fun h => connections ▸ h
  cases step_cases hstep with
  | openConnection req row _ hrow =>
    refine mirrored_open sound mirrored orderly hrow grows ?_ ?_ rfl rfl rfl
    · exact fun j c hj => sessionAt_keeps sound hstep hj
    · exact fun k hk n hat => sessionAt_of_step hstep ⟨k, hk, rfl⟩ hat
  | call i c call g hc hg => exact mirrored_call sound mirrored orderly hstep hc hg rfl rfl rfl
  | insertSession i c hc hfresh hnone _ =>
    exact mirrored_insert sound mirrored orderly hstep hc hfresh hnone rfl rfl rfl rfl
  | bindSession i c hc hinserted =>
    exact mirrored_bind sound mirrored orderly hstep hc hinserted rfl rfl rfl rfl rfl
  | deliver i p c st rest hc hp => exact mirrored_deliver sound mirrored hstep hc hp rfl rfl rfl
  | lose => exact orderly.elim
  | startSession | setState => exact alone rfl rfl fun _ _ _ _ _ h => h
  | changeGraph g _ _ => exact alone rfl rfl fun _ _ hc => has_of_freshIds orderly hc
  | purge nodeId =>
    intro i c hc
    have hhas : ∀ n, (w.purge nodeId).graph.has n = true → n ≠ nodeId ∧ w.graph.has n = true := by
      intro n hn
      obtain ⟨node, hnode, rfl⟩ := Graph.has_iff.mp hn
      obtain ⟨hnode, hne⟩ := List.mem_filter.mp hnode
      exact ⟨by simpa using hne, Graph.has_iff.mpr ⟨node, hnode, rfl⟩⟩
    refine (mirrored i c hc).keep grows (sessionAt_keeps sound hstep hc)
      (fun n _ h => (hhas n h).2) (fun n hn r hr hrn => ?_) (fun _ h => h) (fun h => h)
      (fun _ _ n hn => .inl ?_) fun _ hall => ⟨hall, fun r hr hid => ?_⟩
    · refine ⟨r, List.mem_filter.mpr ⟨hr, ?_⟩, rfl, rfl, fun h => h⟩
      simpa [hrn] using (hhas n hn).1
    · obtain ⟨r, hr, hr'⟩ := hn
      exact ⟨r, (List.mem_filter.mp hr).1, hr'⟩
    · exact ⟨r, (List.mem_filter.mp hr).1, hid⟩

omit mirrored

omit sound

theorem mirrored_run {g : Graph} {acts : List Action}
    (run : Run (step casing) (Steady casing) (start g) acts w) : Mirrored w := by
  refine (run.inv (fun w => ScopeSound w ∧ Mirrored w) ⟨?_, fun i c hc => ?_⟩ ?_).2
  · exact scopeSound_run (show Run (step casing) (Careful casing) (start g) [] (start g) from .nil)
  · nomatch hc
  · rintro s a s' ⟨sound, mirrored⟩ steady hstep
    exact ⟨scopeSound_step sound steady.1 hstep, mirrored_step sound mirrored steady hstep⟩

end Portuni.RestGate
