import Portuni.McpScope.WriteScope

namespace Portuni.RestGate

/-!
How the rows of `session_scope` follow the write set of a connection: a grant is queued, its two
statements are under way, or it is stored; and what is stored was granted, as long as only the
last connection that is bound to a session goes on with it.
-/

section

open McpScope World Library.Runs

section

variable {K : String} {s : SessionScope} {effects : List Effect} {n : String}

def Queued (K : String) (s : SessionScope) (n : String) : Prop :=
  ∃ addedVia reason, [.upsertRead K n addedVia reason, .setWritable K n] ∈ s.writes

/-- A grant on its way to the rows of `K`. -/
def Granting (K : String) (s : SessionScope) (n : String) : Prop :=
  ⟨K, n, true⟩ ∈ s.microtasks ∨ Queued K s n

theorem queued_of_statements (h : (⟨K, n, true⟩ : Microtask) ∈ s.microtasks) :
    Queued K s.runMicrotasks n :=
  ⟨_, _, List.mem_append_right _ (List.mem_map_of_mem h)⟩

theorem Granting.runMicrotasks (h : Granting K s n) : Queued K s.runMicrotasks n := by
  rcases h with h | ⟨addedVia, reason, h⟩
  · exact queued_of_statements h
  · exact ⟨addedVia, reason, List.mem_append_left _ h⟩

theorem microtasks_add {m : String} {t : Microtask} (h : t ∈ s.microtasks) :
    t ∈ (s.add m).microtasks := by
  unfold SessionScope.add
  split
  · exact h
  · exact List.mem_append_left _ h

theorem microtasks_addWritable {m : String} {t : Microtask} (h : t ∈ s.microtasks) :
    t ∈ (s.addWritable m).microtasks := by
  unfold SessionScope.addWritable
  split
  · exact microtasks_add h
  · exact List.mem_append_left _ (microtasks_add h)

theorem Granting.effect (h : Granting K s n) (e : Effect) : Granting K (s.effect e) n := by
  cases e with
  | anchor home => exact h
  | add m => exact h.imp microtasks_add fun h => by simpa [Queued, SessionScope.effect] using h
  | addWritable m =>
    exact h.imp microtasks_addWritable fun h => by simpa [Queued, SessionScope.effect] using h
  | record r => exact h
  | await => exact .inr h.runMicrotasks

theorem Granting.run (h : Granting K s n) (effects : List Effect) :
    Granting K (s.run effects) n := by
  induction effects generalizing s with
  | nil => exact h
  | cons e effects ih => exact ih (h.effect e)

variable (wired : s.listeners = some K)

include wired

theorem granting_addWritable (h : n ∉ s.writeSet) : Granting K (s.addWritable n) n := by
  refine .inl ?_
  have hnew : ¬ (s.add n).canWrite n = true := by simpa [SessionScope.canWrite] using h
  unfold SessionScope.addWritable
  rw [if_neg hnew]
  exact List.mem_append_right _ (by simp [wired])

theorem granting_effect {e : Effect} (h : n ∈ (s.effect e).writeSet) :
    n ∈ s.writeSet ∨ Granting K (s.effect e) n := by
  rw [or_iff_not_imp_left]
  intro hold
  rcases SessionScope.mem_effect_writeSet.mp h with h | rfl
  · exact absurd h hold
  · exact granting_addWritable wired hold

theorem granting_run (h : n ∈ (s.run effects).writeSet) :
    n ∈ s.writeSet ∨ Granting K (s.run effects) n := by
  induction effects generalizing s with
  | nil => exact .inl h
  | cons e effects ih =>
    rw [SessionScope.run_cons] at h ⊢
    have wired' : (s.effect e).listeners = some K := by rw [SessionScope.effect_listeners, wired]
    rcases ih wired' h with h | h
    · rcases granting_effect wired h with h | h
      · exact .inl h
      · exact .inr (h.run effects)
    · exact .inr h

theorem queued_perform (h : n ∈ (s.perform effects).writeSet) :
    n ∈ s.writeSet ∨ Queued K (s.perform effects) n :=
  (granting_run wired h).imp_right Granting.runMicrotasks

omit wired

variable {chain : List ScopeWrite}

theorem writes_effect (h : chain ∈ s.writes) (e : Effect) : chain ∈ (s.effect e).writes := by
  cases e with
  | anchor home => exact h
  | add m | addWritable m => simpa [SessionScope.effect] using h
  | record r => exact h
  | await => exact List.mem_append_left _ h

theorem writes_perform (h : chain ∈ s.writes) : chain ∈ (s.perform effects).writes := by
  refine List.mem_append_left _ ?_
  induction effects generalizing s with
  | nil => exact h
  | cons e effects ih => exact ih (writes_effect h e)

theorem Queued.perform (h : Queued K s n) : Queued K (s.perform effects) n := by
  obtain ⟨addedVia, reason, h⟩ := h
  exact ⟨addedVia, reason, writes_perform h⟩

theorem queued_wireOngoingSync {home : Option String} (h : n ∈ s.writeSet) :
    Queued K (s.wireOngoingSync K home).runMicrotasks n :=
  queued_of_statements (by simp [SessionScope.wireOngoingSync, h])

end

section

variable {K : String} {s : SessionScope} {effects : List Effect} {n : String}

def grants : ScopeWrite → Bool
  | .setWritable .. => true
  | .upsertRead .. => false

def Pending (s : SessionScope) : Prop :=
  (∃ t ∈ s.microtasks, t.writable = true) ∨ ∃ chain ∈ s.writes, ∃ st ∈ chain, grants st = true

instance (s : SessionScope) : Decidable (Pending s) := by
  unfold Pending
  exact inferInstance

theorem pending_runMicrotasks (h : Pending s.runMicrotasks) : Pending s := by
  rcases h with ⟨t, ht, -⟩ | ⟨chain, hchain, st, hst, hgrants⟩
  · simp [SessionScope.runMicrotasks] at ht
  · rcases List.mem_append.mp hchain with hchain | hchain
    · exact .inr ⟨chain, hchain, st, hst, hgrants⟩
    · obtain ⟨t, ht, rfl⟩ := List.mem_map.mp hchain
      refine .inl ⟨t, ht, ?_⟩
      rcases List.mem_cons.mp hst with rfl | hst
      · simp [grants] at hgrants
      · split at hst
        next hw => exact hw
        next => simp at hst

theorem pending_add {m : String} (h : Pending (s.add m)) : Pending s := by
  rcases h with ⟨t, ht, hw⟩ | h
  · refine .inl ⟨t, ?_, hw⟩
    unfold SessionScope.add at ht
    split at ht
    · exact ht
    · rcases List.mem_append.mp ht with ht | ht
      · exact ht
      · obtain ⟨k, -, rfl⟩ := List.mem_map.mp ht
        simp at hw
  · exact .inr (by simpa using h)

theorem pending_effect {e : Effect} (h : Pending (s.effect e)) :
    Pending s ∨ ∃ n, e = .addWritable n := by
  cases e with
  | anchor home => exact .inl h
  | add m => exact .inl (pending_add h)
  | addWritable m => exact .inr ⟨m, rfl⟩
  | record r => exact .inl h
  | await => exact .inl (pending_runMicrotasks h)

theorem pending_run (h : Pending (s.run effects)) :
    Pending s ∨ ∃ n, .addWritable n ∈ effects := by
  induction effects generalizing s with
  | nil => exact .inl h
  | cons e effects ih =>
    rcases ih h with h | ⟨n, hn⟩
    · rcases pending_effect h with h | ⟨n, rfl⟩
      · exact .inl h
      · exact .inr ⟨n, List.mem_cons_self⟩
    · exact .inr ⟨n, List.mem_cons_of_mem _ hn⟩

end

variable {l : List Connection} {f : Connection → Connection} {i j : ℕ} {c c' : Connection}

/-- No connection that came after the `i`-th is bound to the session of `c`. -/
def Latest (l : List Connection) (i : ℕ) (c : Connection) : Prop :=
  ∀ j c', i < j → l[j]? = some c' → c'.session = c.session → c'.binding ≠ .bound

theorem latest_iff : Latest l i c ↔
    ∀ c' ∈ l.drop (i + 1), c'.session = c.session → c'.binding ≠ .bound := by
  constructor
  · intro h c' hc'
    obtain ⟨j, hj⟩ := List.mem_iff_getElem?.mp hc'
    rw [List.getElem?_drop] at hj
    exact h _ c' (by omega) hj
  · intro h j c' hij hj
    refine h c' (List.mem_iff_getElem?.mpr ⟨j - (i + 1), ?_⟩)
    rw [List.getElem?_drop, ← hj]
    congr 1
    omega

instance (l : List Connection) (i : ℕ) (c : Connection) : Decidable (Latest l i c) :=
  decidable_of_iff _ latest_iff.symm

theorem getElem?_modify_cases (h : (l.modify i f)[j]? = some c) :
    (j ≠ i ∧ l[j]? = some c) ∨ (j = i ∧ ∃ c₀, l[i]? = some c₀ ∧ c = f c₀) := by
  rw [List.getElem?_modify] at h
  obtain ⟨c₀, hc₀, heq⟩ := Option.map_eq_some_iff.mp h
  split at heq
  next hij => exact .inr ⟨hij.symm, c₀, hij ▸ hc₀, heq.symm⟩
  next hij => exact .inl ⟨fun h => hij h.symm, heq ▸ hc₀⟩

theorem getElem?_modify_of_some (h : l[j]? = some c) :
    (l.modify i f)[j]? = some (if i = j then f c else c) := by
  rw [List.getElem?_modify, h]
  split <;> rfl

theorem Latest.of_modify (h : Latest (l.modify i f) j c) (session : ∀ c, (f c).session = c.session)
    (bound : ∀ c, c.binding = .bound → (f c).binding = .bound) : Latest l j c := by
  intro k c' hjk hk hsession hbound
  refine h k _ hjk (getElem?_modify_of_some hk) ?_ ?_
  · split
    · exact (session c').trans hsession
    · exact hsession
  · split
    · exact bound c' hbound
    · exact hbound

theorem Latest.modify (h : Latest l j c) (session : ∀ c, (f c).session = c.session)
    (bound : ∀ c, (f c).binding = .bound → c.binding = .bound) :
    Latest (l.modify i f) j c := by
  intro k c' hjk hk hsession hbound
  rcases getElem?_modify_cases hk with ⟨-, hk⟩ | ⟨rfl, c₀, hc₀, rfl⟩
  · exact h k c' hjk hk hsession hbound
  · exact h k c₀ hjk hc₀ ((session c₀).symm.trans hsession) (bound c₀ hbound)

theorem Latest.of_append {l' : List Connection} (h : Latest (l ++ l') j c) : Latest l j c :=
  fun k c' hjk hk => h k c' hjk (List.getElem?_append_left (List.getElem?_eq_some_iff.mp hk).1 ▸ hk)

theorem Latest.unique (h : Latest l i c) (h' : Latest l j c') (hi : l[i]? = some c)
    (hj : l[j]? = some c') (hsession : c'.session = c.session) (hbound : c.binding = .bound)
    (hbound' : c'.binding = .bound) : i = j := by
  rcases Nat.lt_trichotomy i j with hij | hij | hij
  · exact absurd hbound' (h j c' hij hj hsession)
  · exact hij
  · exact absurd hbound (h' i c hij hi hsession.symm)

end

open McpScope World Library.Runs

section

variable {casing : Casing} {w w' : World} {a : Action} {i j : ℕ} {c c' : Connection} {n : String}

def Stored (w : World) (session n : String) : Prop :=
  ∃ r ∈ w.rows, r.sessionId = session ∧ r.nodeId = n ∧ r.writable = true

/-- A grant of `n` is stored, or the statements that store it are under way. -/
def Arriving (w : World) (c : Connection) (n : String) : Prop :=
  Stored w c.session n ∨ Queued c.session c.scope n ∨
    (w.holdsRow c.session n = true ∧ [.setWritable c.session n] ∈ c.scope.writes)

/-- The connection allows `n`, or its session is anchored there. -/
def Backs (w : World) (c : Connection) (n : String) : Prop :=
  n ∈ c.scope.writeSet ∨ n ∈ w.purged ∨ w.SessionAt c.session n

structure Mirrors (w : World) (i : ℕ) (c : Connection) : Prop where
  wired : c.binding = .bound → c.scope.listeners = some c.session
  anchored : c.binding ≠ .fresh → ∀ n,
    (c.anchor = some n → n ∈ w.purged ∨ w.SessionAt c.session n) ∧
      (w.SessionAt c.session n → c.anchor = some n)
  due : Justified c.session (fun _ => True) (· ∈ c.scope.writeSet) (Backs w c) (fun _ => True)
    c.scope
  active : Pending c.scope → Latest w.connections i c
  reached : c.binding = .bound → ∀ n ∈ c.scope.writeSet, w.graph.has n = true → Arriving w c n
  backed : c.binding = .bound → Latest w.connections i c → ∀ n, Stored w c.session n → Backs w c n
  unwritten : c.binding = .inserted →
    (∀ c' ∈ w.connections, c'.session = c.session → c'.binding ≠ .bound) →
      ∀ r ∈ w.rows, r.sessionId ≠ c.session

def FreshIds (w : World) (g : Graph) : Prop :=
  ∀ n ∈ g.nodes, w.graph.has n.id = false → ∀ c ∈ w.connections, n.id ∉ c.scope.writeSet

instance (w : World) (g : Graph) : Decidable (FreshIds w g) :=
  inferInstanceAs (Decidable (∀ n ∈ g.nodes, _ → ∀ c ∈ w.connections, _))

def isGrant : Effect → Bool
  | .addWritable _ => true
  | _ => false

def Orderly (casing : Casing) (w : World) : Action → Prop
  | .openConnection req => ∀ row, w.attachment req = some (some row) →
      (∀ c ∈ w.connections, c.session = row.id → ¬ Pending c.scope) ∧
        (row.nodeId = none → ∀ home ∈ req.homeNodeId, w.graph.has home = false)
  | .call i call => ∀ c, w.connections[i]? = some c →
      (c.binding = .bound → (∃ e ∈ (respond casing w.graph c call).effects, isGrant e = true) →
        Latest w.connections i c) ∧ ∀ g, w.graphAfter casing c call = some g → FreshIds w g
  | .insertSession i => ∀ c, w.connections[i]? = some c → c.anchor = c.homeNodeId
  | .bindSession i => ∀ c, w.connections[i]? = some c →
      ∀ c' ∈ w.connections, c'.session = c.session → c'.binding ≠ .bound
  | .lose .. => False
  | .changeGraph g => FreshIds w g
  | _ => True

instance (w : World) (a : Action) : Decidable (Orderly casing w a) :=
  match a with
  | .openConnection req => decidable_of_iff (∀ row ∈ (w.attachment req).join,
      (∀ c ∈ w.connections, c.session = row.id → ¬ Pending c.scope) ∧
        (row.nodeId = none → ∀ home ∈ req.homeNodeId, w.graph.has home = false))
          (by simp [Orderly, Option.join_eq_some_iff])
  | .call i call => inferInstanceAs (Decidable (∀ c ∈ w.connections[i]?,
      (c.binding = .bound → (∃ e ∈ (respond casing w.graph c call).effects, isGrant e = true) →
        Latest w.connections i c) ∧ ∀ g ∈ w.graphAfter casing c call, FreshIds w g))
  | .insertSession i =>
    inferInstanceAs (Decidable (∀ c ∈ w.connections[i]?, c.anchor = c.homeNodeId))
  | .bindSession i => inferInstanceAs (Decidable (∀ c ∈ w.connections[i]?,
      ∀ c' ∈ w.connections, c'.session = c.session → c'.binding ≠ .bound))
  | .lose .. => inferInstanceAs (Decidable False)
  | .changeGraph g => inferInstanceAs (Decidable (FreshIds w g))
  | .deliver .. | .startSession _ | .setState .. | .purge _ => inferInstanceAs (Decidable True)

def Steady (casing : Casing) (w : World) (a : Action) : Prop :=
  Careful casing w a ∧ Orderly casing w a

instance (w : World) (a : Action) : Decidable (Steady casing w a) :=
  inferInstanceAs (Decidable (_ ∧ _))

variable {session : String}

theorem Stored.of_rows {session : String} (h : Stored w session n)
    (rows : ∀ r ∈ w.rows, r.nodeId = n → ∃ r' ∈ w'.rows, r'.sessionId = r.sessionId ∧
      r'.nodeId = r.nodeId ∧ (r.writable = true → r'.writable = true)) : Stored w' session n := by
  obtain ⟨r, hr, hid, hn, hw⟩ := h
  obtain ⟨r', hr', hid', hn', hw'⟩ := rows r hr hn
  exact ⟨r', hr', hid'.trans hid, hn'.trans hn, hw' hw⟩

theorem Backs.mono (grows : Grows w w') (h : Backs w c n) : Backs w' c n := by
  rcases h with h | h | h
  · exact .inl h
  · exact .inr (.inl (grows.purged n h))
  · exact .inr (h.mono grows)

theorem holdsRow_iff :
    w.holdsRow session n = true ↔ ∃ r ∈ w.rows, r.sessionId = session ∧ r.nodeId = n := by
  simp [holdsRow]

theorem Arriving.of_rows (h : Arriving w c n)
    (rows : ∀ r ∈ w.rows, r.nodeId = n → ∃ r' ∈ w'.rows, r'.sessionId = r.sessionId ∧
      r'.nodeId = r.nodeId ∧ (r.writable = true → r'.writable = true)) : Arriving w' c n := by
  rcases h with h | h | ⟨hrow, h⟩
  · exact .inl (h.of_rows rows)
  · exact .inr (.inl h)
  · obtain ⟨r, hr, hid, hn⟩ := holdsRow_iff.mp hrow
    obtain ⟨r', hr', hid', hn', -⟩ := rows r hr hn
    exact .inr (.inr ⟨holdsRow_iff.mpr ⟨r', hr', hid'.trans hid, hn'.trans hn⟩, h⟩)

theorem sessionAt_of_step (hstep : step casing w a = some w')
    (held : ∃ k ∈ w.sessions, k.id = session) (hat : w'.SessionAt session n) :
    w.SessionAt session n := by
  obtain ⟨k, hk, hid, hn⟩ := hat
  have transition : ∀ {id : String} {state : SessionState},
      k ∈ w.transitionSessionState id state → w.SessionAt session n := by
    intro id state hk
    obtain ⟨k₀, hk₀, rfl⟩ := mem_transitionSessionState.mp hk
    refine ⟨k₀, hk₀, ?_⟩
    split at hid
    next hcond => simpa [hcond] using And.intro hid hn
    next hcond => simpa [hcond] using And.intro hid hn
  have appended : ∀ {row : SessionRow}, (∀ k ∈ w.sessions, k.id ≠ row.id) →
      k ∈ w.sessions ++ [row] → w.SessionAt session n := by
    intro row hnew hk
    rcases List.mem_append.mp hk with hk | hk
    · exact ⟨k, hk, hid, hn⟩
    · obtain ⟨k₀, hk₀, hid₀⟩ := held
      rw [List.mem_singleton.mp hk] at hid
      exact absurd (hid₀.trans hid.symm) (hnew k₀ hk₀)
  cases step_cases hstep with
  | openConnection req row _ _ =>
    cases hresume : req.resumeSessionId with
    | none =>
      simp only [hresume] at hk
      exact ⟨k, hk, hid, hn⟩
    | some id =>
      simp only [hresume] at hk
      exact transition hk
  | call | bindSession | deliver | lose | changeGraph => exact ⟨k, hk, hid, hn⟩
  | insertSession i c hc hfresh hnone _ => exact appended (getSession_eq_none hnone) hk
  | startSession row hunused _ => exact appended (unused_iff.mp hunused).1 hk
  | setState id state => exact transition hk
  | purge nodeId =>
    obtain ⟨k₀, hk₀, rfl⟩ := List.mem_map.mp hk
    refine ⟨k₀, hk₀, ?_⟩
    split at hid
    next hcond => simp [hcond] at hn
    next hcond => simpa [hcond] using And.intro hid hn

end

section

variable {casing : Casing} {w w' : World} {a : Action} {i j : ℕ} {c c' : Connection} {n : String}

theorem Mirrors.keep (h : Mirrors w i c) (grows : Grows w w')
    (anchored : c.binding ≠ .fresh → ∀ n, w'.SessionAt c.session n → w.SessionAt c.session n)
    (graph : ∀ n ∈ c.scope.writeSet, w'.graph.has n = true → w.graph.has n = true)
    (rows : ∀ n, w'.graph.has n = true → ∀ r ∈ w.rows, r.nodeId = n →
      ∃ r' ∈ w'.rows, r'.sessionId = r.sessionId ∧ r'.nodeId = r.nodeId ∧
        (r.writable = true → r'.writable = true))
    (active : Pending c.scope → Latest w.connections i c → Latest w'.connections i c)
    (latest : Latest w'.connections i c → Latest w.connections i c)
    (stored : c.binding = .bound → Latest w'.connections i c → ∀ n, Stored w' c.session n →
      Stored w c.session n ∨ Backs w' c n) (unwritten : c.binding = .inserted →
      (∀ c' ∈ w'.connections, c'.session = c.session → c'.binding ≠ .bound) →
        (∀ c' ∈ w.connections, c'.session = c.session → c'.binding ≠ .bound) ∧
          ∀ r' ∈ w'.rows, r'.sessionId = c.session → ∃ r ∈ w.rows, r.sessionId = c.session) :
    Mirrors w' i c where
  wired := h.wired
  anchored hb n := by
    refine ⟨fun hn => ?_, fun hn => (h.anchored hb n).2 (anchored hb n hn)⟩
    rcases (h.anchored hb n).1 hn with hp | hat
    · exact .inl (grows.purged n hp)
    · exact hat.mono grows
  due := h.due.mono (fun _ h => h) (fun _ h => h) (fun _ h => h.mono grows) (fun _ h => h)
    fun _ _ _ h => .inl h
  active hp := active hp (h.active hp)
  reached hb n hn hhas := (h.reached hb n hn (graph n hn hhas)).of_rows (rows n hhas)
  backed hb hl n hn := by
    rcases stored hb hl n hn with hn | hn
    · exact (h.backed hb (latest hl) n hn).mono grows
    · exact hn
  unwritten hb hall r' hr' hid := by
    obtain ⟨hall', hrows⟩ := unwritten hb hall
    obtain ⟨r, hr, hid'⟩ := hrows r' hr' hid
    exact h.unwritten hb hall' r hr hid'

theorem Mirrors.keep_rows (h : Mirrors w i c) (grows : Grows w w')
    (anchored : c.binding ≠ .fresh → ∀ n, w'.SessionAt c.session n → w.SessionAt c.session n)
    (graph : ∀ n ∈ c.scope.writeSet, w'.graph.has n = true → w.graph.has n = true)
    (rows : w'.rows = w.rows)
    (active : Pending c.scope → Latest w.connections i c → Latest w'.connections i c)
    (latest : Latest w'.connections i c → Latest w.connections i c)
    (unbound : (∀ c' ∈ w'.connections, c'.session = c.session → c'.binding ≠ .bound) →
      ∀ c' ∈ w.connections, c'.session = c.session → c'.binding ≠ .bound) : Mirrors w' i c := by
  refine h.keep grows anchored graph ?_ active latest ?_ ?_
  · exact fun n _ r hr _ => ⟨r, rows ▸ hr, rfl, rfl, fun h => h⟩
  · refine fun _ _ n hn => .inl (hn.of_rows fun r hr _ => ?_)
    exact ⟨r, rows ▸ hr, rfl, rfl, fun h => h⟩
  · exact fun _ hall => ⟨unbound hall, fun r hr hid => ⟨r, rows ▸ hr, hid⟩⟩

variable {effects : List Effect}

theorem Justified.run_within {K : String} {A W P : String → Prop} {H : ExpansionRecord → Prop}
    {s : SessionScope} (h : Justified K A W P H s) (hA : ∀ n, A n) (hH : ∀ r, H r)
    (within : ∀ n ∈ (s.run effects).writeSet, W n) : Justified K A W P H (s.run effects) := by
  refine h.run fun e he => ?_
  cases e with
  | anchor home => trivial
  | add n => exact hA n
  | addWritable n => exact ⟨hA n, within n (SessionScope.mem_run_writeSet.mpr (.inr he))⟩
  | record r => exact hH r
  | await => trivial

theorem writeSet_perform {s : SessionScope} (h : n ∈ s.writeSet) :
    n ∈ (s.perform effects).writeSet :=
  SessionScope.mem_run_writeSet.mpr (.inl h)

theorem Arriving.perform (h : Arriving w c n) :
    Arriving w { c with scope := c.scope.perform effects } n :=
  h.imp_right fun h => h.imp Queued.perform fun h => ⟨h.1, writes_perform h.2⟩

theorem Mirrors.due_perform (h : Mirrors w i c) (effects : List Effect) :
    Justified c.session (fun _ => True) (· ∈ (c.scope.perform effects).writeSet)
      (Backs w { c with scope := c.scope.perform effects }) (fun _ => True)
      (c.scope.perform effects) := by
  have grown : Justified c.session (fun _ => True) (· ∈ (c.scope.perform effects).writeSet)
      (Backs w { c with scope := c.scope.perform effects }) (fun _ => True) c.scope :=
    h.due.mono (fun _ h => h) (fun _ h => writeSet_perform h)
      (fun _ h => h.imp_left writeSet_perform) (fun _ h => h) fun _ _ _ h => .inl h
  exact (Justified.run_within grown (fun _ => trivial) (fun _ => trivial)
    fun _ h => h).runMicrotasks

theorem Mirrors.perform (h : Mirrors w i c)
    (active : Pending (c.scope.perform effects) → Latest w.connections i c) :
    Mirrors w i { c with scope := c.scope.perform effects } where
  __ := h
  wired hb := perform_listeners.trans (h.wired hb)
  due := h.due_perform effects
  active := active
  reached hb n hn hhas := by
    rcases queued_perform (h.wired hb) hn with hn | hn
    · exact (h.reached hb n hn hhas).perform
    · exact .inr (.inl hn)
  backed hb hl n hn := (h.backed hb hl n hn).imp_left writeSet_perform

end

variable {w : World} {i j : ℕ} {c : Connection} {n : String} {st : ScopeWrite}
  {rest : List ScopeWrite} {K : String}

theorem rows_write {r : SessionScopeRow} (hr : r ∈ w.rows) :
    ∃ r' ∈ (w.write st).getD w.rows, r'.sessionId = r.sessionId ∧ r'.nodeId = r.nodeId ∧
      (r.writable = true → r'.writable = true) := by
  cases hw : w.write st with
  | none => exact ⟨r, hr, rfl, rfl, fun h => h⟩
  | some rows =>
    cases st with
    | upsertRead K n addedVia reason =>
      simp only [write] at hw
      split at hw
      next =>
        cases hw
        simp only [upsertSessionScopeRead, Option.getD_some]
        split
        · refine ⟨_, List.mem_map_of_mem hr, ?_⟩
          split <;> exact ⟨rfl, rfl, fun h => h⟩
        · exact ⟨r, List.mem_append_left _ hr, rfl, rfl, fun h => h⟩
      next => simp at hw
    | setWritable K n =>
      cases hw
      refine ⟨_, List.mem_map_of_mem hr, ?_⟩
      split <;> exact ⟨rfl, rfl, fun h => by simp [h]⟩

theorem row_of_write {r : SessionScopeRow} (hr : r ∈ (w.write st).getD w.rows) :
    (∃ r₀ ∈ w.rows, r.sessionId = r₀.sessionId ∧ r.nodeId = r₀.nodeId ∧
      (r.writable = r₀.writable ∨ st = .setWritable r.sessionId r.nodeId)) ∨ (r.writable = false ∧
      ∃ addedVia reason, st = .upsertRead r.sessionId r.nodeId addedVia reason) := by
  cases hwrite : w.write st with
  | none =>
    rw [hwrite] at hr
    exact .inl ⟨r, hr, rfl, rfl, .inl rfl⟩
  | some written =>
    rw [hwrite, Option.getD_some] at hr
    cases st with
    | upsertRead k m addedVia reason =>
      simp only [write] at hwrite
      split at hwrite
      next =>
        cases hwrite
        unfold upsertSessionScopeRead at hr
        split at hr
        · obtain ⟨r₀, hr₀, rfl⟩ := List.mem_map.mp hr
          refine .inl ⟨r₀, hr₀, ?_⟩
          split <;> exact ⟨rfl, rfl, .inl rfl⟩
        · rcases List.mem_append.mp hr with hr | hr
          · exact .inl ⟨r, hr, rfl, rfl, .inl rfl⟩
          · rw [List.mem_singleton.mp hr]
            exact .inr ⟨rfl, addedVia, reason, rfl⟩
      next => simp at hwrite
    | setWritable k m =>
      cases hwrite
      obtain ⟨r₀, hr₀, rfl⟩ := List.mem_map.mp hr
      refine .inl ⟨r₀, hr₀, ?_⟩
      split
      next hsame => exact ⟨rfl, rfl, .inr (by rw [← hsame.1, ← hsame.2])⟩
      next => exact ⟨rfl, rfl, .inl rfl⟩

variable {w' : World}

theorem stored_write (rows : w'.rows = (w.write st).getD w.rows) (h : Stored w' K n) :
    Stored w K n ∨ st = .setWritable K n := by
  obtain ⟨r, hr, rfl, rfl, hw⟩ := h
  rcases row_of_write (rows ▸ hr) with ⟨r₀, hr₀, hid, hn, hw' | hst⟩ | ⟨hw', -⟩
  · exact .inl ⟨r₀, hr₀, hid.symm, hn.symm, hw'.symm.trans hw⟩
  · exact .inr hst
  · rw [hw'] at hw
    nomatch hw

theorem holdsRow_upsert {addedVia : AddedVia} {reason : String}
    (rows : w'.rows = (w.write (.upsertRead K n addedVia reason)).getD w.rows)
    (hwrite : w.write (.upsertRead K n addedVia reason) ≠ none) : w'.holdsRow K n = true := by
  rw [holdsRow_iff, rows]
  simp only [write] at hwrite ⊢
  split at hwrite
  next hcond =>
    rw [if_pos hcond, Option.getD_some, upsertSessionScopeRead]
    split
    next hrow =>
      obtain ⟨r, hr, hid, hn⟩ := holdsRow_iff.mp hrow
      refine ⟨_, List.mem_map_of_mem hr, ?_⟩
      split <;> exact ⟨hid, hn⟩
    next => exact ⟨_, List.mem_append_right _ (List.mem_singleton_self _), rfl, rfl⟩
  next => exact absurd rfl hwrite

theorem stored_setWritable (rows : w'.rows = (w.write (.setWritable K n)).getD w.rows)
    (hrow : w.holdsRow K n = true) : Stored w' K n := by
  obtain ⟨r, hr, hid, hn⟩ := holdsRow_iff.mp hrow
  refine ⟨{ r with writable := true }, ?_, hid, hn, rfl⟩
  rw [rows]
  refine List.mem_map.mpr ⟨r, hr, ?_⟩
  rw [if_pos ⟨hid, hn⟩]

def leftAfter (w : World) (c : Connection) (j : ℕ) (st : ScopeWrite) (rest : List ScopeWrite) :
    List (List ScopeWrite) :=
  if rest = [] ∨ w.write st = none then c.scope.writes.eraseIdx j else c.scope.writes.set j rest

variable {chain : List ScopeWrite}

theorem mem_leftAfter (hchain : chain ∈ c.scope.writes)
    (hj : c.scope.writes[j]? = some (st :: rest)) :
    chain ∈ leftAfter w c j st rest ∨ chain = st :: rest := by
  obtain ⟨p, hp⟩ := List.mem_iff_getElem?.mp hchain
  rw [or_iff_not_imp_right]
  intro hne
  have hpj : p ≠ j := fun h => hne (Option.some.inj (hp.symm.trans (h ▸ hj)))
  unfold leftAfter
  split
  · exact List.mem_eraseIdx_iff_getElem?.mpr ⟨p, hpj, hp⟩
  · refine List.mem_iff_getElem?.mpr ⟨p, ?_⟩
    rw [List.getElem?_set_ne (Ne.symm hpj), hp]

theorem statement_of_leftAfter (hj : c.scope.writes[j]? = some (st :: rest))
    (hchain : chain ∈ leftAfter w c j st rest) {st' : ScopeWrite} (hst : st' ∈ chain) :
    ∃ chain' ∈ c.scope.writes, st' ∈ chain' := by
  unfold leftAfter at hchain
  split at hchain
  · exact ⟨chain, List.mem_of_mem_eraseIdx hchain, hst⟩
  · rcases List.mem_or_eq_of_mem_set hchain with h | rfl
    · exact ⟨chain, h, hst⟩
    · exact ⟨_, List.mem_of_getElem? hj, List.mem_cons_of_mem _ hst⟩

theorem Arriving.deliver (h : Arriving w c n) (rows : w'.rows = (w.write st).getD w.rows)
    (hj : c.scope.writes[j]? = some (st :: rest)) (hhas : w.graph.has n = true)
    (hsession : (w.getSession c.session).isSome = true) :
    Arriving w' { c with scope := { c.scope with writes := leftAfter w c j st rest } } n := by
  have keep : ∀ r ∈ w.rows, ∃ r' ∈ w'.rows, r'.sessionId = r.sessionId ∧
      r'.nodeId = r.nodeId ∧ (r.writable = true → r'.writable = true) :=
    fun r hr => rows ▸ rows_write hr
  rcases h with h | ⟨addedVia, reason, h⟩ | ⟨hrow, h⟩
  · exact .inl (h.of_rows fun r hr _ => keep r hr)
  · rcases (mem_leftAfter h hj).symm with heq | h
    · -- the upsert of the grant has been delivered, its row is there
      obtain ⟨rfl, rfl⟩ := List.cons.inj heq
      have hwrite : w.write (.upsertRead c.session n addedVia reason) ≠ none := by
        simp [write, hhas, hsession]
      refine .inr (.inr ⟨holdsRow_upsert rows hwrite, ?_⟩)
      simp only [leftAfter, hwrite, or_false]
      rw [if_neg (by simp)]
      exact List.mem_iff_getElem?.mpr ⟨j, List.getElem?_set_self
        (List.getElem?_eq_some_iff.mp hj).1⟩
    · exact .inr (.inl ⟨addedVia, reason, h⟩)
  · rcases (mem_leftAfter h hj).symm with heq | h
    · obtain ⟨rfl, -⟩ := List.cons.inj heq
      exact .inl (stored_setWritable rows hrow)
    · obtain ⟨r, hr, hid, hn⟩ := holdsRow_iff.mp hrow
      obtain ⟨r', hr', hid', hn', -⟩ := keep r hr
      exact .inr (.inr ⟨holdsRow_iff.mpr ⟨r', hr', hid'.trans hid, hn'.trans hn⟩, h⟩)

end Portuni.RestGate
