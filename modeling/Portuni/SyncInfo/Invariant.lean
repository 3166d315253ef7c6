import Mathlib.Logic.Function.Basic
import Portuni.Library.Runs

/-!
The sync-info cache of one central client: single fetches that share their promise,
batches that seed the cache, and mutating calls that invalidate it once their response
has come. A document is known by the version of its node that the server made it from.
-/

namespace Portuni.SyncInfo

inductive MutatingCall where
  | registerFile (nodeId : String)
  | registerFiles (nodeId : String)
  | createFile (nodeId : String)
  | putFileRaw (nodeId : String)
  | renameFile (nodeId : String)
  | moveFileRecord (nodeId : String) (newNodeId : Option String)
  | deleteFileRecord (nodeId : String)
  | remoteSweep (nodeId : String)
deriving DecidableEq

def MutatingCall.nodes : MutatingCall → List String
  | .registerFile nodeId => [nodeId]
  | .registerFiles nodeId => [nodeId]
  | .createFile nodeId => [nodeId]
  | .putFileRaw nodeId => [nodeId]
  | .renameFile nodeId => [nodeId]
  | .moveFileRecord nodeId newNodeId => nodeId :: newNodeId.toList
  | .deleteFileRecord nodeId => [nodeId]
  | .remoteSweep nodeId => [nodeId]

inductive Outcome where
  | pending
  | resolved (doc : ℕ)
  | rejected
deriving DecidableEq

/-- The promise of a node's document. `since` is history: the version of the node when the
document was asked for. -/
structure InfoPromise where
  nodeId : String
  since : ℕ
  retried : Bool
  /-- The document in the response that is on its way. -/
  answer : Option ℕ
  outcome : Outcome
deriving DecidableEq

structure CacheEntry where
  promise : ℕ
  resolvedAt : Option ℕ

structure Batch where
  nodeIds : List String
  retried : Bool
  answer : List (String × ℕ)
  settled : Bool

/-- A mutating call: which of its attempts the server has processed, and the versions of the
nodes right after each of its effects. -/
structure Mutation where
  call : MutatingCall
  processed : List Bool
  effects : List (String × ℕ)
  settled : Bool
deriving DecidableEq

/-- A `syncInfo` call: the promise it returned, and the mutations settled before it. -/
structure Read where
  nodeId : String
  promise : ℕ
  settled : List ℕ
deriving DecidableEq

structure State where
  now : ℕ
  version : String → ℕ
  cache : String → Option CacheEntry
  promises : List InfoPromise
  batches : List Batch
  mutations : List Mutation
  reads : List Read

def State.initial (now : ℕ) (version : String → ℕ) : State :=
  { now, version, cache := fun _ => none, promises := [], batches := [], mutations := [], reads := [] }

inductive Action where
  | tick (ms : ℕ)
  | syncInfo (nodeId : String)
  | serveFetch (i : ℕ)
  | fetchArrives (i : ℕ)
  | fetchLost (i : ℕ)
  | fetchRefused (i : ℕ)
  | syncInfoBatch (nodeIds : List String)
  | serveBatch (i : ℕ) (nodeId : String)
  | batchArrives (i : ℕ)
  | batchLost (i : ℕ)
  | batchRefused (i : ℕ)
  | mutate (call : MutatingCall)
  | process (i attempt : ℕ) (takesEffect : Bool)
  | mutationArrives (i : ℕ)
  | mutationLost (i : ℕ)
  | invalidateSyncInfo (nodeId : String)

def CacheEntry.usable (ttl now : ℕ) (entry : CacheEntry) : Bool :=
  match entry.resolvedAt with
  | none => true
  | some resolvedAt => decide (now - resolvedAt < ttl)

/-- The entry that a `syncInfo` call hits. A TTL of 0 turns the cache off. -/
def State.hit (ttl : ℕ) (s : State) (nodeId : String) : Option CacheEntry :=
  if ttl = 0 then none else (s.cache nodeId).filter (·.usable ttl s.now)

def settledMutations (mutations : List Mutation) : List ℕ :=
  (List.range mutations.length).filter fun i => (mutations[i]?.map (·.settled)).getD false

def State.read (s : State) (nodeId : String) (promise : ℕ) : State :=
  { s with reads := s.reads ++ [⟨nodeId, promise, settledMutations s.mutations⟩] }

def State.fetch (ttl : ℕ) (s : State) (nodeId : String) : State :=
  { s with
    promises := s.promises ++ [⟨nodeId, s.version nodeId, false, none, .pending⟩]
    cache :=
      if ttl = 0 then s.cache
      else Function.update s.cache nodeId (some ⟨s.promises.length, none⟩) }

def State.setPromise (s : State) (i : ℕ) (p : InfoPromise) : State :=
  { s with promises := s.promises.set i p }

/-- `entry.resolvedAt = Date.now()`, where the entry is still the cache's. -/
def State.stamp (s : State) (nodeId : String) (i : ℕ) : State :=
  { s with
    cache := Function.update s.cache nodeId ((s.cache nodeId).map fun entry =>
      if entry.promise = i then { entry with resolvedAt := some s.now } else entry) }

def State.forget (s : State) (nodeId : String) (i : ℕ) : State :=
  { s with
    cache := Function.update s.cache nodeId
      ((s.cache nodeId).filter fun entry => decide (entry.promise ≠ i)) }

def State.reject (s : State) (i : ℕ) (p : InfoPromise) : State :=
  (s.setPromise i { p with outcome := .rejected }).forget p.nodeId i

def State.seed (s : State) : List (String × ℕ) → State
  | [] => s
  | (nodeId, doc) :: infos =>
    State.seed
      { s with
        promises := s.promises ++ [⟨nodeId, doc, false, none, .resolved doc⟩]
        cache := Function.update s.cache nodeId (some ⟨s.promises.length, some s.now⟩) } infos

def State.setBatch (s : State) (i : ℕ) (b : Batch) : State :=
  { s with batches := s.batches.set i b }

def State.setMutation (s : State) (i : ℕ) (m : Mutation) : State :=
  { s with mutations := s.mutations.set i m }

def State.invalidate (s : State) (nodeIds : List String) : State :=
  { s with cache := fun nodeId => if nodeId ∈ nodeIds then none else s.cache nodeId }

/-- The server carries a mutation out: the nodes it changes have a new version. -/
def State.change (s : State) (nodeIds : List String) : State :=
  { s with version := fun nodeId =>
      if nodeId ∈ nodeIds then s.version nodeId + 1 else s.version nodeId }

/-- One step, or `none` where the action cannot happen. A request that is lost on the
transport is sent a second time, and fails when that is lost too; a lost attempt of a
mutation may be processed all the same, also later. -/
def step (ttl : ℕ) (s : State) : Action → Option State
  | .tick ms => some { s with now := s.now + ms }
  | .syncInfo nodeId =>
    match s.hit ttl nodeId with
    | some entry => some (s.read nodeId entry.promise)
    | none => some ((s.fetch ttl nodeId).read nodeId s.promises.length)
  | .serveFetch i =>
    match s.promises[i]? with
    | none => none
    | some p =>
      if p.outcome = .pending then
        some (s.setPromise i { p with answer := some (s.version p.nodeId) })
      else none
  | .fetchArrives i =>
    match s.promises[i]? with
    | none => none
    | some p =>
      match p.outcome, p.answer with
      | .pending, some doc =>
        some ((s.setPromise i { p with outcome := .resolved doc }).stamp p.nodeId i)
      | _, _ => none
  | .fetchLost i =>
    match s.promises[i]? with
    | none => none
    | some p =>
      if p.outcome = .pending then
        if p.retried then some (s.reject i p)
        else some (s.setPromise i { p with retried := true, answer := none })
      else none
  | .fetchRefused i =>
    match s.promises[i]? with
    | none => none
    | some p => if p.outcome = .pending then some (s.reject i p) else none
  | .syncInfoBatch nodeIds =>
    if nodeIds = [] then none
    else some { s with batches := s.batches ++ [⟨nodeIds, false, [], false⟩] }
  | .serveBatch i nodeId =>
    match s.batches[i]? with
    | none => none
    | some b =>
      if b.settled = false ∧ nodeId ∈ b.nodeIds ∧ nodeId ∉ b.answer.map (·.1) then
        some (s.setBatch i { b with answer := b.answer ++ [(nodeId, s.version nodeId)] })
      else none
  | .batchArrives i =>
    match s.batches[i]? with
    | none => none
    | some b =>
      if b.settled then none
      else
        let arrived := s.setBatch i { b with settled := true }
        if ttl = 0 then some arrived else some (arrived.seed b.answer)
  | .batchLost i =>
    match s.batches[i]? with
    | none => none
    | some b =>
      if b.settled then none
      else if b.retried then some (s.setBatch i { b with settled := true })
      else some (s.setBatch i { b with retried := true, answer := [] })
  | .batchRefused i =>
    match s.batches[i]? with
    | none => none
    | some b => if b.settled then none else some (s.setBatch i { b with settled := true })
  | .mutate call => some { s with mutations := s.mutations ++ [⟨call, [false], [], false⟩] }
  | .process i attempt takesEffect =>
    match s.mutations[i]? with
    | none => none
    | some m =>
      if m.processed[attempt]? = some false then
        let m := { m with processed := m.processed.set attempt true }
        if takesEffect then
          let changed := s.change m.call.nodes
          some (changed.setMutation i { m with
            effects := m.effects ++ m.call.nodes.map fun nodeId => (nodeId, changed.version nodeId) })
        else some (s.setMutation i m)
      else none
  | .mutationArrives i =>
    match s.mutations[i]? with
    | none => none
    | some m =>
      if m.settled = false ∧ m.processed.getLast? = some true then
        some ((s.setMutation i { m with settled := true }).invalidate m.call.nodes)
      else none
  | .mutationLost i =>
    match s.mutations[i]? with
    | none => none
    | some m =>
      if m.settled then none
      else if m.processed.length < 2 then
        some (s.setMutation i { m with processed := m.processed ++ [false] })
      else some (s.setMutation i { m with settled := true })
  | .invalidateSyncInfo nodeId => some (s.invalidate [nodeId])

/-- Every call of `syncInfo` that has been answered got a document that the server made
after the effects of every mutation of the node that was settled before the call. -/
def ReadsYourWrites (s : State) : Prop :=
  ∀ read ∈ s.reads, ∀ i ∈ read.settled, ∀ m, s.mutations[i]? = some m →
    ∀ v, (read.nodeId, v) ∈ m.effects → ∀ p, s.promises[read.promise]? = some p →
      ∀ doc, p.outcome = .resolved doc → v ≤ doc

/-- Every effect that a settled mutation had on the node is at most this version. -/
def State.Covers (s : State) (nodeId : String) (version : ℕ) : Prop :=
  ∀ m ∈ s.mutations, m.settled = true → ∀ v, (nodeId, v) ∈ m.effects → v ≤ version

/-- No attempt takes effect after its mutation has settled; a mutation that took effect is
given up only when the cache has nothing usable for its nodes that was asked for before the
effect; a batch arrives only when its documents are as new as the effects of all mutations
settled by then. -/
def SafeStep (ttl : ℕ) (s : State) : Action → Prop
  | .process i _ true => ∀ m, s.mutations[i]? = some m → m.settled = false
  | .mutationLost i => ∀ m, s.mutations[i]? = some m → 2 ≤ m.processed.length →
      ∀ nodeId v, (nodeId, v) ∈ m.effects → ∀ entry, s.hit ttl nodeId = some entry →
        ∀ p, s.promises[entry.promise]? = some p → v ≤ p.since
  | .batchArrives i => ttl = 0 ∨ ∀ b, s.batches[i]? = some b → ∀ info ∈ b.answer,
      s.Covers info.1 info.2
  | _ => True

def InfoPromise.Sound (version : String → ℕ) (p : InfoPromise) : Prop :=
  p.since ≤ version p.nodeId ∧ (∀ doc, p.answer = some doc → p.since ≤ doc) ∧
    (∀ doc, p.outcome = .resolved doc → p.since ≤ doc)

structure Inv (ttl : ℕ) (s : State) : Prop where
  promises : ∀ p ∈ s.promises, p.Sound s.version
  batches : ∀ b ∈ s.batches, ∀ info ∈ b.answer, info.2 ≤ s.version info.1
  effects : ∀ m ∈ s.mutations, ∀ effect ∈ m.effects,
    effect.1 ∈ m.call.nodes ∧ effect.2 ≤ s.version effect.1
  cached : ∀ nodeId entry, s.cache nodeId = some entry → ∃ p, s.promises[entry.promise]? = some p ∧
    p.nodeId = nodeId ∧ (p.outcome = .pending → entry.resolvedAt = none) ∧
    (ttl ≠ 0 → entry.usable ttl s.now = true → s.Covers nodeId p.since)
  reads : ∀ read ∈ s.reads, ∃ p, s.promises[read.promise]? = some p ∧ p.nodeId = read.nodeId ∧
    ∀ i ∈ read.settled, ∃ m, s.mutations[i]? = some m ∧ m.settled = true ∧
      ∀ v, (read.nodeId, v) ∈ m.effects → v ≤ p.since

variable {ttl : ℕ} {s s' : State} {a : Action}

theorem Inv.readsYourWrites (inv : Inv ttl s) : ReadsYourWrites s := by
  intro read hread i hi m hm v hv p hp doc hdoc
  obtain ⟨p', hp', -, hsettled⟩ := inv.reads read hread
  obtain ⟨m', hm', -, heffects⟩ := hsettled i hi
  obtain rfl := Option.some.inj (hp'.symm.trans hp)
  obtain rfl := Option.some.inj (hm'.symm.trans hm)
  exact Nat.le_trans (heffects v hv) ((inv.promises _ (List.mem_of_getElem? hp)).2.2 doc hdoc)

theorem Inv.initial (now : ℕ) (version : String → ℕ) : Inv ttl (State.initial now version) := by
  constructor <;> simp [State.initial]

theorem usable_of_le {now later : ℕ} {entry : CacheEntry} (h : now ≤ later)
    (husable : entry.usable ttl later = true) : entry.usable ttl now = true := by
  unfold CacheEntry.usable at husable ⊢
  split
  · rfl
  · rename_i resolvedAt hresolved
    simp only [hresolved, decide_eq_true_eq] at husable ⊢
    omega

/-- The promises a step leaves: each keeps its node and the version it was asked for, and
its outcome once it has one. -/
def Promises (s s' : State) : Prop :=
  ∀ (i : ℕ) p, s.promises[i]? = some p → ∃ p', s'.promises[i]? = some p' ∧ p'.nodeId = p.nodeId ∧
    p'.since = p.since ∧ (p'.outcome = .pending → p.outcome = .pending)

theorem Promises.refl (s : State) : Promises s s := fun _ p hp => ⟨p, hp, rfl, rfl, id⟩

theorem promises_append {new : List InfoPromise} (h : s'.promises = s.promises ++ new) :
    Promises s s' := by
  intro i p hp
  refine ⟨p, ?_, rfl, rfl, id⟩
  rw [h, List.getElem?_append_left (List.getElem?_eq_some_iff.mp hp).1, hp]

variable {i : ℕ} {p : InfoPromise}

theorem promises_set {p' : InfoPromise} (hp : s.promises[i]? = some p)
    (h : s'.promises = s.promises.set i p') (hnode : p'.nodeId = p.nodeId)
    (hsince : p'.since = p.since) (hpending : p'.outcome = .pending → p.outcome = .pending) :
    Promises s s' := by
  intro j q hq
  rw [h]
  by_cases hij : i = j
  · subst hij
    obtain rfl := Option.some.inj (hp.symm.trans hq)
    exact ⟨p', List.getElem?_set_self (List.getElem?_eq_some_iff.mp hp).1, hnode, hsince, hpending⟩
  · exact ⟨q, by rw [List.getElem?_set_ne hij, hq], rfl, rfl, id⟩

variable (inv : Inv ttl s)

include inv

theorem Inv.reads_of (hreads : s'.reads = s.reads) (hpromises : Promises s s')
    (hmutations : ∀ (i : ℕ) m, s.mutations[i]? = some m → m.settled = true → ∃ m', s'.mutations[i]?
      = some m' ∧ m'.settled = true ∧ m'.effects = m.effects) :
    ∀ read ∈ s'.reads, ∃ p, s'.promises[read.promise]? = some p ∧ p.nodeId = read.nodeId ∧
      ∀ i ∈ read.settled, ∃ m, s'.mutations[i]? = some m ∧ m.settled = true ∧
        ∀ v, (read.nodeId, v) ∈ m.effects → v ≤ p.since := by
  intro read hread
  rw [hreads] at hread
  obtain ⟨p, hp, hnode, hsettled⟩ := inv.reads read hread
  obtain ⟨p', hp', hnode', hsince, -⟩ := hpromises _ p hp
  refine ⟨p', hp', hnode'.trans hnode, fun i hi => ?_⟩
  obtain ⟨m, hm, hdone, heffects⟩ := hsettled i hi
  obtain ⟨m', hm', hdone', hsame⟩ := hmutations i m hm hdone
  refine ⟨m', hm', hdone', fun v hv => ?_⟩
  rw [hsame] at hv
  rw [hsince]
  exact heffects v hv

theorem Inv.of_same (hnow : s.now ≤ s'.now) (hversion : s'.version = s.version)
    (hmutations : s'.mutations = s.mutations) (hreads : s'.reads = s.reads)
    (hpromises : Promises s s') (hsound : ∀ p ∈ s'.promises, p.Sound s.version)
    (hbatches : ∀ b ∈ s'.batches, ∀ info ∈ b.answer, info.2 ≤ s.version info.1)
    (hcache : ∀ nodeId entry', s'.cache nodeId = some entry' → ∃ entry, s.cache nodeId = some entry
      ∧ entry.promise = entry'.promise ∧ ((∃ p', s'.promises[entry'.promise]? = some p' ∧
      p'.outcome ≠ .pending ∧ entry.resolvedAt = none) ∨ entry'.resolvedAt = entry.resolvedAt)) :
    Inv ttl s' := by
  refine ⟨?_, ?_, ?_, ?_, ?_⟩
  · rw [hversion]
    exact hsound
  · rw [hversion]
    exact hbatches
  · rw [hmutations, hversion]
    exact inv.effects
  · intro nodeId entry' hentry'
    obtain ⟨entry, hentry, hpromise, hcase⟩ := hcache nodeId entry' hentry'
    obtain ⟨p, hp, hnode, hpending, hcovers⟩ := inv.cached nodeId entry hentry
    obtain ⟨p', hp', hnode', hsince, hkeeps⟩ := hpromises _ p hp
    rw [hpromise] at hp'
    refine ⟨p', hp', hnode'.trans hnode, ?_, ?_⟩
    · intro hwaits
      rcases hcase with ⟨q, hq, hsettled, -⟩ | hsame
      · obtain rfl := Option.some.inj (hq.symm.trans hp')
        exact absurd hwaits hsettled
      · rw [hsame]
        exact hpending (hkeeps hwaits)
    · intro httl husable
      have hold : entry.usable ttl s.now = true := by
        rcases hcase with ⟨-, -, -, hnone⟩ | hsame
        · simp [CacheEntry.usable, hnone]
        · refine usable_of_le hnow ?_
          simpa only [CacheEntry.usable, hsame] using husable
      rw [hsince, State.Covers, hmutations]
      exact hcovers httl hold
  · refine inv.reads_of hreads hpromises fun i m hm hdone => ⟨m, ?_, hdone, rfl⟩
    rw [hmutations, hm]

theorem Inv.tick (ms : ℕ) : Inv ttl { s with now := s.now + ms } :=
  inv.of_same (Nat.le_add_right _ _) rfl rfl rfl (Promises.refl s) inv.promises inv.batches
    fun _ entry hentry => ⟨entry, hentry, rfl, .inr rfl⟩

theorem Inv.invalidate (nodeIds : List String) : Inv ttl (s.invalidate nodeIds) := by
  refine inv.of_same (Nat.le_refl _) rfl rfl rfl (Promises.refl s) inv.promises inv.batches ?_
  intro nodeId entry hentry
  simp only [State.invalidate, Option.ite_none_left_eq_some] at hentry
  exact ⟨entry, hentry.2, rfl, .inr rfl⟩

theorem Inv.setPromise {p' : InfoPromise} (hp : s.promises[i]? = some p)
    (hnode : p'.nodeId = p.nodeId) (hsince : p'.since = p.since) (houtcome : p'.outcome = p.outcome)
    (hanswer : ∀ doc, p'.answer = some doc → p.since ≤ doc) : Inv ttl (s.setPromise i p') := by
  have hsound := inv.promises p (List.mem_of_getElem? hp)
  refine inv.of_same (Nat.le_refl _) rfl rfl rfl
    (promises_set hp rfl hnode hsince fun h => houtcome ▸ h) ?_ inv.batches
    fun _ entry hentry => ⟨entry, hentry, rfl, .inr rfl⟩
  intro q hq
  rcases List.mem_or_eq_of_mem_set hq with hq | rfl
  · exact inv.promises q hq
  · refine ⟨?_, ?_, ?_⟩
    · rw [hsince, hnode]
      exact hsound.1
    · rw [hsince]
      exact hanswer
    · rw [hsince, houtcome]
      exact hsound.2.2

theorem Inv.fetchArrives {doc : ℕ} (hp : s.promises[i]? = some p) (hpending : p.outcome = .pending)
    (hanswer : p.answer = some doc) :
    Inv ttl ((s.setPromise i { p with outcome := .resolved doc }).stamp p.nodeId i) := by
  have hsound := inv.promises p (List.mem_of_getElem? hp)
  have hlength := (List.getElem?_eq_some_iff.mp hp).1
  refine inv.of_same (Nat.le_refl _) rfl rfl rfl
    (promises_set hp rfl rfl rfl fun _ => hpending) ?_ inv.batches ?_
  · intro q hq
    rcases List.mem_or_eq_of_mem_set hq with hq | rfl
    · exact inv.promises q hq
    · refine ⟨hsound.1, hsound.2.1, fun doc' hdoc => ?_⟩
      obtain rfl := Outcome.resolved.inj hdoc
      exact hsound.2.1 _ hanswer
  · intro nodeId entry' hentry'
    by_cases hnode : nodeId = p.nodeId
    · subst hnode
      simp only [State.stamp, State.setPromise, Function.update_self, Option.map_eq_some_iff] at hentry'
      obtain ⟨entry, hentry, heq⟩ := hentry'
      split at heq
      · rename_i hsame
        subst heq
        obtain ⟨q, hq, -, hnone, -⟩ := inv.cached _ entry hentry
        rw [hsame, hp] at hq
        cases hq
        refine ⟨entry, hentry, rfl, .inl ⟨{ p with outcome := .resolved doc }, ?_, ?_, hnone hpending⟩⟩
        · rw [hsame]
          exact List.getElem?_set_self hlength
        · simp
      · subst heq
        exact ⟨entry, hentry, rfl, .inr rfl⟩
    · simp only [State.stamp, State.setPromise, Function.update_of_ne hnode] at hentry'
      exact ⟨entry', hentry', rfl, .inr rfl⟩

theorem Inv.reject (hp : s.promises[i]? = some p) (hpending : p.outcome = .pending) :
    Inv ttl (s.reject i p) := by
  have hsound := inv.promises p (List.mem_of_getElem? hp)
  refine inv.of_same (Nat.le_refl _) rfl rfl rfl
    (promises_set hp rfl rfl rfl fun _ => hpending) ?_ inv.batches ?_
  · intro q hq
    rcases List.mem_or_eq_of_mem_set hq with hq | rfl
    · exact inv.promises q hq
    · exact ⟨hsound.1, hsound.2.1, by simp⟩
  · intro nodeId entry' hentry'
    refine ⟨entry', ?_, rfl, .inr rfl⟩
    by_cases hnode : nodeId = p.nodeId
    · subst hnode
      simp only [State.reject, State.forget, State.setPromise, Function.update_self,
        Option.filter_eq_some_iff] at hentry'
      exact hentry'.1
    · simpa only [State.reject, State.forget, State.setPromise, Function.update_of_ne hnode]
        using hentry'

theorem Inv.batchesOf {batches : List Batch}
    (h : ∀ b ∈ batches, ∀ info ∈ b.answer, info.2 ≤ s.version info.1) :
    Inv ttl { s with batches := batches } :=
  inv.of_same (Nat.le_refl _) rfl rfl rfl (Promises.refl s) inv.promises h
    fun _ entry hentry => ⟨entry, hentry, rfl, .inr rfl⟩

theorem Inv.setBatch {b : Batch} (h : ∀ info ∈ b.answer, info.2 ≤ s.version info.1) :
    Inv ttl (s.setBatch i b) := by
  refine inv.batchesOf fun b' hb' => ?_
  rcases List.mem_or_eq_of_mem_set hb' with hb' | rfl
  · exact inv.batches b' hb'
  · exact h

theorem Inv.addPromise {entry : CacheEntry} (hsound : p.Sound s.version)
    (hentry : entry.promise = s.promises.length)
    (hpending : p.outcome = .pending → entry.resolvedAt = none)
    (hcovers : s.Covers p.nodeId p.since) :
    Inv ttl { s with
      promises := s.promises ++ [p]
      cache := Function.update s.cache p.nodeId (some entry) } := by
  have hpromises : Promises s { s with
      promises := s.promises ++ [p]
      cache := Function.update s.cache p.nodeId (some entry) } := promises_append rfl
  refine ⟨?_, inv.batches, inv.effects, ?_, ?_⟩
  · intro q hq
    rcases List.mem_append.mp hq with hq | hq
    · exact inv.promises q hq
    · rw [List.mem_singleton.mp hq]
      exact hsound
  · intro nodeId found hfound
    by_cases hnode : nodeId = p.nodeId
    · subst hnode
      simp only [Function.update_self, Option.some.injEq] at hfound
      subst hfound
      exact ⟨p, by simp [hentry], rfl, hpending, fun _ _ => hcovers⟩
    · simp only [Function.update_of_ne hnode] at hfound
      obtain ⟨q, hq, hqnode, hqpending, hqcovers⟩ := inv.cached nodeId found hfound
      refine ⟨q, ?_, hqnode, hqpending, hqcovers⟩
      rw [List.getElem?_append_left (List.getElem?_eq_some_iff.mp hq).1, hq]
  · exact inv.reads_of rfl hpromises fun _ m hm hdone => ⟨m, hm, hdone, rfl⟩

theorem Inv.covers_version (nodeId : String) : s.Covers nodeId (s.version nodeId) :=
  fun m hm _ _ hv => (inv.effects m hm _ hv).2

theorem Inv.fetch (nodeId : String) : Inv ttl (s.fetch ttl nodeId) := by
  have hsound : InfoPromise.Sound s.version ⟨nodeId, s.version nodeId, false, none, .pending⟩ :=
    ⟨Nat.le_refl _, by simp, by simp⟩
  unfold State.fetch
  split
  · refine inv.of_same (Nat.le_refl _) rfl rfl rfl (promises_append rfl) ?_ inv.batches
      fun _ entry hentry => ⟨entry, hentry, rfl, .inr rfl⟩
    intro q hq
    rcases List.mem_append.mp hq with hq | hq
    · exact inv.promises q hq
    · rw [List.mem_singleton.mp hq]
      exact hsound
  · exact inv.addPromise hsound rfl (fun _ => rfl) (inv.covers_version nodeId)

theorem Inv.read {nodeId : String} (hp : s.promises[i]? = some p) (hnode : p.nodeId = nodeId)
    (hcovers : s.Covers nodeId p.since) : Inv ttl (s.read nodeId i) := by
  refine ⟨inv.promises, inv.batches, inv.effects, inv.cached, ?_⟩
  intro read hread
  rcases List.mem_append.mp hread with hread | hread
  · exact inv.reads read hread
  · rw [List.mem_singleton.mp hread]
    refine ⟨p, hp, hnode, fun j hj => ?_⟩
    simp only [settledMutations, List.mem_filter, List.mem_range] at hj
    have hm := List.getElem?_eq_getElem hj.1
    rw [hm] at hj
    exact ⟨_, hm, hj.2, hcovers _ (List.getElem_mem hj.1) hj.2⟩

theorem Inv.syncInfo {nodeId : String} (hstep : step ttl s (.syncInfo nodeId) = some s') :
    Inv ttl s' := by
  simp only [step] at hstep
  split at hstep
  · rename_i entry hhit
    cases hstep
    simp only [State.hit, Option.ite_none_left_eq_some, Option.filter_eq_some_iff] at hhit
    obtain ⟨httl, hentry, husable⟩ := hhit
    obtain ⟨p, hp, hnode, -, hcovers⟩ := inv.cached nodeId entry hentry
    exact inv.read hp hnode (hcovers httl husable)
  · cases hstep
    have hp : (s.fetch ttl nodeId).promises[s.promises.length]? =
        some ⟨nodeId, s.version nodeId, false, none, .pending⟩ := by simp [State.fetch]
    exact (inv.fetch nodeId).read hp rfl ((inv.fetch nodeId).covers_version nodeId)

omit inv

theorem Inv.seed (infos : List (String × ℕ)) (inv : Inv ttl s)
    (hversion : ∀ info ∈ infos, info.2 ≤ s.version info.1)
    (hcovers : ∀ info ∈ infos, s.Covers info.1 info.2) : Inv ttl (s.seed infos) := by
  induction infos generalizing s with
  | nil => exact inv
  | cons info infos ih =>
    have hsound : InfoPromise.Sound s.version ⟨info.1, info.2, false, none, .resolved info.2⟩ :=
      ⟨hversion info (by simp), by simp, by simp⟩
    have hentry : (⟨s.promises.length, some s.now⟩ : CacheEntry).promise = s.promises.length := rfl
    refine ih (inv.addPromise hsound hentry (by simp) (hcovers info (by simp))) ?_ ?_
    · exact fun other hother => hversion other (by simp [hother])
    · exact fun other hother => hcovers other (by simp [hother])

include inv

theorem Inv.of_mutations (hnow : s'.now = s.now) (hpromises : s'.promises = s.promises)
    (hbatches : s'.batches = s.batches) (hreads : s'.reads = s.reads)
    (hversion : ∀ nodeId, s.version nodeId ≤ s'.version nodeId)
    (heffects : ∀ m ∈ s'.mutations, ∀ effect ∈ m.effects, effect.1 ∈ m.call.nodes ∧ effect.2 ≤
      s'.version effect.1)
    (hsettled : ∀ (i : ℕ) m, s.mutations[i]? = some m → m.settled = true → ∃ m', s'.mutations[i]? =
      some m' ∧ m'.settled = true ∧ m'.effects = m.effects)
    (hcache : ∀ nodeId entry, s'.cache nodeId = some entry → s.cache nodeId = some entry ∧ (ttl ≠ 0
      → entry.usable ttl s.now = true → ∀ p, s.promises[entry.promise]? = some p → s.Covers nodeId
      p.since → s'.Covers nodeId p.since)) : Inv ttl s' := by
  refine ⟨?_, ?_, heffects, ?_, ?_⟩
  · intro p hp
    rw [hpromises] at hp
    have hsound := inv.promises p hp
    exact ⟨Nat.le_trans hsound.1 (hversion _), hsound.2⟩
  · intro b hb info hinfo
    rw [hbatches] at hb
    exact Nat.le_trans (inv.batches b hb info hinfo) (hversion _)
  · intro nodeId entry hentry
    obtain ⟨hold, hkeeps⟩ := hcache nodeId entry hentry
    obtain ⟨p, hp, hnode, hpending, hcovers⟩ := inv.cached nodeId entry hold
    refine ⟨p, by rw [hpromises, hp], hnode, hpending, fun httl husable => ?_⟩
    rw [hnow] at husable
    exact hkeeps httl husable p hp (hcovers httl husable)
  · refine inv.reads_of hreads ?_ hsettled
    have hnone : s'.promises = s.promises ++ [] := by rw [hpromises, List.append_nil]
    exact promises_append hnone

theorem Inv.mutate (call : MutatingCall) :
    Inv ttl { s with mutations := s.mutations ++ [⟨call, [false], [], false⟩] } := by
  refine inv.of_mutations rfl rfl rfl rfl (fun _ => Nat.le_refl _) ?_ ?_ ?_
  · intro m hm
    rcases List.mem_append.mp hm with hm | hm
    · exact inv.effects m hm
    · rw [List.mem_singleton.mp hm]
      simp
  · intro i m hm hdone
    refine ⟨m, ?_, hdone, rfl⟩
    rw [List.getElem?_append_left (List.getElem?_eq_some_iff.mp hm).1, hm]
  · refine fun nodeId entry hentry => ⟨hentry, fun _ _ p _ hcovers m hm hdone => ?_⟩
    rcases List.mem_append.mp hm with hm | hm
    · exact hcovers m hm hdone
    · rw [List.mem_singleton.mp hm] at hdone
      cases hdone

variable {m : Mutation}

theorem Inv.setMutation {m : Mutation} (m' : Mutation) (hm : s.mutations[i]? = some m)
    (hcall : m'.call = m.call) (heffects : m'.effects = m.effects)
    (hkept : m.settled = true → m'.settled = true) (cache : String → Option CacheEntry)
    (hcache : ∀ nodeId entry, cache nodeId = some entry → s.cache nodeId = some entry ∧ (m.settled
      = false → m'.settled = true → ttl ≠ 0 → entry.usable ttl s.now = true → ∀ p,
      s.promises[entry.promise]? = some p → ∀ v, (nodeId, v) ∈ m.effects → v ≤ p.since)) :
    Inv ttl { s.setMutation i m' with cache := cache } := by
  refine inv.of_mutations rfl rfl rfl rfl (fun _ => Nat.le_refl _) ?_ ?_ ?_
  · intro q hq
    rcases List.mem_or_eq_of_mem_set hq with hq | rfl
    · exact inv.effects q hq
    · rw [heffects, hcall]
      exact inv.effects m (List.mem_of_getElem? hm)
  · intro j q hq hdone
    by_cases hij : i = j
    · subst hij
      obtain rfl := Option.some.inj (hm.symm.trans hq)
      exact ⟨m', List.getElem?_set_self (List.getElem?_eq_some_iff.mp hm).1, hkept hdone, heffects⟩
    · exact ⟨q, by simp only [State.setMutation, List.getElem?_set_ne hij, hq], hdone, rfl⟩
  · intro nodeId entry hentry
    obtain ⟨hold, hnew⟩ := hcache nodeId entry hentry
    refine ⟨hold, fun httl husable p hp hcovers q hq hdone v hv => ?_⟩
    rcases List.mem_or_eq_of_mem_set hq with hq | rfl
    · exact hcovers q hq hdone v hv
    · rw [heffects] at hv
      cases hwas : m.settled with
      | true => exact hcovers m (List.mem_of_getElem? hm) hwas v hv
      | false => exact hnew hwas hdone httl husable p hp v hv

theorem Inv.setAttempts (m' : Mutation) (hm : s.mutations[i]? = some m) (hcall : m'.call = m.call)
    (heffects : m'.effects = m.effects) (hsettled : m'.settled = m.settled) :
    Inv ttl (s.setMutation i m') := by
  refine inv.setMutation m' hm hcall heffects (fun h => hsettled.trans h) s.cache
    fun nodeId entry hentry => ⟨hentry, fun hopen hdone => ?_⟩
  rw [hsettled, hopen] at hdone
  cases hdone

omit inv

theorem version_change_le (s : State) (nodeIds : List String) (nodeId : String) :
    s.version nodeId ≤ (s.change nodeIds).version nodeId := by
  simp only [State.change]
  split
  · exact Nat.le_succ _
  · exact Nat.le_refl _

theorem Inv.takesEffect (inv : Inv ttl s) (hm : s.mutations[i]? = some m)
    (hopen : m.settled = false) (processed : List Bool) :
    Inv ttl ((s.change m.call.nodes).setMutation i { m with
      processed := processed
      effects := m.effects ++ m.call.nodes.map fun nodeId =>
        (nodeId, (s.change m.call.nodes).version nodeId) }) := by
  refine inv.of_mutations rfl rfl rfl rfl (version_change_le s _) ?_ ?_ ?_
  · intro q hq effect heffect
    rcases List.mem_or_eq_of_mem_set hq with hq | rfl
    · obtain ⟨hnode, hle⟩ := inv.effects q hq effect heffect
      exact ⟨hnode, Nat.le_trans hle (version_change_le s _ _)⟩
    · rcases List.mem_append.mp heffect with heffect | heffect
      · obtain ⟨hnode, hle⟩ := inv.effects m (List.mem_of_getElem? hm) effect heffect
        exact ⟨hnode, Nat.le_trans hle (version_change_le s _ _)⟩
      · obtain ⟨nodeId, hnode, rfl⟩ := List.mem_map.mp heffect
        exact ⟨hnode, Nat.le_refl _⟩
  · intro j q hq hdone
    have hij : i ≠ j := by
      rintro rfl
      obtain rfl := Option.some.inj (hm.symm.trans hq)
      rw [hopen] at hdone
      cases hdone
    exact ⟨q, by simp only [State.setMutation, State.change, List.getElem?_set_ne hij, hq], hdone, rfl⟩
  · refine fun nodeId entry hentry => ⟨hentry, fun _ _ p _ hcovers q hq hdone v hv => ?_⟩
    rcases List.mem_or_eq_of_mem_set hq with hq | rfl
    · exact hcovers q hq hdone v hv
    · rw [hopen] at hdone
      cases hdone

end Portuni.SyncInfo
