import Portuni.SyncJobs.Invariant

/-! Every job of a process keeps its invariant along runs whose appends meet a
live pool. -/

namespace Portuni.SyncJobs

open Library.KeyedMutex Library.Runs

universe u

variable {Response : Type u}

/-- The workers of a job are exactly its callers in the lock queues, each under
the key of its node. -/
structure Linked (job : JobRun Response) (locks : Mutex String Caller) : Prop where
  below : ∀ i ∈ job.workers, i < job.cursor
  queued : ∀ i ∈ job.workers, ∃ n, job.nodes[i]? = some n ∧ Caller.worker job.id i ∈ locks n.nodeId
  holders : ∀ key i, Caller.worker job.id i ∈ locks key →
    i ∈ job.workers ∧ ∃ n, job.nodes[i]? = some n ∧ n.nodeId = key

/-- The queues of `locks'` hold the same callers as those of `locks`, but for
the workers of job `id`. -/
def SameOthers (id : String) (locks locks' : Mutex String Caller) : Prop :=
  ∀ key caller, (∀ i, caller ≠ .worker id i) → (caller ∈ locks' key ↔ caller ∈ locks key)

theorem SameOthers.refl (id : String) (locks : Mutex String Caller) :
    SameOthers id locks locks := fun _ _ _ => Iff.rfl

variable {id : String} {locks : Mutex String Caller} {job : JobRun Response}
  {p p' : Process Response} {concurrency : JsNumber}

theorem SameOthers.trans {locks' locks'' : Mutex String Caller}
    (h : SameOthers id locks locks') (h' : SameOthers id locks' locks'') :
    SameOthers id locks locks'' :=
  fun key caller hne => (h' key caller hne).trans (h key caller hne)

@[simp]
theorem takeNext_id (job : JobRun Response) (locks : Mutex String Caller) :
    (takeNext job locks).1.id = job.id := by
  rcases lt_or_ge job.cursor job.nodes.length with h | h
  · rw [takeNext_of_cursor_lt h]
  · rw [takeNext_of_length_le h]

@[simp]
theorem spawn_id (count : ℕ) (job : JobRun Response) (locks : Mutex String Caller) :
    (spawn count job locks).1.id = job.id := by
  induction count generalizing job locks with
  | zero => rfl
  | succ count ih => exact (ih _ _).trans (takeNext_id job locks)

theorem Linked.takeNext (link : Linked job locks) (nodup : ∀ key, (locks key).Nodup) :
    Linked (takeNext job locks).1 (takeNext job locks).2 ∧
      (∀ key, ((takeNext job locks).2 key).Nodup) ∧
      SameOthers job.id locks (takeNext job locks).2 := by
  rcases lt_or_ge job.cursor job.nodes.length with h | h
  · rw [takeNext_of_cursor_lt h]
    have hfresh : job.cursor ∉ job.workers := fun hmem => (link.below _ hmem).false
    refine ⟨⟨?_, ?_, ?_⟩, ?_, ?_⟩
    · intro i hi
      rcases List.mem_append.mp hi with hi | hi
      · exact (link.below i hi).trans (Nat.lt_succ_self _)
      · simp only [List.mem_singleton] at hi
        exact hi ▸ Nat.lt_succ_self _
    · intro i hi
      rcases List.mem_append.mp hi with hi | hi
      · obtain ⟨n, hn, hmem⟩ := link.queued i hi
        have hne : job.cursor ≠ i := fun heq => hfresh (heq ▸ hi)
        refine ⟨n, by simpa [List.getElem?_set_ne hne] using hn, ?_⟩
        exact (Mutex.mem_enqueue_iff _ _ _ _).mpr (.inl hmem)
      · simp only [List.mem_singleton] at hi
        subst hi
        refine ⟨_, List.getElem?_set_self h, ?_⟩
        exact (Mutex.mem_enqueue_iff _ _ _ _).mpr (.inr ⟨rfl, rfl⟩)
    · intro key i hmem
      rcases (Mutex.mem_enqueue_iff _ _ _ _).mp hmem with hmem | ⟨rfl, heq⟩
      · obtain ⟨hi, n, hn, hkey⟩ := link.holders key i hmem
        have hne : job.cursor ≠ i := fun heq => hfresh (heq ▸ hi)
        refine ⟨by simp [hi], n, by simpa [List.getElem?_set_ne hne] using hn, hkey⟩
      · simp only [Caller.worker.injEq, true_and] at heq
        subst heq
        exact ⟨by simp, _, List.getElem?_set_self h, rfl⟩
    · exact Mutex.nodup_enqueue nodup fun hmem => hfresh (link.holders _ _ hmem).1
    · intro key caller hne
      rw [Mutex.mem_enqueue_iff]
      exact or_iff_left fun hcaller => hne _ hcaller.2
  · rw [takeNext_of_length_le h]
    refine ⟨⟨fun i hi => (link.below i hi).trans (Nat.lt_succ_self _), link.queued,
      link.holders⟩, nodup, SameOthers.refl _ _⟩

theorem Linked.spawn (count : ℕ) (link : Linked job locks) (nodup : ∀ key, (locks key).Nodup) :
    Linked (spawn count job locks).1 (spawn count job locks).2 ∧
      (∀ key, ((spawn count job locks).2 key).Nodup) ∧
      SameOthers job.id locks (spawn count job locks).2 := by
  induction count generalizing job locks with
  | zero => exact ⟨link, nodup, SameOthers.refl _ _⟩
  | succ count ih =>
    obtain ⟨hlink, hnodup, hothers⟩ := link.takeNext nodup
    obtain ⟨hlink', hnodup', hothers'⟩ := ih hlink hnodup
    rw [takeNext_id] at hothers'
    exact ⟨hlink', hnodup', hothers.trans hothers'⟩

def IdsMatch (p : Process Response) : Prop :=
  ∀ id job, p.jobs id = some job → job.id = id

theorem IdsMatch.setJob (ids : IdsMatch p) (job : JobRun Response)
    (hjobs : p'.jobs = Function.update p.jobs job.id (some job)) : IdsMatch p' := by
  intro id other hother
  rw [hjobs] at hother
  by_cases hid : id = job.id
  · subst hid
    simp only [Function.update_self, Option.some.injEq] at hother
    rw [hother]
  · rw [Function.update_of_ne hid] at hother
    exact ids id other hother

structure Inv (concurrency : JsNumber) (p : Process Response) : Prop where
  id : IdsMatch p
  job : ∀ id job, p.jobs id = some job → JobInv concurrency job
  linked : ∀ id job, p.jobs id = some job → Linked job p.locks
  absent : ∀ id, p.jobs id = none → ∀ key i, Caller.worker id i ∉ p.locks key
  nodup : ∀ key, (p.locks key).Nodup

theorem Inv.initial (concurrency : JsNumber) :
    Inv concurrency (Process.initial : Process Response) := by
  constructor <;> simp [IdsMatch, Process.initial, Mutex.free]

theorem Linked.congr {locks' : Mutex String Caller}
    (link : Linked job locks) (hid : job.id ≠ id) (h : SameOthers id locks locks') :
    Linked job locks' := by
  have hsame : ∀ key i, Caller.worker job.id i ∈ locks' key ↔
      Caller.worker job.id i ∈ locks key := by
    intro key i
    exact h key _ fun j heq => hid (Caller.worker.inj heq).1
  refine ⟨link.below, fun i hi => ?_, fun key i hmem => ?_⟩
  · obtain ⟨n, hn, hmem⟩ := link.queued i hi
    exact ⟨n, hn, (hsame _ _).mpr hmem⟩
  · exact link.holders key i ((hsame _ _).mp hmem)

theorem Inv.setJob (inv : Inv concurrency p) (job : JobRun Response)
    (hjobs : p'.jobs = Function.update p.jobs job.id (some job)) (hjob : JobInv concurrency job)
    (hlink : Linked job p'.locks) (hnodup : ∀ key, (p'.locks key).Nodup)
    (hothers : SameOthers job.id p.locks p'.locks) : Inv concurrency p' := by
  have hcase : ∀ other old, p'.jobs other = some old →
      (other = job.id ∧ old = job) ∨ (other ≠ job.id ∧ p.jobs other = some old) := by
    intro other old hold
    rw [hjobs] at hold
    by_cases hother : other = job.id
    · subst hother
      exact .inl ⟨rfl, by simpa using hold.symm⟩
    · exact .inr ⟨hother, by simpa [Function.update_of_ne hother] using hold⟩
  refine ⟨inv.id.setJob job hjobs, ?_, ?_, ?_, hnodup⟩
  · intro other old hold
    rcases hcase other old hold with ⟨rfl, rfl⟩ | ⟨_, hp⟩
    · exact hjob
    · exact inv.job other old hp
  · intro other old hold
    rcases hcase other old hold with ⟨rfl, rfl⟩ | ⟨hother, hp⟩
    · exact hlink
    · refine (inv.linked other old hp).congr ?_ hothers
      rwa [inv.id other old hp]
  · intro other hnone key i hmem
    have hother : other ≠ job.id := by
      rintro rfl
      simp [hjobs] at hnone
    rw [hjobs, Function.update_of_ne hother] at hnone
    refine inv.absent other hnone key i ((hothers key _ ?_).mp hmem)
    intro j heq
    exact hother (Caller.worker.inj heq).1

theorem Inv.setLocks (inv : Inv concurrency p) (hnodup : ∀ key, (locks key).Nodup)
    (hworkers : ∀ key id i, Caller.worker id i ∈ locks key ↔ Caller.worker id i ∈ p.locks key) :
    Inv concurrency { p with locks } := by
  refine ⟨inv.id, inv.job, ?_, ?_, hnodup⟩
  · intro id job hjob
    obtain ⟨hbelow, hqueued, hholders⟩ := inv.linked id job hjob
    refine ⟨hbelow, fun i hi => ?_, fun key i hmem => ?_⟩
    · obtain ⟨n, hn, hmem⟩ := hqueued i hi
      exact ⟨n, hn, (hworkers _ _ _).mpr hmem⟩
    · exact hholders key i ((hworkers _ _ _).mp hmem)
  · intro id hnone key i hmem
    exact inv.absent id hnone key i ((hworkers _ _ _).mp hmem)

/-- Every append that adds a node meets a pool whose shared cursor has not left
the list: no worker of the job has exited yet. -/
def AppendsMeetPool (p : Process Response) : Action Response → Prop
  | .startSyncJob userId nodeIds _ _ =>
    ∀ running, currentRunningJob p userId = some running →
      running.cursor ≤ running.nodes.length ∨
        ∀ nodeId ∈ nodeIds, ∃ n ∈ running.nodes, n.nodeId = nodeId
  | _ => True

instance (p : Process Response) : (a : Action Response) → Decidable (AppendsMeetPool p a)
  | .startSyncJob userId nodeIds _ _ =>
    inferInstanceAs (Decidable (∀ running ∈ currentRunningJob p userId,
      running.cursor ≤ running.nodes.length ∨
        ∀ nodeId ∈ nodeIds, ∃ n ∈ running.nodes, n.nodeId = nodeId))
  | .settle _ _ _ => isTrue trivial
  | .drained _ _ => isTrue trivial
  | .retentionEnds _ => isTrue trivial
  | .otherQueues _ _ => isTrue trivial
  | .otherFinishes _ _ => isTrue trivial
  | .elsewhere => isTrue trivial

theorem currentRunningJob_eq_some {userId : String} (h : currentRunningJob p userId = some job) :
    job.status = .running ∧ ∃ id, p.currentJobIdByUser userId = some id ∧ p.jobs id = some job := by
  unfold currentRunningJob at h
  split at h
  · cases h
  · next id hid =>
    split at h
    · next found hfound =>
      split at h
      · next hrunning =>
        cases h
        exact ⟨hrunning, id, hid, hfound⟩
      · cases h
    · cases h

theorem Linked.append (link : Linked job locks) (nodeIds : List String) :
    Linked { job with nodes := appendMissing job.nodes nodeIds } locks := by
  refine ⟨link.below, fun i hi => ?_, fun key i hmem => ?_⟩
  · obtain ⟨n, hn, hmem⟩ := link.queued i hi
    exact ⟨n, getElem?_appendMissing_eq_some _ _ hn, hmem⟩
  · obtain ⟨hi, n, hn, hkey⟩ := link.holders key i hmem
    exact ⟨hi, n, getElem?_appendMissing_eq_some _ _ hn, hkey⟩

theorem Linked.settle
    (link : Linked job locks) (nodup : ∀ key, (locks key).Nodup) (hworkers : job.workers.Nodup)
    {index : ℕ} {n : SyncJobNode Response} (hn : job.nodes[index]? = some n)
    (hold : locks.Holds n.nodeId (.worker job.id index)) (outcome : Except String Response) :
    Linked { job with
        nodes := job.nodes.set index (n.settle outcome)
        workers := job.workers.erase index }
      (locks.release n.nodeId) := by
  have hrelease : ∀ {key caller}, caller ∈ locks.release n.nodeId key ↔
      caller ∈ locks key ∧ ¬ (key = n.nodeId ∧ caller = .worker job.id index) :=
    Mutex.mem_release_iff (nodup _) hold
  refine ⟨?_, ?_, ?_⟩
  · intro i hi
    exact link.below i (List.mem_of_mem_erase hi)
  · intro i hi
    obtain ⟨hne, hi⟩ := hworkers.mem_erase_iff.mp hi
    obtain ⟨m, hm, hmem⟩ := link.queued i hi
    refine ⟨m, by simpa [List.getElem?_set_ne (Ne.symm hne)] using hm, hrelease.mpr ⟨hmem, ?_⟩⟩
    rintro ⟨-, heq⟩
    exact hne (Caller.worker.inj heq).2
  · intro key i hmem
    obtain ⟨hmem, hnot⟩ := hrelease.mp hmem
    obtain ⟨hi, m, hm, hkey⟩ := link.holders key i hmem
    have hne : i ≠ index := by
      rintro rfl
      rw [hn, Option.some.injEq] at hm
      exact hnot ⟨by rw [← hkey, hm], rfl⟩
    exact ⟨hworkers.mem_erase_iff.mpr ⟨hne, hi⟩, m,
      by simpa [List.getElem?_set_ne (Ne.symm hne)] using hm, hkey⟩

theorem Inv.settleNode (inv : Inv concurrency p) (hjob : p.jobs id = some job)
    {index : ℕ} {outcome : Except String Response}
    (hstep : settleNode p job index outcome = some p') : Inv concurrency p' := by
  obtain rfl := inv.id id job hjob
  have hinv := inv.job _ job hjob
  unfold SyncJobs.settleNode at hstep
  split at hstep
  · cases hstep
  · next n hn =>
    split at hstep
    · next hready =>
      obtain ⟨hindex, hold⟩ := hready
      have hrunning : job.status = .running := by
        cases hstatus : job.status with
        | running => rfl
        | done => simp [(hinv.finished hstatus).1] at hindex
      have hlink := (inv.linked _ job hjob).settle inv.nodup hinv.nodup hn hold outcome
      have hnodup := Mutex.nodup_release inv.nodup n.nodeId
      obtain ⟨hlink', hnodup', hothers⟩ := hlink.takeNext hnodup
      simp only [Option.some.injEq] at hstep
      subst hstep
      refine inv.setJob _ rfl (hinv.settle _ hn hindex hrunning outcome) hlink' hnodup' ?_
      rw [takeNext_id]
      refine SameOthers.trans (fun key caller hne => ?_) hothers
      rw [Mutex.mem_release_iff (inv.nodup _) hold]
      exact and_iff_left fun hcaller => hne index hcaller.2
    · cases hstep

variable (hone : concurrency.Admits 1)

include hone

theorem Inv.startSyncJob (inv : Inv concurrency p) {userId startedAt : String}
    {nodeIds : List String} (hfresh : p.jobs id = none)
    (hmeet : AppendsMeetPool p (.startSyncJob userId nodeIds id startedAt)) :
    Inv concurrency (startSyncJob concurrency p userId nodeIds id startedAt) := by
  unfold SyncJobs.startSyncJob
  split
  · next running hrun =>
    obtain ⟨hstatus, current, -, hjob⟩ := currentRunningJob_eq_some hrun
    obtain rfl := inv.id current running hjob
    have hlink := (inv.linked _ running hjob).append nodeIds
    have hinv := inv.job _ running hjob
    refine inv.setJob { running with nodes := appendMissing running.nodes nodeIds } rfl ?_ hlink
      inv.nodup (SameOthers.refl _ _)
    rcases hmeet running hrun with hcursor | hpresent
    · exact hinv.append nodeIds hstatus hcursor
    · rw [appendMissing_eq_self hpresent]
      exact hinv
  · have hinv := @JobInv.created Response _ hone id userId startedAt nodeIds
    have hlink : Linked
        ({ id, userId, status := .running, startedAt, finishedAt := none
           nodes := nodeIds.map .pending, cursor := 0, workers := [], picked := [] } :
          JobRun Response) p.locks := by
      refine ⟨by simp, by simp, fun key i hmem => ?_⟩
      exact absurd hmem (inv.absent id hfresh key i)
    obtain ⟨hinv', -, -⟩ := hinv.startRound hone p.locks rfl rfl (Nat.zero_le _)
    obtain ⟨hlink', hnodup', hothers⟩ := hlink.spawn
      (poolSize concurrency (nodeIds.map (SyncJobNode.pending : String → SyncJobNode Response)).length)
      inv.nodup
    refine inv.setJob _ rfl hinv' hlink' hnodup' ?_
    rw [startRound, spawn_id]
    exact hothers

theorem Inv.drained (inv : Inv concurrency p) {now : String} (hjob : p.jobs id = some job)
    (hrunning : job.status = .running) (hworkers : job.workers = []) :
    Inv concurrency (drained concurrency p job now) := by
  obtain rfl := inv.id id job hjob
  have hinv := inv.job _ job hjob
  have hlink := inv.linked _ job hjob
  unfold SyncJobs.drained
  split
  · next hpending =>
    have hcursor := (hinv.any_pending_iff hworkers).mp hpending
    obtain ⟨hinv', -, -⟩ := hinv.startRound hone p.locks hrunning hworkers hcursor.le
    obtain ⟨hlink', hnodup', hothers⟩ :=
      hlink.spawn (poolSize concurrency (job.nodes.length - job.cursor)) inv.nodup
    refine inv.setJob _ rfl hinv' hlink' hnodup' ?_
    rw [startRound, spawn_id]
    exact hothers
  · next hpending =>
    have hcursor : job.nodes.length ≤ job.cursor := by
      rw [hinv.any_pending_iff hworkers] at hpending
      omega
    refine inv.setJob { job with status := .done, finishedAt := some now } rfl ?_
      ⟨hlink.below, hlink.queued, hlink.holders⟩ inv.nodup (SameOthers.refl _ _)
    exact { hinv with finished := fun _ => ⟨hworkers, hcursor⟩ }

theorem Inv.step (inv : Inv concurrency p) {a : Action Response} (hmeet : AppendsMeetPool p a)
    (hstep : step concurrency p a = some p') : Inv concurrency p' := by
  cases a with
  | startSyncJob userId nodeIds id startedAt =>
    simp only [SyncJobs.step, Option.ite_none_right_eq_some, Option.some.injEq,
      Option.isNone_iff_eq_none] at hstep
    exact hstep.2 ▸ inv.startSyncJob hone hstep.1 hmeet
  | settle id index outcome =>
    obtain ⟨job, hjob, hsettle⟩ := Option.bind_eq_some_iff.mp hstep
    exact inv.settleNode hjob hsettle
  | drained id now =>
    simp only [SyncJobs.step] at hstep
    split at hstep
    · next job hjob =>
      simp only [Option.ite_none_right_eq_some, Option.some.injEq] at hstep
      exact hstep.2 ▸ inv.drained hone hjob hstep.1.1 hstep.1.2
    · cases hstep
  | retentionEnds id =>
    simp only [SyncJobs.step] at hstep
    split at hstep
    · next job hjob =>
      simp only [Option.ite_none_right_eq_some, Option.some.injEq] at hstep
      obtain ⟨hdone, rfl⟩ := hstep
      have hworkers := ((inv.job id job hjob).finished hdone).1
      have hcase : ∀ other old, Function.update p.jobs id none other = some old →
          p.jobs other = some old := by
        intro other old hold
        by_cases hother : other = id
        · simp [hother] at hold
        · simpa [Function.update_of_ne hother] using hold
      refine ⟨fun other old hold => inv.id other old (hcase other old hold),
        fun other old hold => inv.job other old (hcase other old hold),
        fun other old hold => inv.linked other old (hcase other old hold), ?_, inv.nodup⟩
      intro other hnone key i hmem
      by_cases hother : other = id
      · subst hother
        rw [← inv.id other job hjob] at hmem
        have := ((inv.linked other job hjob).holders key i hmem).1
        simp [hworkers] at this
      · refine inv.absent other ?_ key i hmem
        simpa [Function.update_of_ne hother] using hnone
    · cases hstep
  | otherQueues nodeId call =>
    simp only [SyncJobs.step, Option.ite_none_left_eq_some, Option.some.injEq] at hstep
    obtain ⟨hfresh, rfl⟩ := hstep
    refine inv.setLocks (Mutex.nodup_enqueue inv.nodup hfresh) fun key id i => ?_
    simp [Mutex.mem_enqueue_iff]
  | otherFinishes nodeId call =>
    simp only [SyncJobs.step, Option.ite_none_right_eq_some, Option.some.injEq] at hstep
    obtain ⟨hold, rfl⟩ := hstep
    refine inv.setLocks (Mutex.nodup_release inv.nodup nodeId) fun key id i => ?_
    simp [Mutex.mem_release_iff (inv.nodup _) hold]
  | elsewhere =>
    simp only [SyncJobs.step, Option.some.injEq] at hstep
    exact hstep ▸ inv

theorem Inv.of_run {acts : List (Action Response)}
    (run : Run (SyncJobs.step concurrency) AppendsMeetPool Process.initial acts p) :
    Inv concurrency p :=
  run.inv _ (Inv.initial concurrency) fun _ _ _ inv hmeet hstep => inv.step hone hmeet hstep

omit hone

/-- The step is a turn of `runJob` of job `id`: one of its workers goes round
its loop, or the outer loop checks for pending nodes. -/
def Action.IsTurnOf (id : String) : Action Response → Prop
  | .settle jobId _ _ => jobId = id
  | .drained jobId _ => jobId = id
  | _ => False

theorem keeps_of_not_turn
    (ids : IdsMatch p) {a : Action Response} (hstep : step concurrency p a = some p')
    (hjob : p.jobs id = some job) (hrunning : job.status = .running) (hturn : ¬ a.IsTurnOf id) :
    ∃ job', p'.jobs id = some job' ∧ job'.status = .running ∧ job'.cursor = job.cursor ∧
      job'.workers = job.workers ∧
      ∀ (i : ℕ) (n : SyncJobNode Response), job.nodes[i]? = some n → job'.nodes[i]? = some n := by
  have hset : ∀ other : JobRun Response, other.id ≠ id →
      (p.setJob other).jobs id = some job := by
    intro other hother
    simpa [Process.setJob, Function.update_of_ne (Ne.symm hother)] using hjob
  have hsame : p.jobs id = p'.jobs id → ∃ job', p'.jobs id = some job' ∧
      job'.status = .running ∧ job'.cursor = job.cursor ∧ job'.workers = job.workers ∧
      ∀ (i : ℕ) (n : SyncJobNode Response), job.nodes[i]? = some n → job'.nodes[i]? = some n :=
    fun heq => ⟨job, heq ▸ hjob, hrunning, rfl, rfl, fun _ _ h => h⟩
  cases a with
  | startSyncJob userId nodeIds newId startedAt =>
    simp only [step, Option.ite_none_right_eq_some, Option.some.injEq,
      Option.isNone_iff_eq_none] at hstep
    obtain ⟨hfresh, rfl⟩ := hstep
    unfold startSyncJob
    split
    · next running hrun =>
      obtain ⟨-, current, -, hcurrent⟩ := currentRunningJob_eq_some hrun
      obtain rfl := ids current running hcurrent
      by_cases hid : running.id = id
      · rw [hid, hjob, Option.some.injEq] at hcurrent
        subst hcurrent
        refine ⟨{ job with nodes := appendMissing job.nodes nodeIds },
          by simp [Process.setJob, hid], hrunning, rfl, rfl, fun i n hn => ?_⟩
        exact getElem?_appendMissing_eq_some _ _ hn
      · exact ⟨job, hset _ hid, hrunning, rfl, rfl, fun _ _ h => h⟩
    · refine ⟨job, hset _ ?_, hrunning, rfl, rfl, fun _ _ h => h⟩
      simp only [startRound, spawn_id]
      rintro rfl
      rw [hfresh] at hjob
      cases hjob
  | settle jobId index outcome =>
    obtain ⟨other, hother, hsettle⟩ := Option.bind_eq_some_iff.mp hstep
    obtain rfl := ids jobId other hother
    unfold settleNode at hsettle
    split at hsettle
    · cases hsettle
    · split at hsettle
      · simp only [Option.some.injEq] at hsettle
        subst hsettle
        exact ⟨job, hset _ (by rw [takeNext_id]; exact hturn), hrunning, rfl, rfl, fun _ _ h => h⟩
      · cases hsettle
  | drained jobId now =>
    simp only [step] at hstep
    split at hstep
    · next other hother =>
      obtain rfl := ids jobId other hother
      simp only [Option.ite_none_right_eq_some, Option.some.injEq] at hstep
      obtain ⟨-, rfl⟩ := hstep
      unfold drained
      split
      · exact ⟨job, hset _ (by rw [startRound, spawn_id]; exact hturn), hrunning, rfl, rfl, fun _ _ h => h⟩
      · exact ⟨job, hset _ hturn, hrunning, rfl, rfl, fun _ _ h => h⟩
    · cases hstep
  | retentionEnds jobId =>
    simp only [step] at hstep
    split at hstep
    · next other hother =>
      simp only [Option.ite_none_right_eq_some, Option.some.injEq] at hstep
      obtain ⟨hdone, rfl⟩ := hstep
      refine hsame ?_
      have hne : id ≠ jobId := by
        rintro rfl
        rw [hjob, Option.some.injEq] at hother
        simp [← hother, hrunning] at hdone
      exact (Function.update_of_ne hne _ _).symm
    · cases hstep
  | otherQueues nodeId call =>
    simp only [step, Option.ite_none_left_eq_some, Option.some.injEq] at hstep
    exact hsame (hstep.2 ▸ rfl)
  | otherFinishes nodeId call =>
    simp only [step, Option.ite_none_right_eq_some, Option.some.injEq] at hstep
    exact hsame (hstep.2 ▸ rfl)
  | elsewhere =>
    simp only [step, Option.some.injEq] at hstep
    exact hsame (hstep ▸ rfl)

end Portuni.SyncJobs
