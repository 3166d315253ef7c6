import Portuni.SyncJobs.Safety

/-! A job whose appends all meet a live pool comes to its end in every fair
execution, and one that misses the pool never does. -/

namespace Portuni.SyncJobs

open Library.KeyedMutex Library.Runs

universe u

variable {Response : Type u}

def Action.Releases (p : Process Response) (key : String) : Action Response → Prop
  | .settle jobId index _ =>
    ∃ job n, p.jobs jobId = some job ∧ job.nodes[index]? = some n ∧ n.nodeId = key
  | .otherFinishes nodeId _ => nodeId = key
  | _ => False

/-- What the environment owes a process: every call that holds a node's lock
finishes or fails, and a round whose workers have all returned is noticed. -/
structure Fair {concurrency : JsNumber} {Allowed : Process Response → Action Response → Prop}
    (e : Execution (step concurrency) Allowed Process.initial) : Prop where
  callsSettle : ∀ t key, (e.state t).locks key ≠ [] →
    ∃ t', t ≤ t' ∧ (e.action t').Releases (e.state t') key
  roundsReturn : ∀ t id job, (e.state t).jobs id = some job → job.status = .running →
    job.workers = [] → ∃ t', t ≤ t' ∧ ∃ now, e.action t' = .drained id now

/-- The contract of the job runner, for the runs whose steps `Allowed` admits:
bounded concurrency, one pick a node, all nodes settled when a job is done, and
every job done in the end once no further node is added to it. -/
structure JobsCorrect (Response : Type u) (concurrency : JsNumber)
    (Allowed : Process Response → Action Response → Prop) : Prop where
  inFlight : ∀ acts p, Run (step concurrency) Allowed Process.initial acts p →
    ∀ id job, p.jobs id = some job → concurrency.Admits (callsInFlight p job).length
  pickedOnce : ∀ acts p, Run (step concurrency) Allowed Process.initial acts p →
    ∀ id job, p.jobs id = some job → ∀ i, job.picked.count i ≤ 1
  doneSettled : ∀ acts p, Run (step concurrency) Allowed Process.initial acts p →
    ∀ id job, p.jobs id = some job → job.status = .done →
      ∀ i n, job.nodes[i]? = some n →
        job.picked.count i = 1 ∧ (n.status = .done ∨ n.status = .error)
  terminates : ∀ e : Execution (step concurrency) Allowed Process.initial, Fair e →
    ∀ t id job, (e.state t).jobs id = some job →
      (∃ bound, ∀ t' job', (e.state t').jobs id = some job' → job'.nodes.length ≤ bound) →
      ∃ t', t ≤ t' ∧ ∃ job', (e.state t').jobs id = some job' ∧ job'.status = .done

theorem takeNext_cursor (job : JobRun Response) (locks : Mutex String Caller) :
    (takeNext job locks).1.cursor = job.cursor + 1 := by
  rcases lt_or_ge job.cursor job.nodes.length with h | h
  · rw [takeNext_of_cursor_lt h]
  · rw [takeNext_of_length_le h]

theorem prefix_takeNext (job : JobRun Response) (locks : Mutex String Caller) (key : String) :
    locks key <+: (takeNext job locks).2 key := by
  rcases lt_or_ge job.cursor job.nodes.length with h | h
  · rw [takeNext_of_cursor_lt h]
    exact Mutex.prefix_enqueue _ _ _ _
  · rewrite [takeNext_of_length_le h]
    exact List.prefix_rfl

theorem prefix_spawn (count : ℕ) (job : JobRun Response) (locks : Mutex String Caller)
    (key : String) : locks key <+: (spawn count job locks).2 key := by
  induction count generalizing job locks with
  | zero => exact List.prefix_rfl
  | succ count ih => exact (prefix_takeNext job locks key).trans (ih _ _)

variable {concurrency : JsNumber} {p p' : Process Response} {a : Action Response} {id : String}
  {job : JobRun Response}

theorem turn_progress (hone : concurrency.Admits 1) (inv : Inv concurrency p)
    (hstep : step concurrency p a = some p') (hjob : p.jobs id = some job) (hturn : a.IsTurnOf id) :
    ∃ job', p'.jobs id = some job' ∧ (job.cursor < job'.cursor ∨ job'.status = .done) := by
  obtain rfl := inv.id id job hjob
  cases a with
  | settle jobId index outcome =>
    obtain rfl : jobId = job.id := hturn
    simp only [step, hjob, Option.bind_some] at hstep
    unfold settleNode at hstep
    split at hstep
    · cases hstep
    · split at hstep
      · simp only [Option.some.injEq] at hstep
        subst hstep
        refine ⟨_, by simp only [Process.setJob, takeNext_id, Function.update_self]; rfl, .inl ?_⟩
        rw [takeNext_cursor]
        exact Nat.lt_succ_self _
      · cases hstep
  | drained jobId now =>
    obtain rfl : jobId = job.id := hturn
    simp only [step, hjob, Option.ite_none_right_eq_some, Option.some.injEq] at hstep
    obtain ⟨⟨hrunning, hworkers⟩, rfl⟩ := hstep
    have hinv := inv.job _ job hjob
    unfold drained
    split
    · next hpending =>
      have hcursor := (hinv.any_pending_iff hworkers).mp hpending
      obtain ⟨-, -, hround⟩ := hinv.startRound hone p.locks hrunning hworkers hcursor.le
      refine ⟨(startRound concurrency job p.locks).1, by simp [Process.setJob, startRound], .inl ?_⟩
      have hpos := poolSize_pos hone (Nat.sub_pos_of_lt hcursor)
      omega
    · exact ⟨{ job with status := .done, finishedAt := some now }, by simp [Process.setJob],
        .inr rfl⟩
  | startSyncJob _ _ _ _ | retentionEnds _ | otherQueues _ _ | otherFinishes _ _ | elsewhere =>
    exact hturn.elim

variable {key : String}

theorem prefix_of_not_releases (hstep : step concurrency p a = some p') (hkeep : ¬ a.Releases p key) :
    p.locks key <+: p'.locks key := by
  cases a with
  | startSyncJob userId nodeIds newId startedAt =>
    simp only [step, Option.ite_none_right_eq_some, Option.some.injEq] at hstep
    obtain ⟨-, rfl⟩ := hstep
    unfold startSyncJob
    split
    · exact List.prefix_rfl
    · exact prefix_spawn _ _ _ _
  | settle jobId index outcome =>
    obtain ⟨job, hjob, hsettle⟩ := Option.bind_eq_some_iff.mp hstep
    unfold settleNode at hsettle
    split at hsettle
    · cases hsettle
    · next n hn =>
      split at hsettle
      · simp only [Option.some.injEq] at hsettle
        subst hsettle
        have hne : key ≠ n.nodeId := fun heq => hkeep ⟨job, n, hjob, hn, heq.symm⟩
        rw [← Mutex.release_of_ne p.locks _ _ hne]
        exact prefix_takeNext _ _ _
      · cases hsettle
  | drained jobId now =>
    simp only [step] at hstep
    split at hstep
    · simp only [Option.ite_none_right_eq_some, Option.some.injEq] at hstep
      obtain ⟨-, rfl⟩ := hstep
      unfold drained
      split
      · exact prefix_spawn _ _ _ _
      · exact List.prefix_rfl
    · cases hstep
  | retentionEnds jobId =>
    simp only [step] at hstep
    split at hstep
    · simp only [Option.ite_none_right_eq_some, Option.some.injEq] at hstep
      exact hstep.2 ▸ List.prefix_rfl
    · cases hstep
  | otherQueues nodeId call =>
    simp only [step, Option.ite_none_left_eq_some, Option.some.injEq] at hstep
    exact hstep.2 ▸ Mutex.prefix_enqueue _ _ _ _
  | otherFinishes nodeId call =>
    simp only [step, Option.ite_none_right_eq_some, Option.some.injEq] at hstep
    obtain ⟨-, rfl⟩ := hstep
    have hne : key ≠ nodeId := fun heq => hkeep heq.symm
    rewrite [← Mutex.release_of_ne p.locks _ _ hne]
    exact List.prefix_rfl
  | elsewhere =>
    simp only [step, Option.some.injEq] at hstep
    exact hstep ▸ List.prefix_rfl

theorem prefix_of_releases (hstep : step concurrency p a = some p') (hrelease : a.Releases p key) :
    (p.locks key).tail <+: p'.locks key := by
  cases a with
  | settle jobId index outcome =>
    obtain ⟨job, n, hjob, hn, rfl⟩ := hrelease
    simp only [step, hjob, Option.bind_some, settleNode, hn, Option.ite_none_right_eq_some,
      Option.some.injEq] at hstep
    obtain ⟨-, rfl⟩ := hstep
    rw [← Mutex.release_self]
    exact prefix_takeNext _ _ _
  | otherFinishes nodeId call =>
    obtain rfl : nodeId = key := hrelease
    simp only [step, Option.ite_none_right_eq_some, Option.some.injEq] at hstep
    obtain ⟨-, rfl⟩ := hstep
    rewrite [← Mutex.release_self]
    exact List.prefix_rfl
  | startSyncJob _ _ _ _ | drained _ _ | retentionEnds _ | otherQueues _ _ | elsewhere =>
    exact hrelease.elim

theorem turn_of_releases (inv : Inv concurrency p) (hstep : step concurrency p a = some p')
    {key id : String} {index : ℕ} (hold : p.locks.Holds key (.worker id index))
    (hrelease : a.Releases p key) : a.IsTurnOf id := by
  cases a with
  | settle jobId other outcome =>
    obtain ⟨job, n, hjob, hn, rfl⟩ := hrelease
    simp only [step, hjob, Option.bind_some, settleNode, hn, Option.ite_none_right_eq_some] at hstep
    have heq : Caller.worker job.id other = Caller.worker id index :=
      Option.some.inj (hstep.1.2.symm.trans hold)
    exact (inv.id jobId job hjob).symm.trans (Caller.worker.inj heq).1
  | otherFinishes nodeId call =>
    obtain rfl : nodeId = key := hrelease
    simp only [step, Option.ite_none_right_eq_some] at hstep
    have heq : Caller.other call = Caller.worker id index :=
      Option.some.inj (hstep.1.symm.trans hold)
    cases heq
  | startSyncJob _ _ _ _ | drained _ _ | retentionEnds _ | otherQueues _ _ | elsewhere =>
    exact hrelease.elim

section

variable {concurrency : JsNumber}
  (e : Execution (@step Response concurrency) AppendsMeetPool Process.initial)

theorem next_release (fair : Fair e) {caller : Caller} {place t : ℕ}
    (hplace : ((e.state t).locks key)[place]? = some caller) :
    ∃ m, t ≤ m ∧ ((e.state m).locks key)[place]? = some caller ∧
      (e.action m).Releases (e.state m) key := by
  have hne : (e.state t).locks key ≠ [] := by
    rintro hnil
    simp [hnil] at hplace
  exact e.until_first (fun p a => a.Releases p key)
    (fun p => (p.locks key)[place]? = some caller)
    (fun n hplace hkeep => Mutex.place_of_prefix (prefix_of_not_releases (e.next n) hkeep) hplace)
    hplace (fair.callsSettle t key hne)

theorem holds_of_waiting (fair : Fair e) {caller : Caller} {position t : ℕ}
    (hwaits : ((e.state t).locks key)[position + 1]? = some caller) :
    ∃ m, t ≤ m ∧ caller ∈ ((e.state m).locks key).tail ∧
      (e.state (m + 1)).locks.Holds key caller := by
  induction position generalizing t with
  | zero =>
    obtain ⟨m, hm, hplace, hrelease⟩ := next_release e fair hwaits
    have hhead := Mutex.place_of_prefix (prefix_of_releases (e.next m) hrelease)
      (by rwa [List.getElem?_tail])
    refine ⟨m, hm, List.mem_of_getElem? (by rwa [List.getElem?_tail]), ?_⟩
    rwa [Mutex.Holds, List.head?_eq_getElem?]
  | succ position ih =>
    obtain ⟨m, hm, hplace, hrelease⟩ := next_release e fair hwaits
    obtain ⟨m', hm', hfound⟩ := ih (Mutex.place_of_prefix (prefix_of_releases (e.next m) hrelease)
      (by rwa [List.getElem?_tail]))
    exact ⟨m', by omega, hfound⟩

variable (hone : concurrency.Admits 1)

include hone

theorem turn_of_queued (fair : Fair e) {id key : String} {index position t : ℕ}
    (hqueued : ((e.state t).locks key)[position]? = some (.worker id index)) :
    ∃ t', t ≤ t' ∧ (e.action t').IsTurnOf id := by
  have hholder : ∀ t, (e.state t).locks.Holds key (.worker id index) →
      ∃ t', t ≤ t' ∧ (e.action t').IsTurnOf id := by
    intro t hold
    rw [Mutex.Holds, List.head?_eq_getElem?] at hold
    obtain ⟨m, hm, hplace, hrelease⟩ := next_release e fair hold
    rw [← List.head?_eq_getElem?] at hplace
    exact ⟨m, hm, turn_of_releases (Inv.of_run hone (e.run m)) (e.next m) hplace hrelease⟩
  cases position with
  | zero => exact hholder t (by rwa [Mutex.Holds, List.head?_eq_getElem?])
  | succ position =>
    obtain ⟨m, hm, -, hold⟩ := holds_of_waiting e fair hqueued
    obtain ⟨t', ht', hturn⟩ := hholder (m + 1) hold
    exact ⟨t', by omega, hturn⟩

theorem eventually_turn (fair : Fair e) {t : ℕ} (hjob : (e.state t).jobs id = some job)
    (hrunning : job.status = .running) :
    ∃ t', t ≤ t' ∧ (e.action t').IsTurnOf id ∧ ∃ job', (e.state t').jobs id = some job' ∧
      job'.status = .running ∧ job'.cursor = job.cursor := by
  have hcomes : ∃ t', t ≤ t' ∧ (e.action t').IsTurnOf id := by
    cases hworkers : job.workers with
    | nil =>
      obtain ⟨t', ht', now, hdrained⟩ := fair.roundsReturn t id job hjob hrunning hworkers
      exact ⟨t', ht', by simp [hdrained, Action.IsTurnOf]⟩
    | cons index rest =>
      have inv := Inv.of_run hone (e.run t)
      obtain ⟨n, -, hmem⟩ := (inv.linked id job hjob).queued index (by simp [hworkers])
      obtain ⟨position, hposition⟩ := List.mem_iff_getElem?.mp hmem
      rw [inv.id id job hjob] at hposition
      exact turn_of_queued e hone fair hposition
  obtain ⟨t', ht', ⟨job', hjob', hrunning', hcursor⟩, hturn⟩ :=
    e.until_first (fun _ a => a.IsTurnOf id)
      (fun p => ∃ job', p.jobs id = some job' ∧ job'.status = .running ∧ job'.cursor = job.cursor)
      (fun n ⟨job', hjob', hrunning', hcursor⟩ hturn => by
        obtain ⟨job'', hjob'', hrunning'', hcursor', -⟩ :=
          keeps_of_not_turn (Inv.of_run hone (e.run n)).id (e.next n) hjob' hrunning' hturn
        exact ⟨job'', hjob'', hrunning'', hcursor'.trans hcursor⟩)
      ⟨job, hjob, hrunning, rfl⟩ hcomes
  exact ⟨t', ht', hturn, job', hjob', hrunning', hcursor⟩

theorem eventually_done_or_cursor (fair : Fair e) {t : ℕ} (hjob : (e.state t).jobs id = some job)
    (k : ℕ) :
    ∃ t', t ≤ t' ∧ ∃ job', (e.state t').jobs id = some job' ∧
      (job'.status = .done ∨ k ≤ job'.cursor) := by
  induction k with
  | zero => exact ⟨t, le_rfl, job, hjob, .inr (Nat.zero_le _)⟩
  | succ k ih =>
    obtain ⟨t', ht', job', hjob', hcase⟩ := ih
    cases hstatus : job'.status with
    | done => exact ⟨t', ht', job', hjob', .inl hstatus⟩
    | running =>
      have hk : k ≤ job'.cursor := hcase.resolve_left (by simp [hstatus])
      obtain ⟨m, hm, hturn, before, hbefore, -, hcursor⟩ :=
        eventually_turn e hone fair hjob' hstatus
      obtain ⟨after, hafter, hprogress⟩ :=
        turn_progress hone (Inv.of_run hone (e.run m)) (e.next m) hbefore hturn
      refine ⟨m + 1, by omega, after, hafter, ?_⟩
      rcases hprogress with hlt | hdone
      · exact .inr (by omega)
      · exact .inl hdone

end

/-- A job runner with a usable concurrency is correct on every run whose appends
meet a live pool. -/
theorem jobs_correct_of_appendsMeetPool (Response : Type u) (env : Option JsNumber)
    (henv : env ≠ some .nan) :
    JobsCorrect Response (jobConcurrency env) AppendsMeetPool := by
  have hone := jobConcurrency_admits_one henv
  refine ⟨?_, ?_, ?_, ?_⟩
  · intro acts p run id job hjob
    exact ((Inv.of_run hone run).job id job hjob).limit.mono (List.length_filter_le _ _)
  · intro acts p run id job hjob i
    rw [((Inv.of_run hone run).job id job hjob).picked]
    exact List.nodup_iff_count_le_one.mp List.nodup_range i
  · intro acts p run id job hjob hdone i n hn
    have hinv := (Inv.of_run hone run).job id job hjob
    obtain ⟨hworkers, hcursor⟩ := hinv.finished hdone
    have hi := (List.getElem?_eq_some_iff.mp hn).1
    refine ⟨?_, hinv.settled i n hn (by omega) (by simp [hworkers])⟩
    rw [hinv.picked, min_eq_right hcursor]
    exact List.nodup_iff_count_eq_one.mp List.nodup_range i (List.mem_range.mpr hi)
  · rintro e fair t id job hjob ⟨bound, hbound⟩
    obtain ⟨t', ht', job', hjob', hcase⟩ :=
      eventually_done_or_cursor e hone fair hjob (2 * bound + 1)
    refine ⟨t', ht', job', hjob', hcase.resolve_right fun hcursor => ?_⟩
    have hexits := ((Inv.of_run hone (e.run t')).job id job' hjob').exits
    have hlength := hbound t' job' hjob'
    omega

/-- A start, an append while both workers run, and three settled calls. -/
def reattachedActions : List (Action Unit) :=
  [.startSyncJob "user" ["A", "B"] "J" "08:00",
    .startSyncJob "user" ["B", "C"] "K" "08:01",
    .settle "J" 1 (.error "offline"), .settle "J" 0 (.ok ()), .settle "J" 2 (.ok ()),
    .drained "J" "08:02"]

theorem jobs_correct_reattached :
    JobsCorrect Unit (jobConcurrency none) AppendsMeetPool ∧
      ∃ p, Run (step (jobConcurrency none)) AppendsMeetPool Process.initial reattachedActions p ∧
        (p.jobs "J").map (fun job => (job.status, job.nodes.map (·.status), job.picked)) =
          some (.done, [.done, .error, .done], [0, 1, 2]) := by
  refine ⟨jobs_correct_of_appendsMeetPool Unit none (by simp), ?_⟩
  have hdone : (exec (step (jobConcurrency none)) Process.initial reattachedActions).bind
      (fun p => (p.jobs "J").map fun job =>
        (job.status, job.nodes.map (·.status), job.picked)) =
      some (.done, [.done, .error, .done], [0, 1, 2]) := by decide +kernel
  obtain ⟨p, hexec, hjob⟩ := Option.bind_eq_some_iff.mp hdone
  exact ⟨p, Run.of_exec hexec (by decide +kernel), hjob⟩

end Portuni.SyncJobs
