import Portuni.SyncJobs.Termination

namespace Portuni.SyncJobs

/-! The callbacks of the jobs: each job runs its nodes, the appended ones too,
under the `runNode` of the call that created it. -/

section

open Library.KeyedMutex Library.Runs

universe u v

variable {Response : Type u} {RunNode : Type v}

/-- A process together with the `runNode` that each `runJob` call was given. -/
structure Runner (Response : Type u) (RunNode : Type v) where
  process : Process Response
  runNode : String → Option RunNode

def Runner.initial : Runner Response RunNode := ⟨Process.initial, fun _ => none⟩

/-- What happens, with the `runNode` that a `startSyncJob` call passes. -/
structure Event (Response : Type u) (RunNode : Type v) where
  action : Action Response
  runNode : RunNode

/-- A call that creates a job hands it its callback; a reattaching one drops it. -/
def Runner.handOver (r : Runner Response RunNode) (event : Event Response RunNode) :
    String → Option RunNode :=
  match event.action with
  | .startSyncJob userId _ id _ =>
    if (currentRunningJob r.process userId).isNone then
      Function.update r.runNode id (some event.runNode)
    else r.runNode
  | _ => r.runNode

def Runner.step (concurrency : JsNumber) (r : Runner Response RunNode)
    (event : Event Response RunNode) : Option (Runner Response RunNode) :=
  (SyncJobs.step concurrency r.process event.action).map fun process =>
    ⟨process, r.handOver event⟩

/-- A run of the node's work by this callback begins: the worker gets the node's lock. -/
def Begins (r r' : Runner Response RunNode) (nodeId : String) (runNode : RunNode) : Prop :=
  ∃ id index, ¬ r.process.locks.Holds nodeId (.worker id index) ∧
    r'.process.locks.Holds nodeId (.worker id index) ∧ r'.runNode id = some runNode

variable {concurrency : JsNumber}
  {Allowed : Runner Response RunNode → Event Response RunNode → Prop}

theorem Runner.step_eq_some {r r' : Runner Response RunNode} {event : Event Response RunNode}
    (hstep : r.step concurrency event = some r') :
    SyncJobs.step concurrency r.process event.action = some r'.process ∧
      r'.runNode = r.handOver event := by
  obtain ⟨process, hprocess, rfl⟩ := Option.map_eq_some_iff.mp hstep
  exact ⟨hprocess, rfl⟩

def processes (e : Execution (Runner.step concurrency) Allowed Runner.initial)
    {Admitted : Process Response → Action Response → Prop}
    (hallowed : ∀ r event, Allowed r event → Admitted r.process event.action) :
    Execution (SyncJobs.step concurrency) Admitted Process.initial :=
  e.map Runner.process Event.action (fun _ _ _ hstep => (Runner.step_eq_some hstep).1) hallowed

/-- Every node that a call asks for is run after that call and by its callback, in the fair
executions whose steps `Allowed` admits. -/
def NoneSwallowed (concurrency : JsNumber)
    (Allowed : Runner Response RunNode → Event Response RunNode → Prop) : Prop :=
  ∀ e : Execution (Runner.step concurrency) Allowed Runner.initial,
    Fair (processes e fun _ _ _ => trivial : Execution _ (fun _ _ => True) _) →
    ∀ t userId nodeIds id startedAt,
      (e.action t).action = .startSyncJob userId nodeIds id startedAt →
      ∀ nodeId ∈ nodeIds, ∃ t', t ≤ t' ∧
        Begins (e.state t') (e.state (t' + 1)) nodeId (e.action t).runNode

/-- The job has this node at an index whose run is still to come: past the cursor, or
queued behind another caller. -/
def StillToRun (p : Process Response) (job : JobRun Response) (nodeId : String) : Prop :=
  ∃ index ∈ List.range job.nodes.length, ∃ n ∈ job.nodes[index]?, n.nodeId = nodeId ∧
    (job.cursor ≤ index ∨ Caller.worker job.id index ∈ (p.locks nodeId).tail)

/-- A reattaching call comes with the callback of the job, and asks for no node whose
run by the job has begun already. -/
def Served (r : Runner Response RunNode) (event : Event Response RunNode) : Prop :=
  AppendsMeetPool r.process event.action ∧
    match event.action with
    | .startSyncJob userId nodeIds _ _ =>
      ∀ running ∈ currentRunningJob r.process userId, ∀ nodeId ∈ nodeIds,
        r.runNode running.id = some event.runNode ∧
          ((∃ n ∈ running.nodes, n.nodeId = nodeId) → StillToRun r.process running nodeId)
    | _ => True

instance (p : Process Response) (job : JobRun Response) (nodeId : String) :
    Decidable (StillToRun p job nodeId) :=
  inferInstanceAs (Decidable (∃ index ∈ List.range job.nodes.length, ∃ n ∈ job.nodes[index]?,
    n.nodeId = nodeId ∧ (job.cursor ≤ index ∨ Caller.worker job.id index ∈ (p.locks nodeId).tail)))

instance [DecidableEq RunNode] (r : Runner Response RunNode) :
    (event : Event Response RunNode) → Decidable (Served r event)
  | ⟨.startSyncJob userId nodeIds id startedAt, runNode⟩ =>
    inferInstanceAs (Decidable
      (AppendsMeetPool r.process (.startSyncJob userId nodeIds id startedAt) ∧
        ∀ running ∈ currentRunningJob r.process userId, ∀ nodeId ∈ nodeIds,
          r.runNode running.id = some runNode ∧
            ((∃ n ∈ running.nodes, n.nodeId = nodeId) → StillToRun r.process running nodeId)))
  | ⟨.settle _ _ _, _⟩ => isTrue ⟨trivial, trivial⟩
  | ⟨.drained _ _, _⟩ => isTrue ⟨trivial, trivial⟩
  | ⟨.retentionEnds _, _⟩ => isTrue ⟨trivial, trivial⟩
  | ⟨.otherQueues _ _, _⟩ => isTrue ⟨trivial, trivial⟩
  | ⟨.otherFinishes _ _, _⟩ => isTrue ⟨trivial, trivial⟩
  | ⟨.elsewhere, _⟩ => isTrue ⟨trivial, trivial⟩

end

open Library.KeyedMutex Library.Runs

universe u v

variable {Response : Type u} {RunNode : Type v} {concurrency : JsNumber} {job : JobRun Response}
  {index : ℕ} {n : SyncJobNode Response}

theorem spawn_reaches (hn : job.nodes[index]? = some n) (hcursor : job.cursor ≤ index) (count : ℕ)
    (locks : Mutex String Caller) :
    Caller.worker job.id index ∈ (spawn count job locks).2 n.nodeId ∨
      (spawn count job locks).1.nodes[index]? = some n ∧ (spawn count job locks).1.cursor ≤ index ∧
        (spawn count job locks).1.status = job.status := by
  induction count generalizing job locks with
  | zero => exact .inr ⟨hn, hcursor, rfl⟩
  | succ count ih =>
    have hlt : job.cursor < job.nodes.length :=
      hcursor.trans_lt (List.getElem?_eq_some_iff.mp hn).1
    rw [spawn, takeNext_of_cursor_lt hlt]
    rcases hcursor.lt_or_eq with hbefore | heq
    · refine @ih { job with
          nodes := job.nodes.set job.cursor { job.nodes[job.cursor] with status := .running }
          cursor := job.cursor + 1
          workers := job.workers ++ [job.cursor]
          picked := job.picked ++ [job.cursor] } ?_ (Nat.succ_le_of_lt hbefore) _
      simpa [List.getElem?_set_ne hbefore.ne] using hn
    · subst heq
      obtain ⟨-, rfl⟩ := List.getElem?_eq_some_iff.mp hn
      refine .inl ((prefix_spawn _ _ _ _).subset ?_)
      rw [Mutex.mem_enqueue_iff]
      exact .inr ⟨rfl, rfl⟩

variable {p p' : Process Response}

theorem step_reaches (inv : Inv concurrency p) {a : Action Response}
    (hstep : step concurrency p a = some p') {id : String} (hjob : p.jobs id = some job)
    (hrunning : job.status = .running) (hn : job.nodes[index]? = some n)
    (hcursor : job.cursor ≤ index) :
    Caller.worker id index ∈ p'.locks n.nodeId ∨
      ∃ job', p'.jobs id = some job' ∧ job'.status = .running ∧ job'.cursor ≤ index ∧
        job'.nodes[index]? = some n := by
  by_cases hturn : a.IsTurnOf id
  · obtain rfl := inv.id id job hjob
    cases a with
    | settle jobId other outcome =>
      obtain rfl : jobId = job.id := hturn
      simp only [step, hjob, Option.bind_some] at hstep
      unfold settleNode at hstep
      split at hstep
      · cases hstep
      · next m hm =>
        split at hstep
        · next hready =>
          simp only [Option.some.injEq] at hstep
          subst hstep
          have hbelow := ((inv.job _ job hjob).below other hready.1).1
          have hspawn := @spawn_reaches _
            { job with
              nodes := job.nodes.set other (m.settle outcome)
              workers := job.workers.erase other } index n
            (by simpa [List.getElem?_set_ne (hbelow.trans_le hcursor).ne] using hn) hcursor 1
            (p.locks.release m.nodeId)
          rcases hspawn with hqueued | ⟨hn', hcursor', hstatus⟩
          · exact .inl hqueued
          · refine .inr ⟨_, ?_, hstatus.trans hrunning, hcursor', hn'⟩
            simp only [Process.setJob, spawn, takeNext_id, Function.update_self]
        · cases hstep
    | drained jobId now =>
      obtain rfl : jobId = job.id := hturn
      simp only [step, hjob, Option.ite_none_right_eq_some, Option.some.injEq] at hstep
      obtain ⟨⟨-, hworkers⟩, rfl⟩ := hstep
      have hlength := (List.getElem?_eq_some_iff.mp hn).1
      have hpending := ((inv.job _ job hjob).any_pending_iff hworkers).mpr
        (hcursor.trans_lt hlength)
      rw [drained, if_pos hpending]
      rcases spawn_reaches hn hcursor (poolSize concurrency (job.nodes.length - job.cursor))
        p.locks with hqueued | ⟨hn', hcursor', hstatus⟩
      · exact .inl hqueued
      · refine .inr ⟨_, ?_, hstatus.trans hrunning, hcursor', hn'⟩
        simp only [Process.setJob, startRound, spawn_id, Function.update_self]
    | startSyncJob _ _ _ _ | retentionEnds _ | otherQueues _ _ | otherFinishes _ _ | elsewhere =>
      exact hturn.elim
  · obtain ⟨job', hjob', hrunning', hcursor', -, hnodes⟩ :=
      keeps_of_not_turn inv.id hstep hjob hrunning hturn
    exact .inr ⟨job', hjob', hrunning', hcursor' ▸ hcursor, hnodes _ _ hn⟩

/-- The run of this node by this callback is to come: its job has it at an index past the
cursor, or a worker of the job waits behind another caller. -/
def Owes (r : Runner Response RunNode) (id : String) (index : ℕ) (nodeId : String)
    (runNode : RunNode) : Prop :=
  r.runNode id = some runNode ∧
    ((∃ job, r.process.jobs id = some job ∧ job.status = .running ∧ job.cursor ≤ index ∧
        ∃ n, job.nodes[index]? = some n ∧ n.nodeId = nodeId) ∨
      Caller.worker id index ∈ (r.process.locks nodeId).tail)

variable {r r' : Runner Response RunNode} {event : Event Response RunNode}

theorem runNode_step (hstep : r.step concurrency event = some r') {id : String}
    (hjob : (r.process.jobs id).isSome) : r'.runNode id = r.runNode id := by
  obtain ⟨hprocess, hrunNode⟩ := Runner.step_eq_some hstep
  rcases event with ⟨action, runNode⟩
  cases action with
  | startSyncJob userId nodeIds newId startedAt =>
    simp only [SyncJobs.step, Option.ite_none_right_eq_some] at hprocess
    simp only [hrunNode, Runner.handOver]
    split
    · refine Function.update_of_ne ?_ _ _
      rintro rfl
      rw [Option.isNone_iff_eq_none.mp hprocess.1] at hjob
      cases hjob
    · rfl
  | settle | drained | retentionEnds | otherQueues | otherFinishes | elsewhere =>
    exact congrFun hrunNode id

variable {id nodeId : String} {runNode : RunNode}

theorem begins_or_owes (hrunNode : r'.runNode id = some runNode)
    (hbefore : ¬ r.process.locks.Holds nodeId (.worker id index))
    (hqueued : Caller.worker id index ∈ r'.process.locks nodeId) :
    Begins r r' nodeId runNode ∨ Owes r' id index nodeId runNode := by
  cases hqueue : r'.process.locks nodeId with
  | nil => simp [hqueue] at hqueued
  | cons holder rest =>
    rw [hqueue] at hqueued
    rcases List.mem_cons.mp hqueued with rfl | hrest
    · exact .inl ⟨id, index, hbefore, by simp [Mutex.Holds, hqueue], hrunNode⟩
    · exact .inr ⟨hrunNode, .inr (by simpa [hqueue] using hrest)⟩

theorem not_holds_of_mem_tail {locks : Mutex String Caller} {key : String} {caller : Caller}
    (nodup : (locks key).Nodup) (hmem : caller ∈ (locks key).tail) :
    ¬ locks.Holds key caller := by
  intro hold
  obtain ⟨rest, hrest⟩ := List.head?_eq_some_iff.mp hold
  rw [hrest] at nodup hmem
  exact (List.nodup_cons.mp nodup).1 hmem

theorem mem_of_mem_tail {a : Action Response} (hstep : step concurrency p a = some p')
    {key : String} {caller : Caller} (hmem : caller ∈ (p.locks key).tail) :
    caller ∈ p'.locks key := by
  by_cases hrelease : a.Releases p key
  · exact (prefix_of_releases hstep hrelease).subset hmem
  · exact (prefix_of_not_releases hstep hrelease).subset (List.mem_of_mem_tail hmem)

theorem Owes.step (inv : Inv concurrency r.process) (hstep : r.step concurrency event = some r')
    (h : Owes r id index nodeId runNode) :
    Begins r r' nodeId runNode ∨ Owes r' id index nodeId runNode := by
  obtain ⟨hrunNode, hcase⟩ := h
  obtain ⟨hprocess, -⟩ := Runner.step_eq_some hstep
  rcases hcase with ⟨job, hjob, hrunning, hcursor, n, hn, rfl⟩ | hwaits
  · have hsame := runNode_step hstep (Option.isSome_iff_exists.mpr ⟨job, hjob⟩)
    rcases step_reaches inv hprocess hjob hrunning hn hcursor with
      hqueued | ⟨job', hjob', hrunning', hcursor', hn'⟩
    · refine begins_or_owes (hsame.trans hrunNode) (fun hold => ?_) hqueued
      rw [← inv.id id job hjob] at hold
      have hworker := ((inv.linked id job hjob).holders _ _ hold.mem).1
      have hbelow := (inv.linked id job hjob).below _ hworker
      omega
    · exact .inr ⟨hsame.trans hrunNode, .inl ⟨job', hjob', hrunning', hcursor', n, hn', rfl⟩⟩
  · have hjob : (r.process.jobs id).isSome := by
      rw [Option.isSome_iff_ne_none]
      exact fun hnone => inv.absent id hnone _ _ (List.mem_of_mem_tail hwaits)
    exact begins_or_owes ((runNode_step hstep hjob).trans hrunNode)
      (not_holds_of_mem_tail (inv.nodup _) hwaits) (mem_of_mem_tail hprocess hwaits)

section

variable (e : Execution (@Runner.step Response RunNode concurrency) Served Runner.initial)

abbrev served : Execution (@SyncJobs.step Response concurrency) AppendsMeetPool Process.initial :=
  processes e fun _ _ h => h.1

theorem Owes.begins (hone : concurrency.Admits 1) (fair : Fair (served e)) {t index : ℕ}
    (h : Owes (e.state t) id index nodeId runNode) :
    ∃ t', t ≤ t' ∧ Begins (e.state t') (e.state (t' + 1)) nodeId runNode := by
  by_contra hnone
  push Not at hnone
  have inv : ∀ t, Inv concurrency (e.state t).process :=
    fun t => Inv.of_run hone ((served e).run t)
  have howes : ∀ k, Owes (e.state (t + k)) id index nodeId runNode := by
    intro k
    induction k with
    | zero => exact h
    | succ k ih =>
      exact (ih.step (inv _) (e.next (t + k))).resolve_left (hnone _ (Nat.le_add_right _ _))
  -- The cursor of the job passes the index, and from then on its worker waits in the queue.
  have hwaits : ∃ t', t ≤ t' ∧
      Caller.worker id index ∈ ((e.state t').process.locks nodeId).tail := by
    rcases h.2 with ⟨job, hjob, -, -, -⟩ | hwaits
    · obtain ⟨t', ht', job', hjob', hcase⟩ :=
        eventually_done_or_cursor (served e) hone fair hjob (index + 1)
      obtain ⟨k, rfl⟩ := Nat.exists_eq_add_of_le ht'
      rcases (howes k).2 with ⟨found, hfound, hrunning, hcursor, -⟩ | hwaits
      · obtain rfl : found = job' := Option.some.inj (hfound.symm.trans hjob')
        rcases hcase with hdone | hpassed
        · rw [hrunning] at hdone
          cases hdone
        · omega
      · exact ⟨_, ht', hwaits⟩
    · exact ⟨t, le_rfl, hwaits⟩
  obtain ⟨t', ht', hwaits⟩ := hwaits
  obtain ⟨position, hposition⟩ := List.mem_iff_getElem?.mp hwaits
  rw [List.getElem?_tail] at hposition
  obtain ⟨m, hm, htail, hold⟩ := holds_of_waiting (served e) fair hposition
  obtain ⟨k, rfl⟩ := Nat.exists_eq_add_of_le (ht'.trans hm)
  exact hnone _ (Nat.le_add_right _ _)
    ⟨id, index, not_holds_of_mem_tail ((inv _).nodup _) htail, hold, (howes (k + 1)).1⟩

end

variable {nodeIds : List String}

theorem mem_appendMissing (nodes : List (SyncJobNode Response)) {nodeId : String}
    (hmem : nodeId ∈ nodeIds) : ∃ n ∈ appendMissing nodes nodeIds, n.nodeId = nodeId := by
  induction nodeIds generalizing nodes with
  | nil => cases hmem
  | cons other nodeIds ih =>
    simp only [appendMissing]
    rcases List.mem_cons.mp hmem with rfl | hmem
    · have hkept : ∀ n ∈ nodes, n ∈ appendMissing nodes nodeIds := fun n hn => by
        obtain ⟨i, hi⟩ := List.mem_iff_getElem?.mp hn
        exact List.mem_of_getElem? (getElem?_appendMissing_eq_some _ _ hi)
      have hadded : (SyncJobNode.pending nodeId : SyncJobNode Response) ∈
          appendMissing (nodes ++ [.pending nodeId]) nodeIds := by
        refine List.mem_of_getElem? (i := nodes.length) ?_
        exact getElem?_appendMissing_eq_some _ _ (by simp)
      split
      · next hany =>
        obtain ⟨n, hn, hid⟩ := List.any_eq_true.mp hany
        exact ⟨n, hkept n hn, by simpa using hid⟩
      · exact ⟨_, hadded, rfl⟩
    · split
      · exact ih nodes hmem
      · exact ih _ hmem

theorem Served.begins_or_owes (inv : Inv concurrency r.process) (hserved : Served r event)
    (hstep : r.step concurrency event = some r') {userId id startedAt : String}
    (haction : event.action = .startSyncJob userId nodeIds id startedAt) {nodeId : String}
    (hmem : nodeId ∈ nodeIds) :
    Begins r r' nodeId event.runNode ∨ ∃ id index, Owes r' id index nodeId event.runNode := by
  obtain ⟨hprocess, hrunNode⟩ := Runner.step_eq_some hstep
  rcases event with ⟨action, runNode⟩
  subst haction
  simp only [SyncJobs.step, Option.ite_none_right_eq_some, Option.some.injEq,
    Option.isNone_iff_eq_none] at hprocess
  obtain ⟨hfresh, hprocess⟩ := hprocess
  simp only [Runner.handOver] at hrunNode
  cases hcurrent : currentRunningJob r.process userId with
  | none =>
    simp only [hcurrent, Option.isNone_none, if_true] at hrunNode
    simp only [startSyncJob, hcurrent] at hprocess
    have hgiven : r'.runNode id = some runNode := by simp [hrunNode]
    obtain ⟨index, hindex⟩ := List.mem_iff_getElem?.mp hmem
    have hreaches := @spawn_reaches Response
      { id, userId, status := .running, startedAt, finishedAt := none
        nodes := nodeIds.map .pending, cursor := 0, workers := [], picked := [] } index
      (.pending nodeId) (by simp [hindex]) (Nat.zero_le _)
      (poolSize concurrency nodeIds.length) r.process.locks
    rcases hreaches with hqueued | ⟨hn, hcursor, hstatus⟩
    · refine (SyncJobs.begins_or_owes hgiven (fun hold => ?_) ?_).imp_right
        fun howes => ⟨id, index, howes⟩
      · exact inv.absent id hfresh _ _ hold.mem
      · rw [← hprocess]
        simpa [startRound, SyncJobNode.pending] using hqueued
    · refine .inr ⟨id, index, hgiven, .inl ⟨_, ?_, hstatus, hcursor, _, hn, rfl⟩⟩
      rw [← hprocess]
      simp [Process.setJob, startRound]
  | some running =>
    obtain ⟨hstatus, current, -, hjob⟩ := currentRunningJob_eq_some hcurrent
    obtain rfl := inv.id current running hjob
    obtain ⟨hsame, hstill⟩ := hserved.2 running hcurrent nodeId hmem
    simp only [hcurrent, Option.isNone_some, Bool.false_eq_true, if_false] at hrunNode
    simp only [startSyncJob, hcurrent] at hprocess
    have hgiven : r'.runNode running.id = some runNode := by rw [hrunNode, hsame]
    have hjob' : r'.process.jobs running.id =
        some { running with nodes := appendMissing running.nodes nodeIds } := by
      rw [← hprocess]
      simp [Process.setJob]
    by_cases hpresent : ∃ n ∈ running.nodes, n.nodeId = nodeId
    · obtain ⟨index, -, n, hn, hid, hcase⟩ := hstill hpresent
      refine .inr ⟨running.id, index, hgiven, ?_⟩
      rcases hcase with hcursor | hwaits
      · exact .inl ⟨_, hjob', hstatus, hcursor, n, getElem?_appendMissing_eq_some _ _ hn, hid⟩
      · exact .inr (by rwa [← hprocess])
    · obtain ⟨n, hn, hid⟩ := mem_appendMissing running.nodes hmem
      obtain ⟨index, hindex⟩ := List.mem_iff_getElem?.mp hn
      refine .inr ⟨running.id, index, hgiven, .inl ⟨_, hjob', hstatus, ?_, n, hindex, hid⟩⟩
      have hcursor : running.cursor ≤ running.nodes.length :=
        (hserved.1 running hcurrent).resolve_right fun hall => hpresent (hall nodeId hmem)
      refine hcursor.trans (Nat.le_of_not_lt fun hlt => hpresent ⟨n, ?_, hid⟩)
      rw [getElem?_appendMissing_of_lt _ _ hlt] at hindex
      exact List.mem_of_getElem? hindex

/-- With a usable concurrency, no call swallows a node in the runs whose calls are all served. -/
theorem noneSwallowed_of_served (Response : Type u) (RunNode : Type v) (env : Option JsNumber)
    (henv : env ≠ some .nan) :
    NoneSwallowed (jobConcurrency env)
      (Served : Runner Response RunNode → Event Response RunNode → Prop) := by
  intro e fair t userId nodeIds id startedAt haction nodeId hmem
  have hone := jobConcurrency_admits_one henv
  have hfair : Fair (served e) := ⟨fair.callsSettle, fair.roundsReturn⟩
  have inv := Inv.of_run hone ((served e).run t)
  rcases (e.allowed t).begins_or_owes inv (e.next t) haction hmem with
    hbegins | ⟨id, index, howes⟩
  · exact ⟨t, le_rfl, hbegins⟩
  · obtain ⟨t', ht', hbegins⟩ := howes.begins e hone hfair
    exact ⟨t', by omega, hbegins⟩

/-- Three nodes start, and the call that asks for the fourth one again and for a fifth
reattaches. -/
def reattachedEvents : List (Event Unit Unit) :=
  [⟨.startSyncJob "user" ["A", "B", "C", "D"] "J" "08:00", ()⟩,
    ⟨.startSyncJob "user" ["D", "E"] "K" "08:01", ()⟩, ⟨.settle "J" 0 (.ok ()), ()⟩,
    ⟨.settle "J" 1 (.ok ()), ()⟩]

theorem noneSwallowed_reattached :
    NoneSwallowed (jobConcurrency none) (Served : Runner Unit Unit → Event Unit Unit → Prop) ∧
      ∃ r, Run (Runner.step (jobConcurrency none)) Served Runner.initial reattachedEvents r ∧
        r.process.locks.Holds "D" (.worker "J" 3) ∧ r.process.locks.Holds "E" (.worker "J" 4) := by
  refine ⟨noneSwallowed_of_served Unit Unit none (by simp), ?_⟩
  have hends : (exec (Runner.step (jobConcurrency none)) Runner.initial reattachedEvents).bind
      (fun r => some (r.process.locks "D", r.process.locks "E")) =
      some ([.worker "J" 3], [.worker "J" 4]) := by decide +kernel
  obtain ⟨r, hexec, hlocks⟩ := Option.bind_eq_some_iff.mp hends
  simp only [Option.some.injEq, Prod.mk.injEq] at hlocks
  refine ⟨r, Run.of_exec hexec (by decide +kernel), ?_, ?_⟩
  · simp [Mutex.Holds, hlocks.1]
  · simp [Mutex.Holds, hlocks.2]

end Portuni.SyncJobs
