import Portuni.SyncJobs.Reattached

namespace Portuni.SyncJobs

/-! An append that misses the pool: the node under an index the cursor has
already passed is skipped, and its job never ends. -/

section

open Library.KeyedMutex Library.Runs

universe u

variable {Response : Type u}

/-- A running job with a pending node below its cursor that no worker stands
at. -/
def Skipped (job : JobRun Response) (index : ℕ) : Prop :=
  job.status = .running ∧ index < job.cursor ∧ index ∉ job.workers ∧
    ∃ n, job.nodes[index]? = some n ∧ n.status = .pending

def soloProcess (job : JobRun Unit) (locks : Mutex String Caller) : Process Unit :=
  { jobs := Function.update (fun _ => none) "J" (some job)
    currentJobIdByUser := Function.update (fun _ => none) "user" (some "J")
    locks }

def nodeOf (nodeId : String) (status : SyncJobNodeStatus) (result : Option Unit) :
    SyncJobNode Unit :=
  { nodeId, status, result, error := none }

def missedJob (nodes : List (SyncJobNode Unit)) (cursor : ℕ) (workers : List ℕ) : JobRun Unit :=
  { id := "J", userId := "user", status := .running, startedAt := "08:00", finishedAt := none
    nodes, cursor, workers, picked := [0, 1] }

/-- Both workers run, the first exits past the end of the list, a third node is
appended, the second worker exits past the grown list. -/
def missedState : ℕ → Process Unit
  | 0 => Process.initial
  | 1 => soloProcess (missedJob [nodeOf "A" .running none, nodeOf "B" .running none] 2 [0, 1])
      ((Mutex.free.enqueue "A" (.worker "J" 0)).enqueue "B" (.worker "J" 1))
  | 2 => soloProcess (missedJob [nodeOf "A" .done (some ()), nodeOf "B" .running none] 3 [1])
      (((Mutex.free.enqueue "A" (.worker "J" 0)).enqueue "B" (.worker "J" 1)).release "A")
  | 3 => soloProcess
      (missedJob [nodeOf "A" .done (some ()), nodeOf "B" .running none, nodeOf "C" .pending none]
        3 [1])
      (((Mutex.free.enqueue "A" (.worker "J" 0)).enqueue "B" (.worker "J" 1)).release "A")
  | _ + 4 => soloProcess
      (missedJob
        [nodeOf "A" .done (some ()), nodeOf "B" .done (some ()), nodeOf "C" .pending none] 4 [])
      ((((Mutex.free.enqueue "A" (.worker "J" 0)).enqueue "B" (.worker "J" 1)).release "A").release
        "B")

def missedAction : ℕ → Action Unit
  | 0 => .startSyncJob "user" ["A", "B"] "J" "08:00"
  | 1 => .settle "J" 0 (.ok ())
  | 2 => .startSyncJob "user" ["C"] "K" "08:01"
  | 3 => .settle "J" 1 (.ok ())
  | _ + 4 => .drained "J" "08:02"

theorem missed_next (n : ℕ) :
    step (jobConcurrency none) (missedState n) (missedAction n) = some (missedState (n + 1)) := by
  match n with
  | 0 =>
    have hsize : poolSize (jobConcurrency none) 2 = 2 := by decide +kernel
    simp [missedAction, missedState, step, startSyncJob, currentRunningJob, Process.initial,
      startRound, spawn, takeNext, hsize, Process.setJob, soloProcess, missedJob, nodeOf,
      SyncJobNode.pending]
  | 1 =>
    have hold : ((Mutex.free.enqueue "A" (Caller.worker "J" 0)).enqueue "B"
        (.worker "J" 1)).Holds "A" (.worker "J" 0) := by decide
    simp [missedAction, missedState, step, settleNode, soloProcess, missedJob, nodeOf, takeNext,
      SyncJobNode.settle, Process.setJob, hold]
  | 2 =>
    simp [missedAction, missedState, step, startSyncJob, currentRunningJob, soloProcess,
      missedJob, nodeOf, appendMissing, SyncJobNode.pending, Process.setJob]
  | 3 =>
    have hold : (((Mutex.free.enqueue "A" (Caller.worker "J" 0)).enqueue "B"
        (.worker "J" 1)).release "A").Holds "B" (.worker "J" 1) := by decide
    simp [missedAction, missedState, step, settleNode, soloProcess, missedJob, nodeOf, takeNext,
      SyncJobNode.settle, Process.setJob, hold]
  | n + 4 =>
    have hsize : poolSize (jobConcurrency none) 0 = 0 := by decide +kernel
    simp [missedAction, missedState, step, drained, soloProcess, missedJob, nodeOf, startRound,
      spawn, Process.setJob, hsize]

def missedExecution :
    Execution (@step Unit (jobConcurrency none)) (fun _ _ => True) Process.initial where
  state := missedState
  action := missedAction
  start := rfl
  allowed _ := trivial
  next := missed_next

theorem missed_locks {key : String} (hA : key ≠ "A") (hB : key ≠ "B") (n : ℕ) :
    (missedState n).locks key = [] := by
  match n with
  | 0 => rfl
  | 1 => simp [missedState, soloProcess, Mutex.enqueue_of_ne, hA, hB, Mutex.free]
  | 2 => simp [missedState, soloProcess, Mutex.release_of_ne, Mutex.enqueue_of_ne, hA, hB,
      Mutex.free]
  | 3 => simp [missedState, soloProcess, Mutex.release_of_ne, Mutex.enqueue_of_ne, hA, hB,
      Mutex.free]
  | n + 4 => simp [missedState, soloProcess, Mutex.release_of_ne, Mutex.enqueue_of_ne, hA, hB,
      Mutex.free]

theorem missed_fair : Fair missedExecution where
  callsSettle t key hqueue := by
    have hfirst : (missedAction 1).Releases (missedState 1) "A" := ⟨_, _, rfl, rfl, rfl⟩
    have hsecond : (missedAction 3).Releases (missedState 3) "B" := ⟨_, _, rfl, rfl, rfl⟩
    by_cases hA : key = "A"
    · subst hA
      match t with
      | 0 => exact absurd rfl hqueue
      | 1 => exact ⟨1, le_rfl, hfirst⟩
      | 2 => exact absurd rfl hqueue
      | 3 => exact absurd rfl hqueue
      | t + 4 => exact absurd rfl hqueue
    · by_cases hB : key = "B"
      · subst hB
        match t with
        | 0 => exact absurd rfl hqueue
        | 1 => exact ⟨3, by omega, hsecond⟩
        | 2 => exact ⟨3, by omega, hsecond⟩
        | 3 => exact ⟨3, le_rfl, hsecond⟩
        | t + 4 => exact absurd rfl hqueue
      · exact absurd (missed_locks hA hB t) hqueue
  roundsReturn t id job hjob _ _ := by
    refine ⟨t + 4, Nat.le_add_right _ _, "08:02", ?_⟩
    have hid : id = "J" := by
      by_contra hne
      match t with
      | 0 => cases hjob
      | 1 => simp [missedExecution, missedState, soloProcess, hne] at hjob
      | 2 => simp [missedExecution, missedState, soloProcess, hne] at hjob
      | 3 => simp [missedExecution, missedState, soloProcess, hne] at hjob
      | t + 4 => simp [missedExecution, missedState, soloProcess, hne] at hjob
    rw [hid]
    rfl

/-- The contract fails once an append may come after a worker has exited: the
appended node stays pending and the job runs on forever. -/
theorem not_jobsCorrect_of_any_append :
    ¬ JobsCorrect Unit (jobConcurrency none) (fun _ _ => True) := by
  intro correct
  obtain ⟨t, ht, job, hjob, hdone⟩ := correct.terminates missedExecution missed_fair 4 "J" _ rfl
    ⟨3, fun t job hjob => by
      match t with
      | 0 => cases hjob
      | 1 => cases hjob; decide
      | 2 => cases hjob; decide
      | 3 => cases hjob; decide
      | t + 4 => cases hjob; decide⟩
  obtain ⟨n, rfl⟩ := Nat.exists_eq_add_of_le' ht
  cases hjob
  cases hdone

end

open Library.KeyedMutex Library.Runs

/-- The locks of the nodes `A` and `B` while workers of job `J` stand at both. -/
def bothLocked : Mutex String Caller :=
  (Mutex.free.enqueue "A" (.worker "J" 0)).enqueue "B" (.worker "J" 1)

/-- Two nodes start, `A` is done, a call asks for `A` again, `B` is done, the job ends. -/
def swallowedProcess : ℕ → Process Unit
  | 0 => Process.initial
  | 1 => soloProcess (missedJob [nodeOf "A" .running none, nodeOf "B" .running none] 2 [0, 1])
      bothLocked
  | 2 | 3 => soloProcess
      (missedJob [nodeOf "A" .done (some ()), nodeOf "B" .running none] 3 [1])
      (bothLocked.release "A")
  | 4 => soloProcess
      (missedJob [nodeOf "A" .done (some ()), nodeOf "B" .done (some ())] 4 [])
      ((bothLocked.release "A").release "B")
  | _ + 5 =>
    { jobs := Function.update (fun _ => none) "J" (some
        { missedJob [nodeOf "A" .done (some ()), nodeOf "B" .done (some ())] 4 [] with
          status := .done, finishedAt := some "08:02" })
      currentJobIdByUser := Function.update
        (Function.update (fun _ => none) "user" (some "J")) "user" none
      locks := (bothLocked.release "A").release "B" }

def swallowedRunner : ℕ → Runner Unit Unit
  | 0 => Runner.initial
  | n + 1 => ⟨swallowedProcess (n + 1), Function.update (fun _ => none) "J" (some ())⟩

def swallowedEvent : ℕ → Event Unit Unit
  | 0 => ⟨.startSyncJob "user" ["A", "B"] "J" "08:00", ()⟩
  | 1 => ⟨.settle "J" 0 (.ok ()), ()⟩
  | 2 => ⟨.startSyncJob "user" ["A"] "K" "08:01", ()⟩
  | 3 => ⟨.settle "J" 1 (.ok ()), ()⟩
  | 4 => ⟨.drained "J" "08:02", ()⟩
  | _ + 5 => ⟨.elsewhere, ()⟩

theorem swallowed_next (n : ℕ) : (swallowedRunner n).step (jobConcurrency none) (swallowedEvent n) =
      some (swallowedRunner (n + 1)) := by
  match n with
  | 0 =>
    have hsize : poolSize (jobConcurrency none) 2 = 2 := by decide +kernel
    simp [swallowedEvent, swallowedRunner, swallowedProcess, Runner.step, Runner.handOver,
      Runner.initial, step, startSyncJob, currentRunningJob, Process.initial, startRound, spawn,
      takeNext, hsize, Process.setJob, soloProcess, missedJob, nodeOf, SyncJobNode.pending,
      bothLocked]
  | 1 =>
    have hold : bothLocked.Holds "A" (.worker "J" 0) := by decide
    simp [swallowedEvent, swallowedRunner, swallowedProcess, Runner.step, Runner.handOver, step,
      settleNode, soloProcess, missedJob, nodeOf, takeNext, SyncJobNode.settle, Process.setJob,
      hold]
  | 2 =>
    simp [swallowedEvent, swallowedRunner, swallowedProcess, Runner.step, Runner.handOver, step,
      startSyncJob, currentRunningJob, soloProcess, missedJob, nodeOf, appendMissing,
      Process.setJob]
  | 3 =>
    have hold : (bothLocked.release "A").Holds "B" (.worker "J" 1) := by decide
    simp [swallowedEvent, swallowedRunner, swallowedProcess, Runner.step, Runner.handOver, step,
      settleNode, soloProcess, missedJob, nodeOf, takeNext, SyncJobNode.settle, Process.setJob,
      hold]
  | 4 =>
    simp [swallowedEvent, swallowedRunner, swallowedProcess, Runner.step, Runner.handOver, step,
      drained, soloProcess, missedJob, nodeOf, Process.setJob]
  | n + 5 => rfl

def swallowedExecution :
    Execution (Runner.step (jobConcurrency none)) (fun _ _ => True)
      (Runner.initial : Runner Unit Unit) where
  state := swallowedRunner
  action := swallowedEvent
  start := rfl
  allowed _ := trivial
  next := swallowed_next

theorem swallowed_locks {key : String} (hA : key ≠ "A") (hB : key ≠ "B") (n : ℕ) :
    (swallowedRunner n).process.locks key = [] := by
  match n with
  | 0 => rfl
  | 1 | 2 | 3 | 4 | n + 5 =>
    simp [swallowedRunner, swallowedProcess, soloProcess, bothLocked, Mutex.release_of_ne,
      Mutex.enqueue_of_ne, hA, hB, Mutex.free]

theorem swallowed_locks_A (n : ℕ) : (swallowedRunner (n + 2)).process.locks "A" = [] := by
  match n with
  | 0 | 1 | 2 | n + 3 => rfl

theorem swallowed_locks_B (n : ℕ) : (swallowedRunner (n + 4)).process.locks "B" = [] := by
  match n with
  | 0 | n + 1 => rfl

theorem swallowed_fair :
    Fair (processes swallowedExecution fun _ _ _ => trivial : Execution _ (fun _ _ => True) _) where
  callsSettle t key hqueue := by
    have hfirst : (swallowedEvent 1).action.Releases (swallowedRunner 1).process "A" :=
      ⟨_, _, rfl, rfl, rfl⟩
    have hsecond : (swallowedEvent 3).action.Releases (swallowedRunner 3).process "B" :=
      ⟨_, _, rfl, rfl, rfl⟩
    by_cases hA : key = "A"
    · subst hA
      match t with
      | 0 | 1 => exact ⟨1, by omega, hfirst⟩
      | t + 2 => exact absurd (swallowed_locks_A t) hqueue
    · by_cases hB : key = "B"
      · subst hB
        match t with
        | 0 | 1 | 2 | 3 => exact ⟨3, by omega, hsecond⟩
        | t + 4 => exact absurd (swallowed_locks_B t) hqueue
      · exact absurd (swallowed_locks hA hB t) hqueue
  roundsReturn t id job hjob hrunning hworkers := by
    match t with
    | 0 => cases hjob
    | 1 | 2 | 3 | 4 | t + 5 =>
      have hid : id = "J" := by
        by_contra hne
        simp [processes, Execution.map, swallowedExecution, swallowedRunner, swallowedProcess,
          soloProcess, hne] at hjob
      subst hid
      first
      | exact ⟨4, by omega, "08:02", rfl⟩
      | cases hjob; cases hrunning

/-- A call that reattaches and asks for a node whose run is over gets no run of it. -/
theorem not_noneSwallowed_of_any_call :
    ¬ NoneSwallowed (jobConcurrency none)
      (fun _ _ => True : Runner Unit Unit → Event Unit Unit → Prop) := by
  intro none
  obtain ⟨t', ht', id, index, -, hold, -⟩ := none swallowedExecution swallowed_fair 2 "user" ["A"]
    "K" "08:01" rfl "A" (by simp)
  obtain ⟨n, rfl⟩ := Nat.exists_eq_add_of_le' ht'
  have hqueued := hold.mem
  change Caller.worker id index ∈ (swallowedRunner (n + 3)).process.locks "A" at hqueued
  rw [swallowed_locks_A (n + 1)] at hqueued
  cases hqueued

end Portuni.SyncJobs
