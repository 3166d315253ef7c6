import Mathlib.Data.Rat.Floor
import Portuni.Library.KeyedMutex
import Portuni.Library.Runs

/-! Background sync jobs: a job runs every requested node with bounded
concurrency, and a second start of the same user appends to the running job. -/

namespace Portuni.SyncJobs

open Library.KeyedMutex

universe u

/-- The numbers `Number(text)` can return. -/
inductive JsNumber where
  | nan
  | negInfinity
  | finite (q : ℚ)
  | posInfinity

namespace JsNumber

def maxOne : JsNumber → JsNumber
  | nan => nan
  | negInfinity => finite 1
  | finite q => finite (max 1 q)
  | posInfinity => posInfinity

def minLength : JsNumber → ℕ → JsNumber
  | nan, _ => nan
  | negInfinity, _ => negInfinity
  | finite q, n => finite (min q n)
  | posInfinity, n => finite n

def toLength : JsNumber → ℕ
  | nan => 0
  | negInfinity => 0
  | finite q => min ⌊q⌋₊ (2 ^ 53 - 1)
  | posInfinity => 2 ^ 53 - 1

def Admits : JsNumber → ℕ → Prop
  | nan, _ => False
  | negInfinity, _ => False
  | finite q, n => (n : ℚ) ≤ q
  | posInfinity, _ => True

end JsNumber

def jobConcurrency (env : Option JsNumber) : JsNumber :=
  (env.getD (.finite 3)).maxOne

/-- How many workers a round of the pool starts when `remaining` nodes lie
past the cursor. -/
def poolSize (concurrency : JsNumber) (remaining : ℕ) : ℕ :=
  (concurrency.minLength remaining).toLength

inductive SyncJobNodeStatus where
  | pending
  | running
  | done
  | error
deriving DecidableEq

structure SyncJobNode (Response : Type u) where
  nodeId : String
  status : SyncJobNodeStatus
  result : Option Response
  error : Option String

def SyncJobNode.pending {Response : Type u} (nodeId : String) : SyncJobNode Response :=
  { nodeId, status := .pending, result := none, error := none }

inductive SyncJobStatus where
  | running
  | done
deriving DecidableEq

structure SyncJob (Response : Type u) where
  id : String
  userId : String
  status : SyncJobStatus
  startedAt : String
  finishedAt : Option String
  nodes : List (SyncJobNode Response)

/-- A job together with its `runJob` call: the shared cursor and the node
indices its live workers stand at. `picked` is history: every index a worker
took, in order. -/
structure JobRun (Response : Type u) extends SyncJob Response where
  cursor : ℕ
  workers : List ℕ
  picked : List ℕ

/-- Who queues under a node's sync lock: a worker of a job at one of its
indices, or a caller outside the jobs (a single-node sync, a remote sweep). -/
inductive Caller where
  | worker (jobId : String) (index : ℕ)
  | other (call : ℕ)
deriving DecidableEq

variable {Response : Type u}

/-- One turn of a worker from the top of its loop to its next `await`: take the
node under the cursor and queue for its lock, or exit past the end. The cursor
advances either way. -/
def takeNext (job : JobRun Response) (locks : Mutex String Caller) :
    JobRun Response × Mutex String Caller :=
  match job.nodes[job.cursor]? with
  | none => ({ job with cursor := job.cursor + 1 }, locks)
  | some n =>
    ({ job with
        nodes := job.nodes.set job.cursor { n with status := .running }
        cursor := job.cursor + 1
        workers := job.workers ++ [job.cursor]
        picked := job.picked ++ [job.cursor] },
      locks.enqueue n.nodeId (.worker job.id job.cursor))

def spawn : ℕ → JobRun Response → Mutex String Caller → JobRun Response × Mutex String Caller
  | 0, job, locks => (job, locks)
  | count + 1, job, locks =>
    let (job', locks') := takeNext job locks
    spawn count job' locks'

/-- One round of `runJob`'s outer loop, up to awaiting its workers. -/
def startRound (concurrency : JsNumber) (job : JobRun Response)
    (locks : Mutex String Caller) : JobRun Response × Mutex String Caller :=
  spawn (poolSize concurrency (job.nodes.length - job.cursor)) job locks

def SyncJobNode.settle (n : SyncJobNode Response) : Except String Response → SyncJobNode Response
  | .ok result => { n with status := .done, result := some result }
  | .error message => { n with status := .error, error := some message }

/-- The nodes a reattaching start adds: those it asks for that the job does not
have yet, each once. -/
def appendMissing (nodes : List (SyncJobNode Response)) :
    List String → List (SyncJobNode Response)
  | [] => nodes
  | nodeId :: nodeIds =>
    if nodes.any (·.nodeId == nodeId) then appendMissing nodes nodeIds
    else appendMissing (nodes ++ [.pending nodeId]) nodeIds

/-- The module's state: its maps and the node locks it shares with the other
entry points. -/
structure Process (Response : Type u) where
  jobs : String → Option (JobRun Response)
  currentJobIdByUser : String → Option String
  locks : Mutex String Caller

def Process.initial : Process Response :=
  { jobs := fun _ => none, currentJobIdByUser := fun _ => none, locks := Mutex.free }

def Process.setJob (p : Process Response) (job : JobRun Response) : Process Response :=
  { p with jobs := Function.update p.jobs job.id (some job) }

def currentRunningJob (p : Process Response) (userId : String) : Option (JobRun Response) :=
  match p.currentJobIdByUser userId with
  | none => none
  | some id =>
    match p.jobs id with
    | some job => if job.status = .running then some job else none
    | none => none

/-- `startSyncJob`: append to the user's running job, or create one and start
its first round. -/
def startSyncJob (concurrency : JsNumber) (p : Process Response) (userId : String)
    (nodeIds : List String) (id startedAt : String) : Process Response :=
  match currentRunningJob p userId with
  | some running => p.setJob { running with nodes := appendMissing running.nodes nodeIds }
  | none =>
    let job : JobRun Response :=
      { id, userId, status := .running, startedAt, finishedAt := none
        nodes := nodeIds.map .pending, cursor := 0, workers := [], picked := [] }
    let (job', locks') := startRound concurrency job p.locks
    { (p.setJob job') with
        currentJobIdByUser := Function.update p.currentJobIdByUser userId (some id)
        locks := locks' }

/-- The worker at `index` gets its `runNode` outcome, gives the node's lock
back and goes round its loop. -/
def settleNode (p : Process Response) (job : JobRun Response) (index : ℕ)
    (outcome : Except String Response) : Option (Process Response) :=
  match job.nodes[index]? with
  | none => none
  | some n =>
    if index ∈ job.workers ∧ p.locks.Holds n.nodeId (.worker job.id index) then
      let settled : JobRun Response :=
        { job with
          nodes := job.nodes.set index (n.settle outcome)
          workers := job.workers.erase index }
      let (job', locks') := takeNext settled (p.locks.release n.nodeId)
      some { (p.setJob job') with locks := locks' }
    else none

/-- All workers of the round have returned: the outer loop's check, and after it
either another round or the end of the job. -/
def drained (concurrency : JsNumber) (p : Process Response) (job : JobRun Response)
    (now : String) : Process Response :=
  if job.nodes.any (·.status == .pending) then
    let (job', locks') := startRound concurrency job p.locks
    { (p.setJob job') with locks := locks' }
  else
    let finished : JobRun Response := { job with status := .done, finishedAt := some now }
    { (p.setJob finished) with
        currentJobIdByUser :=
          if p.currentJobIdByUser job.userId = some job.id then
            Function.update p.currentJobIdByUser job.userId none
          else p.currentJobIdByUser }

/-- The moments at which the process moves: the calls and timers of this module,
the settling of a `runNode` call in any order, and the callers outside it that
share the node locks. -/
inductive Action (Response : Type u) where
  | startSyncJob (userId : String) (nodeIds : List String) (id startedAt : String)
  | settle (jobId : String) (index : ℕ) (outcome : Except String Response)
  | drained (jobId : String) (now : String)
  | retentionEnds (jobId : String)
  | otherQueues (nodeId : String) (call : ℕ)
  | otherFinishes (nodeId : String) (call : ℕ)
  | elsewhere

def step (concurrency : JsNumber) (p : Process Response) :
    Action Response → Option (Process Response)
  | .startSyncJob userId nodeIds id startedAt =>
    if (p.jobs id).isNone then some (startSyncJob concurrency p userId nodeIds id startedAt)
    else none
  | .settle jobId index outcome =>
    (p.jobs jobId).bind fun job => settleNode p job index outcome
  | .drained jobId now =>
    match p.jobs jobId with
    | some job =>
      if job.status = .running ∧ job.workers = [] then some (drained concurrency p job now)
      else none
    | none => none
  | .retentionEnds jobId =>
    match p.jobs jobId with
    | some job =>
      if job.status = .done then some { p with jobs := Function.update p.jobs jobId none }
      else none
    | none => none
  | .otherQueues nodeId call =>
    if Caller.other call ∈ p.locks nodeId then none
    else some { p with locks := p.locks.enqueue nodeId (.other call) }
  | .otherFinishes nodeId call =>
    if p.locks.Holds nodeId (.other call) then
      some { p with locks := p.locks.release nodeId }
    else none
  | .elsewhere => some p

def callsInFlight (p : Process Response) (job : JobRun Response) : List ℕ :=
  job.workers.filter fun index =>
    match job.nodes[index]? with
    | some n => decide (p.locks.Holds n.nodeId (.worker job.id index))
    | none => false

/-- Progress counters of `toSummary`. -/
structure SyncJobSummary (Response : Type u) where
  id : String
  status : SyncJobStatus
  startedAt : String
  finishedAt : Option String
  total : ℕ
  completed : ℕ
  errored : ℕ
  nodes : List (SyncJobNode Response)

def toSummary (job : SyncJob Response) : SyncJobSummary Response :=
  { id := job.id
    status := job.status
    startedAt := job.startedAt
    finishedAt := job.finishedAt
    total := job.nodes.length
    completed := job.nodes.countP fun n => n.status == .done || n.status == .error
    errored := job.nodes.countP fun n => n.status == .error
    nodes := job.nodes }

open Library.Runs

variable {Response : Type u}

namespace JsNumber

theorem Admits.mono {x : JsNumber} {m n : ℕ} (h : x.Admits n) (hmn : m ≤ n) : x.Admits m := by
  cases x with
  | nan => exact h
  | negInfinity => exact h
  | finite q =>
    have hcast : (m : ℚ) ≤ n := by exact_mod_cast hmn
    exact hcast.trans h
  | posInfinity => trivial

end JsNumber

theorem jobConcurrency_admits_one {env : Option JsNumber} (h : env ≠ some .nan) :
    (jobConcurrency env).Admits 1 := by
  rcases env with _ | x
  · simp [jobConcurrency, JsNumber.maxOne, JsNumber.Admits]
  · cases x with
    | nan => exact absurd rfl h
    | negInfinity | finite q => simp [jobConcurrency, JsNumber.maxOne, JsNumber.Admits]
    | posInfinity => trivial

theorem poolSize_le (concurrency : JsNumber) (remaining : ℕ) :
    poolSize concurrency remaining ≤ remaining := by
  cases concurrency with
  | nan => exact Nat.zero_le _
  | negInfinity => exact Nat.zero_le _
  | finite q =>
    have hfloor : ⌊min q (remaining : ℚ)⌋₊ ≤ remaining := by
      calc ⌊min q (remaining : ℚ)⌋₊ ≤ ⌊(remaining : ℚ)⌋₊ := Nat.floor_mono (min_le_right _ _)
        _ = remaining := Nat.floor_natCast remaining
    exact (min_le_left _ _).trans hfloor
  | posInfinity =>
    exact (min_le_left _ _).trans (Nat.floor_natCast (R := ℚ) remaining).le

variable {concurrency : JsNumber} {job : JobRun Response}

theorem poolSize_admits (h : concurrency.Admits 1) (remaining : ℕ) :
    concurrency.Admits (poolSize concurrency remaining) := by
  cases concurrency with
  | nan => exact h
  | negInfinity => exact h
  | finite q =>
    have hq : (1 : ℚ) ≤ q := by simpa [JsNumber.Admits] using h
    have hnonneg : (0 : ℚ) ≤ min q remaining :=
      le_min (zero_le_one.trans hq) (Nat.cast_nonneg remaining)
    have hsize : poolSize (.finite q) remaining ≤ ⌊min q (remaining : ℚ)⌋₊ := min_le_left _ _
    change (poolSize (.finite q) remaining : ℚ) ≤ q
    calc (poolSize (.finite q) remaining : ℚ) ≤ (⌊min q (remaining : ℚ)⌋₊ : ℚ) := by
          exact_mod_cast hsize
      _ ≤ min q remaining := Nat.floor_le hnonneg
      _ ≤ q := min_le_left _ _
  | posInfinity => trivial

theorem poolSize_pos (h : concurrency.Admits 1) {remaining : ℕ}
    (hremaining : 0 < remaining) : 0 < poolSize concurrency remaining := by
  have hone : (1 : ℚ) ≤ remaining := by exact_mod_cast Nat.succ_le_of_lt hremaining
  cases concurrency with
  | nan => exact h.elim
  | negInfinity => exact h.elim
  | finite q =>
    have hq : (1 : ℚ) ≤ q := by simpa [JsNumber.Admits] using h
    have hfloor : 1 ≤ ⌊min q (remaining : ℚ)⌋₊ :=
      Nat.le_floor (by simpa only [Nat.cast_one] using le_min hq hone)
    exact lt_min hfloor (by norm_num)
  | posInfinity =>
    have hfloor : 1 ≤ ⌊(remaining : ℚ)⌋₊ := Nat.le_floor (by simpa only [Nat.cast_one] using hone)
    exact lt_min hfloor (by norm_num)

/-- What every job satisfies as long as each append meets a cursor inside the
list: the workers took exactly the indices below the cursor, each once, and
every exit of a worker is accounted for by a node of the list. -/
structure JobInv (concurrency : JsNumber) (job : JobRun Response) : Prop where
  picked : job.picked = List.range (min job.cursor job.nodes.length)
  nodup : job.workers.Nodup
  below : ∀ i ∈ job.workers, i < job.cursor ∧ i < job.nodes.length
  settled : ∀ i n, job.nodes[i]? = some n → i < job.cursor → i ∉ job.workers →
    n.status = .done ∨ n.status = .error
  waiting : ∀ i n, job.nodes[i]? = some n → job.cursor ≤ i → n.status = .pending
  exits : job.workers.length + (job.cursor - job.nodes.length) ≤ job.nodes.length
  limit : concurrency.Admits job.workers.length
  finished : job.status = .done → job.workers = [] ∧ job.nodes.length ≤ job.cursor

variable {locks : Mutex String Caller}

theorem takeNext_of_cursor_lt (h : job.cursor < job.nodes.length) :
    takeNext job locks =
      ({ job with
          nodes := job.nodes.set job.cursor { job.nodes[job.cursor] with status := .running }
          cursor := job.cursor + 1
          workers := job.workers ++ [job.cursor]
          picked := job.picked ++ [job.cursor] },
        locks.enqueue job.nodes[job.cursor].nodeId (.worker job.id job.cursor)) := by
  simp [takeNext, List.getElem?_eq_getElem h]

theorem takeNext_of_length_le (h : job.nodes.length ≤ job.cursor) :
    takeNext job locks = ({ job with cursor := job.cursor + 1 }, locks) := by
  simp [takeNext, List.getElem?_eq_none h]

theorem JobInv.takeNext
    (inv : JobInv concurrency job) (locks : Mutex String Caller) (hrunning : job.status = .running)
    (hroom : job.workers.length + (job.cursor - job.nodes.length) < job.nodes.length)
    (hlimit : concurrency.Admits (job.workers.length + 1)) :
    JobInv concurrency (takeNext job locks).1 := by
  have hstatus : job.status ≠ .done := by simp [hrunning]
  rcases lt_or_ge job.cursor job.nodes.length with h | h
  · rw [takeNext_of_cursor_lt h]
    refine ⟨?_, ?_, ?_, ?_, ?_, ?_, ?_, fun hdone => absurd hdone hstatus⟩
    · have hmin : min job.cursor job.nodes.length = job.cursor := min_eq_left h.le
      simp only [inv.picked, List.length_set, hmin, min_eq_left (Nat.succ_le_of_lt h),
        List.range_succ]
    · have hfresh : job.cursor ∉ job.workers := fun hmem => (inv.below _ hmem).1.false
      exact List.nodup_append.mpr ⟨inv.nodup, by simp, by
        rintro i hi j hj rfl
        exact hfresh (List.mem_singleton.mp hj ▸ hi)⟩
    · intro i hi
      simp only [List.length_set]
      rcases List.mem_append.mp hi with hi | hi
      · have := inv.below i hi
        omega
      · have : i = job.cursor := by simpa using hi
        omega
    · intro i n hn hi hworker
      simp only [List.mem_append, List.mem_singleton, not_or] at hworker
      rw [List.getElem?_set_ne (Ne.symm hworker.2)] at hn
      exact inv.settled i n hn (by dsimp only at hi; omega) hworker.1
    · intro i n hn hi
      dsimp only at hi hn
      rw [List.getElem?_set_ne (by omega)] at hn
      exact inv.waiting i n hn (by omega)
    · simp only [List.length_append, List.length_singleton, List.length_set]
      omega
    · simpa using hlimit
  · rw [takeNext_of_length_le h]
    refine ⟨?_, inv.nodup, ?_, ?_, ?_, ?_, inv.limit, fun hdone => absurd hdone hstatus⟩
    · have hmin : min (job.cursor + 1) job.nodes.length = min job.cursor job.nodes.length := by
        omega
      simp only [inv.picked, hmin]
    · intro i hi
      have := inv.below i hi
      dsimp only
      omega
    · intro i n hn hi hworker
      have hlt := (List.getElem?_eq_some_iff.mp hn).1
      exact inv.settled i n hn (by dsimp only at hlt; omega) hworker
    · intro i n hn hi
      exact inv.waiting i n hn (by dsimp only at hi; omega)
    · dsimp only
      omega

theorem spawn_spec (count : ℕ)
    (locks : Mutex String Caller) (inv : JobInv concurrency job) (hrunning : job.status = .running)
    (hworkers : job.workers.length ≤ job.cursor)
    (hcount : job.cursor + count ≤ job.nodes.length)
    (hlimit : concurrency.Admits (job.workers.length + count)) :
    JobInv concurrency (spawn count job locks).1 ∧
      (spawn count job locks).1.status = .running ∧
      (spawn count job locks).1.cursor = job.cursor + count := by
  induction count generalizing job locks with
  | zero => exact ⟨inv, hrunning, rfl⟩
  | succ count ih =>
    have hlt : job.cursor < job.nodes.length := by omega
    have hturn := inv.takeNext locks hrunning (by omega) (hlimit.mono (by omega))
    have hnext := @takeNext_of_cursor_lt _ _ locks hlt
    rw [hnext] at hturn
    simp only [spawn, hnext]
    have h := ih (locks.enqueue job.nodes[job.cursor].nodeId (.worker job.id job.cursor))
      hturn hrunning (by simpa using hworkers) (by simpa using by omega)
      (by simpa [Nat.add_assoc, Nat.add_comm, Nat.add_left_comm] using hlimit)
    refine ⟨h.1, h.2.1, h.2.2.trans ?_⟩
    dsimp only
    omega

variable (nodes : List (SyncJobNode Response))

theorem length_le_appendMissing (nodeIds : List String) :
    nodes.length ≤ (appendMissing nodes nodeIds).length := by
  induction nodeIds generalizing nodes with
  | nil => exact le_rfl
  | cons nodeId nodeIds ih =>
    simp only [appendMissing]
    split
    · exact ih nodes
    · exact le_trans (by simp) (ih _)

theorem getElem?_appendMissing_of_lt (nodeIds : List String) {i : ℕ} (h : i < nodes.length) :
    (appendMissing nodes nodeIds)[i]? = nodes[i]? := by
  induction nodeIds generalizing nodes with
  | nil => rfl
  | cons nodeId nodeIds ih =>
    simp only [appendMissing]
    split
    · exact ih nodes h
    · rw [ih _ (by simp; omega), List.getElem?_append_left h]

variable {n : SyncJobNode Response}

theorem getElem?_appendMissing_eq_some (nodeIds : List String) {i : ℕ} (h : nodes[i]? = some n) :
    (appendMissing nodes nodeIds)[i]? = some n := by
  rw [getElem?_appendMissing_of_lt _ _ (List.getElem?_eq_some_iff.mp h).1, h]

theorem pending_of_appendMissing (nodeIds : List String) {i : ℕ} (h : nodes.length ≤ i)
    (hn : (appendMissing nodes nodeIds)[i]? = some n) : n.status = .pending := by
  induction nodeIds generalizing nodes with
  | nil => rw [appendMissing, List.getElem?_eq_none h] at hn; cases hn
  | cons nodeId nodeIds ih =>
    simp only [appendMissing] at hn
    split at hn
    · exact ih nodes h hn
    · by_cases hi : (nodes ++ [SyncJobNode.pending nodeId]).length ≤ i
      · exact ih _ hi hn
      · have hlt : i < (nodes ++ [SyncJobNode.pending nodeId]).length := by omega
        have heq : i = nodes.length := by simp at hlt; omega
        rw [getElem?_appendMissing_of_lt _ _ hlt, heq, List.getElem?_append_right le_rfl] at hn
        simp only [Nat.sub_self, List.getElem?_cons_zero, Option.some.injEq] at hn
        rw [← hn]
        rfl

theorem appendMissing_eq_self {nodes : List (SyncJobNode Response)} {nodeIds : List String}
    (h : ∀ nodeId ∈ nodeIds, ∃ n ∈ nodes, n.nodeId = nodeId) :
    appendMissing nodes nodeIds = nodes := by
  induction nodeIds with
  | nil => rfl
  | cons nodeId nodeIds ih =>
    obtain ⟨n, hn, hid⟩ := h nodeId (by simp)
    have hany : nodes.any (·.nodeId == nodeId) = true :=
      List.any_eq_true.mpr ⟨n, hn, by simp [hid]⟩
    rw [appendMissing, if_pos hany]
    exact ih fun id hmem => h id (by simp [hmem])

theorem JobInv.append
    (inv : JobInv concurrency job) (nodeIds : List String) (hrunning : job.status = .running)
    (hcursor : job.cursor ≤ job.nodes.length) :
    JobInv concurrency { job with nodes := appendMissing job.nodes nodeIds } := by
  have hlength := length_le_appendMissing job.nodes nodeIds
  have hexits := inv.exits
  refine ⟨?_, inv.nodup, ?_, ?_, ?_, ?_, inv.limit, ?_⟩
  · have hmin : min job.cursor (appendMissing job.nodes nodeIds).length =
        min job.cursor job.nodes.length := by omega
    simpa only [hmin] using inv.picked
  · intro i hi
    have := inv.below i hi
    dsimp only
    omega
  · intro i n hn hi hworker
    dsimp only at hn hi
    rw [getElem?_appendMissing_of_lt _ _ (by omega)] at hn
    exact inv.settled i n hn hi hworker
  · intro i n hn hi
    dsimp only at hn hi
    by_cases hlt : i < job.nodes.length
    · rw [getElem?_appendMissing_of_lt _ _ hlt] at hn
      exact inv.waiting i n hn hi
    · exact pending_of_appendMissing _ _ (by omega) hn
  · dsimp only
    omega
  · intro hdone
    simp [hrunning] at hdone

theorem JobInv.settle (inv : JobInv concurrency job) (locks : Mutex String Caller) {index : ℕ}
    (hn : job.nodes[index]? = some n) (hindex : index ∈ job.workers)
    (hrunning : job.status = .running) (outcome : Except String Response) :
    JobInv concurrency
      (Portuni.SyncJobs.takeNext
        { job with
          nodes := job.nodes.set index (n.settle outcome)
          workers := job.workers.erase index } locks).1 := by
  have hlength : (job.workers.erase index).length + 1 = job.workers.length := by
    have := List.length_erase_of_mem hindex
    have := List.length_pos_of_mem hindex
    omega
  have hexits := inv.exits
  have hsettled : JobInv concurrency
      { job with
        nodes := job.nodes.set index (n.settle outcome)
        workers := job.workers.erase index } := by
    refine ⟨?_, inv.nodup.erase index, ?_, ?_, ?_, ?_, ?_, ?_⟩
    · simpa only [List.length_set] using inv.picked
    · intro i hi
      simpa only [List.length_set] using inv.below i (List.mem_of_mem_erase hi)
    · intro i m hm hi hworker
      dsimp only at hm hi hworker
      by_cases hne : i = index
      · subst hne
        rw [List.getElem?_set_self (List.getElem?_eq_some_iff.mp hn).1] at hm
        simp only [Option.some.injEq] at hm
        subst hm
        cases outcome <;> simp [SyncJobNode.settle]
      · rw [List.getElem?_set_ne (Ne.symm hne)] at hm
        refine inv.settled i m hm hi fun hmem => hworker ?_
        exact (List.mem_erase_of_ne hne).mpr hmem
    · intro i m hm hi
      dsimp only at hm hi
      have := inv.below index hindex
      rw [List.getElem?_set_ne (by omega)] at hm
      exact inv.waiting i m hm hi
    · simp only [List.length_set]
      omega
    · exact inv.limit.mono (by dsimp only; omega)
    · intro hdone
      simp [hrunning] at hdone
  refine hsettled.takeNext locks hrunning ?_ ?_
  · simp only [List.length_set]
    omega
  · simpa only [hlength] using inv.limit

theorem JobInv.startRound (hone : concurrency.Admits 1)
    (inv : JobInv concurrency job) (locks : Mutex String Caller)
    (hrunning : job.status = .running) (hworkers : job.workers = [])
    (hcursor : job.cursor ≤ job.nodes.length) :
    JobInv concurrency (startRound concurrency job locks).1 ∧
      (startRound concurrency job locks).1.status = .running ∧
      (startRound concurrency job locks).1.cursor =
        job.cursor + poolSize concurrency (job.nodes.length - job.cursor) := by
  have hsize := poolSize_le concurrency (job.nodes.length - job.cursor)
  refine spawn_spec _ locks inv hrunning (by simp [hworkers]) (by omega) ?_
  simpa only [hworkers, List.length_nil, Nat.zero_add] using poolSize_admits hone _

theorem JobInv.created (hone : concurrency.Admits 1)
    (id userId startedAt : String) (nodeIds : List String) :
    JobInv concurrency
      ({ id, userId, status := .running, startedAt, finishedAt := none
         nodes := nodeIds.map .pending, cursor := 0, workers := [], picked := [] } :
        JobRun Response) := by
  refine ⟨by simp, by simp, by simp, by simp, ?_, by simp, hone.mono (by simp), by simp⟩
  intro i n hn _
  obtain ⟨nodeId, _, rfl⟩ := List.mem_map.mp (List.mem_of_getElem? hn)
  rfl

theorem JobInv.any_pending_iff
    (inv : JobInv concurrency job) (hworkers : job.workers = []) :
    job.nodes.any (·.status == .pending) = true ↔ job.cursor < job.nodes.length := by
  rw [List.any_eq_true]
  constructor
  · rintro ⟨n, hn, hpending⟩
    obtain ⟨i, hi⟩ := List.mem_iff_getElem?.mp hn
    have hlt := (List.getElem?_eq_some_iff.mp hi).1
    by_contra hcursor
    have hstatus := inv.settled i n hi (by omega) (by simp [hworkers])
    rcases hstatus with h | h <;> simp [h] at hpending
  · intro hlt
    refine ⟨job.nodes[job.cursor], List.getElem_mem hlt, ?_⟩
    have := inv.waiting job.cursor _ (List.getElem?_eq_getElem hlt) le_rfl
    simp [this]

end Portuni.SyncJobs
