import Portuni.Central.PullOrder

/-! One tracked file of a device that talks to the storage backend directly:
`storeFile` and `pullFile` under the lock of the file's local path, while other
parties write the object. -/

namespace Portuni.Direct

open Content Library.KeyedMutex

universe u

/-- Where a call stands. A store reads the local bytes, puts them and verifies
them; a pull downloads and writes. All of it happens inside the path lock. -/
inductive CallPhase (Bytes : Type u) where
  | storeQueued
  | storing (bytes : Bytes)
  | stored (bytes : Bytes)
  | pullQueued (force : Bool) (knownRemoteHash : Option String)
  | pulled (force : Bool) (bytes : Bytes) (hash : String)

/-- The object, the file's record, the device's copy and sync state, and its
calls. `log` and `pushedAt` are history: the object after every step, and the
moment the last store completed. -/
structure State (Bytes : Type u) where
  remote : Option Bytes
  recordHash : Option String
  localFile : Option Bytes
  lastSyncedHash : Option String
  cachedLocalHash : Option String
  pathLock : Mutex Unit ℕ
  calls : ℕ → Option (CallPhase Bytes)
  nextCall : ℕ
  log : List (Option Bytes)
  pushedAt : ℕ

variable {Bytes : Type u}

namespace State

variable (s : State Bytes)

def setCall (c : ℕ) (phase : CallPhase Bytes) : State Bytes :=
  { s with calls := Function.update s.calls c (some phase) }

def endCall (c : ℕ) : State Bytes :=
  { s with calls := Function.update s.calls c none, pathLock := s.pathLock.release () }

def begin (phase : CallPhase Bytes) : State Bytes :=
  { s.setCall s.nextCall phase with
    nextCall := s.nextCall + 1, pathLock := s.pathLock.enqueue () s.nextCall }

def upsertFileState (lastSyncedHash cachedLocalHash : String) : State Bytes :=
  { s with
    lastSyncedHash := some lastSyncedHash, cachedLocalHash := some cachedLocalHash }

/-- The hash `storeFile` settles on after its upload: sha256, or what `stat`
reports when that is the hash of the bytes uploaded. `none` is the failed
verification. -/
def verifiedHash (H : Hashing Bytes) (bytes : Bytes) (reported : Option String) : Option String :=
  match reported with
  | none => some (H.sha256Buffer bytes)
  | some hash => if H.hashLike hash bytes = hash then some hash else none

/-- `storeFile` after its put. `reachable` is whether its soft `stat` answers. -/
def verifyStore (H : Hashing Bytes) (backend : Backend) (c : ℕ) (bytes : Bytes)
    (reachable : Bool) : State Bytes :=
  let reported := if reachable then s.remote.bind (H.statHash backend) else none
  match verifiedHash H bytes reported with
  | none => s.endCall c
  | some hash =>
    let recorded := { s with recordHash := some hash }
    match s.localFile with
    | none => recorded.endCall c
    | some localBytes =>
      { (recorded.upsertFileState hash (H.hashLike hash localBytes)).endCall c with
        pushedAt := s.log.length }

/-- `pullFile`'s hash of its download, under the algorithm the record's hash
implies. -/
def pullHash (H : Hashing Bytes) (knownRemoteHash : Option String) (bytes : Bytes) : String :=
  match knownRemoteHash with
  | some known => H.hashLike known bytes
  | none => H.sha256Buffer bytes

/-- The dirty-local guard of `pullFile`, and what it writes when it passes. -/
def pullWrites (H : Hashing Bytes) (force : Bool) (bytes : Bytes) (hash : String) :
    Option (Bytes × String) :=
  match s.localFile with
  | none => some (bytes, hash)
  | some localBytes =>
    let current := H.hashLike hash localBytes
    if !force && current ≠ hash && s.lastSyncedHash.all (current ≠ ·) then none
    else some (bytes, hash)

def writePull (H : Hashing Bytes) (c : ℕ) (force : Bool) (bytes : Bytes) (hash : String) :
    State Bytes :=
  match s.pullWrites H force bytes hash with
  | none => s.endCall c
  | some (bytes, hash) =>
    { (s.upsertFileState hash hash).endCall c with
      localFile := some bytes, recordHash := some hash }

end State

inductive Action (Bytes : Type u) where
  | edits (content : Option Bytes)
  /-- Another party writes or removes the object. -/
  | elsewhere (content : Option Bytes)
  | stores
  | pulls (force : Bool)
  /-- The call that holds the path lock does its next step. -/
  | proceeds (call : ℕ)
  /-- `storeFile`'s verification, with its soft `stat` answering or not. -/
  | verifies (call : ℕ) (reachable : Bool)
  /-- The call that holds the path lock fails. -/
  | fails (call : ℕ)

def State.act (H : Hashing Bytes) (backend : Backend) (s : State Bytes) :
    Action Bytes → Option (State Bytes)
  | .edits content => some { s with localFile := content }
  | .elsewhere content => some { s with remote := content }
  | .stores => some (s.begin .storeQueued)
  | .pulls force => some (s.begin (.pullQueued force s.recordHash))
  | .proceeds c =>
    if s.pathLock.Holds () c then
      match s.calls c with
      | some .storeQueued =>
        match s.localFile with
        | none => some (s.endCall c)
        | some bytes => some (s.setCall c (.storing bytes))
      | some (.storing bytes) =>
        some { s.setCall c (.stored bytes) with remote := some bytes }
      | some (.pullQueued force known) =>
        match s.remote with
        | none => some (s.endCall c)
        | some bytes =>
          some (s.setCall c (.pulled force bytes (State.pullHash H known bytes)))
      | some (.pulled force bytes hash) => some (s.writePull H c force bytes hash)
      | _ => none
    else none
  | .verifies c reachable =>
    if s.pathLock.Holds () c then
      match s.calls c with
      | some (.stored bytes) => some (s.verifyStore H backend c bytes reachable)
      | _ => none
    else none
  | .fails c => if s.pathLock.Holds () c then some (s.endCall c) else none

def step (H : Hashing Bytes) (backend : Backend) (s : State Bytes) (a : Action Bytes) :
    Option (State Bytes) :=
  (s.act H backend a).map fun s' => { s' with log := s.log ++ [s'.remote] }

end Portuni.Direct

namespace Portuni.Direct

open Content
open Central (HadSince)
open Library.KeyedMutex Library.Runs

universe u v

variable {Bytes : Type u} {H : Hashing Bytes} {backend : Backend}

structure Start (s : State Bytes) : Prop where
  calls : ∀ c, s.calls c = none
  pathLock : s.pathLock = Mutex.free
  logged : s.log.getLast? = some s.remote
  pushedAt : s.pushedAt < s.log.length

/-- What a call past its queue holds: the path lock, and a pull bytes that the
object has had since the last store completed, with a hash of theirs. -/
def CallInv (H : Hashing Bytes) (s : State Bytes) (c : ℕ) : CallPhase Bytes → Prop
  | .storing _ => s.pathLock.Holds () c
  | .stored _ => s.pathLock.Holds () c
  | .pulled _ bytes hash => s.pathLock.Holds () c ∧ HadSince s.log s.pushedAt bytes ∧
      (hash = H.md5Buffer bytes ∨ hash = H.sha256Buffer bytes)
  | _ => True

structure Inv (H : Hashing Bytes) (s : State Bytes) : Prop where
  last : s.log.getLast? = some s.remote
  pushed : s.pushedAt < s.log.length
  call : ∀ c phase, s.calls c = some phase → CallInv H s c phase

def State.entered (s : State Bytes) (log : List (Option Bytes)) : State Bytes :=
  { s with log := log ++ [s.remote] }

variable {s s' : State Bytes} {c : ℕ} {phase : CallPhase Bytes}

theorem CallInv.entered (h : CallInv H s c phase)
    (hlock : s.pathLock.Holds () c → s'.pathLock.Holds () c) (hpushed : s'.pushedAt = s.pushedAt) :
    CallInv H (s'.entered s.log) c phase := by
  cases phase with
  | storeQueued => trivial
  | storing bytes => exact hlock h
  | stored bytes => exact hlock h
  | pullQueued force known => trivial
  | pulled force bytes hash =>
    obtain ⟨hhold, hsince, hhash⟩ := h
    refine ⟨hlock hhold, ?_, hhash⟩
    simp only [State.entered, hpushed]
    exact hsince.mono (List.prefix_append _ _)

theorem CallInv.of_other {other : ℕ} (h : CallInv H s other phase) (hold : s.pathLock.Holds () c)
    (hne : other ≠ c) (s' : State Bytes) : CallInv H s' other phase := by
  cases phase with
  | storeQueued => trivial
  | storing bytes | stored bytes => exact absurd (Mutex.Holds.unique h hold) hne
  | pullQueued force known => trivial
  | pulled force bytes hash => exact absurd (h.1.unique hold) hne

theorem pullHash_eq (known : Option String) (bytes : Bytes) :
    State.pullHash H known bytes = H.md5Buffer bytes ∨
      State.pullHash H known bytes = H.sha256Buffer bytes := by
  cases known with
  | none => exact .inr rfl
  | some known =>
    simp only [State.pullHash, Hashing.hashLike]
    split
    · exact .inl rfl
    · exact .inr rfl

variable (inv : Inv H s)

include inv

theorem Inv.holder (hold : s.pathLock.Holds () c) {next : Option (CallPhase Bytes)}
    (hcalls : s'.calls = Function.update s.calls c next) (hpushed : s'.pushedAt ≤ s.log.length)
    (hnext : ∀ phase, next = some phase → CallInv H (s'.entered s.log) c phase) :
    Inv H (s'.entered s.log) := by
  refine ⟨by simp [State.entered], ?_, fun other phase h => ?_⟩
  · simp only [State.entered, List.length_append, List.length_singleton]
    omega
  · simp only [State.entered, hcalls] at h
    by_cases hother : other = c
    · subst hother
      rw [Function.update_self] at h
      exact hnext phase h
    · rw [Function.update_of_ne hother] at h
      exact (inv.call other phase h).of_other hold hother _

theorem Inv.endCall (hold : s.pathLock.Holds () c)
    (hcalls : s'.calls = Function.update s.calls c none) (hpushed : s'.pushedAt ≤ s.log.length) :
    Inv H (s'.entered s.log) :=
  inv.holder hold hcalls hpushed fun _ h => by cases h

theorem Inv.hadSince {bytes : Bytes} (hremote : s.remote = some bytes) :
    HadSince s.log s.pushedAt bytes := by
  have hpushed := inv.pushed
  refine ⟨s.log.length - 1, by omega, ?_⟩
  rw [← List.getLast?_eq_getElem?, inv.last, hremote]

theorem Inv.begin (hphase : ∀ s' : State Bytes, CallInv H s' s.nextCall phase) :
    Inv H ((s.begin phase).entered s.log) := by
  have hpushed := inv.pushed
  refine ⟨by simp [State.entered], ?_, fun other old h => ?_⟩
  · simp only [State.entered, State.begin, State.setCall, List.length_append, List.length_singleton]
    omega
  · simp only [State.entered, State.begin, State.setCall] at h
    by_cases hother : other = s.nextCall
    · subst hother
      rw [Function.update_self, Option.some.injEq] at h
      exact h ▸ hphase _
    · rw [Function.update_of_ne hother] at h
      exact (inv.call other old h).entered (fun hold => hold.enqueue () s.nextCall) rfl

theorem Inv.step {a : Action Bytes} (hstep : Direct.step H backend s a = some s') : Inv H s' := by
  obtain ⟨t, hact, rfl⟩ := Option.map_eq_some_iff.mp hstep
  change Inv H (t.entered s.log)
  have hpushed := inv.pushed
  have hle : s.pushedAt ≤ s.log.length := by omega
  cases a with
  | edits content | elsewhere content =>
    cases hact
    refine ⟨by simp [State.entered], by simpa [State.entered] using by omega, ?_⟩
    exact fun c phase h => (inv.call c phase h).entered (fun hold => hold) rfl
  | stores | pulls force =>
    cases hact
    exact inv.begin fun _ => trivial
  | proceeds c =>
    simp only [State.act, Option.ite_none_right_eq_some] at hact
    obtain ⟨hold, hact⟩ := hact
    split at hact
    · split at hact
      · cases hact
        exact inv.endCall hold rfl hle
      · cases hact
        refine inv.holder hold rfl hle ?_
        rintro _ ⟨⟩
        exact hold
    · cases hact
      refine inv.holder hold rfl hle ?_
      rintro _ ⟨⟩
      exact hold
    · split at hact
      · cases hact
        exact inv.endCall hold rfl hle
      · next bytes hremote =>
        cases hact
        refine inv.holder hold rfl hle ?_
        rintro _ ⟨⟩
        exact ⟨hold, (inv.hadSince hremote).mono (List.prefix_append _ _), pullHash_eq _ _⟩
    · cases hact
      simp only [State.writePull]
      split
      · exact inv.endCall hold rfl hle
      · exact inv.endCall hold rfl hle
    · cases hact
  | verifies c reachable =>
    simp only [State.act, Option.ite_none_right_eq_some] at hact
    obtain ⟨hold, hact⟩ := hact
    split at hact
    · cases hact
      simp only [State.verifyStore]
      split
      · exact inv.endCall hold rfl hle
      · split
        · exact inv.endCall hold rfl hle
        · exact inv.endCall hold rfl (Nat.le_refl _)
    · cases hact
  | fails c =>
    simp only [State.act, Option.ite_none_right_eq_some, Option.some.injEq] at hact
    obtain ⟨hold, rfl⟩ := hact
    exact inv.endCall hold rfl hle

omit inv

theorem Inv.of_run {Allowed : State Bytes → Action Bytes → Prop} {s₀ : State Bytes}
    (start : Start s₀) {acts : List (Action Bytes)}
    (run : Run (Direct.step H backend) Allowed s₀ acts s) : Inv H s := by
  refine run.inv _ ⟨start.logged, start.pushedAt, fun c phase h => ?_⟩
    fun _ _ _ inv _ hstep => inv.step hstep
  rw [start.calls c] at h
  cases h

/-- A pull of the direct engine never reverts newer content: when it is its turn
to write, the object has had the bytes it writes since the last store completed,
and the baseline it records is their hash. -/
def PullNeverReverts (H : Hashing Bytes) (backend : Backend) : Prop :=
  ∀ s₀, Start s₀ → ∀ acts s, Run (step H backend) (fun _ _ => True) s₀ acts s →
    ∀ c force bytes hash, s.calls c = some (.pulled force bytes hash) →
      ∀ written baseline, s.pullWrites H force bytes hash = some (written, baseline) →
        HadSince s.log s.pushedAt written ∧
          (baseline = H.md5Buffer written ∨ baseline = H.sha256Buffer written)

theorem pullNeverReverts (H : Hashing Bytes) (backend : Backend) : PullNeverReverts H backend := by
  intro s₀ start acts s run c force bytes hash hcall written baseline hwrites
  have heq : (written, baseline) = (bytes, hash) := by
    simp only [State.pullWrites] at hwrites
    split at hwrites
    · exact (Option.some.inj hwrites).symm
    · split at hwrites
      · cases hwrites
      · exact (Option.some.inj hwrites).symm
  cases heq
  exact ((Inv.of_run start run).call c _ hcall).2

/-- No pull reverts newer content: in the central engine while every push that
completes finds the pulls of its device holding what the remote still has, in the
direct engine always. -/
theorem pull_never_reverts (Device : Type v) [DecidableEq Device] (H : Hashing Bytes)
    (backend : Backend) :
    Central.PullNeverReverts Device H backend (Central.PushesFindPullsCurrent H backend) ∧
      PullNeverReverts H backend :=
  ⟨Central.pullNeverReverts_of_pushesFindPullsCurrent Device H backend, pullNeverReverts H backend⟩

end Portuni.Direct
