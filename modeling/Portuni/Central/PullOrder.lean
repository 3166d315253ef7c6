import Portuni.Central.PullOrigin

namespace Portuni.Central

/-! A put replaces only what its device last synced, as long as no attempt that
was given up reaches the backend after its push. -/

section

open Content Library.KeyedMutex Library.Runs

universe u v

variable {Device : Type u} {Bytes : Type v} {H : Hashing Bytes} {backend : Backend}

/-- The states a run starts from: no call and no request is under way, and every
hash held is the hash of bytes the remote has had. -/
structure Start (H : Hashing Bytes) (backend : Backend) (s : State Device Bytes) : Prop where
  requests : ∀ r, s.server.requests r = none
  calls : ∀ c, s.calls c = none
  serverLock : s.server.lock = Mutex.free
  pathLock : s.pathLock = Mutex.free
  logged : s.log.getLast? = some s.server.remote
  record : ∀ hash, s.server.recordHash = some hash → Seen H backend s.log hash
  synced : ∀ device hash, s.lastSyncedHash device = some hash → Seen H backend s.log hash
  pushedAt : ∀ device, s.pushedAt device < s.log.length

theorem Start.inv {s : State Device Bytes} (h : Start H backend s) : Inv H backend s := by
  have hnone : ∀ r request, s.server.requests r ≠ some request := by
    intro r request hr
    rw [h.requests r] at hr
    cases hr
  refine ⟨⟨?_, ?_, fun r _ => h.requests r⟩, List.mem_of_getLast? h.logged, h.record, ?_, ?_,
    h.synced, ?_, ?_, fun c _ => h.calls c, ?_⟩
  · exact fun r request hr => absurd hr (hnone r request)
  · exact fun r request hr => absurd hr (hnone r request)
  · exact fun r request _ hr => absurd hr (hnone r request)
  · exact fun r request _ hr => absurd hr (hnone r request)
  · intro c call hcall
    rw [h.calls c] at hcall
    cases hcall
  · exact fun r request _ hr => absurd hr (hnone r request)
  · exact fun r request hr => absurd hr (hnone r request)

variable [DecidableEq Device]

theorem Inv.of_run {Allowed : State Device Bytes → Action Device Bytes → Prop}
    {s₀ s : State Device Bytes} (start : Start H backend s₀) {acts : List (Action Device Bytes)}
    (run : Run (Central.step H backend) Allowed s₀ acts s) : Inv H backend s :=
  run.inv _ start.inv fun _ _ _ inv _ hstep => inv.step hstep

def Awaited (s : State Device Bytes) (request : PutRequest Device Bytes) : Prop :=
  ∃ bytes baseline force r retried,
    s.calls request.call = some ⟨request.device, .pushing bytes baseline force r retried⟩

/-- No put is made for a push that has ended on a device that has synced another
version since the push sent it. -/
def PutsInTime (s : State Device Bytes) : Action Device Bytes → Prop
  | .puts r _ => ∀ request, s.server.requests r = some request →
      Awaited s request ∨
        request.precondition = preconditionFor false (s.lastSyncedHash request.device)
  | _ => True

/-- No lost update, for the runs whose steps `Allowed` admits. An unforced put
replaces an existing object only by the device that last synced that very
version, and what a device has synced is always the hash of bytes the remote has
had. -/
structure NoLostUpdate (Device : Type u) (H : Hashing Bytes) (backend : Backend)
    [DecidableEq Device] (Allowed : State Device Bytes → Action Device Bytes → Prop) : Prop where
  replaces : ∀ s₀, Start H backend s₀ → ∀ acts s, Run (step H backend) Allowed s₀ acts s →
    ∀ r ok, Allowed s (.puts r ok) → ∀ s', step H backend s (.puts r ok) = some s' →
      ∀ request, s.server.requests r = some request → request.precondition ≠ .force →
        ∀ old, s.server.remote = some old →
          s.lastSyncedHash request.device = some (H.canonicalHash backend old)
  synced : ∀ s₀, Start H backend s₀ → ∀ acts s, Run (step H backend) Allowed s₀ acts s →
    ∀ device hash, s.lastSyncedHash device = some hash →
      ∃ bytes, some bytes ∈ s.log ∧ H.canonicalHash backend bytes = hash

theorem Inv.base_of_put {s s' : State Device Bytes} (inv : Inv H backend s) {r : ℕ} {ok : Bool}
    (hstep : Central.step H backend s (.puts r ok) = some s') {request : PutRequest Device Bytes}
    (hr : s.server.requests r = some request) (hforce : request.precondition ≠ .force)
    {old : Bytes} (hold : s.server.remote = some old) :
    request.precondition = .baseCanonicalHash (H.canonicalHash backend old) := by
  obtain ⟨t, hact, -⟩ := Option.map_eq_some_iff.mp hstep
  have hchecked : request.phase = .checked := by
    simp only [State.act, State.onRequest, hr, Option.bind_some, Option.map_eq_some_iff] at hact
    obtain ⟨server, hput, -⟩ := hact
    simp only [Server.put, Option.ite_none_right_eq_some] at hput
    exact hput.1
  have hpass := inv.server.passes r request hr hchecked
  rw [hold] at hpass
  cases hpre : request.precondition with
  | force => exact absurd hpre hforce
  | ifAbsent => simp [refusal, hpre] at hpass
  | baseCanonicalHash base =>
    rw [hpre] at hpass
    obtain ⟨bytes, -, hbytes⟩ := inv.bases r request base hr hpre
    rw [canonicalHash_eq_of_passes hbytes hpass]

/-- In every run whose puts all come in time no update is lost. -/
theorem noLostUpdate_of_putsInTime (Device : Type u) [DecidableEq Device] (H : Hashing Bytes)
    (backend : Backend) : NoLostUpdate Device H backend PutsInTime := by
  refine ⟨?_, fun s₀ start acts s run device hash hhash =>
    (Inv.of_run start run).synced device hash hhash⟩
  intro s₀ start acts s run r ok hallowed s' hstep request hr hforce old hold
  have inv := Inv.of_run start run
  have hbase := inv.base_of_put hstep hr hforce hold
  rcases hallowed request hr with ⟨bytes, baseline, force, r', retried, hcall⟩ | hsame
  · obtain ⟨-, hpre⟩ := inv.request r request _ hr hcall
    rw [hbase] at hpre
    rw [← (inv.call _ _ hcall).2]
    exact eq_some_of_preconditionFor hpre.symm
  · rw [hbase] at hsame
    exact eq_some_of_preconditionFor hsame.symm

/-- Device `false` has synced the old content and edited its copy; device `true`
holds the same edit and has synced nothing. -/
def editedOnBoth : State Bool Bool where
  server :=
    { remote := some false, recordHash := some (sampleHashing.md5Buffer false)
      requests := fun _ => none, nextRequest := 0, lock := Mutex.free }
  localFile := fun _ => some true
  lastSyncedHash := fun device =>
    if device then none else some (sampleHashing.md5Buffer false)
  cachedLocalHash := fun _ => none
  rememberedRemoteHash := fun _ => none
  pathLock := Mutex.free
  calls := fun _ => none
  nextCall := 0
  log := [some false]
  pushedAt := fun _ => 0

theorem editedOnBoth_start : Start sampleHashing .drive editedOnBoth := by
  refine ⟨fun _ => rfl, fun _ => rfl, rfl, rfl, rfl, ?_, ?_, fun _ => Nat.one_pos⟩
  · intro hash hhash
    exact ⟨false, by simp [editedOnBoth], Option.some.inj hhash⟩
  · intro device hash hhash
    cases device with
    | true => cases hhash
    | false => exact ⟨false, by simp [editedOnBoth], Option.some.inj hhash⟩

/-- The first attempt of device `false` is given up and its retry lands; device
`true` adopts the same bytes, reverts them and pushes the old content; then the
server gets to the attempt given up. -/
def givenUpActions : List (Action Bool Bool) :=
  [.stores false false, .locks 0, .proceeds 0, .retries 0, .arrives 1, .checks 1, .puts 1 true,
    .receives 0, .stores true false, .locks 1, .proceeds 1, .arrives 2, .checks 2, .receives 1,
    .reads 1, .edits true (some false), .stores true false, .locks 2, .proceeds 2, .arrives 3,
    .checks 3, .puts 3 true, .receives 2, .arrives 0, .checks 0]

/-- Once an attempt that was given up may be put at any time, a device's push is
overwritten by one that synced something else. -/
theorem not_noLostUpdate_of_given_up :
    ¬ NoLostUpdate Bool sampleHashing .drive (fun _ _ => True) := by
  intro correct
  have hend : (exec (step sampleHashing .drive) editedOnBoth givenUpActions).map (fun s =>
      (s.server.remote, s.lastSyncedHash false, (s.server.requests 0).map fun request =>
        (request.device, request.precondition, request.phase))) =
      some (some false, some (sampleHashing.md5Buffer true),
        some (false, .baseCanonicalHash (sampleHashing.md5Buffer false), .checked)) := by
    decide +kernel
  obtain ⟨s, hexec, hs⟩ := Option.map_eq_some_iff.mp hend
  simp only [Prod.mk.injEq, Option.map_eq_some_iff] at hs
  obtain ⟨hremote, hsynced, request, hr, hdevice, hpre, hphase⟩ := hs
  have run := Run.of_exec_eq_some hexec
  have hput : ∃ s', step sampleHashing .drive s (.puts 0 true) = some s' := by
    simp [step, State.act, State.onRequest, hr, Server.put, hphase]
  obtain ⟨s', hstep⟩ := hput
  have hlast := correct.replaces editedOnBoth editedOnBoth_start givenUpActions s run 0 true trivial
    s' hstep request hr (by simp [hpre]) false hremote
  rw [hdevice, hsynced] at hlast
  revert hlast
  decide

end

/-! A pull of the central engine downloads before it takes the path lock, so what
it writes is as new as the last push only while no push completes in between. -/

open Content Library.KeyedMutex Library.Runs

universe u v

variable {Device : Type u} {Bytes : Type v} {H : Hashing Bytes} {backend : Backend}

def HoldsCurrent (H : Hashing Bytes) (backend : Backend) (remote : Option Bytes) :
    CallPhase Bytes → Prop
  | .pulling _ download => ∀ reported, download.stat = some reported →
      ∃ bytes, remote = some bytes ∧ reported = H.statHash backend bytes
  | .pulled _ bytes hash => remote = some bytes ∧ H.canonicalHash backend bytes = hash
  | .pullQueued _ bytes hash => remote = some bytes ∧ H.canonicalHash backend bytes = hash
  | _ => True

variable {phase : CallPhase Bytes}

theorem HoldsCurrent.pullSince {log : List (Option Bytes)} {remote : Option Bytes}
    (h : HoldsCurrent H backend remote phase) :
    PullSince H backend (log ++ [remote]) log.length phase := by
  have hnow : ∀ bytes, remote = some bytes → HadSince (log ++ [remote]) log.length bytes := by
    rintro bytes rfl
    exact ⟨log.length, Nat.le_refl _, by simp⟩
  cases phase with
  | pulling force download =>
    intro reported hreported
    obtain ⟨bytes, hbytes, hstat⟩ := h reported hreported
    exact ⟨bytes, hnow bytes hbytes, hstat⟩
  | pulled force bytes hash | pullQueued force bytes hash =>
    exact ⟨hnow bytes h.1, bytes, hnow bytes h.1, h.2⟩
  | pushScanned _ _ | pushQueued _ _ | pushing _ _ _ _ _ | verifying _ _ => trivial

/-- Every pull of every device holds what the remote has had since the device's
last push completed. -/
structure PullsFresh (H : Hashing Bytes) (backend : Backend) (s : State Device Bytes) : Prop where
  inv : Inv H backend s
  last : s.log.getLast? = some s.server.remote
  pushed : ∀ device, s.pushedAt device < s.log.length
  pulls : ∀ c call, s.calls c = some call →
    PullSince H backend s.log (s.pushedAt call.device) call.phase

variable {s : State Device Bytes}

theorem PullsFresh.hadSince (fresh : PullsFresh H backend s) {bytes : Bytes}
    (hremote : s.server.remote = some bytes) (device : Device) :
    HadSince s.log (s.pushedAt device) bytes := by
  have hpushed := fresh.pushed device
  refine ⟨s.log.length - 1, by omega, ?_⟩
  rw [← List.getLast?_eq_getElem?, fresh.last, hremote]

theorem PullsFresh.of_origin (fresh : PullsFresh H backend s) {c : ℕ} {device : Device}
    (h : PullOrigin H backend s c device phase) :
    PullSince H backend s.log (s.pushedAt device) phase := by
  cases h with
  | kept h => exact fresh.pulls c _ h
  | push h => exact h _ _
  | locked h => exact fresh.pulls c _ h
  | stat force hremote =>
    rintro _ ⟨⟩
    exact ⟨_, fresh.hadSince hremote device, rfl⟩
  | fast h hremote hknown =>
    have hhad := fresh.hadSince hremote device
    refine ⟨hhad, _, hhad, ?_⟩
    obtain ⟨old, -, hold⟩ := (fresh.inv.call c _ h).record _ hknown
    rw [← hold, H.hashLike_canonicalHash]
  | slow h hremote hreported =>
    have hhad := fresh.hadSince hremote device
    obtain ⟨old, hold, rfl⟩ := fresh.pulls c _ h _ hreported
    refine ⟨hhad, ?_⟩
    cases backend with
    | drive => exact ⟨old, hold, rfl⟩
    | opendal => exact ⟨_, hhad, rfl⟩

variable [DecidableEq Device]

/-- When a push completes, every pull of its device that has downloaded holds
what the remote still has. -/
def PushesFindPullsCurrent (H : Hashing Bytes) (backend : Backend) (s : State Device Bytes)
    (a : Action Device Bytes) : Prop :=
  ∀ s' device c, s.act H backend a = some s' → CompletesPush s s' device c →
    ∀ c' call, s.calls c' = some call → call.device = device →
      HoldsCurrent H backend s.server.remote call.phase

theorem PullsFresh.step {s s' : State Device Bytes} (fresh : PullsFresh H backend s)
    {a : Action Device Bytes} (hallowed : PushesFindPullsCurrent H backend s a)
    (hstep : Central.step H backend s a = some s') : PullsFresh H backend s' := by
  have inv' := fresh.inv.step hstep
  obtain ⟨t, hact, rfl⟩ := Option.map_eq_some_iff.mp hstep
  refine ⟨inv', by simp, fun device => ?_, fun c call hcall => ?_⟩
  · have hpushed := fresh.pushed device
    rcases completesPush_of_act hact with hsame | ⟨owner, c, hcompletes⟩
    · simp only [hsame, List.length_append, List.length_singleton]
      omega
    · simp only [hcompletes.pushedAt, List.length_append, List.length_singleton]
      by_cases hdevice : device = owner
      · subst hdevice
        simp
      · rw [Function.update_of_ne hdevice]
        omega
  · have horigin := PullOrigin.of_act hact hcall
    have hsince := (fresh.of_origin horigin).mono (List.prefix_append s.log [t.server.remote])
    rcases completesPush_of_act hact with hsame | ⟨owner, pusher, hcompletes⟩
    · simpa only [hsame] using hsince
    · simp only [hcompletes.pushedAt]
      by_cases hdevice : call.device = owner
      · have hkept : s.calls c = some call := by
          change t.calls c = some call at hcall
          rw [hcompletes.calls] at hcall
          by_cases hc : c = pusher
          · subst hc
            simp at hcall
          · rwa [Function.update_of_ne hc] at hcall
        have hcurrent := hallowed t owner pusher hact hcompletes c call hkept hdevice
        rw [← hcompletes.remote] at hcurrent
        simpa only [hdevice, Function.update_self] using hcurrent.pullSince
      · simpa only [Function.update_of_ne hdevice] using hsince

theorem PullsFresh.of_run {s₀ s : State Device Bytes} (start : Start H backend s₀)
    {acts : List (Action Device Bytes)}
    (run : Run (Central.step H backend) (PushesFindPullsCurrent H backend) s₀ acts s) :
    PullsFresh H backend s := by
  have hfirst : PullsFresh H backend s₀ := by
    refine ⟨start.inv, start.logged, start.pushedAt, fun c call hcall => ?_⟩
    rw [start.calls c] at hcall
    cases hcall
  exact run.inv _ hfirst fun _ _ _ fresh hallowed hstep => fresh.step hallowed hstep

/-- A pull of the central engine never reverts newer content, for the runs whose
steps `Allowed` admits: when it is its turn to write, the bytes it writes and the
baseline it records are what the remote has had since the last push of the device
completed. -/
def PullNeverReverts (Device : Type u) [DecidableEq Device] (H : Hashing Bytes)
    (backend : Backend)
    (Allowed : State Device Bytes → Action Device Bytes → Prop) : Prop :=
  ∀ s₀, Start H backend s₀ → ∀ acts s, Run (step H backend) Allowed s₀ acts s →
    ∀ c device force bytes hash, s.calls c = some ⟨device, .pullQueued force bytes hash⟩ →
      ∀ written baseline, s.pullWrites H device force bytes hash = some (written, baseline) →
        HadSince s.log (s.pushedAt device) written ∧
          ∃ bytes', HadSince s.log (s.pushedAt device) bytes' ∧
            H.canonicalHash backend bytes' = baseline

theorem pullNeverReverts_of_pushesFindPullsCurrent (Device : Type u) [DecidableEq Device]
    (H : Hashing Bytes) (backend : Backend) :
    PullNeverReverts Device H backend (PushesFindPullsCurrent H backend) := by
  intro s₀ start acts s run c device force bytes hash hcall written baseline hwrites
  cases eq_of_pullWrites hwrites
  exact (PullsFresh.of_run start run).pulls c _ hcall

/-- A pull downloads the old content, a push of the edited copy completes, and
then the pull comes to the path lock. -/
def overtakenActions : List (Action Bool Bool) :=
  [.pulls false false, .reads 0, .stores false false, .locks 1, .proceeds 1, .arrives 0, .checks 0,
    .puts 0 true, .receives 1, .locks 0]

def Call.queuedPull? (call : Call Bool Bool) : Option (Bool × Bool × Bool × String) :=
  match call with
  | ⟨device, .pullQueued force bytes hash⟩ => some (device, force, bytes, hash)
  | _ => none

theorem Call.eq_of_queuedPull? {call : Call Bool Bool} {device force bytes : Bool} {hash : String}
    (h : call.queuedPull? = some (device, force, bytes, hash)) :
    call = ⟨device, .pullQueued force bytes hash⟩ := by
  obtain ⟨device', phase⟩ := call
  cases phase <;> simp [Call.queuedPull?] at h
  simp [h]

/-- Once a push may complete between a pull's download and its write, the pull
writes the content from before the push. -/
theorem not_pullNeverReverts_of_overtaken :
    ¬ PullNeverReverts Bool sampleHashing .drive (fun _ _ => True) := by
  intro correct
  have hdevice : (exec (step sampleHashing .drive) editedOnBoth overtakenActions).map
      (fun s => (s.localFile false, s.lastSyncedHash false)) =
      some (some true, some (sampleHashing.md5Buffer true)) := by decide +kernel
  have hhistory : (exec (step sampleHashing .drive) editedOnBoth overtakenActions).map
      (fun s => (s.pushedAt false, s.log.drop 9)) = some (9, [some true, some true]) := by
    decide +kernel
  have hpull : (exec (step sampleHashing .drive) editedOnBoth overtakenActions).bind
      (fun s => (s.calls 0).bind Call.queuedPull?) =
      some (false, false, false, sampleHashing.md5Buffer false) := by decide +kernel
  obtain ⟨s, hexec, hpull⟩ := Option.bind_eq_some_iff.mp hpull
  obtain ⟨call, hcall, hpull⟩ := Option.bind_eq_some_iff.mp hpull
  simp only [hexec, Option.map_some, Option.some.injEq, Prod.mk.injEq] at hdevice hhistory
  obtain ⟨hlocal, hsynced⟩ := hdevice
  obtain ⟨hpushed, hlog⟩ := hhistory
  rw [Call.eq_of_queuedPull? hpull] at hcall
  have hwrites : s.pullWrites sampleHashing false false false (sampleHashing.md5Buffer false) =
      some (false, sampleHashing.md5Buffer false) := by
    simp only [State.pullWrites, hlocal, hsynced]
    decide
  obtain ⟨⟨t, ht, hbytes⟩, -⟩ := correct editedOnBoth editedOnBoth_start overtakenActions s
    (Run.of_exec_eq_some hexec) 0 false false false _ hcall _ _ hwrites
  rw [hpushed] at ht
  obtain ⟨k, rfl⟩ := Nat.exists_eq_add_of_le ht
  rw [← List.getElem?_drop, hlog] at hbytes
  rcases k with _ | _ | k
  · cases hbytes
  · cases hbytes
  · cases hbytes

end Portuni.Central
