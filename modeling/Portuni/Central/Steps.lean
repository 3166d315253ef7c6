import Portuni.Central.Invariant

/-! Every step of the central sync keeps its invariant. -/

namespace Portuni.Central

open Content Library.KeyedMutex Library.Runs

universe u v

variable {Device : Type u} {Bytes : Type v} {H : Hashing Bytes}
  {backend : Backend}

def State.entered (s : State Device Bytes) (log : List (Option Bytes)) : State Device Bytes :=
  { s with log := log ++ [s.server.remote] }

theorem log_subset_entered (s s' : State Device Bytes) : s.log ⊆ (s'.entered s.log).log :=
  List.subset_append_left _ _

theorem logged_entered (s : State Device Bytes) (log : List (Option Bytes)) :
    (s.entered log).server.remote ∈ (s.entered log).log :=
  List.mem_append_right _ (List.mem_singleton_self _)

variable {s s' : State Device Bytes} {c r : ℕ} {call : Call Device Bytes}
  {request : PutRequest Device Bytes} {force : Bool} {hash : String} {device : Device}
  {bytes : Bytes}

variable (inv : Inv H backend s)

include inv

theorem Inv.callLt (hcall : s.calls c = some call) : c < s.nextCall := by
  by_contra hge
  rw [inv.unusedCall c (by omega)] at hcall
  cases hcall

theorem Inv.requestInv_of_call (hcall : s.calls c = some call)
    (hr : s.server.requests r = some request) (hc : request.call = c) :
    RequestInv request call.device call.phase :=
  inv.request r request call hr (hc ▸ hcall)

theorem Inv.clientEntered {next : Option (Call Device Bytes)}
    (h : ClientStep H backend s (s'.entered s.log) c next) (recordHash : Option String)
    (hserver : s'.server = { s.server with recordHash })
    (hrecord : ∀ hash, recordHash = some hash → Seen H backend (s'.entered s.log).log hash)
    (hnext : ∀ call, next = some call → CallInv H backend (s'.entered s.log) c call.device
      call.phase)
    (hrequest : ∀ call, next = some call → ∀ r request, s.server.requests r = some request →
      request.call = c → RequestInv request call.device call.phase) :
    Inv H backend (s'.entered s.log) := by
  refine inv.client h ?_ ?_ (logged_entered _ _) ?_ hnext hrequest
  · simp [State.entered, hserver]
  · simp only [State.entered, hserver]
    exact ⟨inv.server.holds, inv.server.passes, inv.server.unused⟩
  · intro hash hhash
    refine hrecord hash ?_
    simpa [State.entered, hserver] using hhash

theorem Inv.recordEntered (s' : State Device Bytes) (hash : String)
    (h : s.server.recordHash = some hash) : Seen H backend (s'.entered s.log).log hash :=
  (inv.record hash h).mono (log_subset_entered s s')

variable {phase : CallPhase Bytes}

theorem Inv.setCall (hcall : s.calls c = some call) {phase : CallPhase Bytes}
    (recordHash : Option String) (hserver : s'.server = { s.server with recordHash })
    (hrecord : ∀ hash, recordHash = some hash → Seen H backend (s'.entered s.log).log hash)
    (hcalls : s'.calls = Function.update s.calls c (some ⟨call.device, phase⟩))
    (hholders : ∀ device other, s.pathLock.Holds device other → s'.pathLock.Holds device other)
    (hsynced : s'.lastSyncedHash = s.lastSyncedHash) (hnextCall : s'.nextCall = s.nextCall)
    (hnext : CallInv H backend (s'.entered s.log) c call.device phase)
    (hrequest : ∀ r request, s.server.requests r = some request → RequestInv request call.device
      call.phase → RequestInv request call.device phase) : Inv H backend (s'.entered s.log) := by
  have h : ClientStep H backend s (s'.entered s.log) c (some ⟨call.device, phase⟩) := by
    refine ⟨hcalls, fun device other _ hold => hholders device other hold,
      fun device => .inl (by simp [State.entered, hsynced]), log_subset_entered _ _, ?_, ?_⟩
    · simp [State.entered, hnextCall]
    · simpa [State.entered, hnextCall] using inv.callLt hcall
  refine inv.clientEntered h recordHash hserver hrecord ?_ ?_
  · intro call' hcall'
    cases hcall'
    exact hnext
  · intro call' hcall' r request hr hc
    cases hcall'
    exact hrequest r request hr (inv.requestInv_of_call hcall hr hc)

theorem Inv.begin (device : Device)
    (hnext : CallInv H backend ((s.begin device phase).entered s.log) s.nextCall device phase) :
    Inv H backend ((s.begin device phase).entered s.log) := by
  have h : ClientStep H backend s ((s.begin device phase).entered s.log) s.nextCall
      (some ⟨device, phase⟩) :=
    ⟨rfl, fun _ _ _ hold => hold, fun _ => .inl rfl, log_subset_entered _ _,
      Nat.le_succ _, Nat.lt_succ_self _⟩
  refine inv.clientEntered h _ rfl (inv.recordEntered _) ?_ ?_
  · intro call hcall
    cases hcall
    exact hnext
  · intro call hcall r request hr hc
    exact absurd hc (Nat.ne_of_lt (inv.requestCall r request hr))

omit inv

variable {baseline : Option String}

theorem eq_some_of_preconditionFor (h : preconditionFor force baseline = .baseCanonicalHash hash) :
    baseline = some hash := by
  cases force with
  | true => cases h
  | false =>
    cases baseline with
    | none => cases h
    | some base =>
      cases h
      rfl

include inv

theorem Inv.sendPut (hcall : s.calls c = some call) (hold : s.pathLock.Holds call.device c)
    {baseline : Option String} (hbaseline : baseline = s.lastSyncedHash call.device) (bytes : Bytes)
    (force retried : Bool)
    (hothers : ∀ r request, s.server.requests r = some request → request.call = c → request.device
      = call.device ∧ request.precondition = preconditionFor force baseline) :
    Inv H backend ((s.sendPut c call.device bytes baseline force retried).entered s.log) := by
  have hrequests : ∀ r request,
      (s.sendPut c call.device bytes baseline force retried).server.requests r = some request →
      (request = { device := call.device, call := c, bytes
                   precondition := preconditionFor force baseline, phase := .sent }) ∨
        s.server.requests r = some request := by
    intro r request hr
    simp only [State.sendPut, Server.send, Server.requests_setRequest] at hr
    split at hr
    · exact .inl (Option.some.inj hr).symm
    · exact .inr hr
  have hcalls : ∀ other call', (s.sendPut c call.device bytes baseline force retried).calls other =
      some call' → (other = c ∧ call' = ⟨call.device,
        .pushing bytes baseline force s.server.nextRequest retried⟩) ∨
        (other ≠ c ∧ s.calls other = some call') := by
    intro other call' h
    simp only [State.sendPut, State.setCall] at h
    by_cases hother : other = c
    · subst hother
      exact .inl ⟨rfl, by simpa using h.symm⟩
    · exact .inr ⟨hother, by simpa [Function.update_of_ne hother] using h⟩
  have hlog := log_subset_entered s (s.sendPut c call.device bytes baseline force retried)
  have hclient : ClientStep H backend s
      ((s.sendPut c call.device bytes baseline force retried).entered s.log) c
      (some ⟨call.device, .pushing bytes baseline force s.server.nextRequest retried⟩) :=
    ⟨rfl, fun _ _ _ hold => hold, fun _ => .inl rfl, hlog, Nat.le_refl _, inv.callLt hcall⟩
  refine ⟨inv.server.send rfl, logged_entered _ _,
    fun hash hhash => (inv.record hash hhash).mono hlog, ?_, ?_, ?_, ?_, ?_, ?_, ?_⟩
  · intro r request hash hr hphase
    rcases hrequests r request hr with rfl | hr
    · cases hphase
    · exact (inv.answers r request hash hr hphase).mono hlog
  · intro r request hash hr hbase
    rcases hrequests r request hr with rfl | hr
    · refine (inv.synced call.device hash ?_).mono hlog
      rw [← hbaseline]
      exact eq_some_of_preconditionFor hbase
    · exact (inv.bases r request hash hr hbase).mono hlog
  · intro device hash hhash
    exact (inv.synced device hash hhash).mono hlog
  · intro other call' h
    rcases hcalls other call' h with ⟨rfl, rfl⟩ | ⟨hother, h⟩
    · exact ⟨hold, hbaseline⟩
    · exact hclient.callInv hother (inv.call other call' h)
  · intro r request call' hr h
    rcases hrequests r request hr with rfl | hr
    · rcases hcalls _ call' h with ⟨-, rfl⟩ | ⟨hother, -⟩
      · exact ⟨rfl, rfl⟩
      · exact absurd rfl hother
    · rcases hcalls _ call' h with ⟨hc, rfl⟩ | ⟨-, h⟩
      · exact hothers r request hr hc
      · exact inv.request r request call' hr h
  · intro other hother
    have hlt := inv.callLt hcall
    change Function.update s.calls c _ other = none
    rw [Function.update_of_ne (by change s.nextCall ≤ other at hother; omega)]
    exact inv.unusedCall other hother
  · intro r request hr
    rcases hrequests r request hr with rfl | hr
    · exact inv.callLt hcall
    · exact inv.requestCall r request hr

variable {server : Server Device Bytes}

theorem Inv.onServer (hr : s.server.requests r = some request) {server : Server Device Bytes}
    (phase : RequestPhase) (hserver : ServerInv H backend server)
    (hrequests : server.requests = Function.update s.server.requests r (some { request with phase
      }))
    (hrecord : ∀ hash, server.recordHash = some hash → Seen H backend (s.log ++ [server.remote])
      hash)
    (hphase : ∀ hash, phase = .answered (.stored hash) → Seen H backend (s.log ++ [server.remote])
      hash) : Inv H backend (State.entered { s with server } s.log) := by
  have hlog := log_subset_entered s { s with server }
  have hcase : ∀ r' old, server.requests r' = some old →
      (old = { request with phase }) ∨ s.server.requests r' = some old := by
    intro r' old hold
    rw [hrequests] at hold
    by_cases hne : r' = r
    · subst hne
      exact .inl (by simpa using hold.symm)
    · exact .inr (by simpa [Function.update_of_ne hne] using hold)
  refine ⟨hserver, logged_entered _ _, hrecord, ?_, ?_, ?_, ?_, ?_, inv.unusedCall, ?_⟩
  · intro r' old hash hold hanswered
    rcases hcase r' old hold with rfl | hold
    · exact hphase hash hanswered
    · exact (inv.answers r' old hash hold hanswered).mono hlog
  · intro r' old hash hold hbase
    rcases hcase r' old hold with rfl | hold
    · exact (inv.bases r request hash hr hbase).mono hlog
    · exact (inv.bases r' old hash hold hbase).mono hlog
  · intro device hash hhash
    exact (inv.synced device hash hhash).mono hlog
  · intro c call hcall
    exact (inv.call c call hcall).mono hlog (fun hold => hold) rfl
  · intro r' old call hold hcall
    rcases hcase r' old hold with rfl | hold
    · exact inv.request r request call hr hcall
    · exact inv.request r' old call hold hcall
  · intro r' old hold
    rcases hcase r' old hold with rfl | hold
    · exact inv.requestCall r request hr
    · exact inv.requestCall r' old hold

theorem Inv.setRecordHash (hseen : Seen H backend s.log hash) :
    Inv H backend { s with server := { s.server with recordHash := some hash } } := by
  refine ⟨⟨inv.server.holds, inv.server.passes, inv.server.unused⟩, inv.logged, ?_, inv.answers,
    inv.bases, inv.synced, inv.call, inv.request, inv.unusedCall, inv.requestCall⟩
  intro other hother
  cases hother
  exact hseen

variable {download : Download}

theorem Inv.downloadSeen (hcall : s.calls c = some call)
    (hdownload : call.phase.download? = some download) : DownloadSeen H backend s.log download := by
  have hcallInv := inv.call c call hcall
  obtain ⟨device, phase⟩ := call
  cases phase with
  | verifying _ _ =>
    cases hdownload
    exact hcallInv.2
  | pulling _ _ =>
    cases hdownload
    exact hcallInv
  | pushScanned _ _ | pushQueued _ _ | pushing _ _ _ _ _ | pulled _ _ _ | pullQueued _ _ _ =>
    cases hdownload

variable (hr : s.server.requests r = some request)

include hr

theorem seen_of_observed
    (h : observedHash H backend s.server.remote request.precondition = some hash) :
    Seen H backend s.log hash := by
  have hlogged := inv.logged
  cases hpre : request.precondition with
  | force => simp [observedHash, hpre] at h
  | ifAbsent =>
    simp only [observedHash, hpre, Option.bind_eq_some_iff] at h
    obtain ⟨bytes, hremote, hstat⟩ := h
    exact ⟨bytes, hremote ▸ hlogged, (H.eq_canonicalHash_of_statHash hstat).symm⟩
  | baseCanonicalHash base =>
    simp only [observedHash, hpre, Option.map_eq_some_iff] at h
    obtain ⟨bytes, hremote, hcurrent⟩ := h
    obtain ⟨old, -, hold⟩ := inv.bases r request base hr hpre
    refine ⟨bytes, hremote ▸ hlogged, ?_⟩
    rw [← hcurrent, ← hold, H.hashLike_canonicalHash, H.statHash_getD_canonicalHash]

theorem Inv.check (h : s.server.check H backend r request = some server) :
    Inv H backend (State.entered { s with server } s.log) := by
  have hserver := inv.server.check hr h
  have hrecord : ∀ hash, ((observedHash H backend s.server.remote request.precondition).or
      s.server.recordHash) = some hash → Seen H backend (s.log ++ [s.server.remote]) hash := by
    intro hash hhash
    refine Seen.mono ?_ (List.subset_append_left s.log [s.server.remote])
    rcases Option.or_eq_some_iff.mp hhash with hobserved | ⟨-, hhash⟩
    · exact seen_of_observed inv hr hobserved
    · exact inv.record hash hhash
  simp only [Server.check, Option.ite_none_right_eq_some] at h
  obtain ⟨-, h⟩ := h
  split at h
  · next a ha =>
    cases h
    refine inv.onServer hr (.answered a) hserver rfl hrecord fun hash hhash => ?_
    cases hhash
    cases hpre : request.precondition with
    | force => simp [refusal, hpre] at ha
    | ifAbsent => simp [refusal, hpre] at ha
    | baseCanonicalHash base =>
      simp only [refusal, hpre] at ha
      split at ha
      · cases ha
      · split at ha
        · cases ha
        · cases ha
  · cases h
    exact inv.onServer hr .checked hserver rfl hrecord fun _ h => by cases h

theorem Inv.put {ok : Bool} (h : s.server.put H backend r request ok = some server) :
    Inv H backend (State.entered { s with server } s.log) := by
  have hserver := inv.server.put hr h
  simp only [Server.put, Option.ite_none_right_eq_some, Option.some.injEq] at h
  obtain ⟨-, rfl⟩ := h
  have hput : Seen H backend (s.log ++ [some request.bytes])
      (H.canonicalHash backend request.bytes) := ⟨request.bytes, by simp, rfl⟩
  refine inv.onServer hr _ hserver rfl ?_ ?_
  · intro hash hhash
    cases ok with
    | true =>
      cases hhash
      exact hput
    | false => exact (inv.record hash hhash).mono (List.subset_append_left _ _)
  · intro hash hhash
    cases ok with
    | true =>
      cases hhash
      exact hput
    | false => cases hhash

omit hr

omit inv

theorem eq_of_pullWrites {written : Bytes × String}
    (h : s.pullWrites H device force bytes hash = some written) : written = (bytes, hash) := by
  simp only [State.pullWrites] at h
  split at h
  · exact (Option.some.inj h).symm
  · split at h
    · cases h
    · exact (Option.some.inj h).symm

variable [DecidableEq Device]

theorem holds_endCall (s : State Device Bytes) {other : ℕ} {device' : Device}
    (hne : other ≠ c) (h : s.pathLock.Holds device' other) :
    (s.endCall c device).pathLock.Holds device' other := by
  simp only [State.endCall]
  split
  · next hold =>
    have hdevice : device' ≠ device := by
      rintro rfl
      exact hne (h.unique hold)
    rw [Mutex.Holds, Mutex.release_of_ne _ _ _ hdevice]
    exact h
  · exact h

include inv

theorem Inv.endCall (hcall : s.calls c = some call) (device : Device) :
    Inv H backend ((s.endCall c device).entered s.log) := by
  have h : ClientStep H backend s ((s.endCall c device).entered s.log) c none :=
    ⟨rfl, fun _ _ hne hold => holds_endCall s hne hold, fun _ => .inl rfl,
      log_subset_entered _ _, Nat.le_refl _, inv.callLt hcall⟩
  exact inv.clientEntered h _ rfl (inv.recordEntered _) (fun _ hnone => by cases hnone)
    (fun _ hnone => by cases hnone)

theorem Inv.rememberRemoteHash (device : Device) (hash : Option String) :
    Inv H backend (s.rememberRemoteHash device hash) := by
  cases hash with
  | none => exact inv
  | some hash =>
    exact ⟨inv.server, inv.logged, inv.record, inv.answers, inv.bases, inv.synced, inv.call, inv.request,
      inv.unusedCall, inv.requestCall⟩

variable (hcall : s.calls c = some call)

include hcall

theorem Inv.syncAndEnd (hold : s.pathLock.Holds call.device c) (hseen : Seen H backend s.log hash)
    (hserver : s'.server = s.server) (hcalls : s'.calls = Function.update s.calls c none)
    (hlock : s'.pathLock = (s.endCall c call.device).pathLock)
    (hsynced : s'.lastSyncedHash = Function.update s.lastSyncedHash call.device (some hash))
    (hnextCall : s'.nextCall = s.nextCall) : Inv H backend (s'.entered s.log) := by
  have h : ClientStep H backend s (s'.entered s.log) c none := by
    refine ⟨hcalls, fun device other hne hold' => ?_, fun device => ?_, log_subset_entered _ _,
      Nat.le_of_eq hnextCall.symm, ?_⟩
    · simp only [State.entered, hlock]
      exact holds_endCall s hne hold'
    · simp only [State.entered, hsynced]
      by_cases hdevice : device = call.device
      · subst hdevice
        exact .inr ⟨hold, hash, by simp, hseen⟩
      · exact .inl (Function.update_of_ne hdevice _ _)
    · simp only [State.entered, hnextCall]
      exact inv.callLt hcall
  exact inv.clientEntered h s.server.recordHash (by rw [hserver]) (inv.recordEntered _)
    (fun _ hnone => by cases hnone) (fun _ hnone => by cases hnone)

theorem Inv.finishPush (hold : s.pathLock.Holds call.device c) (hseen : Seen H backend s.log hash) :
    Inv H backend ((s.finishPush H c call.device hash).entered s.log) := by
  have inv' := inv.rememberRemoteHash call.device (some hash)
  simp only [State.finishPush]
  split
  · exact inv'.endCall hcall call.device
  · exact inv'.syncAndEnd hcall hold hseen rfl rfl rfl rfl rfl

theorem Inv.writePull (hold : s.pathLock.Holds call.device c) (force : Bool) (bytes : Bytes)
    (hseen : Seen H backend s.log hash) :
    Inv H backend ((s.writePull H c call.device force bytes hash).entered s.log) := by
  simp only [State.writePull]
  split
  · exact inv.endCall hcall call.device
  · next written hash' hw =>
    cases eq_of_pullWrites hw
    exact inv.syncAndEnd hcall hold hseen rfl rfl rfl rfl rfl

theorem Inv.receiveDownload (hdownload : call.phase.download? = some download)
    (hbytes : some bytes ∈ s.log) (hseen : Seen H backend s.log hash) :
    Inv H backend ((s.receiveDownload H c call.device bytes hash call.phase).entered s.log) := by
  have inv' := inv.rememberRemoteHash call.device (some hash)
  obtain ⟨device, phase⟩ := call
  have hcallInv := inv.call c _ hcall
  cases phase with
  | verifying localBytes old =>
    simp only [State.receiveDownload]
    split
    · exact inv'.finishPush hcall hcallInv.1 hseen
    · exact inv'.endCall hcall device
  | pulling force old =>
    refine inv'.setCall hcall s.server.recordHash rfl (inv'.recordEntered _) rfl
      (fun _ _ hold => hold) rfl rfl ?_ (fun _ _ _ h => h)
    exact ⟨log_subset_entered s _ hbytes, hseen.mono (log_subset_entered s _)⟩
  | pushScanned _ _ | pushQueued _ _ | pushing _ _ _ _ _ | pulled _ _ _ | pullQueued _ _ _ =>
    cases hdownload

omit hcall

omit inv

theorem seen_of_reported {log : List (Option Bytes)} {reported : Option String}
    (hstat : ∃ bytes, some bytes ∈ log ∧ reported = H.statHash backend bytes)
    (hbytes : some bytes ∈ log) : Seen H backend log (reported.getD (H.sha256Buffer bytes)) := by
  obtain ⟨old, hold, rfl⟩ := hstat
  cases backend with
  | drive => exact ⟨old, hold, rfl⟩
  | opendal => exact ⟨bytes, hbytes, rfl⟩

include inv

theorem Inv.readRemote (hcall : s.calls c = some call)
    (hdownload : call.phase.download? = some download) :
    Inv H backend ((s.readRemote H backend c call download).entered s.log) := by
  have hseen := inv.downloadSeen hcall hdownload
  have hlogged := inv.logged
  simp only [State.readRemote]
  split
  · exact inv.endCall hcall call.device
  · next bytes hremote =>
    rw [hremote] at hlogged
    split
    · next known hrecord =>
      refine inv.receiveDownload hcall hdownload hlogged ⟨bytes, hlogged, ?_⟩
      obtain ⟨old, -, hold⟩ := hseen.record known hrecord
      rw [← hold, H.hashLike_canonicalHash]
    · next hrecord hnone =>
      have hstat : DownloadSeen H backend (s.log ++ [s.server.remote])
          ⟨none, some (H.statHash backend bytes)⟩ := by
        refine ⟨fun _ h => (by cases h), fun reported h => ?_⟩
        cases h
        exact ⟨bytes, List.mem_append_left _ hlogged, rfl⟩
      refine inv.setCall hcall s.server.recordHash rfl (inv.recordEntered _) rfl
        (fun _ _ hold => hold) rfl rfl ?_ ?_
      · have hcallInv := inv.call c call hcall
        obtain ⟨device, phase⟩ := call
        cases phase with
        | verifying _ _ => exact ⟨hcallInv.1, hstat⟩
        | pulling _ _ => exact hstat
        | pushScanned _ _ | pushQueued _ _ | pushing _ _ _ _ _ | pulled _ _ _ | pullQueued _ _ _ =>
          cases hdownload
      · intro r request _ hrequest
        obtain ⟨device, phase⟩ := call
        cases phase <;> exact hrequest
    · next reported hrecord hreported =>
      have hhash := seen_of_reported (hseen.stat reported hreported) hlogged
      exact (inv.setRecordHash hhash).receiveDownload hcall hdownload hlogged hhash

theorem Inv.startPush {entryBaseline : Option String}
    (hcall : s.calls c = some ⟨device, .pushQueued entryBaseline force⟩)
    (hold : s.pathLock.Holds device c) :
    Inv H backend ((s.startPush c device entryBaseline force).entered s.log) := by
  simp only [State.startPush]
  split
  · exact inv.endCall hcall device
  · next bytes hbytes =>
    have hbaseline : (s.lastSyncedHash device).or entryBaseline = s.lastSyncedHash device := by
      have hentry := inv.call c _ hcall
      cases hsynced : s.lastSyncedHash device with
      | some hash => rfl
      | none =>
        cases entryBaseline with
        | none => rfl
        | some hash => simpa [hsynced] using hentry rfl
    refine inv.sendPut hcall hold hbaseline bytes force false ?_
    intro r request hr hc
    exact (inv.requestInv_of_call hcall hr hc).elim

theorem Inv.receiveAnswer {retried : Bool}
    (hcall : s.calls c = some ⟨device, .pushing bytes baseline force r retried⟩)
    (hr : s.server.requests r = some request) {a : Answer} (hphase : request.phase = .answered a) :
    Inv H backend ((s.receiveAnswer H c device bytes baseline a).entered s.log) := by
  have hcallInv := inv.call c _ hcall
  cases a with
  | stored hash => exact inv.finishPush hcall hcallInv.1 (inv.answers r request hash hr hphase)
  | conflict currentVersion =>
    exact (inv.rememberRemoteHash device (some currentVersion)).endCall hcall device
  | failed => exact inv.endCall hcall device
  | «exists» =>
    simp only [State.receiveAnswer]
    split
    · refine inv.setCall hcall s.server.recordHash rfl (inv.recordEntered _) rfl
        (fun _ _ hold => hold) rfl rfl ⟨hcallInv.1, ?_⟩ (fun _ _ _ _ => trivial)
      exact ⟨inv.recordEntered _, fun _ h => (by cases h)⟩
    · exact inv.endCall hcall device

theorem Inv.step {a : Action Device Bytes} (hstep : step H backend s a = some s') :
    Inv H backend s' := by
  obtain ⟨t, hact, rfl⟩ := Option.map_eq_some_iff.mp hstep
  change Inv H backend (t.entered s.log)
  cases a with
  | edits device content =>
    cases hact
    have hlog := log_subset_entered s
      { s with localFile := Function.update s.localFile device content }
    exact ⟨inv.server, logged_entered _ _, fun hash h => (inv.record hash h).mono hlog,
      fun r request hash hr h => (inv.answers r request hash hr h).mono hlog,
      fun r request hash hr h => (inv.bases r request hash hr h).mono hlog,
      fun device hash h => (inv.synced device hash h).mono hlog,
      fun c call h => (inv.call c call h).mono hlog (fun hold => hold) rfl, inv.request,
      inv.unusedCall, inv.requestCall⟩
  | scans device =>
    cases hact
    exact inv.begin device fun h => h
  | stores device force =>
    cases hact
    exact inv.begin device fun h => by cases h
  | pulls device force =>
    cases hact
    exact inv.begin device ⟨inv.recordEntered _, fun _ h => (by cases h)⟩
  | locks c =>
    simp only [State.act] at hact
    split at hact
    · next device entryBaseline force hcall =>
      cases hact
      exact inv.setCall hcall s.server.recordHash rfl (inv.recordEntered _) rfl
        (fun _ _ hold => hold.enqueue _ _) rfl rfl (inv.call c _ hcall) (fun _ _ _ h => h)
    · next device force bytes hash hcall =>
      cases hact
      refine inv.setCall hcall s.server.recordHash rfl (inv.recordEntered _) rfl
        (fun _ _ hold => hold.enqueue _ _) rfl rfl ?_ (fun _ _ _ h => h)
      have hcallInv := inv.call c _ hcall
      exact ⟨log_subset_entered s _ hcallInv.1, hcallInv.2.mono (log_subset_entered s _)⟩
    · cases hact
  | proceeds c =>
    simp only [State.act] at hact
    split at hact
    · next device entryBaseline force hcall =>
      simp only [Option.ite_none_right_eq_some, Option.some.injEq] at hact
      exact hact.2 ▸ inv.startPush hcall hact.1
    · next device force bytes hash hcall =>
      simp only [Option.ite_none_right_eq_some, Option.some.injEq] at hact
      exact hact.2 ▸ inv.writePull hcall hact.1 force bytes (inv.call c _ hcall).2
    · cases hact
  | retries c =>
    simp only [State.act] at hact
    split at hact
    · next device bytes baseline force r hcall =>
      cases hact
      have hcallInv := inv.call c _ hcall
      exact inv.sendPut hcall hcallInv.1 hcallInv.2 bytes force true fun r request hr hc =>
        inv.requestInv_of_call hcall hr hc
    · next device bytes download hcall =>
      cases hact
      exact inv.setCall hcall s.server.recordHash rfl (inv.recordEntered _) rfl
        (fun _ _ hold => hold) rfl rfl
        ⟨(inv.call c _ hcall).1, inv.recordEntered _, fun _ h => (by cases h)⟩
        (fun _ _ _ h => h)
    · next device force download hcall =>
      cases hact
      exact inv.setCall hcall s.server.recordHash rfl (inv.recordEntered _) rfl
        (fun _ _ hold => hold) rfl rfl ⟨inv.recordEntered _, fun _ h => (by cases h)⟩
        (fun _ _ _ h => h)
    · cases hact
  | receives c =>
    simp only [State.act] at hact
    split at hact
    · next device bytes baseline force r retried hcall =>
      split at hact
      · next a hr =>
        cases hact
        exact inv.receiveAnswer hcall hr rfl
      · cases hact
    · cases hact
  | reads c =>
    obtain ⟨call, hcall, hread⟩ := Option.bind_eq_some_iff.mp hact
    obtain ⟨download, hdownload, rfl⟩ := Option.map_eq_some_iff.mp hread
    exact inv.readRemote hcall hdownload
  | givesUp c =>
    obtain ⟨call, hcall, hfail⟩ := Option.bind_eq_some_iff.mp hact
    simp only [Option.ite_none_right_eq_some, Option.some.injEq] at hfail
    exact hfail.2 ▸ inv.endCall hcall call.device
  | arrives r =>
    obtain ⟨request, hr, hserver⟩ := Option.bind_eq_some_iff.mp hact
    obtain ⟨server, harrive, rfl⟩ := Option.map_eq_some_iff.mp hserver
    have hinv := inv.server.arrive hr harrive
    simp only [Server.arrive, Option.ite_none_right_eq_some, Option.some.injEq] at harrive
    obtain ⟨-, rfl⟩ := harrive
    exact inv.onServer hr .queued hinv rfl (inv.recordEntered s) fun _ h => by cases h
  | checks r =>
    obtain ⟨request, hr, hserver⟩ := Option.bind_eq_some_iff.mp hact
    obtain ⟨server, hcheck, rfl⟩ := Option.map_eq_some_iff.mp hserver
    exact inv.check hr hcheck
  | puts r ok =>
    obtain ⟨request, hr, hserver⟩ := Option.bind_eq_some_iff.mp hact
    obtain ⟨server, hput, rfl⟩ := Option.map_eq_some_iff.mp hserver
    exact inv.put hr hput
  | breaks r =>
    obtain ⟨request, hr, hserver⟩ := Option.bind_eq_some_iff.mp hact
    obtain ⟨server, habort, rfl⟩ := Option.map_eq_some_iff.mp hserver
    have hinv := inv.server.abort hr habort
    simp only [Server.abort, Option.ite_none_right_eq_some, Option.some.injEq] at habort
    obtain ⟨-, rfl⟩ := habort
    exact inv.onServer hr (.answered .failed) hinv rfl (inv.recordEntered s) fun _ h => by cases h

end Portuni.Central
