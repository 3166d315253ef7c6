import Portuni.Central.Steps

/-! What a pull has in hand and where it comes from: each step of the central
sync, read as what it does to the pulls and to the pushes that complete. -/

namespace Portuni.Central

open Content Library.KeyedMutex

universe u v

variable {Device : Type u} {Bytes : Type v} {H : Hashing Bytes} {backend : Backend}

/-- The remote has had `bytes` at or after the moment `since`. -/
def HadSince (log : List (Option Bytes)) (since : ℕ) (bytes : Bytes) : Prop :=
  ∃ t, since ≤ t ∧ log[t]? = some (some bytes)

variable {log log' : List (Option Bytes)}

theorem HadSince.mono {since : ℕ} {bytes : Bytes} (h : HadSince log since bytes)
    (hlog : log <+: log') : HadSince log' since bytes := by
  obtain ⟨t, hsince, ht⟩ := h
  exact ⟨t, hsince, Mutex.place_of_prefix hlog ht⟩

/-- What a pull has in hand was on the remote no earlier than `since`. -/
def PullSince (H : Hashing Bytes) (backend : Backend) (log : List (Option Bytes)) (since : ℕ) :
    CallPhase Bytes → Prop
  | .pulling _ download => ∀ reported, download.stat = some reported →
      ∃ bytes, HadSince log since bytes ∧ reported = H.statHash backend bytes
  | .pulled _ bytes hash => HadSince log since bytes ∧
      ∃ bytes', HadSince log since bytes' ∧ H.canonicalHash backend bytes' = hash
  | .pullQueued _ bytes hash => HadSince log since bytes ∧
      ∃ bytes', HadSince log since bytes' ∧ H.canonicalHash backend bytes' = hash
  | _ => True

theorem PullSince.mono {since : ℕ} {phase : CallPhase Bytes}
    (h : PullSince H backend log since phase) (hlog : log <+: log') :
    PullSince H backend log' since phase := by
  cases phase with
  | pulling force download =>
    intro reported hreported
    obtain ⟨bytes, hbytes, hstat⟩ := h reported hreported
    exact ⟨bytes, hbytes.mono hlog, hstat⟩
  | pulled force bytes hash | pullQueued force bytes hash =>
    obtain ⟨hbytes, bytes', hbytes', hhash⟩ := h
    exact ⟨hbytes.mono hlog, bytes', hbytes'.mono hlog, hhash⟩
  | pushScanned _ _ | pushQueued _ _ | pushing _ _ _ _ _ | verifying _ _ => trivial

/-- How a call of the state after a step came to be, as far as pulls go. -/
inductive PullOrigin (H : Hashing Bytes) (backend : Backend) (s : State Device Bytes) (c : ℕ)
    (device : Device) : CallPhase Bytes → Prop
  | kept {phase : CallPhase Bytes} (h : s.calls c = some ⟨device, phase⟩) :
      PullOrigin H backend s c device phase
  | push {phase : CallPhase Bytes} (h : ∀ log since, PullSince H backend log since phase) :
      PullOrigin H backend s c device phase
  | locked {force : Bool} {bytes : Bytes} {hash : String}
      (h : s.calls c = some ⟨device, .pulled force bytes hash⟩) :
      PullOrigin H backend s c device (.pullQueued force bytes hash)
  | stat {bytes : Bytes} (force : Bool) (hremote : s.server.remote = some bytes) :
      PullOrigin H backend s c device (.pulling force ⟨none, some (H.statHash backend bytes)⟩)
  | fast {force : Bool} {download : Download} {bytes : Bytes} {known : String}
      (h : s.calls c = some ⟨device, .pulling force download⟩)
      (hremote : s.server.remote = some bytes) (hknown : download.recordHash = some known) :
      PullOrigin H backend s c device (.pulled force bytes (H.hashLike known bytes))
  | slow {force : Bool} {download : Download} {bytes : Bytes} {reported : Option String}
      (h : s.calls c = some ⟨device, .pulling force download⟩)
      (hremote : s.server.remote = some bytes) (hreported : download.stat = some reported) :
      PullOrigin H backend s c device (.pulled force bytes (reported.getD (H.sha256Buffer bytes)))

variable {s : State Device Bytes} {c c' : ℕ} {call : Call Device Bytes}

theorem PullOrigin.of_update (next : Option (Call Device Bytes))
    (hnext : ∀ call, next = some call → PullOrigin H backend s c call.device call.phase)
    (hcall : Function.update s.calls c next c' = some call) :
    PullOrigin H backend s c' call.device call.phase := by
  by_cases hc : c' = c
  · subst hc
    rw [Function.update_self] at hcall
    exact hnext call hcall
  · rw [Function.update_of_ne hc] at hcall
    exact .kept hcall

theorem PullOrigin.of_endCall (hcall : Function.update s.calls c none c' = some call) :
    PullOrigin H backend s c' call.device call.phase :=
  PullOrigin.of_update none (fun _ h => by cases h) hcall

theorem PullOrigin.begun (s : State Device Bytes) (c : ℕ) (device : Device) (force : Bool)
    (recordHash : Option String) :
    PullOrigin H backend s c device (.pulling force ⟨recordHash, none⟩) :=
  .push fun _ _ _ h => by cases h

variable [DecidableEq Device]

theorem calls_finishPush (s : State Device Bytes) (c : ℕ) (device : Device) (hash : String) :
    (s.finishPush H c device hash).calls = Function.update s.calls c none := by
  simp only [State.finishPush]
  split <;> rfl

theorem calls_writePull (s : State Device Bytes) (c : ℕ) (device : Device) (force : Bool)
    (bytes : Bytes) (hash : String) :
    (s.writePull H c device force bytes hash).calls = Function.update s.calls c none := by
  simp only [State.writePull]
  split <;> rfl

variable {call' : Call Device Bytes}

theorem PullOrigin.of_receiveDownload {t : State Device Bytes} (hcalls : t.calls = s.calls)
    {bytes : Bytes} {hash : String}
    (horigin : ∀ force download, call.phase = .pulling force download →
      PullOrigin H backend s c call.device (.pulled force bytes hash)) {call' : Call Device Bytes}
    (hcall : (t.receiveDownload H c call.device bytes hash call.phase).calls c' = some call') :
    PullOrigin H backend s c' call'.device call'.phase := by
  obtain ⟨device, phase⟩ := call
  have hsame : t.calls c' = some call' → PullOrigin H backend s c' call'.device call'.phase :=
    fun h => .kept (hcalls ▸ h)
  cases phase with
  | verifying localBytes old =>
    simp only [State.receiveDownload] at hcall
    split at hcall
    · rw [calls_finishPush] at hcall
      exact PullOrigin.of_endCall (c := c) (by rw [← hcalls]; exact hcall)
    · exact PullOrigin.of_endCall (c := c) (by rw [← hcalls]; exact hcall)
  | pulling force old =>
    refine PullOrigin.of_update (c := c) (some ⟨device, .pulled force bytes hash⟩) ?_ ?_
    · rintro _ ⟨⟩
      exact horigin force old rfl
    · rw [← hcalls]
      exact hcall
  | pushScanned _ _ | pushQueued _ _ | pushing _ _ _ _ _ | pulled _ _ _ | pullQueued _ _ _ =>
    exact hsame hcall

theorem PullOrigin.of_readRemote (hc : s.calls c = some call) {download : Download}
    (hdownload : call.phase.download? = some download)
    (hcall : (s.readRemote H backend c call download).calls c' = some call') :
    PullOrigin H backend s c' call'.device call'.phase := by
  have hpull : ∀ force old, call.phase = .pulling force old →
      s.calls c = some ⟨call.device, .pulling force download⟩ := by
    intro force old hphase
    rw [hphase] at hdownload
    cases hdownload
    rw [hc, ← hphase]
  simp only [State.readRemote] at hcall
  split at hcall
  · exact PullOrigin.of_endCall hcall
  · next bytes hremote =>
    split at hcall
    · next known hknown =>
      exact PullOrigin.of_receiveDownload rfl
        (fun force old hphase => .fast (hpull force old hphase) hremote hknown) hcall
    · next hrecord hnone =>
      refine PullOrigin.of_update _ ?_ hcall
      rintro _ ⟨⟩
      obtain ⟨device, phase⟩ := call
      cases phase with
      | pulling force old => exact .stat force hremote
      | verifying _ _ => exact .push fun _ _ => trivial
      | pushScanned _ _ | pushQueued _ _ | pushing _ _ _ _ _ | pulled _ _ _ | pullQueued _ _ _ =>
        cases hdownload
    · next reported hrecord hreported =>
      refine PullOrigin.of_receiveDownload ?_
        (fun force old hphase => .slow (hpull force old hphase) hremote hreported) hcall
      rfl

variable {s' : State Device Bytes} {a : Action Device Bytes}

theorem PullOrigin.of_act (hact : s.act H backend a = some s') (hcall : s'.calls c' = some call') :
    PullOrigin H backend s c' call'.device call'.phase := by
  cases a with
  | edits device content =>
    cases hact
    exact .kept hcall
  | scans device | stores device force =>
    cases hact
    refine PullOrigin.of_update _ ?_ hcall
    rintro _ ⟨⟩
    exact .push fun _ _ => trivial
  | pulls device force =>
    cases hact
    refine PullOrigin.of_update _ ?_ hcall
    rintro _ ⟨⟩
    exact .begun s _ device force _
  | locks c =>
    simp only [State.act] at hact
    split at hact
    · cases hact
      refine PullOrigin.of_update _ ?_ hcall
      rintro _ ⟨⟩
      exact .push fun _ _ => trivial
    · next hc =>
      cases hact
      refine PullOrigin.of_update _ ?_ hcall
      rintro _ ⟨⟩
      exact .locked hc
    · cases hact
  | proceeds c =>
    simp only [State.act] at hact
    split at hact
    · simp only [Option.ite_none_right_eq_some, Option.some.injEq] at hact
      obtain ⟨-, rfl⟩ := hact
      simp only [State.startPush] at hcall
      split at hcall
      · exact PullOrigin.of_endCall hcall
      · refine PullOrigin.of_update _ ?_ hcall
        rintro _ ⟨⟩
        exact .push fun _ _ => trivial
    · simp only [Option.ite_none_right_eq_some, Option.some.injEq] at hact
      obtain ⟨-, rfl⟩ := hact
      rw [calls_writePull] at hcall
      exact PullOrigin.of_endCall hcall
    · cases hact
  | retries c =>
    simp only [State.act] at hact
    split at hact
    · cases hact
      refine PullOrigin.of_update _ ?_ hcall
      rintro _ ⟨⟩
      exact .push fun _ _ => trivial
    · cases hact
      refine PullOrigin.of_update _ ?_ hcall
      rintro _ ⟨⟩
      exact .push fun _ _ => trivial
    · cases hact
      refine PullOrigin.of_update _ ?_ hcall
      rintro _ ⟨⟩
      exact .begun s _ _ _ _
    · cases hact
  | receives c =>
    simp only [State.act] at hact
    split at hact
    · split at hact
      · next a _ =>
        cases hact
        cases a with
        | stored hash =>
          simp only [State.receiveAnswer, calls_finishPush] at hcall
          exact PullOrigin.of_endCall hcall
        | conflict currentVersion | failed => exact PullOrigin.of_endCall hcall
        | «exists» =>
          simp only [State.receiveAnswer] at hcall
          split at hcall
          · refine PullOrigin.of_update _ ?_ hcall
            rintro _ ⟨⟩
            exact .push fun _ _ => trivial
          · exact PullOrigin.of_endCall hcall
      · cases hact
    · cases hact
  | reads c =>
    obtain ⟨call, hc, hread⟩ := Option.bind_eq_some_iff.mp hact
    obtain ⟨download, hdownload, rfl⟩ := Option.map_eq_some_iff.mp hread
    exact PullOrigin.of_readRemote hc hdownload hcall
  | givesUp c =>
    obtain ⟨call, hc, hfail⟩ := Option.bind_eq_some_iff.mp hact
    simp only [Option.ite_none_right_eq_some, Option.some.injEq] at hfail
    obtain ⟨-, rfl⟩ := hfail
    exact PullOrigin.of_endCall hcall
  | arrives r | checks r | puts r ok | breaks r =>
    obtain ⟨request, -, hserver⟩ := Option.bind_eq_some_iff.mp hact
    obtain ⟨server, -, rfl⟩ := Option.map_eq_some_iff.mp hserver
    exact .kept hcall

/-- The step completes a push of `device`: no call but the push's own changes,
and the object stays as it is. -/
structure CompletesPush (s s' : State Device Bytes) (device : Device) (c : ℕ) : Prop where
  remote : s'.server.remote = s.server.remote
  pushedAt : s'.pushedAt = Function.update s.pushedAt device s.log.length
  calls : s'.calls = Function.update s.calls c none

theorem completesPush_finishPush (s : State Device Bytes) (c : ℕ) (device : Device)
    (hash : String) : (s.finishPush H c device hash).pushedAt = s.pushedAt ∨
      CompletesPush s (s.finishPush H c device hash) device c := by
  simp only [State.finishPush]
  split
  · exact .inl rfl
  · exact .inr ⟨rfl, rfl, rfl⟩

theorem completesPush_receiveDownload (s : State Device Bytes) (c : ℕ)
    (call : Call Device Bytes) (bytes : Bytes) (hash : String) :
    (s.receiveDownload H c call.device bytes hash call.phase).pushedAt = s.pushedAt ∨
      ∃ device, CompletesPush s (s.receiveDownload H c call.device bytes hash call.phase)
        device c := by
  obtain ⟨device, phase⟩ := call
  cases phase with
  | verifying localBytes old =>
    simp only [State.receiveDownload]
    split
    · rcases completesPush_finishPush (s.rememberRemoteHash device (some hash)) c device hash
        with h | h
      · exact .inl h
      · exact .inr ⟨device, h.remote, h.pushedAt, h.calls⟩
    · exact .inl rfl
  | pulling _ _ | pushScanned _ _ | pushQueued _ _ | pushing _ _ _ _ _ | pulled _ _ _
  | pullQueued _ _ _ => exact .inl rfl

theorem completesPush_of_act (hact : s.act H backend a = some s') :
    s'.pushedAt = s.pushedAt ∨ ∃ device c, CompletesPush s s' device c := by
  cases a with
  | edits device content | scans device | stores device force | pulls device force =>
    cases hact
    exact .inl rfl
  | locks c | retries c =>
    simp only [State.act] at hact
    split at hact <;> cases hact <;> exact .inl rfl
  | proceeds c =>
    simp only [State.act] at hact
    split at hact
    · simp only [Option.ite_none_right_eq_some, Option.some.injEq] at hact
      obtain ⟨-, rfl⟩ := hact
      simp only [State.startPush]
      split <;> exact .inl rfl
    · simp only [Option.ite_none_right_eq_some, Option.some.injEq] at hact
      obtain ⟨-, rfl⟩ := hact
      simp only [State.writePull]
      split <;> exact .inl rfl
    · cases hact
  | receives c =>
    simp only [State.act] at hact
    split at hact
    · next device _ _ _ _ _ _ =>
      split at hact
      · next a _ =>
        cases hact
        cases a with
        | stored hash =>
          rcases completesPush_finishPush s c device hash with h | h
          · exact .inl h
          · exact .inr ⟨device, c, h⟩
        | conflict currentVersion => exact .inl rfl
        | failed => exact .inl rfl
        | «exists» =>
          simp only [State.receiveAnswer]
          split <;> exact .inl rfl
      · cases hact
    · cases hact
  | reads c =>
    obtain ⟨call, hc, hread⟩ := Option.bind_eq_some_iff.mp hact
    obtain ⟨download, hdownload, rfl⟩ := Option.map_eq_some_iff.mp hread
    simp only [State.readRemote]
    split
    · exact .inl rfl
    · next bytes _ =>
      split
      · next known _ =>
        rcases completesPush_receiveDownload s c call bytes (H.hashLike known bytes) with
          h | ⟨device, h⟩
        · exact .inl h
        · exact .inr ⟨device, c, h⟩
      · exact .inl rfl
      · next reported _ _ =>
        rcases completesPush_receiveDownload
          { s with server :=
            { s.server with recordHash := some (reported.getD (H.sha256Buffer bytes)) } }
          c call bytes (reported.getD (H.sha256Buffer bytes)) with h | ⟨device, h⟩
        · exact .inl h
        · exact .inr ⟨device, c, h.remote, h.pushedAt, h.calls⟩
  | givesUp c =>
    obtain ⟨call, hc, hfail⟩ := Option.bind_eq_some_iff.mp hact
    simp only [Option.ite_none_right_eq_some, Option.some.injEq] at hfail
    obtain ⟨-, rfl⟩ := hfail
    exact .inl rfl
  | arrives r | checks r | puts r ok | breaks r =>
    obtain ⟨request, -, hserver⟩ := Option.bind_eq_some_iff.mp hact
    obtain ⟨server, -, rfl⟩ := Option.map_eq_some_iff.mp hserver
    exact .inl rfl

end Portuni.Central
