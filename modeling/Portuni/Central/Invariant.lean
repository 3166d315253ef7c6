import Portuni.Central.Model
import Portuni.Library.Runs

/-! What every state of the central sync satisfies: the server's lock covers
check and put, a device's path lock covers a push from its baseline to its end,
and every hash anyone holds is the hash of bytes the remote has had. -/

namespace Portuni.Central

open Content Library.KeyedMutex

universe u v

variable {Device : Type u} {Bytes : Type v} {H : Hashing Bytes} {backend : Backend}

/-- A checked request holds the object's lock, and its precondition holds of the
object as it is. -/
structure ServerInv (H : Hashing Bytes) (backend : Backend) (sv : Server Device Bytes) : Prop where
  holds : ∀ r request, sv.requests r = some request → request.phase = .checked → sv.lock.Holds () r
  passes : ∀ r request, sv.requests r = some request → request.phase = .checked →
    refusal H backend sv.remote request.precondition = none
  unused : ∀ r, sv.nextRequest ≤ r → sv.requests r = none

theorem Server.requests_setRequest (sv : Server Device Bytes) (r r' : ℕ)
    (request : PutRequest Device Bytes) :
    (sv.setRequest r request).requests r' = if r' = r then some request else sv.requests r' := by
  by_cases h : r' = r <;> simp [Server.setRequest, h]

variable {sv sv' : Server Device Bytes} {r : ℕ} {request : PutRequest Device Bytes}

variable (inv : ServerInv H backend sv)

include inv

theorem ServerInv.lt (h : sv.requests r = some request) : r < sv.nextRequest := by
  by_contra hge
  rw [inv.unused r (by omega)] at h
  cases h

theorem ServerInv.send (hphase : request.phase = .sent) :
    ServerInv H backend (sv.send request) := by
  have hcase : ∀ r old, (sv.send request).requests r = some old → old.phase = .checked →
      sv.requests r = some old := by
    intro r old hold hchecked
    rw [Server.send, Server.requests_setRequest] at hold
    split at hold
    · cases hold
      rw [hphase] at hchecked
      cases hchecked
    · exact hold
  refine ⟨fun r old hold hchecked => inv.holds r old (hcase r old hold hchecked) hchecked,
    fun r old hold hchecked => inv.passes r old (hcase r old hold hchecked) hchecked, ?_⟩
  intro r hr
  simp only [Server.send] at hr ⊢
  rw [Server.requests_setRequest, if_neg (by omega)]
  exact inv.unused r (by omega)

variable (hr : sv.requests r = some request)

include hr

theorem ServerInv.arrive (h : sv.arrive r request = some sv') : ServerInv H backend sv' := by
  simp only [Server.arrive, Option.ite_none_right_eq_some, Option.some.injEq] at h
  obtain ⟨-, rfl⟩ := h
  have hcase : ∀ r' old, (sv.setRequest r { request with phase := .queued }).requests r' =
      some old → old.phase = .checked → sv.requests r' = some old := by
    intro r' old hold hchecked
    rw [Server.requests_setRequest] at hold
    split at hold
    · cases hold
      cases hchecked
    · exact hold
  refine ⟨fun r' old hold hchecked => ?_,
    fun r' old hold hchecked => inv.passes r' old (hcase r' old hold hchecked) hchecked, ?_⟩
  · have hhold := inv.holds r' old (hcase r' old hold hchecked) hchecked
    obtain ⟨rest, hrest⟩ := List.head?_eq_some_iff.mp hhold
    simp [Mutex.Holds, Mutex.enqueue_self, hrest]
  · intro r' hr'
    have := inv.lt hr
    dsimp only [Server.setRequest] at hr' ⊢
    rw [Function.update_of_ne (by omega)]
    exact inv.unused r' hr'

theorem ServerInv.answer (hold : sv.lock.Holds () r) (a : Answer) (remote : Option Bytes)
    (recordHash : Option String) :
    ServerInv H backend { sv.answer r request a with remote, recordHash } := by
  have hnone : ∀ r' old, (sv.answer r request a).requests r' = some old →
      old.phase ≠ .checked := by
    intro r' old hold' hchecked
    rw [Server.answer, Server.requests_setRequest] at hold'
    split at hold'
    · cases hold'
      cases hchecked
    · next hne =>
      exact hne (Option.some.inj ((inv.holds r' old hold' hchecked).symm.trans hold))
  refine ⟨fun r' old hold' hchecked => absurd hchecked (hnone r' old hold'),
    fun r' old hold' hchecked => absurd hchecked (hnone r' old hold'), ?_⟩
  intro r' hr'
  have := inv.lt hr
  dsimp only [Server.answer, Server.setRequest] at hr' ⊢
  rw [Function.update_of_ne (by omega)]
  exact inv.unused r' hr'

theorem ServerInv.check (h : sv.check H backend r request = some sv') :
    ServerInv H backend sv' := by
  simp only [Server.check, Option.ite_none_right_eq_some] at h
  obtain ⟨⟨-, hold⟩, h⟩ := h
  split at h
  · next a ha =>
    simp only [Option.some.injEq] at h
    subst h
    exact inv.answer hr hold a sv.remote _
  · next hpass =>
    simp only [Option.some.injEq] at h
    subst h
    have hcase : ∀ r' old, (sv.setRequest r { request with phase := .checked }).requests r' =
        some old → old.phase = .checked →
        (r' = r ∧ old.precondition = request.precondition) ∨ sv.requests r' = some old := by
      intro r' old hold' hchecked
      rw [Server.requests_setRequest] at hold'
      split at hold'
      · next heq =>
        cases hold'
        exact .inl ⟨heq, rfl⟩
      · exact .inr hold'
    refine ⟨fun r' old hold' hchecked => ?_, fun r' old hold' hchecked => ?_, fun r' hr' => ?_⟩
    · rcases hcase r' old hold' hchecked with ⟨rfl, -⟩ | hold'
      · exact hold
      · exact inv.holds r' old hold' hchecked
    · rcases hcase r' old hold' hchecked with ⟨-, hpre⟩ | hold'
      · rw [hpre]
        exact hpass
      · exact inv.passes r' old hold' hchecked
    · have := inv.lt hr
      dsimp only [Server.setRequest] at hr' ⊢
      rw [Function.update_of_ne (by omega)]
      exact inv.unused r' hr'

theorem ServerInv.put {ok : Bool} (h : sv.put H backend r request ok = some sv') :
    ServerInv H backend sv' := by
  simp only [Server.put, Option.ite_none_right_eq_some, Option.some.injEq] at h
  obtain ⟨hchecked, rfl⟩ := h
  exact inv.answer hr (inv.holds r request hr hchecked) _ _ _

theorem ServerInv.abort (h : sv.abort r request = some sv') : ServerInv H backend sv' := by
  simp only [Server.abort, Option.ite_none_right_eq_some, Option.some.injEq] at h
  obtain ⟨⟨-, hold⟩, rfl⟩ := h
  exact inv.answer hr hold .failed sv.remote sv.recordHash

omit hr

omit inv

theorem canonicalHash_eq_of_passes {bytes other : Bytes} {hash : String}
    (hseen : H.canonicalHash backend other = hash)
    (hpass : refusal H backend (some bytes) (.baseCanonicalHash hash) = none) :
    H.canonicalHash backend bytes = hash := by
  have hcurrent : (H.statHash backend bytes).getD (H.hashLike hash bytes) = hash := by
    by_contra hne
    simp [refusal, hne] at hpass
  rw [← hseen, H.hashLike_canonicalHash, H.statHash_getD_canonicalHash] at hcurrent
  rw [hcurrent, hseen]

def Seen (H : Hashing Bytes) (backend : Backend) (log : List (Option Bytes)) (hash : String) :
    Prop :=
  ∃ bytes, some bytes ∈ log ∧ H.canonicalHash backend bytes = hash

variable {log log' : List (Option Bytes)}

theorem Seen.mono {hash : String} (h : Seen H backend log hash) (hlog : log ⊆ log') :
    Seen H backend log' hash := by
  obtain ⟨bytes, hbytes, hhash⟩ := h
  exact ⟨bytes, hlog hbytes, hhash⟩

/-- What a download under way has learnt is true of bytes the remote has had. -/
structure DownloadSeen (H : Hashing Bytes) (backend : Backend) (log : List (Option Bytes))
    (download : Download) : Prop where
  record : ∀ hash, download.recordHash = some hash → Seen H backend log hash
  stat : ∀ reported, download.stat = some reported →
    ∃ bytes, some bytes ∈ log ∧ reported = H.statHash backend bytes

theorem DownloadSeen.mono {download : Download} (h : DownloadSeen H backend log download)
    (hlog : log ⊆ log') : DownloadSeen H backend log' download := by
  refine ⟨fun hash hhash => (h.record hash hhash).mono hlog, fun reported hreported => ?_⟩
  obtain ⟨bytes, hbytes, hstat⟩ := h.stat reported hreported
  exact ⟨bytes, hlog hbytes, hstat⟩

/-- What holds of a call where it stands: between its baseline and its end a push
has its path lock and the device's own baseline. -/
def CallInv (H : Hashing Bytes) (backend : Backend) (s : State Device Bytes) (c : ℕ)
    (device : Device) : CallPhase Bytes → Prop
  | .pushScanned entryBaseline _ => entryBaseline.isSome → (s.lastSyncedHash device).isSome
  | .pushQueued entryBaseline _ => entryBaseline.isSome → (s.lastSyncedHash device).isSome
  | .pushing _ baseline _ _ _ =>
    s.pathLock.Holds device c ∧ baseline = s.lastSyncedHash device
  | .verifying _ download => s.pathLock.Holds device c ∧ DownloadSeen H backend s.log download
  | .pulling _ download => DownloadSeen H backend s.log download
  | .pulled _ bytes hash => some bytes ∈ s.log ∧ Seen H backend s.log hash
  | .pullQueued _ bytes hash => some bytes ∈ s.log ∧ Seen H backend s.log hash

variable {s s' : State Device Bytes} {phase : CallPhase Bytes}

theorem CallInv.mono {c : ℕ} {device : Device} (h : CallInv H backend s c device phase)
    (hlog : s.log ⊆ s'.log) (hlock : s.pathLock.Holds device c → s'.pathLock.Holds device c)
    (hsynced : s'.lastSyncedHash device = s.lastSyncedHash device) :
    CallInv H backend s' c device phase := by
  cases phase with
  | pushScanned entryBaseline force | pushQueued entryBaseline force =>
    exact fun he => hsynced ▸ h he
  | pushing bytes baseline force request retried => exact ⟨hlock h.1, hsynced ▸ h.2⟩
  | verifying bytes download => exact ⟨hlock h.1, h.2.mono hlog⟩
  | pulling force download => exact DownloadSeen.mono h hlog
  | pulled force bytes hash | pullQueued force bytes hash => exact ⟨hlog h.1, h.2.mono hlog⟩

/-- The write requests of a call that has not ended carry the precondition of the
push that waits for them. -/
def RequestInv (request : PutRequest Device Bytes) (device : Device) : CallPhase Bytes → Prop
  | .pushing _ baseline force _ _ =>
    request.device = device ∧ request.precondition = preconditionFor force baseline
  | .verifying _ _ => True
  | _ => False

structure Inv (H : Hashing Bytes) (backend : Backend) (s : State Device Bytes) : Prop where
  server : ServerInv H backend s.server
  logged : s.server.remote ∈ s.log
  record : ∀ hash, s.server.recordHash = some hash → Seen H backend s.log hash
  answers : ∀ r request hash, s.server.requests r = some request →
    request.phase = .answered (.stored hash) → Seen H backend s.log hash
  bases : ∀ r request hash, s.server.requests r = some request →
    request.precondition = .baseCanonicalHash hash → Seen H backend s.log hash
  synced : ∀ device hash, s.lastSyncedHash device = some hash → Seen H backend s.log hash
  call : ∀ c call, s.calls c = some call → CallInv H backend s c call.device call.phase
  request : ∀ r request call, s.server.requests r = some request →
    s.calls request.call = some call → RequestInv request call.device call.phase
  unusedCall : ∀ c, s.nextCall ≤ c → s.calls c = none
  requestCall : ∀ r request, s.server.requests r = some request → request.call < s.nextCall

/-- How a step of call `c` leaves the rest of the clients: every other call as it
is, other holders of path locks holding, and a device's baseline changed only
under its path lock, to the hash of bytes the remote has had. -/
structure ClientStep (H : Hashing Bytes) (backend : Backend) (s s' : State Device Bytes) (c : ℕ)
    (next : Option (Call Device Bytes)) : Prop where
  calls : s'.calls = Function.update s.calls c next
  holders : ∀ device other, other ≠ c → s.pathLock.Holds device other →
    s'.pathLock.Holds device other
  synced : ∀ device, s'.lastSyncedHash device = s.lastSyncedHash device ∨
    (s.pathLock.Holds device c ∧ ∃ hash, s'.lastSyncedHash device = some hash ∧
      Seen H backend s.log hash)
  log : s.log ⊆ s'.log
  nextCall : s.nextCall ≤ s'.nextCall ∧ c < s'.nextCall

variable {next : Option (Call Device Bytes)}

theorem ClientStep.callInv {c : ℕ} (h : ClientStep H backend s s' c next) {other : ℕ}
    (hne : other ≠ c) {device : Device} (hcall : CallInv H backend s other device phase) :
    CallInv H backend s' other device phase := by
  rcases h.synced device with heq | ⟨hold, hash, hhash, -⟩
  · exact hcall.mono h.log (h.holders device other hne) heq
  · have hsome : (s'.lastSyncedHash device).isSome := by simp [hhash]
    cases phase with
    | pushScanned entryBaseline force | pushQueued entryBaseline force => exact fun _ => hsome
    | pushing bytes baseline force request retried | verifying bytes download =>
      exact absurd (hcall.1.unique hold) hne
    | pulling force download => exact DownloadSeen.mono hcall h.log
    | pulled force bytes hash | pullQueued force bytes hash =>
      exact ⟨h.log hcall.1, hcall.2.mono h.log⟩

theorem Inv.client {s s' : State Device Bytes} (inv : Inv H backend s) {c : ℕ}
    {next : Option (Call Device Bytes)} (h : ClientStep H backend s s' c next)
    (hrequests : s'.server.requests = s.server.requests)
    (hserver : ServerInv H backend s'.server) (hlogged : s'.server.remote ∈ s'.log)
    (hrecord : ∀ hash, s'.server.recordHash = some hash → Seen H backend s'.log hash)
    (hnext : ∀ call, next = some call → CallInv H backend s' c call.device call.phase)
    (hrequest : ∀ call, next = some call → ∀ r request, s.server.requests r = some request →
      request.call = c → RequestInv request call.device call.phase) : Inv H backend s' := by
  refine ⟨hserver, hlogged, hrecord, ?_, ?_, ?_, ?_, ?_, ?_, ?_⟩
  · intro r request hash hr hphase
    rw [hrequests] at hr
    exact (inv.answers r request hash hr hphase).mono h.log
  · intro r request hash hr hbase
    rw [hrequests] at hr
    exact (inv.bases r request hash hr hbase).mono h.log
  · intro device hash hhash
    rcases h.synced device with heq | ⟨-, hash', hhash', hseen⟩
    · exact (inv.synced device hash (heq ▸ hhash)).mono h.log
    · rw [hhash, Option.some.injEq] at hhash'
      exact hhash' ▸ hseen.mono h.log
  · intro other call hcall
    rw [h.calls] at hcall
    by_cases hother : other = c
    · subst hother
      rw [Function.update_self] at hcall
      exact hnext call hcall
    · rw [Function.update_of_ne hother] at hcall
      exact h.callInv hother (inv.call other call hcall)
  · intro r request call hr hcall
    rw [hrequests] at hr
    rw [h.calls] at hcall
    by_cases hother : request.call = c
    · rw [hother, Function.update_self] at hcall
      exact hrequest call hcall r request hr hother
    · rw [Function.update_of_ne hother] at hcall
      exact inv.request r request call hr hcall
  · intro other hother
    have hnextCall := h.nextCall
    rw [h.calls, Function.update_of_ne (by omega)]
    exact inv.unusedCall other (by omega)
  · intro r request hr
    rw [hrequests] at hr
    exact Nat.lt_of_lt_of_le (inv.requestCall r request hr) h.nextCall.1

end Portuni.Central
