import Portuni.CentralRetry.Retried
import Portuni.Creations.Kept

/-!
Over every interleaving: of the creations at one path at most one succeeds, the remote keeps its
bytes and the table its row, and every other creation is refused without having changed anything,
as long as no put lands on an object and no sweep adopts what a creation has just put.
-/

namespace Portuni.Creations

open CentralRetry Content FileOps Files RemoteSweep Library.Runs

universe u

variable {Bytes : Type u} {place : Place Bytes} {s s' s₀ : State Bytes} {i : ℕ}
  {central' : CentralState Bytes}

section

theorem getFileRecord_eq_none_iff {db : Database} :
    getFileRecord db place.nodeId place.remotePath = none ↔ ∀ r ∈ db.files, ¬place.Here r := by
  simp [getFileRecord, Place.Here]

theorem Kept.recordFits (h : Kept place s) {r : FileRow} (hr : r ∈ s.central.db.files) :
    RecordFits place s r := by
  refine ⟨h.keyed.lt r hr, fun j object howner => ?_⟩
  obtain ⟨r', hr', hid, -, hhash⟩ := h.row j object r.id howner
  rw [← h.keyed.unique hr' hr hid]
  exact hhash

theorem RecordFits.harmless {r : FileRow} (hr : RecordFits place s r)
    (hno : ∀ j object, ¬Owner place s j (object, some r.id)) : Harmless place s r.id :=
  ⟨hr.1, hno⟩

theorem pushedHash_of_reported {object : RemoteObject Bytes} {hash : String}
    (hnative : object.isNativeFormat = false)
    (h : place.server.hashing.statHash (place.server.backend place.remoteName) object.bytes =
      some hash) :
    hash.toLower = hash ∧ place.server.pushedHash place.remoteName object = hash := by
  unfold CentralServer.pushedHash CentralServer.refOf
  rw [hnative]
  cases hbackend : place.server.backend place.remoteName with
  | drive =>
    rw [hbackend] at h
    cases h
    exact ⟨place.server.md5_lower _, place.server.md5_lower _⟩
  | opendal =>
    rw [hbackend] at h
    cases h

theorem Listed.object {ref : FileRef} (h : Listed place s ref) :
    ∃ object, place.object s.central = some object ∧
      ref.isNativeFormat = object.isNativeFormat ∧ (object.isNativeFormat = false → ref.hash =
        place.server.hashing.statHash (place.server.backend place.remoteName) object.bytes) := by
  obtain ⟨object, hobject, rfl⟩ := Option.map_eq_some_iff.mp h
  refine ⟨object, hobject, rfl, fun hnative => ?_⟩
  simp [CentralServer.refOf, hnative]

theorem stat_eq_ok {attempt : Attempt} {ref : Option FileRef}
    (h : place.stat s.central attempt = .ok ref) : place.listed s.central = ref := by
  unfold Place.stat CentralServer.stat at h
  split at h
  next => cases h
  next => exact Except.ok.inj h

variable {central : CentralState Bytes}

theorem statFails_of_error {attempt : Attempt} {message : String}
    (h : place.stat central attempt = .error message) :
    attempt.statFails place.remoteName place.remotePath = some message := by
  unfold Place.stat CentralServer.stat at h
  split at h
  next hfails =>
    obtain rfl := Except.error.inj h
    exact hfails
  next => cases h

theorem object_eq_none_iff :
    place.listed central = none ↔ place.object central = none := Option.map_eq_none_iff

theorem Kept.not_native (h : Kept place s) {j : ℕ} {object : RemoteObject Bytes} {row : Option ℕ}
    (howner : Owner place s j (object, row)) : object.isNativeFormat = false := by
  obtain ⟨running, hrunning, hholds⟩ := howner
  have hfits := h.calls j running hrunning
  have hplain : ∀ c : Creation Bytes, (c.object place).isNativeFormat = false := fun _ => rfl
  cases running with
  | push p stage => cases hholds
  | sweep w stage => cases hholds
  | create c stage =>
    cases stage with
    | asked | untracked | absent => cases hholds
    | put object' | inserted fileId object' =>
      obtain ⟨rfl, -⟩ := Prod.mk.inj (Option.some.inj hholds)
      rw [show object' = c.object place from hfits.2]
      exact hplain c
    | answered answer =>
      cases answer with
      | error e => cases hholds
      | ok payload =>
        obtain ⟨fileId, rfl⟩ := hfits.2
        obtain ⟨rfl, -⟩ := Prod.mk.inj (Option.some.inj hholds)
        exact hplain c

end

inductive Alone (place : Place Bytes) (c : Creation Bytes) :
    CentralState Bytes → CreateStage Bytes → CentralState Bytes → CreateStage Bytes → Prop
  | refl (central : CentralState Bytes) (stage : CreateStage Bytes) :
      Alone place c central stage central stage
  | step {central central' last : CentralState Bytes} {stage stage' final : CreateStage Bytes} :
      createStep place central c stage = some (central', stage') →
        Alone place c central' stage' last final → Alone place c central stage last final

theorem Kept.read (h : Kept place s) {running running' : Running Bytes}
    (hi : s.calls[i]? = some running) (hholds : running'.holds place = running.holds place)
    (hfits : Fits place s running') : Kept place ⟨s.central, s.calls.set i running'⟩ :=
  h.advance hi hholds (Change.refl h) (hfits.later ((Change.refl h).later hi hholds))

theorem Kept.create (h : Kept place s) {c : Creation Bytes} {stage stage' : CreateStage Bytes}
    (hi : s.calls[i]? = some (.create c stage))
    (hmeets : stage = .absent → place.object s.central = none)
    (hstep : createStep place s.central c stage = some (central', stage')) :
    Kept place ⟨central', s.calls.set i (.create c stage')⟩ := by
  obtain ⟨hnode, hfits⟩ := h.calls i _ hi
  cases stage with
  | asked =>
    cases hstep
    split
    next => exact h.read hi rfl ⟨hnode, .inl rfl⟩
    next hnone =>
      have hno : NoRow place s.central :=
        getFileRecord_eq_none_iff.mp (by simpa using hnone)
      exact h.read hi rfl ⟨hnode, fun _ => hno⟩
  | untracked =>
    cases hstep
    split
    next message hstat =>
      exact h.read hi rfl ⟨hnode, .inr ⟨message, rfl, .inl (statFails_of_error hstat)⟩⟩
    next => exact h.read hi rfl ⟨hnode, .inl rfl⟩
    next => exact h.read hi rfl ⟨hnode, hfits⟩
  | absent =>
    have hnone := hmeets rfl
    simp only [createStep, hnone] at hstep
    split at hstep
    next message tookEffect hput =>
      cases hstep
      have hfailed : CreateFits place s c (.answered (.error (plainError message))) :=
        .inr ⟨message, rfl, .inr ⟨tookEffect, hput⟩⟩
      have change : Change place s (if tookEffect then place.put s.central
          (CentralServer.putObject c.attempt none (c.body place.server)) else s.central) := by
        split
        · exact Change.put h hnone _
        · exact Change.refl h
      exact h.advance hi rfl change (Fits.later ⟨hnode, hfailed⟩ (change.later hi rfl))
    next =>
      cases hstep
      exact h.put hi hnone
  | put object =>
    have hno := h.pending i object ⟨_, hi, rfl⟩
    simp only [createStep, not_taken_iff.mpr hno] at hstep
    cases hstep
    exact h.insert hi
  | inserted fileId object =>
    cases hstep
    obtain rfl : object = c.object place := hfits
    exact h.advance hi rfl (Change.insertAudit h _) ⟨hnode, fileId, rfl⟩
  | answered answer => cases hstep

section

variable {p : Push Bytes} {record : Option FileRow}

theorem persistWrites_spare (id : ℕ) (proved : Option String) :
    ∀ write ∈ persistWrites id proved, SpareWrite place s write := by
  intro write hwrite
  obtain ⟨st, hst, rfl⟩ := List.mem_map.mp hwrite
  unfold persistRemoteFileId at hst
  split at hst
  · cases hst
  · split at hst
    · cases hst
    · obtain rfl := List.mem_singleton.mp hst
      exact trivial

theorem Kept.backfill_spare (h : Kept place s) {ref : FileRef} (hlisted : Listed place s ref)
    (hrecord : ∀ r, record = some r → RecordFits place s r) :
    ∀ write ∈ backfillWrites record (ref.hash.map String.toLower) ref.remoteFileId,
      SpareWrite place s write := by
  intro write hwrite
  unfold backfillWrites at hwrite
  split at hwrite
  next => cases hwrite
  next r =>
    rcases List.mem_append.mp hwrite with hpersist | hhash
    · exact persistWrites_spare _ _ write hpersist
    · split at hhash
      next => cases hhash
      next observed hobserved =>
        split at hhash
        next => cases hhash
        next hdiffers =>
          obtain rfl := List.mem_singleton.mp hhash
          refine (hrecord r rfl).harmless fun j object howner => hdiffers ?_
          obtain ⟨object', hobject', -, hreported⟩ := hlisted.object
          rw [h.object j object _ howner] at hobject'
          cases hobject'
          have hnative := h.not_native howner
          obtain ⟨hash, hstat, rfl⟩ := Option.map_eq_some_iff.mp hobserved
          obtain ⟨hlower, hpushed⟩ :=
            pushedHash_of_reported hnative ((hreported hnative).symm.trans hstat)
          rw [(hrecord r rfl).2 j object howner, hpushed, hlower]

theorem pushWrites_spare (h : Kept place s) (hnone : place.object s.central = none)
    (hrecord : ∀ r, record = some r → RecordFits place s r) (object : RemoteObject Bytes) :
    ∀ write ∈ pushWrites place record object, SpareWrite place s write := by
  intro write hwrite
  unfold pushWrites at hwrite
  split at hwrite
  next => cases hwrite
  next r =>
    rcases List.mem_cons.mp hwrite with rfl | hpersist
    · exact (hrecord r rfl).harmless fun j object howner => h.no_owner hnone howner
    · exact persistWrites_spare _ _ write hpersist

theorem Kept.push (h : Kept place s) {stage stage' : PushStage}
    (hi : s.calls[i]? = some (.push p stage))
    (hmeets : ∀ record, stage = .ready record → place.object s.central = none)
    (hstep : pushStep place s.central s.locked p stage = some (central', stage')) :
    Kept place ⟨central', s.calls.set i (.push p stage')⟩ := by
  have hfits : PushFits place s stage := h.calls i _ hi
  have hread : ∀ {stage'}, PushFits place s stage' →
      Kept place ⟨s.central, s.calls.set i (.push p stage')⟩ := fun h' => h.read hi rfl h'
  cases stage with
  | asked =>
    cases hstep
    split
    next => exact hread trivial
    next =>
      exact hread fun r hr => h.recordFits (List.mem_of_find?_eq_some hr)
  | queued record =>
    simp only [pushStep] at hstep
    split at hstep
    next => cases hstep
    next =>
      cases hstep
      exact hread hfits
  | locked record =>
    cases hstep
    split
    next => exact hread trivial
    next => exact hread hfits
    next ref hstat =>
      split
      next => exact hread trivial
      next => exact hread (h.backfill_spare (stat_eq_ok hstat) hfits)
  | absent record =>
    cases hstep
    split
    next => exact hread hfits
    next =>
      split
      next => exact hread trivial
      next => exact hread hfits
      next =>
        split
        next => exact hread trivial
        next => exact hread hfits
  | versioned record version =>
    cases hstep
    split
    next => exact hread trivial
    next =>
      dsimp only
      split
      next => exact hread hfits
      next => exact hread trivial
  | ready record =>
    have hnone := hmeets record rfl
    simp only [pushStep] at hstep
    split at hstep
    next message tookEffect hput =>
      cases hstep
      have change : Change place s (if tookEffect then place.put s.central
          (CentralServer.putObject p.attempt (place.object s.central) p.args.bytes)
          else s.central) := by
        split
        · exact Change.put h hnone _
        · exact Change.refl h
      exact h.advance hi rfl change trivial
    next =>
      cases hstep
      have change := Change.put h hnone
        (CentralServer.putObject p.attempt (place.object s.central) p.args.bytes)
      have hwrites := pushWrites_spare h hnone hfits
        (CentralServer.putObject p.attempt (place.object s.central) p.args.bytes)
      exact h.advance hi rfl change fun write hwrite =>
        (hwrites write hwrite).later (change.later hi rfl)
  | writing writes answer =>
    cases writes with
    | nil =>
      cases hstep
      exact hread trivial
    | cons write writes =>
      cases hstep
      have change := Change.write h (hfits write List.mem_cons_self)
      have hrest : PushFits place s (.writing writes answer) :=
        fun write hwrite => hfits write (List.mem_cons_of_mem _ hwrite)
      exact h.advance hi rfl change (PushFits.later hrest (change.later hi rfl))
  | answered answer => cases hstep

end

section

variable {w : Sweep}

theorem Kept.sweep_of_listed (h : Kept place s) {r : FileRow} {ref : FileRef}
    (hr : RecordFits place s r) (hlisted : Listed place s ref)
    (hstale : needsHashRefresh r ref.hash = true) : Harmless place s r.id := by
  refine hr.harmless fun j object howner => ?_
  obtain ⟨object', hobject', -, hreported⟩ := hlisted.object
  rw [h.object j object _ howner] at hobject'
  cases hobject'
  have hnative := h.not_native howner
  unfold needsHashRefresh at hstale
  rw [hr.2 j object howner, hreported hnative] at hstale
  cases hhash : place.server.hashing.statHash (place.server.backend place.remoteName)
      object.bytes with
  | none => simp [hhash] at hstale
  | some hash => simp [hhash, (pushedHash_of_reported hnative hhash).2] at hstale

theorem persist_spare (id : ℕ) (current proved : Option String) :
    ∀ st ∈ persistRemoteFileId id current proved, SpareStatement place s st := by
  intro st hst
  unfold persistRemoteFileId at hst
  split at hst
  · cases hst
  · split at hst
    · cases hst
    · obtain rfl := List.mem_singleton.mp hst
      exact trivial

theorem removal_spare (h : Kept place s) {r : FileRow} (hlt : r.id < s.central.db.nextId)
    (hpath : r.remotePath = some place.remotePath) :
    ∀ st ∈ (deleteRemovedRecords (place.call s.central w) place.nodeId [r]).statements,
      SpareStatement place s st := by
  intro st hst
  rw [deleteRemovedRecords_statements] at hst
  obtain ⟨gone, hgone, hremoval⟩ := List.mem_flatMap.mp hst
  obtain ⟨hmem, path, hgonePath, hstat⟩ := mem_confirmed_iff.mp hgone
  obtain rfl := List.mem_singleton.mp hmem
  rw [hpath] at hgonePath
  cases hgonePath
  have hnone : place.object s.central = none := object_eq_none_iff.mp (stat_eq_ok hstat)
  rcases List.mem_cons.mp hremoval with rfl | haudit
  · exact ⟨hlt, fun j object howner => h.no_owner hnone howner⟩
  · obtain rfl := List.mem_singleton.mp haudit
    exact trivial

theorem refresh_spare {candidate : HashCandidate} (hharmless : Harmless place s candidate.id) :
    ∀ st ∈ (refreshRemoteHashes (place.call s.central w) [candidate]).statements,
      SpareStatement place s st := by
  intro st hst
  unfold refreshRemoteHashes at hst
  split at hst
  next => cases hst
  next =>
    rcases List.mem_cons.mp hst with rfl | hrest
    · exact hharmless
    · rcases List.mem_append.mp hrest with hpersist | hnil
      · exact persist_spare _ _ _ st hpersist
      · cases hnil

theorem backfillHashes_spare {file : Adopted} (hharmless : Harmless place s file.fileId) :
    ∀ st ∈ (backfillHashes (place.call s.central w) [file]).1, SpareStatement place s st := by
  intro st hst
  unfold backfillHashes at hst
  split at hst
  next => cases hst
  next =>
    split at hst
    next =>
      rcases List.mem_cons.mp hst with rfl | hrest
      · exact hharmless
      · cases hrest
    next => cases hst

theorem adopted_of_cons {ref : FileRef} {file : Adopted} {rest : List Adopted}
    (h : (adoptFiles (place.call s.central w) place.nodeId place.nodeRoot s.central.db
      [(place.remotePath, ref)]).1 = file :: rest) :
    NoRow place s.central ∧ file.fileId = s.central.db.nextId := by
  unfold adoptFiles at h
  split at h
  next => cases h
  next =>
    split at h
    next => cases h
    next htaken =>
      obtain ⟨rfl, -⟩ := List.cons.inj h
      exact ⟨not_taken_iff.mp (by simpa using htaken), rfl⟩

theorem Kept.sweep (h : Kept place s) {stage stage' : SweepStage}
    (hi : s.calls[i]? = some (.sweep w stage))
    (hmeets : ∀ ref, stage = .unknown ref → ∀ running ∈ s.calls, running.hasPut = false)
    (hstep : sweepStep place s.central w stage = some (central', stage')) :
    Kept place ⟨central', s.calls.set i (.sweep w stage')⟩ := by
  have hfits : SweepFits place s stage := h.calls i _ hi
  have hread : ∀ {stage'}, SweepFits place s stage' →
      Kept place ⟨s.central, s.calls.set i (.sweep w stage')⟩ := fun h' => h.read hi rfl h'
  cases stage with
  | asked =>
    cases hstep
    split
    next => exact hread trivial
    next => exact hread fun _ hx => hx
  | listed ref =>
    cases hstep
    split
    next => exact hread trivial
    next ref _ => exact hread (hfits ref rfl)
    next r hr =>
      split
      next =>
        have hpath := List.find?_some hr
        simp only [Bool.and_eq_true, decide_eq_true_eq] at hpath
        exact hread ⟨h.keyed.lt r (List.mem_of_find?_eq_some hr), hpath.2⟩
      next => exact hread trivial
    next r ref hr =>
      have hlisted := hfits ref rfl
      refine hread ⟨persist_spare _ _ _, ?_⟩
      split
      next hstale =>
        exact ⟨h.sweep_of_listed (h.recordFits (List.mem_of_find?_eq_some hr)) hlisted hstale,
          hlisted⟩
      next => exact hlisted
  | missing r =>
    cases hstep
    split
    next => exact hread ⟨removal_spare h hfits.1 hfits.2, trivial⟩
    next => exact hread trivial
  | stale candidate ref =>
    cases hstep
    exact hread ⟨refresh_spare hfits.1, hfits.2⟩
  | searching ref =>
    cases hstep
    split
    next => exact hread trivial
    next => exact hread hfits
  | unknown ref =>
    have hpending : ∀ j object, ¬Owner place s j (object, none) := by
      rintro j object ⟨running, hrunning, hholds⟩
      have hput := hmeets ref rfl running (List.mem_of_getElem? hrunning)
      cases running with
      | push p stage => cases hholds
      | sweep w stage => cases hholds
      | create c stage =>
        cases stage with
        | put object' => cases hput
        | inserted fileId object' | asked | untracked | absent => cases hholds
        | answered answer =>
          cases answer with
          | error e => cases hholds
          | ok payload => cases payload <;> cases hholds
    obtain ⟨object, hobject, -⟩ := Listed.object hfits
    simp only [sweepStep] at hstep
    split at hstep
    next =>
      cases hstep
      exact hread trivial
    next file rest hadopted =>
      cases hstep
      obtain ⟨hno, hid⟩ := adopted_of_cons hadopted
      have change := @Change.insert _ place s h (adoptedRow (place.call s.central w) place.nodeId
        file.fileId file.remotePath file.ref) object hno hobject hpending
      refine h.advance hi rfl change ⟨?_, ?_⟩
      · intro st hst
        obtain rfl := List.mem_singleton.mp hst
        exact trivial
      · refine ⟨?_, fun j object' howner => ?_⟩
        · rw [hid]
          exact Nat.lt_succ_self _
        · have hholds : (Running.sweep w (.writing [.insertAudit (adoptAudit
              (place.call s.central w) file)] (.adopted file)) : Running Bytes).holds place =
              (Running.sweep w (.unknown ref)).holds place := rfl
          obtain ⟨r, hr, hrid, -⟩ := h.row j object' _ ((owner_set_same hi hholds).mp howner)
          have hlt := h.keyed.lt r hr
          rw [hrid, hid] at hlt
          exact Nat.lt_irrefl _ hlt
  | adopted file =>
    cases hstep
    exact hread ⟨backfillHashes_spare hfits, trivial⟩
  | writing statements next =>
    cases statements with
    | nil =>
      cases hstep
      exact hread hfits.2
    | cons st statements =>
      cases hstep
      have change := Change.statement h (hfits.1 st List.mem_cons_self)
      have hrest : SweepFits place s (.writing statements next) :=
        ⟨fun st hst => hfits.1 st (List.mem_cons_of_mem _ hst), hfits.2⟩
      exact h.advance hi rfl change (SweepFits.later hrest (change.later hi rfl))
  | finished => cases hstep

end

section

variable {a : Action Bytes}

theorem next_cases (hstep : step place s (.next i) = some s') :
    ∃ (running running' : Running Bytes) (central' : CentralState Bytes),
      s.calls[i]? = some running ∧
      running.step place s.central s.locked = some (central', running') ∧
      s' = ⟨central', s.calls.set i running'⟩ := by
  obtain ⟨running, hi, hnext⟩ := Option.bind_eq_some_iff.mp hstep
  obtain ⟨⟨central', running'⟩, hrunning, rfl⟩ := Option.map_eq_some_iff.mp hnext
  exact ⟨running, running', central', hi, hrunning, rfl⟩

theorem Kept.next (h : Kept place s) (hmeets : Meets place s (.next i))
    (hstep : step place s (.next i) = some s') : Kept place s' := by
  obtain ⟨running, running', central', hi, hrunning, rfl⟩ := next_cases hstep
  have hallowed := hmeets.2
  simp only [hi] at hallowed
  cases running with
  | create c stage =>
    obtain ⟨⟨_, stage'⟩, hcreate, heq⟩ := Option.map_eq_some_iff.mp hrunning
    obtain ⟨rfl, rfl⟩ := Prod.mk.inj heq
    refine h.create hi ?_ hcreate
    rintro rfl
    exact hallowed
  | push p stage =>
    obtain ⟨⟨_, stage'⟩, hpush, heq⟩ := Option.map_eq_some_iff.mp hrunning
    obtain ⟨rfl, rfl⟩ := Prod.mk.inj heq
    refine h.push hi ?_ hpush
    rintro record rfl
    exact hallowed
  | sweep w stage =>
    obtain ⟨⟨_, stage'⟩, hsweep, heq⟩ := Option.map_eq_some_iff.mp hrunning
    obtain ⟨rfl, rfl⟩ := Prod.mk.inj heq
    refine h.sweep hi ?_ hsweep
    rintro ref rfl
    exact hallowed

variable {request : Request Bytes}

theorem fits_start (htargets : request.targets place = true) :
    Fits place s request.start ∧ request.start.holds place = none := by
  cases request with
  | create c =>
    simp only [Request.targets, Bool.and_eq_true, decide_eq_true_eq] at htargets
    exact ⟨⟨htargets.1, trivial⟩, rfl⟩
  | push p => exact ⟨trivial, rfl⟩
  | sweep w => exact ⟨trivial, rfl⟩

theorem received_cases {j : ℕ} {running : Running Bytes}
    (h : (s.calls ++ [request.start])[j]? = some running) :
    s.calls[j]? = some running ∨ running = request.start := by
  rw [List.getElem?_append] at h
  split at h
  next => exact .inl h
  next => exact .inr (List.mem_singleton.mp (List.mem_of_getElem? h))

theorem Kept.receive (h : Kept place s) (htargets : request.targets place = true) :
    Kept place { s with calls := s.calls ++ [request.start] } := by
  obtain ⟨hfits, hholds⟩ := @fits_start _ place s _ htargets
  have howner : ∀ {j held}, Owner place { s with calls := s.calls ++ [request.start] } j held →
      Owner place s j held := by
    rintro j held ⟨running, hrunning, hheld⟩
    rcases received_cases hrunning with hbefore | rfl
    · exact ⟨running, hbefore, hheld⟩
    · rw [hholds] at hheld
      cases hheld
  have later : Later place s { s with calls := s.calls ++ [request.start] } :=
    ⟨fun _ ho => ho, Nat.le_refl _, fun _ _ _ hj => .inl (howner hj), fun _ hno => hno⟩
  refine ⟨h.keyed, h.unique, fun j k held held' hj hk => h.one j k held held' (howner hj) (howner hk),
    fun j object row hj => h.object j object row (howner hj),
    fun j object hj => h.pending j object (howner hj),
    fun j object id hj => h.row j object id (howner hj), fun j running hrunning => ?_⟩
  rcases received_cases hrunning with hbefore | rfl
  · exact (h.calls j running hbefore).later later
  · exact hfits.later later

theorem Kept.elsewhere (h : Kept place s) (helsewhere : Elsewhere place s.central central') :
    Kept place { s with central := central' } := by
  have hback : ∀ {r}, r ∈ central'.db.files → place.Here r → r ∈ s.central.db.files :=
    fun hr hplace => (helsewhere.rows _ hplace).mp hr
  have hno : NoRow place s.central → NoRow place central' :=
    fun hno r hr hplace => hno r (hback hr hplace) hplace
  have later : Later place s { s with central := central' } :=
    ⟨fun object ho => helsewhere.object.trans ho, helsewhere.nextId, fun _ _ _ hj => .inl hj,
      fun _ => hno⟩
  refine ⟨helsewhere.keyed h.keyed, ?_, h.one, ?_, ?_, ?_, ?_⟩
  · exact fun r hr r' hr' hplace hplace' =>
      h.unique r (hback hr hplace) r' (hback hr' hplace') hplace hplace'
  · exact fun j object row hj => helsewhere.object.trans (h.object j object row hj)
  · exact fun j object hj => hno (h.pending j object hj)
  · intro j object id hj
    obtain ⟨r, hr, hid, hplace, hhash⟩ := h.row j object id hj
    exact ⟨r, (helsewhere.rows r hplace).mpr hr, hid, hplace, hhash⟩
  · exact fun j running hrunning => (h.calls j running hrunning).later later

theorem kept_step (h : Kept place s) (hmeets : Meets place s a) (hstep : step place s a = some s') :
    Kept place s' := by
  cases a with
  | receive request =>
    simp only [step] at hstep
    split at hstep
    next htargets =>
      cases hstep
      exact h.receive htargets
    next => cases hstep
  | next i => exact h.next hmeets hstep
  | elsewhere central' =>
    cases hstep
    exact h.elsewhere hmeets.1

theorem Start.kept (h : Start place s) : Kept place s := by
  have hcalls : ∀ j : ℕ, s.calls[j]? = none := by
    intro j
    rw [h.calls]
    rfl
  have howner : ∀ {j held}, ¬Owner place s j held := by
    rintro j held ⟨running, hrunning, -⟩
    rw [hcalls] at hrunning
    cases hrunning
  refine ⟨h.keyed, h.unique, fun _ _ _ _ hj => absurd hj howner, fun _ _ _ hj => absurd hj howner,
    fun _ _ hj => absurd hj howner, fun _ _ _ hj => absurd hj howner, fun j running hrunning => ?_⟩
  rw [hcalls] at hrunning
  cases hrunning

end

section

variable {a : Action Bytes} {acts : List (Action Bytes)} {c : Creation Bytes}
  {stage stage' : CreateStage Bytes}

/-- The creation has put its bytes, or is answered anything but that the file exists. -/
def CreateStage.Past (c : Creation Bytes) : CreateStage Bytes → Prop
  | .asked | .untracked | .absent => False
  | .put _ | .inserted _ _ => True
  | .answered answer => answer ≠ .error (fileExists c.args.filename)

theorem past_of_changed (hstep : createStep place s.central c stage = some (central', stage'))
    (hchanged : central' ≠ s.central) : stage'.Past c := by
  cases stage with
  | asked | untracked => exact absurd (Prod.mk.inj (Option.some.inj hstep)).1.symm hchanged
  | absent =>
    simp only [createStep] at hstep
    split at hstep
    next =>
      obtain ⟨-, rfl⟩ := Prod.mk.inj (Option.some.inj hstep)
      intro heq
      cases congrArg RequestError.code (Except.error.inj heq)
    next =>
      obtain ⟨-, rfl⟩ := Prod.mk.inj (Option.some.inj hstep)
      exact trivial
  | put object =>
    simp only [createStep] at hstep
    split at hstep
    next => exact absurd (Prod.mk.inj (Option.some.inj hstep)).1.symm hchanged
    next =>
      obtain ⟨-, rfl⟩ := Prod.mk.inj (Option.some.inj hstep)
      exact trivial
  | inserted fileId object =>
    obtain ⟨-, rfl⟩ := Prod.mk.inj (Option.some.inj hstep)
    exact fun heq => by cases heq
  | answered answer => cases hstep

theorem Kept.past (h : Kept place s) (hi : s.calls[i]? = some (.create c stage))
    (hstep : createStep place s.central c stage = some (central', stage')) (hpast : stage.Past c) :
    stage'.Past c := by
  cases stage with
  | asked | untracked | absent => exact hpast.elim
  | put object =>
    simp only [createStep, not_taken_iff.mpr (h.pending i object ⟨_, hi, rfl⟩)] at hstep
    obtain ⟨-, rfl⟩ := Prod.mk.inj (Option.some.inj hstep)
    exact trivial
  | inserted fileId object =>
    obtain ⟨-, rfl⟩ := Prod.mk.inj (Option.some.inj hstep)
    exact fun heq => by cases heq
  | answered answer => cases hstep

def Running.request : Running Bytes → Request Bytes
  | .create c _ => .create c
  | .push p _ => .push p
  | .sweep w _ => .sweep w

theorem request_running_step {locked : Bool} {central : CentralState Bytes}
    {running running' : Running Bytes}
    (h : running.step place central locked = some (central', running')) :
    running'.request = running.request := by
  cases running with
  | create c stage | push p stage | sweep w stage =>
    obtain ⟨⟨_, stage'⟩, -, heq⟩ := Option.map_eq_some_iff.mp h
    obtain ⟨-, rfl⟩ := Prod.mk.inj heq
    rfl

variable {running : Running Bytes}

theorem call_step (hi : s.calls[i]? = some running) (hstep : step place s a = some s') :
    s'.calls[i]? = some running ∨ ∃ running' central',
      running.step place s.central s.locked = some (central', running') ∧
      s'.calls[i]? = some running' := by
  have hlt : i < s.calls.length := (List.getElem?_eq_some_iff.mp hi).1
  cases a with
  | receive request =>
    simp only [step] at hstep
    split at hstep
    next =>
      cases hstep
      exact .inl ((List.getElem?_append_left hlt).trans hi)
    next => cases hstep
  | elsewhere central' =>
    cases hstep
    exact .inl hi
  | next j =>
    obtain ⟨running₁, running', central', hj, hrunning, rfl⟩ := next_cases hstep
    by_cases hij : j = i
    · subst hij
      rw [hi] at hj
      cases hj
      exact .inr ⟨running', central', hrunning, List.getElem?_set_self hlt⟩
    · exact .inl ((List.getElem?_set_ne hij).trans hi)

theorem request_run {Allowed : State Bytes → Action Bytes → Prop}
    (run : Run (step place) Allowed s acts s') (hi : s.calls[i]? = some running) :
    ∃ running' : Running Bytes, s'.calls[i]? = some running' ∧
      running'.request = running.request := by
  refine run.inv (fun t => ∃ running' : Running Bytes, t.calls[i]? = some running' ∧
    running'.request = running.request) ⟨running, hi, rfl⟩ ?_
  rintro t b u ⟨running₁, hi₁, hrequest⟩ - hstep
  rcases call_step hi₁ hstep with hsame | ⟨running₂, _, hrunning, hi₂⟩
  · exact ⟨running₁, hsame, hrequest⟩
  · exact ⟨running₂, hi₂, (request_running_step hrunning).trans hrequest⟩

theorem past_run (run : Run (step place) (Meets place) s acts s') (h : Kept place s)
    (hi : s.calls[i]? = some (.create c stage)) (hpast : stage.Past c) :
    ∃ stage' : CreateStage Bytes, s'.calls[i]? = some (.create c stage') ∧ stage'.Past c := by
  have hall := run.inv (fun t => Kept place t ∧ ∃ stage' : CreateStage Bytes,
    t.calls[i]? = some (.create c stage') ∧ stage'.Past c) ⟨h, stage, hi, hpast⟩ ?_
  · exact hall.2
  rintro t b u ⟨hkept, stage₁, hi₁, hpast₁⟩ hmeets hstep
  refine ⟨kept_step hkept hmeets hstep, ?_⟩
  rcases call_step hi₁ hstep with hsame | ⟨running₂, _, hrunning, hi₂⟩
  · exact ⟨stage₁, hsame, hpast₁⟩
  · obtain ⟨⟨_, stage₂⟩, hcreate, heq⟩ := Option.map_eq_some_iff.mp hrunning
    obtain ⟨rfl, rfl⟩ := Prod.mk.inj heq
    exact ⟨stage₂, hi₂, hkept.past hi₁ hcreate hpast₁⟩

end

def Answered (s : State Bytes) (i : ℕ) (c : Creation Bytes) (answer : Answer) : Prop :=
  s.calls[i]? = some (.create c (.answered answer))

/-- None of the call's own steps, wherever they stand in a run, has changed anything. -/
def ChangedNothing (place : Place Bytes) (Allowed : State Bytes → Action Bytes → Prop)
    (s₀ s : State Bytes) (i : ℕ) : Prop :=
  ∀ before t u after, Run (step place) Allowed s₀ before t → Allowed t (.next i) →
    step place t (.next i) = some u → Run (step place) Allowed u after s → u.central = t.central

/-- At most one creation has succeeded, the remote has its bytes and the table just its row, with
the hash of these bytes; and every other that the remote has not failed was told that the file
exists, and has changed nothing. -/
structure Unclobbered (place : Place Bytes) (Allowed : State Bytes → Action Bytes → Prop)
    (s₀ s : State Bytes) : Prop where
  one : ∀ i j c c' payload payload', Answered s i c (.ok payload) →
    Answered s j c' (.ok payload') → i = j
  object : ∀ i c payload, Answered s i c (.ok payload) →
    (place.object s.central).map (·.bytes) = some (c.body place.server)
  row : ∀ i c payload, Answered s i c (.ok payload) → ∃ r ∈ s.central.db.files,
    payload = .created r.id c.args.filename place.remotePath ∧ place.Here r ∧
    r.currentRemoteHash = some (place.server.hashing.canonicalHash
      (place.server.backend place.remoteName) (c.body place.server)) ∧
    ∀ r' ∈ s.central.db.files, place.Here r' → r' = r
  refused : ∀ i c e, Answered s i c (.error e) → FailedCall place c.attempt e ∨
    e = fileExists c.args.filename ∧ ChangedNothing place Allowed s₀ s i

theorem pushedHash_object (c : Creation Bytes) :
    place.server.pushedHash place.remoteName (c.object place) =
      place.server.hashing.canonicalHash (place.server.backend place.remoteName)
        (c.body place.server) := by
  unfold CentralServer.pushedHash CentralServer.refOf Creation.object CentralServer.putObject
  cases place.server.backend place.remoteName with
  | drive => exact place.server.md5_lower _
  | opendal => exact place.server.sha256_lower _

theorem Kept.owner_of_answered (h : Kept place s) {c : Creation Bytes} {payload : Payload}
    (hi : Answered s i c (.ok payload)) :
    ∃ fileId, payload = .created fileId c.args.filename place.remotePath ∧
      Owner place s i (c.object place, some fileId) := by
  obtain ⟨fileId, rfl⟩ := (h.calls i _ hi).2
  exact ⟨fileId, rfl, _, hi, rfl⟩

theorem changedNothing_of_exists {c : Creation Bytes} (hstart : Kept place s₀)
    (hi : Answered s i c (.error (fileExists c.args.filename))) :
    ChangedNothing place (Meets place) s₀ s i := by
  intro before t u after hbefore hmeets hstep hafter
  by_contra hchanged
  have hkept := hbefore.inv (Kept place) hstart fun _ _ _ h hm hs => kept_step h hm hs
  obtain ⟨running, running', central', ht, hrunning, rfl⟩ := next_cases hstep
  have hlt : i < t.calls.length := (List.getElem?_eq_some_iff.mp ht).1
  have hu : (t.calls.set i running')[i]? = some running' := List.getElem?_set_self hlt
  obtain ⟨last, hlast, hrequest⟩ := request_run hafter hu
  rw [show s.calls[i]? = _ from hi] at hlast
  cases hlast
  rw [request_running_step hrunning] at hrequest
  cases running with
  | push p stage => cases hrequest
  | sweep w stage => cases hrequest
  | create c' stage =>
    obtain rfl : c = c' := by
      cases hrequest
      rfl
    obtain ⟨⟨_, stage'⟩, hcreate, heq⟩ := Option.map_eq_some_iff.mp hrunning
    obtain ⟨rfl, rfl⟩ := Prod.mk.inj heq
    obtain ⟨last, hlast, hpast⟩ := past_run hafter (kept_step hkept hmeets hstep) hu
      (past_of_changed hcreate hchanged)
    rw [show s.calls[i]? = _ from hi] at hlast
    cases hlast
    exact hpast rfl

def newFile : Place Bool where
  server := sampleCentral
  nodeId := "node"
  nodeRoot := ["org", "projects", "key"]
  remoteName := "drive"
  remotePath := ["org", "projects", "key", "wip", "new.md"]

def creationOf (content : String) : Creation Bool where
  attempt := sampleAttempt
  args := { nodeId := "node", filename := "new.md", content := some content }

def idle : State Bool where
  central := sampleState

theorem start_idle : Start newFile idle := by
  refine ⟨keyed_onePushedFile, fun r hr r' hr' _ _ => ?_, rfl⟩
  rw [List.mem_singleton.mp hr, List.mem_singleton.mp hr']

end Portuni.Creations
