import Portuni.CrashSafety.Relocations

/-!
One retry with working remotes, from wherever a relocation has stopped.
-/

namespace Portuni.CrashSafety

open CentralRetry (RemoteObject Objects CallAnswer OpsKeyed)
open FileOps Files Files.Database Library.Stops PendingOps RemoteSweep RemoteWatch Tombstones

universe u

variable {Bytes : Type u}

def Ambiguous (p : RelocateParams) (objects : Objects Bytes) : Prop :=
  ¬ SamePlace p ∧ (atSource p objects).isSome = (atTarget p objects).isSome

def Kept (p : RelocateParams) (start objects : Objects Bytes) : Prop :=
  (∀ object, atSource p start = some object → atSource p objects = some object) ∧
    ∀ object, atTarget p start = some object → atTarget p objects = some object

/-- What has to go to the target can: within one remote, or by its bytes. -/
def Transferable (p : RelocateParams) (objects : Objects Bytes) : Prop :=
  p.fromRemoteName ≠ p.toRemoteName → atTarget p objects = none →
    ∀ object, atSource p objects = some object → object.isNativeFormat = false

/-- The content is at the target alone, the record names it, a tombstone tells of the path
that was left, and nothing is pending for the file. -/
structure Relocated (i : Intent) (start after : Store Bytes) : Prop where
  landed : Landed i.p start.objects after.objects
  record : ∃ r, after.db.fileById i.row.id = some r ∧ AtTarget i r
  tombstone : ¬ SamePlace i.p → HasTombstone after.db i.row.nodeId i.p.fromRemotePath i.row.id
  done : ∀ op ∈ after.db.pendingOps, op.fileId ≠ i.row.id

variable {server : SyncServer Bytes} {answers : Answers} {p : RelocateParams} {i : Intent}
  {s start : Store Bytes} {objects objects' : Objects Bytes} {sourceCopied : Bool}

theorem Landed.of_start {start' : Objects Bytes} (h : Landed p start' objects)
    (source : atSource p start' = atSource p start.objects)
    (target : atTarget p start' = atTarget p start.objects) : Landed p start.objects objects where
  __ := h
  content object hobject := h.content object (by rwa [source, target])

theorem stat_working (working : answers.Working) (objects : Objects Bytes) (name : String)
    (path : RemotePath) :
    stat server answers objects name path =
      .ok ((objects name path).map (statRef server name)) := by
  simp [stat, working.stat]

theorem not_samePlace_iff :
    ¬ SamePlace p ↔ ¬ (p.fromRemoteName = p.toRemoteName && p.fromRemotePath = p.toRemotePath) := by
  simp [SamePlace]

variable {object : RemoteObject Bytes} {id : ℕ} {op : PendingOpRow}

variable (working : answers.Working)

include working

theorem retried_atTarget (hplace : ¬ SamePlace p) (hsource : atSource p objects = none)
    (htarget : atTarget p objects = some object) :
    relocateResult server answers p objects = .ok .alreadyAtTarget ∧
      relocateEffects server answers p objects = [] := by
  rw [relocateResult, relocateRemoteObject, if_neg (not_samePlace_iff.mp hplace),
    relocateEffects, if_neg hplace]
  simp [answersTo, stat_working working, hsource, htarget]

theorem retried_ambiguous (ambiguous : Ambiguous p objects) (fresh : p.sourceCopied = false) :
    (∃ failure, relocateResult server answers p objects = .error failure) ∧
      relocateEffects server answers p objects = [] := by
  obtain ⟨hplace, hsame⟩ := ambiguous
  rw [relocateResult, relocateRemoteObject, if_neg (not_samePlace_iff.mp hplace),
    relocateEffects, if_neg hplace]
  cases hsource : atSource p objects with
  | none =>
    have htarget : atTarget p objects = none := by simpa [hsource] using hsame
    simp [answersTo, stat_working working, hsource, htarget]
  | some object =>
    obtain ⟨object', htarget⟩ : ∃ object', atTarget p objects = some object' := by
      rw [hsource] at hsame
      exact Option.isSome_iff_exists.mp hsame.symm
    simp [answersTo, stat_working working, hsource, htarget, fresh]

theorem retried_copied (hplace : ¬ SamePlace p) (copied : p.sourceCopied = true)
    {newFileId : Option String} (bytes : object.isNativeFormat = false)
    (hsource : atSource p objects = some object)
    (htarget : atTarget p objects = some ⟨object.bytes, false, newFileId⟩) :
    relocateResult server answers p objects = .ok .moved ∧
      relocateEffects server answers p objects = [onObjects (sourceRemoved p)] := by
  have hsame : sameContent (statRef server p.fromRemoteName object)
      (statRef server p.toRemoteName ⟨object.bytes, false, newFileId⟩) = true := by
    simp only [sameContent, statRef, bytes, Bool.false_eq_true, if_false]
    cases server.backend p.fromRemoteName with
    | opendal => rfl
    | drive =>
      cases server.backend p.toRemoteName with
      | opendal => rfl
      | drive => simp [Content.Hashing.statHash]
  rw [relocateResult, relocateRemoteObject, if_neg (not_samePlace_iff.mp hplace),
    relocateEffects, if_neg hplace]
  simp [answersTo, stat_working working, hsource, htarget, copied, hsame, working.deleteSource,
    CallAnswer.toExcept, deleteSourceEffects, CallAnswer.tookEffect]

theorem retried_atSource (hsource : atSource p objects = some object)
    (htarget : atTarget p objects = none) (transferable : Transferable p objects) :
    relocateResult server answers p objects = .ok .moved := by
  have hplace := not_samePlace_of_source hsource htarget
  have hcopy : copyAnswer answers p objects = .done := by
    unfold copyAnswer
    rw [if_neg, working.copy]
    rintro ⟨hremotes, hnative⟩
    simp [hsource, transferable hremotes htarget object hsource] at hnative
  rw [relocateResult, relocateRemoteObject, if_neg (not_samePlace_iff.mp hplace)]
  simp [answersTo, stat_working working, hsource, htarget, hcopy, working.deleteSource,
    CallAnswer.toExcept]

def withNote (p : RelocateParams) (sourceCopied : Bool) : RelocateParams :=
  { p with sourceCopied }

/-- What the remote step of a retry comes to: the content lands, or the remotes are
ambiguous and the retry leaves them alone. -/
def RemoteRetried (server : SyncServer Bytes) (answers : Answers) (p : RelocateParams)
    (start s : Store Bytes) : Prop :=
  (∃ status, relocateResult server answers p s.objects = .ok status ∧
    Landed p start.objects (perform (relocateEffects server answers p s.objects) s).objects) ∨
  ((∃ failure, relocateResult server answers p s.objects = .error failure) ∧
    relocateEffects server answers p s.objects = [] ∧ Ambiguous p s.objects ∧
      Kept p start.objects s.objects)

theorem retried_untouched (fresh : p.sourceCopied = false)
    (hsource : atSource p s.objects = atSource p start.objects)
    (htarget : atTarget p s.objects = atTarget p start.objects)
    (transferable : Transferable p start.objects) : RemoteRetried server answers p start s := by
  have hlanded : ∀ status, relocateResult server answers p s.objects = .ok status →
      RemoteRetried server answers p start s := fun status hok =>
    .inl ⟨status, hok, ((relocateCase fresh).progress.2.1 status hok).of_start hsource htarget⟩
  have hrefused : Ambiguous p s.objects → RemoteRetried server answers p start s :=
    fun ambiguous => by
      obtain ⟨hfailed, hnone⟩ := retried_ambiguous working ambiguous fresh
      exact .inr ⟨hfailed, hnone, ambiguous, fun _ h => hsource.trans h, fun _ h => htarget.trans h⟩
  by_cases hplace : SamePlace p
  · refine hlanded .alreadyAtTarget ?_
    simp [relocateResult, relocateRemoteObject, hplace.1, hplace.2]
  · cases hfrom : atSource p s.objects with
    | none =>
      cases hto : atTarget p s.objects with
      | none => exact hrefused ⟨hplace, by rw [hfrom, hto]⟩
      | some object => exact hlanded _ (retried_atTarget working hplace hfrom hto).1
    | some object =>
      cases hto : atTarget p s.objects with
      | some object' => exact hrefused ⟨hplace, by rw [hfrom, hto]; rfl⟩
      | none =>
        refine hlanded _ (retried_atSource working hfrom hto fun hremotes _ o ho => ?_)
        exact transferable hremotes (htarget ▸ hto) o (hsource ▸ ho)

theorem Progress.retried (fresh : p.sourceCopied = false)
    (progress : Progress p start.objects s.objects sourceCopied)
    (transferable : Transferable p start.objects) :
    RemoteRetried server answers (withNote p sourceCopied) start s := by
  cases progress with
  | untouched hsource htarget =>
    have hp : withNote p false = p := by rw [withNote, ← fresh]
    rw [hp]
    exact retried_untouched working fresh hsource htarget transferable
  | copied object newFileId sourceBefore targetBefore bytes hsource htarget =>
    have hplace : ¬ SamePlace (withNote p sourceCopied) :=
      not_samePlace_of_source sourceBefore targetBefore
    cases sourceCopied with
    | true =>
      obtain ⟨hok, heffects⟩ : _ ∧ relocateEffects server answers _ s.objects = _ :=
        retried_copied working hplace rfl bytes hsource htarget
      refine .inl ⟨_, hok, ?_⟩
      rw [heffects]
      obtain ⟨hgone, hstill⟩ : atSource _ (sourceRemoved _ s.objects) = none ∧ _ :=
        sourceRemoved_places hplace
      exact landed_of_moved sourceBefore targetBefore hgone (hstill.trans htarget) rfl
    | false =>
      have hambiguous : Ambiguous (withNote p false) s.objects :=
        ⟨hplace, (congrArg Option.isSome hsource).trans (congrArg Option.isSome htarget).symm⟩
      obtain ⟨hfailed, hnone⟩ : (∃ failure, relocateResult server answers _ s.objects = _) ∧ _ :=
        retried_ambiguous working hambiguous rfl
      refine .inr ⟨hfailed, hnone, hambiguous, fun o ho => ?_, fun o ho => ?_⟩
      · exact hsource.trans (sourceBefore.symm.trans ho)
      · cases targetBefore.symm.trans ho
  | moved object object' sourceBefore targetBefore hsource htarget bytes =>
    have hplace : ¬ SamePlace (withNote p sourceCopied) :=
      not_samePlace_of_source sourceBefore targetBefore
    obtain ⟨hok, heffects⟩ : _ ∧ relocateEffects server answers _ s.objects = [] :=
      retried_atTarget working hplace hsource htarget
    refine .inl ⟨_, hok, ?_⟩
    rw [heffects]
    exact landed_of_moved sourceBefore targetBefore hsource htarget bytes

omit working

theorem listPendingOps_of_underway (underway : Underway i start s sourceCopied) :
    ∃ op, IsOp i start.db.nextId sourceCopied op ∧ s.db.pendingOps = start.db.pendingOps ++ [op] ∧
      listPendingOps s.db i.row.nodeId = listPendingOps start.db i.row.nodeId ++ [op] := by
  obtain ⟨op, hops, isOp⟩ := underway.op
  refine ⟨op, isOp, hops, ?_⟩
  simp [listPendingOps, hops, isOp.nodeId]

/-- Nothing else is pending for the file, nor for its two paths on its node. -/
structure Alone (fileId : ℕ) (nodeId : String) (paths : List RemotePath) (db : Database) : Prop where
  keyed : db.Keyed
  ops : OpsKeyed db
  file : ∀ op ∈ db.pendingOps, op.fileId ≠ fileId
  paths : ∀ op ∈ listPendingOps db nodeId, ∀ path ∈ opPaths op, path ∉ paths

theorem Alone.unrelated {fileId : ℕ} {nodeId : String} {paths : List RemotePath} {db : Database}
    (alone : Alone fileId nodeId paths db) :
    ∀ op ∈ listPendingOps db nodeId, Unrelated fileId paths op :=
  fun op hop => ⟨alone.file op (List.mem_filter.mp hop).1, alone.paths op hop⟩

def Intent.paths (i : Intent) : List RemotePath := [i.p.fromRemotePath, i.p.toRemotePath]

theorem Intent.Sound.path_mem (sound : i.Sound start.db) {r : FileRow}
    (h : r = i.row ∨ AtTarget i r) : ∃ own ∈ i.paths, r.remotePath = some own := by
  rcases h with rfl | htarget
  · exact ⟨_, List.mem_cons_self, sound.path⟩
  · exact ⟨_, List.mem_cons_of_mem _ List.mem_cons_self, htarget.2⟩

theorem Underway.of_frame (underway : Underway i start s sourceCopied) {s' : Store Bytes}
    (frame : Frame i.row.id i.paths s s') :
    (∃ r, s'.db.fileById i.row.id = some r ∧ (r = i.row ∨ AtTarget i r)) ∧
      Progress i.p start.objects s'.objects sourceCopied := by
  have hsource : atSource i.p s'.objects = atSource i.p s.objects :=
    frame.objects _ _ List.mem_cons_self
  have htarget : atTarget i.p s'.objects = atTarget i.p s.objects :=
    frame.objects _ _ (List.mem_cons_of_mem _ List.mem_cons_self)
  refine ⟨frame.row ▸ underway.record, ?_⟩
  cases underway.progress with
  | untouched source target => exact .untouched (hsource.trans source) (htarget.trans target)
  | copied object newFileId sourceBefore targetBefore bytes source target =>
    exact .copied object newFileId sourceBefore targetBefore bytes (hsource.trans source)
      (htarget.trans target) _
  | moved object object' sourceBefore targetBefore source target bytes =>
    exact .moved object object' sourceBefore targetBefore (hsource.trans source)
      (htarget.trans target) bytes _

theorem retryParams_of_isOp (isOp : IsOp i id sourceCopied op) :
    retryParams op = (withNote i.p sourceCopied) := by
  simp [retryParams, isOp.payload, withNote]

theorem checkPendingOp_of_isOp {db : Database} {r : FileRow}
    (sound : i.Sound start.db) (isOp : IsOp i id sourceCopied op)
    (hrow : db.fileById i.row.id = some r) (hplace : r = i.row ∨ AtTarget i r) :
    checkPendingOp db op = .ok () := by
  simp only [checkPendingOp, isOp.payload, isOp.fileId, assertRecordStillMatches, hrow]
  rw [if_pos]
  rcases hplace with rfl | htarget
  · simp [sound.name, sound.path]
  · simp [htarget.1, htarget.2]

def Intent.written (i : Intent) (r : FileRow) : FileRow :=
  { r with remoteName := some i.p.toRemoteName, remotePath := some i.p.toRemotePath,
           nodeId := i.toNodeId, filename := i.filename }

theorem retryOne_isOp (isOp : IsOp i id sourceCopied op)
    (hcheck : checkPendingOp s.db op = .ok ()) : (retryOne server answers s op).objects =
        (perform (relocateEffects server answers (withNote i.p sourceCopied) s.objects) s).objects ∧
      (retryOne server answers s op).db =
        match relocateResult server answers (withNote i.p sourceCopied) s.objects with
        | .error (_, message) => failPendingOp s.db op.id message
        | .ok _ =>
          completePendingOp ((writeRelocatedRecord s.db op.fileId i.toNodeId i.p.toRemotePath
            i.written).insertAudit (retriedMoveAudit op (withNote i.p sourceCopied) answers.now))
            op.id := by
  have hparams := retryParams_of_isOp isOp
  constructor
  · simp only [retryOne, retryEffects, hcheck, isOp.payload, hparams]
  · simp only [retryOne]
    rw [retryPendingOp_eq, hcheck, hparams]
    simp only [finishPendingOp, executePendingOp, isOp.payload]
    have hrelocate : relocateRemoteObject ⟨i.p.fromRemoteName, i.p.fromRemotePath,
        i.p.toRemoteName, i.p.toRemotePath, sourceCopied⟩
        (worldFor server answers (withNote i.p sourceCopied) s.objects).relocation =
          relocateResult server answers (withNote i.p sourceCopied) s.objects := rfl
    rw [hrelocate]
    cases relocateResult server answers (withNote i.p sourceCopied) s.objects with
    | error failure => rfl
    | ok status => rfl

theorem relocated_of_retried {status : RelocateStatus}
    (isOp : IsOp i id sourceCopied op) (hcheck : checkPendingOp s.db op = .ok ())
    (hrow : ∃ r, s.db.fileById i.row.id = some r)
    (hmine : ∀ o ∈ s.db.pendingOps, o.fileId = i.row.id → o.id = op.id)
    (hok : relocateResult server answers (withNote i.p sourceCopied) s.objects = .ok status)
    (hlanded : Landed i.p start.objects
      (perform (relocateEffects server answers (withNote i.p sourceCopied) s.objects) s).objects) :
    Relocated i start (retryOne server answers s op) := by
  obtain ⟨hobjects, hdb⟩ : (retryOne server answers s op).objects = _ ∧ _ :=
    retryOne_isOp isOp hcheck
  rw [hok] at hdb
  obtain ⟨r, hr⟩ := hrow
  refine ⟨hobjects ▸ hlanded, ⟨i.written r, ?_, rfl, rfl⟩, fun _ => ?_, ?_⟩
  · rw [hdb]
    change (writeRelocatedRecord s.db op.fileId i.toNodeId i.p.toRemotePath i.written).fileById _ = _
    rw [isOp.fileId, fileById_writeRelocatedRecord (fun r => (rfl : (i.written r).id = r.id)), hr]
    rfl
  · rw [hdb]
    refine ⟨_, List.mem_append_right _ (List.mem_singleton_self _), ?_, ?_, rfl⟩
    · simp [reads, retriedMoveAudit, AuditRow.fileId?, AuditRow.auditNodeId, centralActions,
        localActions, isOp.nodeId]
    · exact congrArg some isOp.fileId
  · rw [hdb]
    intro o ho hfile
    obtain ⟨ho, hne⟩ := List.mem_filter.mp ho
    change o ∈ (writeRelocatedRecord s.db op.fileId i.toNodeId i.p.toRemotePath
      i.written).pendingOps at ho
    rw [writeRelocatedRecord_rest.1] at ho
    exact (of_decide_eq_true hne) (hmine o ho hfile)

/-- The turn of the intent's own operation comes last, and the others have left the file
alone. -/
structure LastTurn (i : Intent) (start s others : Store Bytes) (sourceCopied : Bool)
    (op : PendingOpRow) : Prop where
  isOp : IsOp i start.db.nextId sourceCopied op
  pending : op ∈ others.db.pendingOps
  own : ∀ o ∈ others.db.pendingOps, o.fileId = i.row.id → o.id = op.id
  record : ∃ r, others.db.fileById i.row.id = some r
  check : checkPendingOp others.db op = .ok ()
  progress : Progress i.p start.objects others.objects sourceCopied
  source : atSource i.p others.objects = atSource i.p s.objects
  target : atTarget i.p others.objects = atTarget i.p s.objects

theorem Underway.lastTurn (sound : i.Sound start.db)
    (alone : Alone i.row.id i.row.nodeId i.paths start.db)
    (underway : Underway i start s sourceCopied) :
    ∃ op others, LastTurn i start s others sourceCopied op ∧
      retryAll server answers i.row.nodeId s = retryOne server answers others op := by
  obtain ⟨op, isOp, hops, hlist⟩ := listPendingOps_of_underway underway
  have hown : ∀ o ∈ s.db.pendingOps, o.fileId = i.row.id → o = op := fun o ho hfile => by
    rw [hops] at ho
    rcases List.mem_append.mp ho with ho | ho
    · exact absurd hfile (alone.file o ho)
    · exact List.mem_singleton.mp ho
  have hfresh : ∀ o ∈ s.db.pendingOps, o.fileId = i.row.id →
      ∀ op' ∈ listPendingOps start.db i.row.nodeId, o.id ≠ op'.id := fun o ho hfile op' hop' => by
    rw [hown o ho hfile, isOp.id]
    exact (alone.ops op' (List.mem_filter.mp hop').1).ne'
  have hframe : Frame i.row.id i.paths s
      ((listPendingOps start.db i.row.nodeId).foldl (retryOne server answers) s) := by
    refine frame_retryAll underway.keyed alone.unrelated hfresh fun r hr => ?_
    obtain ⟨r', hr', hplace⟩ := underway.record
    obtain rfl := Option.some.inj (hr.symm.trans hr')
    exact sound.path_mem hplace
  obtain ⟨⟨r, hr, hplace⟩, hprogress⟩ := underway.of_frame hframe
  have hmem : ∀ o, o ∈ ((listPendingOps start.db i.row.nodeId).foldl (retryOne server answers)
      s).db.pendingOps ∧ o.fileId = i.row.id ↔ o ∈ s.db.pendingOps ∧ o.fileId = i.row.id :=
    fun o => by
      have hfilter := congrArg (o ∈ ·) hframe.ops
      simpa using hfilter
  refine ⟨op, _, ⟨isOp, ?_, fun o ho hfile => ?_, ⟨r, hr⟩,
    checkPendingOp_of_isOp sound isOp hr hplace, hprogress,
    hframe.objects _ _ List.mem_cons_self,
    hframe.objects _ _ (List.mem_cons_of_mem _ List.mem_cons_self)⟩, ?_⟩
  · exact ((hmem op).mpr ⟨hops ▸ List.mem_append_right _ (List.mem_singleton_self _),
      isOp.fileId⟩).1
  · rw [hown o ((hmem o).mp ⟨ho, hfile⟩).1 hfile]
  · rw [retryAll, hlist, List.foldl_append]
    rfl

theorem Underway.recovered (working : answers.Working) (sound : i.Sound start.db)
    (alone : Alone i.row.id i.row.nodeId i.paths start.db)
    (transferable : Transferable i.p start.objects) (underway : Underway i start s sourceCopied) :
    Relocated i start (retryAll server answers i.row.nodeId s) ∨
      Ambiguous i.p s.objects ∧
        Kept i.p start.objects (retryAll server answers i.row.nodeId s).objects := by
  obtain ⟨op, others, last, hretry⟩ : ∃ op others, LastTurn i start s others sourceCopied op ∧
      retryAll server answers i.row.nodeId s = retryOne server answers others op :=
    underway.lastTurn sound alone
  rw [hretry]
  have hretried : RemoteRetried server answers _ start others :=
    last.progress.retried working sound.fresh transferable
  rcases hretried with
    ⟨status, hok, hlanded⟩ | ⟨-, hnone, hambiguous, hkept⟩
  · exact .inl (relocated_of_retried last.isOp last.check last.record last.own hok
      ⟨hlanded.content, hlanded.gone, hlanded.there⟩)
  · have hobjects : (retryOne server answers others op).objects = others.objects := by
      rw [(retryOne_isOp last.isOp last.check).1, hnone]
      rfl
    refine .inr ⟨⟨hambiguous.1, ?_⟩, ?_⟩
    · rw [← last.source, ← last.target]
      exact hambiguous.2
    · rw [hobjects]
      exact ⟨hkept.1, hkept.2⟩

theorem Underway.stuck (working : answers.Working) (sound : i.Sound start.db)
    (alone : Alone i.row.id i.row.nodeId i.paths start.db)
    (remotes : i.p.fromRemoteName ≠ i.p.toRemoteName)
    (native : object.isNativeFormat = true) (underway : Underway i start s sourceCopied)
    (source : atSource i.p s.objects = some object) (target : atTarget i.p s.objects = none) :
    ¬ Relocated i start (retryAll server answers i.row.nodeId s) := by
  obtain ⟨op, others, last, hretry⟩ : ∃ op others, LastTurn i start s others sourceCopied op ∧
      retryAll server answers i.row.nodeId s = retryOne server answers others op :=
    underway.lastTurn sound alone
  rw [hretry]
  have hsource : atSource (withNote i.p sourceCopied) others.objects = some object :=
    last.source.trans source
  have htarget : atTarget (withNote i.p sourceCopied) others.objects = none :=
    last.target.trans target
  have hcopy : copyAnswer answers (withNote i.p sourceCopied) others.objects =
      .failed answers.nativeGet false :=
    if_pos ⟨remotes, by rw [hsource]; exact native⟩
  have hresult : relocateResult server answers (withNote i.p sourceCopied) others.objects =
      .error (.copy, answers.nativeGet) := by
    have hplace : ¬ SamePlace (withNote i.p sourceCopied) :=
      not_samePlace_of_source hsource htarget
    rw [relocateResult, relocateRemoteObject, if_neg (not_samePlace_iff.mp hplace)]
    simp [answersTo, stat_working working, hcopy, CallAnswer.toExcept, hsource, htarget]
  intro relocated
  refine relocated.done { op with
    attempts := op.attempts + 1, lastError := some answers.nativeGet } ?_ last.isOp.fileId
  obtain ⟨-, hdb⟩ : (retryOne server answers others op).objects = _ ∧ _ :=
    retryOne_isOp last.isOp last.check
  rw [hdb, hresult]
  exact List.mem_map.mpr ⟨op, last.pending, if_pos rfl⟩

/-- The log tells that the file left its old path, if it is another one. -/
def Intent.Told (i : Intent) (db : Database) : Prop :=
  ¬ SamePlace i.p → ∃ row ∈ db.auditLog ++ i.audits, reads centralActions i.row.nodeId row ∧
    row.fileId? = some i.row.id ∧ row.auditRemotePath = some i.p.fromRemotePath

theorem Arrived.recovered_iff (sound : i.Sound start.db)
    (alone : Alone i.row.id i.row.nodeId i.paths start.db) (arrived : Arrived i start s) :
    Relocated i start (retryAll server answers i.row.nodeId s) ↔ i.Told start.db := by
  have hframe : Frame i.row.id i.paths s (retryAll server answers i.row.nodeId s) := by
    have hlist : listPendingOps s.db i.row.nodeId = listPendingOps start.db i.row.nodeId := by
      rw [listPendingOps, arrived.ops]
      rfl
    rw [retryAll, hlist]
    refine frame_retryAll arrived.keyed alone.unrelated (fun o ho hfile => ?_) fun r hr => ?_
    · rw [arrived.ops] at ho
      exact absurd hfile (alone.file o ho)
    · obtain ⟨r', hr', htarget⟩ := arrived.record
      obtain rfl := Option.some.inj (hr.symm.trans hr')
      exact sound.path_mem (.inr htarget)
  have hsource : atSource i.p (retryAll server answers i.row.nodeId s).objects =
      atSource i.p s.objects := hframe.objects _ _ List.mem_cons_self
  have htarget : atTarget i.p (retryAll server answers i.row.nodeId s).objects =
      atTarget i.p s.objects := hframe.objects _ _ (List.mem_cons_of_mem _ List.mem_cons_self)
  have htold : HasTombstone (retryAll server answers i.row.nodeId s).db i.row.nodeId
      i.p.fromRemotePath i.row.id ↔ ∃ row ∈ start.db.auditLog ++ i.audits,
        reads centralActions i.row.nodeId row ∧ row.fileId? = some i.row.id ∧
          row.auditRemotePath = some i.p.fromRemotePath := by
    rw [hframe.tombstones, HasTombstone, arrived.log]
  constructor
  · intro relocated hplace
    exact htold.mp (relocated.tombstone hplace)
  · intro told
    refine ⟨⟨fun object hobject => ?_, fun hplace => ?_, fun hplace => ?_⟩, ?_,
      fun hplace => htold.mpr (told hplace), fun o ho hfile => ?_⟩
    · rw [htarget]
      exact arrived.landed.content object hobject
    · rw [hsource]
      exact arrived.landed.gone hplace
    · rw [htarget]
      exact arrived.landed.there hplace
    · rw [hframe.row]
      exact arrived.record
    · have hmem : o ∈ (retryAll server answers i.row.nodeId s).db.pendingOps.filter
          (·.fileId = i.row.id) := by simp [ho, hfile]
      rw [hframe.ops, arrived.ops] at hmem
      exact alone.file o (List.mem_filter.mp hmem).1 hfile

theorem Landed.not_ambiguous (landed : Landed p start.objects objects) : ¬ Ambiguous p objects := by
  rintro ⟨hplace, hsame⟩
  rw [landed.gone hplace] at hsame
  exact Bool.false_ne_true (hsame.trans (landed.there hplace))

end Portuni.CrashSafety
