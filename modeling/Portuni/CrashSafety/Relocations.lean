import Portuni.CrashSafety.Bystanders

namespace Portuni.CrashSafety

/-!
A relocation that stopped anywhere, and what one retry makes of it.
-/

section

open CentralRetry (RemoteObject Objects CallAnswer OpsKeyed)
open FileOps Files Files.Database Library.Stops PendingOps RemoteSweep RemoteWatch Tombstones

universe u

variable {Bytes : Type u} (server : SyncServer Bytes) (answers : Answers) (p : RelocateParams)
  (objects : Objects Bytes)

/-- How the adapter calls of a first attempt can come out, and with what result. -/
inductive RelocateCase :
    List (Effect (Store Bytes)) → Except (SubStep × String) RelocateStatus → Prop where
  | already (there : SamePlace p ∨ atSource p objects = none ∧ (atTarget p objects).isSome) :
      RelocateCase [] (.ok .alreadyAtTarget)
  | refused (message : String) : RelocateCase [] (.error (.copy, message))
  | renamed (object : RemoteObject Bytes) (source : atSource p objects = some object)
      (target : atTarget p objects = none) (places : ¬ SamePlace p)
      (result : Except (SubStep × String) RelocateStatus)
      (answered : result = .ok .moved ∨ ∃ message, result = .error (.copy, message)) :
      RelocateCase [onObjects (renamed p)] result
  | copied (object : RemoteObject Bytes) (source : atSource p objects = some object)
      (target : atTarget p objects = none) (bytes : object.isNativeFormat = false)
      (remotes : p.fromRemoteName ≠ p.toRemoteName)
      (failed : SubStep × String) :
      RelocateCase [onObjects (copied answers p)] (.error failed)
  | copiedAndRemoved (object : RemoteObject Bytes) (source : atSource p objects = some object)
      (target : atTarget p objects = none) (bytes : object.isNativeFormat = false)
      (remotes : p.fromRemoteName ≠ p.toRemoteName)
      (result : Except (SubStep × String) RelocateStatus)
      (answered : result = .ok .moved ∨ ∃ message, result = .error (.deleteSource, message)) :
      RelocateCase [onObjects (copied answers p), onObjects (sourceRemoved p)] result

variable {server answers p objects} {i : Intent} {s s' start : Store Bytes} {sourceCopied : Bool}

theorem stat_eq_ok {name : String} {path : RemotePath} {ref : Option FileRef}
    (h : stat server answers objects name path = .ok ref) :
    ref = (objects name path).map (statRef server name) := by
  unfold stat at h
  split at h
  · cases h
  · exact (Except.ok.inj h).symm

variable {object : RemoteObject Bytes}

theorem bytes_of_copyAnswer (hsource : atSource p objects = some object)
    (hremotes : p.fromRemoteName ≠ p.toRemoteName)
    (h : (copyAnswer answers p objects).tookEffect) : object.isNativeFormat = false := by
  unfold copyAnswer at h
  rw [hsource] at h
  cases hnative : object.isNativeFormat with
  | false => rfl
  | true => simp [hremotes, hnative, CallAnswer.tookEffect] at h

theorem relocateCase_copy (hplace : ¬ SamePlace p)
    (hsource : atSource p objects = some object) (htarget : atTarget p objects = none) :
    RelocateCase answers p objects (if !(copyAnswer answers p objects).tookEffect then []
        else if p.fromRemoteName = p.toRemoteName then [onObjects (renamed p)]
        else onObjects (copied answers p) ::
          if copyAnswer answers p objects = .done then deleteSourceEffects answers p else [])
      (match (copyAnswer answers p objects).toExcept with
        | .error message => .error (.copy, message)
        | .ok () =>
          if p.fromRemoteName = p.toRemoteName then .ok .moved
          else
            match answers.deleteSource.toExcept with
            | .ok () => .ok .moved
            | .error message => .error (.deleteSource, message)) := by
  cases hcopy : copyAnswer answers p objects with
  | failed message tookEffect =>
    cases tookEffect with
    | false => exact .refused message
    | true =>
      by_cases hremotes : p.fromRemoteName = p.toRemoteName
      · simp only [hremotes, CallAnswer.tookEffect, CallAnswer.toExcept, if_true, Bool.not_true,
          Bool.false_eq_true, if_false]
        exact .renamed object hsource htarget hplace _ (.inr ⟨message, rfl⟩)
      · simp only [hremotes, CallAnswer.tookEffect, CallAnswer.toExcept, Bool.not_true,
          Bool.false_eq_true, if_false, reduceCtorEq]
        exact .copied object hsource htarget
          (bytes_of_copyAnswer hsource hremotes (by rw [hcopy]; rfl)) hremotes _
  | done =>
    by_cases hremotes : p.fromRemoteName = p.toRemoteName
    · simp only [hremotes, CallAnswer.tookEffect, CallAnswer.toExcept, if_true, Bool.not_true,
        Bool.false_eq_true, if_false]
      exact .renamed object hsource htarget hplace _ (.inl rfl)
    · have hbytes := bytes_of_copyAnswer hsource hremotes (by rw [hcopy]; rfl)
      simp only [hremotes, CallAnswer.tookEffect, CallAnswer.toExcept, if_true, Bool.not_true,
        Bool.false_eq_true, if_false, deleteSourceEffects]
      cases answers.deleteSource with
      | done => exact .copiedAndRemoved object hsource htarget hbytes hremotes _ (.inl rfl)
      | failed message tookEffect =>
        cases tookEffect with
        | false => exact .copied object hsource htarget hbytes hremotes _
        | true =>
          exact .copiedAndRemoved object hsource htarget hbytes hremotes _ (.inr ⟨message, rfl⟩)

theorem relocateCase (fresh : p.sourceCopied = false) :
    RelocateCase answers p objects (relocateEffects server answers p objects)
      (relocateResult server answers p objects) := by
  by_cases hplace : SamePlace p
  · have heffects : relocateEffects server answers p objects = [] := if_pos hplace
    have hresult : relocateResult server answers p objects = .ok .alreadyAtTarget := by
      simp [relocateResult, relocateRemoteObject, hplace.1, hplace.2]
    rw [heffects, hresult]
    exact .already (.inl hplace)
  · have hplaces : ¬ (p.fromRemoteName = p.toRemoteName && p.fromRemotePath = p.toRemotePath) := by
      simpa [SamePlace] using hplace
    unfold relocateEffects relocateResult relocateRemoteObject
    rw [if_neg hplace, if_neg hplaces]
    simp only [answersTo, fresh, Bool.false_and, Bool.false_eq_true, if_false]
    cases hfrom : stat server answers objects p.fromRemoteName p.fromRemotePath with
    | error message => exact .refused message
    | ok atFrom =>
      cases hto : stat server answers objects p.toRemoteName p.toRemotePath with
      | error message =>
        cases atFrom with
        | none => exact .refused message
        | some _ => exact .refused message
      | ok atTo =>
        have hsource := stat_eq_ok hfrom
        have htarget := stat_eq_ok hto
        cases atFrom with
        | none =>
          cases atTo with
          | none => exact .refused _
          | some _ =>
            refine .already (.inr ⟨by simpa using hsource.symm, ?_⟩)
            simpa using congrArg Option.isSome htarget.symm
        | some ref =>
          cases atTo with
          | some _ => exact .refused _
          | none =>
            obtain ⟨object, hobject, -⟩ := Option.map_eq_some_iff.mp hsource.symm
            have habsent : atTarget p objects = none := by simpa using htarget.symm
            exact relocateCase_copy hplace hobject habsent

theorem set_self {name : String} {path : RemotePath} {object : Option (RemoteObject Bytes)} :
    objects.set name path object name path = object :=
  if_pos ⟨rfl, rfl⟩

theorem set_elsewhere {name name' : String} {path path' : RemotePath}
    {object : Option (RemoteObject Bytes)} (hne : ¬ (name' = name ∧ path' = path)) :
    objects.set name path object name' path' = objects name' path' :=
  if_neg hne

variable (p) in
/-- How far a relocation has got on the remotes, and whether the operation says so. -/
inductive Progress (start objects : Objects Bytes) : Bool → Prop where
  | untouched (source : atSource p objects = atSource p start)
      (target : atTarget p objects = atTarget p start) : Progress start objects false
  | copied (object : RemoteObject Bytes) (newFileId : Option String)
      (sourceBefore : atSource p start = some object) (targetBefore : atTarget p start = none)
      (bytes : object.isNativeFormat = false)
      (source : atSource p objects = some object)
      (target : atTarget p objects = some ⟨object.bytes, false, newFileId⟩)
      (sourceCopied : Bool) : Progress start objects sourceCopied
  | moved (object object' : RemoteObject Bytes)
      (sourceBefore : atSource p start = some object) (targetBefore : atTarget p start = none)
      (source : atSource p objects = none) (target : atTarget p objects = some object')
      (bytes : object'.bytes = object.bytes) (sourceCopied : Bool) :
      Progress start objects sourceCopied

variable (p) in
structure Landed (start objects : Objects Bytes) : Prop where
  content : ∀ object, atSource p start = some object ∨ atTarget p start = some object →
    ∃ object', atTarget p objects = some object' ∧ object'.bytes = object.bytes
  gone : ¬ SamePlace p → atSource p objects = none
  there : ¬ SamePlace p → (atTarget p objects).isSome

theorem landed_of_moved {object' : RemoteObject Bytes} {start : Objects Bytes}
    (sourceBefore : atSource p start = some object) (targetBefore : atTarget p start = none)
    (source : atSource p objects = none) (target : atTarget p objects = some object')
    (bytes : object'.bytes = object.bytes) : Landed p start objects where
  content o ho := by
    rcases ho with ho | ho
    · obtain rfl := Option.some.inj (sourceBefore.symm.trans ho)
      exact ⟨object', target, bytes⟩
    · rw [targetBefore] at ho
      cases ho
  gone _ := source
  there _ := by rw [target]; rfl

variable (source : atSource p objects = some object)

include source

theorem not_samePlace_of_source (target : atTarget p objects = none) : ¬ SamePlace p := by
  rintro ⟨hname, hpath⟩
  rw [atSource, hname, hpath] at source
  rw [atTarget, source] at target
  cases target

theorem renamed_places (target : atTarget p objects = none) :
    atSource p (renamed p objects) = none ∧ atTarget p (renamed p objects) = some object := by
  have hplace := not_samePlace_of_source source target
  refine ⟨set_self, ?_⟩
  rw [renamed, atTarget, set_elsewhere fun h => hplace ⟨h.1.symm, h.2.symm⟩, set_self, source]

theorem copied_places (target : atTarget p objects = none) :
    atSource p (copied answers p objects) = some object ∧
      atTarget p (copied answers p objects) = some ⟨object.bytes, false, answers.newFileId⟩ := by
  have hplace := not_samePlace_of_source source target
  refine ⟨?_, ?_⟩
  · rw [copied, atSource, set_elsewhere hplace]
    exact source
  · rw [copied, atTarget, set_self, source]
    rfl

omit source

theorem sourceRemoved_places (hplace : ¬ SamePlace p) :
    atSource p (sourceRemoved p objects) = none ∧
      atTarget p (sourceRemoved p objects) = atTarget p objects :=
  ⟨set_self, set_elsewhere fun h => hplace ⟨h.1.symm, h.2.symm⟩⟩

theorem RelocateCase.progress {effects : List (Effect (Store Bytes))}
    {result : Except (SubStep × String) RelocateStatus}
    (h : RelocateCase answers p s.objects effects result) :
    Throughout (fun t => Progress p s.objects t.objects false) effects s ∧
      (∀ status, result = .ok status → Landed p s.objects (perform effects s).objects) ∧
        ∀ message, result = .error (.deleteSource, message) →
          Progress p s.objects (perform effects s).objects true := by
  cases h with
  | already there =>
    refine ⟨.untouched rfl rfl, fun _ _ => ⟨fun object hobject => ?_, fun hplace => ?_,
      fun hplace => ?_⟩, fun _ h => ?_⟩
    · rcases there with ⟨hname, hpath⟩ | ⟨hsource, -⟩
      · refine ⟨object, ?_, rfl⟩
        rcases hobject with hobject | hobject
        · rw [atSource, hname, hpath] at hobject
          exact hobject
        · exact hobject
      · rcases hobject with hobject | hobject
        · rw [hsource] at hobject
          cases hobject
        · exact ⟨object, hobject, rfl⟩
    · rcases there with hsame | ⟨hsource, -⟩
      · exact absurd hsame hplace
      · exact hsource
    · rcases there with hsame | ⟨-, htarget⟩
      · exact absurd hsame hplace
      · exact htarget
    · cases h
  | refused message =>
    refine ⟨.untouched rfl rfl, fun _ h => ?_, fun _ h => ?_⟩
    · cases h
    · cases h
  | renamed object source target places result answered =>
    obtain ⟨hgone, hthere⟩ := renamed_places source target
    refine ⟨⟨.untouched rfl rfl, .moved object object source target hgone hthere rfl false⟩,
      fun _ _ => landed_of_moved source target hgone hthere rfl, fun message h => ?_⟩
    rcases answered with rfl | ⟨_, rfl⟩
    · cases h
    · cases h
  | copied object source target bytes remotes failed =>
    obtain ⟨hkept, hthere⟩ : _ ∧ atTarget p (CrashSafety.copied answers p s.objects) = _ :=
      copied_places source target
    refine ⟨⟨.untouched rfl rfl, .copied object _ source target bytes hkept hthere false⟩,
      fun _ h => ?_, fun _ _ => .copied object _ source target bytes hkept hthere true⟩
    cases h
  | copiedAndRemoved object source target bytes remotes result answered =>
    obtain ⟨hkept, hthere⟩ : _ ∧ atTarget p (CrashSafety.copied answers p s.objects) = _ :=
      copied_places source target
    obtain ⟨hgone, hstill⟩ : atSource p (sourceRemoved p _) = none ∧ _ :=
      sourceRemoved_places (not_samePlace_of_source source target)
    rw [hthere] at hstill
    refine ⟨⟨.untouched rfl rfl, .copied object _ source target bytes hkept hthere false,
        .moved object _ source target hgone hstill rfl false⟩,
      fun _ _ => landed_of_moved source target hgone hstill rfl,
      fun _ _ => .moved object _ source target hgone hstill rfl true⟩

end

open CentralRetry (RemoteObject Objects CallAnswer OpsKeyed)
open FileOps Files Files.Database Library.Stops PendingOps RemoteSweep RemoteWatch Tombstones

universe u

variable {Bytes : Type u}

/-- The intent is about the record as it stands, and `set` brings it to the target. -/
structure Intent.Sound (i : Intent) (db : Database) : Prop where
  row : db.fileById i.row.id = some i.row
  name : i.row.remoteName = some i.p.fromRemoteName
  path : i.row.remotePath = some i.p.fromRemotePath
  fresh : i.p.sourceCopied = false
  set : ∀ r, (i.set r).id = r.id ∧ (i.set r).remotePath = some i.p.toRemotePath
  setName : (i.set i.row).remoteName = some i.p.toRemoteName

structure IsOp (i : Intent) (id : ℕ) (sourceCopied : Bool) (op : PendingOpRow) : Prop where
  id : op.id = id
  nodeId : op.nodeId = i.row.nodeId
  fileId : op.fileId = i.row.id
  payload : op.payload = .move i.p.fromRemoteName i.p.fromRemotePath i.p.toRemoteName
    i.p.toRemotePath i.toNodeId i.filename sourceCopied

def AtTarget (i : Intent) (r : FileRow) : Prop :=
  r.remoteName = some i.p.toRemoteName ∧ r.remotePath = some i.p.toRemotePath

structure Underway (i : Intent) (start s : Store Bytes) (sourceCopied : Bool) : Prop where
  op : ∃ op, s.db.pendingOps = start.db.pendingOps ++ [op] ∧ IsOp i start.db.nextId sourceCopied op
  record : ∃ r, s.db.fileById i.row.id = some r ∧ (r = i.row ∨ AtTarget i r)
  keyed : s.db.Keyed
  progress : Progress i.p start.objects s.objects sourceCopied

structure Arrived (i : Intent) (start s : Store Bytes) : Prop where
  ops : s.db.pendingOps = start.db.pendingOps
  record : ∃ r, s.db.fileById i.row.id = some r ∧ AtTarget i r
  keyed : s.db.Keyed
  landed : Landed i.p start.objects s.objects
  log : s.db.auditLog = start.db.auditLog ++ i.audits

variable {server : SyncServer Bytes} {answers : Answers} {i : Intent} {s start : Store Bytes}
  {sourceCopied : Bool}

theorem keyed_enqueuePendingOp {db : Database} {userId nodeId : String} {fileId : ℕ}
    {payload : PendingOp} (keyed : db.Keyed) :
    (enqueuePendingOp db userId nodeId fileId payload).1.Keyed :=
  ((Grows.refl db).enqueuePendingOp rfl).keyed keyed

theorem underway_enqueue (sound : i.Sound s.db) (keyed : s.db.Keyed) :
    Underway i s (i.enqueue server s) false where
  op := ⟨_, rfl, rfl, rfl, rfl, rfl⟩
  record := ⟨i.row, sound.row, .inl rfl⟩
  keyed := keyed_enqueuePendingOp keyed
  progress := .untouched rfl rfl

variable (underway : Underway i start s sourceCopied)

include underway

theorem Underway.onDb {write : Database → Database}
    (hops : (write s.db).pendingOps = s.db.pendingOps) (hkeyed : (write s.db).Keyed)
    (hrecord : ∃ r, (write s.db).fileById i.row.id = some r ∧ (r = i.row ∨ AtTarget i r)) :
    Underway i start (CrashSafety.onDb write s) sourceCopied where
  op := by
    obtain ⟨op, hop, isOp⟩ := underway.op
    exact ⟨op, hops.trans hop, isOp⟩
  record := hrecord
  keyed := hkeyed
  progress := underway.progress

theorem Underway.insertAudit (row : AuditRow) :
    Underway i start (CrashSafety.onDb (Database.insertAudit · row) s) sourceCopied :=
  underway.onDb rfl ⟨underway.keyed.nodup, underway.keyed.lt⟩ underway.record

theorem Underway.update (ops : OpsKeyed start.db) {update : PendingOpRow → PendingOpRow}
    {sourceCopied' : Bool}
    (hupdate : ∀ op, IsOp i start.db.nextId sourceCopied op → IsOp i start.db.nextId sourceCopied'
      (update op)) (progress : Progress i.p start.objects s.objects sourceCopied') :
    Underway i start (CrashSafety.onDb (updatePendingOp · start.db.nextId update) s)
      sourceCopied' where
  op := by
    obtain ⟨op, hop, isOp⟩ := underway.op
    refine ⟨update op, ?_, hupdate op isOp⟩
    have hothers : start.db.pendingOps.map
        (fun o => if o.id = start.db.nextId then update o else o) = start.db.pendingOps :=
      (List.map_congr_left fun o ho => if_neg (ops o ho).ne).trans (List.map_id _)
    change s.db.pendingOps.map _ = _
    rw [hop, List.map_append, hothers, List.map_singleton, if_pos isOp.id]
  record := underway.record
  keyed := ⟨underway.keyed.nodup, underway.keyed.lt⟩
  progress := progress

omit underway

theorem isOp_sourceCopied {id : ℕ} {op : PendingOpRow} (isOp : IsOp i id sourceCopied op) :
    IsOp i id true { op with
        payload :=
          match op.payload with
          | .move fromName fromPath toName toPath toNode filename _ =>
            .move fromName fromPath toName toPath toNode filename true
          | payload => payload } where
  __ := isOp
  payload := by
    rw [isOp.payload]

theorem OnRemote.throughout_db {effects : List (Effect (Store Bytes))} (h : OnRemote effects) :
    Throughout (fun t => t.db = s.db) effects s := by
  induction effects generalizing s with
  | nil => rfl
  | cons effect rest ih =>
    obtain ⟨change, rfl⟩ := h effect List.mem_cons_self
    have hrest : Throughout (fun t => t.db = (onObjects change s).db) rest (onObjects change s) :=
      ih fun e he => h e (List.mem_cons_of_mem _ he)
    exact ⟨rfl, hrest⟩

theorem auditLog_writeRelocatedRecord {db : Database} {id : ℕ} {nodeId : String} {path : RemotePath}
    {set : FileRow → FileRow} :
    (writeRelocatedRecord db id nodeId path set).auditLog = db.auditLog := by
  unfold writeRelocatedRecord
  cases shadowOf db nodeId path id with
  | none => rfl
  | some shadow => rfl

theorem Intent.Sound.write (sound : i.Sound start.db) (underway : Underway i start s sourceCopied)
    (hrow : s.db.fileById i.row.id = some i.row) :
    Underway i start (CrashSafety.onDb i.write s) sourceCopied ∧
      ∃ r, (i.write s.db).fileById i.row.id = some r ∧ AtTarget i r := by
  have hid : ∀ r, (i.set r).id = r.id := fun r => (sound.set r).1
  have hwritten : (i.write s.db).fileById i.row.id = some (i.set i.row) := by
    rw [Intent.write, fileById_writeRelocatedRecord hid, hrow]
    rfl
  have htarget : AtTarget i (i.set i.row) := ⟨sound.setName, (sound.set i.row).2⟩
  refine ⟨underway.onDb writeRelocatedRecord_rest.1 ?_ ⟨_, hwritten, .inr htarget⟩,
    _, hwritten, htarget⟩
  exact ((Grows.refl s.db).writeRelocatedRecord hid).keyed underway.keyed

theorem throughout_audits (ops : OpsKeyed start.db) {audits : List AuditRow}
    (underway : Underway i start s sourceCopied)
    (hrecord : ∃ r, s.db.fileById i.row.id = some r ∧ AtTarget i r)
    (landed : Landed i.p start.objects s.objects)
    (hlog : s.db.auditLog ++ audits = start.db.auditLog ++ i.audits) :
    Throughout (fun t => (∃ sourceCopied, Underway i start t sourceCopied) ∨ Arrived i start t)
      ((audits.map (fun row => (Database.insertAudit · row)) ++
        [(completePendingOp · start.db.nextId)]).map onDb) s := by
  induction audits generalizing s with
  | nil =>
    refine ⟨.inl ⟨_, underway⟩, .inr ⟨?_, hrecord, ⟨underway.keyed.nodup, underway.keyed.lt⟩,
      landed, (List.append_nil s.db.auditLog).symm.trans hlog⟩⟩
    obtain ⟨op, hop, isOp⟩ := underway.op
    change s.db.pendingOps.filter _ = _
    rw [hop, List.filter_append, List.filter_eq_self.mpr fun o ho => by simpa using (ops o ho).ne]
    simp [isOp.id]
  | cons row rest ih =>
    refine ⟨.inl ⟨_, underway⟩, ih (underway.insertAudit row) hrecord landed ?_⟩
    change (s.db.auditLog ++ [row]) ++ rest = _
    rw [List.append_assoc]
    exact hlog

theorem Intent.Sound.throughout (sound : i.Sound s.db) (keyed : s.db.Keyed) (ops : OpsKeyed s.db) :
    Throughout (fun t => (∃ sourceCopied, Underway i s t sourceCopied) ∨
        Arrived i s t ∧ ∃ status, relocateResult server answers i.p s.objects = .ok status)
      (relocateEffects server answers i.p s.objects ++
        (i.statements s.db.nextId (relocateResult server answers i.p s.objects)).map onDb)
      (i.enqueue server s) := by
  have hbegun : Underway i s (i.enqueue server s) false := underway_enqueue sound keyed
  have hcase : RelocateCase answers i.p (i.enqueue server s).objects
      (relocateEffects server answers i.p s.objects)
      (relocateResult server answers i.p s.objects) := relocateCase sound.fresh
  obtain ⟨hprogress, hlanded, hcopied⟩ := hcase.progress
  have hremote := hprogress.and onRemote_relocateEffects.throughout_db
  have hunderway : Throughout (fun t => t.db = (i.enqueue server s).db ∧ Underway i s t false)
      (relocateEffects server answers i.p s.objects) (i.enqueue server s) :=
    hremote.mono fun t ht => ⟨ht.2, ht.2 ▸ hbegun.op, ht.2 ▸ hbegun.record, ht.2 ▸ hbegun.keyed,
      ht.1⟩
  refine throughout_append (hunderway.mono fun t ht => .inl ⟨_, ht.2⟩) ?_
  obtain ⟨hdb, hlast⟩ := hunderway.finish
  cases hresult : relocateResult server answers i.p s.objects with
  | error failure =>
    obtain ⟨subStep, message⟩ := failure
    cases subStep with
    | copy =>
      exact ⟨.inl ⟨_, hlast⟩, .inl ⟨_, hlast.update ops
        (fun op isOp => ⟨isOp.id, isOp.nodeId, isOp.fileId, isOp.payload⟩) hlast.progress⟩⟩
    | deleteSource =>
      have hmarked := hlast.update ops (fun op => isOp_sourceCopied) (hcopied message hresult)
      exact ⟨.inl ⟨_, hlast⟩, .inl ⟨_, hmarked⟩, .inl ⟨_, hmarked.update ops
        (fun op isOp => ⟨isOp.id, isOp.nodeId, isOp.fileId, isOp.payload⟩) hmarked.progress⟩⟩
  | ok status =>
    have hrow : (perform (relocateEffects server answers i.p s.objects)
        (i.enqueue server s)).db.fileById i.row.id = some i.row := by
      rw [hdb]
      exact sound.row
    obtain ⟨hwritten, hrecord⟩ := sound.write hlast hrow
    refine ⟨.inl ⟨_, hlast⟩, (throughout_audits ops hwritten hrecord (hlanded status hresult)
      ?_).mono fun t ht => ht.imp_right fun arrived => ⟨arrived, status, rfl⟩⟩
    change (i.write _).auditLog ++ _ = _
    rw [Intent.write, auditLog_writeRelocatedRecord, hdb]
    rfl

end Portuni.CrashSafety
