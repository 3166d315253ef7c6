import Portuni.CrashSafety.Recovery

/-!
A deletion that stopped anywhere, and what one retry makes of it.
-/

namespace Portuni.CrashSafety

open CentralRetry (RemoteObject Objects CallAnswer OpsKeyed)
open FileOps Files Files.Database Library.Stops PendingOps RemoteSweep Tombstones

universe u

variable {Bytes : Type u}

/-- The deletion is of the record as it stands, and its audit row tells of it. -/
structure Removal.Sound (d : Removal) (db : Database) : Prop where
  row : db.fileById d.row.id = some d.row
  node : d.nodeId = d.row.nodeId
  bound : d.bound = CentralRetry.bindingOf d.row
  audit : reads centralActions d.row.nodeId d.audit ∧ d.audit.fileId? = some d.row.id ∧
    d.audit.auditRemotePath = d.row.remotePath

structure IsRemovalOp (d : Removal) (name : String) (path : RemotePath) (id : ℕ)
    (op : PendingOpRow) : Prop where
  id : op.id = id
  nodeId : op.nodeId = d.nodeId
  fileId : op.fileId = d.row.id
  payload : op.payload = d.payload name path

def Unclaimed (fileId : ℕ) (name : String) (path : RemotePath) (db : Database) : Prop :=
  ∀ r ∈ db.files, r.id ≠ fileId → r.remoteName = some name → r.remotePath ≠ some path

structure RemovalUnderway (d : Removal) (name : String) (path : RemotePath)
    (start s : Store Bytes) : Prop where
  op : ∃ op, s.db.pendingOps = start.db.pendingOps ++ [op] ∧
    IsRemovalOp d name path start.db.nextId op
  record : s.db.fileById d.row.id = some d.row ∨ s.db.fileById d.row.id = none
  unclaimed : Unclaimed d.row.id name path s.db
  keyed : s.db.Keyed
  objects : s.objects name path = start.objects name path ∨ s.objects name path = none

structure RemovalArrived (d : Removal) (start s : Store Bytes) : Prop where
  ops : s.db.pendingOps = start.db.pendingOps
  record : s.db.fileById d.row.id = none
  keyed : s.db.Keyed
  objects : ∀ name path, d.bound = some (name, path) → s.objects name path = none
  log : s.db.auditLog = start.db.auditLog ++ [d.audit]

/-- The object and the record are gone, a tombstone tells of the path, and nothing is
pending for the file. -/
structure Removed (d : Removal) (after : Store Bytes) : Prop where
  objects : ∀ name path, d.bound = some (name, path) → after.objects name path = none
  record : after.db.fileById d.row.id = none
  tombstone : ∀ path, d.row.remotePath = some path →
    HasTombstone after.db d.row.nodeId path d.row.id
  done : ∀ op ∈ after.db.pendingOps, op.fileId ≠ d.row.id

/-- The object at the place is not the one that the deletion was aimed at. -/
def Foreign (server : SyncServer Bytes) (d : Removal) (objects : Objects Bytes) : Prop :=
  ∃ name path object, d.bound = some (name, path) ∧ objects name path = some object ∧
    ∃ message, assertTargetObject path d.row.currentRemoteHash d.row.hadObject
      (some (statRef server name object)) = .error message

variable {server : SyncServer Bytes} {answers : Answers} {d : Removal} {s start : Store Bytes}
  {name : String} {path : RemotePath}

theorem Removal.Sound.bound_path (sound : d.Sound start.db) (bound : d.bound = some (name, path)) :
    d.row.remoteName = some name ∧ d.row.remotePath = some path :=
  bindingOf_eq_some.mp (sound.bound ▸ bound)

theorem removalUnderway_enqueue (sound : d.Sound s.db) (keyed : s.db.Keyed)
    (unclaimed : Unclaimed d.row.id name path s.db) :
    RemovalUnderway d name path s (d.enqueue server name path s) where
  op := ⟨_, rfl, rfl, rfl, rfl, rfl⟩
  record := .inl sound.row
  unclaimed := unclaimed
  keyed := keyed_enqueuePendingOp keyed
  objects := .inl rfl

theorem deleteEffects_progress {objects : Objects Bytes} (hobjects : s.objects = objects) :
    Throughout (fun t : Store Bytes => t.objects name path = objects name path ∨
        t.objects name path = none) (deleteEffects server answers name path objects) s ∧
      (deleteResult server answers name path objects = .ok () →
        (perform (deleteEffects server answers name path objects) s).objects name path = none) := by
  subst hobjects
  unfold deleteEffects deleteResult
  cases hstat : stat server answers s.objects name path with
  | error message => exact ⟨.inl rfl, fun h => by cases h⟩
  | ok ref =>
    have href := stat_eq_ok hstat
    cases ref with
    | none => exact ⟨.inl rfl, fun _ => Option.map_eq_none_iff.mp href.symm⟩
    | some ref =>
      cases hdelete : answers.delete with
      | done => exact ⟨⟨.inl rfl, .inr set_self⟩, fun _ => set_self⟩
      | failed message tookEffect =>
        cases tookEffect with
        | false => exact ⟨.inl rfl, fun h => by cases h⟩
        | true => exact ⟨⟨.inl rfl, .inr set_self⟩, fun h => by cases h⟩

variable (underway : RemovalUnderway d name path start s)

include underway

theorem RemovalUnderway.onDb {write : Database → Database}
    (hops : (write s.db).pendingOps = s.db.pendingOps)
    (hfiles : ∀ r ∈ (write s.db).files, r ∈ s.db.files) (hkeyed : (write s.db).Keyed)
    (hrecord : (write s.db).fileById d.row.id = some d.row ∨ (write s.db).fileById d.row.id =
      none) :
    RemovalUnderway d name path start (CrashSafety.onDb write s) where
  op := by
    obtain ⟨op, hop, isOp⟩ := underway.op
    exact ⟨op, hops.trans hop, isOp⟩
  record := hrecord
  unclaimed r hr := underway.unclaimed r (hfiles r hr)
  keyed := hkeyed
  objects := underway.objects

theorem RemovalUnderway.insertAudit (row : AuditRow) :
    RemovalUnderway d name path start (CrashSafety.onDb (Database.insertAudit · row) s) :=
  underway.onDb rfl (fun _ hr => hr) ⟨underway.keyed.nodup, underway.keyed.lt⟩ underway.record

theorem RemovalUnderway.fail (ops : OpsKeyed start.db) (message : String) :
    RemovalUnderway d name path start
      (CrashSafety.onDb (failPendingOp · start.db.nextId message) s) where
  __ := underway
  op := by
    obtain ⟨op, hop, isOp⟩ := underway.op
    refine ⟨{ op with attempts := op.attempts + 1, lastError := some message }, ?_,
      isOp.id, isOp.nodeId, isOp.fileId, isOp.payload⟩
    have hothers : start.db.pendingOps.map (fun o => if o.id = start.db.nextId then
        { o with attempts := o.attempts + 1, lastError := some message } else o) =
          start.db.pendingOps :=
      (List.map_congr_left fun o ho => if_neg (ops o ho).ne).trans (List.map_id _)
    change s.db.pendingOps.map _ = _
    rw [hop, List.map_append, hothers, List.map_singleton, if_pos isOp.id]
  keyed := ⟨underway.keyed.nodup, underway.keyed.lt⟩

omit underway

theorem Removal.Sound.throughout (sound : d.Sound s.db) (keyed : s.db.Keyed)
    (ops : OpsKeyed s.db) (bound : d.bound = some (name, path))
    (unclaimed : Unclaimed d.row.id name path s.db) :
    Throughout (fun t => RemovalUnderway d name path s t ∨ RemovalArrived d s t)
      (deleteEffects server answers name path s.objects ++ (d.statements name path s.db.nextId
          (deleteResult server answers name path s.objects)).map onDb)
      (d.enqueue server name path s) := by
  have hbegun : RemovalUnderway d name path s (d.enqueue server name path s) :=
    removalUnderway_enqueue sound keyed unclaimed
  have hobjects : (d.enqueue server name path s).objects = s.objects := rfl
  have hremote := @deleteEffects_progress _ server answers _ name path _ hobjects
  have hunderway : Throughout (fun t => t.db = (d.enqueue server name path s).db ∧
      RemovalUnderway d name path s t)
      (deleteEffects server answers name path s.objects) (d.enqueue server name path s) :=
    (hremote.1.and onRemote_deleteEffects.throughout_db).mono fun t ht =>
      ⟨ht.2, ht.2 ▸ hbegun.op, ht.2 ▸ hbegun.record, ht.2 ▸ hbegun.unclaimed, ht.2 ▸ hbegun.keyed,
        ht.1⟩
  refine throughout_append (hunderway.mono fun t ht => .inl ht.2) ?_
  have hlast := And.intro hremote.2 hunderway.finish
  revert hlast
  generalize perform (deleteEffects server answers name path s.objects)
    (d.enqueue server name path s) = last
  rintro ⟨hgone, hdb, hlast⟩
  cases hresult : deleteResult server answers name path s.objects with
  | error message =>
    have hfailed := hlast.fail ops message
    exact ⟨.inl hlast, .inl hfailed, .inl (hfailed.insertAudit _)⟩
  | ok _ =>
    have hdeleted : RemovalUnderway d name path s
        (CrashSafety.onDb (Database.deleteFile · d.row.id) last) :=
      hlast.onDb rfl (fun r hr => (mem_deleteFile_iff.mp hr).1) hlast.keyed.deleteFile
        (.inr (fileById_deleteFile_self d.row.id))
    refine ⟨.inl hlast, .inl hdeleted, .inl (hdeleted.insertAudit d.audit), .inr ?_⟩
    refine ⟨?_, fileById_deleteFile_self d.row.id, ⟨hlast.keyed.deleteFile.nodup,
      hlast.keyed.deleteFile.lt⟩, fun name' path' hbound => ?_, ?_⟩
    · obtain ⟨op, hop, isOp⟩ := hlast.op
      change last.db.pendingOps.filter _ = _
      rw [hop, List.filter_append, List.filter_eq_self.mpr fun o ho => by simpa using (ops o ho).ne]
      simp [isOp.id]
    · obtain ⟨rfl, rfl⟩ := Prod.mk.inj (Option.some.inj (bound.symm.trans hbound))
      exact hgone hresult
    · change last.db.auditLog ++ [d.audit] = _
      rw [hdb]
      rfl

theorem forM_singleton {ε α : Type} (a : α) (f : α → Except ε Unit) : [a].forM f = f a := by
  change (f a >>= fun _ => pure ()) = f a
  cases f a with
  | error e => rfl
  | ok u => rfl

variable {id : ℕ} {op : PendingOpRow}

theorem checkPendingOp_of_isRemovalOp {db : Database} (isOp : IsRemovalOp d name path id op)
    (place : d.row.remoteName = some name ∧ d.row.remotePath = some path)
    (record : db.fileById d.row.id = some d.row ∨ db.fileById d.row.id = none)
    (unclaimed : Unclaimed d.row.id name path db) : checkPendingOp db op = .ok () := by
  simp only [checkPendingOp, isOp.payload, Removal.payload, isOp.fileId, assertRecordStillMatches]
  rcases record with hrow | hgone
  · simp [hrow, place.1, place.2]
  · have hfree : db.files.find? (fun r => r.remoteName = some name && r.remotePath = some path) =
        none := by
      refine List.find?_eq_none.mpr fun r hr hclaims => ?_
      simp only [Bool.and_eq_true, decide_eq_true_eq] at hclaims
      have hid : r.id ≠ d.row.id := by simpa using List.find?_eq_none.mp hgone r hr
      exact unclaimed r hr hid hclaims.1 hclaims.2
    simp only [hgone, forM_singleton, hfree]

variable (working : answers.Working)

include working

theorem retryOne_isRemovalOp (isOp : IsRemovalOp d name path id op)
    (hcheck : checkPendingOp s.db op = .ok ())
    (hassert : assertTargetObject path d.row.currentRemoteHash d.row.hadObject ((s.objects name
      path).map (statRef server name)) = .ok ()) :
    (retryOne server answers s op).objects name path = none ∧ (retryOne server answers s op).db =
        completePendingOp ((s.db.deleteFile op.fileId).insertAudit
          (retriedDeleteAudit op name path d.row.filename answers.now)) op.id := by
  have hparams : retryParams op = ⟨name, path, name, path, false⟩ := by
    simp [retryParams, isOp.payload, Removal.payload]
  have hstat : stat server answers s.objects name path = _ := stat_working working s.objects name path
  have hresult : deleteResult server answers name path s.objects = .ok () := by
    rw [deleteResult, hstat, working.delete]
    cases s.objects name path with
    | none => rfl
    | some object => rfl
  constructor
  · simp only [retryOne, retryEffects, hcheck, isOp.payload, Removal.payload, hstat, Except.bind,
      hassert]
    exact (deleteEffects_progress rfl).2 hresult
  · have hdelete : (worldFor server answers ⟨name, path, name, path, false⟩ s.objects).deleteObject =
        .ok () := hresult
    have hworld : (worldFor server answers ⟨name, path, name, path, false⟩ s.objects).stat =
        .ok ((s.objects name path).map (statRef server name)) := hstat
    simp only [retryOne]
    rw [retryPendingOp_eq, hcheck, hparams]
    simp only [finishPendingOp, executePendingOp, isOp.payload, Removal.payload, hworld, bind,
      Except.bind, hassert, hdelete]
    rfl

theorem retryOne_foreign {message : String} (isOp : IsRemovalOp d name path id op)
    (hassert : assertTargetObject path d.row.currentRemoteHash d.row.hadObject ((s.objects name
      path).map (statRef server name)) = .error message) :
    (retryOne server answers s op).objects = s.objects := by
  have hstat : stat server answers s.objects name path = _ := stat_working working s.objects name path
  simp only [retryOne, retryEffects]
  cases checkPendingOp s.db op with
  | error _ => rfl
  | ok _ =>
    simp only [isOp.payload, Removal.payload, hstat, Except.bind, hassert]
    rfl

theorem removed_of_retried (sound : d.Sound start.db) (bound : d.bound = some (name, path))
    (isOp : IsRemovalOp d name path id op) (hcheck : checkPendingOp s.db op = .ok ())
    (hassert : assertTargetObject path d.row.currentRemoteHash d.row.hadObject ((s.objects name
      path).map (statRef server name)) = .ok ())
    (hmine : ∀ o ∈ s.db.pendingOps, o.fileId = d.row.id → o.id = op.id) :
    Removed d (retryOne server answers s op) := by
  obtain ⟨hgone, hdb⟩ := retryOne_isRemovalOp working isOp hcheck hassert
  refine ⟨fun name' path' hbound => ?_, ?_, fun path' hpath' => ?_, ?_⟩
  · obtain ⟨rfl, rfl⟩ := Prod.mk.inj (Option.some.inj (bound.symm.trans hbound))
    exact hgone
  · rw [hdb, isOp.fileId]
    exact fileById_deleteFile_self d.row.id
  · obtain rfl := Option.some.inj ((sound.bound_path bound).2.symm.trans hpath')
    rw [hdb]
    refine ⟨_, List.mem_append_right _ (List.mem_singleton_self _), ?_, ?_, rfl⟩
    · have hnode : (retriedDeleteAudit op name path d.row.filename answers.now).auditNodeId =
          some op.nodeId := rfl
      simp only [reads, hnode, isOp.nodeId, sound.node]
      simp [retriedDeleteAudit, AuditRow.fileId?, centralActions, localActions]
    · exact congrArg some isOp.fileId
  · rw [hdb]
    intro o ho hfile
    obtain ⟨ho, hne⟩ := List.mem_filter.mp ho
    exact (of_decide_eq_true hne) (hmine o ho hfile)

theorem RemovalUnderway.recovered (sound : d.Sound start.db)
    (alone : Alone d.row.id d.nodeId [path] start.db) (bound : d.bound = some (name, path))
    (underway : RemovalUnderway d name path start s) :
    Removed d (retryAll server answers d.nodeId s) ∨
      Foreign server d s.objects ∧ ∀ object, start.objects name path = some object →
        (retryAll server answers d.nodeId s).objects name path = some object := by
  have hplace := sound.bound_path bound
  obtain ⟨op, hops, isOp⟩ := underway.op
  have hlist : listPendingOps s.db d.nodeId = listPendingOps start.db d.nodeId ++ [op] := by
    simp [listPendingOps, hops, isOp.nodeId]
  have hown : ∀ o ∈ s.db.pendingOps, o.fileId = d.row.id → o = op := fun o ho hfile => by
    rw [hops] at ho
    rcases List.mem_append.mp ho with ho | ho
    · exact absurd hfile (alone.file o ho)
    · exact List.mem_singleton.mp ho
  have hframe : Frame d.row.id [path] s
      ((listPendingOps start.db d.nodeId).foldl (retryOne server answers) s) := by
    refine frame_retryAll underway.keyed alone.unrelated (fun o ho hfile op' hop' => ?_)
      fun r hr => ⟨path, List.mem_singleton_self _, ?_⟩
    · rw [hown o ho hfile, isOp.id]
      exact (alone.ops op' (List.mem_filter.mp hop').1).ne'
    · rcases underway.record with hrow | hgone
      · obtain rfl := Option.some.inj (hr.symm.trans hrow)
        exact hplace.2
      · cases hr.symm.trans hgone
  rw [retryAll, hlist, List.foldl_append]
  revert hframe
  generalize (listPendingOps start.db d.nodeId).foldl (retryOne server answers) s = others
  intro hframe
  have hobject : others.objects name path = s.objects name path :=
    hframe.objects name path (List.mem_singleton_self _)
  have hunclaimed : Unclaimed d.row.id name path others.db := fun r' hr' hid hname hat => by
    obtain ⟨r, hr, hid', hname', hat'⟩ :=
      hframe.claims r' hr' hid path (List.mem_singleton_self _) hat
    exact underway.unclaimed r hr hid' (hname'.trans hname) hat'
  have hcheck : checkPendingOp others.db op = .ok () :=
    checkPendingOp_of_isRemovalOp isOp hplace (hframe.row ▸ underway.record) hunclaimed
  cases hassert : assertTargetObject path d.row.currentRemoteHash d.row.hadObject
      ((others.objects name path).map (statRef server name)) with
  | ok _ =>
    refine .inl (removed_of_retried working sound bound isOp hcheck hassert fun o ho hfile => ?_)
    have hmem : o ∈ others.db.pendingOps.filter (·.fileId = d.row.id) := by simp [ho, hfile]
    rw [hframe.ops] at hmem
    rw [hown o (List.mem_filter.mp hmem).1 hfile]
  | error message =>
    rw [hobject] at hassert
    have hkept := retryOne_foreign working isOp (hobject ▸ hassert)
    cases hfound : s.objects name path with
    | none =>
      rw [hfound] at hassert
      cases hassert
    | some found =>
      rw [hfound] at hassert
      refine .inr ⟨⟨name, path, found, bound, hfound, message, hassert⟩, ?_⟩
      intro object hobject'
      change (retryOne server answers others op).objects name path = _
      rw [hkept, hobject]
      rcases underway.objects with hsame | hgone
      · rw [hsame, hobject']
      · cases hfound.symm.trans hgone

omit working

variable {paths : List RemotePath}

theorem frame_gone {fileId : ℕ} {nodeId : String} (alone : Alone fileId nodeId paths start.db)
    (ops : s.db.pendingOps = start.db.pendingOps) (record : s.db.fileById fileId = none)
    (keyed : s.db.Keyed) : Frame fileId paths s (retryAll server answers nodeId s) := by
  have hlist : listPendingOps s.db nodeId = listPendingOps start.db nodeId := by
    rw [listPendingOps, ops]
    rfl
  rw [retryAll, hlist]
  refine frame_retryAll keyed alone.unrelated (fun o ho hfile => ?_) fun r hr => ?_
  · rw [ops] at ho
    exact absurd hfile (alone.file o ho)
  · cases hr.symm.trans record

theorem removed_of_gone (alone : Alone d.row.id d.nodeId paths start.db)
    (ops : s.db.pendingOps = start.db.pendingOps) (record : s.db.fileById d.row.id = none)
    (keyed : s.db.Keyed)
    (objects : ∀ name path, d.bound = some (name, path) → path ∈ paths ∧ s.objects name path = none)
    (told : ∀ path, d.row.remotePath = some path → HasTombstone s.db d.row.nodeId path d.row.id) :
    Removed d (retryAll server answers d.nodeId s) := by
  have hframe : Frame d.row.id paths s (retryAll server answers d.nodeId s) :=
    frame_gone alone ops record keyed
  refine ⟨fun name path hbound => ?_, hframe.row.trans record,
    fun path hpath => (hframe.tombstones _ _).mpr (told path hpath), fun o ho hfile => ?_⟩
  · obtain ⟨hpath, hnone⟩ := objects name path hbound
    rw [hframe.objects _ _ hpath, hnone]
  · have hmem : o ∈ (retryAll server answers d.nodeId s).db.pendingOps.filter
        (·.fileId = d.row.id) := by simp [ho, hfile]
    rw [hframe.ops, ops] at hmem
    exact alone.file o (List.mem_filter.mp hmem).1 hfile

theorem RemovalArrived.recovered (sound : d.Sound start.db)
    (alone : Alone d.row.id d.nodeId [path] start.db) (bound : d.bound = some (name, path))
    (arrived : RemovalArrived d start s) :
    Removed d (retryAll server answers d.nodeId s) := by
  refine removed_of_gone alone arrived.ops arrived.record arrived.keyed
    (fun name' path' hbound => ?_) fun path' hpath' => ⟨d.audit, ?_, sound.audit.1,
      sound.audit.2.1, sound.audit.2.2.trans hpath'⟩
  · obtain ⟨rfl, rfl⟩ := Prod.mk.inj (Option.some.inj (bound.symm.trans hbound))
    exact ⟨List.mem_singleton_self _, arrived.objects _ _ bound⟩
  · rw [arrived.log]
    exact List.mem_append_right _ (List.mem_singleton_self _)

end Portuni.CrashSafety
