import Portuni.FileOps.RemoteMutations
import Portuni.Tombstones.Readers

namespace Portuni.FileOps

/-!
What every operation keeps: it draws ids in order, adds no file record, and
only appends to the audit log.
-/

section

open Files Files.Database RemoteSweep RemoteWatch

universe u

/-- No record is added, ids are drawn in order, and the audit log is appended to. -/
structure Grows (db db' : Database) : Prop where
  ids : (db'.files.map (·.id)).Sublist (db.files.map (·.id))
  nextId : db.nextId ≤ db'.nextId
  log : db.auditLog <+: db'.auditLog

variable {Bytes : Type u} {db db' db'' : Database} {server : Server} {world : World} {id : ℕ}
  {nodeId : String} {path : RemotePath} {set : FileRow → FileRow}

theorem Grows.refl (db : Database) : Grows db db :=
  ⟨List.Sublist.refl _, Nat.le_refl _, List.prefix_refl _⟩

variable (h : Grows db db')

include h

theorem Grows.trans (h' : Grows db' db'') : Grows db db'' :=
  ⟨h'.ids.trans h.ids, Nat.le_trans h.nextId h'.nextId, h.log.trans h'.log⟩

theorem Grows.keyed (keyed : db.Keyed) : db'.Keyed where
  nodup := keyed.nodup.sublist h.ids
  lt := by
    intro r hr
    obtain ⟨r₀, hr₀, hid⟩ := List.mem_map.mp (h.ids.subset (List.mem_map_of_mem hr))
    rw [← hid]
    exact Nat.lt_of_lt_of_le (keyed.lt r₀ hr₀) h.nextId

theorem Grows.insertAudit {row : AuditRow} : Grows db (db'.insertAudit row) :=
  h.trans ⟨List.Sublist.refl _, Nat.le_refl _, List.prefix_append _ _⟩

theorem Grows.deleteFile : Grows db (db'.deleteFile id) :=
  h.trans ⟨List.filter_sublist.map _, Nat.le_refl _, List.prefix_refl _⟩

theorem Grows.enqueuePendingOp {userId : String} {payload : PendingOp} {pendingOpId : ℕ}
    (henqueue : FileOps.enqueuePendingOp db' userId nodeId id payload = (db'', pendingOpId)) :
    Grows db db'' := by
  obtain rfl := congrArg Prod.fst henqueue
  exact h.trans ⟨List.Sublist.refl _, Nat.le_succ _, List.prefix_refl _⟩

theorem Grows.completePendingOp : Grows db (FileOps.completePendingOp db' id) :=
  h.trans ⟨List.Sublist.refl _, Nat.le_refl _, List.prefix_refl _⟩

theorem Grows.failPendingOp {error : String} : Grows db (FileOps.failPendingOp db' id error) :=
  h.trans ⟨List.Sublist.refl _, Nat.le_refl _, List.prefix_refl _⟩

theorem Grows.markPendingMoveSourceCopied : Grows db (FileOps.markPendingMoveSourceCopied db' id) :=
  h.trans ⟨List.Sublist.refl _, Nat.le_refl _, List.prefix_refl _⟩

theorem Grows.updateFile (hset : ∀ r, (set r).id = r.id) : Grows db (db'.updateFile id set) := by
  refine h.trans ⟨?_, Nat.le_refl _, List.prefix_refl _⟩
  rw [map_id_updateFile hset]

theorem Grows.dropShadow {shadow : Option ℕ} : Grows db (db'.dropShadow shadow) := by
  cases shadow with
  | none => exact h
  | some s => exact h.deleteFile

theorem Grows.writeRelocatedRecord (hset : ∀ r, (set r).id = r.id) :
    Grows db (FileOps.writeRelocatedRecord db' id nodeId path set) :=
  h.dropShadow.updateFile hset

theorem Grows.writeMove (plan : MovePlan) : Grows db (plan.write db') :=
  h.writeRelocatedRecord fun _ => rfl

theorem Grows.writeRename (plan : RenamePlan) : Grows db (plan.write db') :=
  h.writeRelocatedRecord fun _ => rfl

theorem Grows.moveFileLocalOnly (plan : MovePlan) :
    Grows db (FileOps.moveFileLocalOnly server world db' plan).1 := by
  unfold FileOps.moveFileLocalOnly
  split
  · exact h
  · exact (h.writeMove _).insertAudit

theorem Grows.moveFileRouted (plan : MovePlan) :
    Grows db (FileOps.moveFileRouted server world db' plan).1 := by
  unfold FileOps.moveFileRouted
  split
  rename_i henqueue
  have henqueued := h.enqueuePendingOp henqueue
  split
  · split
    · exact henqueued.markPendingMoveSourceCopied.failPendingOp
    · exact henqueued.failPendingOp
  · split
    · exact ((henqueued.writeMove _).insertAudit.insertAudit).completePendingOp
    · exact ((henqueued.writeMove _).insertAudit).completePendingOp

omit h

theorem grows_moveFile (a : MoveFileArgs) : Grows db (moveFile server world db a).1 := by
  unfold moveFile
  split
  · exact .refl db
  · split
    · exact .refl db
    · split
      · exact (Grows.refl db).moveFileLocalOnly _
      · exact (Grows.refl db).moveFileRouted _

theorem Grows.finishRename (h : Grows db db') (plan : RenamePlan) :
    Grows db (FileOps.finishRename server world db' plan).1 := by
  unfold FileOps.finishRename
  split
  split
  · exact (h.writeRename _).insertAudit
  · exact (h.writeRename _).insertAudit

theorem grows_renameFile (name : String) : Grows db (renameFile server world db id name).1 := by
  unfold renameFile
  split
  · exact .refl db
  · split
    · exact (Grows.refl db).finishRename _
    · simp only
      split
      · exact ((Grows.refl db).enqueuePendingOp rfl).failPendingOp
      · exact (((Grows.refl db).enqueuePendingOp rfl).finishRename _).completePendingOp

theorem Grows.finishFolderFile (h : Grows db db') (f : FolderFile) :
    Grows db (FileOps.finishFolderFile server world db' nodeId f).1 := by
  unfold FileOps.finishFolderFile
  have hwritten : Grows db (FileOps.writeRelocatedRecord db' f.fileId nodeId f.newRemotePath fun r =>
      { r with remotePath := some f.newRemotePath }) :=
    h.writeRelocatedRecord fun _ => rfl
  split
  simp only
  split
  · exact hwritten.insertAudit
  · exact hwritten.insertAudit

theorem grows_renameFolderFile (f : FolderFile) :
    Grows db (renameFolderFile server world db nodeId f).1 := by
  unfold renameFolderFile
  split
  · exact (Grows.refl db).finishFolderFile f
  · split
    · exact .refl db
    · split
      rename_i henqueue
      have henqueued := (Grows.refl db).enqueuePendingOp henqueue
      split
      · exact henqueued.failPendingOp
      · exact (henqueued.finishFolderFile f).completePendingOp

theorem Grows.finishDelete (h : Grows db db') {r : FileRow} {complete : Bool} :
    Grows db (FileOps.finishDelete server world db' r complete) :=
  h.deleteFile.insertAudit

theorem grows_deleteFile (a : DeleteFileArgs) : Grows db (deleteFile server world db a).1 := by
  unfold deleteFile
  split
  · exact .refl db
  · split
    · exact .refl db
    · simp only
      split
      · split
        · exact ((Grows.refl db).enqueuePendingOp rfl).failPendingOp.insertAudit
        · exact ((Grows.refl db).enqueuePendingOp rfl).finishDelete.completePendingOp
      · exact (Grows.refl db).finishDelete

theorem grows_renameFileRemote (name : String) :
    Grows db (renameFileRemote server world db id name).1 := by
  unfold renameFileRemote
  split
  · exact .refl db
  · simp only
    split
    · exact ((Grows.refl db).enqueuePendingOp rfl).failPendingOp
    · exact ((((Grows.refl db).enqueuePendingOp rfl).writeRename _).insertAudit).completePendingOp

theorem grows_deleteFileRemote (a : DeleteFileRemoteArgs) :
    Grows db (deleteFileRemote server world db a).1 := by
  unfold deleteFileRemote
  split
  · split
    · exact .refl db
    · exact .refl db
  · simp only
    split
    · exact .refl db
    · split
      · split
        · exact ((Grows.refl db).enqueuePendingOp rfl).failPendingOp.insertAudit
        · exact ((Grows.refl db).enqueuePendingOp rfl).deleteFile.insertAudit.completePendingOp
      · exact (Grows.refl db).deleteFile.insertAudit

variable {op : PendingOpRow} {toNodeId filename : String}

theorem runMove_eq_ok {p : RelocateParams} (h : runMove world db op p toNodeId filename = .ok db') :
    assertRecordStillMatches db op.fileId
        [(p.fromRemoteName, p.fromRemotePath), (p.toRemoteName, p.toRemotePath)] = .ok () ∧
      db' = (writeRelocatedRecord db op.fileId toNodeId p.toRemotePath fun r =>
        { r with remoteName := some p.toRemoteName, remotePath := some p.toRemotePath,
                 nodeId := toNodeId, filename := filename }).insertAudit
          (retriedMoveAudit op p world.now) := by
  unfold runMove at h
  cases hmatch : assertRecordStillMatches db op.fileId
      [(p.fromRemoteName, p.fromRemotePath), (p.toRemoteName, p.toRemotePath)] with
  | error message => simp [hmatch, bind, Except.bind] at h
  | ok _ =>
    simp only [hmatch, bind, Except.bind] at h
    split at h
    · cases h
    · exact ⟨rfl, (Except.ok.inj h).symm⟩

theorem grows_runMove {p : RelocateParams} (h : runMove world db op p toNodeId filename = .ok db') :
    Grows db db' := by
  obtain ⟨-, rfl⟩ := runMove_eq_ok h
  refine Grows.insertAudit (Grows.writeRelocatedRecord (Grows.refl db) ?_)
  exact fun _ => rfl

theorem runDelete_eq_ok {op : PendingOpRow} {remoteName filename : String}
    {expectedHash : Option String} {expectedRemoteObject : Bool}
    (h : runDelete world db op remoteName path filename expectedHash expectedRemoteObject =
      .ok db') :
    assertRecordStillMatches db op.fileId [(remoteName, path)] = .ok () ∧
      db' = (db.deleteFile op.fileId).insertAudit
        (retriedDeleteAudit op remoteName path filename world.now) := by
  unfold runDelete at h
  cases hmatch : assertRecordStillMatches db op.fileId [(remoteName, path)] with
  | error message => simp [hmatch, bind, Except.bind] at h
  | ok _ =>
    simp only [hmatch, bind, Except.bind] at h
    rcases hstat : world.stat with message | current
    · simp [hstat] at h
    · simp only [hstat] at h
      rcases htarget : assertTargetObject path expectedHash expectedRemoteObject current with
        message | _
      · simp [htarget] at h
      · simp only [htarget] at h
        rcases hdelete : world.deleteObject with message | _
        · simp [hdelete] at h
        · simp only [hdelete] at h
          exact ⟨rfl, (Except.ok.inj h).symm⟩

theorem grows_retryPendingOp (op : PendingOpRow) : Grows db (retryPendingOp world db op).1 := by
  unfold retryPendingOp
  split
  · rename_i repaired h
    refine Grows.completePendingOp ?_
    unfold runPendingOp at h
    split at h
    · exact grows_runMove h
    · obtain ⟨-, rfl⟩ := runDelete_eq_ok h
      exact (Grows.refl db).deleteFile.insertAudit
  · exact (Grows.refl db).failPendingOp

theorem grows_deleteRemovedRecord (call : Call Bytes) (r : FileRow) :
    Grows db ((deleteRemovedRecords call nodeId [r]).statements.foldl Database.apply db) := by
  simp only [deleteRemovedRecords]
  rcases confirmRemoved call r with message | _ | _
  · exact .refl db
  · exact .refl db
  · exact (Grows.refl db).deleteFile.insertAudit

theorem grows_relocateWatchedRecord (call : Call Bytes) (r : FileRow) :
    Grows db ((relocateWatchedRecord call db nodeId path r).foldl Database.apply db) := by
  refine @Grows.insertAudit db _ ?_ (relocationAudit call nodeId path r)
  refine Grows.updateFile (Grows.dropShadow (Grows.refl db)) ?_
  exact fun _ => rfl

theorem FileStep.grows (s : FileStep Bytes) (db : Database) : Grows db (s.perform db) := by
  cases s with
  | moveFile server world a => exact grows_moveFile a
  | renameFile server world fileId name => exact grows_renameFile name
  | renameFolderFile server world nodeId f => exact grows_renameFolderFile f
  | deleteFile server world a => exact grows_deleteFile a
  | renameFileRemote server world fileId name => exact grows_renameFileRemote name
  | deleteFileRemote server world a => exact grows_deleteFileRemote a
  | deleteRemovedRecord call nodeId r => exact grows_deleteRemovedRecord call r
  | relocateWatchedRecord call nodeId path r => exact grows_relocateWatchedRecord call r
  | retryPendingOp world op => exact grows_retryPendingOp op

theorem grows_performSteps (steps : List (FileStep Bytes)) (db : Database) :
    Grows db (performSteps db steps) := by
  induction steps generalizing db with
  | nil => exact Grows.refl db
  | cons s rest ih => exact (s.grows db).trans (ih (s.perform db))

theorem grows_insertAudits (rows : List AuditRow) (db : Database) :
    Grows db (rows.foldl Database.insertAudit db) := by
  induction rows generalizing db with
  | nil => exact Grows.refl db
  | cons row rest ih => exact ((Grows.refl db).insertAudit).trans (ih _)

theorem Operation.grows (op : Operation Bytes) (db : Database) : Grows db (op.perform db) :=
  (grows_performSteps _ db).trans (grows_insertAudits _ _)

end

open Files Files.Database RemoteSweep RemoteWatch Tombstones

universe u

/-- The file's record stood at the path of the node and left it. (A row that is
folded into the one that takes its path does not leave it.) -/
structure TakenOff (before after : List FileRow) (nodeId : String) (path : RemotePath)
    (fileId : ℕ) : Prop where
  stood : ∃ r ∈ before, r.id = fileId ∧ r.nodeId = nodeId ∧ r.remotePath = some path
  left : ∀ r ∈ after, r.id = fileId → r.remotePath ≠ some path
  notFolded : (∃ r ∈ after, r.id = fileId) ∨
    ∀ r ∈ after, r.nodeId = nodeId → r.remotePath ≠ some path

/-- The audit row says that the file left the path, in the terms of both readers. -/
structure TellsOf (row : AuditRow) (now : ℕ) (nodeId : String) (path : RemotePath)
    (fileId : ℕ) : Prop where
  timestamp : row.timestamp = now
  file : row.fileId? = some fileId
  action : row.action ∈ localActions
  node : row.auditNodeId = some nodeId
  path : row.auditRemotePath = some path

/-- Every path the record may have is the new one, or the row tells of it. -/
def TellsOfLeaving (row : AuditRow) (now : ℕ) (db : Database) (id : ℕ)
    (newPath : Option RemotePath) : Prop :=
  ∀ r ∈ db.files, r.id = id → ∀ path, r.remotePath = some path →
    newPath = some path ∨ TellsOf row now r.nodeId path id

/-- What a step can do to the `files` table: nothing, relocate one record with a
tombstone, or delete one with a tombstone. -/
inductive StepOutcome (now : ℕ) (db db' : Database) : Prop where
  | untouched (files : db'.files = db.files)
  | relocated (id : ℕ) (toNode : String) (newPath : RemotePath) (set : FileRow → FileRow)
      (row : AuditRow)
      (files : db'.files = (writeRelocatedRecord db id toNode newPath set).files)
      (log : row ∈ db'.auditLog)
      (lands : ∀ r, (set r).id = r.id ∧ (set r).remotePath = some newPath)
      (node : ∀ r ∈ db.files, r.id = id → (set r).nodeId = toNode)
      (subject : (∃ r ∈ db.files, r.id = id) ∨ shadowOf db toNode newPath id = none)
      (tombstone : TellsOfLeaving row now db id (some newPath))
  | deleted (id : ℕ) (row : AuditRow)
      (files : db'.files = (db.deleteFile id).files)
      (log : row ∈ db'.auditLog)
      (tombstone : TellsOfLeaving row now db id none)

variable {Bytes : Type u} {db db' : Database} {server : Server} {world : World} {id : ℕ}
  {nodeId toNode : String} {path newPath : RemotePath} {set : FileRow → FileRow} {now : ℕ}
  {row : AuditRow}

theorem not_takenOff_self {files : List FileRow} (h : TakenOff files files nodeId path id) :
    False := by
  obtain ⟨r, hr, hid, -, hpath⟩ := h.stood
  exact h.left r hr hid hpath

variable {fileId : ℕ}

theorem takenOff_delete (h : TakenOff db.files (db.deleteFile id).files nodeId path fileId) :
    fileId = id := by
  obtain ⟨r, hr, hid, -, hpath⟩ := h.stood
  by_contra hne
  refine h.left r (mem_deleteFile_iff.mpr ⟨hr, fun h' => hne ?_⟩) hid hpath
  rw [← hid, h']

theorem takenOff_relocate (keyed : db.Keyed)
    (lands : ∀ r, (set r).id = r.id ∧ (set r).remotePath = some newPath)
    (node : ∀ r ∈ db.files, r.id = id → (set r).nodeId = toNode)
    (subject : (∃ r ∈ db.files, r.id = id) ∨ shadowOf db toNode newPath id = none) {fileId : ℕ}
    (h : TakenOff db.files (writeRelocatedRecord db id toNode newPath set).files nodeId path fileId) :
    fileId = id := by
  obtain ⟨r, hr, rfl, hnode, hpath⟩ := h.stood
  by_contra hne
  cases hshadow : shadowOf db toNode newPath id with
  | none =>
    refine h.left r (mem_updateFile_iff.mpr ⟨r, ?_, if_neg hne⟩) rfl hpath
    rw [hshadow]
    exact hr
  | some s =>
    obtain ⟨r₀, hfind, rfl⟩ := Option.map_eq_some_iff.mp hshadow
    have hr₀ := List.mem_of_find?_eq_some hfind
    have hstands := List.find?_some hfind
    simp only [Bool.and_eq_true, decide_eq_true_eq] at hstands
    obtain ⟨⟨hnode₀, hpath₀⟩, hid₀⟩ := hstands
    by_cases hsame : r.id = r₀.id
    · obtain rfl := keyed.unique hr hr₀ hsame
      obtain ⟨r₁, hr₁, hid₁⟩ : ∃ r₁ ∈ db.files, r₁.id = id := by
        rcases subject with h₁ | hnone
        · exact h₁
        · rw [hshadow] at hnone
          cases hnone
      have hlanded : set r₁ ∈ (writeRelocatedRecord db id toNode newPath set).files := by
        refine mem_updateFile_iff.mpr ⟨r₁, ?_, if_pos hid₁⟩
        rw [hshadow]
        exact mem_deleteFile_iff.mpr ⟨hr₁, fun h' => hid₀ (h'.symm.trans hid₁)⟩
      rcases h.notFolded with ⟨r₂, hr₂, hid₂⟩ | hvacant
      · obtain ⟨r₃, hr₃, rfl⟩ := mem_updateFile_iff.mp hr₂
        rw [hshadow] at hr₃
        refine (mem_deleteFile_iff.mp hr₃).2 ?_
        rw [← hid₂]
        split
        · exact (lands r₃).1.symm
        · rfl
      · refine hvacant (set r₁) hlanded ?_ ?_
        · rw [node r₁ hr₁ hid₁, ← hnode, hnode₀]
        · rw [(lands r₁).2, ← hpath, hpath₀]
    · refine h.left r (mem_updateFile_iff.mpr ⟨r, ?_, if_neg hne⟩) rfl hpath
      rw [hshadow]
      exact mem_deleteFile_iff.mpr ⟨hr, hsame⟩

theorem StepOutcome.tellsOf (keyed : db.Keyed) (outcome : StepOutcome now db db')
    (h : TakenOff db.files db'.files nodeId path fileId) :
    ∃ row ∈ db'.auditLog, TellsOf row now nodeId path fileId := by
  cases outcome with
  | untouched files =>
    rw [files] at h
    exact (not_takenOff_self h).elim
  | relocated id toNode newPath set row files log lands node subject tombstone =>
    rw [files] at h
    obtain rfl := takenOff_relocate keyed lands node subject h
    obtain ⟨r, hr, hid, rfl, hpath⟩ := h.stood
    rcases tombstone r hr hid path hpath with hsame | htells
    · obtain rfl := Option.some.inj hsame
      exfalso
      have hmem : set r ∈ (writeRelocatedRecord db fileId toNode newPath set).files := by
        refine mem_updateFile_iff.mpr ⟨r, ?_, if_pos hid⟩
        cases hshadow : shadowOf db toNode newPath fileId with
        | none => exact hr
        | some s =>
          obtain ⟨r₀, hfind, rfl⟩ := Option.map_eq_some_iff.mp hshadow
          have hstands := List.find?_some hfind
          simp only [Bool.and_eq_true, decide_eq_true_eq] at hstands
          exact mem_deleteFile_iff.mpr ⟨hr, fun h' => hstands.2 (h'.symm.trans hid)⟩
      exact h.left (set r) hmem ((lands r).1.trans hid) (lands r).2
    · exact ⟨row, log, htells⟩
  | deleted id row files log tombstone =>
    rw [files] at h
    obtain rfl := takenOff_delete h
    obtain ⟨r, hr, hid, rfl, hpath⟩ := h.stood
    rcases tombstone r hr hid path hpath with hsame | htells
    · cases hsame
    · exact ⟨row, log, htells⟩

end Portuni.FileOps
