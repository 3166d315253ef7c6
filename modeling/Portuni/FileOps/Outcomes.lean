import Portuni.FileOps.Grows

namespace Portuni.FileOps

/-! Each step's outcome, under what its tombstone relies on. -/

section

open Files Files.Database RemoteSweep RemoteWatch Tombstones

universe u

/-- What the tombstone of a step relies on: the node it names is the one its record
is under, and the record it works on is there, at the path it names. -/
def FileStep.Sound {Bytes : Type u} (db : Database) : FileStep Bytes → Prop
  | .moveFile .. => True
  | .renameFile .. => True
  | .deleteFile .. => True
  | .renameFolderFile _ _ nodeId f =>
    ∃ r ∈ db.files, r.id = f.fileId ∧ r.nodeId = nodeId ∧ r.remotePath = some f.oldRemotePath
  | .renameFileRemote .. => False
  | .deleteFileRemote _ _ a => ∀ r ∈ db.files, r.id = a.fileId → a.nodeId.getD r.nodeId = r.nodeId
  | .deleteRemovedRecord _ nodeId r => r ∈ db.files ∧ r.nodeId = nodeId
  | .relocateWatchedRecord _ _ _ r => r ∈ db.files
  | .retryPendingOp _ op =>
    match op.payload with
    | .move _ fromPath _ toPath toNodeId _ _ =>
      (∀ r ∈ db.files, r.id = op.fileId → r.remotePath = some fromPath → r.nodeId = op.nodeId) ∧
        ((∃ r ∈ db.files, r.id = op.fileId) ∨ shadowOf db toNodeId toPath op.fileId = none)
    | .delete .. => ∀ r ∈ db.files, r.id = op.fileId → r.nodeId = op.nodeId

variable {Bytes : Type u} {db db' : Database} {server : Server} {world : World} {id : ℕ}
  {nodeId : String} {path : RemotePath} {now : ℕ} {row : AuditRow} {r : FileRow}

theorem tellsOfLeaving_of (keyed : db.Keyed) (hr : r ∈ db.files) {newPath : Option RemotePath}
    (h : ∀ path, r.remotePath = some path → TellsOf row now r.nodeId path r.id) :
    TellsOfLeaving row now db r.id newPath := by
  intro r' hr' hid path hpath
  obtain rfl := keyed.unique hr' hr hid
  exact Or.inr (h path hpath)

theorem fileById_eq_some (h : db.fileById id = some r) : r ∈ db.files ∧ r.id = id :=
  ⟨List.mem_of_find?_eq_some h, by simpa using List.find?_some h⟩

theorem boundPath_eq_ok (h : boundPath server r = .ok path) : r.remotePath = some path := by
  unfold boundPath at h
  split at h
  · split at h
    · cases h
    · rename_i hpath _
      rw [hpath, Except.ok.inj h]
  · cases h

theorem boundRemote_eq_ok (h : boundRemote r = .ok path) : r.remotePath = some path := by
  unfold boundRemote at h
  split at h
  · rename_i hpath
    rw [hpath, Except.ok.inj h]
  · cases h

theorem planMove_eq_ok {a : MoveFileArgs} {plan : MovePlan} (h : planMove server db a = .ok plan) :
    plan.row ∈ db.files ∧ plan.row.id = a.fileId ∧
      plan.row.remotePath = some plan.oldRemotePath := by
  unfold planMove at h
  cases hrow : db.fileById a.fileId with
  | none => simp [hrow] at h
  | some row =>
    simp only [hrow, bind, Except.bind] at h
    split at h
    · cases h
    · rename_i oldPath hbound
      -- the checks that follow leave the row and its path as they are
      repeat' split at h
      all_goals first
        | (cases h; done)
        | (obtain rfl := Except.ok.inj h
           exact ⟨(fileById_eq_some hrow).1, (fileById_eq_some hrow).2, boundPath_eq_ok hbound⟩)

theorem planRename_eq_ok {bound : FileRow → Except String RemotePath} {name : String}
    {plan : RenamePlan} (hbound : ∀ r path, bound r = .ok path → r.remotePath = some path)
    (h : planRename db id name bound = .ok plan) :
    plan.row ∈ db.files ∧ plan.row.id = id ∧ plan.row.remotePath = some plan.oldRemotePath := by
  unfold planRename at h
  cases hrow : db.fileById id with
  | none =>
    simp only [hrow, bind, Except.bind] at h
    split at h
    · cases h
    · cases h
  | some row =>
    simp only [hrow, bind, Except.bind] at h
    split at h
    · cases h
    · split at h
      · cases h
      · rename_i oldPath hpath
        split at h
        · cases h
        · obtain rfl := Except.ok.inj h
          exact ⟨(fileById_eq_some hrow).1, (fileById_eq_some hrow).2, hbound _ _ hpath⟩

theorem tellsOf_moveAudit (plan : MovePlan) (hpath : plan.row.remotePath = some plan.oldRemotePath)
    (localError : Option String) (path : RemotePath) (h : plan.row.remotePath = some path) :
    TellsOf (moveAudit server plan localError now) now plan.row.nodeId path plan.row.id := by
  obtain rfl := Option.some.inj (hpath.symm.trans h)
  refine ⟨rfl, rfl, by simp [moveAudit, localActions], rfl, ?_⟩
  cases localError with
  | none => rfl
  | some message => rfl

theorem tellsOf_renameAudit (plan : RenamePlan)
    (hpath : plan.row.remotePath = some plan.oldRemotePath) (path : RemotePath)
    (h : plan.row.remotePath = some path) :
    TellsOf (renameAudit server plan now) now plan.row.nodeId path plan.row.id := by
  obtain rfl := Option.some.inj (hpath.symm.trans h)
  exact ⟨rfl, rfl, by simp [renameAudit, localActions], rfl, rfl⟩

theorem files_enqueuePendingOp {db'' : Database} {userId : String} {payload : PendingOp}
    {pendingOpId : ℕ} (h : enqueuePendingOp db userId nodeId id payload = (db'', pendingOpId)) :
    db''.files = db.files := by
  obtain rfl := congrArg Prod.fst h
  rfl

theorem writeRelocatedRecord_files {db'' : Database} {set : FileRow → FileRow}
    (h : db''.files = db.files) : (writeRelocatedRecord db'' id nodeId path set).files =
      (writeRelocatedRecord db id nodeId path set).files := by
  have hshadow : shadowOf db'' nodeId path id = shadowOf db nodeId path id := by
    unfold shadowOf
    rw [h]
  unfold writeRelocatedRecord
  rw [hshadow]
  cases shadowOf db nodeId path id with
  | none => simp only [dropShadow, updateFile, h]
  | some s => simp only [dropShadow, updateFile, Database.deleteFile, h]

theorem outcome_moved (keyed : db.Keyed) {plan : MovePlan} (hrow : plan.row ∈ db.files)
    (hpath : plan.row.remotePath = some plan.oldRemotePath) {localError : Option String}
    (written : MovePlan) (hwritten : written.row = plan.row)
    (hfiles : db'.files = (written.write db).files)
    (hlog : moveAudit server plan localError world.now ∈ db'.auditLog) :
    StepOutcome world.now db db' := by
  refine .relocated plan.row.id written.targetNodeId written.newRemotePath (fun r => { r with
      remoteName := written.newRemoteName, remotePath := some written.newRemotePath,
      nodeId := written.targetNodeId, filename := written.filename })
    (moveAudit server plan localError world.now) ?_ hlog (fun _ => ⟨rfl, rfl⟩) (fun _ _ _ => rfl)
    (Or.inl ⟨plan.row, hrow, rfl⟩) (tellsOfLeaving_of keyed hrow (tellsOf_moveAudit plan hpath _))
  rw [hfiles, ← hwritten]
  rfl

theorem outcome_moveFile (keyed : db.Keyed) (a : MoveFileArgs) :
    StepOutcome world.now db (moveFile server world db a).1 := by
  unfold moveFile
  cases hplan : planMove server db a with
  | error message => exact .untouched rfl
  | ok plan =>
    obtain ⟨hrow, -, hpath⟩ := planMove_eq_ok hplan
    simp only
    split
    · exact .untouched rfl
    · split
      · unfold moveFileLocalOnly
        split
        · exact .untouched rfl
        · exact outcome_moved keyed hrow hpath { plan with newRemoteName := none } rfl rfl
            (List.mem_append_right _ List.mem_cons_self)
      · unfold moveFileRouted
        split
        rename_i henqueue
        have hfiles := files_enqueuePendingOp henqueue
        split
        · split
          · exact .untouched hfiles
          · exact .untouched hfiles
        · split
          · exact outcome_moved keyed hrow hpath plan rfl (writeRelocatedRecord_files hfiles)
              (List.mem_append_right _ List.mem_cons_self)
          · exact outcome_moved keyed hrow hpath plan rfl (writeRelocatedRecord_files hfiles)
              (List.mem_append_right _ List.mem_cons_self)

theorem outcome_renamed (keyed : db.Keyed) {plan : RenamePlan} (hrow : plan.row ∈ db.files)
    (hpath : plan.row.remotePath = some plan.oldRemotePath)
    (hfiles : db'.files = (plan.write db).files)
    (hlog : renameAudit server plan world.now ∈ db'.auditLog) : StepOutcome world.now db db' := by
  refine .relocated plan.row.id plan.row.nodeId plan.newRemotePath _
    (renameAudit server plan world.now) hfiles hlog (fun _ => ⟨rfl, rfl⟩) (fun r hr hid => ?_)
    (Or.inl ⟨plan.row, hrow, rfl⟩) (tellsOfLeaving_of keyed hrow (tellsOf_renameAudit plan hpath))
  rw [keyed.unique hr hrow hid]

theorem finishRename_spec (plan : RenamePlan) : (finishRename server world db plan).1 =
      (plan.write db).insertAudit (renameAudit server plan world.now) := by
  unfold finishRename
  split
  split
  · rfl
  · rfl

theorem outcome_renameFile (keyed : db.Keyed) (name : String) :
    StepOutcome world.now db (renameFile server world db id name).1 := by
  unfold renameFile
  cases hplan : planRename db id name (boundPath server) with
  | error message => exact .untouched rfl
  | ok plan =>
    obtain ⟨hrow, -, hpath⟩ := planRename_eq_ok (fun _ _ => boundPath_eq_ok) hplan
    simp only
    split
    · rw [finishRename_spec]
      exact outcome_renamed keyed hrow hpath rfl (List.mem_append_right _ List.mem_cons_self)
    · split
      · exact .untouched rfl
      · simp only [finishRename_spec]
        have hfiles : (enqueuePendingOp db server.userId plan.row.nodeId plan.row.id
            (plan.payload (plan.row.remoteName.getD ""))).1.files = db.files := rfl
        exact outcome_renamed keyed hrow hpath (writeRelocatedRecord_files hfiles)
          (List.mem_append_right _ List.mem_cons_self)

theorem outcome_renameFolderFile (keyed : db.Keyed) (f : FolderFile)
    (sound : ∃ r ∈ db.files, r.id = f.fileId ∧ r.nodeId = nodeId ∧
      r.remotePath = some f.oldRemotePath) :
    StepOutcome world.now db (renameFolderFile server world db nodeId f).1 := by
  obtain ⟨r, hr, hid, rfl, hpath⟩ := sound
  have hrenamed : ∀ db' : Database,
      db'.files = (writeRelocatedRecord db f.fileId r.nodeId f.newRemotePath fun r =>
        { r with remotePath := some f.newRemotePath }).files →
      folderRenameAudit server r.nodeId f world.now ∈ db'.auditLog →
      StepOutcome world.now db db' := by
    intro db' hfiles hlog
    refine .relocated f.fileId r.nodeId f.newRemotePath _
      (folderRenameAudit server r.nodeId f world.now) hfiles hlog (fun _ => ⟨rfl, rfl⟩)
      (fun r' hr' hid' => ?_) (Or.inl ⟨r, hr, hid⟩) ?_
    · rw [keyed.unique hr' hr (hid'.trans hid.symm)]
    · rw [← hid]
      refine tellsOfLeaving_of keyed hr fun path h => ?_
      obtain rfl := Option.some.inj (hpath.symm.trans h)
      exact ⟨rfl, by simp [folderRenameAudit, AuditRow.fileId?, hid],
        by simp [folderRenameAudit, localActions], rfl, rfl⟩
  have hfinish : ∀ db'' : Database, (finishFolderFile server world db'' r.nodeId f).1 =
      (writeRelocatedRecord db'' f.fileId r.nodeId f.newRemotePath fun r =>
        { r with remotePath := some f.newRemotePath }).insertAudit
          (folderRenameAudit server r.nodeId f world.now) := by
    intro db''
    unfold finishFolderFile
    split
    simp only
    split
    · rfl
    · rfl
  unfold renameFolderFile
  split
  · rw [hfinish]
    exact hrenamed _ rfl (List.mem_append_right _ List.mem_cons_self)
  · split
    · exact .untouched rfl
    · split
      rename_i henqueue
      have hfiles := files_enqueuePendingOp henqueue
      split
      · exact .untouched hfiles
      · simp only [hfinish]
        exact hrenamed _ (writeRelocatedRecord_files hfiles)
          (List.mem_append_right _ List.mem_cons_self)

theorem outcome_removed (keyed : db.Keyed) (hr : r ∈ db.files)
    (hfiles : db'.files = (db.deleteFile r.id).files) (hlog : row ∈ db'.auditLog)
    (h : ∀ path, r.remotePath = some path → TellsOf row now r.nodeId path r.id) :
    StepOutcome now db db' :=
  .deleted r.id row hfiles hlog (tellsOfLeaving_of keyed hr h)

theorem tellsOf_deleteAudit {complete : Bool} {localPath : Option LocalPath} (path : RemotePath)
    (h : r.remotePath = some path) :
    TellsOf (deleteAudit server r complete localPath now) now r.nodeId path r.id := by
  refine ⟨rfl, rfl, by simp [deleteAudit, localActions], rfl, ?_⟩
  rw [AuditRow.auditRemotePath_eq rfl, h, Option.some_or]

variable (keyed : db.Keyed)

include keyed

theorem outcome_deleteFile (a : DeleteFileArgs) :
    StepOutcome world.now db (deleteFile server world db a).1 := by
  unfold deleteFile
  cases hrow : db.fileById a.fileId with
  | none => exact .untouched rfl
  | some r =>
    have hr := (fileById_eq_some hrow).1
    simp only
    split
    · exact .untouched rfl
    · split
      · split
        · exact .untouched rfl
        · exact outcome_removed keyed hr rfl (List.mem_append_right _ List.mem_cons_self)
            tellsOf_deleteAudit
      · exact outcome_removed keyed hr rfl (List.mem_append_right _ List.mem_cons_self)
          tellsOf_deleteAudit

theorem outcome_deleteFileRemote (a : DeleteFileRemoteArgs)
    (sound : ∀ r ∈ db.files, r.id = a.fileId → a.nodeId.getD r.nodeId = r.nodeId) :
    StepOutcome world.now db (deleteFileRemote server world db a).1 := by
  unfold deleteFileRemote
  cases hrow : db.fileById a.fileId with
  | none =>
    simp only
    split
    · exact .untouched rfl
    · exact .untouched rfl
  | some r =>
    obtain ⟨hr, hid⟩ := fileById_eq_some hrow
    have htells : ∀ path, r.remotePath = some path → TellsOf
        (deleteRemoteAudit server (a.nodeId.getD r.nodeId) r world.now) world.now r.nodeId path
          r.id := by
      intro path h
      rw [sound r hr hid]
      refine ⟨rfl, rfl, by simp [deleteRemoteAudit, localActions], rfl, ?_⟩
      rw [AuditRow.auditRemotePath_eq rfl, h, Option.some_or]
    simp only
    split
    · exact .untouched rfl
    · split
      · split
        · exact .untouched rfl
        · exact outcome_removed keyed hr rfl (List.mem_append_right _ List.mem_cons_self) htells
      · exact outcome_removed keyed hr rfl (List.mem_append_right _ List.mem_cons_self) htells

theorem outcome_deleteRemovedRecord (call : Call Bytes) (sound : r ∈ db.files ∧ r.nodeId = nodeId) :
    StepOutcome call.now db
      ((deleteRemovedRecords call nodeId [r]).statements.foldl Database.apply db) := by
  obtain ⟨hr, rfl⟩ := sound
  simp only [deleteRemovedRecords]
  rcases confirmRemoved call r with message | _ | _
  · exact .untouched rfl
  · exact .untouched rfl
  · refine outcome_removed keyed hr rfl (List.mem_append_right _ List.mem_cons_self)
      fun path h => ?_
    refine ⟨rfl, rfl, by simp [removalAudit, localActions], rfl, ?_⟩
    rw [AuditRow.auditRemotePath_eq rfl, h, Option.some_or]

theorem outcome_relocateWatchedRecord (call : Call Bytes) (hr : r ∈ db.files) :
    StepOutcome call.now db
      ((relocateWatchedRecord call db nodeId path r).foldl Database.apply db) := by
  refine .relocated r.id nodeId path (fun r' => { r' with
      remoteName := some call.remoteName, remotePath := some path, nodeId := nodeId,
      filename := path.getLastD r.filename })
    (relocationAudit call nodeId path r) rfl (List.mem_append_right _ List.mem_cons_self)
    (fun _ => ⟨rfl, rfl⟩) (fun _ _ _ => rfl) (Or.inl ⟨r, hr, rfl⟩)
    (tellsOfLeaving_of keyed hr fun p h => ?_)
  refine ⟨rfl, rfl, by simp [relocationAudit, localActions], rfl, ?_⟩
  refine AuditRow.auditRemotePath_of_old rfl ?_
  rw [← h]
  rfl

theorem fileById_of_mem (hr : r ∈ db.files) : db.fileById r.id = some r := by
  cases hfind : db.fileById r.id with
  | none =>
    have hmiss := List.find?_eq_none.mp hfind r hr
    simp at hmiss
  | some r' =>
    obtain ⟨hr', hid⟩ := fileById_eq_some hfind
    rw [keyed.unique hr' hr hid]

theorem path_of_stillMatches (hr : r ∈ db.files) {candidates : List (String × RemotePath)}
    (h : assertRecordStillMatches db r.id candidates = .ok ()) :
    ∃ c ∈ candidates, r.remotePath = some c.2 := by
  unfold assertRecordStillMatches at h
  simp only [fileById_of_mem keyed hr] at h
  split at h
  · rename_i hany
    obtain ⟨c, hc, hmatch⟩ := List.any_eq_true.mp hany
    simp only [Bool.and_eq_true, decide_eq_true_eq] at hmatch
    exact ⟨c, hc, hmatch.2.symm⟩
  · cases h

theorem outcome_retriedMove {op : PendingOpRow} {p : RelocateParams} {toNodeId filename : String}
    (h : runMove world db op p toNodeId filename = .ok db')
    (hnode : ∀ r ∈ db.files, r.id = op.fileId → r.remotePath = some p.fromRemotePath → r.nodeId =
      op.nodeId)
    (hsubject : (∃ r ∈ db.files, r.id = op.fileId) ∨ shadowOf db toNodeId p.toRemotePath op.fileId
      = none) : StepOutcome world.now db (completePendingOp db' op.id) := by
  obtain ⟨hmatch, rfl⟩ := runMove_eq_ok h
  refine .relocated op.fileId toNodeId p.toRemotePath _ (retriedMoveAudit op p world.now) rfl
    (List.mem_append_right _ List.mem_cons_self) (fun _ => ⟨rfl, rfl⟩) (fun _ _ _ => rfl) hsubject
    fun r hr hid path hpath => ?_
  rw [← hid] at hmatch
  obtain ⟨c, hc, hcpath⟩ := path_of_stillMatches keyed hr hmatch
  rcases List.mem_pair.mp hc with rfl | rfl
  · obtain rfl := Option.some.inj (hcpath.symm.trans hpath)
    rw [hnode r hr hid hpath]
    exact Or.inr ⟨rfl, rfl, by simp [retriedMoveAudit, localActions], rfl, rfl⟩
  · exact Or.inl (hcpath.symm.trans hpath)

theorem outcome_retriedDelete {op : PendingOpRow} {remoteName filename : String}
    {expectedHash : Option String} {expectedRemoteObject : Bool}
    (h : runDelete world db op remoteName path filename expectedHash expectedRemoteObject = .ok db')
    (hnode : ∀ r ∈ db.files, r.id = op.fileId → r.nodeId = op.nodeId) :
    StepOutcome world.now db (completePendingOp db' op.id) := by
  obtain ⟨hmatch, rfl⟩ := runDelete_eq_ok h
  refine .deleted op.fileId (retriedDeleteAudit op remoteName path filename world.now) rfl
    (List.mem_append_right _ List.mem_cons_self) fun r hr hid p hpath => ?_
  rw [← hid] at hmatch
  obtain ⟨c, hc, hcpath⟩ := path_of_stillMatches keyed hr hmatch
  obtain rfl := List.mem_singleton.mp hc
  obtain rfl := Option.some.inj (hcpath.symm.trans hpath)
  rw [hnode r hr hid]
  exact Or.inr ⟨rfl, rfl, by simp [retriedDeleteAudit, localActions], rfl, rfl⟩

theorem FileStep.outcome (s : FileStep Bytes) (sound : s.Sound db) :
    StepOutcome s.now db (s.perform db) := by
  cases s with
  | moveFile server world a => exact outcome_moveFile keyed a
  | renameFile server world fileId name => exact outcome_renameFile keyed name
  | renameFolderFile server world nodeId f => exact outcome_renameFolderFile keyed f sound
  | deleteFile server world a => exact outcome_deleteFile keyed a
  | renameFileRemote server world fileId name => exact sound.elim
  | deleteFileRemote server world a => exact outcome_deleteFileRemote keyed a sound
  | deleteRemovedRecord call nodeId r => exact outcome_deleteRemovedRecord keyed call sound
  | relocateWatchedRecord call nodeId path r => exact outcome_relocateWatchedRecord keyed call sound
  | retryPendingOp world op =>
    change StepOutcome world.now db (FileOps.retryPendingOp world db op).1
    unfold FileOps.retryPendingOp
    split
    · rename_i repaired hrun
      unfold runPendingOp at hrun
      unfold FileStep.Sound at sound
      split at hrun
      · rename_i hpayload
        simp only [hpayload] at sound
        exact outcome_retriedMove keyed hrun sound.1 sound.2
      · rename_i hpayload
        simp only [hpayload] at sound
        exact outcome_retriedDelete keyed hrun sound
    · exact .untouched rfl

end

open Files Files.Database RemoteSweep RemoteWatch

/-- What `moveFile` does once its intent is recorded. -/
def finishMoveFile (server : Server) (world : World) (db : Database) (plan : MovePlan)
    (pendingOpId : ℕ) : OpOutcome :=
  match relocateRemoteObject plan.relocation world.relocation with
  | .error (subStep, message) =>
    let db := if subStep = .deleteSource then markPendingMoveSourceCopied db pendingOpId else db
    (failPendingOp db pendingOpId message, .ok .repairNeeded)
  | .ok _ =>
    match world.renameLocal plan.oldLocalPath plan.newLocalPath with
    | .failed message =>
      let db := (plan.write db).insertAudit (movePartialAudit server plan message world.now)
      let db := db.insertAudit (moveAudit server plan (some message) world.now)
      (completePendingOp db pendingOpId, .ok .repairNeeded)
    | _ =>
      let db := (plan.write db).insertAudit (moveAudit server plan none world.now)
      (completePendingOp db pendingOpId, .ok .ok)

/-- What `renameFile` does once its intent is recorded. -/
def finishRenameFile (server : Server) (world : World) (db : Database) (plan : RenamePlan)
    (pendingOpId : ℕ) : OpOutcome :=
  match relocateRemoteObject (plan.relocation (plan.row.remoteName.getD "")) world.relocation with
  | .error (_, message) => (failPendingOp db pendingOpId message, .error message)
  | .ok _ =>
    let (db, result) := finishRename server world db plan
    (completePendingOp db pendingOpId, result)

def finishDeleteFile (server : Server) (world : World) (db : Database) (r : FileRow)
    (remoteName : String) (path : RemotePath) (pendingOpId : ℕ) : OpOutcome :=
  match world.deleteObject with
  | .error message =>
    let db := failPendingOp db pendingOpId message
    (db.insertAudit (deleteRepairAudit server r remoteName path message world.now),
      .ok .repairNeeded)
  | .ok () => (completePendingOp (finishDelete server world db r true) pendingOpId, .ok .ok)

/-- A pending operation's check of the record, before it touches the remote. -/
def checkPendingOp (db : Database) (op : PendingOpRow) : Except String Unit :=
  match op.payload with
  | .move fromName fromPath toName toPath _ _ _ =>
    assertRecordStillMatches db op.fileId [(fromName, fromPath), (toName, toPath)]
  | .delete remoteName path _ _ _ => assertRecordStillMatches db op.fileId [(remoteName, path)]

def executePendingOp (world : World) (db : Database) (op : PendingOpRow) :
    Except String Database :=
  match op.payload with
  | .move fromName fromPath toName toPath toNodeId filename sourceCopied =>
    let p : RelocateParams := ⟨fromName, fromPath, toName, toPath, sourceCopied⟩
    match relocateRemoteObject p world.relocation with
    | .error (_, message) => .error message
    | .ok _ =>
      let written := writeRelocatedRecord db op.fileId toNodeId toPath fun r =>
        { r with remoteName := some toName, remotePath := some toPath,
                 nodeId := toNodeId, filename := filename }
      .ok (written.insertAudit (retriedMoveAudit op p world.now))
  | .delete remoteName path filename expectedHash expectedRemoteObject => do
      let current ← world.stat
      assertTargetObject path expectedHash expectedRemoteObject current
      world.deleteObject
      return (db.deleteFile op.fileId).insertAudit
        (retriedDeleteAudit op remoteName path filename world.now)

def finishPendingOp (world : World) (db : Database) (op : PendingOpRow) : Database :=
  match executePendingOp world db op with
  | .ok repaired => completePendingOp repaired op.id
  | .error message => failPendingOp db op.id message

variable {db : Database} {server : Server} {world : World}

theorem retryPendingOp_eq (op : PendingOpRow) : (retryPendingOp world db op).1 =
      match checkPendingOp db op with
      | .ok () => finishPendingOp world db op
      | .error message => failPendingOp db op.id message := by
  have hrun : runPendingOp world db op =
      match checkPendingOp db op with
      | .ok () => executePendingOp world db op
      | .error message => .error message := by
    unfold runPendingOp checkPendingOp executePendingOp
    cases op.payload with
    | move fromName fromPath toName toPath toNodeId filename sourceCopied =>
      simp only [runMove, bind, Except.bind]
      cases assertRecordStillMatches db op.fileId [(fromName, fromPath), (toName, toPath)] with
      | error message => rfl
      | ok _ => rfl
    | delete remoteName path filename expectedHash expectedRemoteObject =>
      simp only [runDelete, bind, Except.bind]
      cases assertRecordStillMatches db op.fileId [(remoteName, path)] with
      | error message => rfl
      | ok _ => rfl
  unfold retryPendingOp finishPendingOp
  rw [hrun]
  cases checkPendingOp db op with
  | error message => rfl
  | ok _ =>
    simp only
    cases executePendingOp world db op with
    | error message => rfl
    | ok repaired => rfl

end Portuni.FileOps
