import Portuni.CentralRetry.Handlers
import Portuni.NodeMove.Model
import Portuni.PendingOps.Effects

/-!
A rename, a move and a delete that took effect, asked for once more: the database
they find, and what they do to it.
-/

namespace Portuni.CentralRetry

open FileOps Files Files.Database
open NodeMove (UniquePaths)
open PendingOps RemoteSweep RemoteWatch

universe u

variable {db db' : Database} {server : Server} {world : World} {id : ℕ} {nodeId : String}
  {path : RemotePath} {set : FileRow → FileRow} {r : FileRow}

def OpsKeyed (db : Database) : Prop :=
  ∀ op ∈ db.pendingOps, op.id < db.nextId

theorem updateFile_of_fixed (h : ∀ r ∈ db.files, r.id = id → set r = r) :
    db.updateFile id set = db := by
  have hfiles : db.files.map (fun r => if r.id = id then set r else r) = db.files := by
    refine (List.map_congr_left fun r hr => ?_).trans (List.map_id _)
    by_cases hid : r.id = id
    · simp [hid, h r hr hid]
    · simp [hid]
  unfold updateFile
  rw [hfiles]

theorem updateFile_of_row (keyed : db.Keyed) (hrow : db.fileById id = some r) (hset : set r = r) :
    db.updateFile id set = db := by
  obtain ⟨hr, rfl⟩ := fileById_eq_some hrow
  refine updateFile_of_fixed fun r' hr' hid => ?_
  rw [keyed.unique hr' hr hid, hset]

theorem shadowOf_of_files (h : db'.files = db.files) :
    shadowOf db' nodeId path id = shadowOf db nodeId path id := by
  unfold shadowOf
  rw [h]

theorem fileById_of_files (h : db'.files = db.files) : db'.fileById id = db.fileById id := by
  unfold fileById
  rw [h]

theorem writeRelocatedRecord_self (keyed : db.Keyed) (hrow : db.fileById id = some r)
    (hset : set r = r) (hshadow : shadowOf db nodeId path id = none) :
    writeRelocatedRecord db id nodeId path set = db := by
  unfold writeRelocatedRecord
  rw [hshadow]
  exact updateFile_of_row keyed hrow hset

theorem shadowOf_writeRelocatedRecord (paths : UniquePaths db) (hset : ∀ r, (set r).id = r.id) :
    shadowOf (writeRelocatedRecord db id nodeId path set) nodeId path id = none := by
  unfold shadowOf
  rw [Option.map_eq_none_iff, List.find?_eq_none]
  intro r hr hat
  simp only [Bool.and_eq_true, decide_eq_true_eq] at hat
  obtain ⟨⟨hnode, hpath⟩, hne⟩ := hat
  obtain ⟨r₀, hr₀, hr₀r⟩ := mem_updateFile_iff.mp hr
  have hother : r₀ = r := by
    by_cases hid : r₀.id = id
    · rw [if_pos hid] at hr₀r
      exact absurd (by rw [← hr₀r, hset, hid]) hne
    · rwa [if_neg hid] at hr₀r
  subst hother
  have hfound : shadowOf db nodeId path id = some r₀.id := by
    have hmem : r₀ ∈ db.files := by
      cases hshadow : shadowOf db nodeId path id with
      | none => rwa [hshadow] at hr₀
      | some shadow =>
        rw [hshadow] at hr₀
        exact (mem_deleteFile_iff.mp hr₀).1
    unfold shadowOf
    cases hfind : db.files.find? (fun r => decide (r.nodeId = nodeId) &&
        decide (r.remotePath = some path) && decide (r.id ≠ id)) with
    | none =>
      have hmiss := List.find?_eq_none.mp hfind r₀ hmem
      simp [hnode, hpath, hne] at hmiss
    | some r' =>
      have hat' := List.find?_some hfind
      simp only [Bool.and_eq_true, decide_eq_true_eq] at hat'
      rw [paths r' (List.mem_of_find?_eq_some hfind) r₀ hmem (hat'.1.1.trans hnode.symm) path
        hat'.1.2 hpath]
      rfl
  rw [hfound] at hr₀
  exact (mem_deleteFile_iff.mp hr₀).2 rfl

variable {payload : PendingOp} {name : String} {a : MoveFileArgs}

theorem complete_enqueued (ops : OpsKeyed db) {userId : String} :
    (enqueuePendingOp db userId nodeId id payload).1.pendingOps.filter (·.id ≠ db.nextId) =
      db.pendingOps := by
  have hkept : db.pendingOps.filter (fun op => decide (op.id ≠ db.nextId)) = db.pendingOps := by
    refine List.filter_eq_self.mpr fun op hop => ?_
    have hlt := ops op hop
    simp only [ne_eq, decide_eq_true_eq]
    omega
  simp only [enqueuePendingOp, List.filter_append, hkept]
  simp

theorem relocateRemoteObject_self {p : RelocateParams} {answers : RelocateAnswers}
    (hname : p.fromRemoteName = p.toRemoteName) (hpath : p.fromRemotePath = p.toRemotePath) :
    relocateRemoteObject p answers = .ok .alreadyAtTarget := by
  simp [relocateRemoteObject, hname, hpath]

structure Relocated (db db' : Database) (id : ℕ) (nodeId : String) (path : RemotePath)
    (set : FileRow → FileRow) : Prop where
  files : db'.files = (writeRelocatedRecord db id nodeId path set).files
  pendingOps : db'.pendingOps = db.pendingOps
  nextId : db'.nextId = db.nextId + 1

variable {row : AuditRow}

theorem Relocated.again (relocated : Relocated db db' id nodeId path set) (keyed : db'.Keyed)
    (paths : UniquePaths db) (ops : OpsKeyed db) (hrow : db.fileById id = some r)
    (hset : ∀ r, (set r).id = r.id) {set' : FileRow → FileRow} (hset' : set' (set r) = set r)
    {userId node : String} :
    completePendingOp ((writeRelocatedRecord (enqueuePendingOp db' userId node id payload).1 id
      nodeId path set').insertAudit row) db'.nextId =
        { db' with auditLog := db'.auditLog ++ [row], nextId := db'.nextId + 1 } := by
  have hops : OpsKeyed db' := by
    intro op hop
    rw [relocated.pendingOps] at hop
    have hlt := ops op hop
    rw [relocated.nextId]
    omega
  have hfound : (enqueuePendingOp db' userId node id payload).1.fileById id = some (set r) := by
    change db'.fileById id = _
    rw [fileById_of_files relocated.files, fileById_writeRelocatedRecord hset, hrow]
    rfl
  have hshadow : shadowOf (enqueuePendingOp db' userId node id payload).1 nodeId path id = none := by
    change shadowOf db' nodeId path id = none
    rw [shadowOf_of_files relocated.files]
    exact shadowOf_writeRelocatedRecord paths hset
  have hkeyed : (enqueuePendingOp db' userId node id payload).1.Keyed :=
    (Grows.enqueuePendingOp (Grows.refl db') rfl).keyed keyed
  rw [writeRelocatedRecord_self hkeyed hfound hset' hshadow]
  have hpending : (enqueuePendingOp db' userId node id payload).1.pendingOps.filter
      (·.id ≠ db'.nextId) = db'.pendingOps := complete_enqueued hops
  simp only [completePendingOp, Database.insertAudit, hpending]
  rfl

variable {bound : FileRow → Except String RemotePath}

theorem planRename_parts {plan : RenamePlan} (h : planRename db id name bound = .ok plan) :
    invalidFilename name = false ∧ db.fileById id = some plan.row ∧
      bound plan.row = .ok plan.oldRemotePath ∧
      plan.oldRemotePath.getLast? = some plan.row.filename ∧ plan.newFilename = name ∧
      plan.newRemotePath = plan.oldRemotePath.dropLast ++ [name] := by
  unfold planRename at h
  cases hrow : db.fileById id with
  | none =>
    simp only [hrow, bind, Except.bind] at h
    split at h
    · cases h
    · cases h
  | some row =>
    simp only [hrow, bind, Except.bind] at h
    split at h
    · cases h
    · rename_i hname
      split at h
      · cases h
      · rename_i oldPath hpath
        split at h
        · cases h
        · rename_i hends
          obtain rfl := Except.ok.inj h
          exact ⟨by simpa using hname, rfl, hpath, by simpa using hends, rfl, rfl⟩

theorem planRename_of_parts {oldPath : RemotePath} (hname : invalidFilename name = false)
    (hrow : db.fileById id = some r) (hbound : bound r = .ok oldPath)
    (hends : oldPath.getLast? = some r.filename) :
    planRename db id name bound = .ok ⟨r, oldPath, name, oldPath.dropLast ++ [name]⟩ := by
  simp [planRename, hname, hrow, hbound, hends, bind, Except.bind, pure, Except.pure]

theorem renameFileRemote_eq_ok (h : renameFileRemote server world db id name = (db', .ok .ok)) :
    ∃ plan, planRename db id name boundRemote = .ok plan ∧
      db' = completePendingOp ((plan.write (enqueuePendingOp db server.userId plan.row.nodeId
        plan.row.id (plan.payload (plan.row.remoteName.getD ""))).1).insertAudit
          (renameRemoteAudit server plan world.now)) db.nextId := by
  unfold renameFileRemote at h
  split at h
  · cases h
  · rename_i plan hplan
    refine ⟨plan, hplan, ?_⟩
    simp only [enqueuePendingOp] at h ⊢
    split at h
    · cases h
    · exact (Prod.mk.inj h).1.symm

def RenamePlan.renamed (plan : RenamePlan) (r : FileRow) : FileRow :=
  { r with filename := plan.newFilename, remotePath := some plan.newRemotePath }

theorem relocated_renameFileRemote {plan : RenamePlan} (ops : OpsKeyed db) :
    Relocated db (completePendingOp ((plan.write (enqueuePendingOp db server.userId
      plan.row.nodeId plan.row.id payload).1).insertAudit row) db.nextId)
      plan.row.id plan.row.nodeId plan.newRemotePath (RenamePlan.renamed plan) where
  files := writeRelocatedRecord_files rfl
  pendingOps := by
    change (plan.write _).pendingOps.filter _ = _
    rw [(writeRename_rest plan).1]
    exact complete_enqueued ops
  nextId := (writeRename_rest plan).2

theorem renameFileRemote_again (keyed : db.Keyed) (paths : UniquePaths db) (ops : OpsKeyed db)
    (h : renameFileRemote server world db id name = (db', .ok .ok)) :
    ∃ plan, planRename db' id name boundRemote = .ok plan ∧
      (∃ r, db.fileById id = some r ∧ plan.row.nodeId = r.nodeId) ∧
      plan.newRemotePath = plan.oldRemotePath ∧
      ∀ world', ∃ row, row.action = .syncRenameRemote ∧
        renameFileRemote server world' db' id name =
          ({ db' with auditLog := db'.auditLog ++ [row], nextId := db'.nextId + 1 }, .ok .ok) := by
  have hkeyed : db'.Keyed := by
    have hgrows : Grows db (renameFileRemote server world db id name).1 :=
      grows_renameFileRemote name
    rw [h] at hgrows
    exact hgrows.keyed keyed
  obtain ⟨plan, hplan, hdb'⟩ := renameFileRemote_eq_ok h
  obtain ⟨hname, hrow, hbound, -, hnew, hpath⟩ := planRename_parts hplan
  obtain rfl : plan.row.id = id := (fileById_eq_some hrow).2
  have hrelocated : Relocated db db' plan.row.id plan.row.nodeId plan.newRemotePath
      (RenamePlan.renamed plan) := by
    rw [hdb']
    exact relocated_renameFileRemote ops
  have hset : ∀ r, (RenamePlan.renamed plan r).id = r.id := fun _ => rfl
  have hfound : db'.fileById plan.row.id = some (RenamePlan.renamed plan plan.row) := by
    rw [fileById_of_files hrelocated.files, fileById_writeRelocatedRecord hset, hrow]
    rfl
  have hbound' : boundRemote (RenamePlan.renamed plan plan.row) = .ok plan.newRemotePath := by
    unfold boundRemote at hbound ⊢
    split at hbound
    · rename_i hremote _
      simp [RenamePlan.renamed, hremote]
    · cases hbound
  have hends : plan.newRemotePath.getLast? = some (RenamePlan.renamed plan plan.row).filename := by
    rw [hpath, List.getLast?_concat]
    exact congrArg some hnew.symm
  have hsame : plan.newRemotePath.dropLast ++ [name] = plan.newRemotePath := by
    rw [hpath, List.dropLast_concat]
  have hplan' := planRename_of_parts hname hfound hbound' hends
  rw [hsame] at hplan'
  let again : RenamePlan :=
    ⟨RenamePlan.renamed plan plan.row, plan.newRemotePath, name, plan.newRemotePath⟩
  refine ⟨again, hplan', ⟨plan.row, hrow, rfl⟩, rfl, fun world' =>
    ⟨renameRemoteAudit server again world'.now, rfl, ?_⟩⟩
  have hself : relocateRemoteObject (again.relocation (again.row.remoteName.getD ""))
      world'.relocation = .ok .alreadyAtTarget := relocateRemoteObject_self rfl rfl
  unfold renameFileRemote
  simp only [hplan', enqueuePendingOp]
  rw [hself]
  refine congrArg (fun final => (final, Except.ok OpStatus.ok)) ?_
  refine hrelocated.again hkeyed paths ops hrow hset ?_
  simp [RenamePlan.renamed, hnew]

structure MoveParts (server : Server) (db : Database) (a : MoveFileArgs) (plan : MovePlan)
    (newInfo : NodeInfo) : Prop where
  row : db.fileById a.fileId = some plan.row
  bound : boundPath server plan.row = .ok plan.oldRemotePath
  oldRemoteName : plan.oldRemoteName = plan.row.remoteName
  targetNodeId : plan.targetNodeId = a.newNodeId.getD plan.row.nodeId
  info : server.resolveNodeInfo plan.targetNodeId = .ok newInfo
  newRemoteName : plan.newRemoteName = server.resolveRemote newInfo
  routed : plan.newRemoteName.isSome
  filename : plan.filename = server.nfc (a.newFilename.getD plan.row.filename)
  newRemotePath : buildRemotePath newInfo
    (a.newSection.getD (inferSectionFromPath plan.oldRemotePath)) a.newSubpath plan.filename =
      .ok plan.newRemotePath

variable {plan : MovePlan}

theorem moveParts_of_planMove (team : server.localWorkspace = false)
    (h : planMove server db a = .ok plan) : ∃ newInfo, MoveParts server db a plan newInfo := by
  unfold planMove at h
  cases hrow : db.fileById a.fileId with
  | none => simp [hrow] at h
  | some row =>
    simp only [hrow, bind, Except.bind, team, Bool.not_false, Bool.true_and,
      Bool.false_eq_true, if_false] at h
    split at h
    · cases h
    · rename_i oldPath hbound
      split at h
      · cases h
      · rename_i newInfo hinfo
        split at h
        · cases h
        · rename_i hrouted
          split at h
          · cases h
          · rename_i newPath hpath
            split at h
            · cases h
            · obtain rfl := Except.ok.inj h
              refine ⟨newInfo, ⟨hrow, hbound, rfl, rfl, hinfo, rfl, ?_, rfl, hpath⟩⟩
              simpa [Option.isSome_iff_ne_none] using hrouted

theorem ofSegment_segment (fileSection : FileSection) :
    FileSection.ofSegment fileSection.segment = some fileSection := by
  cases fileSection with
  | wip => rfl
  | outputs => rfl
  | resources => rfl

variable {info : NodeInfo} {fileSection : FileSection} {subpath : Option RemotePath}

theorem buildRemotePath_eq_ok {filename : String} {path : RemotePath}
    (h : buildRemotePath info fileSection subpath filename = .ok path) :
    ∃ root, buildNodeRoot info = .ok root ∧
      path = root ++ [fileSection.segment] ++ subpath.getD [] ++ [filename] := by
  simp only [buildRemotePath, bind, Except.bind] at h
  repeat' split at h
  all_goals first
    | (cases h; done)
    | (rename_i root hroot
       exact ⟨root, hroot, (Except.ok.inj h).symm⟩)

theorem buildNodeRoot_eq_ok {root : RemotePath} (h : buildNodeRoot info = .ok root) :
    root = if info.nodeType = "organization" then [info.orgSyncKey.getD info.nodeSyncKey]
      else info.orgSyncKey.toList ++ [typePlural info.nodeType, info.nodeSyncKey] := by
  simp only [buildNodeRoot, bind, Except.bind] at h
  repeat' split at h
  all_goals first
    | (cases h; done)
    | (obtain rfl := Except.ok.inj h
       simp [*])

theorem inferSectionFromPath_buildRemotePath {info : NodeInfo} {fileSection : FileSection}
    {subpath : Option RemotePath} {filename : String} {path : RemotePath}
    (member : info.nodeType ≠ "organization" →
      info.orgSyncKey.isSome ∧ FileSection.ofSegment (typePlural info.nodeType) = none)
    (h : buildRemotePath info fileSection subpath filename = .ok path) :
    inferSectionFromPath path = fileSection := by
  obtain ⟨root, hroot, rfl⟩ := buildRemotePath_eq_ok h
  rw [buildNodeRoot_eq_ok hroot]
  unfold inferSectionFromPath
  by_cases horg : info.nodeType = "organization"
  · simp [horg, ofSegment_segment]
  · obtain ⟨hkey, htype⟩ := member horg
    obtain ⟨key, hkey⟩ := Option.isSome_iff_exists.mp hkey
    simp [horg, hkey, htype, ofSegment_segment]

def MovePlan.moved (plan : MovePlan) (r : FileRow) : FileRow :=
  { r with remoteName := plan.newRemoteName, remotePath := some plan.newRemotePath,
           nodeId := plan.targetNodeId, filename := plan.filename }

def MovePlan.again (server : Server) (plan : MovePlan) (newInfo : NodeInfo) : MovePlan where
  row := MovePlan.moved plan plan.row
  oldRemoteName := plan.newRemoteName
  oldRemotePath := plan.newRemotePath
  targetNodeId := plan.targetNodeId
  newRemoteName := plan.newRemoteName
  filename := plan.filename
  newRemotePath := plan.newRemotePath
  oldLocalPath := server.localCopy plan.targetNodeId newInfo plan.newRemotePath
  newLocalPath := server.localCopy plan.targetNodeId newInfo plan.newRemotePath

theorem planMove_again (team : server.localWorkspace = false)
    (nfc_nfc : ∀ name, server.nfc (server.nfc name) = server.nfc name)
    {plan : MovePlan} {newInfo : NodeInfo} (member : newInfo.nodeType ≠ "organization" →
      newInfo.orgSyncKey.isSome ∧ FileSection.ofSegment (typePlural newInfo.nodeType) = none)
    (parts : MoveParts server db a plan newInfo)
    (hrow : db'.fileById a.fileId = some (MovePlan.moved plan plan.row)) :
    planMove server db' a = .ok (MovePlan.again server plan newInfo) := by
  have hbound : boundPath server (MovePlan.moved plan plan.row) = .ok plan.newRemotePath := by
    obtain ⟨name, hname⟩ := Option.isSome_iff_exists.mp parts.routed
    simp [boundPath, MovePlan.moved, hname]
  have hnode : a.newNodeId.getD (MovePlan.moved plan plan.row).nodeId = plan.targetNodeId := by
    change a.newNodeId.getD plan.targetNodeId = _
    rw [parts.targetNodeId]
    cases a.newNodeId with
    | none => rfl
    | some _ => rfl
  have hname : server.nfc (a.newFilename.getD (MovePlan.moved plan plan.row).filename) =
      plan.filename := by
    change server.nfc (a.newFilename.getD plan.filename) = _
    rw [parts.filename]
    cases a.newFilename with
    | none => exact nfc_nfc _
    | some _ => rfl
  have hsection : buildRemotePath newInfo
      (a.newSection.getD (inferSectionFromPath plan.newRemotePath)) a.newSubpath plan.filename =
        .ok plan.newRemotePath := by
    have hpath := parts.newRemotePath
    cases hsec : a.newSection with
    | some fileSection => rwa [hsec] at hpath
    | none =>
      rw [Option.getD_none, inferSectionFromPath_buildRemotePath member hpath]
      exact hpath
  have hrouted : (server.resolveRemote newInfo).isNone = false := by
    rw [← parts.newRemoteName]
    simpa using parts.routed
  have hinfo : server.resolveNodeInfo (MovePlan.moved plan plan.row).nodeId = .ok newInfo :=
    parts.info
  have hremote : (MovePlan.moved plan plan.row).remoteName = server.resolveRemote newInfo :=
    parts.newRemoteName
  simp only [planMove, hrow, bind, Except.bind, hbound, hnode, parts.info, hname, hsection, hinfo,
    hrouted, hremote, team, Bool.not_false, Bool.true_and, Bool.false_eq_true, if_false]
  simp only [pure, Except.pure, MovePlan.again, parts.newRemoteName]
  rfl

theorem moveFile_eq_ok (team : server.localWorkspace = false)
    (h : moveFile server world db a = (db', .ok .ok)) :
    a.confirmed = true ∧ ∃ plan, planMove server db a = .ok plan ∧
      db' = completePendingOp ((plan.write (enqueuePendingOp db server.userId plan.row.nodeId
        plan.row.id plan.payload).1).insertAudit (moveAudit server plan none world.now))
          db.nextId := by
  unfold moveFile at h
  split at h
  · cases h
  · rename_i plan hplan
    cases hconfirmed : a.confirmed with
    | false => simp [hconfirmed] at h
    | true =>
      refine ⟨rfl, plan, hplan, ?_⟩
      simp only [hconfirmed, team, moveFileRouted, enqueuePendingOp, Bool.not_true,
        Bool.false_eq_true, if_false] at h ⊢
      split at h
      · cases h
      · split at h
        · cases h
        · exact (Prod.mk.inj h).1.symm

theorem relocated_moveFile (ops : OpsKeyed db) :
    Relocated db (completePendingOp ((plan.write (enqueuePendingOp db server.userId
      plan.row.nodeId plan.row.id payload).1).insertAudit row) db.nextId)
      plan.row.id plan.targetNodeId plan.newRemotePath (MovePlan.moved plan) where
  files := writeRelocatedRecord_files rfl
  pendingOps := by
    change (plan.write _).pendingOps.filter _ = _
    rw [(writeMove_rest plan).1]
    exact complete_enqueued ops
  nextId := (writeMove_rest plan).2

theorem renameLocal_self (localPath : Option LocalPath) :
    world.renameLocal localPath localPath = .missing := by
  cases localPath with
  | none => rfl
  | some path => simp [World.renameLocal]

theorem moveFile_again (keyed : db.Keyed) (paths : UniquePaths db) (ops : OpsKeyed db)
    (team : server.localWorkspace = false)
    (nfc_nfc : ∀ name, server.nfc (server.nfc name) = server.nfc name)
    (member : ∀ {nodeId info}, server.nodeInfo nodeId = some info →
      info.nodeType ≠ "organization" →
        info.orgSyncKey.isSome ∧ FileSection.ofSegment (typePlural info.nodeType) = none)
    (h : moveFile server world db a = (db', .ok .ok)) :
    a.confirmed = true ∧ ∃ plan, planMove server db' a = .ok plan ∧
      (∃ r, db.fileById a.fileId = some r ∧ plan.row.nodeId = a.newNodeId.getD r.nodeId) ∧
      plan.newRemoteName = plan.oldRemoteName ∧ plan.newRemotePath = plan.oldRemotePath ∧
      ∀ world', ∃ row, row.action = .syncMove ∧
        moveFile server world' db' a =
          ({ db' with auditLog := db'.auditLog ++ [row], nextId := db'.nextId + 1 }, .ok .ok) := by
  have hkeyed : db'.Keyed := by
    have hgrows : Grows db (moveFile server world db a).1 := grows_moveFile a
    rw [h] at hgrows
    exact hgrows.keyed keyed
  obtain ⟨hconfirmed, plan, hplan, hdb'⟩ := moveFile_eq_ok team h
  obtain ⟨newInfo, parts⟩ := moveParts_of_planMove team hplan
  have hid : plan.row.id = a.fileId := (fileById_eq_some parts.row).2
  have hrow : db.fileById plan.row.id = some plan.row := by
    rw [hid]
    exact parts.row
  have hset : ∀ r, (MovePlan.moved plan r).id = r.id := fun _ => rfl
  have hrelocated : Relocated db db' plan.row.id plan.targetNodeId plan.newRemotePath
      (MovePlan.moved plan) := by
    rw [hdb']
    exact relocated_moveFile ops
  have hfound : db'.fileById a.fileId = some (MovePlan.moved plan plan.row) := by
    rw [← hid, fileById_of_files hrelocated.files, fileById_writeRelocatedRecord hset, hrow]
    rfl
  have hinfo : server.nodeInfo plan.targetNodeId = some newInfo := by
    have hresolved := parts.info
    unfold Server.resolveNodeInfo at hresolved
    split at hresolved
    · rename_i hnode
      rw [hnode, Except.ok.inj hresolved]
    · cases hresolved
  have hplan' := planMove_again team nfc_nfc (member hinfo) parts hfound
  let again := MovePlan.again server plan newInfo
  refine ⟨hconfirmed, again, hplan', ⟨plan.row, parts.row, parts.targetNodeId⟩, rfl, rfl,
    fun world' => ⟨moveAudit server again none world'.now, rfl, ?_⟩⟩
  have hself : relocateRemoteObject again.relocation world'.relocation = .ok .alreadyAtTarget :=
    relocateRemoteObject_self rfl rfl
  unfold moveFile
  simp only [hplan', hconfirmed, team, moveFileRouted, enqueuePendingOp, Bool.not_true,
    Bool.false_eq_true, if_false]
  rw [hself]
  simp only [MovePlan.again, renameLocal_self]
  refine congrArg (fun final => (final, Except.ok OpStatus.ok)) ?_
  exact hrelocated.again hkeyed paths ops hrow hset rfl

theorem deleteFileRemote_again {nodeId : Option String}
    (h : deleteFileRemote server world db ⟨nodeId, id, true⟩ = (db', .ok .ok)) :
    db'.fileById id = none ∧ ∀ world' nodeId',
      deleteFileRemote server world' db' ⟨nodeId', id, true⟩ = (db', .ok .alreadyDeleted) := by
  suffices hgone : db'.fileById id = none ∧ priorDelete server db' id = true by
    refine ⟨hgone.1, fun world' nodeId' => ?_⟩
    simp [deleteFileRemote, hgone.1, hgone.2]
  unfold deleteFileRemote at h
  simp only at h
  cases hrow : db.fileById id with
  | none =>
    simp only [hrow] at h
    split at h
    · cases h
    · cases h
  | some r =>
    obtain ⟨-, rfl⟩ := fileById_eq_some hrow
    simp only [hrow, Bool.not_true, Bool.false_eq_true, if_false, enqueuePendingOp] at h
    split at h
    · split at h
      · cases h
      · obtain rfl := (Prod.mk.inj h).1
        refine ⟨fileById_deleteFile_self r.id, ?_⟩
        simp [priorDelete, completePendingOp, Database.insertAudit, deleteRemoteAudit]
    · obtain rfl := (Prod.mk.inj h).1
      refine ⟨fileById_deleteFile_self r.id, ?_⟩
      simp [priorDelete, Database.insertAudit, deleteRemoteAudit]

end Portuni.CentralRetry
