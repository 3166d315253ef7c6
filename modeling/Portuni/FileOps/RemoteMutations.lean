import Portuni.FileOps.Mutations
import Portuni.Library.Runs

namespace Portuni.FileOps

/-!
Renaming and deleting a file on a server without a mirror, and the retry of the
operations that a failed remote step left pending.
-/

section

open Files RemoteSweep

def boundRemote (r : FileRow) : Except String RemotePath :=
  match r.remoteName, r.remotePath with
  | some _, some path => .ok path
  | _, _ => .error (noRemoteBinding r.id)

def renameRemoteAudit (server : Server) (plan : RenamePlan) (now : ℕ) : AuditRow where
  userId := server.userId
  action := .syncRenameRemote
  target := .file plan.row.id
  detail := plan.detail
  timestamp := now

def renameFileRemote (server : Server) (world : World) (db : Database) (fileId : ℕ)
    (newFilename : String) : OpOutcome :=
  match planRename db fileId newFilename boundRemote with
  | .error message => (db, .error message)
  | .ok plan =>
    let remoteName := plan.row.remoteName.getD ""
    let (db, pendingOpId) :=
      enqueuePendingOp db server.userId plan.row.nodeId plan.row.id (plan.payload remoteName)
    match relocateRemoteObject (plan.relocation remoteName) world.relocation with
    | .error (_, message) => (failPendingOp db pendingOpId message, .error message)
    | .ok _ =>
      let db := (plan.write db).insertAudit (renameRemoteAudit server plan world.now)
      (completePendingOp db pendingOpId, .ok .ok)

def deleteRemoteAudit (server : Server) (nodeId : String) (r : FileRow) (now : ℕ) : AuditRow where
  userId := server.userId
  action := .syncDeleteRemote
  target := .file r.id
  detail := [("node_id", .text nodeId), ("remote_name", .ofText r.remoteName),
    ("remote_path", .ofPath r.remotePath), ("filename", .text r.filename)]
  timestamp := now

def deleteRemoteRepairAudit (server : Server) (r : FileRow) (remoteName : String)
    (path : RemotePath) (error : String) (now : ℕ) : AuditRow where
  userId := server.userId
  action := .syncDeleteRemoteRepairNeeded
  target := .file r.id
  detail := [("remote_name", .text remoteName), ("remote_path", .path path), ("error", .text error)]
  timestamp := now

structure DeleteFileRemoteArgs where
  nodeId : Option String := none
  fileId : ℕ
  confirmed : Bool := false

/-- The caller's own earlier delete of the file, which a replayed request meets. -/
def priorDelete (server : Server) (db : Database) (fileId : ℕ) : Bool :=
  db.auditLog.any fun row =>
    row.target = .file fileId && row.userId = server.userId &&
      (row.action = .syncDelete || row.action = .syncDeleteRemote)

def deleteFileRemote (server : Server) (world : World) (db : Database)
    (a : DeleteFileRemoteArgs) : OpOutcome :=
  match db.fileById a.fileId with
  | none =>
    if a.confirmed && priorDelete server db a.fileId then (db, .ok .alreadyDeleted)
    else (db, .error (fileNotFound a.fileId))
  | some r =>
    let nodeId := a.nodeId.getD r.nodeId
    let finish (db : Database) : Database :=
      (db.deleteFile r.id).insertAudit (deleteRemoteAudit server nodeId r world.now)
    if !a.confirmed then (db, .ok .preview)
    else
      match r.remoteName, r.remotePath with
      | some remoteName, some path =>
        let (db, pendingOpId) := enqueuePendingOp db server.userId nodeId r.id
          (.delete remoteName path r.filename r.currentRemoteHash r.hadObject)
        match world.deleteObject with
        | .error message =>
          let db := failPendingOp db pendingOpId message
          (db.insertAudit (deleteRemoteRepairAudit server r remoteName path message world.now),
            .ok .repairNeeded)
        | .ok () => (completePendingOp (finish db) pendingOpId, .ok .ok)
      | _, _ => (finish db, .ok .ok)

/-- Refuse to touch the remote on a guess: the record still has one of the
bindings that the operation names, or none has them by now. -/
def assertRecordStillMatches (db : Database) (fileId : ℕ) (candidates : List (String × RemotePath)) :
    Except String Unit :=
  match db.fileById fileId with
  | some r =>
    if candidates.any fun c => some c.1 = r.remoteName && some c.2 = r.remotePath then .ok ()
    else
      .error ("file " ++ toString fileId ++ " record now points at " ++ r.remoteName.getD "null" ++
        ":" ++ (r.remotePath.map (String.intercalate "/")).getD "null" ++
        ", which does not match the pending op -- refusing to guess")
  | none =>
    candidates.forM fun c =>
      match db.files.find? fun r => r.remoteName = some c.1 && r.remotePath = some c.2 with
      | some r =>
        .error ("file " ++ toString fileId ++ " record is gone and " ++ c.1 ++ ":" ++
          String.intercalate "/" c.2 ++ " is now claimed by a different file (" ++
          toString r.id ++ ") -- refusing to guess")
      | none => .ok ()

def retriedMoveAudit (op : PendingOpRow) (p : RelocateParams) (now : ℕ) : AuditRow where
  userId := op.userId
  action := .syncMove
  target := .file op.fileId
  detail := [("node_id", .text op.nodeId), ("old_remote_path", .path p.fromRemotePath),
    ("repaired", .flag true),
    ("old", .binding (some p.fromRemoteName) (some p.fromRemotePath) none),
    ("new", .binding (some p.toRemoteName) (some p.toRemotePath) none)]
  timestamp := now

def runMove (world : World) (db : Database) (op : PendingOpRow) (p : RelocateParams)
    (toNodeId filename : String) : Except String Database := do
  assertRecordStillMatches db op.fileId
    [(p.fromRemoteName, p.fromRemotePath), (p.toRemoteName, p.toRemotePath)]
  match relocateRemoteObject p world.relocation with
  | .error (_, message) => throw message
  | .ok _ =>
    let written := writeRelocatedRecord db op.fileId toNodeId p.toRemotePath fun r =>
      { r with remoteName := some p.toRemoteName, remotePath := some p.toRemotePath,
               nodeId := toNodeId, filename := filename }
    return written.insertAudit (retriedMoveAudit op p world.now)

def retriedDeleteAudit (op : PendingOpRow) (remoteName : String) (path : RemotePath)
    (filename : String) (now : ℕ) : AuditRow where
  userId := op.userId
  action := .syncDelete
  target := .file op.fileId
  detail := [("mode", .text "complete"), ("node_id", .text op.nodeId),
    ("remote_name", .text remoteName), ("remote_path", .path path),
    ("filename", .text filename), ("repaired", .flag true)]
  timestamp := now

def assertTargetObject (path : RemotePath) (expectedHash : Option String)
    (expectedRemoteObject : Bool) : Option FileRef → Except String Unit
  | none => .ok ()
  | some current =>
    if !expectedRemoteObject then
      .error (String.intercalate "/" path ++ " now holds an object, but the record being deleted " ++
        "had never been pushed -- refusing to delete a file this op did not target")
    else
      match expectedHash, current.hash with
      | some expected, some hash =>
        if hash = expected then .ok ()
        else
          .error (String.intercalate "/" path ++ " is not the file this delete targeted (remote " ++
            "hash " ++ hash ++ ", expected " ++ expected ++ ") -- refusing to delete it")
      | _, _ => .ok ()

def runDelete (world : World) (db : Database) (op : PendingOpRow) (remoteName : String)
    (path : RemotePath) (filename : String) (expectedHash : Option String)
    (expectedRemoteObject : Bool) : Except String Database := do
  assertRecordStillMatches db op.fileId [(remoteName, path)]
  let current ← world.stat
  assertTargetObject path expectedHash expectedRemoteObject current
  world.deleteObject
  return (db.deleteFile op.fileId).insertAudit
    (retriedDeleteAudit op remoteName path filename world.now)

def runPendingOp (world : World) (db : Database) (op : PendingOpRow) : Except String Database :=
  match op.payload with
  | .move fromRemoteName fromRemotePath toRemoteName toRemotePath toNodeId filename sourceCopied =>
    runMove world db op ⟨fromRemoteName, fromRemotePath, toRemoteName, toRemotePath, sourceCopied⟩
      toNodeId filename
  | .delete remoteName path filename expectedHash expectedRemoteObject =>
    runDelete world db op remoteName path filename expectedHash expectedRemoteObject

/-- One turn of the loop of `retryPendingFileOps`. -/
def retryPendingOp (world : World) (db : Database) (op : PendingOpRow) : OpOutcome :=
  match runPendingOp world db op with
  | .ok repaired => (completePendingOp repaired op.id, .ok .ok)
  | .error message => (failPendingOp db op.id message, .ok .repairNeeded)

def listPendingOps (db : Database) (nodeId : String) : List PendingOpRow :=
  db.pendingOps.filter (·.nodeId = nodeId)

inductive OpKind where
  | move
  | delete
deriving DecidableEq

def PendingOp.kind : PendingOp → OpKind
  | .move .. => .move
  | .delete .. => .delete

def PendingOp.filename : PendingOp → String
  | .move _ _ _ _ _ filename _ => filename
  | .delete _ _ filename _ _ => filename

structure PendingRepair where
  fileId : ℕ
  op : OpKind
  attempts : ℕ
  lastError : String
deriving DecidableEq

structure RetryResult where
  repaired : List (ℕ × OpKind × String) := []
  pendingRepairs : List PendingRepair := []
deriving DecidableEq

def retryReport (world : World) (db : Database) (op : PendingOpRow) : RetryResult :=
  match runPendingOp world db op with
  | .ok _ => { repaired := [(op.fileId, PendingOp.kind op.payload, PendingOp.filename op.payload)] }
  | .error message =>
    { pendingRepairs := [⟨op.fileId, PendingOp.kind op.payload, op.attempts + 1, message⟩] }

def retryPendingOps (worlds : ℕ → World) (db : Database) :
    List PendingOpRow → Database × RetryResult
  | [] => (db, {})
  | op :: rest =>
    let report := retryReport (worlds op.id) db op
    let (last, others) := retryPendingOps worlds (retryPendingOp (worlds op.id) db op).1 rest
    (last, ⟨report.repaired ++ others.repaired, report.pendingRepairs ++ others.pendingRepairs⟩)

def retryPendingFileOps (worlds : ℕ → World) (db : Database) (nodeId : String) :
    Database × RetryResult :=
  retryPendingOps worlds db (listPendingOps db nodeId)

end

open Files RemoteSweep RemoteWatch

universe u

inductive FileStep (Bytes : Type u) where
  | moveFile (server : Server) (world : World) (a : MoveFileArgs)
  | renameFile (server : Server) (world : World) (fileId : ℕ) (newFilename : String)
  | renameFolderFile (server : Server) (world : World) (nodeId : String) (f : FolderFile)
  | deleteFile (server : Server) (world : World) (a : DeleteFileArgs)
  | renameFileRemote (server : Server) (world : World) (fileId : ℕ) (newFilename : String)
  | deleteFileRemote (server : Server) (world : World) (a : DeleteFileRemoteArgs)
  | deleteRemovedRecord (call : Call Bytes) (nodeId : String) (r : FileRow)
  | relocateWatchedRecord (call : Call Bytes) (nodeId : String) (path : RemotePath) (r : FileRow)
  | retryPendingOp (world : World) (op : PendingOpRow)

variable {Bytes : Type u}

def FileStep.perform (db : Database) : FileStep Bytes → Database
  | .moveFile server world a => (FileOps.moveFile server world db a).1
  | .renameFile server world fileId name => (FileOps.renameFile server world db fileId name).1
  | .renameFolderFile server world nodeId f =>
    (FileOps.renameFolderFile server world db nodeId f).1
  | .deleteFile server world a => (FileOps.deleteFile server world db a).1
  | .renameFileRemote server world fileId name =>
    (FileOps.renameFileRemote server world db fileId name).1
  | .deleteFileRemote server world a => (FileOps.deleteFileRemote server world db a).1
  | .deleteRemovedRecord call nodeId r =>
    (deleteRemovedRecords call nodeId [r]).statements.foldl Database.apply db
  | .relocateWatchedRecord call nodeId path r =>
    (RemoteWatch.relocateWatchedRecord call db nodeId path r).foldl Database.apply db
  | .retryPendingOp world op => (FileOps.retryPendingOp world db op).1

def FileStep.now : FileStep Bytes → ℕ
  | .moveFile _ world _ => world.now
  | .renameFile _ world _ _ => world.now
  | .renameFolderFile _ world _ _ => world.now
  | .deleteFile _ world _ => world.now
  | .renameFileRemote _ world _ _ => world.now
  | .deleteFileRemote _ world _ => world.now
  | .deleteRemovedRecord call _ _ => call.now
  | .relocateWatchedRecord call _ _ _ => call.now
  | .retryPendingOp world _ => world.now

/-- An operation of the server. What happens outside the database may differ from
file to file. -/
inductive Operation (Bytes : Type u) where
  | moveFile (server : Server) (world : World) (a : MoveFileArgs)
  | renameFile (server : Server) (world : World) (fileId : ℕ) (newFilename : String)
  | renameFolder (server : Server) (worlds : ℕ → World) (now : ℕ) (a : RenameFolderArgs)
  | deleteFile (server : Server) (world : World) (a : DeleteFileArgs)
  | deleteFiles (server : Server) (worlds : ℕ → World) (a : DeleteFilesArgs)
  | renameFileRemote (server : Server) (world : World) (fileId : ℕ) (newFilename : String)
  | deleteFileRemote (server : Server) (world : World) (a : DeleteFileRemoteArgs)
  | deleteRemovedRecords (call : Call Bytes) (nodeId : String) (candidates : List FileRow)
  | relocateWatchedRecord (call : Call Bytes) (nodeId : String) (path : RemotePath)
      (fileId : String)
  | retryPendingFileOps (worlds : ℕ → World) (nodeId : String)

/-- The steps of an operation that starts on the database `db`. -/
def Operation.fileSteps (db : Database) : Operation Bytes → List (FileStep Bytes)
  | .moveFile server world a => [.moveFile server world a]
  | .renameFile server world fileId name => [.renameFile server world fileId name]
  | .renameFolder server worlds now a =>
    if a.dryRun then []
    else
      match renameFolderFiles server db a with
      | .error _ => []
      | .ok files => (files.take a.limit).map fun f =>
        .renameFolderFile server { worlds f.fileId with now := now } a.nodeId f
  | .deleteFile server world a => [.deleteFile server world a]
  | .deleteFiles server worlds a =>
    if !a.confirmed then []
    else
      match deleteFilesIds server db a with
      | .error _ => []
      | .ok ids => ids.map fun id => .deleteFile server (worlds id) ⟨id, a.complete, true⟩
  | .renameFileRemote server world fileId name => [.renameFileRemote server world fileId name]
  | .deleteFileRemote server world a => [.deleteFileRemote server world a]
  | .deleteRemovedRecords call nodeId candidates =>
    candidates.map (.deleteRemovedRecord call nodeId)
  | .relocateWatchedRecord call nodeId path fileId =>
    ((movedRecord call db path (some fileId)).map (.relocateWatchedRecord call nodeId path)).toList
  | .retryPendingFileOps worlds nodeId =>
    (listPendingOps db nodeId).map fun op => .retryPendingOp (worlds op.id) op

def Operation.closing (db : Database) : Operation Bytes → List AuditRow
  | .renameFolder server _ now a =>
    if a.dryRun then []
    else
      match renameFolderFiles server db a with
      | .error _ => []
      | .ok files => [folderAudit server a (files.length - a.limit) now]
  | _ => []

def performSteps (db : Database) (steps : List (FileStep Bytes)) : Database :=
  steps.foldl FileStep.perform db

def Operation.perform (db : Database) (op : Operation Bytes) : Database :=
  (op.closing db).foldl Database.insertAudit (performSteps db (op.fileSteps db))

def operationStep (db : Database) (op : Operation Bytes) : Option Database :=
  some (op.perform db)

theorem performSteps_retryPendingOps (worlds : ℕ → World) (ops : List PendingOpRow)
    (db : Database) :
    performSteps db (ops.map fun op => (.retryPendingOp (worlds op.id) op : FileStep Bytes)) =
      (retryPendingOps worlds db ops).1 := by
  induction ops generalizing db with
  | nil => rfl
  | cons op rest ih => exact ih _

end Portuni.FileOps
