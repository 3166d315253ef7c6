import Portuni.RemoteWatch.Model

namespace Portuni.FileOps

/-!
What the relocations of a file share: the pending operation recorded before the
first side effect, the step on the remote, and the write to the record.
-/

section

open Content Files RemoteSweep RemoteWatch

inductive SubStep where
  | copy
  | deleteSource
deriving DecidableEq

inductive RelocateStatus where
  | moved
  | alreadyAtTarget
deriving DecidableEq

structure RelocateParams where
  fromRemoteName : String
  fromRemotePath : RemotePath
  toRemoteName : String
  toRemotePath : RemotePath
  sourceCopied : Bool := false

/-- What the two backends answer to one relocation. `copy` is the rename, or the
get and put between two backends. -/
structure RelocateAnswers where
  atFrom : Except String (Option FileRef)
  atTo : Except String (Option FileRef)
  copy : Except String Unit
  deleteSource : Except String Unit

/-- Two hashes that can be compared: both known and of one algorithm. -/
def sameContent (atFrom atTo : FileRef) : Bool :=
  match atFrom.hash, atTo.hash with
  | some h, some h' => if h.length = h'.length then h.toLower = h'.toLower else true
  | _, _ => true

/-- Stat both sides before touching anything. A failure tells how far it got. -/
def relocateRemoteObject (p : RelocateParams) (answers : RelocateAnswers) :
    Except (SubStep × String) RelocateStatus :=
  if p.fromRemoteName = p.toRemoteName && p.fromRemotePath = p.toRemotePath then
    .ok .alreadyAtTarget
  else
    match answers.atFrom, answers.atTo with
    | .error message, _ => .error (.copy, message)
    | _, .error message => .error (.copy, message)
    | .ok (some atFrom), .ok (some atTo) =>
      if p.sourceCopied && sameContent atFrom atTo then
        match answers.deleteSource with
        | .ok () => .ok .moved
        | .error message => .error (.deleteSource, message)
      else
        .error (.copy, "both " ++ String.intercalate "/" p.fromRemotePath ++ " and " ++
          String.intercalate "/" p.toRemotePath ++ " exist on the remote")
    | .ok none, .ok none =>
      .error (.copy, "neither " ++ String.intercalate "/" p.fromRemotePath ++ " nor " ++
        String.intercalate "/" p.toRemotePath ++ " exists on the remote")
    | .ok none, .ok (some _) => .ok .alreadyAtTarget
    | .ok (some _), .ok none =>
      match answers.copy with
      | .error message => .error (.copy, message)
      | .ok () =>
        if p.fromRemoteName = p.toRemoteName then .ok .moved
        else
          match answers.deleteSource with
          | .ok () => .ok .moved
          | .error message => .error (.deleteSource, message)

def enqueuePendingOp (db : Database) (userId nodeId : String) (fileId : ℕ) (payload : PendingOp) :
    Database × ℕ :=
  ({ db with
      pendingOps := db.pendingOps ++ [⟨db.nextId, userId, nodeId, fileId, payload, 0, none⟩]
      nextId := db.nextId + 1 }, db.nextId)

def completePendingOp (db : Database) (id : ℕ) : Database :=
  { db with pendingOps := db.pendingOps.filter (·.id ≠ id) }

def updatePendingOp (db : Database) (id : ℕ) (set : PendingOpRow → PendingOpRow) : Database :=
  { db with pendingOps := db.pendingOps.map fun op => if op.id = id then set op else op }

def failPendingOp (db : Database) (id : ℕ) (error : String) : Database :=
  updatePendingOp db id fun op => { op with attempts := op.attempts + 1, lastError := some error }

/-- The copy landed, so a retry may finish the delete of the source. -/
def markPendingMoveSourceCopied (db : Database) (id : ℕ) : Database :=
  updatePendingOp db id fun op =>
    { op with
      payload :=
        match op.payload with
        | .move fromName fromPath toName toPath toNode filename _ =>
          .move fromName fromPath toName toPath toNode filename true
        | payload => payload }

/-- Write the new path onto the record. A row that holds the path already is
folded in; both statements are one batch. -/
def writeRelocatedRecord (db : Database) (fileId : ℕ) (nodeId : String) (newRemotePath : RemotePath)
    (set : FileRow → FileRow) : Database :=
  (db.dropShadow (shadowOf db nodeId newRemotePath fileId)).updateFile fileId set

/-- How an operation ended: what it answers, or the message it throws. -/
inductive OpStatus where
  | ok
  | repairNeeded
  | preview
  | alreadyDeleted

abbrev OpOutcome := Database × Except String OpStatus

/-- What renaming the local copy came to. A missing copy is no failure. -/
inductive LocalRename where
  | renamed
  | missing
  | failed (message : String)

structure Server where
  userId : String
  localWorkspace : Bool
  nodeInfo : String → Option NodeInfo
  resolveRemote : NodeInfo → Option String
  mirrorPath : String → Option LocalPath
  nfc : String → String

def Server.resolveNodeInfo (server : Server) (nodeId : String) : Except String NodeInfo :=
  match server.nodeInfo nodeId with
  | some info => .ok info
  | none => .error ("Node " ++ nodeId ++ " not found")

/-- The local copy of the file at `remotePath` of a node, where it can have one. -/
def Server.localCopy (server : Server) (nodeId : String) (info : NodeInfo)
    (remotePath : RemotePath) : Option LocalPath :=
  (server.mirrorPath nodeId).bind fun mirrorRoot =>
    ((buildNodeRoot info).bind fun nodeRoot =>
      deriveLocalPath mirrorRoot nodeRoot remotePath).toOption

/-- What happens outside the database while one record is worked on. -/
structure World where
  now : ℕ
  relocation : RelocateAnswers
  stat : Except String (Option FileRef)
  delete : Except String Unit
  localRename : LocalRename

def World.renameLocal (world : World) (oldLocal newLocal : Option LocalPath) : LocalRename :=
  match oldLocal, newLocal with
  | some oldPath, some newPath => if oldPath = newPath then .missing else world.localRename
  | _, _ => .missing

def World.deleteObject (world : World) : Except String Unit :=
  match world.stat with
  | .error message => .error message
  | .ok none => .ok ()
  | .ok (some _) => world.delete

def fileNotFound (fileId : ℕ) : String := "File " ++ toString fileId ++ " not found"

def noRemoteBinding (fileId : ℕ) : String :=
  "File " ++ toString fileId ++ " has no remote binding"

def sampleServer : Server where
  userId := "user"
  localWorkspace := false
  nodeInfo nodeId := if nodeId = "node" then some ⟨some "org", "project", "key"⟩ else none
  resolveRemote _ := some "drive"
  mirrorPath _ := none
  nfc name := name

def sampleWorld : World where
  now := 1000
  relocation :=
    { atFrom := .ok (some ⟨none, false, none⟩)
      atTo := .ok none
      copy := .ok ()
      deleteSource := .ok () }
  stat := .ok (some ⟨none, false, none⟩)
  delete := .ok ()
  localRename := .missing

def pushedFile (filename : String) : FileRow where
  id := 0
  nodeId := "node"
  filename := filename
  remoteName := some "drive"
  remotePath := some ["org", "projects", "key", "wip", filename]
  remoteFileId := none
  currentRemoteHash := some (sampleHashing.md5Buffer true)
  isNativeFormat := false

def onePushedFile : Database := ⟨[pushedFile "old.md"], [], [], 1⟩

theorem keyed_onePushedFile : onePushedFile.Keyed where
  nodup := by decide
  lt := by decide

end

open Files RemoteSweep

structure MoveFileArgs where
  fileId : ℕ
  newSubpath : Option RemotePath := none
  newSection : Option FileSection := none
  newNodeId : Option String := none
  newFilename : Option String := none
  confirmed : Bool := false

/-- What `moveFile` has settled before it changes anything. -/
structure MovePlan where
  row : FileRow
  oldRemoteName : Option String
  oldRemotePath : RemotePath
  targetNodeId : String
  newRemoteName : Option String
  filename : String
  newRemotePath : RemotePath
  oldLocalPath : Option LocalPath
  newLocalPath : Option LocalPath

/-- The path a record is bound to: a path, and on a server with remotes a remote. -/
def boundPath (server : Server) (r : FileRow) : Except String RemotePath :=
  match r.remotePath with
  | some path =>
    if !server.localWorkspace && r.remoteName.isNone then .error (noRemoteBinding r.id)
    else .ok path
  | none => .error (noRemoteBinding r.id)

def planMove (server : Server) (db : Database) (a : MoveFileArgs) : Except String MovePlan := do
  let some row := db.fileById a.fileId | .error (fileNotFound a.fileId)
  let oldRemotePath ← boundPath server row
  let oldRemoteName := if server.localWorkspace then none else row.remoteName
  let targetNodeId := a.newNodeId.getD row.nodeId
  let newInfo ← server.resolveNodeInfo targetNodeId
  let newRemoteName := server.resolveRemote newInfo
  if !server.localWorkspace && newRemoteName.isNone then throw "No remote for target node"
  let filename := server.nfc (a.newFilename.getD row.filename)
  let newRemotePath ← buildRemotePath newInfo
    (a.newSection.getD (inferSectionFromPath oldRemotePath)) a.newSubpath filename
  let oldInfo ← server.resolveNodeInfo row.nodeId
  return {
    row, oldRemoteName, oldRemotePath, targetNodeId, newRemoteName, filename, newRemotePath
    oldLocalPath := server.localCopy row.nodeId oldInfo oldRemotePath
    newLocalPath := server.localCopy targetNodeId newInfo newRemotePath }

def moveAudit (server : Server) (plan : MovePlan) (localError : Option String) (now : ℕ) :
    AuditRow where
  userId := server.userId
  action := .syncMove
  target := .file plan.row.id
  detail := [("node_id", .text plan.row.nodeId), ("old_remote_path", .path plan.oldRemotePath),
    ("old", .binding plan.oldRemoteName (some plan.oldRemotePath) (some plan.oldLocalPath)),
    ("new", .binding plan.newRemoteName (some plan.newRemotePath) (some plan.newLocalPath)),
    ("cross_node", .flag (plan.targetNodeId ≠ plan.row.nodeId)),
    ("cross_remote", .flag (plan.newRemoteName ≠ plan.oldRemoteName))] ++
    (localError.map fun message => ("local_error", DetailValue.text message)).toList
  timestamp := now

def movePartialAudit (server : Server) (plan : MovePlan) (localError : String) (now : ℕ) :
    AuditRow where
  userId := server.userId
  action := .syncMovePartial
  target := .file plan.row.id
  detail := [("remote_ok", .flag true), ("local_error", .text localError),
    ("old_local_path", .ofPath plan.oldLocalPath), ("new_local_path", .ofPath plan.newLocalPath)]
  timestamp := now

def MovePlan.write (plan : MovePlan) (db : Database) : Database :=
  writeRelocatedRecord db plan.row.id plan.targetNodeId plan.newRemotePath fun r =>
    { r with remoteName := plan.newRemoteName, remotePath := some plan.newRemotePath,
             nodeId := plan.targetNodeId, filename := plan.filename }

/-- The move in a local workspace: no remote object, no pending operation. -/
def moveFileLocalOnly (server : Server) (world : World) (db : Database) (plan : MovePlan) :
    OpOutcome :=
  match world.renameLocal plan.oldLocalPath plan.newLocalPath with
  | .failed message => (db, .error message)
  | _ =>
    let written := { plan with newRemoteName := none }.write db
    (written.insertAudit (moveAudit server plan none world.now), .ok .ok)

def MovePlan.payload (plan : MovePlan) : PendingOp :=
  .move (plan.oldRemoteName.getD "") plan.oldRemotePath (plan.newRemoteName.getD "")
    plan.newRemotePath plan.targetNodeId plan.filename false

def MovePlan.relocation (plan : MovePlan) : RelocateParams where
  fromRemoteName := plan.oldRemoteName.getD ""
  fromRemotePath := plan.oldRemotePath
  toRemoteName := plan.newRemoteName.getD ""
  toRemotePath := plan.newRemotePath

/-- The move on a server with remotes: the remote first, then the local copy, then
the record with its tombstone. -/
def moveFileRouted (server : Server) (world : World) (db : Database) (plan : MovePlan) :
    OpOutcome :=
  let (db, pendingOpId) :=
    enqueuePendingOp db server.userId plan.row.nodeId plan.row.id plan.payload
  match relocateRemoteObject plan.relocation world.relocation with
  | .error (subStep, message) =>
    let db := if subStep = .deleteSource then markPendingMoveSourceCopied db pendingOpId else db
    (failPendingOp db pendingOpId message, .ok .repairNeeded)
  | .ok _ =>
    match world.renameLocal plan.oldLocalPath plan.newLocalPath with
    | .failed message =>
      -- The object is at its new path whatever became of the local copy: the
      -- ordinary tombstone is written too.
      let db := (plan.write db).insertAudit (movePartialAudit server plan message world.now)
      let db := db.insertAudit (moveAudit server plan (some message) world.now)
      (completePendingOp db pendingOpId, .ok .repairNeeded)
    | _ =>
      let db := (plan.write db).insertAudit (moveAudit server plan none world.now)
      (completePendingOp db pendingOpId, .ok .ok)

def moveFile (server : Server) (world : World) (db : Database) (a : MoveFileArgs) : OpOutcome :=
  match planMove server db a with
  | .error message => (db, .error message)
  | .ok plan =>
    if !a.confirmed then (db, .ok .preview)
    else if server.localWorkspace then moveFileLocalOnly server world db plan
    else moveFileRouted server world db plan

def invalidFilename (name : String) : Bool :=
  name = "" || name = "." || name = ".." ||
    name.toList.any fun c => c = '/' || c = '\\' || c = '\x00'

structure RenamePlan where
  row : FileRow
  oldRemotePath : RemotePath
  newFilename : String
  newRemotePath : RemotePath

/-- Swap the last segment of the path, which has to be the record's filename. -/
def planRename (db : Database) (fileId : ℕ) (newFilename : String)
    (bound : FileRow → Except String RemotePath) : Except String RenamePlan := do
  if invalidFilename newFilename then throw ("Invalid filename: " ++ newFilename)
  let some row := db.fileById fileId | .error (fileNotFound fileId)
  let oldRemotePath ← bound row
  if oldRemotePath.getLast? ≠ some row.filename then
    throw ("Remote path " ++ String.intercalate "/" oldRemotePath ++ " does not end with /" ++
      row.filename)
  return {
    row, oldRemotePath, newFilename
    newRemotePath := oldRemotePath.dropLast ++ [newFilename] }

def RenamePlan.detail (plan : RenamePlan) : Detail :=
  [("old_filename", .text plan.row.filename), ("new_filename", .text plan.newFilename),
    ("old_remote_path", .path plan.oldRemotePath), ("new_remote_path", .path plan.newRemotePath)]

def renameAudit (server : Server) (plan : RenamePlan) (now : ℕ) : AuditRow where
  userId := server.userId
  action := .syncRename
  target := .file plan.row.id
  detail := ("node_id", .text plan.row.nodeId) :: plan.detail
  timestamp := now

def RenamePlan.write (plan : RenamePlan) (db : Database) : Database :=
  writeRelocatedRecord db plan.row.id plan.row.nodeId plan.newRemotePath fun r =>
    { r with filename := plan.newFilename, remotePath := some plan.newRemotePath }

def RenamePlan.payload (plan : RenamePlan) (remoteName : String) : PendingOp :=
  .move remoteName plan.oldRemotePath remoteName plan.newRemotePath plan.row.nodeId
    plan.newFilename false

def RenamePlan.relocation (plan : RenamePlan) (remoteName : String) : RelocateParams where
  fromRemoteName := remoteName
  fromRemotePath := plan.oldRemotePath
  toRemoteName := remoteName
  toRemotePath := plan.newRemotePath

def localCopies (server : Server) (nodeId : String) (oldPath newPath : RemotePath) :
    Option LocalPath × Option LocalPath :=
  match server.nodeInfo nodeId with
  | none => (none, none)
  | some info =>
    match server.localCopy nodeId info oldPath, server.localCopy nodeId info newPath with
    | some oldLocal, some newLocal => (some oldLocal, some newLocal)
    | _, _ => (none, none)

/-- The record follows the object whether or not the local copy could. -/
def finishRename (server : Server) (world : World) (db : Database) (plan : RenamePlan) :
    OpOutcome :=
  let (oldLocal, newLocal) :=
    localCopies server plan.row.nodeId plan.oldRemotePath plan.newRemotePath
  let written := (plan.write db).insertAudit (renameAudit server plan world.now)
  match world.renameLocal oldLocal newLocal with
  | .failed _ => (written, .ok .repairNeeded)
  | _ => (written, .ok .ok)

def renameFile (server : Server) (world : World) (db : Database) (fileId : ℕ)
    (newFilename : String) : OpOutcome :=
  match planRename db fileId newFilename (boundPath server) with
  | .error message => (db, .error message)
  | .ok plan =>
    if server.localWorkspace then finishRename server world db plan
    else
      let remoteName := plan.row.remoteName.getD ""
      let (db, pendingOpId) :=
        enqueuePendingOp db server.userId plan.row.nodeId plan.row.id (plan.payload remoteName)
      match relocateRemoteObject (plan.relocation remoteName) world.relocation with
      | .error (_, message) => (failPendingOp db pendingOpId message, .error message)
      | .ok _ =>
        let (db, result) := finishRename server world db plan
        (completePendingOp db pendingOpId, result)

structure FolderFile where
  fileId : ℕ
  filename : String
  remoteName : Option String
  oldRemotePath : RemotePath
  newRemotePath : RemotePath

def folderRenameAudit (server : Server) (nodeId : String) (f : FolderFile) (now : ℕ) : AuditRow where
  userId := server.userId
  action := .syncRename
  target := .file f.fileId
  detail := [("node_id", .text nodeId), ("old_remote_path", .path f.oldRemotePath),
    ("new_remote_path", .path f.newRemotePath), ("via", .text "rename_folder")]
  timestamp := now

def finishFolderFile (server : Server) (world : World) (db : Database) (nodeId : String)
    (f : FolderFile) : OpOutcome :=
  let (oldLocal, newLocal) := localCopies server nodeId f.oldRemotePath f.newRemotePath
  let written := writeRelocatedRecord db f.fileId nodeId f.newRemotePath fun r =>
    { r with remotePath := some f.newRemotePath }
  let written := written.insertAudit (folderRenameAudit server nodeId f world.now)
  match world.renameLocal oldLocal newLocal with
  | .failed _ => (written, .ok .repairNeeded)
  | _ => (written, .ok .ok)

/-- One turn of the loop of `renameFolder`. -/
def renameFolderFile (server : Server) (world : World) (db : Database) (nodeId : String)
    (f : FolderFile) : OpOutcome :=
  if server.localWorkspace then finishFolderFile server world db nodeId f
  else
    match f.remoteName with
    | none => (db, .ok .repairNeeded)
    | some remoteName =>
      let (db, pendingOpId) := enqueuePendingOp db server.userId nodeId f.fileId
        (.move remoteName f.oldRemotePath remoteName f.newRemotePath nodeId f.filename false)
      match relocateRemoteObject ⟨remoteName, f.oldRemotePath, remoteName, f.newRemotePath, false⟩
          world.relocation with
      | .error (_, message) => (failPendingOp db pendingOpId message, .ok .repairNeeded)
      | .ok _ =>
        let (db, result) := finishFolderFile server world db nodeId f
        (completePendingOp db pendingOpId, result)

def byRemotePath (files : List FileRow) : List FileRow :=
  files.mergeSort fun a b =>
    decide (String.intercalate "/" (a.remotePath.getD []) ≤
      String.intercalate "/" (b.remotePath.getD []))

/-- The rows of the node under a folder, as `pathPrefixCondition` selects them. -/
def underFolder (nodeId : String) (folder : RemotePath) (r : FileRow) : Bool :=
  r.nodeId = nodeId && r.remotePath.any fun path => (below folder path).isSome

def folderFiles (server : Server) (db : Database) (nodeId : String)
    (oldAbs newAbs : RemotePath) : List FolderFile :=
  (byRemotePath (db.files.filter (underFolder nodeId oldAbs))).filterMap fun r =>
    r.remotePath.map fun path =>
      { fileId := r.id
        filename := r.filename
        remoteName := if server.localWorkspace then none else r.remoteName
        oldRemotePath := path
        newRemotePath := newAbs ++ path.drop oldAbs.length }

structure RenameFolderArgs where
  nodeId : String
  oldPrefix : RemotePath
  newPrefix : RemotePath
  dryRun : Bool := true
  limit : ℕ := 20

def folderAudit (server : Server) (a : RenameFolderArgs) (remaining now : ℕ) : AuditRow where
  userId := server.userId
  action := .syncRenameFolder
  target := .node a.nodeId
  detail := [("old_prefix", .path a.oldPrefix), ("new_prefix", .path a.newPrefix),
    ("remaining", .number remaining)]
  timestamp := now

def renameFolderFiles (server : Server) (db : Database) (a : RenameFolderArgs) :
    Except String (List FolderFile) := do
  let info ← server.resolveNodeInfo a.nodeId
  let nodeRoot ← buildNodeRoot info
  assertSafeRelativePath "renameFolder.oldPrefix" a.oldPrefix
  assertSafeRelativePath "renameFolder.newPrefix" a.newPrefix
  return folderFiles server db a.nodeId (nodeRoot ++ a.oldPrefix) (nodeRoot ++ a.newPrefix)

def deleteAudit (server : Server) (r : FileRow) (complete : Bool)
    (localPath : Option LocalPath) (now : ℕ) : AuditRow where
  userId := server.userId
  action := .syncDelete
  target := .file r.id
  detail := [("mode", .text (if complete then "complete" else "unregister_only")),
    ("node_id", .text r.nodeId),
    ("remote_name", .ofText (if server.localWorkspace then none else r.remoteName)),
    ("remote_path", .ofPath r.remotePath), ("local_path", .ofPath localPath),
    ("filename", .text r.filename)]
  timestamp := now

def deleteRepairAudit (server : Server) (r : FileRow) (remoteName : String) (path : RemotePath)
    (error : String) (now : ℕ) : AuditRow where
  userId := server.userId
  action := .syncDeleteRepairNeeded
  target := .file r.id
  detail := [("mode", .text "complete"), ("remote_name", .text remoteName),
    ("remote_path", .path path), ("error", .text error)]
  timestamp := now

structure DeleteFileArgs where
  fileId : ℕ
  complete : Bool := true
  confirmed : Bool := false

def finishDelete (server : Server) (world : World) (db : Database) (r : FileRow)
    (complete : Bool) : Database :=
  let localPath := (server.nodeInfo r.nodeId).bind fun info =>
    r.remotePath.bind (server.localCopy r.nodeId info)
  (db.deleteFile r.id).insertAudit (deleteAudit server r complete localPath world.now)

def deleteFile (server : Server) (world : World) (db : Database) (a : DeleteFileArgs) : OpOutcome :=
  match db.fileById a.fileId with
  | none => (db, .error (fileNotFound a.fileId))
  | some r =>
    if !a.confirmed then (db, .ok .preview)
    else
      let remoteName := if server.localWorkspace then none else r.remoteName
      match a.complete, remoteName, r.remotePath with
      | true, some remoteName, some path =>
        let (db, pendingOpId) := enqueuePendingOp db server.userId r.nodeId r.id
          (.delete remoteName path r.filename r.currentRemoteHash r.hadObject)
        match world.deleteObject with
        | .error message =>
          let db := failPendingOp db pendingOpId message
          (db.insertAudit (deleteRepairAudit server r remoteName path message world.now),
            .ok .repairNeeded)
        | .ok () =>
          (completePendingOp (finishDelete server world db r a.complete) pendingOpId, .ok .ok)
      | _, _, _ => (finishDelete server world db r a.complete, .ok .ok)

structure DeleteFilesArgs where
  nodeId : String
  pathPrefixes : List RemotePath := []
  fileIds : List ℕ := []
  complete : Bool := true
  confirmed : Bool := false
  limit : ℕ := 50

/-- The files that one confirmed call of `deleteFiles` deletes. -/
def deleteFilesIds (server : Server) (db : Database) (a : DeleteFilesArgs) :
    Except String (List ℕ) := do
  if a.pathPrefixes.isEmpty && a.fileIds.isEmpty then
    throw "deleteFiles requires path_prefixes or file_ids"
  a.pathPrefixes.forM (assertSafeRelativePath "deleteFiles.pathPrefix")
  let info ← server.resolveNodeInfo a.nodeId
  let nodeRoot ← buildNodeRoot info
  let rows := db.files.filter fun r =>
    r.nodeId = a.nodeId &&
      ((a.pathPrefixes.any fun folder => underFolder a.nodeId (nodeRoot ++ folder) r) ||
        a.fileIds.contains r.id)
  return ((byRemotePath rows).map (·.id)).take a.limit

end Portuni.FileOps
