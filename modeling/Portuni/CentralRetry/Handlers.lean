import Portuni.CentralRetry.Model

/-!
The handlers of the mutations that a sync agent sends to the central server.
-/

namespace Portuni.CentralRetry

open Content FileOps Files RemoteSweep

universe u

variable {Bytes : Type u}

inductive Payload where
  | stored (version canonicalHash : String)
  | created (fileId : ℕ) (filename : String) (remotePath : RemotePath)
  | registered (fileId : ℕ) (filename : String) (remoteName : Option String)
      (remotePath : RemotePath)
  | fileOp (status : OpStatus)
  | session (row : SessionRow)
  | run (row : SessionRunRow)

abbrev Answer := Except RequestError Payload

structure PutArgs (Bytes : Type u) where
  nodeId : String
  relPath : RemotePath
  bytes : Bytes
  baseVersion : Option String := none
  baseCanonicalHash : Option String := none
  ifAbsent : Bool := false
  force : Bool := false

def present (precondition : Option String) : Option String :=
  precondition.filter (· ≠ "")

variable (server : CentralServer Bytes) (attempt : Attempt) (s : CentralState Bytes)

def existsOnRemote (relPath : RemotePath) (filename : String) : RequestError :=
  ⟨some .exists, "file already exists on the remote: " ++ pathText relPath, none,
    [("filename", filename)]⟩

def changedSinceSync (current : String) : RequestError :=
  ⟨some .conflict, "file changed on the remote since the last sync", some current, []⟩

def changedSinceOpened (current : String) : RequestError :=
  ⟨some .conflict, "file changed on the remote since it was opened", some current, []⟩

/-- The hash of the object now, like the base hash where the backend reports none. -/
def currentHash (target : RemoteTarget) (ref : FileRef) (base : String) : Except String String :=
  match ref.hash with
  | some hash => .ok hash.toLower
  | none =>
    (CentralServer.get attempt s.objects target.remoteName target.remotePath).map
      (server.hashing.hashLike base)

/-- The preconditions that one stat decides. What the stat proves goes to the record
whether or not the write is refused. -/
def statPreconditions (target : RemoteTarget) (record : Option FileRow) (a : PutArgs Bytes) :
    Database × Option RequestError :=
  if (a.ifAbsent || (present a.baseCanonicalHash).isSome) && !a.force then
    match server.stat attempt s.objects target.remoteName target.remotePath with
    | .error message => (s.db, some (plainError message))
    | .ok none => (s.db, none)
    | .ok (some ref) =>
      if ref.isNativeFormat then (s.db, some (nativeBytesError a.relPath))
      else if a.ifAbsent then
        (backfillRemoteHash s.db record (ref.hash.map String.toLower) ref.remoteFileId,
          some (existsOnRemote a.relPath target.filename))
      else
        match present a.baseCanonicalHash with
        | none => (s.db, none)
        | some base =>
          match currentHash server attempt s target ref base with
          | .error message => (s.db, some (plainError message))
          | .ok current =>
            (backfillRemoteHash s.db record (some current) ref.remoteFileId,
              if current = base.toLower then none else some (changedSinceSync current))
  else (s.db, none)

/-- `assertBaseVersion`: the refusal of a write whose writer saw other bytes. -/
def baseVersionRefusal (target : RemoteTarget) (a : PutArgs Bytes) : Option RequestError :=
  match present a.baseVersion, a.force with
  | some version, false =>
    match server.stat attempt s.objects target.remoteName target.remotePath with
    | .error message => some (plainError message)
    | .ok none => none
    | .ok (some ref) =>
      if ref.isNativeFormat then some (nativeBytesError a.relPath)
      else
        match CentralServer.get attempt s.objects target.remoteName target.remotePath with
        | .error message => some (plainError message)
        | .ok current =>
          if server.hashing.sha256Buffer current = version then none
          else some (changedSinceOpened (server.hashing.sha256Buffer current))
  | _, _ => none

def recordPut (db : Database) (record : Option FileRow) (remoteName canonicalHash : String)
    (remoteFileId : Option String) : Database :=
  match record with
  | none => db
  | some r =>
    persistFileId (recordRemotePush db r.id remoteName canonicalHash) r.id remoteFileId

def putBytes (target : RemoteTarget) (record : Option FileRow) (bytes : Bytes) :
    CentralState Bytes × Answer :=
  let object := CentralServer.putObject attempt
    (s.objects target.remoteName target.remotePath) bytes
  let objects := s.objects.set target.remoteName target.remotePath (some object)
  match attempt.put with
  | .failed message tookEffect =>
    (if tookEffect then { s with objects } else s, .error (plainError message))
  | .done =>
    let canonicalHash := server.pushedHash target.remoteName object
    let db := recordPut s.db record target.remoteName canonicalHash object.remoteFileId
    ({ s with db, objects }, .ok (.stored (server.hashing.sha256Buffer bytes) canonicalHash))

def writeFileBytesRemote (a : PutArgs Bytes) : CentralState Bytes × Answer :=
  match resolveRemoteTarget server a.nodeId a.relPath with
  | .error e => (s, .error e)
  | .ok target =>
    let record := getFileRecord s.db a.nodeId target.remotePath
    if record.any (·.isNativeFormat) then (s, .error (nativeBytesError a.relPath))
    else
      match statPreconditions server attempt s target record a with
      | (db, some refusal) => ({ s with db }, .error refusal)
      | (db, none) =>
        match baseVersionRefusal server attempt { s with db } target a with
        | some refusal => ({ s with db }, .error refusal)
        | none => putBytes server attempt { s with db } target record a.bytes

structure CreateArgs where
  nodeId : String
  filename : String
  fileSection : Option FileSection := none
  subpath : Option RemotePath := none
  content : Option String := none

def fileExists (filename : String) : RequestError :=
  ⟨some .exists, "file already exists: " ++ filename, none, [("filename", filename)]⟩

def invalidFilenameError (message filename : String) : RequestError :=
  ⟨some .invalidPath, message ++ ": " ++ filename, none, [("filename", filename)]⟩

def createdAudit (fileId : ℕ) (remoteName : String) (remotePath : RemotePath)
    (hash : String) : AuditRow where
  userId := server.userId
  action := .syncCreateRemote
  target := .file fileId
  detail := [("remote_name", .text remoteName), ("remote_path", .path remotePath),
    ("hash", .text hash)]
  timestamp := attempt.now

def insertCreated (a : CreateArgs) (remoteName : String) (remotePath : RemotePath)
    (object : RemoteObject Bytes) : Database :=
  let canonicalHash := server.pushedHash remoteName object
  let row : FileRow := ⟨s.db.nextId, a.nodeId, a.filename, some remoteName, some remotePath,
    object.remoteFileId, some canonicalHash, object.isNativeFormat⟩
  (s.db.apply (.insertFile row)).insertAudit
    (createdAudit server attempt s.db.nextId remoteName remotePath canonicalHash)

def createFileRemote (a : CreateArgs) : CentralState Bytes × Answer :=
  if invalidFilename a.filename then
    (s, .error (invalidFilenameError "invalid filename" a.filename))
  else
    match remoteOf server a.nodeId with
    | .error e => (s, .error e)
    | .ok (info, none) => (s, .error (noRemote a.nodeId info))
    | .ok (info, some remoteName) =>
      match buildRemotePath info (a.fileSection.getD .wip) (a.subpath.filter (· ≠ []))
          a.filename with
      | .error _ => (s, .error (invalidFilenameError "invalid path" a.filename))
      | .ok remotePath =>
        if (getFileRecord s.db a.nodeId remotePath).isSome then
          (s, .error (fileExists a.filename))
        else
          match server.stat attempt s.objects remoteName remotePath with
          | .error message => (s, .error (plainError message))
          | .ok (some _) => (s, .error (fileExists a.filename))
          | .ok none =>
            let object := CentralServer.putObject attempt none (server.utf8 (a.content.getD ""))
            let objects := s.objects.set remoteName remotePath (some object)
            match attempt.put with
            | .failed message tookEffect =>
              (if tookEffect then { s with objects } else s, .error (plainError message))
            | .done =>
              ({ s with db := insertCreated server attempt s a remoteName remotePath object,
                        objects },
                .ok (.created s.db.nextId a.filename remotePath))

def registeredAudit (fileId : ℕ) (remoteName : Option String) (remotePath : RemotePath) :
    AuditRow where
  userId := server.userId
  action := .syncRegisterRemote
  target := .file fileId
  detail := [("remote_name", .ofText remoteName), ("remote_path", .path remotePath)]
  timestamp := attempt.now

def upsertFile (db : Database) (nodeId filename : String) (remoteName : Option String)
    (remotePath : RemotePath) : Database × ℕ :=
  match getFileRecord db nodeId remotePath with
  | some r =>
    (db.updateFile r.id fun r => { r with filename, remoteName := remoteName.or r.remoteName },
      r.id)
  | none =>
    (db.apply (.insertFile ⟨db.nextId, nodeId, filename, remoteName, some remotePath, none, none,
      false⟩), db.nextId)

def registerFileRecordRemote (nodeId : String) (relPath : RemotePath) :
    CentralState Bytes × Answer :=
  match remoteOf server nodeId, parseRelPath relPath with
  | .error e, _ => (s, .error e)
  | _, .error e => (s, .error e)
  | .ok (info, remoteName), .ok (fileSection, subpath, filename) =>
    match buildRemotePath info fileSection subpath filename with
    | .error _ =>
      (s, .error (invalidPath [fileSection.segment, filename]))
    | .ok remotePath =>
      let (db, fileId) := upsertFile s.db nodeId filename remoteName remotePath
      ({ s with
          db := db.insertAudit (registeredAudit server attempt fileId remoteName remotePath) },
        .ok (.registered fileId filename remoteName remotePath))

/-- The answers of the backends to a relocation, as the objects stand. -/
def relocateAnswers (p : RelocateParams) : RelocateAnswers where
  atFrom := server.stat attempt s.objects p.fromRemoteName p.fromRemotePath
  atTo := server.stat attempt s.objects p.toRemoteName p.toRemotePath
  copy := attempt.copy.toExcept
  deleteSource := attempt.deleteSource.toExcept

/-- The objects after a relocation, however it ended. A rename takes the source along. -/
def relocatedObjects (p : RelocateParams) : Objects Bytes :=
  let answers := relocateAnswers server attempt s p
  let copied := s.objects.set p.toRemoteName p.toRemotePath
    (s.objects p.fromRemoteName p.fromRemotePath)
  let moved := copied.set p.fromRemoteName p.fromRemotePath none
  match relocateRemoteObject p answers with
  | .ok .alreadyAtTarget => s.objects
  | .ok .moved => moved
  | .error (.copy, _) =>
    match answers.atFrom, answers.atTo with
    | .ok (some _), .ok none =>
      if !attempt.copy.tookEffect then s.objects
      else if p.fromRemoteName = p.toRemoteName then moved
      else copied
    | _, _ => s.objects
  | .error (.deleteSource, _) => if attempt.deleteSource.tookEffect then moved else copied

def worldOf (p : RelocateParams) : World where
  now := attempt.now
  relocation := relocateAnswers server attempt s p
  stat := server.stat attempt s.objects p.fromRemoteName p.fromRemotePath
  delete := attempt.delete.toExcept
  localRename := .missing

def opAnswer : Except String OpStatus → Answer
  | .ok status => .ok (.fileOp status)
  | .error message => .error (plainError message)

def gateError (refusal : String × String) : RequestError :=
  ⟨some (.other refusal.1), refusal.2, none, []⟩

def fileNotFoundError (fileId : ℕ) : RequestError :=
  ⟨some .fileNotFound, "file not found", none, [("fileId", toString fileId)]⟩

def openFileOwnerNode (urlNodeId : String) (fileId : ℕ) (allowMissing : Bool) :
    Except RequestError String :=
  match server.gate urlNodeId with
  | some refusal => .error (gateError refusal)
  | none =>
    match s.db.fileById fileId with
    | none => if allowMissing then .ok urlNodeId else .error (fileNotFoundError fileId)
    | some r =>
      if r.nodeId = urlNodeId then .ok r.nodeId
      else if !server.visible r.nodeId then .error (fileNotFoundError fileId)
      else
        match server.gate r.nodeId with
        | some refusal => .error (gateError refusal)
        | none => .ok r.nodeId

def handleRenameFile (nodeId : String) (fileId : ℕ) (newFilename : String) :
    CentralState Bytes × Answer :=
  match openFileOwnerNode server s nodeId fileId false with
  | .error e => (s, .error e)
  | .ok _ =>
    match planRename s.db fileId newFilename boundRemote with
    | .error message => (s, .error (plainError message))
    | .ok plan =>
      let p := plan.relocation (plan.row.remoteName.getD "")
      let (db, status) := renameFileRemote server.toServer (worldOf server attempt s p) s.db
        fileId newFilename
      ({ s with db, objects := relocatedObjects server attempt s p }, opAnswer status)

def handleMoveFile (nodeId : String) (a : MoveFileArgs) : CentralState Bytes × Answer :=
  match a.newNodeId.bind server.gate with
  | some refusal => (s, .error (gateError refusal))
  | none =>
    match openFileOwnerNode server s nodeId a.fileId false with
    | .error e => (s, .error e)
    | .ok _ =>
      match planMove server.toServer s.db a with
      | .error message => (s, .error (plainError message))
      | .ok plan =>
        let p := plan.relocation
        let (db, status) := moveFile server.toServer (worldOf server attempt s p) s.db a
        ({ s with
            db
            objects := if a.confirmed then relocatedObjects server attempt s p
              else s.objects },
          opAnswer status)

def bindingOf (r : FileRow) : Option (String × RemotePath) :=
  match r.remoteName, r.remotePath with
  | some name, some path => some (name, path)
  | _, _ => none

def deletedObjects (r : FileRow) : Objects Bytes :=
  match bindingOf r with
  | none => s.objects
  | some (name, path) =>
    match server.stat attempt s.objects name path with
    | .ok (some _) =>
      if attempt.delete.tookEffect then s.objects.set name path none else s.objects
    | _ => s.objects

def handleDeleteFile (nodeId : String) (fileId : ℕ) : CentralState Bytes × Answer :=
  match openFileOwnerNode server s nodeId fileId true with
  | .error e => (s, .error e)
  | .ok ownerNodeId =>
    let row := s.db.fileById fileId
    let p : RelocateParams :=
      match row.bind bindingOf with
      | some (name, path) => ⟨name, path, name, path, false⟩
      | none => ⟨"", [], "", [], false⟩
    match deleteFileRemote server.toServer (worldOf server attempt s p) s.db
        ⟨some ownerNodeId, fileId, true⟩ with
    | (db, .ok status) =>
      ({ s with db, objects := (row.map (deletedObjects server attempt s)).getD s.objects },
        .ok (.fileOp status))
    | (db, .error _) => ({ s with db }, .error (fileNotFoundError fileId))

structure CreateSessionInput where
  nodeId : String
  runner : String
  instanceId : Option String := none
  hostId : Option String := none
  model : Option String := none
  effort : Option String := none

def computeDefaultSessionName (nodeName : Option String) (createdAtIso : String) : String :=
  let date := String.ofList (createdAtIso.toList.take 10)
  let time := String.ofList ((createdAtIso.toList.drop 11).take 5)
  nodeName.getD "Chat" ++ " · " ++ date ++ " " ++ time

def sessionAudit (action : AuditAction) (sessionId : ℕ) (nodeId : String)
    (last : String × DetailValue) : AuditRow where
  userId := server.userId
  action := action
  target := .session sessionId
  detail := [("node_id", .text nodeId), last]
  timestamp := attempt.now

def handleCreateSessionRecord (input : CreateSessionInput) : CentralState Bytes × Answer :=
  if (server.nodeInfo input.nodeId).isNone || !server.visible input.nodeId then
    (s, .error ⟨some .nodeNotFound, "node not found", none, []⟩)
  else
    let session : SessionRow :=
      { id := s.db.nextId
        nodeId := input.nodeId
        userId := server.userId
        sessionType := "interactive_task"
        runner := input.runner
        instanceId := input.instanceId
        hostId := input.hostId
        model := input.model
        effort := input.effort
        state := "running"
        name := computeDefaultSessionName (server.nodeName input.nodeId) attempt.nowIso
        createdAt := attempt.nowIso }
    let created := sessionAudit server attempt .sessionCreate session.id input.nodeId
      ("session_type", .text session.sessionType)
    let recorded := sessionAudit server attempt .sessionRecord session.id input.nodeId
      ("runner", .text input.runner)
    ({ s with
        db := ({ s.db with nextId := s.db.nextId + 1 }.insertAudit created).insertAudit recorded
        sessions := s.sessions ++ [session] },
      .ok (.session session))

structure CreateRunInput where
  sessionId : ℕ
  runner : String
  instanceId : Option String := none
  hostId : Option String := none
  agentSessionId : Option String := none
  resumedFromRunId : Option ℕ := none

def handleCreateSessionRun (input : CreateRunInput) : CentralState Bytes × Answer :=
  match s.sessions.find? (·.id = input.sessionId) with
  | none =>
    (s, .error ⟨some .sessionNotFound, "session " ++ toString input.sessionId ++ " not found",
      none, []⟩)
  | some session =>
    if session.userId ≠ server.userId then
      (s, .error ⟨some .sessionNotFound, "session " ++ toString input.sessionId ++ " not found",
        none, []⟩)
    else
      let run : SessionRunRow :=
        ⟨s.db.nextId, input.sessionId, input.runner, input.instanceId, input.hostId,
          input.agentSessionId, input.resumedFromRunId, attempt.nowIso⟩
      ({ s with
          db := { s.db with nextId := s.db.nextId + 1 }
          runs := s.runs ++ [run] },
        .ok (.run run))

inductive Mutation (Bytes : Type u) where
  | putFileRaw (a : PutArgs Bytes)
  | createFile (a : CreateArgs)
  | registerFile (nodeId : String) (relPath : RemotePath)
  | renameFile (nodeId : String) (fileId : ℕ) (newFilename : String)
  | moveFileRecord (nodeId : String) (a : MoveFileArgs)
  | deleteFileRecord (nodeId : String) (fileId : ℕ)
  | createSessionRecord (input : CreateSessionInput)
  | createSessionRun (input : CreateRunInput)

def gated (nodeId : String) (handled : CentralState Bytes × Answer) :
    CentralState Bytes × Answer :=
  match server.gate nodeId with
  | some refusal => (s, .error (gateError refusal))
  | none => handled

def handle : Mutation Bytes → CentralState Bytes × Answer
  | .putFileRaw a => gated server s a.nodeId (writeFileBytesRemote server attempt s a)
  | .createFile a => gated server s a.nodeId (createFileRemote server attempt s a)
  | .registerFile nodeId relPath =>
    gated server s nodeId (registerFileRecordRemote server attempt s nodeId relPath)
  | .renameFile nodeId fileId newFilename =>
    handleRenameFile server attempt s nodeId fileId newFilename
  | .moveFileRecord nodeId a => handleMoveFile server attempt s nodeId a
  | .deleteFileRecord nodeId fileId => handleDeleteFile server attempt s nodeId fileId
  | .createSessionRecord input => handleCreateSessionRecord server attempt s input
  | .createSessionRun input => handleCreateSessionRun server attempt s input

end Portuni.CentralRetry
