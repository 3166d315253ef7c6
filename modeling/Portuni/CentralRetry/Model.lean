import Portuni.FileOps.RemoteMutations

/-!
The state of the central server and its remotes, and what the handlers of an
agent's mutations share: the attempt a request is handled in, its errors, the
target of a byte write and the file record behind it.
-/

namespace Portuni.CentralRetry

open Content FileOps Files RemoteSweep

universe u

/-- An object on a remote. A native one has no byte round trip and no hash. -/
structure RemoteObject (Bytes : Type u) where
  bytes : Bytes
  isNativeFormat : Bool
  remoteFileId : Option String
deriving DecidableEq

abbrev Objects (Bytes : Type u) := String → RemotePath → Option (RemoteObject Bytes)

def Objects.set {Bytes : Type u} (objects : Objects Bytes) (remoteName : String)
    (path : RemotePath) (object : Option (RemoteObject Bytes)) : Objects Bytes :=
  fun name p => if name = remoteName ∧ p = path then object else objects name p

structure SessionRow where
  id : ℕ
  nodeId : String
  userId : String
  sessionType : String
  runner : String
  instanceId : Option String
  hostId : Option String
  model : Option String
  effort : Option String
  state : String
  name : String
  createdAt : String

structure SessionRunRow where
  id : ℕ
  sessionId : ℕ
  runner : String
  instanceId : Option String
  hostId : Option String
  agentSessionId : Option String
  resumedFromRunId : Option ℕ
  startedAt : String

structure CentralState (Bytes : Type u) where
  db : Database
  objects : Objects Bytes
  sessions : List SessionRow
  runs : List SessionRunRow

/-- The central server: it has no mirrors and is no local workspace. `gate` is the
refusal of `openWritableNode`, where it refuses. -/
structure CentralServer (Bytes : Type u) extends Server where
  hashing : Hashing Bytes
  md5_lower : ∀ bytes, (hashing.md5Buffer bytes).toLower = hashing.md5Buffer bytes
  sha256_lower : ∀ bytes, (hashing.sha256Buffer bytes).toLower = hashing.sha256Buffer bytes
  backend : String → Backend
  gate : String → Option (String × String)
  visible : String → Bool
  nodeName : String → Option String
  utf8 : String → Bytes
  /-- `openWritableNode` starts with the check that the node is visible. -/
  visible_of_gate : ∀ {nodeId}, gate nodeId = none → visible nodeId = true
  team : localWorkspace = false
  mirrorless : ∀ nodeId, mirrorPath nodeId = none
  nfc_nfc : ∀ name, nfc (nfc name) = nfc name
  /-- Every node but an organization belongs to one, and is of one of the known types. -/
  member : ∀ {nodeId info}, nodeInfo nodeId = some info → info.nodeType ≠ "organization" →
    info.orgSyncKey.isSome ∧ FileSection.ofSegment (typePlural info.nodeType) = none

/-- What a mutating call of an adapter comes to: a failed one may have taken effect. -/
inductive CallAnswer where
  | done
  | failed (message : String) (tookEffect : Bool)
deriving DecidableEq

def CallAnswer.tookEffect : CallAnswer → Bool
  | .done => true
  | .failed _ tookEffect => tookEffect

def CallAnswer.toExcept : CallAnswer → Except String Unit
  | .done => .ok ()
  | .failed message _ => .error message

/-- What happens around one handling of a request: the clock, the answers of the
adapters, and the id a backend gives to a new object. -/
structure Attempt where
  now : ℕ
  nowIso : String
  statFails : String → RemotePath → Option String
  getFails : String → RemotePath → Option String
  put : CallAnswer
  copy : CallAnswer
  deleteSource : CallAnswer
  delete : CallAnswer
  newFileId : Option String

structure Attempt.Answers (attempt : Attempt) : Prop where
  stat : ∀ name path, attempt.statFails name path = none
  get : ∀ name path, attempt.getFails name path = none
  put : attempt.put = .done

inductive ErrorCode where
  | noRemote
  | notEditable
  | conflict
  | exists
  | invalidPath
  | nodeNotFound
  | fileNotFound
  | sessionNotFound
  | other (code : String)
deriving DecidableEq

/-- An error answer. One without a code is a plain `Error`. -/
structure RequestError where
  code : Option ErrorCode
  message : String
  currentVersion : Option String := none
  params : List (String × String) := []
deriving DecidableEq

def plainError (message : String) : RequestError := ⟨none, message, none, []⟩

def pathText (path : RemotePath) : String := String.intercalate "/" path

def invalidPath (path : RemotePath) : RequestError :=
  ⟨some .invalidPath, "invalid path: " ++ pathText path, none, [("path", pathText path)]⟩

def nativeBytesError (path : RemotePath) : RequestError :=
  ⟨some .notEditable, "file is a native format, no byte round-trip: " ++ pathText path, none,
    [("path", pathText path)]⟩

variable {Bytes : Type u} (server : CentralServer Bytes)

namespace CentralServer

/-- The ref of an object, under the hash its backend reports in that call. -/
def refOf (reported : Bytes → Option String) (object : RemoteObject Bytes) : FileRef where
  hash := if object.isNativeFormat then none else reported object.bytes
  isNativeFormat := object.isNativeFormat
  remoteFileId := object.remoteFileId

def stat (attempt : Attempt) (objects : Objects Bytes) (name : String) (path : RemotePath) :
    Except String (Option FileRef) :=
  match attempt.statFails name path with
  | some message => .error message
  | none => .ok ((objects name path).map (refOf (server.hashing.statHash (server.backend name))))

def get (attempt : Attempt) (objects : Objects Bytes) (name : String) (path : RemotePath) :
    Except String Bytes :=
  match attempt.getFails name path, objects name path with
  | some message, _ => .error message
  | none, none => .error ("get: file not found at " ++ pathText path)
  | none, some object => .ok object.bytes

def putObject (attempt : Attempt) (old : Option (RemoteObject Bytes)) (bytes : Bytes) :
    RemoteObject Bytes :=
  match old with
  | some object => { object with bytes := bytes }
  | none => ⟨bytes, false, attempt.newFileId⟩

def pushedHash (name : String) (object : RemoteObject Bytes) : String :=
  match (refOf (server.hashing.putHash (server.backend name)) object).hash with
  | some hash => hash.toLower
  | none => server.hashing.sha256Buffer object.bytes

end CentralServer

def invalidSection (path : RemotePath) : RequestError :=
  ⟨some .invalidPath, "invalid section in path: " ++ pathText path, none, [("path", pathText path)]⟩

def parseRelPath (relPath : RemotePath) :
    Except RequestError (FileSection × Option RemotePath × String) :=
  match unsafeRelativePath "file-content-remote.relPath" relPath with
  | some _ => .error (invalidPath relPath)
  | none =>
    match relPath with
    | [] => .error (invalidPath relPath)
    | first :: rest =>
      match FileSection.ofSegment first with
      | none => .error (invalidSection relPath)
      | some fileSection =>
        match rest.getLast? with
        | none =>
          .error ⟨some .invalidPath, "path has no filename: " ++ pathText relPath, none,
            [("path", pathText relPath)]⟩
        | some filename =>
          let middle := rest.dropLast
          .ok (fileSection, if middle = [] then none else some middle, filename)

def remoteOf (nodeId : String) : Except RequestError (NodeInfo × Option String) :=
  match server.resolveNodeInfo nodeId with
  | .error message => .error ⟨some .nodeNotFound, message, none, [("nodeId", nodeId)]⟩
  | .ok info => .ok (info, server.resolveRemote info)

def noRemote (nodeId : String) (info : NodeInfo) : RequestError :=
  ⟨some .noRemote, "no remote routed for node " ++ nodeId ++ " (type=" ++ info.nodeType ++
    ", org=" ++ info.orgSyncKey.getD "null" ++ ")", none, []⟩

structure RemoteTarget where
  remoteName : String
  remotePath : RemotePath
  filename : String

def resolveRemoteTarget (nodeId : String) (relPath : RemotePath) :
    Except RequestError RemoteTarget := do
  let (info, remoteName) ← remoteOf server nodeId
  let some remoteName := remoteName | throw (noRemote nodeId info)
  let (fileSection, subpath, filename) ← parseRelPath relPath
  match buildRemotePath info fileSection subpath filename with
  | .error _ => throw (invalidPath relPath)
  | .ok remotePath => return { remoteName, remotePath, filename }

def getFileRecord (db : Database) (nodeId : String) (remotePath : RemotePath) : Option FileRow :=
  db.files.find? fun r => r.nodeId = nodeId && r.remotePath = some remotePath

def persistFileId (db : Database) (id : ℕ) (proved : Option String) : Database :=
  match proved with
  | none => db
  | some remoteFileId => db.updateFile id fun r => { r with remoteFileId := some remoteFileId }

def backfillRemoteHash (db : Database) (record : Option FileRow) (observedHash : Option String)
    (observedFileId : Option String) : Database :=
  match record with
  | none => db
  | some r =>
    let db := persistFileId db r.id observedFileId
    match observedHash with
    | none => db
    | some hash =>
      if r.currentRemoteHash = some hash then db
      else db.updateFile r.id fun r => { r with currentRemoteHash := some hash }

def recordRemotePush (db : Database) (id : ℕ) (remoteName canonicalHash : String) : Database :=
  db.updateFile id fun r =>
    { r with remoteName := some remoteName, currentRemoteHash := some canonicalHash }

end Portuni.CentralRetry
