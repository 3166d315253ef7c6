import Portuni.CentralRetry.Handlers
import Portuni.RemoteSweep.Sweep

/-!
Creations, create-only byte writes and sweeps about one path of a node's remote, with their
statements and remote calls in any order: a byte write holds the lock of the path, a creation takes
no lock.
-/

namespace Portuni.Creations

open CentralRetry Content FileOps Files RemoteSweep

universe u

structure Place (Bytes : Type u) where
  server : CentralServer Bytes
  nodeId : String
  nodeRoot : RemotePath
  remoteName : String
  remotePath : RemotePath

variable {Bytes : Type u} (place : Place Bytes) (central : CentralState Bytes)

def Place.object : Option (RemoteObject Bytes) := central.objects place.remoteName place.remotePath

/-- The row stands at the place; the remote is not part of it. -/
def Place.Here (r : FileRow) : Prop := r.nodeId = place.nodeId ∧ r.remotePath = some place.remotePath

def Place.put (object : RemoteObject Bytes) : CentralState Bytes :=
  { central with
    objects := central.objects.set place.remoteName place.remotePath (some object) }

def Place.stat (attempt : Attempt) : Except String (Option FileRef) :=
  place.server.stat attempt central.objects place.remoteName place.remotePath

def Place.get (attempt : Attempt) : Except String Bytes :=
  CentralServer.get attempt central.objects place.remoteName place.remotePath

/-- A call of `createFileRemote`, with the bytes of a binary export where it has them. -/
structure Creation (Bytes : Type u) where
  attempt : Attempt
  args : CreateArgs
  bytes : Option Bytes := none

def createTarget (server : CentralServer Bytes) (c : Creation Bytes) :
    Except RequestError (String × RemotePath) :=
  if invalidFilename c.args.filename then
    .error (invalidFilenameError "invalid filename" c.args.filename)
  else if c.args.content.isSome && c.bytes.isSome then
    .error (plainError "createFileRemote: pass either content or bytes, not both")
  else
    match remoteOf server c.args.nodeId with
    | .error e => .error e
    | .ok (info, none) => .error (noRemote c.args.nodeId info)
    | .ok (info, some remoteName) =>
      match buildRemotePath info (c.args.fileSection.getD .wip)
          (c.args.subpath.filter (· ≠ [])) c.args.filename with
      | .error _ => .error (invalidFilenameError "invalid path" c.args.filename)
      | .ok remotePath => .ok (remoteName, remotePath)

def Creation.body (server : CentralServer Bytes) (c : Creation Bytes) : Bytes :=
  c.bytes.getD (server.utf8 (c.args.content.getD ""))

def Creation.row (c : Creation Bytes) (object : RemoteObject Bytes) : FileRow where
  id := central.db.nextId
  nodeId := c.args.nodeId
  filename := c.args.filename
  remoteName := some place.remoteName
  remotePath := some place.remotePath
  remoteFileId := object.remoteFileId
  currentRemoteHash := some (place.server.pushedHash place.remoteName object)
  isNativeFormat := object.isNativeFormat

inductive CreateStage (Bytes : Type u) where
  | asked
  | untracked
  | absent
  | put (object : RemoteObject Bytes)
  | inserted (fileId : ℕ) (object : RemoteObject Bytes)
  | answered (answer : Answer)

def createStep (c : Creation Bytes) :
    CreateStage Bytes → Option (CentralState Bytes × CreateStage Bytes)
  | .asked =>
    some (central,
      if (getFileRecord central.db place.nodeId place.remotePath).isSome then
        .answered (.error (fileExists c.args.filename))
      else .untracked)
  | .untracked =>
    some (central,
      match place.stat central c.attempt with
      | .error message => .answered (.error (plainError message))
      | .ok (some _) => .answered (.error (fileExists c.args.filename))
      | .ok none => .absent)
  | .absent =>
    let object := CentralServer.putObject c.attempt (place.object central) (c.body place.server)
    match c.attempt.put with
    | .failed message tookEffect =>
      some (if tookEffect then place.put central object else central,
        .answered (.error (plainError message)))
    | .done => some (place.put central object, .put object)
  | .put object =>
    if central.db.taken place.nodeId place.remotePath then
      some (central, .answered (.error (fileExists c.args.filename)))
    else
      some ({ central with db := central.db.apply (.insertFile (c.row place central object)) },
        .inserted central.db.nextId object)
  | .inserted fileId object =>
    let hash := place.server.pushedHash place.remoteName object
    let audit := createdAudit place.server c.attempt fileId place.remoteName place.remotePath hash
    some ({ central with db := central.db.insertAudit audit },
      .answered (.ok (.created fileId c.args.filename place.remotePath)))
  | .answered _ => none

inductive Write where
  | sql (statement : Statement)
  | recordPush (id : ℕ) (remoteName canonicalHash : String)

def Write.apply (db : Database) : Write → Database
  | .sql statement => db.apply statement
  | .recordPush id remoteName canonicalHash => recordRemotePush db id remoteName canonicalHash

def persistWrites (id : ℕ) (proved : Option String) : List Write :=
  (persistRemoteFileId id none proved).map .sql

def backfillWrites (record : Option FileRow) (observedHash observedFileId : Option String) :
    List Write :=
  match record with
  | none => []
  | some r =>
    persistWrites r.id observedFileId ++
      match observedHash with
      | none => []
      | some hash => if r.currentRemoteHash = some hash then [] else [.sql (.setRemoteHash r.id hash)]

def pushWrites (record : Option FileRow) (object : RemoteObject Bytes) : List Write :=
  match record with
  | none => []
  | some r =>
    .recordPush r.id place.remoteName (place.server.pushedHash place.remoteName object) ::
      persistWrites r.id object.remoteFileId

structure Push (Bytes : Type u) where
  attempt : Attempt
  args : PutArgs Bytes
  filename : String

inductive PushStage where
  | asked
  | queued (record : Option FileRow)
  /-- From here on it holds the lock of the path. -/
  | locked (record : Option FileRow)
  | absent (record : Option FileRow)
  /-- `assertBaseVersion` has seen an object. -/
  | versioned (record : Option FileRow) (version : String)
  | ready (record : Option FileRow)
  | writing (writes : List Write) (answer : Answer)
  | answered (answer : Answer)

def PushStage.holdsLock : PushStage → Bool
  | .asked | .queued _ | .answered _ => false
  | _ => true

def pushStep (locked : Bool) (p : Push Bytes) :
    PushStage → Option (CentralState Bytes × PushStage)
  | .asked =>
    let record := getFileRecord central.db place.nodeId place.remotePath
    some (central,
      if record.any (·.isNativeFormat) then .answered (.error (nativeBytesError p.args.relPath))
      else .queued record)
  | .queued record => if locked then none else some (central, .locked record)
  | .locked record =>
    some (central,
      match place.stat central p.attempt with
      | .error message => .answered (.error (plainError message))
      | .ok none => .absent record
      | .ok (some ref) =>
        if ref.isNativeFormat then .answered (.error (nativeBytesError p.args.relPath))
        else .writing (backfillWrites record (ref.hash.map String.toLower) ref.remoteFileId)
          (.error (existsOnRemote p.args.relPath p.filename)))
  | .absent record =>
    some (central,
      match present p.args.baseVersion with
      | none => .ready record
      | some version =>
        match place.stat central p.attempt with
        | .error message => .answered (.error (plainError message))
        | .ok none => .ready record
        | .ok (some ref) =>
          if ref.isNativeFormat then .answered (.error (nativeBytesError p.args.relPath))
          else .versioned record version)
  | .versioned record version =>
    some (central,
      match place.get central p.attempt with
      | .error message => .answered (.error (plainError message))
      | .ok current =>
        let currentVersion := place.server.hashing.sha256Buffer current
        if currentVersion = version then .ready record
        else .answered (.error (changedSinceOpened currentVersion)))
  | .ready record =>
    let object := CentralServer.putObject p.attempt (place.object central) p.args.bytes
    match p.attempt.put with
    | .failed message tookEffect =>
      some (if tookEffect then place.put central object else central,
        .answered (.error (plainError message)))
    | .done =>
      some (place.put central object,
        .writing (pushWrites place record object)
          (.ok (.stored (place.server.hashing.sha256Buffer p.args.bytes)
            (place.server.pushedHash place.remoteName object))))
  | .writing [] answer => some (central, .answered answer)
  | .writing (write :: writes) answer =>
    some ({ central with db := write.apply central.db }, .writing writes answer)
  | .answered _ => none

/-- What a sweep of the node meets: the failures of its calls, and whether it sees the node's
root. -/
structure Sweep where
  attempt : Attempt
  listFails : Bool
  rootSeen : Bool

def Place.call (sweep : Sweep) : Call Bytes where
  hashing := place.server.hashing
  nfc path := path
  nfc_nfc _ := rfl
  adapter :=
    { stat := fun path => place.server.stat sweep.attempt central.objects place.remoteName path
      get := fun path => CentralServer.get sweep.attempt central.objects place.remoteName path }
  userId := place.server.userId
  remoteName := place.remoteName
  now := sweep.attempt.now

def Place.listed : Option FileRef :=
  (place.object central).map
    (CentralServer.refOf (place.server.hashing.statHash (place.server.backend place.remoteName)))

def Place.swept (db : Database) : Option FileRow :=
  db.files.find? fun r => r.nodeId = place.nodeId && r.remoteName = some place.remoteName &&
    r.remotePath = some place.remotePath

inductive SweepStage where
  | asked
  | listed (ref : Option FileRef)
  | missing (record : FileRow)
  | stale (candidate : HashCandidate) (ref : FileRef)
  | searching (ref : FileRef)
  | unknown (ref : FileRef)
  | adopted (file : Adopted)
  | writing (statements : List Statement) (next : SweepStage)
  | finished

def sweepStep (sweep : Sweep) : SweepStage → Option (CentralState Bytes × SweepStage)
  | .asked => some (central, if sweep.listFails then .finished else .listed (place.listed central))
  | .listed ref =>
    some (central,
      match place.swept central.db, ref with
      | none, none => .finished
      | none, some ref => .searching ref
      | some r, none => if r.hadObject then .missing r else .finished
      | some r, some ref =>
        let candidate : HashCandidate :=
          ⟨r.id, place.remotePath, ref.hash, r.remoteFileId, ref.remoteFileId⟩
        .writing (persistRemoteFileId r.id r.remoteFileId ref.remoteFileId)
          (if needsHashRefresh r ref.hash then .stale candidate ref else .searching ref))
  | .missing r =>
    some (central,
      if sweep.rootSeen then
        .writing (deleteRemovedRecords (place.call central sweep) place.nodeId [r]).statements
          .finished
      else .finished)
  | .stale candidate ref =>
    some (central,
      .writing (refreshRemoteHashes (place.call central sweep) [candidate]).statements
        (.searching ref))
  | .searching ref =>
    some (central,
      if central.db.files.any
            (knownUnder (place.call central sweep) place.nodeRoot place.remotePath) ||
          (adoptableSection place.nodeRoot place.remotePath).isNone then .finished
      else .unknown ref)
  | .unknown ref =>
    let call := place.call central sweep
    match (adoptFiles call place.nodeId place.nodeRoot central.db [(place.remotePath, ref)]).1 with
    | [] => some (central, .finished)
    | file :: _ =>
      let row := adoptedRow call place.nodeId file.fileId file.remotePath file.ref
      some ({ central with db := central.db.apply (.insertFile row) },
        .writing [.insertAudit (adoptAudit call file)] (.adopted file))
  | .adopted file =>
    some (central, .writing (backfillHashes (place.call central sweep) [file]).1 .finished)
  | .writing [] next => some (central, next)
  | .writing (statement :: statements) next =>
    some ({ central with db := central.db.apply statement }, .writing statements next)
  | .finished => none

inductive Running (Bytes : Type u) where
  | create (c : Creation Bytes) (stage : CreateStage Bytes)
  | push (p : Push Bytes) (stage : PushStage)
  | sweep (sweep : Sweep) (stage : SweepStage)

inductive Request (Bytes : Type u) where
  | create (c : Creation Bytes)
  | push (p : Push Bytes)
  | sweep (sweep : Sweep)

def Request.start : Request Bytes → Running Bytes
  | .create c => .create c .asked
  | .push p => .push p .asked
  | .sweep w => .sweep w .asked

/-- The request is about the place; a byte write is a create-only one. -/
def Request.targets : Request Bytes → Bool
  | .create c =>
    c.args.nodeId = place.nodeId &&
      createTarget place.server c = .ok (place.remoteName, place.remotePath)
  | .push p =>
    p.args.ifAbsent && !p.args.force &&
      match resolveRemoteTarget place.server place.nodeId p.args.relPath with
      | .ok target =>
        target.remoteName = place.remoteName && target.remotePath = place.remotePath &&
          target.filename = p.filename
      | .error _ => false
  | .sweep _ => true

structure State (Bytes : Type u) where
  central : CentralState Bytes
  calls : List (Running Bytes) := []

def State.locked (s : State Bytes) : Bool :=
  s.calls.any fun
    | .push _ stage => stage.holdsLock
    | _ => false

inductive Action (Bytes : Type u) where
  | receive (request : Request Bytes)
  | next (i : ℕ)
  /-- What the server does for everything else. -/
  | elsewhere (central : CentralState Bytes)

def Running.step (locked : Bool) :
    Running Bytes → Option (CentralState Bytes × Running Bytes)
  | .create c stage =>
    (createStep place central c stage).map fun (central, stage) => (central, .create c stage)
  | .push p stage =>
    (pushStep place central locked p stage).map fun (central, stage) => (central, .push p stage)
  | .sweep w stage =>
    (sweepStep place central w stage).map fun (central, stage) => (central, .sweep w stage)

def step (s : State Bytes) : Action Bytes → Option (State Bytes)
  | .receive request =>
    if request.targets place then some { s with calls := s.calls ++ [request.start] } else none
  | .next i =>
    s.calls[i]?.bind fun running =>
      (running.step place s.central s.locked).map fun (central, running) =>
        { central, calls := s.calls.set i running }
  | .elsewhere central => some { s with central }

structure Elsewhere (before after : CentralState Bytes) : Prop where
  object : place.object after = place.object before
  rows : ∀ r, place.Here r → (r ∈ after.db.files ↔ r ∈ before.db.files)
  nextId : before.db.nextId ≤ after.db.nextId
  keyed : before.db.Keyed → after.db.Keyed

def Happens (s : State Bytes) : Action Bytes → Prop
  | .elsewhere central => Elsewhere place s.central central
  | _ => True

end Portuni.Creations
