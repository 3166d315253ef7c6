import Portuni.Content.Hashing
import Portuni.Library.KeyedMutex

/-! One tracked file of a team workspace, pushed and pulled by any number of
devices through the central server. -/

namespace Portuni.Central

open Content Library.KeyedMutex

universe u v

inductive Precondition where
  | baseCanonicalHash (hash : String)
  | ifAbsent
  | force
deriving DecidableEq

inductive Answer where
  | stored (canonicalHash : String)
  | conflict (currentVersion : String)
  | exists
  | failed
deriving DecidableEq

/-- Where a write stands on the server: received, queued under the object's
lock, past its precondition, answered. -/
inductive RequestPhase where
  | sent
  | queued
  | checked
  | answered (answer : Answer)
deriving DecidableEq

/-- One attempt of `putFileRaw` as the server sees it, with the push call of
the device that sent it. -/
structure PutRequest (Device : Type u) (Bytes : Type v) where
  device : Device
  call : ℕ
  bytes : Bytes
  precondition : Precondition
  phase : RequestPhase

/-- A byte read under way: the hash the record had when the server looked the
file up, and what a preflight stat reported where one was needed. -/
structure Download where
  recordHash : Option String
  stat : Option (Option String)

inductive CallPhase (Bytes : Type v) where
  /-- A push with the baseline its scan entry carried, before the path lock. -/
  | pushScanned (entryBaseline : Option String) (force : Bool)
  | pushQueued (entryBaseline : Option String) (force : Bool)
  /-- The PUT of the bytes read is out, under `baseline`. -/
  | pushing (bytes : Bytes) (baseline : Option String) (force : Bool) (request : ℕ)
      (retried : Bool)
  /-- A never-synced push was answered EXISTS and downloads to compare. -/
  | verifying (bytes : Bytes) (download : Download)
  | pulling (force : Bool) (download : Download)
  /-- A pull with its download in hand, before and in the queue of the path lock. -/
  | pulled (force : Bool) (bytes : Bytes) (hash : String)
  | pullQueued (force : Bool) (bytes : Bytes) (hash : String)

structure Call (Device : Type u) (Bytes : Type v) where
  device : Device
  phase : CallPhase Bytes

/-- The central server: the object on the remote, the hash its record carries,
the byte writes it was sent and the lock they take. -/
structure Server (Device : Type u) (Bytes : Type v) where
  remote : Option Bytes
  recordHash : Option String
  requests : ℕ → Option (PutRequest Device Bytes)
  nextRequest : ℕ
  lock : Mutex Unit ℕ

/-- The server, and every device's copy, sync state and calls. `log` and
`pushedAt` are history: the remote object after every step, and the moment a
device's last push completed. -/
structure State (Device : Type u) (Bytes : Type v) where
  server : Server Device Bytes
  localFile : Device → Option Bytes
  lastSyncedHash : Device → Option String
  cachedLocalHash : Device → Option String
  rememberedRemoteHash : Device → Option String
  pathLock : Mutex Device ℕ
  calls : ℕ → Option (Call Device Bytes)
  nextCall : ℕ
  log : List (Option Bytes)
  pushedAt : Device → ℕ

variable {Device : Type u} {Bytes : Type v} [DecidableEq Device]

/-- `putFileRaw`'s precondition: a forced write has none, a synced file sends its
baseline, a never-synced one may only create. -/
def preconditionFor (force : Bool) (baseline : Option String) : Precondition :=
  if force then .force
  else
    match baseline with
    | some hash => .baseCanonicalHash hash
    | none => .ifAbsent

/-- The precondition checks of `writeFileBytesRemote`, against the object as it
is: an answer that refuses the write, or `none` to go on. -/
def refusal (H : Hashing Bytes) (backend : Backend) (remote : Option Bytes) :
    Precondition → Option Answer
  | .force => none
  | .ifAbsent => if remote.isSome then some .exists else none
  | .baseCanonicalHash hash =>
    match remote with
    | none => none
    | some bytes =>
      let current := (H.statHash backend bytes).getD (H.hashLike hash bytes)
      if current = hash then none else some (.conflict current)

/-- The hash the precondition checks observe on the way, which backfills the
record whatever they decide. -/
def observedHash (H : Hashing Bytes) (backend : Backend) (remote : Option Bytes) :
    Precondition → Option String
  | .force => none
  | .ifAbsent => remote.bind (H.statHash backend)
  | .baseCanonicalHash hash =>
    remote.map fun bytes => (H.statHash backend bytes).getD (H.hashLike hash bytes)

namespace Server

variable (sv : Server Device Bytes)

def setRequest (r : ℕ) (request : PutRequest Device Bytes) : Server Device Bytes :=
  { sv with requests := Function.update sv.requests r (some request) }

def send (request : PutRequest Device Bytes) : Server Device Bytes :=
  { sv.setRequest sv.nextRequest request with nextRequest := sv.nextRequest + 1 }

/-- The server answers the request that holds the object's lock, and releases
it. -/
def answer (r : ℕ) (request : PutRequest Device Bytes) (a : Answer) : Server Device Bytes :=
  { sv.setRequest r { request with phase := .answered a } with lock := sv.lock.release () }

def arrive (r : ℕ) (request : PutRequest Device Bytes) : Option (Server Device Bytes) :=
  if request.phase = .sent then
    some { sv.setRequest r { request with phase := .queued } with lock := sv.lock.enqueue () r }
  else none

def check (H : Hashing Bytes) (backend : Backend) (r : ℕ) (request : PutRequest Device Bytes) :
    Option (Server Device Bytes) :=
  if request.phase = .queued ∧ sv.lock.Holds () r then
    let observed : Server Device Bytes :=
      { sv with
        recordHash := (observedHash H backend sv.remote request.precondition).or sv.recordHash }
    match refusal H backend sv.remote request.precondition with
    | some a => some (observed.answer r request a)
    | none => some (observed.setRequest r { request with phase := .checked })
  else none

def put (H : Hashing Bytes) (backend : Backend) (r : ℕ) (request : PutRequest Device Bytes)
    (ok : Bool) : Option (Server Device Bytes) :=
  if request.phase = .checked then
    let hash := H.canonicalHash backend request.bytes
    some { sv.answer r request (if ok then .stored hash else .failed) with
      remote := some request.bytes
      recordHash := if ok then some hash else sv.recordHash }
  else none

def abort (r : ℕ) (request : PutRequest Device Bytes) : Option (Server Device Bytes) :=
  if (request.phase = .queued ∨ request.phase = .checked) ∧ sv.lock.Holds () r then
    some (sv.answer r request .failed)
  else none

end Server

namespace State

variable (s : State Device Bytes)

def setCall (c : ℕ) (call : Call Device Bytes) : State Device Bytes :=
  { s with calls := Function.update s.calls c (some call) }

def endCall (c : ℕ) (device : Device) : State Device Bytes :=
  { s with
    calls := Function.update s.calls c none
    pathLock :=
      if s.pathLock.Holds device c then s.pathLock.release device else s.pathLock }

def rememberRemoteHash (device : Device) (hash : Option String) : State Device Bytes :=
  match hash with
  | none => s
  | some hash =>
    { s with
      rememberedRemoteHash := Function.update s.rememberedRemoteHash device (some hash) }

def upsertFileState (device : Device) (lastSyncedHash cachedLocalHash : String) :
    State Device Bytes :=
  { s with
    lastSyncedHash := Function.update s.lastSyncedHash device (some lastSyncedHash)
    cachedLocalHash := Function.update s.cachedLocalHash device (some cachedLocalHash) }

/-- The push sends a PUT of `bytes` under `baseline` and waits for its answer. -/
def sendPut (c : ℕ) (device : Device) (bytes : Bytes) (baseline : Option String)
    (force retried : Bool) : State Device Bytes :=
  { s.setCall c ⟨device, .pushing bytes baseline force s.server.nextRequest retried⟩ with
    server := s.server.send
      { device, call := c, bytes, precondition := preconditionFor force baseline
        phase := .sent } }

/-- A push takes its turn at the path lock: it reads its baseline and the local
bytes, and sends them. -/
def startPush (c : ℕ) (device : Device) (entryBaseline : Option String) (force : Bool) :
    State Device Bytes :=
  match s.localFile device with
  | none => s.endCall c device
  | some bytes => s.sendPut c device bytes ((s.lastSyncedHash device).or entryBaseline) force false

/-- The end of a push whose bytes are known to be on the remote under `hash`.
The local file is looked at again, and a push that finds it gone fails. -/
def finishPush (H : Hashing Bytes) (c : ℕ) (device : Device) (hash : String) :
    State Device Bytes :=
  let s := s.rememberRemoteHash device (some hash)
  match s.localFile device with
  | none => s.endCall c device
  | some bytes =>
    { ((s.upsertFileState device hash (H.hashLike hash bytes)).endCall c device) with
      pushedAt := Function.update s.pushedAt device s.log.length }

def receiveAnswer (H : Hashing Bytes) (c : ℕ) (device : Device) (bytes : Bytes)
    (baseline : Option String) : Answer → State Device Bytes
  | .stored hash => s.finishPush H c device hash
  | .conflict currentVersion =>
    (s.rememberRemoteHash device (some currentVersion)).endCall c device
  | .exists =>
    if baseline = none then
      s.setCall c ⟨device, .verifying bytes ⟨s.server.recordHash, none⟩⟩
    else s.endCall c device
  | .failed => s.endCall c device

/-- The dirty-local guard of a pull, and what it writes when the guard lets it:
the bytes and the baseline. -/
def pullWrites (H : Hashing Bytes) (device : Device) (force : Bool) (bytes : Bytes)
    (hash : String) : Option (Bytes × String) :=
  match s.localFile device with
  | none => some (bytes, hash)
  | some localBytes =>
    let current := H.hashLike hash localBytes
    if !force && current ≠ hash && (s.lastSyncedHash device).all (current ≠ ·) then none
    else some (bytes, hash)

def writePull (H : Hashing Bytes) (c : ℕ) (device : Device) (force : Bool) (bytes : Bytes)
    (hash : String) : State Device Bytes :=
  match s.pullWrites H device force bytes hash with
  | none => s.endCall c device
  | some (bytes, hash) =>
    ({ (s.upsertFileState device hash hash) with
      localFile := Function.update s.localFile device (some bytes) }).endCall c device

/-- A download arrives at the call that waits for it: a verifying push compares,
a pull goes for the path lock. -/
def receiveDownload (H : Hashing Bytes) (c : ℕ) (device : Device) (bytes : Bytes)
    (hash : String) : CallPhase Bytes → State Device Bytes
  | .verifying localBytes _ =>
    let s := s.rememberRemoteHash device (some hash)
    if H.hashLike hash localBytes = hash then s.finishPush H c device hash
    else s.endCall c device
  | .pulling force _ =>
    (s.rememberRemoteHash device (some hash)).setCall c ⟨device, .pulled force bytes hash⟩
  | _ => s

end State

def CallPhase.download? : CallPhase Bytes → Option Download
  | .verifying _ download => some download
  | .pulling _ download => some download
  | _ => none

def CallPhase.withDownload (download : Download) : CallPhase Bytes → CallPhase Bytes
  | .verifying bytes _ => .verifying bytes download
  | .pulling force _ => .pulling force download
  | phase => phase

/-- `readFileBytesRemote`, one backend call at a time. A record with a hash goes
straight to the download; one without asks `stat` first, and its answer backfills
the record's hash. -/
def State.readRemote (H : Hashing Bytes) (backend : Backend) (s : State Device Bytes) (c : ℕ)
    (call : Call Device Bytes) (download : Download) : State Device Bytes :=
  match s.server.remote with
  | none => s.endCall c call.device
  | some bytes =>
    match download.recordHash, download.stat with
    | some known, _ =>
      s.receiveDownload H c call.device bytes (H.hashLike known bytes) call.phase
    | none, none =>
      s.setCall c ⟨call.device, call.phase.withDownload ⟨none, some (H.statHash backend bytes)⟩⟩
    | none, some reported =>
      let hash := reported.getD (H.sha256Buffer bytes)
      { s with server := { s.server with recordHash := some hash } }.receiveDownload H c
        call.device bytes hash call.phase

/-- The steps of the devices, of the server and of the requests between them. -/
inductive Action (Device : Type u) (Bytes : Type v) where
  | edits (device : Device) (content : Option Bytes)
  | scans (device : Device)
  | stores (device : Device) (force : Bool)
  | pulls (device : Device) (force : Bool)
  | locks (call : ℕ)
  | proceeds (call : ℕ)
  /-- The request timed out or its connection broke, and is sent once more. -/
  | retries (call : ℕ)
  /-- The answer to the PUT the call waits for comes back. -/
  | receives (call : ℕ)
  /-- The server does the next backend call of the download the call waits for. -/
  | reads (call : ℕ)
  | givesUp (call : ℕ)
  | arrives (request : ℕ)
  | checks (request : ℕ)
  /-- The server puts the bytes; `ok` is whether the backend says so. -/
  | puts (request : ℕ) (ok : Bool)
  | breaks (request : ℕ)

namespace State

def begin (s : State Device Bytes) (device : Device) (phase : CallPhase Bytes) :
    State Device Bytes :=
  { (s.setCall s.nextCall ⟨device, phase⟩) with nextCall := s.nextCall + 1 }

/-- Whether a call can fail where it stands: its registration or its request may
fail, but a call that waits for the path lock waits. -/
def mayFail : CallPhase Bytes → Bool
  | .pushScanned _ _ => true
  | .pushing _ _ _ _ retried => retried
  | .verifying _ _ => true
  | .pulling _ _ => true
  | _ => false

def onRequest (s : State Device Bytes) (r : ℕ)
    (f : PutRequest Device Bytes → Option (Server Device Bytes)) : Option (State Device Bytes) :=
  (s.server.requests r).bind fun request => (f request).map fun server => { s with server }

def act (H : Hashing Bytes) (backend : Backend) (s : State Device Bytes) :
    Action Device Bytes → Option (State Device Bytes)
  | .edits device content =>
    some { s with localFile := Function.update s.localFile device content }
  | .scans device => some (s.begin device (.pushScanned (s.lastSyncedHash device) false))
  | .stores device force => some (s.begin device (.pushScanned none force))
  | .pulls device force => some (s.begin device (.pulling force ⟨s.server.recordHash, none⟩))
  | .locks c =>
    match s.calls c with
    | some ⟨device, .pushScanned entryBaseline force⟩ =>
      some { s.setCall c ⟨device, .pushQueued entryBaseline force⟩ with
        pathLock := s.pathLock.enqueue device c }
    | some ⟨device, .pulled force bytes hash⟩ =>
      some { s.setCall c ⟨device, .pullQueued force bytes hash⟩ with
        pathLock := s.pathLock.enqueue device c }
    | _ => none
  | .proceeds c =>
    match s.calls c with
    | some ⟨device, .pushQueued entryBaseline force⟩ =>
      if s.pathLock.Holds device c then some (s.startPush c device entryBaseline force)
      else none
    | some ⟨device, .pullQueued force bytes hash⟩ =>
      if s.pathLock.Holds device c then some (s.writePull H c device force bytes hash)
      else none
    | _ => none
  | .retries c =>
    match s.calls c with
    | some ⟨device, .pushing bytes baseline force _ false⟩ =>
      some (s.sendPut c device bytes baseline force true)
    | some ⟨device, .verifying bytes _⟩ =>
      some (s.setCall c ⟨device, .verifying bytes ⟨s.server.recordHash, none⟩⟩)
    | some ⟨device, .pulling force _⟩ =>
      some (s.setCall c ⟨device, .pulling force ⟨s.server.recordHash, none⟩⟩)
    | _ => none
  | .receives c =>
    match s.calls c with
    | some ⟨device, .pushing bytes baseline _ r _⟩ =>
      match s.server.requests r with
      | some ⟨_, _, _, _, .answered a⟩ => some (s.receiveAnswer H c device bytes baseline a)
      | _ => none
    | _ => none
  | .reads c =>
    (s.calls c).bind fun call =>
      call.phase.download?.map fun download => s.readRemote H backend c call download
  | .givesUp c =>
    (s.calls c).bind fun call =>
      if mayFail call.phase then some (s.endCall c call.device) else none
  | .arrives r => s.onRequest r fun request => s.server.arrive r request
  | .checks r => s.onRequest r fun request => s.server.check H backend r request
  | .puts r ok => s.onRequest r fun request => s.server.put H backend r request ok
  | .breaks r => s.onRequest r fun request => s.server.abort r request

end State

def step (H : Hashing Bytes) (backend : Backend) (s : State Device Bytes)
    (a : Action Device Bytes) : Option (State Device Bytes) :=
  (s.act H backend a).map fun s' => { s' with log := s.log ++ [s'.server.remote] }

end Portuni.Central
