import Portuni.Content.Hashing
import Portuni.Files.Model

namespace Portuni.RemoteSweep

/-!
The per-file steps that a remote sweep and the remote watcher share: finding
the record an object belongs to, deleting records whose object is gone,
refreshing hashes and adopting untracked objects.
-/

section

open Content Files

universe u

structure FileRef where
  hash : Option String
  isNativeFormat : Bool
  remoteFileId : Option String

/-- The reading half of a storage adapter; a call can fail with a message. -/
structure FileAdapter (Bytes : Type u) where
  stat : RemotePath → Except String (Option FileRef)
  get : RemotePath → Except String Bytes

/-- What every step is called with. `nfc` is the NFC form of a path. -/
structure Call (Bytes : Type u) where
  hashing : Hashing Bytes
  nfc : RemotePath → RemotePath
  nfc_nfc : ∀ path, nfc (nfc path) = nfc path
  adapter : FileAdapter Bytes
  userId : String
  remoteName : String
  now : ℕ

structure FileOnRemote where
  fileId : ℕ
  filename : String
  remotePath : Option RemotePath
deriving DecidableEq

abbrev StepError := Option RemotePath × String

variable {Bytes : Type u} (call : Call Bytes)

def Call.atPath (nodeId : String) (path : RemotePath) (r : FileRow) : Bool :=
  r.nodeId = nodeId && r.remoteName = some call.remoteName &&
    (r.remotePath = some path || r.remotePath = some (call.nfc path))

def Call.ofObject (remoteFileId : String) (r : FileRow) : Bool :=
  r.remoteName = some call.remoteName && r.remoteFileId = some remoteFileId

def findRemoteRecord (db : Database) (nodeId : String) (path : RemotePath) : Option FileRow :=
  db.files.find? (call.atPath nodeId path)

def findRecordByRemoteFileId (db : Database) (remoteFileId : String) : Option FileRow :=
  db.files.find? (call.ofObject remoteFileId)

def persistRemoteFileId (id : ℕ) (current proved : Option String) : List Statement :=
  match proved with
  | none => []
  | some remoteFileId =>
    if current = some remoteFileId then [] else [.setRemoteFileId id remoteFileId]

/-- An unknown hash is worth resolving, a known one only when the backend's own
hash proves it stale. A native object has none. -/
def needsHashRefresh (r : FileRow) (listedHash : Option String) : Bool :=
  !r.isNativeFormat &&
    (r.currentRemoteHash.isNone || (listedHash.isSome && listedHash ≠ r.currentRemoteHash))

def removalAudit (nodeId : String) (r : FileRow) : AuditRow where
  userId := call.userId
  action := .syncDeleteRemote
  target := .file r.id
  detail := [("node_id", .text nodeId), ("remote_name", .text call.remoteName),
    ("remote_path", .ofPath r.remotePath), ("filename", .text r.filename),
    ("mode", .text "complete"), ("reason", .text "remote_sweep"),
    ("hash", .ofText r.currentRemoteHash)]
  timestamp := call.now

structure Deleted where
  statements : List Statement := []
  deleted : List FileOnRemote := []
  errors : List StepError := []

def confirmRemoved (r : FileRow) : Except String Bool :=
  match r.remotePath with
  | none => .error "stat failed: no remote path"
  | some path =>
    match call.adapter.stat path with
    | .ok ref => .ok ref.isNone
    | .error message => .error ("stat failed: " ++ message)

def deleteRemovedRecords (nodeId : String) : List FileRow → Deleted
  | [] => {}
  | r :: rest =>
    let others := deleteRemovedRecords nodeId rest
    match confirmRemoved call r with
    | .error message => { others with errors := (r.remotePath, message) :: others.errors }
    | .ok false => others
    | .ok true =>
      { others with
        statements :=
          .deleteFile r.id :: .insertAudit (removalAudit call nodeId r) :: others.statements
        deleted := ⟨r.id, r.filename, r.remotePath⟩ :: others.deleted }

def resolveHash (path : RemotePath) : Option String → Except String String
  | some listed => .ok listed
  | none => (call.adapter.get path).map call.hashing.sha256Buffer

structure HashCandidate where
  id : ℕ
  remotePath : RemotePath
  listedHash : Option String
  current : Option String
  remoteFileId : Option String

structure Refreshed where
  statements : List Statement := []
  refreshed : List (ℕ × String) := []
  errors : List StepError := []

def refreshRemoteHashes : List HashCandidate → Refreshed
  | [] => {}
  | c :: rest =>
    let others := refreshRemoteHashes rest
    match resolveHash call c.remotePath c.listedHash with
    | .error message =>
      { others with
        errors := (some c.remotePath, "hash refresh failed: " ++ message) :: others.errors }
    | .ok hash =>
      { others with
        statements := .setRemoteHash c.id hash ::
          persistRemoteFileId c.id c.current c.remoteFileId ++ others.statements
        refreshed := (c.id, hash) :: others.refreshed }

structure Adopted where
  fileId : ℕ
  remotePath : RemotePath
  filename : String
  ref : FileRef

def adoptedRow (nodeId : String) (id : ℕ) (path : RemotePath) (ref : FileRef) : FileRow where
  id := id
  nodeId := nodeId
  filename := path.getLastD ""
  remoteName := some call.remoteName
  remotePath := some path
  remoteFileId := ref.remoteFileId
  currentRemoteHash := ref.hash
  isNativeFormat := ref.isNativeFormat

def adoptAudit (f : Adopted) : AuditRow where
  userId := call.userId
  action := .syncAdopt
  target := .file f.fileId
  detail := [("remote_name", .text call.remoteName), ("remote_path", .path f.remotePath),
    ("hash", .ofText f.ref.hash)]
  timestamp := call.now

def refusedPath (nodeRoot path : RemotePath) : Option String :=
  match below nodeRoot path with
  | none => some ("path is outside node root " ++ String.intercalate "/" nodeRoot)
  | some rel => unsafeRelativePath "adoptFiles.path" rel

/-- The rows `adoptFiles` inserts, one for each path no row has taken, and the
paths it refuses. An already tracked path is skipped without an error. -/
def adoptFiles (nodeId : String) (nodeRoot : RemotePath) (db : Database) :
    List (RemotePath × FileRef) → List Adopted × List StepError
  | [] => ([], [])
  | (path, ref) :: rest =>
    match refusedPath nodeRoot path with
    | some reason =>
      let others := adoptFiles nodeId nodeRoot db rest
      (others.1, (some path, reason) :: others.2)
    | none =>
      if db.taken nodeId path then adoptFiles nodeId nodeRoot db rest
      else
        let row := adoptedRow call nodeId db.nextId path ref
        let others := adoptFiles nodeId nodeRoot (db.apply (.insertFile row)) rest
        (⟨row.id, path, row.filename, ref⟩ :: others.1, others.2)

structure Adoption where
  statements : List Statement := []
  adopted : List FileOnRemote := []
  errors : List StepError := []

/-- Resolve the hashes that adopted records still lack. A native object has no
bytes to hash. -/
def backfillHashes : List Adopted → List Statement × List StepError
  | [] => ([], [])
  | f :: rest =>
    let others := backfillHashes rest
    if f.ref.hash.isSome || f.ref.isNativeFormat then others
    else
      match resolveHash call f.remotePath none with
      | .ok hash => (.setRemoteHash f.fileId hash :: others.1, others.2)
      | .error message =>
        (others.1, (some f.remotePath, "hash backfill failed: " ++ message) :: others.2)

/-- Register the untracked objects `refs` that lie in a section of the node. (The
source takes the outputs in a batch of their own, which only orders the rows.) -/
def adoptRemoteFiles (nodeId : String) (nodeRoot : RemotePath) (db : Database)
    (refs : List (RemotePath × FileRef)) : Adoption :=
  let candidates := refs.filter fun c => (adoptableSection nodeRoot c.1).isSome
  let (adopted, refused) := adoptFiles call nodeId nodeRoot db candidates
  let (backfills, failed) := backfillHashes call adopted
  { statements :=
      adopted.map (fun f => .insertFile (adoptedRow call nodeId f.fileId f.remotePath f.ref)) ++
        adopted.map (fun f => .insertAudit (adoptAudit call f)) ++ backfills
    adopted := adopted.map fun f => ⟨f.fileId, f.filename, some f.remotePath⟩
    errors := failed ++ refused }

end

open Files Files.Database

universe u

variable {Bytes : Type u} (call : Call Bytes) (nodeId : String)

def confirmed (candidates : List FileRow) : List FileRow :=
  candidates.filter fun r => confirmRemoved call r = .ok true

/-- A record's own two statements: its row goes, its tombstone follows. -/
def removalStatements (r : FileRow) : List Statement :=
  [.deleteFile r.id, .insertAudit (removalAudit call nodeId r)]

theorem deleteRemovedRecords_statements (candidates : List FileRow) :
    (deleteRemovedRecords call nodeId candidates).statements =
      (confirmed call candidates).flatMap (removalStatements call nodeId) := by
  induction candidates with
  | nil => rfl
  | cons r rest ih =>
    simp only [deleteRemovedRecords, confirmed, List.filter_cons]
    rcases hconfirm : confirmRemoved call r with message | _ | _
    · simpa [confirmed] using ih
    · simpa [confirmed] using ih
    · simpa [confirmed, removalStatements] using ih

/-- The database without the rows `removed`, with the tombstones of `told`. -/
def removing (db : Database) (removed told : List FileRow) : Database :=
  { db with
    files := db.files.filter fun r => r.id ∉ removed.map (·.id)
    auditLog := db.auditLog ++ told.map (removalAudit call nodeId) }

variable {call nodeId} {db : Database}

theorem removing_nil : removing call nodeId db [] [] = db := by
  simp [removing]

theorem removing_removing (r : FileRow) (removed told : List FileRow) :
    removing call nodeId (removing call nodeId db [r] [r]) removed told =
      removing call nodeId db (r :: removed) (r :: told) := by
  simp [removing, List.filter_filter, Bool.and_comm]

theorem removalStatements_take (records : List FileRow) (k : ℕ) :
    ((records.flatMap (removalStatements call nodeId)).take k).foldl Database.apply db =
      removing call nodeId db (records.take ((k + 1) / 2)) (records.take (k / 2)) := by
  induction records generalizing db k with
  | nil => simp [removing_nil]
  | cons r rest ih =>
    match k with
    | 0 => simp [removing_nil]
    | 1 =>
      simp [removalStatements, removing, Database.apply, Database.deleteFile]
    | k + 2 =>
      have hhead : (k + 2 + 1) / 2 = (k + 1) / 2 + 1 := by omega
      have htail : (k + 2) / 2 = k / 2 + 1 := by omega
      have hboth : (db.deleteFile r.id).insertAudit (removalAudit call nodeId r) =
          removing call nodeId db [r] [r] := by
        simp [removing, Database.deleteFile, insertAudit]
      simp only [List.flatMap_cons, removalStatements, List.cons_append, List.nil_append,
        List.take_succ_cons, List.foldl_cons, Database.apply, hhead, htail]
      rw [hboth, ih k, removing_removing]

theorem removalStatements_all (records : List FileRow) :
    (records.flatMap (removalStatements call nodeId)).foldl Database.apply db =
      removing call nodeId db records records := by
  have hlength : (records.flatMap (removalStatements call nodeId)).length = 2 * records.length := by
    induction records with
    | nil => rfl
    | cons r rest ih =>
      rw [List.flatMap_cons, List.length_append, ih, List.length_cons]
      simp only [removalStatements, List.length_cons, List.length_nil]
      omega
  have htake := @removalStatements_take Bytes call nodeId db records (2 * records.length)
  rw [List.take_of_length_le (Nat.le_of_eq hlength), List.take_of_length_le (by omega),
    List.take_of_length_le (by omega)] at htake
  exact htake

theorem mem_removing_iff {removed told : List FileRow} {r : FileRow} :
    r ∈ (removing call nodeId db removed told).files ↔
      r ∈ db.files ∧ ∀ c ∈ removed, c.id ≠ r.id := by
  simp [removing]

theorem mem_confirmed_iff {candidates : List FileRow} {r : FileRow} :
    r ∈ confirmed call candidates ↔ r ∈ candidates ∧
      ∃ path, r.remotePath = some path ∧ call.adapter.stat path = .ok none := by
  simp only [confirmed, List.mem_filter, decide_eq_true_eq]
  refine and_congr_right fun _ => ?_
  unfold confirmRemoved
  cases hpath : r.remotePath with
  | none => simp
  | some path =>
    rcases hstat : call.adapter.stat path with message | _ | ref
    · simp [hstat]
    · simp [hstat]
    · simp [hstat]

end Portuni.RemoteSweep
