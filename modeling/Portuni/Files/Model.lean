import Mathlib.Data.List.Find
import Mathlib.Data.List.Nodup
import Portuni.Files.Paths

/-!
The tables of the graph database that file operations read and write, with the
statements they issue.
-/

namespace Portuni.Files

/-- One row of `files`. Ids stand for ULIDs in the order they are drawn. -/
structure FileRow where
  id : ℕ
  nodeId : String
  filename : String
  remoteName : Option String
  remotePath : Option RemotePath
  remoteFileId : Option String
  currentRemoteHash : Option String
  isNativeFormat : Bool
deriving DecidableEq

/-- The record once had an object on the remote: it was pushed, or it is native. -/
def FileRow.hadObject (r : FileRow) : Bool :=
  r.currentRemoteHash.isSome || r.isNativeFormat

inductive AuditAction where
  | syncDelete
  | syncDeleteRemote
  | syncMove
  | syncRename
  | syncRenameRemote
  | syncMovePartial
  | syncDeleteRepairNeeded
  | syncDeleteRemoteRepairNeeded
  | syncRenameFolder
  | syncAdopt
  | moveNode
  | syncCreateRemote
  | syncRegisterRemote
  | sessionCreate
  | sessionRecord
deriving DecidableEq

/-- What an audit row is about: `target_type` with `target_id`. -/
inductive AuditTarget where
  | file (id : ℕ)
  | node (id : String)
  | session (id : ℕ)
deriving DecidableEq

/-- A value in the JSON detail of an audit row. A `binding` is an object with a
`remote_name`, a `remote_path` and, where it has the key, a `local_path`. -/
inductive DetailValue where
  | null
  | text (s : String)
  | path (p : RemotePath)
  | flag (b : Bool)
  | number (n : ℕ)
  | binding (remoteName : Option String) (remotePath : Option RemotePath)
      (localPath : Option (Option RemotePath))
deriving DecidableEq

def DetailValue.ofText : Option String → DetailValue
  | some s => .text s
  | none => .null

def DetailValue.ofPath : Option RemotePath → DetailValue
  | some p => .path p
  | none => .null

abbrev Detail := List (String × DetailValue)

/-- One row of `audit_log`. -/
structure AuditRow where
  userId : String
  action : AuditAction
  target : AuditTarget
  detail : Detail
  timestamp : ℕ
deriving DecidableEq

def AuditRow.fileId? (r : AuditRow) : Option ℕ :=
  match r.target with
  | .file id => some id
  | .node _ => none
  | .session _ => none

def AuditRow.auditNodeId (r : AuditRow) : Option String :=
  match r.detail.lookup "node_id" with
  | some (.text s) => some s
  | _ => none

def jsonPath (detail : Detail) (key : String) : Option RemotePath :=
  match detail.lookup key with
  | some (.path p) => some p
  | _ => none

def AuditRow.auditRemotePath (r : AuditRow) : Option RemotePath :=
  (jsonPath r.detail "remote_path").or (jsonPath r.detail "old_remote_path")

theorem AuditRow.auditRemotePath_eq {r : AuditRow} {p : Option RemotePath}
    (h : r.detail.lookup "remote_path" = some (.ofPath p)) :
    r.auditRemotePath = p.or (jsonPath r.detail "old_remote_path") := by
  cases p with
  | none | some path => simp [auditRemotePath, jsonPath, h, DetailValue.ofPath]

theorem AuditRow.auditRemotePath_of_old {r : AuditRow} {path : RemotePath}
    (hnone : r.detail.lookup "remote_path" = none)
    (h : r.detail.lookup "old_remote_path" = some (.ofPath (some path))) :
    r.auditRemotePath = some path := by
  simp [auditRemotePath, jsonPath, hnone, h, DetailValue.ofPath]

/-- What a tombstone says: action, node, path the file was at, file. -/
structure Tombstone where
  action : AuditAction
  nodeId : Option String
  remotePath : Option RemotePath
  target : AuditTarget
deriving DecidableEq

def AuditAction.reportsRemoval : AuditAction → Bool
  | .syncDelete | .syncDeleteRemote | .syncMove | .syncRename | .syncRenameRemote => true
  | _ => false

def AuditRow.tombstone? (r : AuditRow) : Option Tombstone :=
  if r.action.reportsRemoval then some ⟨r.action, r.auditNodeId, r.auditRemotePath, r.target⟩
  else none

/-- A pending remote mutation, as recorded before its first side effect. -/
inductive PendingOp where
  | move (fromRemoteName : String) (fromRemotePath : RemotePath) (toRemoteName : String)
      (toRemotePath : RemotePath) (toNodeId filename : String) (sourceCopied : Bool)
  | delete (remoteName : String) (remotePath : RemotePath) (filename : String)
      (expectedHash : Option String) (expectedRemoteObject : Bool)
deriving DecidableEq

structure PendingOpRow where
  id : ℕ
  userId : String
  nodeId : String
  fileId : ℕ
  payload : PendingOp
  attempts : ℕ
  lastError : Option String
deriving DecidableEq

structure Database where
  files : List FileRow
  auditLog : List AuditRow
  pendingOps : List PendingOpRow
  nextId : ℕ
deriving DecidableEq

namespace Database

def fileById (db : Database) (id : ℕ) : Option FileRow :=
  db.files.find? (·.id = id)

def updateFile (db : Database) (id : ℕ) (set : FileRow → FileRow) : Database :=
  { db with files := db.files.map fun r => if r.id = id then set r else r }

def deleteFile (db : Database) (id : ℕ) : Database :=
  { db with files := db.files.filter (·.id ≠ id) }

def taken (db : Database) (nodeId : String) (remotePath : RemotePath) : Bool :=
  db.files.any fun r => r.nodeId = nodeId && r.remotePath = some remotePath

def insertAudit (db : Database) (row : AuditRow) : Database :=
  { db with auditLog := db.auditLog ++ [row] }

end Database

/-!
Single statements on the database, for the code whose interruption between two
of them matters. Each is atomic: one SQL statement, or one batch.
-/

inductive Statement where
  | deleteFile (id : ℕ)
  /-- The batch of `writeRelocatedRecord`: drop the shadow row, move the record. -/
  | relocateFile (shadow : Option ℕ) (id : ℕ) (set : Option String × RemotePath × String × String)
  | insertFile (row : FileRow)
  | setRemoteFileId (id : ℕ) (remoteFileId : String)
  | setRemoteHash (id : ℕ) (hash : String)
  | insertAudit (row : AuditRow)

namespace Database

def dropShadow (db : Database) : Option ℕ → Database
  | some shadow => db.deleteFile shadow
  | none => db

def apply (db : Database) : Statement → Database
  | .deleteFile id => db.deleteFile id
  | .relocateFile shadow id (remoteName, remotePath, nodeId, filename) =>
    (db.dropShadow shadow).updateFile id fun r =>
      { r with remoteName, remotePath := some remotePath, nodeId, filename }
  | .insertFile row =>
    { db with files := db.files ++ [{ row with id := db.nextId }], nextId := db.nextId + 1 }
  | .setRemoteFileId id remoteFileId =>
    db.updateFile id fun r => { r with remoteFileId := some remoteFileId }
  | .setRemoteHash id hash => db.updateFile id fun r => { r with currentRemoteHash := some hash }
  | .insertAudit row => db.insertAudit row

/-- The primary key of `files`, with ids drawn in order. -/
structure Keyed (db : Database) : Prop where
  nodup : (db.files.map (·.id)).Nodup
  lt : ∀ r ∈ db.files, r.id < db.nextId

variable {db : Database} {id : ℕ} {set : FileRow → FileRow} {P : FileRow → Bool}

theorem Keyed.unique (keyed : db.Keyed) {r r' : FileRow} (hr : r ∈ db.files) (hr' : r' ∈ db.files)
    (hid : r.id = r'.id) : r = r' :=
  List.inj_on_of_nodup_map keyed.nodup hr hr' hid

theorem mem_updateFile_iff {r : FileRow} :
    r ∈ (db.updateFile id set).files ↔ ∃ r₀ ∈ db.files, (if r₀.id = id then set r₀ else r₀) = r :=
  List.mem_map

theorem mem_deleteFile_iff {r : FileRow} :
    r ∈ (db.deleteFile id).files ↔ r ∈ db.files ∧ r.id ≠ id := by
  simp [deleteFile]

theorem find?_updateFile (h : ∀ r ∈ db.files, r.id = id → P (set r) = P r) :
    (db.updateFile id set).files.find? P =
      (db.files.find? P).map fun r => if r.id = id then set r else r := by
  change (db.files.map _).find? P = _
  rw [List.find?_map]
  congr 1
  refine List.find?_congr fun r hr => ?_
  by_cases hid : r.id = id
  · simp [hid, h r hr hid]
  · simp [hid]

theorem find?_deleteFile (h : ∀ r ∈ db.files, r.id = id → P r = false) :
    (db.deleteFile id).files.find? P = db.files.find? P := by
  change (db.files.filter _).find? P = _
  rw [List.find?_filter]
  refine List.find?_congr fun r hr => ?_
  by_cases hid : r.id = id
  · simp [hid, h r hr hid]
  · simp [hid]

theorem map_id_updateFile (hset : ∀ r, (set r).id = r.id) :
    (db.updateFile id set).files.map (·.id) = db.files.map (·.id) := by
  change (db.files.map _).map _ = _
  rw [List.map_map]
  refine List.map_congr_left fun r _ => ?_
  by_cases hid : r.id = id
  · simp [hid, hset]
  · simp [hid]

theorem Keyed.updateFile (keyed : db.Keyed) (hset : ∀ r, (set r).id = r.id) :
    (db.updateFile id set).Keyed where
  nodup := by
    rw [map_id_updateFile hset]
    exact keyed.nodup
  lt := by
    intro r hr
    obtain ⟨r₀, hr₀, rfl⟩ := mem_updateFile_iff.mp hr
    have hlt := keyed.lt r₀ hr₀
    by_cases hid : r₀.id = id
    · rw [if_pos hid, hset]
      exact hlt
    · rw [if_neg hid]
      exact hlt

theorem Keyed.deleteFile (keyed : db.Keyed) : (db.deleteFile id).Keyed where
  nodup := (keyed.nodup.sublist (List.filter_sublist.map _))
  lt := fun r hr => keyed.lt r (mem_deleteFile_iff.mp hr).1

theorem Keyed.apply (keyed : db.Keyed) (st : Statement) : (db.apply st).Keyed := by
  cases st with
  | deleteFile id => exact keyed.deleteFile
  | relocateFile shadow id set =>
    cases shadow with
    | none => exact keyed.updateFile fun _ => rfl
    | some shadow => exact keyed.deleteFile.updateFile fun _ => rfl
  | insertFile row =>
    refine ⟨?_, ?_⟩
    · simp only [Database.apply, List.map_append, List.map_cons, List.map_nil]
      refine List.nodup_append.mpr ⟨keyed.nodup, List.nodup_singleton _, ?_⟩
      rintro _ ha _ hb rfl
      obtain ⟨r, hr, rfl⟩ := List.mem_map.mp ha
      exact absurd (keyed.lt r hr) (by simp at hb; omega)
    · intro r hr
      simp only [Database.apply, List.mem_append, List.mem_singleton] at hr ⊢
      rcases hr with hr | rfl
      · exact Nat.lt_succ_of_lt (keyed.lt r hr)
      · exact Nat.lt_succ_self _
  | setRemoteFileId id _ | setRemoteHash id _ => exact keyed.updateFile fun _ => rfl
  | insertAudit row => exact ⟨keyed.nodup, keyed.lt⟩

theorem Keyed.foldl_apply (keyed : db.Keyed) (statements : List Statement) :
    (statements.foldl Database.apply db).Keyed := by
  induction statements generalizing db with
  | nil => exact keyed
  | cons st rest ih => exact ih (keyed.apply st)

def tombstones (db : Database) : List Tombstone :=
  db.auditLog.filterMap AuditRow.tombstone?

structure SameOutcome (db db' : Database) : Prop where
  files : db.files = db'.files
  tombstones : db.tombstones = db'.tombstones
  nextId : db.nextId = db'.nextId

theorem SameOutcome.refl (db : Database) : db.SameOutcome db :=
  ⟨rfl, rfl, rfl⟩

theorem SameOutcome.apply {db' : Database} (same : db.SameOutcome db') (st : Statement) :
    (db.apply st).SameOutcome (db'.apply st) := by
  obtain ⟨files, log, ops, next⟩ := db
  obtain ⟨files', log', ops', next'⟩ := db'
  obtain ⟨rfl, hlog, rfl⟩ := same
  cases st with
  | insertAudit row =>
    refine ⟨rfl, ?_, rfl⟩
    simp only [Database.tombstones, Database.apply, insertAudit, List.filterMap_append] at hlog ⊢
    rw [hlog]
  | relocateFile shadow id set =>
    cases shadow with
    | none => exact ⟨rfl, hlog, rfl⟩
    | some shadow => exact ⟨rfl, hlog, rfl⟩
  | deleteFile _ | insertFile _ | setRemoteFileId _ _ | setRemoteHash _ _ => exact ⟨rfl, hlog, rfl⟩

theorem SameOutcome.foldl_apply {db' : Database} (same : db.SameOutcome db')
    (statements : List Statement) :
    (statements.foldl Database.apply db).SameOutcome (statements.foldl Database.apply db') := by
  induction statements generalizing db db' with
  | nil => exact same
  | cons st rest ih => exact ih (same.apply st)

end Database

end Portuni.Files
