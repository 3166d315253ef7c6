import Portuni.FileOps.RemoteMutations

namespace Portuni.RemoteSweep

/-!
The remote sweep of a node: finish what is pending, list the three sections,
delete the records whose object is gone, refresh hashes, adopt what is new.
-/

section

open Content FileOps Files

universe u

abbrev ListedObject := RemotePath × FileRef

structure SweepWorld (Bytes : Type u) where
  retries : ℕ → World
  getAdapter : String → Except String (FileAdapter Bytes)
  list : RemotePath → Except String (List ListedObject)
  hashing : Hashing Bytes
  nfc : RemotePath → RemotePath
  nfc_nfc : ∀ path, nfc (nfc path) = nfc path
  now : ℕ

structure SweepTarget (Bytes : Type u) where
  call : Call Bytes
  nodeRoot : RemotePath

variable {Bytes : Type u}

def SweepWorld.call (world : SweepWorld Bytes) (server : Server) (remoteName : String)
    (adapter : FileAdapter Bytes) : Call Bytes where
  hashing := world.hashing
  nfc := world.nfc
  nfc_nfc := world.nfc_nfc
  adapter := adapter
  userId := server.userId
  remoteName := remoteName
  now := world.now

/-- Resolve the node, its remote and its root. An unrouted node has nothing to sweep. -/
def sweepTarget (server : Server) (world : SweepWorld Bytes) (nodeId : String) :
    Except String (Option (SweepTarget Bytes)) :=
  match server.resolveNodeInfo nodeId with
  | .error message => .error message
  | .ok info =>
    match server.resolveRemote info with
    | none => .ok none
    | some remoteName =>
      match world.getAdapter remoteName, buildNodeRoot info with
      | .error message, _ => .error message
      | _, .error message => .error message
      | .ok adapter, .ok nodeRoot =>
        .ok (some ⟨world.call server remoteName adapter, nodeRoot⟩)

def sectionNames : List FileSection := [.wip, .outputs, .resources]

def listSections (list : RemotePath → Except String (List ListedObject)) (nodeRoot : RemotePath) :
    List FileSection → Except StepError (List ListedObject)
  | [] => .ok []
  | s :: rest =>
    match list (nodeRoot ++ [s.segment]) with
    | .error message => .error (some (nodeRoot ++ [s.segment]), "list failed: " ++ message)
    | .ok refs => (listSections list nodeRoot rest).map (refs ++ ·)

variable (call : Call Bytes)

def presentAt (listing : List ListedObject) (nfcPath : RemotePath) : Option ListedObject :=
  listing.reverse.find? fun f => call.nfc f.1 = nfcPath

def present (listing : List ListedObject) : List ListedObject :=
  (listing.map (call.nfc ·.1)).eraseDups.filterMap (presentAt call listing)

def sweptRecords (db : Database) (nodeId : String) : List FileRow :=
  db.files.filter fun r =>
    r.nodeId = nodeId && r.remoteName = some call.remoteName && r.remotePath.isSome

def listedFor (listing : List ListedObject) (r : FileRow) : Option ListedObject :=
  r.remotePath.bind fun path => presentAt call listing (call.nfc path)

def missingCandidates (listing : List ListedObject) (records : List FileRow) : List FileRow :=
  records.filter fun r => r.hadObject && (listedFor call listing r).isNone

def rootSeen (nodeRoot : RemotePath) : Bool :=
  match call.adapter.stat nodeRoot with
  | .ok (some _) => true
  | _ => false

def persistListedIds (listing : List ListedObject) (records : List FileRow) : List Statement :=
  records.flatMap fun r =>
    match listedFor call listing r with
    | some (_, ref) => persistRemoteFileId r.id r.remoteFileId ref.remoteFileId
    | none => []

def hashCandidates (listing : List ListedObject) (records : List FileRow) : List HashCandidate :=
  records.filterMap fun r =>
    match r.remotePath, listedFor call listing r with
    | some path, some (_, ref) =>
      if needsHashRefresh r ref.hash then
        some ⟨r.id, path, ref.hash, r.remoteFileId, ref.remoteFileId⟩
      else none
    | _, _ => none

/-- A record of the remote anywhere under the root. (`LIKE` also takes other ASCII
cases of the root, which no listed path equals.) -/
def knownUnder (nodeRoot nfcPath : RemotePath) (r : FileRow) : Bool :=
  r.remoteName = some call.remoteName &&
    r.remotePath.any fun path => (below nodeRoot path).isSome && call.nfc path = nfcPath

def newRefs (db : Database) (nodeRoot : RemotePath) (listing : List ListedObject) :
    List ListedObject :=
  (present call listing).filter fun f =>
    !db.files.any (knownUnder call nodeRoot (call.nfc f.1))

structure SweepResult where
  adopted : List FileOnRemote := []
  deletedOnRemote : List FileOnRemote := []
  errors : List StepError := []
  retry : RetryResult := {}
deriving DecidableEq

/-- The sweep proper. A section that cannot be listed ends it, and so does a root
that cannot be seen while records are missing. -/
def sweepNode (list : RemotePath → Except String (List ListedObject)) (nodeId : String)
    (nodeRoot : RemotePath) (db : Database) : Database × SweepResult :=
  match listSections list nodeRoot sectionNames with
  | .error failure => (db, { errors := [failure] })
  | .ok listing =>
    let records := sweptRecords call db nodeId
    let missing := missingCandidates call listing records
    if !missing.isEmpty && !rootSeen call nodeRoot then
      (db, { errors := [(some nodeRoot, "node root not reachable on remote")] })
    else
      let removed := deleteRemovedRecords call nodeId missing
      let refreshed := refreshRemoteHashes call (hashCandidates call listing records)
      let db := (removed.statements ++ persistListedIds call listing records ++
        refreshed.statements).foldl Database.apply db
      let adoption :=
        adoptRemoteFiles call nodeId nodeRoot db (newRefs call db nodeRoot listing)
      (adoption.statements.foldl Database.apply db,
        { adopted := adoption.adopted
          deletedOnRemote := removed.deleted
          errors := removed.errors ++ adoption.errors })

def localModeNoRemote : String :=
  "A personal workspace has no remote; files are shared through the central server in a team " ++
    "workspace."

def remoteSweep (server : Server) (world : SweepWorld Bytes) (db : Database) (nodeId : String) :
    Database × Except String SweepResult :=
  if server.localWorkspace then (db, .error localModeNoRemote)
  else
    let (db, retry) := retryPendingFileOps world.retries db nodeId
    match sweepTarget server world nodeId with
    | .error message => (db, .error message)
    | .ok none => (db, .ok { retry := retry })
    | .ok (some target) =>
      let (db, swept) := sweepNode target.call world.list nodeId target.nodeRoot db
      (db, .ok { swept with retry := retry })

end

open Files Files.Database

universe u

def bindingOf (r : FileRow) : String × Option String × Option RemotePath :=
  (r.nodeId, r.remoteName, r.remotePath)

/-- Statements that write what the remote reports of an object onto its record. -/
def refreshes : Statement → Bool
  | .setRemoteFileId .. | .setRemoteHash .. => true
  | _ => false

variable {Bytes : Type u} {call : Call Bytes} {db : Database} {nodeId : String}
  {nodeRoot path nfcPath : RemotePath} {id : ℕ} {st : Statement} {β : Type}

theorem map_updateFile {set : FileRow → FileRow} (f : FileRow → β) (hset : ∀ r, f (set r) = f r) :
    (db.updateFile id set).files.map f = db.files.map f := by
  change (db.files.map _).map f = _
  rw [List.map_map]
  refine List.map_congr_left fun r _ => ?_
  by_cases hid : r.id = id
  · simp [hid, hset]
  · simp [hid]

theorem map_apply_of_refreshes (f : FileRow → β)
    (hid : ∀ r value, f { r with remoteFileId := value } = f r)
    (hhash : ∀ r value, f { r with currentRemoteHash := value } = f r) (hst : refreshes st) :
    (db.apply st).files.map f = db.files.map f ∧ (db.apply st).auditLog = db.auditLog := by
  cases st with
  | setRemoteFileId id value => exact ⟨map_updateFile f fun r => hid r _, rfl⟩
  | setRemoteHash id value => exact ⟨map_updateFile f fun r => hhash r _, rfl⟩
  | insertAudit row | deleteFile id | relocateFile shadow id set | insertFile row => cases hst

variable {statements : List Statement}

theorem map_foldl_of_refreshes (f : FileRow → β)
    (hid : ∀ r value, f { r with remoteFileId := value } = f r)
    (hhash : ∀ r value, f { r with currentRemoteHash := value } = f r)
    (hrefresh : ∀ st ∈ statements, refreshes st) :
    (statements.foldl Database.apply db).files.map f = db.files.map f := by
  induction statements generalizing db with
  | nil => rfl
  | cons st rest ih =>
    rw [List.foldl_cons, ih fun st' h => hrefresh st' (List.mem_cons_of_mem _ h),
      (map_apply_of_refreshes f hid hhash (hrefresh st List.mem_cons_self)).1]

theorem auditLog_foldl_of_refreshes (hrefresh : ∀ st ∈ statements, refreshes st) :
    (statements.foldl Database.apply db).auditLog = db.auditLog := by
  induction statements generalizing db with
  | nil => rfl
  | cons st rest ih =>
    rw [List.foldl_cons, ih fun st' h => hrefresh st' (List.mem_cons_of_mem _ h),
      (map_apply_of_refreshes (·.id) (fun _ _ => rfl) (fun _ _ => rfl)
        (hrefresh st List.mem_cons_self)).2]

theorem refreshes_persistRemoteFileId {current proved : Option String}
    (hst : st ∈ persistRemoteFileId id current proved) : refreshes st := by
  unfold persistRemoteFileId at hst
  split at hst
  · cases hst
  · split at hst
    · cases hst
    · obtain rfl := List.mem_singleton.mp hst
      rfl

theorem refreshes_persistListedIds {listing : List ListedObject} {records : List FileRow}
    (hst : st ∈ persistListedIds call listing records) : refreshes st := by
  obtain ⟨r, -, hst⟩ := List.mem_flatMap.mp hst
  split at hst
  · exact refreshes_persistRemoteFileId hst
  · cases hst

theorem refreshes_refreshRemoteHashes {candidates : List HashCandidate}
    (hst : st ∈ (refreshRemoteHashes call candidates).statements) : refreshes st := by
  induction candidates with
  | nil => cases hst
  | cons c rest ih =>
    simp only [refreshRemoteHashes] at hst
    split at hst
    · exact ih hst
    · rcases List.mem_cons.mp hst with rfl | hst
      · rfl
      · rcases List.mem_append.mp hst with hst | hst
        · exact refreshes_persistRemoteFileId hst
        · exact ih hst

theorem refreshes_backfillHashes {adopted : List Adopted}
    (hst : st ∈ (backfillHashes call adopted).1) : refreshes st := by
  induction adopted with
  | nil => cases hst
  | cons f rest ih =>
    simp only [backfillHashes] at hst
    split at hst
    · exact ih hst
    · split at hst
      · rcases List.mem_cons.mp hst with rfl | hst
        · rfl
        · exact ih hst
      · exact ih hst

theorem bindings_foldl_insertFile (rows : List FileRow) :
    ((rows.map Statement.insertFile).foldl Database.apply db).files.map bindingOf =
      db.files.map bindingOf ++ rows.map bindingOf := by
  induction rows generalizing db with
  | nil => simp
  | cons row rest ih =>
    rw [List.map_cons, List.foldl_cons, ih]
    simp [Database.apply, bindingOf]

theorem ids_foldl_insertFile {rows : List FileRow} (hid : id ∈ db.files.map (·.id)) :
    id ∈ ((rows.map Statement.insertFile).foldl Database.apply db).files.map (·.id) := by
  induction rows generalizing db with
  | nil => exact hid
  | cons row rest ih =>
    refine ih ?_
    simp only [Database.apply, List.map_append]
    exact List.mem_append_left _ hid

theorem foldl_insertAudit (rows : List AuditRow) :
    (rows.map Statement.insertAudit).foldl Database.apply db =
      { db with auditLog := db.auditLog ++ rows } := by
  induction rows generalizing db with
  | nil => simp
  | cons row rest ih =>
    rw [List.map_cons, List.foldl_cons, ih]
    simp [Database.apply, insertAudit]

theorem auditLog_foldl_insertFile (rows : List FileRow) :
    ((rows.map Statement.insertFile).foldl Database.apply db).auditLog = db.auditLog := by
  induction rows generalizing db with
  | nil => rfl
  | cons row rest ih => exact ih

def adoptedFiles (call : Call Bytes) (nodeId : String) (nodeRoot : RemotePath) (db : Database)
    (refs : List ListedObject) : List Adopted :=
  (adoptFiles call nodeId nodeRoot db
    (refs.filter fun c => (adoptableSection nodeRoot c.1).isSome)).1

theorem adoptRemoteFiles_foldl (refs : List ListedObject) :
    (adoptRemoteFiles call nodeId nodeRoot db refs).statements.foldl Database.apply db =
      (backfillHashes call (adoptedFiles call nodeId nodeRoot db refs)).1.foldl Database.apply
        ((((adoptedFiles call nodeId nodeRoot db refs).map (adoptAudit call)).map
          Statement.insertAudit).foldl Database.apply
            ((((adoptedFiles call nodeId nodeRoot db refs).map fun f =>
              adoptedRow call nodeId f.fileId f.remotePath f.ref).map
                Statement.insertFile).foldl Database.apply db)) := by
  simp only [adoptRemoteFiles, List.foldl_append, List.map_map]
  rfl

theorem bindings_adoptRemoteFiles (refs : List ListedObject) :
    ((adoptRemoteFiles call nodeId nodeRoot db refs).statements.foldl Database.apply
        db).files.map bindingOf =
      db.files.map bindingOf ++ (adoptedFiles call nodeId nodeRoot db refs).map fun f =>
        (nodeId, some call.remoteName, some f.remotePath) := by
  rw [adoptRemoteFiles_foldl, map_foldl_of_refreshes bindingOf (fun _ _ => rfl) (fun _ _ => rfl)
    (fun st hst => refreshes_backfillHashes hst), foldl_insertAudit, bindings_foldl_insertFile,
    List.map_map]
  rfl

variable {refs : List ListedObject}

theorem ids_adoptRemoteFiles (hid : id ∈ db.files.map (·.id)) :
    id ∈ ((adoptRemoteFiles call nodeId nodeRoot db refs).statements.foldl Database.apply
      db).files.map (·.id) := by
  rw [adoptRemoteFiles_foldl, map_foldl_of_refreshes (·.id) (fun _ _ => rfl) (fun _ _ => rfl)
    (fun st hst => refreshes_backfillHashes hst), foldl_insertAudit]
  exact ids_foldl_insertFile hid

theorem auditLog_adoptRemoteFiles (refs : List ListedObject) :
    ((adoptRemoteFiles call nodeId nodeRoot db refs).statements.foldl Database.apply
        db).auditLog =
      db.auditLog ++ (adoptedFiles call nodeId nodeRoot db refs).map (adoptAudit call) := by
  rw [adoptRemoteFiles_foldl,
    auditLog_foldl_of_refreshes (fun st hst => refreshes_backfillHashes hst), foldl_insertAudit,
    auditLog_foldl_insertFile]

theorem countP_knownUnder (files : List FileRow) :
    files.countP (knownUnder call nodeRoot nfcPath) =
      (files.map bindingOf).countP fun b => b.2.1 = some call.remoteName &&
        b.2.2.any fun path => (below nodeRoot path).isSome && call.nfc path = nfcPath := by
  rw [List.countP_map]
  rfl

theorem adoptFiles_paths (hnodup : (refs.map (·.1)).Nodup) :
    (adoptFiles call nodeId nodeRoot db refs).1.map (·.remotePath) =
      (refs.map (·.1)).filter fun path =>
        (refusedPath nodeRoot path).isNone && !db.taken nodeId path := by
  induction refs generalizing db with
  | nil => rfl
  | cons f rest ih =>
    obtain ⟨path, ref⟩ := f
    obtain ⟨hfresh, hrest⟩ := List.nodup_cons.mp hnodup
    simp only [adoptFiles, List.map_cons, List.filter_cons]
    cases hrefused : refusedPath nodeRoot path with
    | some reason => simpa using ih hrest
    | none =>
      cases htaken : db.taken nodeId path with
      | true => simpa using ih hrest
      | false =>
        simp only [Option.isNone_none, Bool.not_false, Bool.and_self, if_true,
          Bool.false_eq_true, if_false, List.map_cons, List.cons.injEq, true_and]
        rw [ih hrest]
        refine List.filter_congr fun p hp => ?_
        have hne : p ≠ path := fun h => hfresh (h ▸ hp)
        simp [Database.taken, Database.apply, adoptedRow, Ne.symm hne]

theorem mem_adoptFiles_errors {ref : FileRef} {reason : String} (hmem : (path, ref) ∈ refs)
    (hrefused : refusedPath nodeRoot path = some reason) :
    (some path, reason) ∈ (adoptFiles call nodeId nodeRoot db refs).2 := by
  induction refs generalizing db with
  | nil => cases hmem
  | cons f rest ih =>
    obtain ⟨path', ref'⟩ := f
    simp only [adoptFiles]
    rcases List.mem_cons.mp hmem with heq | hmem
    · obtain ⟨rfl, rfl⟩ := Prod.mk.inj heq
      rw [hrefused]
      exact List.mem_cons_self
    · split
      · exact List.mem_cons_of_mem _ (ih hmem)
      · split
        · exact ih hmem
        · exact ih hmem

end Portuni.RemoteSweep
