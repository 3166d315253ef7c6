import Mathlib.Data.List.Sort
import Portuni.RemoteSweep.Steps

namespace Portuni.RemoteWatch

/-!
The remote watcher: the reducer that turns a batch of feed changes into a plan,
and the applier that works the plan off one change at a time.
-/

section

open Files RemoteSweep

universe u

/-- An entry of the backend's change feed. A hard delete has no path. -/
inductive RemoteChange where
  | upsert (path : RemotePath) (hash : Option String) (isFolder : Bool) (fileId : Option String)
  | remove (path : Option RemotePath) (fileId : Option String)
deriving DecidableEq

structure WatchedNode where
  nodeId : String
  nodeRoot : RemotePath
deriving DecidableEq

inductive DropReason where
  | folder
  | noPath
  | outOfRoot
  | outOfSection

inductive PlannedChange where
  | upsert (node : WatchedNode) (path : RemotePath) (hash fileId : Option String)
  | remove (node : WatchedNode) (path : RemotePath) (fileId : Option String)
  | removeById (fileId : String)
deriving DecidableEq

/-- The key under which the reducer collects a change: its path, or `id:<fileId>`. -/
inductive PlanKey where
  | path (p : RemotePath)
  | id (fileId : String)
deriving DecidableEq

def PlannedChange.key : PlannedChange → PlanKey
  | .upsert _ path _ _ => .path path
  | .remove _ path _ => .path path
  | .removeById fileId => .id fileId

structure RemoteChangePlan where
  planned : List PlannedChange := []
  dropped : List (Option RemotePath × DropReason) := []
  sweepNodeIds : List String := []

/-- `Map.set`: a key that is there keeps its place and takes the new value. -/
def setPlanned (planned : List PlannedChange) (c : PlannedChange) : List PlannedChange :=
  if planned.any (·.key = c.key) then planned.map fun d => if d.key = c.key then c else d
  else planned ++ [c]

def nodeFor (nodes : List WatchedNode) (path : RemotePath) : Option WatchedNode :=
  (nodes.mergeSort fun a b => decide (b.nodeRoot.length ≤ a.nodeRoot.length)).find? fun n =>
    (below n.nodeRoot path).isSome

def RemoteChangePlan.drop (plan : RemoteChangePlan) (path : Option RemotePath)
    (reason : DropReason) : RemoteChangePlan :=
  { plan with dropped := plan.dropped ++ [(path, reason)] }

/-- Take up a change to the file at `path`, where a watched node owns the path. -/
def RemoteChangePlan.take (nodes : List WatchedNode) (plan : RemoteChangePlan)
    (path : RemotePath) (change : WatchedNode → PlannedChange) : RemoteChangePlan :=
  match nodeFor nodes path with
  | none => plan.drop (some path) .outOfRoot
  | some node =>
    if (adoptableSection node.nodeRoot path).isNone then plan.drop (some path) .outOfSection
    else { plan with planned := setPlanned plan.planned (change node) }

def planChange (nodes : List WatchedNode) (plan : RemoteChangePlan) :
    RemoteChange → RemoteChangePlan
  | .upsert path hash isFolder fileId =>
    if isFolder then
      match nodeFor nodes path with
      | some node =>
        if (((path.drop node.nodeRoot.length).head?).bind FileSection.ofSegment).isSome then
          { plan with sweepNodeIds := plan.sweepNodeIds.insert node.nodeId }
        else plan.drop (some path) .folder
      | none => plan.drop (some path) .folder
    else plan.take nodes path fun node => .upsert node path hash fileId
  | .remove none fileId =>
    match fileId with
    | some x => { plan with planned := setPlanned plan.planned (.removeById x) }
    | none => plan.drop none .noPath
  | .remove (some path) fileId => plan.take nodes path fun node => .remove node path fileId

/-- The last change for a path wins: the feed reports changes in order. -/
def planRemoteChanges (changes : List RemoteChange) (nodes : List WatchedNode) :
    RemoteChangePlan :=
  changes.foldl (planChange nodes) {}

structure ApplyChangesResult where
  adopted : List FileOnRemote := []
  refreshed : List (ℕ × RemotePath) := []
  deleted : List FileOnRemote := []
  relocated : List (ℕ × Option RemotePath × RemotePath) := []
  errors : List StepError := []

def ApplyChangesResult.append (a b : ApplyChangesResult) : ApplyChangesResult where
  adopted := a.adopted ++ b.adopted
  refreshed := a.refreshed ++ b.refreshed
  deleted := a.deleted ++ b.deleted
  relocated := a.relocated ++ b.relocated
  errors := a.errors ++ b.errors

/-- What applying one change comes to: the statements it issues, in order, and
what it reports. -/
structure Effect where
  statements : List Statement := []
  result : ApplyChangesResult := {}

variable {Bytes : Type u} (call : Call Bytes)

def removeRecord (nodeId : String) (r : FileRow) : Effect :=
  if r.hadObject then
    let removed := deleteRemovedRecords call nodeId [r]
    { statements := removed.statements
      result := { deleted := removed.deleted, errors := removed.errors } }
  else {}

def refreshOne (id : ℕ) (path : RemotePath) (listedHash : Option String) : Effect :=
  let refreshed := refreshRemoteHashes call [⟨id, path, listedHash, none, none⟩]
  { statements := refreshed.statements
    result :=
      { refreshed := refreshed.refreshed.map fun f => (f.1, path)
        errors := refreshed.errors } }

def refreshIfNeeded (r : FileRow) (path : RemotePath) (listedHash : Option String) : Effect :=
  if needsHashRefresh r listedHash then refreshOne call r.id path listedHash else {}

def shadowOf (db : Database) (nodeId : String) (path : RemotePath) (id : ℕ) : Option ℕ :=
  (db.files.find? fun r => r.nodeId = nodeId && r.remotePath = some path && r.id ≠ id).map (·.id)

def relocationAudit (nodeId : String) (path : RemotePath) (r : FileRow) : AuditRow where
  userId := call.userId
  action := .syncMove
  target := .file r.id
  detail := [("node_id", .text r.nodeId), ("old_remote_path", .ofPath r.remotePath),
    ("old", .binding (some call.remoteName) r.remotePath (some none)),
    ("new", .binding (some call.remoteName) (some path) (some none)),
    ("cross_node", .flag (r.nodeId ≠ nodeId)), ("cross_remote", .flag false),
    ("reason", .text "remote_watcher")]
  timestamp := call.now

/-- Move the record to the path the feed reports, and leave a tombstone at the old one. -/
def relocateWatchedRecord (db : Database) (nodeId : String) (path : RemotePath) (r : FileRow) :
    List Statement :=
  [.relocateFile (shadowOf db nodeId path r.id) r.id
      (some call.remoteName, path, nodeId, path.getLastD r.filename),
    .insertAudit (relocationAudit call nodeId path r)]

def movedRecord (db : Database) (path : RemotePath) (fileId : Option String) : Option FileRow :=
  (fileId.bind (findRecordByRemoteFileId call db)).filter (·.remotePath ≠ some path)

def upsertUntracked (db : Database) (node : WatchedNode) (path : RemotePath)
    (hash fileId : Option String) : Effect :=
  match movedRecord call db path fileId with
  | some moved =>
    let refresh := refreshIfNeeded call moved path hash
    { statements := relocateWatchedRecord call db node.nodeId path moved ++ refresh.statements
      result :=
        { refresh.result with relocated := [(moved.id, moved.remotePath, path)] } }
  | none =>
    match call.adapter.stat path with
    | .error message => { result := { errors := [(some path, message)] } }
    | .ok none => {}
    | .ok (some ref) =>
      let adoption := adoptRemoteFiles call node.nodeId node.nodeRoot db
        [(path, { ref with remoteFileId := ref.remoteFileId.or fileId })]
      { statements := adoption.statements
        result := { adopted := adoption.adopted, errors := adoption.errors } }

/-- An upsert at a path whose record is `r`. -/
def upsertTracked (r : FileRow) (path : RemotePath) (hash fileId : Option String) : Effect :=
  let refresh := refreshIfNeeded call r (r.remotePath.getD path) hash
  { refresh with
    statements := persistRemoteFileId r.id r.remoteFileId fileId ++ refresh.statements }

/-- What applying one planned change does on the database `db`. -/
def changeEffect (db : Database) : PlannedChange → Effect
  | .removeById fileId =>
    match findRecordByRemoteFileId call db fileId with
    | some r => removeRecord call r.nodeId r
    | none => {}
  | .remove node path fileId =>
    match findRemoteRecord call db node.nodeId path with
    | some r => removeRecord call node.nodeId r
    | none =>
      match fileId.bind (findRecordByRemoteFileId call db) with
      | some r => removeRecord call r.nodeId r
      | none => {}
  | .upsert node path hash fileId =>
    match findRemoteRecord call db node.nodeId path with
    | some r => upsertTracked call r path hash fileId
    | none => upsertUntracked call db node path hash fileId

def applyChange (db : Database) (c : PlannedChange) : Database :=
  (changeEffect call db c).statements.foldl Database.apply db

/-- Apply a plan, change by change; a failing change is reported and the rest go on. -/
def applyRemoteChanges (db : Database) : List PlannedChange → Database × ApplyChangesResult
  | [] => (db, {})
  | c :: rest =>
    let later := applyRemoteChanges (applyChange call db c) rest
    (later.1, (changeEffect call db c).result.append later.2)

structure RemoteChanges where
  cursor : String
  changes : List RemoteChange
  reset : Bool

structure RemoteWatchTickResult where
  baseline : Bool := false
  reset : Bool := false
  applied : ApplyChangesResult := {}
  dropped : ℕ := 0
  cursorPersisted : Bool := true

/-- One tick, from the stored cursor and the feed's answer to it: the database,
the cursor that is stored afterwards and the result. A sweep is what the loop
does with the nodes it is asked to sweep. -/
def runRemoteWatchTick (sweep : List String → Database → Database) (nodes : List WatchedNode)
    (db : Database) (stored : Option String) (answer : RemoteChanges) :
    Database × Option String × RemoteWatchTickResult :=
  match stored with
  | none => (sweep (nodes.map (·.nodeId)) db, some answer.cursor, { baseline := true })
  | some cursor =>
    if answer.reset then
      (sweep (nodes.map (·.nodeId)) db, some answer.cursor, { reset := true })
    else if answer.changes.isEmpty then
      (db, some answer.cursor, { cursorPersisted := answer.cursor ≠ cursor })
    else
      let plan := planRemoteChanges answer.changes nodes
      let swept := if plan.sweepNodeIds.isEmpty then db else sweep plan.sweepNodeIds db
      let (applied, result) := applyRemoteChanges call swept plan.planned
      let persisted := result.errors.isEmpty
      (applied, if persisted then some answer.cursor else stored,
        { applied := result, dropped := plan.dropped.length, cursorPersisted := persisted })

end

open Files RemoteSweep

universe u

variable {Bytes : Type u} (call : Call Bytes)

def PlannedChange.path? : PlannedChange → Option RemotePath
  | .upsert _ path _ _ => some path
  | .remove _ path _ => some path
  | .removeById _ => none

def PlannedChange.object? : PlannedChange → Option String
  | .upsert _ _ _ fileId => fileId
  | .remove _ _ fileId => fileId
  | .removeById fileId => some fileId

def removable (r : FileRow) : Bool :=
  r.hadObject && decide (confirmRemoved call r = .ok true)

theorem removeRecord_statements (nodeId : String) (r : FileRow) :
    (removeRecord call nodeId r).statements =
      if removable call r then [.deleteFile r.id, .insertAudit (removalAudit call nodeId r)]
      else [] := by
  unfold removeRecord removable
  cases hobject : r.hadObject with
  | false => simp
  | true =>
    simp only [deleteRemovedRecords]
    rcases hconfirm : confirmRemoved call r with message | _ | _
    · simp
    · simp
    · simp

def refreshedHash (r : FileRow) (path : RemotePath) (listed : Option String) : Option String :=
  if needsHashRefresh r listed then (resolveHash call path listed).toOption else none

theorem refreshIfNeeded_statements (r : FileRow) (path : RemotePath) (listed : Option String) :
    (refreshIfNeeded call r path listed).statements =
      ((refreshedHash call r path listed).map (Statement.setRemoteHash r.id)).toList := by
  unfold refreshIfNeeded refreshedHash
  cases needsHashRefresh r listed with
  | false => simp
  | true =>
    simp only [if_true, refreshOne, refreshRemoteHashes]
    cases hresolve : resolveHash call path listed with
    | error message => simp [Except.toOption]
    | ok hash => simp [Except.toOption, persistRemoteFileId]

def backfilledHash (path : RemotePath) (ref : FileRef) : Option String :=
  if ref.hash.isSome || ref.isNativeFormat then none else (resolveHash call path none).toOption

/-- A path in a section of the node that `adoptFiles` does not refuse. -/
def acceptedPath (nodeRoot path : RemotePath) : Bool :=
  (adoptableSection nodeRoot path).isSome && (refusedPath nodeRoot path).isNone

def adoptStatements (db : Database) (nodeId : String) (path : RemotePath) (ref : FileRef) :
    List Statement :=
  let row := adoptedRow call nodeId db.nextId path ref
  .insertFile row :: .insertAudit (adoptAudit call ⟨row.id, path, row.filename, ref⟩) ::
    ((backfilledHash call path ref).map (Statement.setRemoteHash row.id)).toList

theorem backfillHashes_singleton (f : Adopted) : (backfillHashes call [f]).1 =
      ((backfilledHash call f.remotePath f.ref).map (Statement.setRemoteHash f.fileId)).toList := by
  simp only [backfillHashes, backfilledHash]
  by_cases hhash : (f.ref.hash.isSome || f.ref.isNativeFormat) = true
  · simp [hhash]
  · rw [if_neg hhash, if_neg hhash]
    cases resolveHash call f.remotePath none with
    | error message => rfl
    | ok hash => rfl

theorem adoptRemoteFiles_statements (db : Database) (nodeId : String)
    (nodeRoot path : RemotePath) (ref : FileRef) :
    (adoptRemoteFiles call nodeId nodeRoot db [(path, ref)]).statements =
      if acceptedPath nodeRoot path && !db.taken nodeId path then
        adoptStatements call db nodeId path ref
      else [] := by
  unfold adoptRemoteFiles acceptedPath adoptStatements
  cases hsection : (adoptableSection nodeRoot path).isSome with
  | false => simp [hsection, adoptFiles, backfillHashes]
  | true =>
    cases hrefused : refusedPath nodeRoot path with
    | some reason => simp [hsection, hrefused, adoptFiles, backfillHashes]
    | none =>
      cases htaken : db.taken nodeId path with
      | true => simp [hsection, hrefused, htaken, adoptFiles, backfillHashes]
      | false =>
        simp [hsection, hrefused, htaken, adoptFiles, backfillHashes_singleton, adoptedRow]

def adoptedRef (ref : FileRef) (fileId : Option String) : FileRef :=
  { ref with remoteFileId := ref.remoteFileId.or fileId }

variable {call} {db : Database} {node : WatchedNode} {path : RemotePath}
  {hash fileId : Option String} {r : FileRow} {c : PlannedChange}

theorem upsert_statements_tracked (hfound : findRemoteRecord call db node.nodeId path = some r) :
    (changeEffect call db (.upsert node path hash fileId)).statements =
      persistRemoteFileId r.id r.remoteFileId fileId ++
        ((refreshedHash call r (r.remotePath.getD path) hash).map
          (Statement.setRemoteHash r.id)).toList := by
  simp only [changeEffect, hfound, upsertTracked, refreshIfNeeded_statements]

theorem upsert_statements_moved (hfound : findRemoteRecord call db node.nodeId path = none)
    (hmoved : movedRecord call db path fileId = some r) :
    (changeEffect call db (.upsert node path hash fileId)).statements =
      relocateWatchedRecord call db node.nodeId path r ++
        ((refreshedHash call r path hash).map (Statement.setRemoteHash r.id)).toList := by
  simp only [changeEffect, hfound, upsertUntracked, hmoved, refreshIfNeeded_statements]

theorem upsert_statements_new (hfound : findRemoteRecord call db node.nodeId path = none)
    (hmoved : movedRecord call db path fileId = none) :
    (changeEffect call db (.upsert node path hash fileId)).statements =
      match call.adapter.stat path with
      | .ok (some ref) =>
        if acceptedPath node.nodeRoot path && !db.taken node.nodeId path then
          adoptStatements call db node.nodeId path (adoptedRef ref fileId)
        else []
      | _ => [] := by
  simp only [changeEffect, hfound, upsertUntracked, hmoved]
  rcases call.adapter.stat path with message | _ | ref
  · rfl
  · rfl
  · exact adoptRemoteFiles_statements call db _ _ _ _

/-- The record a removal is about: the one at its path, else the one its object id names. -/
def removalTarget (call : Call Bytes) (db : Database) : PlannedChange → Option FileRow
  | .upsert .. => none
  | .remove node path fileId =>
    (findRemoteRecord call db node.nodeId path).or (fileId.bind (findRecordByRemoteFileId call db))
  | .removeById fileId => findRecordByRemoteFileId call db fileId

theorem changeEffect_removal (hc : ∀ n p h x, c ≠ .upsert n p h x)
    (htarget : removalTarget call db c = some r) :
    ∃ nodeId, changeEffect call db c = removeRecord call nodeId r := by
  cases c with
  | upsert n p h x => exact absurd rfl (hc n p h x)
  | removeById x =>
    have hfind : findRecordByRemoteFileId call db x = some r := htarget
    exact ⟨r.nodeId, by simp [changeEffect, hfind]⟩
  | remove n p x =>
    cases hfind : findRemoteRecord call db n.nodeId p with
    | some r' =>
      obtain rfl : r' = r := by simpa [removalTarget, hfind] using htarget
      exact ⟨n.nodeId, by simp [changeEffect, hfind]⟩
    | none =>
      have hobject : x.bind (findRecordByRemoteFileId call db) = some r := by
        simpa [removalTarget, hfind] using htarget
      exact ⟨r.nodeId, by simp [changeEffect, hfind, hobject]⟩

theorem changeEffect_no_target (hc : ∀ n p h x, c ≠ .upsert n p h x)
    (htarget : removalTarget call db c = none) : (changeEffect call db c).statements = [] := by
  cases c with
  | upsert n p h x => exact absurd rfl (hc n p h x)
  | removeById x =>
    have hfind : findRecordByRemoteFileId call db x = none := htarget
    simp [changeEffect, hfind]
  | remove n p x =>
    obtain ⟨hpath, hobject⟩ := Option.or_eq_none_iff.mp htarget
    simp [changeEffect, hpath, hobject]

theorem removal_statements (call : Call Bytes) (db : Database)
    (hc : ∀ n p h x, c ≠ .upsert n p h x) : (changeEffect call db c).statements = [] ∨
      ∃ r nodeId, removalTarget call db c = some r ∧ removable call r = true ∧
        (changeEffect call db c).statements =
          [.deleteFile r.id, .insertAudit (removalAudit call nodeId r)] := by
  cases htarget : removalTarget call db c with
  | none => exact Or.inl (changeEffect_no_target hc htarget)
  | some r =>
    obtain ⟨nodeId, heffect⟩ := changeEffect_removal hc htarget
    rw [heffect, removeRecord_statements]
    cases hremovable : removable call r with
    | false => exact Or.inl (by simp)
    | true => exact Or.inr ⟨r, nodeId, rfl, hremovable, by simp⟩

theorem not_removable_of_silent (hc : ∀ n p h x, c ≠ .upsert n p h x)
    (htarget : removalTarget call db c = some r)
    (hsilent : (changeEffect call db c).statements = []) : removable call r = false := by
  obtain ⟨nodeId, heffect⟩ := changeEffect_removal hc htarget
  rw [heffect, removeRecord_statements] at hsilent
  cases hremovable : removable call r with
  | false => rfl
  | true => simp [hremovable] at hsilent

end Portuni.RemoteWatch
