import Portuni.CentralRetry.Handlers
import Portuni.Library.Stops
import Portuni.PendingOps.Effects

namespace Portuni.CrashSafety

/-!
The relocations and deletions of a file as the adapter calls and database
statements that they consist of, between any two of which the process may stop,
and the retry that takes up what is left.
-/

section

open CentralRetry (RemoteObject Objects CallAnswer)
open Content FileOps Files Files.Database Library.Stops RemoteSweep

universe u

structure Store (Bytes : Type u) where
  db : Database
  objects : Objects Bytes

structure SyncServer (Bytes : Type u) extends Server where
  hashing : Hashing Bytes
  backend : String → Backend

/-- How the calls around one operation come out. `copy` is the rename, or the get and put
between two remotes; a remote has no bytes to give of a native object. -/
structure Answers where
  now : ℕ
  statFails : String → RemotePath → Option String
  copy : CallAnswer
  nativeGet : String
  deleteSource : CallAnswer
  delete : CallAnswer
  newFileId : Option String
  localRename : LocalRename

structure Answers.Working (answers : Answers) : Prop where
  stat : ∀ name path, answers.statFails name path = none
  copy : answers.copy = .done
  deleteSource : answers.deleteSource = .done
  delete : answers.delete = .done

variable {Bytes : Type u}

def onDb (write : Database → Database) : Effect (Store Bytes) :=
  fun s => { s with db := write s.db }

def onObjects (change : Objects Bytes → Objects Bytes) : Effect (Store Bytes) :=
  fun s => { s with objects := change s.objects }

variable (server : SyncServer Bytes) (answers : Answers)

def statRef (name : String) (object : RemoteObject Bytes) : FileRef where
  hash := if object.isNativeFormat then none
    else server.hashing.statHash (server.backend name) object.bytes
  isNativeFormat := object.isNativeFormat
  remoteFileId := object.remoteFileId

def stat (objects : Objects Bytes) (name : String) (path : RemotePath) :
    Except String (Option FileRef) :=
  match answers.statFails name path with
  | some message => .error message
  | none => .ok ((objects name path).map (statRef server name))

variable (p : RelocateParams) (objects : Objects Bytes)

abbrev atSource : Option (RemoteObject Bytes) := objects p.fromRemoteName p.fromRemotePath

abbrev atTarget : Option (RemoteObject Bytes) := objects p.toRemoteName p.toRemotePath

def copied : Objects Bytes :=
  objects.set p.toRemoteName p.toRemotePath
    ((atSource p objects).map fun object => ⟨object.bytes, false, answers.newFileId⟩)

def sourceRemoved : Objects Bytes := objects.set p.fromRemoteName p.fromRemotePath none

def renamed : Objects Bytes :=
  (objects.set p.toRemoteName p.toRemotePath (atSource p objects)).set p.fromRemoteName
    p.fromRemotePath none

def copyAnswer : CallAnswer :=
  if p.fromRemoteName ≠ p.toRemoteName ∧ (atSource p objects).any (·.isNativeFormat) then
    .failed answers.nativeGet false
  else answers.copy

def answersTo : RelocateAnswers where
  atFrom := stat server answers objects p.fromRemoteName p.fromRemotePath
  atTo := stat server answers objects p.toRemoteName p.toRemotePath
  copy := (copyAnswer answers p objects).toExcept
  deleteSource := answers.deleteSource.toExcept

def relocateResult : Except (SubStep × String) RelocateStatus :=
  relocateRemoteObject p (answersTo server answers p objects)

def deleteSourceEffects : List (Effect (Store Bytes)) :=
  if answers.deleteSource.tookEffect then [onObjects (sourceRemoved p)] else []

def SamePlace : Prop :=
  p.fromRemoteName = p.toRemoteName ∧ p.fromRemotePath = p.toRemotePath

instance : Decidable (SamePlace p) :=
  inferInstanceAs (Decidable (_ ∧ _))

/-- The adapter calls of `relocateRemoteObject` that take effect. -/
def relocateEffects : List (Effect (Store Bytes)) :=
  if SamePlace p then []
  else
    match stat server answers objects p.fromRemoteName p.fromRemotePath,
      stat server answers objects p.toRemoteName p.toRemotePath with
    | .ok (some atFrom), .ok (some atTo) =>
      if p.sourceCopied && sameContent atFrom atTo then deleteSourceEffects answers p else []
    | .ok (some _), .ok none =>
      let copy := copyAnswer answers p objects
      if !copy.tookEffect then []
      else if p.fromRemoteName = p.toRemoteName then [onObjects (renamed p)]
      else
        onObjects (copied answers p) :: (if copy = .done then deleteSourceEffects answers p else [])
    | _, _ => []

/-- What a relocation records and writes: a move or a rename of one file. -/
structure Intent where
  row : FileRow
  p : RelocateParams
  toNodeId : String
  filename : String
  set : FileRow → FileRow
  audits : List AuditRow

def Intent.payload (i : Intent) : PendingOp :=
  .move i.p.fromRemoteName i.p.fromRemotePath i.p.toRemoteName i.p.toRemotePath i.toNodeId
    i.filename false

def Intent.enqueue (i : Intent) : Effect (Store Bytes) :=
  onDb fun db => (enqueuePendingOp db server.userId i.row.nodeId i.row.id i.payload).1

def Intent.write (i : Intent) (db : Database) : Database :=
  writeRelocatedRecord db i.row.id i.toNodeId i.p.toRemotePath i.set

def Intent.statements (i : Intent) (pendingOpId : ℕ) :
    Except (SubStep × String) RelocateStatus → List (Database → Database)
  | .error (.deleteSource, message) =>
    [(markPendingMoveSourceCopied · pendingOpId), (failPendingOp · pendingOpId message)]
  | .error (.copy, message) => [(failPendingOp · pendingOpId message)]
  | .ok _ =>
    i.write :: i.audits.map (fun row => (insertAudit · row)) ++ [(completePendingOp · pendingOpId)]

/-- A relocation of a file: the intent, the remote, the record with its audit rows. -/
def Intent.effects (i : Intent) (s : Store Bytes) : List (Effect (Store Bytes)) :=
  i.enqueue server :: (relocateEffects server answers i.p s.objects ++
    (i.statements s.db.nextId (relocateResult server answers i.p s.objects)).map onDb)

/-- What a deletion records and writes. `bound` is the remote and the path of the record,
where it has both. -/
structure Removal where
  row : FileRow
  nodeId : String
  bound : Option (String × RemotePath)
  audit : AuditRow
  repairAudit : String → RemotePath → String → AuditRow

def Removal.payload (d : Removal) (name : String) (path : RemotePath) : PendingOp :=
  .delete name path d.row.filename d.row.currentRemoteHash d.row.hadObject

def cleared (name : String) (path : RemotePath) (objects : Objects Bytes) : Objects Bytes :=
  objects.set name path none

def deleteResult (name : String) (path : RemotePath) (objects : Objects Bytes) :
    Except String Unit :=
  match stat server answers objects name path with
  | .error message => .error message
  | .ok none => .ok ()
  | .ok (some _) => answers.delete.toExcept

def deleteEffects (name : String) (path : RemotePath) (objects : Objects Bytes) :
    List (Effect (Store Bytes)) :=
  match stat server answers objects name path with
  | .ok (some _) => if answers.delete.tookEffect then [onObjects (cleared name path)] else []
  | _ => []

def Removal.enqueue (d : Removal) (name : String) (path : RemotePath) : Effect (Store Bytes) :=
  onDb fun db => (enqueuePendingOp db server.userId d.nodeId d.row.id (d.payload name path)).1

def Removal.remove (d : Removal) : List (Database → Database) :=
  [(deleteFile · d.row.id), (insertAudit · d.audit)]

def Removal.statements (d : Removal) (name : String) (path : RemotePath) (pendingOpId : ℕ) :
    Except String Unit → List (Database → Database)
  | .error message =>
    [(failPendingOp · pendingOpId message), (insertAudit · (d.repairAudit name path message))]
  | .ok () => d.remove ++ [(completePendingOp · pendingOpId)]

/-- A deletion of a file: for a bound record the intent and the remote first. -/
def Removal.effects (d : Removal) (s : Store Bytes) : List (Effect (Store Bytes)) :=
  match d.bound with
  | none => d.remove.map onDb
  | some (name, path) =>
    d.enqueue server name path :: (deleteEffects server answers name path s.objects ++
      (d.statements name path s.db.nextId
        (deleteResult server answers name path s.objects)).map onDb)

end

open CentralRetry (RemoteObject Objects CallAnswer bindingOf)
open FileOps Files Files.Database Library.Stops

universe u

variable {Bytes : Type u} (server : SyncServer Bytes) (answers : Answers)

def worldFor (p : RelocateParams) (objects : Objects Bytes) : World where
  now := answers.now
  relocation := answersTo server answers p objects
  stat := stat server answers objects p.fromRemoteName p.fromRemotePath
  delete := answers.delete.toExcept
  localRename := answers.localRename

def Answers.renameLocal (oldLocal newLocal : Option LocalPath) : LocalRename :=
  match oldLocal, newLocal with
  | some oldPath, some newPath => if oldPath = newPath then .missing else answers.localRename
  | _, _ => .missing

/-- A confirmed call; a delete is of both the object and the record. -/
inductive FileCall where
  | moveFile (a : MoveFileArgs)
  | renameFile (fileId : ℕ) (newFilename : String)
  | renameFileRemote (fileId : ℕ) (newFilename : String)
  | deleteFile (fileId : ℕ)
  | deleteFileRemote (nodeId : Option String) (fileId : ℕ)

def moveIntent (server : Server) (answers : Answers) (plan : MovePlan) : Intent where
  row := plan.row
  p := plan.relocation
  toNodeId := plan.targetNodeId
  filename := plan.filename
  set r := { r with remoteName := plan.newRemoteName, remotePath := some plan.newRemotePath,
                    nodeId := plan.targetNodeId, filename := plan.filename }
  audits :=
    match answers.renameLocal plan.oldLocalPath plan.newLocalPath with
    | .failed message =>
      [movePartialAudit server plan message answers.now,
        moveAudit server plan (some message) answers.now]
    | _ => [moveAudit server plan none answers.now]

def renameIntent (plan : RenamePlan) (audit : AuditRow) : Intent where
  row := plan.row
  p := plan.relocation (plan.row.remoteName.getD "")
  toNodeId := plan.row.nodeId
  filename := plan.newFilename
  set r := { r with filename := plan.newFilename, remotePath := some plan.newRemotePath }
  audits := [audit]

def deleteRemoval (server : Server) (answers : Answers) (r : FileRow) : Removal where
  row := r
  nodeId := r.nodeId
  bound := bindingOf r
  audit :=
    let localPath := (server.nodeInfo r.nodeId).bind fun info =>
      r.remotePath.bind (server.localCopy r.nodeId info)
    deleteAudit server r true localPath answers.now
  repairAudit name path message := deleteRepairAudit server r name path message answers.now

def deleteRemoteRemoval (server : Server) (answers : Answers) (nodeId : String) (r : FileRow) :
    Removal where
  row := r
  nodeId := nodeId
  bound := bindingOf r
  audit := deleteRemoteAudit server nodeId r answers.now
  repairAudit name path message := deleteRemoteRepairAudit server r name path message answers.now

inductive Errand where
  | relocate (i : Intent)
  | remove (d : Removal)

/-- What a call has settled before its first write; `none` if it is refused. -/
def FileCall.errand (server : Server) (answers : Answers) (db : Database) : FileCall → Option Errand
  | .moveFile a =>
    (planMove server db a).toOption.map fun plan => .relocate (moveIntent server answers plan)
  | .renameFile fileId newFilename =>
    (planRename db fileId newFilename (boundPath server)).toOption.map fun plan =>
      .relocate (renameIntent plan (renameAudit server plan answers.now))
  | .renameFileRemote fileId newFilename =>
    (planRename db fileId newFilename boundRemote).toOption.map fun plan =>
      .relocate (renameIntent plan (renameRemoteAudit server plan answers.now))
  | .deleteFile fileId =>
    (db.fileById fileId).map fun r => .remove (deleteRemoval server answers r)
  | .deleteFileRemote nodeId fileId =>
    (db.fileById fileId).map fun r =>
      .remove (deleteRemoteRemoval server answers (nodeId.getD r.nodeId) r)

def Errand.effects (s : Store Bytes) : Errand → List (Effect (Store Bytes))
  | .relocate i => i.effects server answers s
  | .remove d => d.effects server answers s

def retryParams (op : PendingOpRow) : RelocateParams :=
  match op.payload with
  | .move fromName fromPath toName toPath _ _ sourceCopied =>
    ⟨fromName, fromPath, toName, toPath, sourceCopied⟩
  | .delete name path _ _ _ => ⟨name, path, name, path, false⟩

def retryEffects (op : PendingOpRow) (s : Store Bytes) : List (Effect (Store Bytes)) :=
  match checkPendingOp s.db op with
  | .error _ => []
  | .ok _ =>
    match op.payload with
    | .move .. => relocateEffects server answers (retryParams op) s.objects
    | .delete name path _ expectedHash expectedRemoteObject =>
      match (stat server answers s.objects name path).bind
        (assertTargetObject path expectedHash expectedRemoteObject) with
      | .error _ => []
      | .ok _ => deleteEffects server answers name path s.objects

def retryOne (s : Store Bytes) (op : PendingOpRow) : Store Bytes where
  db := (retryPendingOp (worldFor server answers (retryParams op) s.objects) s.db op).1
  objects := (perform (retryEffects server answers op s) s).objects

def retryAll (nodeId : String) (s : Store Bytes) : Store Bytes :=
  (listPendingOps s.db nodeId).foldl (retryOne server answers) s

variable {server answers} {s : Store Bytes} {p : RelocateParams} {objects : Objects Bytes}
  {effects : List (Effect (Store Bytes))}

def OnRemote (effects : List (Effect (Store Bytes))) : Prop :=
  ∀ effect ∈ effects, ∃ change, effect = onObjects change

theorem OnRemote.perform_db (h : OnRemote effects) : (perform effects s).db = s.db := by
  induction effects generalizing s with
  | nil => rfl
  | cons effect rest ih =>
    obtain ⟨change, rfl⟩ := h effect List.mem_cons_self
    exact (ih fun e he => h e (List.mem_cons_of_mem _ he)).trans rfl

theorem onRemote_nil : OnRemote ([] : List (Effect (Store Bytes))) :=
  fun _ h => absurd h List.not_mem_nil

theorem onRemote_cons {change : Objects Bytes → Objects Bytes} (h : OnRemote effects) :
    OnRemote (onObjects change :: effects) := by
  intro effect heffect
  rcases List.mem_cons.mp heffect with rfl | heffect
  · exact ⟨change, rfl⟩
  · exact h effect heffect

theorem onRemote_deleteSourceEffects :
    OnRemote (deleteSourceEffects answers p : List (Effect (Store Bytes))) := by
  unfold deleteSourceEffects
  split
  · exact onRemote_cons onRemote_nil
  · exact onRemote_nil

theorem onRemote_relocateEffects : OnRemote (relocateEffects server answers p objects) := by
  unfold relocateEffects
  split
  · exact onRemote_nil
  · split
    · split
      · exact onRemote_deleteSourceEffects
      · exact onRemote_nil
    · simp only
      split
      · exact onRemote_nil
      · split
        · exact onRemote_cons onRemote_nil
        · refine onRemote_cons ?_
          split
          · exact onRemote_deleteSourceEffects
          · exact onRemote_nil
    · exact onRemote_nil

theorem onRemote_deleteEffects {name : String} {path : RemotePath} :
    OnRemote (deleteEffects server answers name path objects) := by
  unfold deleteEffects
  split
  · split
    · exact onRemote_cons onRemote_nil
    · exact onRemote_nil
  · exact onRemote_nil

theorem perform_onDb (statements : List (Database → Database)) :
    perform (statements.map onDb) s =
      { s with db := statements.foldl (fun db statement => statement db) s.db } := by
  induction statements generalizing s with
  | nil => rfl
  | cons statement rest ih => exact ih.trans rfl

theorem Intent.perform_db (i : Intent) : (perform (i.effects server answers s) s).db =
      (i.statements s.db.nextId (relocateResult server answers i.p s.objects)).foldl
        (fun db statement => statement db)
        (enqueuePendingOp s.db server.userId i.row.nodeId i.row.id i.payload).1 := by
  change (perform (relocateEffects server answers i.p s.objects ++ _) (i.enqueue server s)).db = _
  rw [perform_append, perform_onDb]
  simp only
  rw [onRemote_relocateEffects.perform_db]
  rfl

theorem bindingOf_eq_some {r : FileRow} {name : String} {path : RemotePath} :
    bindingOf r = some (name, path) ↔ r.remoteName = some name ∧ r.remotePath = some path := by
  unfold bindingOf
  cases r.remoteName with
  | none => simp
  | some name' =>
    cases r.remotePath with
    | none => simp
    | some path' => simp

end Portuni.CrashSafety
