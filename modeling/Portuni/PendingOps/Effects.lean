import Portuni.FileOps.Outcomes

namespace Portuni.PendingOps

/-!
Confirmed calls on one file and retries of its pending operations, interleaved:
a call may wait for its remote step while others run, and a retry works on the
list it has read, one operation after the other.
-/

section

open FileOps Files Files.Database

inductive FileCall where
  | moveFile (newSubpath : Option RemotePath) (newSection : Option FileSection)
      (newNodeId newFilename : Option String)
  | renameFile (newFilename : String)
  | deleteFile (complete : Bool)

inductive Ongoing where
  | move (plan : MovePlan)
  | rename (plan : RenamePlan)
  | delete (r : FileRow) (remoteName : String) (path : RemotePath)

/-- A run of `retryPendingFileOps`: the operations it has read and not yet taken, and
the one whose check has passed. -/
structure Retry where
  remaining : List PendingOpRow
  running : Option PendingOpRow

structure State where
  db : Database
  calls : List (ℕ × Ongoing)
  retries : List Retry
  /-- The operations that have succeeded, by the id of their intent. -/
  succeeded : List ℕ

inductive Action where
  | call (c : FileCall) (world : World)
  | answer (i : ℕ) (world : World)
  | readList (nodeId : String)
  | check (i : ℕ)
  | finish (i : ℕ) (world : World)

abbrev Binding := Option (Option String × Option RemotePath)

def binding (fileId : ℕ) (db : Database) : Binding :=
  (db.fileById fileId).map fun r => (r.remoteName, r.remotePath)

/-- How a call begins: it is over at once, or it has recorded its intent and waits. -/
inductive Begun where
  | refused
  | over (db : Database)
  | waits (db : Database) (ongoing : Ongoing)

variable (server : Server) (fileId : ℕ)

def FileCall.begin (db : Database) (world : World) : FileCall → Begun
  | .moveFile newSubpath newSection newNodeId newFilename =>
    match planMove server db ⟨fileId, newSubpath, newSection, newNodeId, newFilename, true⟩ with
    | .error _ => .refused
    | .ok plan =>
      if server.localWorkspace then
        match moveFileLocalOnly server world db plan with
        | (_, .error _) => .refused
        | (moved, .ok _) => .over moved
      else
        .waits (enqueuePendingOp db server.userId plan.row.nodeId plan.row.id plan.payload).1
          (.move plan)
  | .renameFile newFilename =>
    match planRename db fileId newFilename (boundPath server) with
    | .error _ => .refused
    | .ok plan =>
      if server.localWorkspace then .over (finishRename server world db plan).1
      else
        .waits (enqueuePendingOp db server.userId plan.row.nodeId plan.row.id
          (plan.payload (plan.row.remoteName.getD ""))).1 (.rename plan)
  | .deleteFile complete =>
    match db.fileById fileId with
    | none => .refused
    | some r =>
      match complete, (if server.localWorkspace then none else r.remoteName), r.remotePath with
      | true, some remoteName, some path =>
        .waits (enqueuePendingOp db server.userId r.nodeId r.id
          (.delete remoteName path r.filename r.currentRemoteHash r.hadObject)).1
          (.delete r remoteName path)
      | _, _, _ => .over (finishDelete server world db r complete)

def Ongoing.answer (db : Database) (world : World) (opId : ℕ) : Ongoing → Database × Bool
  | .move plan => ((finishMoveFile server world db plan opId).1,
      (relocateRemoteObject plan.relocation world.relocation).toOption.isSome)
  | .rename plan => ((finishRenameFile server world db plan opId).1,
      (relocateRemoteObject (plan.relocation (plan.row.remoteName.getD ""))
        world.relocation).toOption.isSome)
  | .delete r remoteName path => ((finishDeleteFile server world db r remoteName path opId).1,
      world.deleteObject.toOption.isSome)

def State.setRetry (s : State) (i : ℕ) (retry : Retry) : State :=
  { s with retries := s.retries.set i retry }

/-- One step. A call that is over at once counts as later than every recorded intent. -/
def step (s : State) : Action → Option State
  | .call c world =>
    match c.begin server fileId s.db world with
    | .refused => none
    | .over db => some { s with db := db, succeeded := s.db.nextId :: s.succeeded }
    | .waits db ongoing =>
      some { s with db := db, calls := s.calls ++ [(s.db.nextId, ongoing)] }
  | .answer i world =>
    match s.calls[i]? with
    | none => none
    | some (opId, ongoing) =>
      let (db, succeeded) := ongoing.answer server s.db world opId
      some { s with
        db := db
        calls := s.calls.eraseIdx i
        succeeded := if succeeded then opId :: s.succeeded else s.succeeded }
  | .readList nodeId =>
    some { s with retries := s.retries ++ [⟨listPendingOps s.db nodeId, none⟩] }
  | .check i =>
    match s.retries[i]? with
    | some ⟨op :: rest, none⟩ =>
      match checkPendingOp s.db op with
      | .ok () => some (s.setRetry i ⟨rest, some op⟩)
      | .error message =>
        some ({ s with db := failPendingOp s.db op.id message }.setRetry i ⟨rest, none⟩)
    | _ => none
  | .finish i world =>
    match s.retries[i]? with
    | some ⟨rest, some op⟩ =>
      let succeeded := (executePendingOp world s.db op).toOption.isSome
      some ({ s with
        db := finishPendingOp world s.db op
        succeeded := if succeeded then op.id :: s.succeeded else s.succeeded }.setRetry i
          ⟨rest, none⟩)
    | _ => none

structure Start (s : State) : Prop where
  pendingOps : s.db.pendingOps = []
  calls : s.calls = []
  retries : s.retries = []
  succeeded : s.succeeded = []

end

open FileOps Files Files.Database RemoteSweep RemoteWatch

def intent : PendingOp → PendingOp
  | .move fromName fromPath toName toPath toNode filename _ =>
    .move fromName fromPath toName toPath toNode filename false
  | payload => payload

def target (payload : PendingOp) (b : Binding) : Binding :=
  match payload with
  | .move _ _ toName toPath _ _ _ => b.map fun _ => (some toName, some toPath)
  | .delete .. => none

def Ongoing.target (ongoing : Ongoing) (b : Binding) : Binding :=
  match ongoing with
  | .move plan => b.map fun _ => (plan.newRemoteName, some plan.newRemotePath)
  | .rename plan => b.map fun c => (c.1, some plan.newRemotePath)
  | .delete .. => none

def Ongoing.fileId : Ongoing → ℕ
  | .move plan => plan.row.id
  | .rename plan => plan.row.id
  | .delete r _ _ => r.id

/-- Every pending operation was pending before, with the same intent. -/
def SameIntents (db db' : Database) : Prop :=
  ∀ op' ∈ db'.pendingOps, ∃ op ∈ db.pendingOps, op.id = op'.id ∧ op.fileId = op'.fileId ∧
    intent op.payload = intent op'.payload

/-- What the rest of a call or of a retry does: the record gets its new binding if the
remote step succeeded, and no operation becomes pending. -/
structure Answered (fileId : ℕ) (db db' : Database) (succeeded : Bool)
    (newBinding : Binding → Binding) : Prop where
  nextId : db'.nextId = db.nextId
  intents : SameIntents db db'
  binding : binding fileId db' =
    if succeeded then newBinding (PendingOps.binding fileId db) else PendingOps.binding fileId db

variable {db db' : Database} {server : Server} {world : World} {fileId : ℕ} {nodeId : String}

theorem SameIntents.refl (db : Database) : SameIntents db db :=
  fun op hop => ⟨op, hop, rfl, rfl, rfl⟩

theorem SameIntents.trans {db'' : Database} (h : SameIntents db db') (h' : SameIntents db' db'') :
    SameIntents db db'' := by
  intro op'' hop''
  obtain ⟨op', hop', hid', hfile', hintent'⟩ := h' op'' hop''
  obtain ⟨op, hop, hid, hfile, hintent⟩ := h op' hop'
  exact ⟨op, hop, hid.trans hid', hfile.trans hfile', hintent.trans hintent'⟩

variable {id : ℕ}

theorem sameIntents_completePendingOp : SameIntents db (completePendingOp db id) :=
  fun op hop => ⟨op, (List.mem_filter.mp hop).1, rfl, rfl, rfl⟩

theorem sameIntents_updatePendingOp {id : ℕ} {set : PendingOpRow → PendingOpRow}
    (hset : ∀ op, (set op).id = op.id ∧ (set op).fileId = op.fileId ∧
      intent (set op).payload = intent op.payload) :
    SameIntents db (updatePendingOp db id set) := by
  intro op' hop'
  obtain ⟨op, hop, rfl⟩ := List.mem_map.mp hop'
  refine ⟨op, hop, ?_⟩
  split
  · exact ⟨(hset op).1.symm, (hset op).2.1.symm, (hset op).2.2.symm⟩
  · exact ⟨rfl, rfl, rfl⟩

theorem sameIntents_failPendingOp {error : String} : SameIntents db (failPendingOp db id error) :=
  sameIntents_updatePendingOp fun _ => ⟨rfl, rfl, rfl⟩

theorem sameIntents_markPendingMoveSourceCopied :
    SameIntents db (markPendingMoveSourceCopied db id) := by
  refine sameIntents_updatePendingOp fun op => ⟨rfl, rfl, ?_⟩
  simp only
  cases op.payload with
  | move => rfl
  | delete => rfl

theorem fileById_deleteFile_self (id : ℕ) : (db.deleteFile id).fileById id = none := by
  refine List.find?_eq_none.mpr fun r hr => ?_
  simpa using (mem_deleteFile_iff.mp hr).2

variable {path : RemotePath} {set : FileRow → FileRow}

theorem fileById_writeRelocatedRecord (hset : ∀ r, (set r).id = r.id) :
    (writeRelocatedRecord db id nodeId path set).fileById id = (db.fileById id).map set := by
  have hdropped : (db.dropShadow (shadowOf db nodeId path id)).fileById id = db.fileById id := by
    cases hshadow : shadowOf db nodeId path id with
    | none => rfl
    | some shadow =>
      obtain ⟨r, hr, rfl⟩ := Option.map_eq_some_iff.mp hshadow
      have hne := List.find?_some hr
      simp only [Bool.and_eq_true, decide_eq_true_eq] at hne
      exact find?_deleteFile fun r' _ hid => by simp [hid, hne.2]
  unfold writeRelocatedRecord fileById
  rw [find?_updateFile fun r _ hid => by simp [hset, hid]]
  unfold fileById at hdropped
  rw [hdropped]
  cases hfind : db.files.find? (fun r => decide (r.id = id)) with
  | none => rfl
  | some r =>
    have hid := List.find?_some hfind
    simp only [decide_eq_true_eq] at hid
    simp [hid]

theorem writeRelocatedRecord_rest :
    (writeRelocatedRecord db id nodeId path set).pendingOps = db.pendingOps ∧
      (writeRelocatedRecord db id nodeId path set).nextId = db.nextId := by
  unfold writeRelocatedRecord
  cases shadowOf db nodeId path id with
  | none => exact ⟨rfl, rfl⟩
  | some shadow => exact ⟨rfl, rfl⟩

theorem writeMove_rest (plan : MovePlan) :
    (plan.write db).pendingOps = db.pendingOps ∧ (plan.write db).nextId = db.nextId :=
  writeRelocatedRecord_rest

theorem writeRename_rest (plan : RenamePlan) :
    (plan.write db).pendingOps = db.pendingOps ∧ (plan.write db).nextId = db.nextId :=
  writeRelocatedRecord_rest

variable {newBinding : Binding → Binding}

theorem answered_written {id opId : ℕ} {path : RemotePath} {set : FileRow → FileRow}
    {newBinding : Binding → Binding}
    (hfiles : db'.files = (writeRelocatedRecord db id nodeId path set).files)
    (hset : ∀ r, (set r).id = r.id) (hbinding : ∀ r, some ((set r).remoteName, (set r).remotePath) =
      newBinding (some (r.remoteName, r.remotePath))) (hnone : newBinding none = none)
    (hops : db'.pendingOps = (writeRelocatedRecord db id nodeId path set).pendingOps)
    (hnext : db'.nextId = (writeRelocatedRecord db id nodeId path set).nextId) :
    Answered id db (completePendingOp db' opId) true newBinding where
  nextId := hnext.trans writeRelocatedRecord_rest.2
  intents := by
    refine SameIntents.trans ?_ sameIntents_completePendingOp
    intro op hop
    rw [hops, writeRelocatedRecord_rest.1] at hop
    exact ⟨op, hop, rfl, rfl, rfl⟩
  binding := by
    have hrow : (completePendingOp db' opId).fileById id = (db.fileById id).map set := by
      rw [← fileById_writeRelocatedRecord hset]
      change db'.files.find? _ = _
      rw [hfiles]
      rfl
    rw [if_pos rfl, binding, hrow, binding]
    cases db.fileById id with
    | none => exact hnone.symm
    | some r => exact hbinding r

theorem answered_failed (hfiles : db'.files = db.files) (hnext : db'.nextId = db.nextId)
    (hintents : SameIntents db db') : Answered fileId db db' false newBinding where
  nextId := hnext
  intents := hintents
  binding := by
    unfold binding fileById
    rw [hfiles]
    rfl

theorem answered_removed {id opId : ℕ} (hnew : ∀ b, newBinding b = none)
    (hfiles : db'.files = (db.deleteFile id).files) (hops : db'.pendingOps = db.pendingOps)
    (hnext : db'.nextId = db.nextId) :
    Answered id db (completePendingOp db' opId) true newBinding where
  nextId := hnext
  intents := by
    refine SameIntents.trans ?_ sameIntents_completePendingOp
    intro op hop
    rw [hops] at hop
    exact ⟨op, hop, rfl, rfl, rfl⟩
  binding := by
    have hrow : (completePendingOp db' opId).fileById id = none := by
      rw [← fileById_deleteFile_self id]
      change db'.files.find? _ = _
      rw [hfiles]
      rfl
    rw [if_pos rfl, binding, hrow, hnew]
    rfl

theorem Ongoing.answered (ongoing : Ongoing) (opId : ℕ) :
    Answered ongoing.fileId db (ongoing.answer server db world opId).1
      (ongoing.answer server db world opId).2 ongoing.target := by
  cases ongoing with
  | move plan =>
    simp only [answer, Ongoing.fileId, finishMoveFile]
    cases hrelocate : relocateRemoteObject plan.relocation world.relocation with
    | error failure =>
      obtain ⟨subStep, message⟩ := failure
      cases subStep with
      | copy => exact answered_failed rfl rfl sameIntents_failPendingOp
      | deleteSource =>
        exact answered_failed rfl rfl
          (sameIntents_markPendingMoveSourceCopied.trans sameIntents_failPendingOp)
    | ok status =>
      simp only
      split
      · exact answered_written rfl (fun _ => rfl) (fun _ => rfl) rfl rfl rfl
      · exact answered_written rfl (fun _ => rfl) (fun _ => rfl) rfl rfl rfl
  | rename plan =>
    simp only [answer, Ongoing.fileId, finishRenameFile]
    cases hrelocate : relocateRemoteObject (plan.relocation (plan.row.remoteName.getD ""))
        world.relocation with
    | error failure => exact answered_failed rfl rfl sameIntents_failPendingOp
    | ok status =>
      simp only [finishRename_spec]
      exact answered_written rfl (fun _ => rfl) (fun _ => rfl) rfl rfl rfl
  | delete r remoteName path =>
    simp only [answer, Ongoing.fileId, finishDeleteFile]
    cases hdelete : world.deleteObject with
    | error message => exact answered_failed rfl rfl sameIntents_failPendingOp
    | ok _ => exact answered_removed (fun _ => rfl) rfl rfl rfl

theorem answered_finishPendingOp (op : PendingOpRow) :
    Answered op.fileId db (finishPendingOp world db op)
      (executePendingOp world db op).toOption.isSome (target op.payload) := by
  unfold finishPendingOp executePendingOp
  cases hpayload : op.payload with
  | move fromName fromPath toName toPath toNodeId filename sourceCopied =>
    simp only
    cases hrelocate : relocateRemoteObject ⟨fromName, fromPath, toName, toPath, sourceCopied⟩
        world.relocation with
    | error failure => exact answered_failed rfl rfl sameIntents_failPendingOp
    | ok status =>
      exact answered_written rfl (fun _ => rfl) (fun _ => rfl) rfl rfl rfl
  | delete remoteName path filename expectedHash expectedRemoteObject =>
    simp only [bind, Except.bind]
    cases hstat : world.stat with
    | error message => exact answered_failed rfl rfl sameIntents_failPendingOp
    | ok current =>
      simp only
      cases htarget : assertTargetObject path expectedHash expectedRemoteObject current with
      | error message => exact answered_failed rfl rfl sameIntents_failPendingOp
      | ok _ =>
        simp only
        cases hdelete : world.deleteObject with
        | error message => exact answered_failed rfl rfl sameIntents_failPendingOp
        | ok _ => exact answered_removed (fun _ => rfl) rfl rfl rfl

end Portuni.PendingOps
