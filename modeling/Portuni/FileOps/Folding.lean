import Portuni.FileOps.Outcomes
import Portuni.NodeMove.Model

/-!
The write that moves a record to a new path, with the keys that can abort it: it folds in the row
that holds the path already, and must not lose a record by it.
-/

namespace Portuni.FileOps

open Files Files.Database
open NodeMove (UniquePaths)
open RemoteWatch

section

/-- The columns of the UPDATE beside `remote_path`. -/
structure RecordUpdate where
  remoteName : Option (Option String) := none
  nodeId : Option String := none
  filename : Option String := none

structure WriteRelocatedRecordArgs where
  fileId : ℕ
  nodeId : String
  newRemotePath : RemotePath
  update : RecordUpdate

variable (nodes : List String) (db : Database) (a : WriteRelocatedRecordArgs)

def WriteRelocatedRecordArgs.set (r : FileRow) : FileRow :=
  { r with
    remoteName := a.update.remoteName.getD r.remoteName
    nodeId := a.update.nodeId.getD r.nodeId
    filename := a.update.filename.getD r.filename
    remotePath := some a.newRemotePath }

def WriteRelocatedRecordArgs.holds (r : FileRow) : Bool :=
  r.nodeId = a.nodeId && r.remotePath = some a.newRemotePath

/-- The UPDATE of the record breaks a key: its node is gone, or another row has the path. -/
def abortsUpdate : Bool :=
  (db.fileById a.fileId).any fun r =>
    a.update.nodeId.any (· ∉ nodes) ||
      db.files.any fun r' => r'.id ≠ a.fileId && r'.nodeId = (a.set r).nodeId &&
        r'.remotePath = some a.newRemotePath

/-- `none` when the statement, or the batch, is aborted. -/
def attemptRelocatedRecord : Option Database :=
  let shadow := shadowOf db a.nodeId a.newRemotePath a.fileId
  if abortsUpdate nodes (db.dropShadow shadow) a then none
  else some (writeRelocatedRecord db a.fileId a.nodeId a.newRemotePath a.set)

end

inductive RecordMove where
  | moveFile (plan : MovePlan)
  | moveFileLocalOnly (plan : MovePlan)
  | renameFile (plan : RenamePlan)
  | renameFileRemote (plan : RenamePlan)
  | renameFolder (nodeId : String) (f : FolderFile)
  | relocateWatchedRecord (remoteName nodeId : String) (path : RemotePath) (r : FileRow)
  | runMove (op : PendingOpRow) (p : RelocateParams) (toNodeId filename : String)

def RecordMove.args : RecordMove → WriteRelocatedRecordArgs
  | .moveFile plan =>
    ⟨plan.row.id, plan.targetNodeId, plan.newRemotePath,
      { remoteName := some plan.newRemoteName, nodeId := some plan.targetNodeId
        filename := some plan.filename }⟩
  | .moveFileLocalOnly plan =>
    ⟨plan.row.id, plan.targetNodeId, plan.newRemotePath,
      { remoteName := some none, nodeId := some plan.targetNodeId
        filename := some plan.filename }⟩
  | .renameFile plan | .renameFileRemote plan =>
    ⟨plan.row.id, plan.row.nodeId, plan.newRemotePath, { filename := some plan.newFilename }⟩
  | .renameFolder nodeId f => ⟨f.fileId, nodeId, f.newRemotePath, {}⟩
  | .relocateWatchedRecord remoteName nodeId path r =>
    ⟨r.id, nodeId, path,
      { remoteName := some (some remoteName), nodeId := some nodeId
        filename := some (path.getLastD r.filename) }⟩
  | .runMove op p toNodeId filename =>
    ⟨op.fileId, toNodeId, p.toRemotePath,
      { remoteName := some (some p.toRemoteName), nodeId := some toNodeId
        filename := some filename }⟩

theorem RecordMove.nodeId_args (move : RecordMove) {nodeId : String}
    (h : move.args.update.nodeId = some nodeId) : move.args.nodeId = nodeId := by
  cases move <;> first | exact Option.some.inj h | cases h

section

variable (nodes : List String) (db : Database) (a : WriteRelocatedRecordArgs)

/-- The call goes through. The record, if it is there, is then the one row that holds the
destination, and only a row that was folded in is gone; without it every row is left in place. -/
def FoldsShadow : Prop :=
  ∃ db', attemptRelocatedRecord nodes db a = some db' ∧
    match db.fileById a.fileId with
    | some r =>
      db'.files.filter a.holds = [a.set r] ∧
        db'.files.length +
          (if (shadowOf db a.nodeId a.newRemotePath a.fileId).isSome then 1 else 0) =
            db.files.length
    | none =>
      (∀ r ∈ db.files, a.holds r = true → r ∈ db'.files) ∧ db'.files.length = db.files.length

/-- The record is there and the UPDATE leaves it in the node that is named, or it is gone and no row
holds the destination. -/
def Reaches : Prop :=
  match db.fileById a.fileId with
  | some r =>
    match a.update.nodeId with
    | some nodeId => nodeId ∈ nodes
    | none => r.nodeId = a.nodeId
  | none => ∀ r ∈ db.files, a.holds r = false

variable {nodes db a}

theorem set_id (r : FileRow) : (a.set r).id = r.id := rfl

theorem set_remotePath (r : FileRow) : (a.set r).remotePath = some a.newRemotePath := rfl

variable {r : FileRow}

theorem filter_eq_singleton {rows : List FileRow} {P : FileRow → Bool} (hnodup : rows.Nodup)
    (hr : r ∈ rows) (hP : P r = true) (hunique : ∀ r' ∈ rows, P r' = true → r' = r) :
    rows.filter P = [r] := by
  refine List.perm_singleton.mp ((List.perm_ext_iff_of_nodup (hnodup.filter _)
    (List.nodup_singleton r)).mpr fun r' => ?_)
  rw [List.mem_filter, List.mem_singleton]
  constructor
  · exact fun ⟨hr', hP'⟩ => hunique r' hr' hP'
  · rintro rfl
    exact ⟨hr, hP⟩

theorem length_deleteFile (keyed : db.Keyed) (hr : r ∈ db.files) :
    (db.deleteFile r.id).files.length + 1 = db.files.length := by
  have hone : db.files.countP (fun r' => r'.id = r.id) = 1 := by
    have hcount := List.count_eq_one_of_mem keyed.nodup (List.mem_map_of_mem (f := (·.id)) hr)
    rw [List.count, List.countP_map] at hcount
    rw [← hcount]
    exact List.countP_congr fun r' _ => by simp
  have hsplit := List.length_eq_countP_add_countP (fun r' : FileRow => r'.id = r.id) (l := db.files)
  have hrest : (db.deleteFile r.id).files.length =
      db.files.countP (fun r' => ¬(decide (r'.id = r.id)) = true) := by
    rw [List.countP_eq_length_filter]
    exact congrArg List.length (List.filter_congr fun r' _ => by simp)
  omega

abbrev cleared (db : Database) (a : WriteRelocatedRecordArgs) : Database :=
  db.dropShadow (shadowOf db a.nodeId a.newRemotePath a.fileId)

theorem holds_of_shadow {s : ℕ} (h : shadowOf db a.nodeId a.newRemotePath a.fileId = some s) :
    ∃ r ∈ db.files, a.holds r = true ∧ r.id ≠ a.fileId ∧ r.id = s := by
  obtain ⟨r, hfind, hid⟩ := Option.map_eq_some_iff.mp h
  have hr := List.find?_some hfind
  simp only [Bool.and_eq_true, decide_eq_true_eq] at hr
  obtain ⟨⟨hnode, hpath⟩, hne⟩ := hr
  exact ⟨r, List.mem_of_find?_eq_some hfind,
    by simp [WriteRelocatedRecordArgs.holds, hnode, hpath], hne, hid⟩

theorem holds_of_no_shadow (h : shadowOf db a.nodeId a.newRemotePath a.fileId = none)
    (hr : r ∈ db.files) (hholds : a.holds r = true) : r.id = a.fileId := by
  have hnot := List.find?_eq_none.mp (Option.map_eq_none_iff.mp h) r hr
  simp only [WriteRelocatedRecordArgs.holds, Bool.and_eq_true, decide_eq_true_eq] at hholds
  simpa [hholds.1, hholds.2] using hnot

theorem holds_unique (paths : UniquePaths db) {r r' : FileRow} (hr : r ∈ db.files)
    (hr' : r' ∈ db.files) (h : a.holds r = true) (h' : a.holds r' = true) : r = r' := by
  simp only [WriteRelocatedRecordArgs.holds, Bool.and_eq_true, decide_eq_true_eq] at h h'
  exact paths r hr r' hr' (h.1.trans h'.1.symm) a.newRemotePath h.2 h'.2

theorem keyed_cleared (keyed : db.Keyed) : (cleared db a).Keyed := by
  unfold cleared
  cases shadowOf db a.nodeId a.newRemotePath a.fileId with
  | none => exact keyed
  | some s => exact keyed.deleteFile

theorem mem_of_cleared (h : r ∈ (cleared db a).files) : r ∈ db.files := by
  unfold cleared at h
  cases hshadow : shadowOf db a.nodeId a.newRemotePath a.fileId with
  | none => rwa [hshadow] at h
  | some s =>
    rw [hshadow] at h
    exact (mem_deleteFile_iff.mp h).1

theorem fileById_cleared : (cleared db a).fileById a.fileId = db.fileById a.fileId := by
  unfold cleared
  cases hshadow : shadowOf db a.nodeId a.newRemotePath a.fileId with
  | none => rfl
  | some s =>
    obtain ⟨r, -, -, hne, rfl⟩ := holds_of_shadow hshadow
    refine find?_deleteFile fun r' _ hid => ?_
    rw [hid]
    exact decide_eq_false hne

theorem holds_cleared (paths : UniquePaths db) (hr : r ∈ (cleared db a).files)
    (hholds : a.holds r = true) : r.id = a.fileId := by
  cases hshadow : shadowOf db a.nodeId a.newRemotePath a.fileId with
  | none => exact holds_of_no_shadow hshadow (mem_of_cleared hr) hholds
  | some s =>
    obtain ⟨r', hr', hholds', -, rfl⟩ := holds_of_shadow hshadow
    have hsame := holds_unique paths (mem_of_cleared hr) hr' hholds hholds'
    unfold cleared at hr
    rw [hshadow] at hr
    exact absurd (congrArg FileRow.id hsame) (mem_deleteFile_iff.mp hr).2

theorem length_cleared (keyed : db.Keyed) : (cleared db a).files.length +
      (if (shadowOf db a.nodeId a.newRemotePath a.fileId).isSome then 1 else 0) =
        db.files.length := by
  unfold cleared
  cases hshadow : shadowOf db a.nodeId a.newRemotePath a.fileId with
  | none => rfl
  | some s =>
    obtain ⟨r, hr, -, -, rfl⟩ := holds_of_shadow hshadow
    exact length_deleteFile keyed hr

theorem abortsUpdate_cleared (paths : UniquePaths db) (hrow : db.fileById a.fileId = some r)
    (hnode : (a.set r).nodeId = a.nodeId) :
    abortsUpdate nodes (cleared db a) a = a.update.nodeId.any (· ∉ nodes) := by
  have hfree : (cleared db a).files.any (fun r' => r'.id ≠ a.fileId &&
      r'.nodeId = (a.set r).nodeId && r'.remotePath = some a.newRemotePath) = false := by
    refine List.any_eq_false.mpr fun r' hr' hother => ?_
    simp only [Bool.and_eq_true, decide_eq_true_eq, hnode] at hother
    refine hother.1.1 (holds_cleared paths hr' ?_)
    simp [WriteRelocatedRecordArgs.holds, hother.1.2, hother.2]
  unfold abortsUpdate
  rw [fileById_cleared, hrow, Option.any_some, hfree, Bool.or_false]

theorem folded (keyed : db.Keyed) (paths : UniquePaths db) (hrow : db.fileById a.fileId = some r)
    (hnode : (a.set r).nodeId = a.nodeId) :
    ((cleared db a).updateFile a.fileId a.set).files.filter a.holds = [a.set r] := by
  have hcleared := keyed_cleared (a := a) keyed
  have hmem : r ∈ (cleared db a).files ∧ r.id = a.fileId :=
    fileById_eq_some (fileById_cleared.trans hrow)
  have hupdated : ((cleared db a).updateFile a.fileId a.set).Keyed := hcleared.updateFile set_id
  refine filter_eq_singleton (List.Nodup.of_map _ hupdated.nodup)
    (mem_updateFile_iff.mpr ⟨r, hmem.1, if_pos hmem.2⟩) ?_ fun r' hr' hholds => ?_
  · simp [WriteRelocatedRecordArgs.holds, hnode, set_remotePath]
  · obtain ⟨r₀, hr₀, rfl⟩ := mem_updateFile_iff.mp hr'
    split at hholds
    next hid =>
      rw [if_pos hid, hcleared.unique hr₀ hmem.1 (hid.trans hmem.2.symm)]
    next hid => exact absurd (holds_cleared paths hr₀ hholds) hid

theorem updateFile_absent (h : db.fileById a.fileId = none) :
    (cleared db a).updateFile a.fileId a.set = cleared db a := by
  have hrows : (cleared db a).files.map (fun r => if r.id = a.fileId then a.set r else r) =
      (cleared db a).files := by
    refine (List.map_congr_left fun r hr => ?_).trans (List.map_id _)
    have habsent := List.find?_eq_none.mp (fileById_cleared.trans h) r hr
    exact if_neg fun hid => habsent (decide_eq_true hid)
  unfold Database.updateFile
  rw [hrows]

/-- A call folds the shadow without losing a record exactly when the record is there and stays in the
node that is named, or is gone and no row holds the destination. -/
theorem foldsShadow_iff (keyed : db.Keyed) (paths : UniquePaths db) (move : RecordMove) :
    FoldsShadow nodes db move.args ↔ Reaches nodes db move.args := by
  generalize hargs : move.args = a
  have hnamed : ∀ nodeId, a.update.nodeId = some nodeId → a.nodeId = nodeId := by
    rw [← hargs]
    exact fun _ => move.nodeId_args
  unfold FoldsShadow Reaches
  cases hrow : db.fileById a.fileId with
  | some r =>
    constructor
    · rintro ⟨db', hattempt, hheld, -⟩
      have hwent : abortsUpdate nodes (cleared db a) a = false := by
        unfold attemptRelocatedRecord at hattempt
        dsimp only at hattempt
        split at hattempt
        next => cases hattempt
        next h => exact Bool.eq_false_iff.mpr h
      have hset : a.holds (a.set r) = true :=
        (List.mem_filter.mp (hheld ▸ List.mem_singleton_self (a.set r))).2
      simp only [WriteRelocatedRecordArgs.holds, Bool.and_eq_true, decide_eq_true_eq] at hset
      rw [abortsUpdate_cleared paths hrow hset.1] at hwent
      cases hnode : a.update.nodeId with
      | some nodeId =>
        rw [hnode] at hwent
        simpa using hwent
      | none => simpa [WriteRelocatedRecordArgs.set, hnode] using hset.1
    · intro hreaches
      have hnode : (a.set r).nodeId = a.nodeId ∧ a.update.nodeId.any (· ∉ nodes) = false := by
        cases hnode : a.update.nodeId with
        | some nodeId =>
          rw [hnode] at hreaches
          refine ⟨?_, by simpa using hreaches⟩
          simp [WriteRelocatedRecordArgs.set, hnode, hnamed nodeId hnode]
        | none =>
          rw [hnode] at hreaches
          exact ⟨by simpa [WriteRelocatedRecordArgs.set, hnode] using hreaches, rfl⟩
      have hwent : abortsUpdate nodes (cleared db a) a = false := by
        rw [abortsUpdate_cleared paths hrow hnode.1, hnode.2]
      refine ⟨_, if_neg (Bool.eq_false_iff.mp hwent), folded keyed paths hrow hnode.1, ?_⟩
      have hlength : ((cleared db a).updateFile a.fileId a.set).files.length =
          (cleared db a).files.length := List.length_map _
      exact (congrArg (· + _) hlength).trans (length_cleared keyed)
  | none =>
    have hwent : abortsUpdate nodes (cleared db a) a = false := by
      unfold abortsUpdate
      rw [fileById_cleared, hrow, Option.any_none]
    have hattempt : attemptRelocatedRecord nodes db a = some (cleared db a) :=
      (if_neg (Bool.eq_false_iff.mp hwent)).trans (congrArg some (updateFile_absent hrow))
    have hlength := length_cleared (a := a) keyed
    constructor
    · rintro ⟨db', hattempt', -, hsame⟩ r hr
      obtain rfl := Option.some.inj (hattempt.symm.trans hattempt')
      have hshadow : shadowOf db a.nodeId a.newRemotePath a.fileId = none := by
        cases hshadow : shadowOf db a.nodeId a.newRemotePath a.fileId with
        | none => rfl
        | some s =>
          rw [hshadow, hsame, Option.isSome_some, if_pos rfl] at hlength
          omega
      refine Bool.eq_false_iff.mpr fun hholds => ?_
      exact List.find?_eq_none.mp hrow r hr (decide_eq_true (holds_of_no_shadow hshadow hr hholds))
    · intro hfree
      have hshadow : shadowOf db a.nodeId a.newRemotePath a.fileId = none := by
        cases hshadow : shadowOf db a.nodeId a.newRemotePath a.fileId with
        | none => rfl
        | some s =>
          obtain ⟨r, hr, hholds, -, -⟩ := holds_of_shadow hshadow
          rw [hfree r hr] at hholds
          cases hholds
      refine ⟨_, hattempt, fun r _ hholds => ?_, ?_⟩
      · rename_i hr
        rw [hfree r hr] at hholds
        cases hholds
      · rw [hshadow] at hlength
        exact hlength

end

/-- A pending move whose record is gone, and a row without a remote at its destination. -/
def orphanedMove : PendingOpRow where
  id := 1
  userId := "user"
  nodeId := "node"
  fileId := 7
  payload := .move "drive" ["org", "wip", "a.md"] "drive" ["org", "wip", "b.md"] "node" "b.md" false
  attempts := 1
  lastError := none

def adopted : Database where
  files := [{ pushedFile "b.md" with
    remoteName := none, remotePath := some ["org", "wip", "b.md"], currentRemoteHash := none }]
  auditLog := []
  pendingOps := [orphanedMove]
  nextId := 8

def arrived : World where
  now := 1000
  relocation :=
    { sampleWorld.relocation with
      atFrom := .ok none
      atTo := .ok (some ⟨none, false, none⟩) }
  stat := .ok none
  delete := .ok ()
  localRename := .missing

def orphanedParams : RelocateParams :=
  ⟨"drive", ["org", "wip", "a.md"], "drive", ["org", "wip", "b.md"], false⟩

/-- The retry passes its check and deletes the row at the destination, for no record. -/
theorem retry_drops_other_row :
    (runMove arrived adopted orphanedMove orphanedParams "node" "b.md").toOption.map (·.files) =
        some [] ∧
      ¬FoldsShadow ["node"] adopted
        (RecordMove.runMove orphanedMove orphanedParams "node" "b.md").args := by
  refine ⟨by decide +kernel, ?_⟩
  rintro ⟨db', hattempt, -, hlength⟩
  have hgone : attemptRelocatedRecord ["node"] adopted
      (RecordMove.runMove orphanedMove orphanedParams "node" "b.md").args =
        some { adopted with files := [] } := by decide +kernel
  obtain rfl := Option.some.inj (hgone.symm.trans hattempt)
  cases hlength

/-- The watcher moves a record onto a path that another row holds. -/
theorem foldsShadow_iff_watched :
    let moved : FileRow := pushedFile "a.md"
    let shadow : FileRow := { pushedFile "b.md" with id := 1 }
    let db : Database := ⟨[moved, shadow], [], [], 2⟩
    let move : RecordMove := .relocateWatchedRecord "drive" "node"
      ["org", "projects", "key", "wip", "b.md"] moved
    FoldsShadow ["node"] db move.args := by
  intro moved shadow db move
  have keyed : db.Keyed := ⟨by decide, by decide⟩
  have paths : UniquePaths db := by
    intro r hr r' hr' _ path hpath hpath'
    rcases List.mem_cons.mp hr with rfl | hr <;> rcases List.mem_cons.mp hr' with rfl | hr'
    · rfl
    · rw [List.mem_singleton.mp hr'] at hpath'
      exact absurd (hpath.trans hpath'.symm) (by decide)
    · rw [List.mem_singleton.mp hr] at hpath
      exact absurd (hpath.trans hpath'.symm) (by decide)
    · rw [List.mem_singleton.mp hr, List.mem_singleton.mp hr']
  exact (foldsShadow_iff keyed paths move).mpr (show "node" ∈ ["node"] by decide)

end Portuni.FileOps
