import Portuni.CentralRetry.Rewrite

/-!
A mutation whose first attempt took effect, sent again because its answer was lost.
-/

namespace Portuni.CentralRetry

open Content FileOps Files
open NodeMove (UniquePaths)
open RemoteSweep

universe u

variable {Bytes : Type u}

structure WellFormed (db : Database) : Prop where
  keyed : db.Keyed
  paths : UniquePaths db
  ops : OpsKeyed db

def Answer.tookEffect : Answer → Bool
  | .ok (.fileOp .ok) => true
  | .ok (.fileOp _) => false
  | .ok _ => true
  | .error _ => false

def Answer.succeeded : Answer → Bool
  | .ok (.fileOp .repairNeeded) => false
  | .ok _ => true
  | .error _ => false

/-- The same tables and the same objects, but for audit rows of `actions`. -/
structure SameBut (actions : List AuditAction) (s s' : CentralState Bytes) : Prop where
  files : s'.db.files = s.db.files
  pendingOps : s'.db.pendingOps = s.db.pendingOps
  auditLog : ∃ rows, s'.db.auditLog = s.db.auditLog ++ rows ∧ rows.map (·.action) = actions
  objects : s'.objects = s.objects
  sessions : s'.sessions = s.sessions
  runs : s'.runs = s.runs

/-- Sending the mutation again changes nothing, and its caller sees it succeed. -/
def SafeUnderRetry (server : CentralServer Bytes) (s : CentralState Bytes)
    (m : Mutation Bytes) : Prop :=
  ∀ first second, second.Answers → Answer.tookEffect (handle server first s m).2 →
    SameBut [] (handle server first s m).1 (handle server second (handle server first s m).1 m).1 ∧
      Answer.succeeded (handle server second (handle server first s m).1 m).2

/-- What a mutation of files is; the others are on sessions. -/
def Mutation.onFiles : Mutation Bytes → Bool
  | .createSessionRecord _ | .createSessionRun _ => false
  | _ => true

def Mutation.repeatAudit : Mutation Bytes → List AuditAction
  | .registerFile .. => [.syncRegisterRemote]
  | .renameFile .. => [.syncRenameRemote]
  | .moveFileRecord .. => [.syncMove]
  | _ => []

def Mutation.replayRefusal (server : CentralServer Bytes) : Mutation Bytes → Option ErrorCode
  | .putFileRaw a => a.replayRefusal server
  | .createFile _ => some .exists
  | _ => none

/-- The base hash of a put, where it has one, is of the kind its backend reports. -/
def Mutation.HashFits (server : CentralServer Bytes) : Mutation Bytes → Prop
  | .putFileRaw a => a.HashFits server
  | _ => True

variable {server : CentralServer Bytes} {first second : Attempt} {s s₁ : CentralState Bytes}
  {nodeId : String} {payload : Payload}

theorem SameBut.refl (s : CentralState Bytes) : SameBut [] s s :=
  ⟨rfl, rfl, ⟨[], by simp, rfl⟩, rfl, rfl, rfl⟩

theorem tookEffect_iff {status : OpStatus} :
    Answer.tookEffect (.ok (.fileOp status)) ↔ status = .ok := by
  cases status <;> simp [Answer.tookEffect]

theorem ok_of_tookEffect {answer : Answer} (h : Answer.tookEffect answer) :
    ∃ payload, answer = .ok payload := by
  cases answer with
  | error e => simp [Answer.tookEffect] at h
  | ok payload => exact ⟨payload, rfl⟩

variable {handled : CentralState Bytes × Answer}

theorem gate_of_tookEffect (h : Answer.tookEffect (gated server s nodeId handled).2) :
    server.gate nodeId = none := by
  unfold gated at h
  split at h
  · simp [Answer.tookEffect] at h
  · assumption

theorem gated_of_gate (h : server.gate nodeId = none) :
    gated server s nodeId handled = handled := by
  simp [gated, h]

variable {fileId : ℕ}

theorem openFileOwnerNode_eq_ok {ownerNodeId : String} {allowMissing : Bool}
    (h : openFileOwnerNode server s nodeId fileId allowMissing = .ok ownerNodeId) :
    server.gate nodeId = none ∧
      ∀ r, s.db.fileById fileId = some r → r.nodeId = nodeId ∨ server.gate r.nodeId = none := by
  unfold openFileOwnerNode at h
  split at h
  · cases h
  · rename_i hgate
    refine ⟨hgate, fun r hrow => ?_⟩
    rw [hrow] at h
    simp only at h
    split at h
    · left
      assumption
    · split at h
      · cases h
      · split at h
        · cases h
        · right
          assumption

theorem openFileOwnerNode_of_row {r : FileRow} {allowMissing : Bool}
    (hurl : server.gate nodeId = none) (hrow : s.db.fileById fileId = some r)
    (hopen : r.nodeId = nodeId ∨ server.gate r.nodeId = none) :
    openFileOwnerNode server s nodeId fileId allowMissing = .ok r.nodeId := by
  unfold openFileOwnerNode
  rw [hurl, hrow]
  rcases hopen with hsame | hgate
  · simp [hsame]
  · simp [hgate, server.visible_of_gate hgate]

theorem relocatedObjects_self {p : RelocateParams} (hname : p.fromRemoteName = p.toRemoteName)
    (hpath : p.fromRemotePath = p.toRemotePath) :
    relocatedObjects server second s p = s.objects := by
  unfold relocatedObjects
  simp only [relocateRemoteObject_self hname hpath]

theorem ok_of_opAnswer {status : Except String OpStatus} (h : opAnswer status = .ok payload)
    (htook : Answer.tookEffect (.ok payload)) : status = .ok .ok := by
  cases status with
  | error message => cases h
  | ok status =>
    obtain rfl := Except.ok.inj h
    rw [tookEffect_iff.mp htook]

theorem renameFile_retried (wf : WellFormed s.db) {name : String}
    (h : handleRenameFile server first s nodeId fileId name = (s₁, .ok payload))
    (htook : Answer.tookEffect (.ok payload)) :
    SameBut [.syncRenameRemote] s₁ (handleRenameFile server second s₁ nodeId fileId name).1 ∧
      (handleRenameFile server second s₁ nodeId fileId name).2 = .ok (.fileOp .ok) := by
  unfold handleRenameFile at h
  split at h
  · cases h
  · rename_i owner howner
    obtain ⟨hgate, hopen⟩ := openFileOwnerNode_eq_ok howner
    split at h
    · cases h
    · rename_i plan hplan
      simp only at h
      obtain ⟨hstate, hanswer⟩ := Prod.mk.inj h
      have hstatus := ok_of_opAnswer hanswer htook
      cases hfirst : renameFileRemote server.toServer (worldOf server first s
          (plan.relocation (plan.row.remoteName.getD ""))) s.db fileId name with
      | mk db status =>
        rw [hfirst] at hstate hstatus
        obtain rfl : status = .ok .ok := hstatus
        obtain ⟨again, hagain, ⟨r, hrow, hnode⟩, hpath, hsecond⟩ :=
          renameFileRemote_again wf.keyed wf.paths wf.ops hfirst
        obtain rfl : s₁.db = db := by rw [← hstate]
        have howner₁ : openFileOwnerNode server s₁ nodeId fileId false = .ok again.row.nodeId :=
          openFileOwnerNode_of_row hgate (planRename_parts hagain).2.1 (hnode ▸ hopen r hrow)
        unfold handleRenameFile
        simp only [howner₁, hagain]
        obtain ⟨row, haction, hdone⟩ := hsecond _
        rw [hdone, relocatedObjects_self rfl hpath.symm]
        exact ⟨⟨rfl, rfl, ⟨[row], rfl, by simp [haction]⟩, rfl, rfl, rfl⟩, rfl⟩

theorem moveFileRecord_retried (wf : WellFormed s.db) {a : MoveFileArgs}
    (h : handleMoveFile server first s nodeId a = (s₁, .ok payload))
    (htook : Answer.tookEffect (.ok payload)) :
    SameBut [.syncMove] s₁ (handleMoveFile server second s₁ nodeId a).1 ∧
      (handleMoveFile server second s₁ nodeId a).2 = .ok (.fileOp .ok) := by
  unfold handleMoveFile at h
  split at h
  · cases h
  · rename_i htarget
    split at h
    · cases h
    · rename_i owner howner
      obtain ⟨hgate, hopen⟩ := openFileOwnerNode_eq_ok howner
      split at h
      · cases h
      · rename_i plan hplan
        simp only at h
        obtain ⟨hstate, hanswer⟩ := Prod.mk.inj h
        have hstatus := ok_of_opAnswer hanswer htook
        cases hfirst : moveFile server.toServer (worldOf server first s plan.relocation) s.db a with
        | mk db status =>
          rw [hfirst] at hstate hstatus
          obtain rfl : status = .ok .ok := hstatus
          obtain ⟨hconfirmed, again, hagain, ⟨r, hrow, hnode⟩, hname, hpath, hsecond⟩ :=
            moveFile_again wf.keyed wf.paths wf.ops server.team server.nfc_nfc server.member hfirst
          obtain rfl : s₁.db = db := by rw [← hstate]
          obtain ⟨newInfo, parts⟩ := moveParts_of_planMove server.team hagain
          have hopen₁ : again.row.nodeId = nodeId ∨ server.gate again.row.nodeId = none := by
            rw [hnode]
            cases hnew : a.newNodeId with
            | none => exact hopen r hrow
            | some target =>
              rw [hnew] at htarget
              exact .inr htarget
          have howner₁ : openFileOwnerNode server s₁ nodeId a.fileId false =
              .ok again.row.nodeId := openFileOwnerNode_of_row hgate parts.row hopen₁
          have hself : relocatedObjects server second s₁ again.relocation = s₁.objects :=
            relocatedObjects_self (by simp [MovePlan.relocation, hname])
              (by simp [MovePlan.relocation, hpath])
          unfold handleMoveFile
          simp only [htarget, howner₁, hagain]
          obtain ⟨row, haction, hdone⟩ := hsecond _
          rw [hdone, hself, ite_self]
          exact ⟨⟨rfl, rfl, ⟨[row], rfl, by simp [haction]⟩, rfl, rfl, rfl⟩, rfl⟩

theorem deleteFileRecord_retried
    (h : handleDeleteFile server first s nodeId fileId = (s₁, .ok payload))
    (htook : Answer.tookEffect (.ok payload)) :
    handleDeleteFile server second s₁ nodeId fileId = (s₁, .ok (.fileOp .alreadyDeleted)) := by
  unfold handleDeleteFile at h
  split at h
  · cases h
  · rename_i owner howner
    obtain ⟨hgate, -⟩ := openFileOwnerNode_eq_ok howner
    simp only at h
    split at h
    · rename_i db status hfirst
      obtain ⟨hstate, hanswer⟩ := Prod.mk.inj h
      obtain rfl := Except.ok.inj hanswer
      obtain rfl := tookEffect_iff.mp htook
      obtain ⟨hgone, hagain⟩ := deleteFileRemote_again hfirst
      obtain rfl : s₁.db = db := by rw [← hstate]
      have howner₁ : openFileOwnerNode server s₁ nodeId fileId true = .ok nodeId := by
        unfold openFileOwnerNode
        rw [hgate, hgone]
        rfl
      unfold handleDeleteFile
      simp only [howner₁, hagain, hgone]
      rfl
    · cases h

theorem answer_of_gated {answer : Answer} (h : gated server s nodeId handled = (s₁, answer))
    (htook : Answer.tookEffect answer) : server.gate nodeId = none ∧ handled = (s₁, answer) := by
  have hgated : Answer.tookEffect (gated server s nodeId handled).2 := by
    rw [h]
    exact htook
  have hgate := gate_of_tookEffect hgated
  exact ⟨hgate, (gated_of_gate hgate).symm.trans h⟩

/-- A file mutation whose first attempt took effect, sent again: the tables and the objects
stay as they are but for the audit row of a repeated registration, rename or move, and the
answer is a success, or the refusal of a create or of a put whose precondition its own bytes
do not meet. -/
theorem fileMutation_retried (wf : WellFormed s.db) {m : Mutation Bytes} (hm : m.onFiles)
    (fits : m.HashFits server) {answer : Answer} (h : handle server first s m = (s₁, answer))
    (htook : Answer.tookEffect answer) (works : second.Answers) :
    SameBut m.repeatAudit s₁ (handle server second s₁ m).1 ∧
      AnsweredAs (handle server second s₁ m).2 (m.replayRefusal server) := by
  obtain ⟨payload, rfl⟩ := ok_of_tookEffect htook
  cases m with
  | putFileRaw a =>
    obtain ⟨hgate, hwrite⟩ := answer_of_gated h htook
    obtain ⟨answer, hagain, hanswered⟩ := writeFileBytesRemote_again hwrite works fits
    have hsecond : handle server second s₁ (.putFileRaw a) = (s₁, answer) :=
      (gated_of_gate hgate).trans hagain
    rw [hsecond]
    exact ⟨SameBut.refl s₁, hanswered⟩
  | createFile a =>
    obtain ⟨hgate, hcreate⟩ := answer_of_gated h htook
    have hsecond : handle server second s₁ (.createFile a) =
        (s₁, .error (fileExists a.filename)) :=
      (gated_of_gate hgate).trans (createFileRemote_again hcreate)
    rw [hsecond]
    exact ⟨SameBut.refl s₁, _, rfl, rfl⟩
  | registerFile nodeId relPath =>
    obtain ⟨hgate, hregister⟩ := answer_of_gated h htook
    obtain ⟨row, haction, hagain⟩ : ∃ row : AuditRow, row.action = .syncRegisterRemote ∧
        registerFileRecordRemote server second s₁ nodeId relPath =
          ({ s₁ with db := s₁.db.insertAudit row }, .ok payload) :=
      registerFileRecordRemote_again wf.keyed hregister
    have hsecond : handle server second s₁ (.registerFile nodeId relPath) =
        ({ s₁ with db := s₁.db.insertAudit row }, .ok payload) :=
      (gated_of_gate hgate).trans hagain
    rw [hsecond]
    refine ⟨⟨rfl, rfl, ⟨[row], rfl, by simp [haction, Mutation.repeatAudit]⟩, rfl, rfl, rfl⟩,
      payload, rfl, ?_⟩
    rintro rfl
    simp [Answer.tookEffect] at htook
  | renameFile nodeId fileId name =>
    have hagain := @renameFile_retried _ _ _ second _ _ _ _ _ wf _ h htook
    exact ⟨hagain.1, _, hagain.2, by simp⟩
  | moveFileRecord nodeId a =>
    have hagain := @moveFileRecord_retried _ _ _ second _ _ _ _ wf _ h htook
    exact ⟨hagain.1, _, hagain.2, by simp⟩
  | deleteFileRecord nodeId fileId =>
    have hsecond : handle server second s₁ (.deleteFileRecord nodeId fileId) =
        (s₁, .ok (.fileOp .alreadyDeleted)) := deleteFileRecord_retried h htook
    rw [hsecond]
    exact ⟨SameBut.refl s₁, _, rfl, by simp⟩
  | createSessionRecord input => cases hm
  | createSessionRun input => cases hm

def sampleCentral : CentralServer Bool where
  toServer := sampleServer
  hashing := sampleHashing
  md5_lower := by decide +kernel
  sha256_lower := by decide +kernel
  backend _ := .drive
  gate nodeId := if nodeId = "node" then none else some ("NODE_NOT_FOUND", "node not found")
  visible _ := true
  nodeName _ := some "Key"
  utf8 text := text ≠ ""
  visible_of_gate := fun _ => rfl
  team := rfl
  mirrorless _ := rfl
  nfc_nfc _ := rfl
  member := by
    intro nodeId info hnode _
    simp only [sampleServer] at hnode
    split at hnode
    · cases hnode
      decide
    · cases hnode

def sampleAttempt : Attempt where
  now := 1000
  nowIso := "2025-01-01T10:00:00.000Z"
  statFails _ _ := none
  getFails _ _ := none
  put := .done
  copy := .done
  deleteSource := .done
  delete := .done
  newFileId := some "drive-1"

theorem sampleAttempt_answers : sampleAttempt.Answers := ⟨fun _ _ => rfl, fun _ _ => rfl, rfl⟩

def sampleState : CentralState Bool where
  db := onePushedFile
  objects name path :=
    if name = "drive" ∧ path = ["org", "projects", "key", "wip", "old.md"] then
      some ⟨true, false, some "drive-0"⟩
    else none
  sessions := []
  runs := []

theorem wellFormed_onePushedFile : WellFormed onePushedFile where
  keyed := keyed_onePushedFile
  paths := by
    intro r hr r' hr' _ _ _ _
    rw [List.mem_singleton.mp hr, List.mem_singleton.mp hr']
  ops := by
    intro op hop
    cases hop

theorem fileMutation_retried_rename :
    SameBut [.syncRenameRemote]
        (handle sampleCentral sampleAttempt sampleState (.renameFile "node" 0 "new.md")).1
        (handle sampleCentral sampleAttempt
          (handle sampleCentral sampleAttempt sampleState (.renameFile "node" 0 "new.md")).1
          (.renameFile "node" 0 "new.md")).1 ∧
      AnsweredAs (handle sampleCentral sampleAttempt
        (handle sampleCentral sampleAttempt sampleState (.renameFile "node" 0 "new.md")).1
        (.renameFile "node" 0 "new.md")).2 none := by
  have htook : Answer.tookEffect
      (handle sampleCentral sampleAttempt sampleState (.renameFile "node" 0 "new.md")).2 := by
    decide +kernel
  exact @fileMutation_retried _ sampleCentral sampleAttempt sampleAttempt sampleState _
    wellFormed_onePushedFile (.renameFile "node" 0 "new.md") rfl trivial _ rfl htook
    sampleAttempt_answers

/-- A create whose answer is lost is answered that the file exists when it is sent again. -/
theorem not_safeUnderRetry_createFile :
    ¬ ∀ (server : CentralServer Bool) (s : CentralState Bool) (m : Mutation Bool),
      WellFormed s.db → SafeUnderRetry server s m := by
  intro hsafe
  have htook : Answer.tookEffect
      (handle sampleCentral sampleAttempt sampleState (.createFile ⟨"node", "new.md", none, none,
        some "text"⟩)).2 := by decide +kernel
  have hagain := hsafe sampleCentral sampleState (.createFile ⟨"node", "new.md", none, none,
    some "text"⟩) wellFormed_onePushedFile sampleAttempt sampleAttempt sampleAttempt_answers htook
  have hrefused : Answer.succeeded (handle sampleCentral sampleAttempt
      (handle sampleCentral sampleAttempt sampleState (.createFile ⟨"node", "new.md", none, none,
        some "text"⟩)).1 (.createFile ⟨"node", "new.md", none, none, some "text"⟩)).2 = false := by
    decide +kernel
  rw [hrefused] at hagain
  exact Bool.noConfusion hagain.2

end Portuni.CentralRetry
