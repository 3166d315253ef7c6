import Portuni.CrashSafety.Consistent
import Portuni.LocalCleanup.Quiet
import Portuni.Tombstones.Agreement

/-!
`deleteFile` where it acts: the graph database, the remotes and the mirror of the device that
calls it; and what its tombstone does to the mirror of another device.
-/

namespace Portuni.LocalCleanup

open CentralRetry (bindingOf)
open Content CrashSafety Files Library.Runs Tombstones

universe u

structure Site (Bytes : Type u) where
  store : Store Bytes
  device : Device Bytes

structure LocalAnswers where
  rmFails : Bool
  dropFails : Bool

variable {Bytes : Type u}

def removeLocalCopyAndState (device : Device Bytes) (answers : LocalAnswers)
    (localPath : Option LocalPath) (fileId : ℕ) : Device Bytes :=
  let drop (device : Device Bytes) :=
    if answers.dropFails then device else Device.dropState device fileId
  match localPath with
  | none => drop device
  | some path => if answers.rmFails then device else drop (Device.write device path none)

variable (server : SyncServer Bytes) (answers : Answers) (locally : LocalAnswers)

def localPathOf (r : FileRow) : Option LocalPath :=
  (server.nodeInfo r.nodeId).bind fun info => r.remotePath.bind (server.localCopy r.nodeId info)

def deletion (complete : Bool) (r : FileRow) : CrashSafety.Removal :=
  { deleteRemoval server.toServer answers r with
    bound := if complete && !server.localWorkspace then bindingOf r else none
    audit := FileOps.deleteAudit server.toServer r complete (localPathOf server r) answers.now }

def refused (d : CrashSafety.Removal) (s : Store Bytes) : Bool :=
  d.bound.any fun bound =>
    match deleteResult server answers bound.1 bound.2 s.objects with
    | .error _ => true
    | .ok () => false

def deleteFile (a : FileOps.DeleteFileArgs) (site : Site Bytes) : Site Bytes :=
  match site.store.db.fileById a.fileId with
  | none => site
  | some r =>
    if !a.confirmed then site
    else
      let d := deletion server answers a.complete r
      { store := Library.Stops.perform (d.effects server answers site.store) site.store
        device :=
          if refused server answers d site.store then site.device
          else
            removeLocalCopyAndState site.device locally
              (if a.complete then localPathOf server r else none) r.id }

def laterDb (db : Database) (more : List AuditRow) (files : List FileRow) : Database :=
  { db with auditLog := db.auditLog ++ more, files := files }

variable {server answers locally} {a : FileOps.DeleteFileArgs} {site : Site Bytes} {r : FileRow}

theorem deleteFile_unregister (hmode : a.complete = false) (hconfirmed : a.confirmed = true)
    (hrow : site.store.db.fileById a.fileId = some r) :
    deleteFile server answers locally a site =
      { store :=
          { site.store with
            db := (site.store.db.deleteFile r.id).insertAudit
              (FileOps.deleteAudit server.toServer r false (localPathOf server r) answers.now) }
        device := removeLocalCopyAndState site.device locally none r.id } := by
  simp only [deleteFile, hrow, hconfirmed, hmode]
  rfl

/-- The path is one at which the device keeps the copy of the record, in some spelling. -/
def isCopyOf (device : Device Bytes) (nodeRoot : RemotePath) (r : FileRow) (path : LocalPath) :
    Bool :=
  r.remotePath.any fun remotePath =>
    (deriveLocalPath device.mirrorRoot nodeRoot remotePath).toOption.any fun copy =>
      device.nfc path = device.nfc copy

structure NextRun where
  engine : Engine
  order : NewestFirst
  now : ℕ
  nodeRoot : RemotePath
  more : List AuditRow
  files : List FileRow

def NextRun.at (next : NextRun) (db : Database) (nodeId : String) : SyncRun where
  engine := next.engine
  order := next.order
  now := next.now
  db := laterDb db next.more next.files
  nodeId := nodeId
  nodeRoot := next.nodeRoot

/-- No tombstone that the run reads applies to the copy of the record, if the walk finds one
that no record has: the copy is not what any file that has left the path was last synced with. -/
def SyncRun.Spares (run : SyncRun) (device : Device Bytes) (paths : List LocalPath) (r : FileRow) :
    Prop :=
  ∀ e, (run.entries device paths).find? (fun e => isCopyOf device run.nodeRoot r e.localPath) =
      some e → ∀ t ∈ run.tombstones device (run.entries device paths),
    tombstoneApplies device run.nodeRoot run.movedBack e t = false

section

variable {run : SyncRun} {device : Device Bytes} {paths : List LocalPath} {e : UntrackedFile}
  {t : DeletedTombstone} {mirror : Mirror Bytes} {s : State Bytes} {acts : List (Action Bytes)}

theorem exists_bytes_of_applies (he : e ∈ run.entries device paths)
    (happlies : tombstoneApplies device run.nodeRoot run.movedBack e t = true) :
    ∃ bytes, device.readFile e.localPath = some bytes := by
  simp only [tombstoneApplies, tombstoneFits, Bool.and_eq_true] at happlies
  obtain ⟨hash, -, hdisk⟩ := (Option.any_eq_true _ _).mp happlies.1.2
  rcases diskHashMatching_cases (of_decide_eq_true hdisk) with ⟨-, hsha⟩ | ⟨bytes, hread, -⟩
  · obtain ⟨path, -, hfound⟩ := List.mem_filterMap.mp he
    unfold SyncRun.discover at hfound
    split at hfound
    · cases hfound
    · cases hengine : run.engine with
      | direct =>
        rw [hengine] at hfound
        obtain rfl := Option.some.inj hfound
        cases hsha
      | central =>
        rw [hengine] at hfound
        obtain ⟨bytes, hread, rfl⟩ := Option.map_eq_some_iff.mp hfound
        exact ⟨bytes, hread⟩
  · exact ⟨bytes, hread⟩

theorem isCopyOf_cases (device : Device Bytes) (nodeRoot : RemotePath) (r : FileRow) :
    (∃ copy, ∀ path, isCopyOf device nodeRoot r path = decide (device.nfc path = copy)) ∨
      ∀ path, isCopyOf device nodeRoot r path = false := by
  unfold isCopyOf
  cases r.remotePath with
  | none => exact .inr fun _ => rfl
  | some remotePath =>
    simp only [Option.any_some]
    cases (deriveLocalPath device.mirrorRoot nodeRoot remotePath).toOption with
    | none => exact .inr fun _ => rfl
    | some copy => exact .inl ⟨device.nfc copy, fun _ => rfl⟩

theorem copies_kept_iff
    (hrun : Run (step run) Quiet (start mirror paths) acts s) (hdone : s.phase = .cleaning []) :
    (∀ path, isCopyOf mirror.device run.nodeRoot r path = true →
      s.mirror.device.readFile path = mirror.device.readFile path) ↔
    run.Spares mirror.device paths r := by
  rw [device_of_quiet hrun hdone]
  unfold SyncRun.Spares
  rcases isCopyOf_cases mirror.device run.nodeRoot r with ⟨copy, hcopy⟩ | hnone
  · simp only [hcopy, decide_eq_true_eq]
    cases hfirst : (run.entries mirror.device paths).find?
        (fun e => decide (mirror.device.nfc e.localPath = copy)) with
    | none =>
      refine iff_of_true (fun path hpath => ?_) (fun e he => by cases he)
      rw [readFile_cleanupDeletedRemote, if_neg]
      rintro ⟨m, hm, rfl⟩
      exact no_match_at hfirst ⟨m, hm, hpath⟩
    | some e =>
      simp only [Option.some.injEq, forall_eq']
      have hmatch : (∃ m ∈ run.deletedRemote mirror.device paths,
          mirror.device.nfc m.localPath = copy) ↔ _ :=
        exists_match_at_iff hfirst List.not_mem_nil
      constructor
      · intro kept t ht
        by_contra happlies
        rw [Bool.not_eq_false] at happlies
        obtain ⟨m, hm, hpath⟩ := hmatch.mpr ⟨t, ht, happlies⟩
        have hsame := kept m.localPath hpath
        rw [readFile_cleanupDeletedRemote, if_pos ⟨m, hm, rfl⟩] at hsame
        obtain ⟨e', he', hlocal, t', -, happlies'⟩ := applies_of_mem_matchTombstones hm
        obtain ⟨bytes, hread⟩ := exists_bytes_of_applies he' happlies'
        rw [hlocal, hread] at hsame
        cases hsame
      · intro spares path hpath
        rw [readFile_cleanupDeletedRemote, if_neg]
        rintro ⟨m, hm, rfl⟩
        obtain ⟨t, ht, happlies⟩ := hmatch.mp ⟨m, hm, hpath⟩
        rw [spares t ht] at happlies
        cases happlies
  · refine iff_of_true (fun path hpath => ?_) fun e he => ?_
    · rw [hnone path] at hpath
      cases hpath
    · have hfound := List.find?_some he
      rw [hnone] at hfound
      cases hfound

end

variable {next : NextRun} {mirror : Mirror Bytes} {paths : List LocalPath}
  {acts : List (Action Bytes)} {s : State Bytes}

/-- Unregistering a record removes no copy of its file exactly if the next run of the other
device spares the copy there. -/
theorem unregister_keeps_copies_iff (hmode : a.complete = false) (hconfirmed : a.confirmed = true)
    (hrow : site.store.db.fileById a.fileId = some r)
    (hrun : Run (step (next.at (deleteFile server answers locally a site).store.db r.nodeId)) Quiet
      (start mirror paths) acts s) (hdone : s.phase = .cleaning []) :
    ((deleteFile server answers locally a site).store.objects = site.store.objects ∧
      (deleteFile server answers locally a site).device.readFile = site.device.readFile ∧
      ∀ path, isCopyOf mirror.device next.nodeRoot r path = true →
        s.mirror.device.readFile path = mirror.device.readFile path) ↔
    (next.at (deleteFile server answers locally a site).store.db r.nodeId).Spares mirror.device
      paths r := by
  have hkept := copies_kept_iff (r := r) hrun hdone
  rw [deleteFile_unregister hmode hconfirmed hrow] at hkept ⊢
  refine Iff.trans ⟨fun h => h.2.2, fun h => ⟨rfl, ?_, h⟩⟩ hkept
  unfold removeLocalCopyAndState
  cases locally.dropFails <;> rfl

/-- A device that has edited its copy, or has its clean copy, of the file that is unregistered. -/
def otherDevice (bytes : Bool) : Mirror Bool where
  device := { sampleDevice with
    readFile := fun path => if path = ["mirror", "wip", "old.md"] then some bytes else none }
  byUser _ := false

def goneFromRemote : Site Bool := ⟨⟨FileOps.onePushedFile, fun _ _ => none⟩, sampleDevice⟩

def unregister : FileOps.DeleteFileArgs := ⟨0, false, true⟩

def unregistered : Site Bool :=
  deleteFile sampleSync noFailures ⟨false, false⟩ unregister goneFromRemote

def nextDirect : NextRun :=
  ⟨.direct, mergeNewestFirst, 2000, ["org", "projects", "key"], [], []⟩

def nextRun : SyncRun := nextDirect.at unregistered.store.db "node"

def samplePath : LocalPath := ["mirror", "wip", "old.md"]

/-- Walk, ask for the tombstones, match the one there is, and clean up if it matches. -/
def quietActs (removals : ℕ) : List (Action Bool) :=
  List.replicate (4 + removals) .next

theorem unregister_keeps_copies_iff_edited :
    ∃ s, Run (step nextRun) Quiet (start (otherDevice false) [samplePath]) (quietActs 0) s ∧
      (unregistered.store.objects = goneFromRemote.store.objects ∧
        unregistered.device.readFile = goneFromRemote.device.readFile ∧
        ∀ path, isCopyOf (otherDevice false).device nextDirect.nodeRoot
          (FileOps.pushedFile "old.md") path = true →
          s.mirror.device.readFile path = (otherDevice false).device.readFile path) := by
  have hdone : (exec (step nextRun) (start (otherDevice false) [samplePath]) (quietActs 0)).map
      (·.phase) = some (.cleaning []) := by
    decide +kernel
  obtain ⟨s, hs, hphase⟩ := Option.map_eq_some_iff.mp hdone
  have hrun : Run (step nextRun) Quiet (start (otherDevice false) [samplePath]) (quietActs 0) s :=
    Run.of_exec hs (by decide +kernel)
  have hiff := @unregister_keeps_copies_iff Bool sampleSync noFailures ⟨false, false⟩ unregister
    goneFromRemote (FileOps.pushedFile "old.md") nextDirect (otherDevice false) [samplePath]
    (quietActs 0) s rfl rfl rfl hrun hphase
  refine ⟨s, hrun, hiff.mpr fun e he t ht => ?_⟩
  have hall : ((nextRun.entries (otherDevice false).device [samplePath]).all fun e =>
      (nextRun.tombstones (otherDevice false).device
        (nextRun.entries (otherDevice false).device [samplePath])).all fun t =>
          !tombstoneApplies (otherDevice false).device nextRun.nodeRoot nextRun.movedBack e t) =
            true := by
    decide +kernel
  have happlies := List.all_eq_true.mp (List.all_eq_true.mp hall e (List.mem_of_find?_eq_some he))
    t ht
  exact Bool.not_eq_true' _ |>.mp happlies

/-- The device that has the copy as it was last synced loses it at its next run. -/
theorem unregister_removes_copy :
    ∃ s, Run (step nextRun) Quiet (start (otherDevice true) [samplePath]) (quietActs 1) s ∧
      s.phase = .cleaning [] ∧ (otherDevice true).device.readFile samplePath = some true ∧
      s.mirror.device.readFile samplePath = none := by
  have hdone : (exec (step nextRun) (start (otherDevice true) [samplePath]) (quietActs 1)).map
      (fun s => (s.phase, s.mirror.device.readFile samplePath)) = some (.cleaning [], none) := by
    decide +kernel
  obtain ⟨s, hs, hend⟩ := Option.map_eq_some_iff.mp hdone
  exact ⟨s, Run.of_exec hs (by decide +kernel), congrArg Prod.fst hend, rfl, congrArg Prod.snd hend⟩

end Portuni.LocalCleanup
