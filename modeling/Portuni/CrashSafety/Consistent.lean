import Portuni.CrashSafety.Deletions

/-!
The calls on one file, each stopped anywhere, and one retry after it.
-/

namespace Portuni.CrashSafety

open CentralRetry (RemoteObject Objects CallAnswer OpsKeyed
  moveParts_of_planMove planRename_parts)
open FileOps Files Files.Database Library.Stops PendingOps RemoteSweep Tombstones

universe u

variable {Bytes : Type u}

def Errand.row : Errand → FileRow
  | .relocate i => i.row
  | .remove d => d.row

def Errand.nodeId : Errand → String
  | .relocate i => i.row.nodeId
  | .remove d => d.nodeId

def Errand.paths : Errand → List RemotePath
  | .relocate i => i.paths
  | .remove d => d.row.remotePath.toList

/-- What a retry comes to: the operation is done, with all that it has to leave behind, or
the remote was ambiguous and nothing on it was removed. -/
def Errand.Recovered (server : SyncServer Bytes) (start stopped after : Store Bytes) :
    Errand → Prop
  | .relocate i =>
    Relocated i start after ∨ Ambiguous i.p stopped.objects ∧ Kept i.p start.objects after.objects
  | .remove d =>
    Removed d after ∨
      Foreign server d stopped.objects ∧ ∀ name path, d.bound = some (name, path) →
        ∀ object, start.objects name path = some object → after.objects name path = some object

/-- Wherever the call stops after its first write, one retry with working remotes recovers. -/
def Errand.Consistent (server : SyncServer Bytes) (answers : Answers) (s : Store Bytes)
    (errand : Errand) : Prop :=
  ∀ retry : Answers, retry.Working → ∀ count,
    errand.Recovered server s (perform ((errand.effects server answers s).take (count + 1)) s)
      (retryAll server retry errand.nodeId
        (perform ((errand.effects server answers s).take (count + 1)) s))

/-- The call is crash consistent, however the calls to the remotes come out. -/
def CrashConsistent (server : SyncServer Bytes) (s : Store Bytes) (call : FileCall) : Prop :=
  ∀ answers errand, call.errand server.toServer answers s.db = some errand →
    errand.Consistent server answers s

/-- Nothing else is pending for the file or its paths, its place is its own, and the caller
names its node. -/
structure Errand.Undisturbed (errand : Errand) (s : Store Bytes) : Prop where
  alone : Alone errand.row.id errand.nodeId errand.paths s.db
  node : errand.nodeId = errand.row.nodeId
  unclaimed : ∀ name path, CentralRetry.bindingOf errand.row = some (name, path) →
    Unclaimed errand.row.id name path s.db

/-- What the calls leave to luck. A native object does not go to another remote, the row
that `renameFileRemote` writes has no node, and an unbound record is deleted without an
intent. -/
def FileCall.Covered (server : SyncServer Bytes) (s : Store Bytes) : FileCall → Prop
  | .moveFile a =>
    ∀ plan, planMove server.toServer s.db a = .ok plan → Transferable plan.relocation s.objects
  | .renameFile _ _ => True
  | .renameFileRemote fileId newFilename =>
    ∀ plan, planRename s.db fileId newFilename boundRemote = .ok plan →
      plan.newRemotePath = plan.oldRemotePath ∨
        Ambiguous (plan.relocation (plan.row.remoteName.getD "")) s.objects ∨
        HasTombstone s.db plan.row.nodeId plan.oldRemotePath plan.row.id
  | .deleteFile fileId | .deleteFileRemote _ fileId =>
    ∀ r, s.db.fileById fileId = some r → r.remoteName = none →
      ∀ path, r.remotePath = some path → HasTombstone s.db r.nodeId path r.id

def noFailures : Answers where
  now := 0
  statFails _ _ := none
  copy := .done
  nativeGet := ""
  deleteSource := .done
  delete := .done
  newFileId := none
  localRename := .missing

theorem working_noFailures : noFailures.Working := ⟨fun _ _ => rfl, rfl, rfl, rfl⟩

variable {server : SyncServer Bytes} {answers : Answers} {i : Intent} {d : Removal}
  {s : Store Bytes}

theorem Intent.effects_take (i : Intent) (count : ℕ) :
    perform ((i.effects server answers s).take (count + 1)) s =
      perform ((relocateEffects server answers i.p s.objects ++
        (i.statements s.db.nextId (relocateResult server answers i.p s.objects)).map onDb).take
          count) (i.enqueue server s) :=
  rfl

variable (sound : i.Sound s.db)

include sound

theorem Intent.Sound.consistent (alone : Alone i.row.id i.row.nodeId i.paths s.db)
    (transferable : Transferable i.p s.objects)
    (told : (∃ status, relocateResult server answers i.p s.objects = .ok status) → i.Told s.db) :
    (Errand.relocate i).Consistent server answers s := by
  intro retry working count
  change Relocated i s _ ∨ Ambiguous i.p _ ∧ Kept i.p s.objects _
  simp only [Errand.effects, Intent.effects_take]
  rcases throughout_iff.mp (sound.throughout alone.keyed alone.ops) count with
    ⟨sourceCopied, underway⟩ | ⟨arrived, hok⟩
  · exact underway.recovered working sound alone transferable
  · exact .inl ((arrived.recovered_iff sound alone).mpr (told hok))

theorem Intent.Sound.transferable_of_consistent (alone : Alone i.row.id i.row.nodeId i.paths s.db)
    (working : answers.Working) (consistent : (Errand.relocate i).Consistent server answers s) :
    Transferable i.p s.objects := by
  intro remotes target object source
  rw [← Bool.not_eq_true]
  intro native
  have underway : Underway i s (i.enqueue server s) false := underway_enqueue sound alone.keyed
  rcases consistent answers working 0 with relocated | ⟨ambiguous, -⟩
  · exact underway.stuck working sound alone remotes native source target relocated
  · have hsame : (atSource i.p s.objects).isSome = (atTarget i.p s.objects).isSome := ambiguous.2
    rw [source, target] at hsame
    cases hsame

variable {status : RelocateStatus}

theorem Intent.Sound.arrived (keyed : s.db.Keyed) (ops : OpsKeyed s.db)
    (hok : relocateResult server answers i.p s.objects = .ok status) :
    Arrived i s (perform (i.effects server answers s) s) := by
  rcases (sound.throughout keyed ops).finish with ⟨sourceCopied, underway⟩ | ⟨arrived, -⟩
  · -- the last statement has taken the operation away
    obtain ⟨op, hops, isOp⟩ := underway.op
    have hcompleted : (perform (i.effects server answers s) s).db =
        completePendingOp ((i.write :: i.audits.map fun row => (insertAudit · row)).foldl
          (fun db statement => statement db)
          (enqueuePendingOp s.db server.userId i.row.nodeId i.row.id i.payload).1)
          s.db.nextId := by
      rw [Intent.perform_db, hok]
      exact List.foldl_append
    have hmem : op ∈ (perform (i.effects server answers s) s).db.pendingOps := by
      change op ∈ (perform (_ ++ _) (i.enqueue server s)).db.pendingOps
      rw [hops]
      exact List.mem_append_right _ (List.mem_singleton_self _)
    rw [hcompleted] at hmem
    exact absurd isOp.id (of_decide_eq_true (List.mem_filter.mp hmem).2)
  · exact arrived

theorem Intent.Sound.told_of_consistent (alone : Alone i.row.id i.row.nodeId i.paths s.db)
    (working : answers.Working) (consistent : (Errand.relocate i).Consistent server answers s)
    (hok : relocateResult server answers i.p s.objects = .ok status) : i.Told s.db := by
  have harrived := sound.arrived alone.keyed alone.ops hok
  have hlast := consistent answers working (i.effects server answers s).length
  simp only [Errand.effects] at hlast
  rw [List.take_of_length_le (Nat.le_succ _)] at hlast
  rcases hlast with relocated | ⟨ambiguous, -⟩
  · exact (harrived.recovered_iff sound alone).mp relocated
  · exact absurd ambiguous harrived.landed.not_ambiguous

omit sound

variable {objects : Objects Bytes}

theorem not_ambiguous_of_ok {p : RelocateParams} (fresh : p.sourceCopied = false)
    (hok : relocateResult server answers p objects = .ok status) : ¬ Ambiguous p objects := by
  rintro ⟨hplace, hsame⟩
  have hcase : RelocateCase answers p objects (relocateEffects server answers p objects)
      (relocateResult server answers p objects) := relocateCase fresh
  rw [hok] at hcase
  generalize relocateEffects server answers p objects = effects at hcase
  cases hcase with
  | already there =>
    rcases there with hthere | ⟨hnone, hsome⟩
    · exact hplace hthere
    · rw [hnone, hsome] at hsame
      cases hsame
  | renamed object source target _ _ _ | copiedAndRemoved object source target _ _ _ _ =>
    rw [source, target] at hsame
    cases hsame

variable {fileId : ℕ} {db : Database} {plan : RenamePlan}

variable {row : AuditRow} {now : ℕ}

theorem reads_of_tellsOf {nodeId : String} {path : RemotePath}
    (h : TellsOf row now nodeId path fileId) : reads centralActions nodeId row := by
  have haction : row.action ∈ centralActions := List.mem_append_left _ h.action
  simp [reads, h.file, h.node, haction]

theorem Intent.told_of_audits (hrow : row ∈ i.audits)
    (htells : TellsOf row now i.row.nodeId i.p.fromRemotePath i.row.id) : i.Told db :=
  fun _ => ⟨row, List.mem_append_right _ hrow, reads_of_tellsOf htells, htells.file, htells.path⟩

variable {a : MoveFileArgs}

theorem moveIntent_sound {plan : MovePlan} (team : server.localWorkspace = false)
    (hplan : planMove server.toServer db a = .ok plan) :
    (moveIntent server.toServer answers plan).Sound db := by
  obtain ⟨newInfo, parts⟩ := moveParts_of_planMove team hplan
  have hname : ∃ name, plan.row.remoteName = some name := by
    have hbound := parts.bound
    unfold boundPath at hbound
    rw [boundPath_eq_ok parts.bound] at hbound
    cases hname : plan.row.remoteName with
    | none => simp [team, hname] at hbound
    | some name => exact ⟨name, rfl⟩
  obtain ⟨name, hname⟩ := hname
  obtain ⟨newName, hnewName⟩ := Option.isSome_iff_exists.mp parts.routed
  refine ⟨?_, ?_, boundPath_eq_ok parts.bound, rfl, fun r => ⟨rfl, rfl⟩, ?_⟩
  · change db.fileById plan.row.id = some plan.row
    rw [(fileById_eq_some parts.row).2]
    exact parts.row
  · simp [moveIntent, MovePlan.relocation, parts.oldRemoteName, hname]
  · simp [moveIntent, MovePlan.relocation, hnewName]

theorem moveIntent_told {plan : MovePlan} (hplan : planMove server.toServer db a = .ok plan) :
    (moveIntent server.toServer answers plan).Told db := by
  have hpath := (planMove_eq_ok hplan).2.2
  have htells : ∀ localError, TellsOf (moveAudit server.toServer plan localError answers.now)
      answers.now plan.row.nodeId plan.oldRemotePath plan.row.id :=
    fun localError => tellsOf_moveAudit plan hpath localError _ hpath
  have hrow : ∃ localError, moveAudit server.toServer plan localError answers.now ∈
      (moveIntent server.toServer answers plan).audits := by
    simp only [moveIntent]
    cases answers.renameLocal plan.oldLocalPath plan.newLocalPath with
    | renamed | missing => exact ⟨none, List.mem_singleton_self _⟩
    | failed message => exact ⟨some message, List.mem_cons_of_mem _ (List.mem_singleton_self _)⟩
  obtain ⟨localError, hrow⟩ := hrow
  exact Intent.told_of_audits hrow (htells localError)

variable {audit : AuditRow}

theorem renameIntent_sound {newFilename name : String} {bound : FileRow → Except String RemotePath}
    (hplan : planRename db fileId newFilename bound = .ok plan)
    (hname : plan.row.remoteName = some name)
    (hpath : plan.row.remotePath = some plan.oldRemotePath) :
    (renameIntent plan audit).Sound db := by
  obtain ⟨-, hrow, -⟩ := planRename_parts hplan
  refine ⟨?_, ?_, hpath, rfl, fun r => ⟨rfl, rfl⟩, ?_⟩
  · change db.fileById plan.row.id = some plan.row
    rw [(fileById_eq_some hrow).2]
    exact hrow
  · simp [renameIntent, RenamePlan.relocation, hname]
  · simp [renameIntent, RenamePlan.relocation, hname]

theorem samePlace_renameIntent :
    SamePlace (renameIntent plan audit).p ↔ plan.newRemotePath = plan.oldRemotePath := by
  simp [SamePlace, renameIntent, RenamePlan.relocation, eq_comm]

theorem transferable_renameIntent : Transferable (renameIntent plan audit).p objects :=
  fun remotes => absurd rfl remotes

theorem renameRemoteAudit_not_read {server : Server} {nodeId : String} :
    reads centralActions nodeId (renameRemoteAudit server plan now) = false := by
  have hnode : (renameRemoteAudit server plan now).auditNodeId = none := rfl
  simp [reads, hnode]

theorem told_renameRemote_iff :
    (renameIntent plan (renameRemoteAudit server.toServer plan answers.now)).Told db ↔
      plan.newRemotePath = plan.oldRemotePath ∨
        HasTombstone db plan.row.nodeId plan.oldRemotePath plan.row.id := by
  rw [Intent.Told, samePlace_renameIntent, ← or_iff_not_imp_left]
  refine or_congr_right ⟨?_, ?_⟩
  · rintro ⟨row, hrow, hreads, hfile, hpath⟩
    rcases List.mem_append.mp hrow with hrow | hrow
    · exact ⟨row, hrow, hreads, hfile, hpath⟩
    · obtain rfl := List.mem_singleton.mp hrow
      rw [renameIntent, renameRemoteAudit_not_read] at hreads
      cases hreads
  · rintro ⟨row, hrow, hreads⟩
    exact ⟨row, List.mem_append_left _ hrow, hreads⟩

variable {r : FileRow}

theorem tells_of_deletion (haction : row.action ∈ localActions) (hfile : row.fileId? = some r.id)
    (hnode : row.auditNodeId = some r.nodeId)
    (hpath : row.detail.lookup "remote_path" = some (.ofPath r.remotePath))
    (hold : jsonPath row.detail "old_remote_path" = none) :
    reads centralActions r.nodeId row ∧ row.fileId? = some r.id ∧
      row.auditRemotePath = r.remotePath := by
  have hcentral : row.action ∈ centralActions := List.mem_append_left _ haction
  refine ⟨by simp [reads, hfile, hnode, hcentral], hfile, ?_⟩
  rw [AuditRow.auditRemotePath_eq hpath, hold, Option.or_none]

theorem deleteRemoval_sound (hrow : db.fileById r.id = some r) :
    (deleteRemoval server.toServer answers r).Sound db where
  row := hrow
  node := rfl
  bound := rfl
  audit := tells_of_deletion List.mem_cons_self rfl rfl rfl rfl

theorem deleteRemoteRemoval_sound (hrow : db.fileById r.id = some r) :
    (deleteRemoteRemoval server.toServer answers r.nodeId r).Sound db where
  row := hrow
  node := rfl
  bound := rfl
  audit := tells_of_deletion (List.mem_cons_of_mem _ List.mem_cons_self) rfl rfl rfl rfl

theorem Removal.Sound.consistent_of_bound (sound : d.Sound s.db) {name : String}
    {path : RemotePath} (bound : d.bound = some (name, path))
    (alone : Alone d.row.id d.nodeId d.row.remotePath.toList s.db)
    (unclaimed : Unclaimed d.row.id name path s.db) :
    (Errand.remove d).Consistent server answers s := by
  rw [(sound.bound_path bound).2] at alone
  intro retry working count
  change Removed d _ ∨ Foreign server d _ ∧ _
  have heffects : perform ((d.effects server answers s).take (count + 1)) s =
      perform ((deleteEffects server answers name path s.objects ++
        (d.statements name path s.db.nextId
          (deleteResult server answers name path s.objects)).map onDb).take count)
        (d.enqueue server name path s) := by
    rw [Removal.effects, bound]
    rfl
  simp only [Errand.effects, heffects]
  rcases throughout_iff.mp (sound.throughout alone.keyed alone.ops bound unclaimed) count with
    underway | arrived
  · refine (underway.recovered working sound alone bound).imp_right ?_
    rintro ⟨foreign, hkept⟩
    refine ⟨foreign, fun name' path' hbound => ?_⟩
    obtain ⟨rfl, rfl⟩ := Prod.mk.inj (Option.some.inj (bound.symm.trans hbound))
    exact hkept
  · exact .inl (arrived.recovered sound alone bound)

theorem Removal.consistent_of_unbound_iff (bound : d.bound = none)
    (alone : Alone d.row.id d.nodeId d.row.remotePath.toList s.db) :
    (Errand.remove d).Consistent server answers s ↔
      ∀ path, d.row.remotePath = some path → HasTombstone s.db d.row.nodeId path d.row.id := by
  have heffects : d.effects server answers s = d.remove.map onDb := by
    rw [Removal.effects, bound]
  have hgone : ∀ name path, d.bound = some (name, path) →
      path ∈ d.row.remotePath.toList ∧ s.objects name path = none := fun name path h => by
    cases bound.symm.trans h
  constructor
  · intro consistent path hpath
    have hframe : Frame d.row.id d.row.remotePath.toList (onDb (deleteFile · d.row.id) s)
        (retryAll server noFailures d.nodeId (onDb (deleteFile · d.row.id) s)) :=
      frame_gone alone rfl (fileById_deleteFile_self d.row.id) alone.keyed.deleteFile
    have hfirst := consistent _ working_noFailures 0
    simp only [Errand.effects, heffects] at hfirst
    rcases hfirst with removed | ⟨⟨name, path, _, hbound, _⟩, -⟩
    · exact (hframe.tombstones _ _).mp (removed.tombstone path hpath)
    · cases bound.symm.trans hbound
  · intro told retry working count
    refine .inl ?_
    simp only [Errand.effects, heffects]
    cases count with
    | zero =>
      exact removed_of_gone alone rfl (fileById_deleteFile_self d.row.id)
        alone.keyed.deleteFile hgone told
    | succ count =>
      have hlast : perform ((d.remove.map onDb).take (count + 1 + 1)) s =
          onDb (fun db => (db.deleteFile d.row.id).insertAudit d.audit) s := by
        rw [List.take_of_length_le (by simp [Removal.remove])]
        rfl
      rw [hlast]
      refine removed_of_gone alone rfl (fileById_deleteFile_self d.row.id)
        ⟨alone.keyed.deleteFile.nodup, alone.keyed.deleteFile.lt⟩ hgone fun path hpath => ?_
      obtain ⟨row, hrow, hreads⟩ := told path hpath
      exact ⟨row, List.mem_append_left _ hrow, hreads⟩

theorem crashConsistent_moveFile_iff {a : MoveFileArgs} {plan : MovePlan}
    (team : server.localWorkspace = false) (hplan : planMove server.toServer s.db a = .ok plan)
    (alone : ∀ answers, Alone plan.row.id plan.row.nodeId
      (moveIntent server.toServer answers plan).paths s.db) :
    (∀ answers, (Errand.relocate (moveIntent server.toServer answers plan)).Consistent server
      answers s) ↔ Transferable plan.relocation s.objects := by
  have sound : ∀ answers, (moveIntent server.toServer answers plan).Sound s.db :=
    fun answers => moveIntent_sound team hplan
  constructor
  · exact fun consistent => (sound noFailures).transferable_of_consistent (alone noFailures)
      working_noFailures (consistent noFailures)
  · exact fun transferable answers => (sound answers).consistent (alone answers) transferable
      fun _ => moveIntent_told hplan

theorem crashConsistent_renameFileRemote_iff {newFilename : String}
    (hplan : planRename s.db fileId newFilename boundRemote = .ok plan)
    (alone : Alone plan.row.id plan.row.nodeId [plan.oldRemotePath, plan.newRemotePath] s.db) :
    (∀ answers, (Errand.relocate (renameIntent plan
      (renameRemoteAudit server.toServer plan answers.now))).Consistent server answers s) ↔
      plan.newRemotePath = plan.oldRemotePath ∨
        Ambiguous (plan.relocation (plan.row.remoteName.getD "")) s.objects ∨
        HasTombstone s.db plan.row.nodeId plan.oldRemotePath plan.row.id := by
  obtain ⟨name, hname⟩ : ∃ name, plan.row.remoteName = some name := by
    have hbound := (planRename_parts hplan).2.2.1
    unfold boundRemote at hbound
    split at hbound
    · rename_i name _ hname _
      exact ⟨name, hname⟩
    · cases hbound
  have sound : ∀ audit, (renameIntent plan audit).Sound s.db := fun audit =>
    renameIntent_sound hplan hname (boundRemote_eq_ok (planRename_parts hplan).2.2.1)
  constructor
  · intro consistent
    refine or_iff_not_imp_left.mpr fun hplace => or_iff_not_imp_left.mpr fun hambiguous => ?_
    have hretried : RemoteRetried server noFailures
        (renameIntent plan (renameRemoteAudit server.toServer plan noFailures.now)).p s s :=
      retried_untouched working_noFailures rfl rfl rfl transferable_renameIntent
    rcases hretried with ⟨status, hok, -⟩ | ⟨-, -, ambiguous, -⟩
    · exact (told_renameRemote_iff.mp ((sound _).told_of_consistent alone working_noFailures
        (consistent noFailures) hok)).resolve_left hplace
    · exact absurd ambiguous hambiguous
  · intro covered answers
    refine (sound _).consistent alone transferable_renameIntent ?_
    rintro ⟨status, hok⟩
    refine told_renameRemote_iff.mpr (covered.imp_right fun h => h.resolve_left ?_)
    exact not_ambiguous_of_ok (p := (renameIntent plan _).p) rfl hok

theorem crashConsistent_renameFile {newFilename : String} (team : server.localWorkspace = false)
    (hplan : planRename s.db fileId newFilename (boundPath server.toServer) = .ok plan)
    (alone : Alone plan.row.id plan.row.nodeId [plan.oldRemotePath, plan.newRemotePath] s.db) :
    (Errand.relocate (renameIntent plan (renameAudit server.toServer plan answers.now))).Consistent
      server answers s := by
  have hbound := (planRename_parts hplan).2.2.1
  have hpath := boundPath_eq_ok hbound
  obtain ⟨name, hname⟩ : ∃ name, plan.row.remoteName = some name := by
    unfold boundPath at hbound
    rw [hpath] at hbound
    cases hname : plan.row.remoteName with
    | none => simp [team, hname] at hbound
    | some name => exact ⟨name, rfl⟩
  have sound : (renameIntent plan (renameAudit server.toServer plan answers.now)).Sound s.db :=
    renameIntent_sound hplan hname hpath
  refine sound.consistent alone transferable_renameIntent fun _ => ?_
  have htells : TellsOf (renameAudit server.toServer plan answers.now) answers.now
      plan.row.nodeId plan.oldRemotePath plan.row.id := tellsOf_renameAudit plan hpath _ hpath
  exact Intent.told_of_audits (List.mem_singleton_self _) htells

theorem Removal.Sound.consistent_iff (sound : d.Sound s.db)
    (undisturbed : (Errand.remove d).Undisturbed s) :
    (Errand.remove d).Consistent server answers s ↔
      (d.row.remoteName = none → ∀ path, d.row.remotePath = some path →
        HasTombstone s.db d.row.nodeId path d.row.id) := by
  cases hbound : d.bound with
  | some place =>
    obtain ⟨name, path⟩ := place
    refine iff_of_true (sound.consistent_of_bound hbound undisturbed.alone
      (undisturbed.unclaimed name path (sound.bound ▸ hbound))) fun hname => ?_
    cases hname.symm.trans (sound.bound_path hbound).1
  | none =>
    rw [Removal.consistent_of_unbound_iff hbound undisturbed.alone]
    refine ⟨fun told _ => told, fun told path hpath => told ?_ path hpath⟩
    cases hname : d.row.remoteName with
    | none => rfl
    | some name =>
      have hplace := bindingOf_eq_some.mpr ⟨hname, hpath⟩
      cases hbound.symm.trans (sound.bound.trans hplace)

/-- Undisturbed, a call on a team server is crash consistent exactly if what it leaves to
luck is covered. -/
theorem crashConsistent_iff {call : FileCall} (team : server.localWorkspace = false)
    (undisturbed : ∀ answers errand, call.errand server.toServer answers s.db = some errand →
      errand.Undisturbed s) :
    CrashConsistent server s call ↔ call.Covered server s := by
  unfold CrashConsistent
  cases call with
  | moveFile a =>
    simp only [FileCall.errand, FileCall.Covered] at undisturbed ⊢
    cases hplan : planMove server.toServer s.db a with
    | error message => simp [Except.toOption]
    | ok plan =>
      simp only [hplan, Except.toOption, Option.map_some, Option.some.injEq,
        forall_eq'] at undisturbed ⊢
      refine (crashConsistent_moveFile_iff team hplan fun answers =>
        (undisturbed answers).alone).trans ?_
      simp
  | renameFile fileId newFilename =>
    simp only [FileCall.errand, FileCall.Covered] at undisturbed ⊢
    refine iff_of_true (fun answers errand h => ?_) trivial
    obtain ⟨plan, hplan, rfl⟩ := Option.map_eq_some_iff.mp h
    have hok : planRename s.db fileId newFilename (boundPath server.toServer) = .ok plan := by
      cases hresult : planRename s.db fileId newFilename (boundPath server.toServer) with
      | error message => simp [hresult, Except.toOption] at hplan
      | ok plan' => rw [hresult] at hplan; exact congrArg _ (Option.some.inj hplan)
    exact crashConsistent_renameFile team hok (undisturbed answers _ h).alone
  | renameFileRemote fileId newFilename =>
    simp only [FileCall.errand, FileCall.Covered] at undisturbed ⊢
    cases hplan : planRename s.db fileId newFilename boundRemote with
    | error message => simp [Except.toOption]
    | ok plan =>
      simp only [hplan, Except.toOption, Option.map_some, Option.some.injEq,
        forall_eq'] at undisturbed ⊢
      refine (crashConsistent_renameFileRemote_iff hplan (undisturbed noFailures).alone).trans ?_
      simp
  | deleteFile fileId =>
    simp only [FileCall.errand, FileCall.Covered] at undisturbed ⊢
    cases hrow : s.db.fileById fileId with
    | none => simp
    | some r =>
      have hself : s.db.fileById r.id = some r := (fileById_eq_some hrow).2 ▸ hrow
      simp only [hrow, Option.map_some, Option.some.injEq, forall_eq'] at undisturbed ⊢
      have hiff : ∀ answers,
          (Errand.remove (deleteRemoval server.toServer answers r)).Consistent server answers s ↔
            (r.remoteName = none → ∀ path, r.remotePath = some path →
              HasTombstone s.db r.nodeId path r.id) :=
        fun answers => (deleteRemoval_sound hself).consistent_iff (undisturbed answers)
      exact ⟨fun h => (hiff noFailures).mp (h noFailures), fun h answers => (hiff answers).mpr h⟩
  | deleteFileRemote nodeId fileId =>
    simp only [FileCall.errand, FileCall.Covered] at undisturbed ⊢
    cases hrow : s.db.fileById fileId with
    | none => simp
    | some r =>
      have hself : s.db.fileById r.id = some r := (fileById_eq_some hrow).2 ▸ hrow
      simp only [hrow, Option.map_some, Option.some.injEq, forall_eq'] at undisturbed ⊢
      have hnode : nodeId.getD r.nodeId = r.nodeId := (undisturbed noFailures).node
      rw [hnode] at undisturbed ⊢
      have hiff : ∀ answers, (Errand.remove
          (deleteRemoteRemoval server.toServer answers r.nodeId r)).Consistent server answers s ↔
            (r.remoteName = none → ∀ path, r.remotePath = some path →
              HasTombstone s.db r.nodeId path r.id) :=
        fun answers => (deleteRemoteRemoval_sound hself).consistent_iff (undisturbed answers)
      exact ⟨fun h => (hiff noFailures).mp (h noFailures), fun h answers => (hiff answers).mpr h⟩

def sampleSync : SyncServer Bool where
  toServer := sampleServer
  hashing := Content.sampleHashing
  backend _ := .drive

def sampleStore : Store Bool where
  db := onePushedFile
  objects name path :=
    if name = "drive" ∧ path = ["org", "projects", "key", "wip", "old.md"] then
      some ⟨true, false, some "drive-0"⟩
    else none

theorem alone_onePushedFile {paths : List RemotePath} : Alone 0 "node" paths onePushedFile where
  keyed := keyed_onePushedFile
  ops _ h := absurd h List.not_mem_nil
  file _ h := absurd h List.not_mem_nil
  paths _ h := absurd h List.not_mem_nil

theorem crashConsistent_deleteFile : CrashConsistent sampleSync sampleStore (.deleteFile 0) := by
  refine (crashConsistent_iff rfl fun answers errand h => ?_).mpr fun r hr hname => ?_
  · obtain rfl : Errand.remove (deleteRemoval sampleServer answers (pushedFile "old.md")) = errand :=
      Option.some.inj h
    refine ⟨alone_onePushedFile, rfl, fun name path _ r hr hid => ?_⟩
    obtain rfl := List.mem_singleton.mp hr
    exact absurd rfl hid
  · obtain rfl : pushedFile "old.md" = r := Option.some.inj hr
    cases hname

/-- A rename on the remote runs to its end, and no tombstone tells of the old path. -/
theorem not_crashConsistent_renameFileRemote :
    ¬ CrashConsistent sampleSync sampleStore (.renameFileRemote 0 "new.md") := by
  have hplan : planRename onePushedFile 0 "new.md" boundRemote =
      .ok ⟨pushedFile "old.md", ["org", "projects", "key", "wip", "old.md"], "new.md",
        ["org", "projects", "key", "wip", "new.md"]⟩ := by rfl
  intro consistent
  have hiff : (∀ answers, (Errand.relocate (renameIntent _ _)).Consistent sampleSync answers
      sampleStore) ↔ _ := crashConsistent_renameFileRemote_iff hplan alone_onePushedFile
  have hcovered := hiff.mp fun answers => consistent answers _ rfl
  rcases hcovered with hsame | ⟨-, hsame⟩ | ⟨row, hrow, -⟩
  · revert hsame
    decide
  · revert hsame
    decide
  · exact absurd hrow List.not_mem_nil

end Portuni.CrashSafety
