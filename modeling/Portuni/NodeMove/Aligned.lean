import Portuni.NodeMove.Progress
import Portuni.Tombstones.Fitting

/-!
When a move between organizations keeps records, objects and devices aligned: it writes
no tombstone, so a record may leave its path only where one tells of that already.
-/

namespace Portuni.NodeMove

open Files Files.Database FileOps Tombstones

universe u

def Stands (objects : RemoteObjects) (r : FileRow) : Prop :=
  ∃ name path, r.remoteName = some name ∧ r.remotePath = some path ∧
    objects.held name path = some r.id

/-- Both queries find a row that says the file moved away from the path and lives on. -/
def MoveTombstone (order : NewestFirst) (readAt : ℕ) (db : Database) (nodeId : String)
    (path : RemotePath) (fileId : ℕ) : Prop :=
  ∃ row ∈ localTombstoneRows order db nodeId [path], row ∈ syncInfoRows order readAt db nodeId ∧
    row.fileId? = some fileId ∧ row.auditRemotePath = some path ∧
    (row.action = .syncMove ∨ row.action = .syncRename)

/-- Every record of the moved node lies under its new root or is reported, an object that lay
where its record said still does, and every path that a record left has a tombstone, so
that no device takes its copy there for a new file. -/
structure KeepsAligned (Bytes : Type u) (order : NewestFirst) (readAt : ℕ) (db : Database)
    (objects : RemoteObjects) (nodeId : String) (out : MoveNodeOutcome) : Prop where
  underRoot : ∀ info root, out.graph.nodeInfo nodeId = some info → buildNodeRoot info = .ok root →
    ∀ r ∈ out.db.files, r.nodeId = nodeId → ∀ path, r.remotePath = some path →
      (below root path).isSome ∨ r.id ∈ out.result.filesRepairNeeded.map (·.1)
  objects : ∀ r ∈ db.files, r.nodeId = nodeId → Stands objects r →
    ∀ r' ∈ out.db.files, r'.id = r.id → Stands out.objects r'
  tombstones : ∀ path fileId, TakenOff db.files out.db.files nodeId path fileId →
    MoveTombstone order readAt out.db nodeId path fileId ∧
      NeverNewLocal Bytes order readAt out.db nodeId path fileId

def MigratedFile.HasObject (objects : RemoteObjects) (f : MigratedFile) : Prop :=
  ∃ name, f.remoteName = some name ∧ objects.held name f.oldRemotePath = some f.fileId

/-- No object that is carried along comes to lie in the place of another record's. -/
def NoneReplaced (server : MoveServer) (db : Database) (objects : RemoteObjects)
    (nodeId : String) (migration : List MigratedFile) : Prop :=
  ∀ f ∈ migration, ∀ name id, Carries server objects f name id → ∀ r ∈ db.files,
    r.nodeId = nodeId → r.remoteName = some name → r.remotePath = some f.newRemotePath →
      objects.held name f.newRemotePath ≠ some r.id

/-- Every row that is written has its tombstone already, row and object of a file move
together, and no object is put in the place of another record's. -/
structure StaysAligned (order : NewestFirst) (readAt : ℕ) (server : MoveServer) (db : Database)
    (objects : RemoteObjects) (nodeId : String) (migration : List MigratedFile) : Prop where
  told : ∀ f ∈ migration, writesRow server db nodeId f = true →
    MoveTombstone order readAt db nodeId f.oldRemotePath f.fileId
  inStep : ∀ f ∈ migration, f.HasObject objects →
    writesRow server db nodeId f = renamesObject server f
  noneReplaced : NoneReplaced server db objects nodeId migration

variable {Bytes : Type u} {order : NewestFirst} {readAt : ℕ} {server : MoveServer} {g : Graph}
  {db db' : Database} {objects : RemoteObjects} {nodeId newOrgId : String} {out : MoveNodeOutcome}
  {newRoot : RemotePath} {migration : List MigratedFile} {path : RemotePath} {fileId : ℕ}

theorem moveTombstone_insert {row : AuditRow} (hlog : db'.auditLog = db.auditLog ++ [row])
    (hrow : row.fileId? = none) :
    MoveTombstone order readAt db' nodeId path fileId ↔
      MoveTombstone order readAt db nodeId path fileId := by
  have hunread : ∀ actions, reads actions nodeId row = false := by simp [reads, hrow]
  have hlocal : localTombstoneRows order db' nodeId [path] =
      localTombstoneRows order db nodeId [path] := by
    simp [localTombstoneRows, hlog, List.filter_append, hunread]
  have hcentral : syncInfoRows order readAt db' nodeId = syncInfoRows order readAt db nodeId := by
    simp [syncInfoRows, recentTombstones, hlog, List.filter_append, hunread]
  simp only [MoveTombstone, hlocal, hcentral]

theorem exists_file_of_stands (planned : Planned db nodeId newRoot migration) {r : FileRow}
    (hr : r ∈ db.files) (hnode : r.nodeId = nodeId) (hstands : Stands objects r) :
    ∃ f ∈ migration, r.id = f.fileId ∧ r.remoteName = f.remoteName ∧
      r.remotePath = some f.oldRemotePath ∧ f.HasObject objects := by
  obtain ⟨name, path, hname, hpath, hheld⟩ := hstands
  obtain ⟨f, hf, hid, rfl, hremote⟩ := planned.file r hr hnode path hpath
  exact ⟨f, hf, hid.symm, hremote.symm, hpath, name, hremote.trans hname, by rw [hid]; exact hheld⟩

section

variable {node newOrg : GraphNode} {m : Membership} {final : Migration}
  (moved : Moved server g db objects nodeId newOrgId out node newOrg m final)

include moved

theorem Moved.progress (keyed : db.Keyed) (planned : Planned db nodeId newRoot
    (migrationOf server g db nodeId newOrgId)) :
    Progress server db objects nodeId (migrationOf server g db nodeId newOrgId) final := by
  rw [moved.loop]
  exact progress_foldl keyed planned

theorem Moved.moveTombstone_iff (progress : Progress server db objects nodeId migration final) :
    MoveTombstone order readAt out.db nodeId path fileId ↔
      MoveTombstone order readAt db nodeId path fileId := by
  refine @moveTombstone_insert order readAt db out.db nodeId path fileId
    (moveNodeAudit server nodeId out.result) ?_ rfl
  rw [moved.db, insertAudit, progress.log]

theorem Moved.mem_files (progress : Progress server db objects nodeId migration final)
    {r' : FileRow} : r' ∈ out.db.files ↔
      ∃ r ∈ db.files, rowAfter server db nodeId migration r = r' := by
  rw [moved.db, insertAudit, progress.files, List.mem_map]

theorem Moved.takenOff_iff (keyed : db.Keyed) (planned : Planned db nodeId newRoot migration)
    (progress : Progress server db objects nodeId migration final) :
    TakenOff db.files out.db.files nodeId path fileId ↔
      ∃ f ∈ migration, writesRow server db nodeId f = true ∧ f.fileId = fileId ∧
        f.oldRemotePath = path := by
  constructor
  · intro taken
    obtain ⟨r, hr, rfl, hnode, hpath⟩ := taken.stood
    obtain ⟨f, hf, hid, hold, -⟩ := planned.file r hr hnode path hpath
    refine ⟨f, hf, ?_, hid, hold⟩
    by_contra hskips
    refine taken.left r ((moved.mem_files progress).mpr ⟨r, hr, rowAfter_of_not ?_⟩) rfl hpath
    intro f' hf' hid'
    rw [List.inj_on_of_nodup_map planned.ids hf' hf (hid'.trans hid.symm)]
    simpa using hskips
  · rintro ⟨f, hf, hwrites, rfl, rfl⟩
    obtain ⟨r, hr, hid, hnode, -, hpath⟩ := planned.row f hf
    have hafter := rowAfter_of_writes planned hf hwrites hid.symm
    refine ⟨⟨r, hr, hid, hnode, hpath⟩, ?_, .inl ⟨_, (moved.mem_files progress).mpr ⟨r, hr, rfl⟩, ?_⟩⟩
    · intro r' hr' hid' hpath'
      obtain ⟨r₀, hr₀, rfl⟩ := (moved.mem_files progress).mp hr'
      rw [rowAfter_id] at hid'
      obtain rfl := keyed.unique hr₀ hr (hid'.trans hid.symm)
      rw [hafter] at hpath'
      exact oldRemotePath_ne_of_writesRow hwrites (Option.some.inj hpath').symm
    · rw [rowAfter_id, hid]

variable (planned : Planned db nodeId newRoot migration)

include planned

variable (progress : Progress server db objects nodeId migration final)

include progress

theorem Moved.underRoot {r' : FileRow} (hr' : r' ∈ out.db.files) (hnode : r'.nodeId = nodeId)
    (hpath : r'.remotePath = some path) :
    ∃ f ∈ migration, (below newRoot path).isSome ∨
      r'.id ∈ out.result.filesRepairNeeded.map (·.1) := by
  obtain ⟨r, hr, rfl⟩ := (moved.mem_files progress).mp hr'
  rw [rowAfter_nodeId] at hnode
  by_cases hwritten : ∃ f ∈ migration, f.fileId = r.id ∧ writesRow server db nodeId f = true
  · obtain ⟨f, hf, hid, hwrites⟩ := hwritten
    rw [rowAfter_of_writes planned hf hwrites hid] at hpath
    cases hpath
    exact ⟨f, hf, .inl (planned.below f hf (oldRemotePath_ne_of_writesRow hwrites))⟩
  · have hskips : ∀ f ∈ migration, f.fileId = r.id → writesRow server db nodeId f = false :=
      fun f hf hid => by simpa using fun hwrites => hwritten ⟨f, hf, hid, hwrites⟩
    rw [rowAfter_of_not hskips] at hpath ⊢
    obtain ⟨f, hf, hid, -⟩ := planned.file r hr hnode path hpath
    refine ⟨f, hf, .inr ?_⟩
    rw [moved.repairNeeded, ← hid]
    exact progress.reported f hf (hskips f hf hid)

theorem Moved.stands_iff {f : MigratedFile} (hf : f ∈ migration) {r : FileRow}
    (hid : r.id = f.fileId) (hr : r ∈ db.files) (hnode : r.nodeId = nodeId)
    (hname : r.remoteName = f.remoteName) (hpath : r.remotePath = some f.oldRemotePath)
    (hobject : f.HasObject objects) (hnone : NoneReplaced server db objects nodeId migration) :
    Stands out.objects (rowAfter server db nodeId migration r) ↔
      writesRow server db nodeId f = renamesObject server f := by
  obtain ⟨name, hremote, hheld⟩ := hobject
  have hcarried : renamesObject server f = true → Carries server objects f name f.fileId :=
    fun hrenames => ⟨hrenames, hremote, hheld⟩
  have hsame : ∀ f' ∈ migration, f'.fileId = r.id → f' = f := fun f' hf' hid' =>
    List.inj_on_of_nodup_map planned.ids hf' hf (hid'.trans hid)
  have hkept : ∀ f' ∈ migration, ∀ id, Carries server objects f' name id →
      f'.newRemotePath ≠ f.oldRemotePath := by
    intro f' hf' id hcarries heq
    refine hnone f' hf' name id hcarries r hr hnode (hname.trans hremote) (by rw [hpath, heq]) ?_
    rw [heq, hid, hheld]
  cases hwrites : writesRow server db nodeId f with
  | true =>
    have hmoves := oldRemotePath_ne_of_writesRow hwrites
    have hstands : Stands out.objects (rowAfter server db nodeId migration r) ↔
        final.objects.held name f.newRemotePath = some f.fileId := by
      rw [rowAfter_of_writes planned hf hwrites hid.symm, moved.objects]
      simp [Stands, hname, hremote, hid]
    rw [hstands, progress.held, eq_comm (a := true)]
    constructor
    · rintro (⟨f', hf', hcarries, heq⟩ | ⟨hthere, -⟩)
      · have hmoves' := oldRemotePath_ne_of_renamesObject hcarries.1
        rw [← planned.new f' hf' f hf hmoves' hmoves heq]
        exact hcarries.1
      · exact absurd (objects.unique hheld hthere).2 hmoves
    · exact fun hrenames => .inl ⟨f, hf, hcarried hrenames, rfl⟩
  | false =>
    have hstands : Stands out.objects (rowAfter server db nodeId migration r) ↔
        final.objects.held name f.oldRemotePath = some f.fileId := by
      rw [rowAfter_of_not fun f' hf' hid' => by rw [hsame f' hf' hid', hwrites], moved.objects]
      simp [Stands, hname, hremote, hid, hpath]
    rw [hstands, progress.held, eq_comm (a := false), ← Bool.not_eq_true]
    constructor
    · rintro (⟨f', hf', hcarries, heq⟩ | ⟨-, hoff⟩) hrenames
      · exact hkept f' hf' _ hcarries heq
      · exact (hoff f hf _ (hcarried hrenames)).1 rfl
    · refine fun hstays => .inr ⟨hheld, fun f' hf' id' hcarries => ⟨fun heq => ?_, fun heq => ?_⟩⟩
      · rw [planned.old f' hf' f hf heq] at hcarries
        exact hstays hcarries.1
      · exact hkept f' hf' _ hcarries heq

theorem Moved.noneReplaced (keeps : KeepsAligned Bytes order readAt db objects nodeId out) :
    NoneReplaced server db objects nodeId migration := by
  intro f hf name id hcarries r hr hnode hname hpath hheld
  have hmoves := oldRemotePath_ne_of_renamesObject hcarries.1
  -- The record at the new path is no file that the loop moves.
  have hafter : rowAfter server db nodeId migration r = r := by
    refine rowAfter_of_not fun f' hf' hid => ?_
    obtain ⟨f₀, hf₀, hid₀, hold, -⟩ := planned.file r hr hnode _ hpath
    obtain rfl := List.inj_on_of_nodup_map planned.ids hf' hf₀ (hid.trans hid₀.symm)
    rw [Bool.eq_false_iff]
    intro hwrites
    exact planned.apart f hf f' hf' hmoves (oldRemotePath_ne_of_writesRow hwrites) hold.symm
  obtain ⟨name', path', hname', hpath', hstill⟩ := keeps.objects r hr hnode
    ⟨name, _, hname, hpath, hheld⟩ r ((moved.mem_files progress).mpr ⟨r, hr, hafter⟩) rfl
  obtain rfl := Option.some.inj (hname.symm.trans hname')
  obtain rfl := Option.some.inj (hpath.symm.trans hpath')
  rw [moved.objects, progress.held] at hstill
  rcases hstill with ⟨f', hf', hcarries', heq⟩ | ⟨-, hoff⟩
  · obtain rfl := planned.new f' hf' f hf (oldRemotePath_ne_of_renamesObject hcarries'.1) hmoves heq
    exact hmoves (objects.unique hcarries'.2.2 hheld).2
  · exact (hoff f hf _ hcarries).2 rfl

end

def twoOrganizations : Graph where
  nodes id :=
    if id = "node" then some ⟨"project", "key"⟩
    else if id = "first" then some ⟨"organization", "org"⟩
    else if id = "second" then some ⟨"organization", "acme"⟩
    else none
  membership id := if id = "node" then some ⟨"edge", "first"⟩ else none
  orgExists := by
    intro id m hm
    split at hm
    · cases hm
      rfl
    · cases hm

def oneObject : RemoteObjects where
  held name path :=
    if name = "drive" ∧ path = ["org", "projects", "key", "wip", "old.md"] then some 0 else none
  unique := by
    intro name path name' path' id h h'
    split at h
    · rename_i hat
      split at h'
      · rename_i hat'
        exact ⟨hat.1.trans hat'.1.symm, hat.2.trans hat'.2.symm⟩
      · cases h'
    · cases h

def moveServer (answer : RenameAnswer) : MoveServer where
  userId := "user"
  localWorkspace := false
  routing _ _ := some "drive"
  now := 1000
  rename _ := answer

theorem uniquePaths_onePushedFile : UniquePaths onePushedFile := by
  intro r hr r' hr' _ _ _ _
  rw [List.mem_singleton.mp hr, List.mem_singleton.mp hr']

end Portuni.NodeMove
