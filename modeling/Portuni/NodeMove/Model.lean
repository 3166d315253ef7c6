import Portuni.Files.Model

namespace Portuni.NodeMove

/-!
Moving a node to another organization: its `belongs_to` edge is rebound in place,
and each of its files that lies under the old root is renamed on its remote, one
after the other.
-/

section

open Files

structure GraphNode where
  type : String
  syncKey : String

/-- A `belongs_to` edge to an organization. -/
structure Membership where
  edgeId : String
  orgId : String

structure Graph where
  nodes : String → Option GraphNode
  membership : String → Option Membership
  orgExists : ∀ {nodeId m}, membership nodeId = some m → (nodes m.orgId).isSome

def Graph.nodeInfo (g : Graph) (nodeId : String) : Option NodeInfo :=
  (g.nodes nodeId).map fun node =>
    if node.type = "organization" then ⟨some node.syncKey, node.type, node.syncKey⟩
    else
      ⟨((g.membership nodeId).bind fun m => g.nodes m.orgId).map (·.syncKey), node.type,
        node.syncKey⟩

def Graph.rebind (g : Graph) (nodeId newOrgId : String) (hexists : (g.nodes newOrgId).isSome) :
    Graph :=
  { g with
    membership := fun id =>
      if id = nodeId then (g.membership id).map fun m => { m with orgId := newOrgId }
      else g.membership id
    orgExists := by
      intro id m hm
      split at hm
      · obtain ⟨old, -, rfl⟩ := Option.map_eq_some_iff.mp hm
        exact hexists
      · exact g.orgExists hm }

/-- The objects on the remotes: whose content lies at a path of a remote. A record has
its content at one place. -/
structure RemoteObjects where
  held : String → RemotePath → Option ℕ
  unique : ∀ {name path name' path' id}, held name path = some id → held name' path' = some id →
    name = name' ∧ path = path'

/-- The object at `source` comes to lie at `target`, in place of what was there. -/
def RemoteObjects.rename (o : RemoteObjects) (remote : String) (source target : RemotePath) :
    RemoteObjects :=
  match h : o.held remote source with
  | none => o
  | some id =>
    { held := fun name path =>
        if name = remote ∧ path = target then some id
        else if name = remote ∧ path = source then none
        else o.held name path
      unique := by
        have hother : ∀ {name path},
            (if name = remote ∧ path = source then none else o.held name path) = some id →
              False := by
          intro name path hheld
          split at hheld
          · cases hheld
          · rename_i hne
            exact hne (o.unique hheld h)
        intro name path name' path' x hx hx'
        split at hx
        · rename_i hat
          cases hx
          split at hx'
          · rename_i hat'
            exact ⟨hat.1.trans hat'.1.symm, hat.2.trans hat'.2.symm⟩
          · exact (hother hx').elim
        · split at hx'
          · cases hx'
            exact (hother hx).elim
          · split at hx
            · cases hx
            · split at hx'
              · cases hx'
              · exact o.unique hx hx' }

/-- What a call of `adapter.rename` comes to: a failed one may have taken effect. -/
inductive RenameAnswer where
  | done
  | failed (message : String) (tookEffect : Bool)
deriving DecidableEq

structure MoveServer where
  userId : String
  localWorkspace : Bool
  /-- The routing table: the remote for a node type and an organization. -/
  routing : String → Option String → Option String
  now : ℕ
  /-- The answer of the adapter for each file. -/
  rename : ℕ → RenameAnswer

def MoveServer.resolveRemote (server : MoveServer) (nodeType : String) (orgSlug : Option String) :
    Option String :=
  if server.localWorkspace then none else server.routing nodeType orgSlug

inductive EdgeErrorCode where
  | nodeNotFound
  | organizationNotFound
  | moveSourceIsOrganization
  | moveTargetNotOrganization
  | moveRemoteMismatch

/-- An `EdgeError`, or a plain `Error` where there is no code. -/
structure MoveError where
  code : Option EdgeErrorCode
  message : String
  params : List (String × String)

structure MigratedFile where
  fileId : ℕ
  remoteName : Option String
  oldRemotePath : RemotePath
  newRemotePath : RemotePath

def tracked (db : Database) (nodeId : String) : List (FileRow × RemotePath) :=
  db.files.filterMap fun r =>
    if r.nodeId = nodeId then r.remotePath.map fun path => (r, path) else none

/-- Where the file goes: below the new root as it was below the old one. One that is not
under the old root stays. -/
def migratedFile (oldRoot newRoot : RemotePath) (r : FileRow) (path : RemotePath) : MigratedFile :=
  { fileId := r.id
    remoteName := r.remoteName
    oldRemotePath := path
    newRemotePath :=
      match below oldRoot path with
      | some rest => newRoot ++ rest
      | none => path }

def remoteText (remoteName : Option String) : String := remoteName.getD "null"

def remoteMismatch (nodeId newOrgId remoteName targetRemote : String) : MoveError :=
  { code := some .moveRemoteMismatch
    message := "cannot move node " ++ nodeId ++ " to organization " ++ newOrgId ++
      ": its files live on remote " ++ remoteName.quote ++
      " but the new organization routes to remote " ++ targetRemote.quote ++
      ". Move the files individually (portuni_move_file) or adjust the routing first."
    params := [("remoteName", remoteName), ("targetRemote", targetRemote)] }

/-- The migration, unless a file lives on another remote than the new organization's. -/
def planMigration (server : MoveServer) (g : Graph) (db : Database) (nodeId newOrgId : String)
    (newOrg : GraphNode) : Except MoveError (List MigratedFile) :=
  match tracked db nodeId with
  | [] => .ok []
  | rows =>
    match g.nodeInfo nodeId with
    | none => .error ⟨none, "Node " ++ nodeId ++ " not found", []⟩
    | some oldInfo =>
      match buildNodeRoot oldInfo, buildNodeRoot { oldInfo with orgSyncKey := some newOrg.syncKey } with
      | .ok oldRoot, .ok newRoot =>
        let migration := rows.map fun (r, path) => migratedFile oldRoot newRoot r path
        match server.resolveRemote oldInfo.nodeType (some newOrg.syncKey) with
        | none => .ok migration
        | some targetRemote =>
          match migration.find? (·.remoteName ≠ some targetRemote) with
          | some f =>
            .error (remoteMismatch nodeId newOrgId (remoteText f.remoteName) targetRemote)
          | none => .ok migration
      | .error message, _ => .error ⟨none, message, []⟩
      | _, .error message => .error ⟨none, message, []⟩

structure Migration where
  db : Database
  objects : RemoteObjects
  migrated : ℕ
  repairNeeded : List (ℕ × String)

def leftUnchanged (path : RemotePath) : String :=
  "remote_path did not start with the old node root; left unchanged (" ++
    String.intercalate "/" path ++ ")"

/-- The remote step: the objects after it, and why it failed. A record without a remote
has no adapter. -/
def renameOnRemote (server : MoveServer) (objects : RemoteObjects) (f : MigratedFile) :
    RemoteObjects × Option String :=
  if server.localWorkspace then (objects, none)
  else
    match f.remoteName with
    | none => (objects, some "Error: Unknown remote: null")
    | some remote =>
      match server.rename f.fileId with
      | .done => (objects.rename remote f.oldRemotePath f.newRemotePath, none)
      | .failed message tookEffect =>
        (if tookEffect then objects.rename remote f.oldRemotePath f.newRemotePath else objects,
          some message)

/-- `UPDATE files SET remote_path = ?`, refused where `idx_files_unique_remote` has the
path already. -/
def Migration.updateRow (s : Migration) (nodeId : String) (f : MigratedFile) : Migration :=
  if s.db.taken nodeId f.newRemotePath then
    { s with repairNeeded := s.repairNeeded ++
        [(f.fileId, "UNIQUE constraint failed: files.node_id, files.remote_path")] }
  else
    { s with
      db := s.db.updateFile f.fileId fun r => { r with remotePath := some f.newRemotePath }
      migrated := s.migrated + 1 }

def migrate (server : MoveServer) (nodeId : String) (s : Migration) (f : MigratedFile) :
    Migration :=
  if f.oldRemotePath = f.newRemotePath then
    { s with repairNeeded := s.repairNeeded ++ [(f.fileId, leftUnchanged f.oldRemotePath)] }
  else
    match renameOnRemote server s.objects f with
    | (objects, some message) =>
      { s with objects, repairNeeded := s.repairNeeded ++ [(f.fileId, message)] }
    | (objects, none) => { s with objects }.updateRow nodeId f

structure MoveNodeResult where
  moved : Bool
  edgeId : String
  fromOrgId : String
  toOrgId : String
  filesMigrated : ℕ
  filesRepairNeeded : List (ℕ × String)

def moveNodeAudit (server : MoveServer) (nodeId : String) (result : MoveNodeResult) : AuditRow where
  userId := server.userId
  action := .moveNode
  target := .node nodeId
  detail :=
    [("edge_id", .text result.edgeId), ("from_org_id", .text result.fromOrgId),
      ("to_org_id", .text result.toOrgId), ("files_migrated", .number result.filesMigrated),
      ("files_repair_needed", .number result.filesRepairNeeded.length)]
  timestamp := server.now

structure MoveNodeOutcome where
  graph : Graph
  db : Database
  objects : RemoteObjects
  result : MoveNodeResult

def moveNodeToOrganization (server : MoveServer) (g : Graph) (db : Database)
    (objects : RemoteObjects) (nodeId newOrgId : String) : Except MoveError MoveNodeOutcome :=
  match g.nodes nodeId with
  | none => .error ⟨some .nodeNotFound, "node " ++ nodeId ++ " not found", [("nodeId", nodeId)]⟩
  | some node =>
    if node.type = "organization" then
      .error ⟨some .moveSourceIsOrganization, "node " ++ nodeId ++
        " is an organization; organizations cannot belong to another organization",
        [("nodeId", nodeId)]⟩
    else
      match hnew : g.nodes newOrgId with
      | none =>
        .error ⟨some .organizationNotFound, "organization " ++ newOrgId ++ " not found",
          [("organizationId", newOrgId)]⟩
      | some newOrg =>
        if newOrg.type ≠ "organization" then
          .error ⟨some .moveTargetNotOrganization, "target " ++ newOrgId ++
            " is not an organization (type: " ++ newOrg.type ++ ")",
            [("targetId", newOrgId), ("type", newOrg.type)]⟩
        else
          match g.membership nodeId with
          | none =>
            .error ⟨none, "node " ++ nodeId ++
              " has no organization membership; integrity invariant violated", []⟩
          | some m =>
            if m.orgId = newOrgId then
              .ok ⟨g, db, objects, ⟨false, m.edgeId, m.orgId, newOrgId, 0, []⟩⟩
            else
              match planMigration server g db nodeId newOrgId newOrg with
              | .error e => .error e
              | .ok migration =>
                let final := migration.foldl (migrate server nodeId) ⟨db, objects, 0, []⟩
                let result : MoveNodeResult :=
                  ⟨true, m.edgeId, m.orgId, newOrgId, final.migrated, final.repairNeeded⟩
                .ok ⟨g.rebind nodeId newOrgId (by simp [hnew]),
                  final.db.insertAudit (moveNodeAudit server nodeId result), final.objects, result⟩

end

open Files Files.Database

def migrationOf (server : MoveServer) (g : Graph) (db : Database) (nodeId newOrgId : String) :
    List MigratedFile :=
  match g.nodes newOrgId with
  | some newOrg => (planMigration server g db nodeId newOrgId newOrg).toOption.getD []
  | none => []

/-- The remote step of the file passes, so that its row is written next. -/
def passesRemote (server : MoveServer) (f : MigratedFile) : Bool :=
  server.localWorkspace || f.remoteName.isSome && decide (server.rename f.fileId = .done)

def writesRow (server : MoveServer) (db : Database) (nodeId : String) (f : MigratedFile) : Bool :=
  decide (f.oldRemotePath ≠ f.newRemotePath) && passesRemote server f &&
    !db.taken nodeId f.newRemotePath

def RenameAnswer.tookEffect : RenameAnswer → Bool
  | .done => true
  | .failed _ tookEffect => tookEffect

def renamesObject (server : MoveServer) (f : MigratedFile) : Bool :=
  decide (f.oldRemotePath ≠ f.newRemotePath) && !server.localWorkspace && f.remoteName.isSome &&
    (server.rename f.fileId).tookEffect

def UniquePaths (db : Database) : Prop :=
  ∀ r ∈ db.files, ∀ r' ∈ db.files, r.nodeId = r'.nodeId → ∀ path, r.remotePath = some path →
    r'.remotePath = some path → r = r'

/-- What the files of a migration have to do with each other and with their records. -/
structure Planned (db : Database) (nodeId : String) (newRoot : RemotePath)
    (migration : List MigratedFile) : Prop where
  row : ∀ f ∈ migration, ∃ r ∈ db.files, r.id = f.fileId ∧ r.nodeId = nodeId ∧
    r.remoteName = f.remoteName ∧ r.remotePath = some f.oldRemotePath
  file : ∀ r ∈ db.files, r.nodeId = nodeId → ∀ path, r.remotePath = some path →
    ∃ f ∈ migration, f.fileId = r.id ∧ f.oldRemotePath = path ∧ f.remoteName = r.remoteName
  ids : (migration.map (·.fileId)).Nodup
  old : ∀ f ∈ migration, ∀ f' ∈ migration, f.oldRemotePath = f'.oldRemotePath → f = f'
  new : ∀ f ∈ migration, ∀ f' ∈ migration, f.oldRemotePath ≠ f.newRemotePath →
    f'.oldRemotePath ≠ f'.newRemotePath → f.newRemotePath = f'.newRemotePath → f = f'
  apart : ∀ f ∈ migration, ∀ f' ∈ migration, f.oldRemotePath ≠ f.newRemotePath →
    f'.oldRemotePath ≠ f'.newRemotePath → f.newRemotePath ≠ f'.oldRemotePath
  below : ∀ f ∈ migration, f.oldRemotePath ≠ f.newRemotePath →
    (below newRoot f.newRemotePath).isSome

variable {db : Database} {nodeId : String} {oldRoot newRoot : RemotePath}

theorem mem_tracked {r : FileRow} {path : RemotePath} : (r, path) ∈ tracked db nodeId ↔
      r ∈ db.files ∧ r.nodeId = nodeId ∧ r.remotePath = some path := by
  simp only [tracked, List.mem_filterMap]
  constructor
  · rintro ⟨r', hr', hsome⟩
    split at hsome
    · rename_i hnode
      obtain ⟨path', hpath, heq⟩ := Option.map_eq_some_iff.mp hsome
      obtain ⟨rfl, rfl⟩ := Prod.mk.inj heq
      exact ⟨hr', hnode, hpath⟩
    · cases hsome
  · rintro ⟨hr, hnode, hpath⟩
    exact ⟨r, hr, by simp [hnode, hpath]⟩

theorem tracked_ids (keyed : db.Keyed) : ((tracked db nodeId).map (·.1.id)).Nodup := by
  have hsub : ((tracked db nodeId).map (·.1.id)).Sublist (db.files.map (·.id)) := by
    unfold tracked
    rw [List.map_filterMap]
    induction db.files with
    | nil => exact List.Sublist.refl _
    | cons r files ih =>
      rw [List.filterMap_cons, List.map_cons]
      split
      · exact ih.cons _
      · rename_i id hid
        obtain ⟨pair, hpair, rfl⟩ := Option.map_eq_some_iff.mp hid
        split at hpair
        · obtain ⟨path, -, rfl⟩ := Option.map_eq_some_iff.mp hpair
          exact ih.cons_cons _
        · cases hpair
  exact hsub.nodup keyed.nodup

variable {f f' : MigratedFile}

variable (hf : f ∈ (tracked db nodeId).map fun p => migratedFile oldRoot newRoot p.1 p.2)

include hf

theorem exists_row_of_planned :
    ∃ r ∈ db.files, r.nodeId = nodeId ∧ r.remotePath = some f.oldRemotePath ∧
      f = migratedFile oldRoot newRoot r f.oldRemotePath := by
  obtain ⟨⟨r, path⟩, hr, rfl⟩ := List.mem_map.mp hf
  obtain ⟨hr, hnode, hpath⟩ := mem_tracked.mp hr
  exact ⟨r, hr, hnode, hpath, rfl⟩

theorem exists_rest_of_planned (hmoves : f.oldRemotePath ≠ f.newRemotePath) :
    ∃ rest, rest ≠ [] ∧ f.oldRemotePath = oldRoot ++ rest ∧ f.newRemotePath = newRoot ++ rest := by
  obtain ⟨r, -, -, -, heq⟩ := exists_row_of_planned hf
  have hnew := congrArg MigratedFile.newRemotePath heq
  simp only [migratedFile] at hnew
  split at hnew
  · rename_i rest hrest
    obtain ⟨hpath, hne⟩ := below_eq_some hrest
    exact ⟨rest, hne, hpath, hnew⟩
  · exact absurd hnew.symm hmoves

omit hf

theorem planned_unique (unique : UniquePaths db)
    (hf : f ∈ (tracked db nodeId).map fun p => migratedFile oldRoot newRoot p.1 p.2)
    (hf' : f' ∈ (tracked db nodeId).map fun p => migratedFile oldRoot newRoot p.1 p.2)
    (heq : f.oldRemotePath = f'.oldRemotePath) : f = f' := by
  obtain ⟨r, hr, hnode, hpath, hfile⟩ := exists_row_of_planned hf
  obtain ⟨r', hr', hnode', hpath', hfile'⟩ := exists_row_of_planned hf'
  rw [← heq] at hpath' hfile'
  obtain rfl := unique r hr r' hr' (hnode.trans hnode'.symm) _ hpath hpath'
  exact hfile.trans hfile'.symm

theorem planned_of_map (keyed : db.Keyed) (unique : UniquePaths db)
    (hlength : oldRoot.length = newRoot.length) :
    Planned db nodeId newRoot
      ((tracked db nodeId).map fun p => migratedFile oldRoot newRoot p.1 p.2) where
  row f hf := by
    obtain ⟨r, hr, hnode, hpath, hfile⟩ := exists_row_of_planned hf
    exact ⟨r, hr, by rw [hfile]; rfl, hnode, by rw [hfile]; rfl, hpath⟩
  file r hr hnode path hpath :=
    ⟨_, List.mem_map_of_mem (mem_tracked.mpr ⟨hr, hnode, hpath⟩), rfl, rfl, rfl⟩
  ids := by
    rw [List.map_map]
    exact tracked_ids keyed
  old f hf f' hf' heq := planned_unique unique hf hf' heq
  new f hf f' hf' hmoves hmoves' heq := by
    obtain ⟨rest, -, hold, hnew⟩ := exists_rest_of_planned hf hmoves
    obtain ⟨rest', -, hold', hnew'⟩ := exists_rest_of_planned hf' hmoves'
    rw [hnew, hnew'] at heq
    obtain rfl := List.append_cancel_left heq
    exact planned_unique unique hf hf' (hold.trans hold'.symm)
  apart f hf f' hf' hmoves hmoves' heq := by
    obtain ⟨rest, -, hold, hnew⟩ := exists_rest_of_planned hf hmoves
    obtain ⟨rest', -, hold', -⟩ := exists_rest_of_planned hf' hmoves'
    rw [hnew, hold'] at heq
    have hroot := (List.append_inj heq hlength.symm).1
    exact hmoves (by rw [hold, hnew, hroot])
  below f hf hmoves := by
    obtain ⟨rest, hne, -, hnew⟩ := exists_rest_of_planned hf hmoves
    rw [hnew, below_append newRoot hne]
    rfl

end Portuni.NodeMove
