import Portuni.NodeMove.Model

namespace Portuni.NodeMove

/-!
The loop over the files of a moved node: which rows it has written, where it has left
the objects, and what it reports.
-/

section

open Files Files.Database

/-- The remote step of `f` carries the object with the content of `id` along. -/
def Carries (server : MoveServer) (objects : RemoteObjects) (f : MigratedFile) (name : String)
    (id : ℕ) : Prop :=
  renamesObject server f = true ∧ f.remoteName = some name ∧
    objects.held name f.oldRemotePath = some id

variable {server : MoveServer} {db : Database} {objects : RemoteObjects} {nodeId : String}
  {newRoot : RemotePath} {migration done rest : List MigratedFile} {f : MigratedFile}
  {s : Migration}

theorem held_rename {o : RemoteObjects} {remote name : String} {source target path : RemotePath}
    {id : ℕ} : (o.rename remote source target).held name path = some id ↔
      (name = remote ∧ path = target ∧ o.held remote source = some id) ∨
        (o.held name path = some id ∧ ∀ id', o.held remote source = some id' → name = remote →
          source ≠ path ∧ target ≠ path) := by
  unfold RemoteObjects.rename
  split
  · rename_i hnone
    simp [hnone]
  · rename_i x hx
    simp only [hx, Option.some.injEq, forall_eq']
    split
    · rename_i hat
      constructor
      · intro hid
        exact .inl ⟨hat.1, hat.2, Option.some.inj hid⟩
      · rintro (⟨-, -, rfl⟩ | ⟨-, hoff⟩)
        · rfl
        · exact absurd hat.2.symm (hoff hat.1).2
    · rename_i hnot
      split
      · rename_i hat
        constructor
        · rintro ⟨⟩
        · rintro (⟨hname, hpath, -⟩ | ⟨-, hoff⟩)
          · exact absurd ⟨hname, hpath⟩ hnot
          · exact absurd hat.2.symm (hoff hat.1).1
      · rename_i hat
        constructor
        · intro hheld
          exact .inr ⟨hheld, fun hname => ⟨fun h => hat ⟨hname, h.symm⟩,
            fun h => hnot ⟨hname, h.symm⟩⟩⟩
        · rintro (⟨hname, hpath, -⟩ | ⟨hheld, -⟩)
          · exact absurd ⟨hname, hpath⟩ hnot
          · exact hheld

def rowAfter (server : MoveServer) (db : Database) (nodeId : String) (done : List MigratedFile)
    (r : FileRow) : FileRow :=
  match done.find? fun f => decide (f.fileId = r.id) && writesRow server db nodeId f with
  | some f => { r with remotePath := some f.newRemotePath }
  | none => r

structure Progress (server : MoveServer) (db : Database) (objects : RemoteObjects)
    (nodeId : String) (done : List MigratedFile) (s : Migration) : Prop where
  files : s.db.files = db.files.map (rowAfter server db nodeId done)
  log : s.db.auditLog = db.auditLog
  held : ∀ name path id, s.objects.held name path = some id ↔
    (∃ f ∈ done, Carries server objects f name id ∧ f.newRemotePath = path) ∨
      (objects.held name path = some id ∧ ∀ f ∈ done, ∀ id', Carries server objects f name id' →
        f.oldRemotePath ≠ path ∧ f.newRemotePath ≠ path)
  reported : ∀ f ∈ done, writesRow server db nodeId f = false → f.fileId ∈ s.repairNeeded.map (·.1)

theorem rowAfter_id (r : FileRow) : (rowAfter server db nodeId done r).id = r.id := by
  unfold rowAfter
  split
  · rfl
  · rfl

theorem rowAfter_nodeId (r : FileRow) : (rowAfter server db nodeId done r).nodeId = r.nodeId := by
  unfold rowAfter
  split
  · rfl
  · rfl

theorem oldRemotePath_ne_of_writesRow (h : writesRow server db nodeId f = true) :
    f.oldRemotePath ≠ f.newRemotePath := by
  simp only [writesRow, Bool.and_eq_true, decide_eq_true_eq] at h
  exact h.1.1

theorem oldRemotePath_ne_of_renamesObject (h : renamesObject server f = true) :
    f.oldRemotePath ≠ f.newRemotePath := by
  simp only [renamesObject, Bool.and_eq_true, decide_eq_true_eq] at h
  exact h.1.1.1

theorem Progress.taken (keyed : db.Keyed) (planned : Planned db nodeId newRoot (done ++ f :: rest))
    (progress : Progress server db objects nodeId done s)
    (hmoves : f.oldRemotePath ≠ f.newRemotePath) :
    s.db.taken nodeId f.newRemotePath = db.taken nodeId f.newRemotePath := by
  unfold Database.taken
  rw [progress.files, List.any_map, Bool.eq_iff_iff, List.any_eq_true, List.any_eq_true]
  refine exists_congr fun r => and_congr_right fun hr => ?_
  simp only [Function.comp, rowAfter_nodeId, Bool.and_eq_true, decide_eq_true_eq]
  refine and_congr_right fun _ => ?_
  unfold rowAfter
  split
  · rename_i f' hf'
    have hmem := List.mem_of_find?_eq_some hf'
    have hfound := List.find?_some hf'
    simp only [Bool.and_eq_true, decide_eq_true_eq] at hfound
    have hmoves' := oldRemotePath_ne_of_writesRow hfound.2
    have hmem' : f' ∈ done ++ f :: rest := List.mem_append_left _ hmem
    have hmem₀ : f ∈ done ++ f :: rest := by simp
    obtain ⟨r', hr', hid, -, -, hpath⟩ := planned.row f' hmem'
    obtain rfl := keyed.unique hr' hr (hid.trans hfound.1)
    constructor
    · intro heq
      have hsame := planned.new f' hmem' f hmem₀ hmoves' hmoves (Option.some.inj heq)
      subst hsame
      have hnodup := planned.ids
      simp only [List.map_append, List.map_cons, List.nodup_append] at hnodup
      exact absurd rfl (hnodup.2.2 _ (List.mem_map_of_mem hmem) _ (by simp))
    · intro heq
      rw [hpath] at heq
      exact absurd (Option.some.inj heq).symm (planned.apart f hmem₀ f' hmem' hmoves hmoves')
  · rfl

variable (planned : Planned db nodeId newRoot (done ++ f :: rest))

include planned

theorem rowAfter_snoc (r : FileRow) :
    rowAfter server db nodeId (done ++ [f]) r =
      if (rowAfter server db nodeId done r).id = f.fileId ∧ writesRow server db nodeId f = true then
        { rowAfter server db nodeId done r with remotePath := some f.newRemotePath }
      else rowAfter server db nodeId done r := by
  rw [rowAfter_id]
  unfold rowAfter
  rw [List.find?_append]
  cases hdone : done.find? fun f => decide (f.fileId = r.id) && writesRow server db nodeId f with
  | some f' =>
    have hfound := List.find?_some hdone
    simp only [Bool.and_eq_true, decide_eq_true_eq] at hfound
    have hne : r.id ≠ f.fileId := by
      have hnodup := planned.ids
      simp only [List.map_append, List.map_cons, List.nodup_append] at hnodup
      rw [← hfound.1]
      exact hnodup.2.2 _ (List.mem_map_of_mem (List.mem_of_find?_eq_some hdone)) _ (by simp)
    simp [hne]
  | none =>
    by_cases hwrites : r.id = f.fileId ∧ writesRow server db nodeId f = true
    · simp [hwrites.1, hwrites.2]
    · rw [if_neg hwrites]
      have hskip : (decide (f.fileId = r.id) && writesRow server db nodeId f) = false := by
        rw [Bool.eq_false_iff]
        intro h
        simp only [Bool.and_eq_true, decide_eq_true_eq] at h
        exact hwrites ⟨h.1.symm, h.2⟩
      simp [hskip]

theorem rowAfter_snoc_of_not (h : writesRow server db nodeId f = false) :
    rowAfter server db nodeId (done ++ [f]) = rowAfter server db nodeId done := by
  funext r
  simp [rowAfter_snoc planned, h]

theorem Progress.held_rename (progress : Progress server db objects nodeId done s) {remote : String}
    (hremote : f.remoteName = some remote) (hrenames : renamesObject server f = true)
    (name : String) (path : RemotePath) (id : ℕ) :
    (s.objects.rename remote f.oldRemotePath f.newRemotePath).held name path = some id ↔
      (∃ f' ∈ done ++ [f], Carries server objects f' name id ∧ f'.newRemotePath = path) ∨
        (objects.held name path = some id ∧ ∀ f' ∈ done ++ [f], ∀ id',
          Carries server objects f' name id' → f'.oldRemotePath ≠ path ∧ f'.newRemotePath ≠ path) := by
  have hmem : f ∈ done ++ f :: rest := by simp
  have hmoves := oldRemotePath_ne_of_renamesObject hrenames
  have hearlier : ∀ f' ∈ done, ∀ name id, Carries server objects f' name id →
      f'.newRemotePath ≠ f.oldRemotePath ∧ f'.oldRemotePath ≠ f.oldRemotePath ∧
        f'.newRemotePath ≠ f.newRemotePath ∧ f'.oldRemotePath ≠ f.newRemotePath := by
    intro f' hf' name id hcarries
    have hmem' : f' ∈ done ++ f :: rest := List.mem_append_left _ hf'
    have hmoves' := oldRemotePath_ne_of_renamesObject hcarries.1
    have hne : f' ≠ f := by
      rintro rfl
      have hnodup := planned.ids
      simp only [List.map_append, List.map_cons, List.nodup_append] at hnodup
      exact absurd rfl (hnodup.2.2 _ (List.mem_map_of_mem hf') _ (by simp))
    exact ⟨planned.apart f' hmem' f hmem hmoves' hmoves,
      fun heq => hne (planned.old f' hmem' f hmem heq),
      fun heq => hne (planned.new f' hmem' f hmem hmoves' hmoves heq),
      fun heq => planned.apart f hmem f' hmem' hmoves hmoves' heq.symm⟩
  have hsource : ∀ id, s.objects.held remote f.oldRemotePath = some id ↔
      objects.held remote f.oldRemotePath = some id := by
    intro id
    rw [progress.held]
    constructor
    · rintro (⟨f', hf', hcarries, heq⟩ | ⟨hheld, -⟩)
      · exact absurd heq (hearlier f' hf' _ _ hcarries).1
      · exact hheld
    · intro hheld
      exact .inr ⟨hheld, fun f' hf' id' hcarries =>
        ⟨(hearlier f' hf' _ _ hcarries).2.1, (hearlier f' hf' _ _ hcarries).1⟩⟩
  have hcarries : ∀ name id, Carries server objects f name id ↔
      name = remote ∧ objects.held remote f.oldRemotePath = some id := by
    intro name id
    constructor
    · rintro ⟨-, hname, hheld⟩
      obtain rfl := Option.some.inj (hname.symm.trans hremote)
      exact ⟨rfl, hheld⟩
    · rintro ⟨rfl, hheld⟩
      exact ⟨hrenames, hremote, hheld⟩
  simp only [NodeMove.held_rename, hsource, progress.held, List.mem_append, List.mem_singleton]
  constructor
  · rintro (⟨hname, rfl, hheld⟩ | ⟨⟨f', hf', hc, hpath⟩ | ⟨hheld, hoff⟩, hother⟩)
    · exact .inl ⟨f, .inr rfl, (hcarries _ _).mpr ⟨hname, hheld⟩, rfl⟩
    · exact .inl ⟨f', .inl hf', hc, hpath⟩
    · refine .inr ⟨hheld, ?_⟩
      rintro f' (hf' | rfl) id' hc
      · exact hoff f' hf' id' hc
      · obtain ⟨hname, hat⟩ := (hcarries _ _).mp hc
        exact hother id' hat hname
  · rintro (⟨f', hf' | rfl, hc, rfl⟩ | ⟨hheld, hoff⟩)
    · exact .inr ⟨.inl ⟨f', hf', hc, rfl⟩, fun _ _ _ =>
        ⟨(hearlier f' hf' _ _ hc).1.symm, (hearlier f' hf' _ _ hc).2.2.1.symm⟩⟩
    · obtain ⟨hname, hheld⟩ := (hcarries _ _).mp hc
      exact .inl ⟨hname, rfl, hheld⟩
    · exact .inr ⟨.inr ⟨hheld, fun f' hf' => hoff f' (.inl hf')⟩, fun id' hat hname =>
        hoff f (.inr rfl) id' ((hcarries _ _).mpr ⟨hname, hat⟩)⟩

omit planned

theorem Progress.held_of_not (progress : Progress server db objects nodeId done s)
    (h : renamesObject server f = false) (name : String) (path : RemotePath) (id : ℕ) :
    s.objects.held name path = some id ↔
      (∃ f' ∈ done ++ [f], Carries server objects f' name id ∧ f'.newRemotePath = path) ∨
        (objects.held name path = some id ∧ ∀ f' ∈ done ++ [f], ∀ id',
          Carries server objects f' name id' → f'.oldRemotePath ≠ path ∧ f'.newRemotePath ≠ path) := by
  have hnot : ∀ name id, ¬ Carries server objects f name id := fun name id hc => by
    rw [hc.1] at h
    cases h
  simp [progress.held, List.mem_append, or_and_right, exists_or, or_imp, forall_and, hnot]

theorem renameOnRemote_fst (hmoves : f.oldRemotePath ≠ f.newRemotePath) :
    (renameOnRemote server objects f).1 =
      if renamesObject server f then
        objects.rename (f.remoteName.getD "") f.oldRemotePath f.newRemotePath
      else objects := by
  unfold renameOnRemote renamesObject
  cases server.localWorkspace with
  | true => simp
  | false =>
    cases f.remoteName with
    | none => simp
    | some remote =>
      cases server.rename f.fileId with
      | done | failed message tookEffect => simp [hmoves, RenameAnswer.tookEffect]

theorem renameOnRemote_snd :
    (renameOnRemote server objects f).2 = none ↔ passesRemote server f = true := by
  unfold renameOnRemote passesRemote
  cases server.localWorkspace with
  | true => simp
  | false =>
    cases f.remoteName with
    | none => simp
    | some remote =>
      cases server.rename f.fileId with
      | done => simp
      | failed message tookEffect => simp

theorem migrate_spec (s : Migration) (f : MigratedFile) : (migrate server nodeId s f).objects =
        (if renamesObject server f then
          s.objects.rename (f.remoteName.getD "") f.oldRemotePath f.newRemotePath
        else s.objects) ∧ (migrate server nodeId s f).db = (if writesRow server s.db nodeId f then
          s.db.updateFile f.fileId fun r => { r with remotePath := some f.newRemotePath }
        else s.db) ∧
      ∃ reports, (migrate server nodeId s f).repairNeeded = s.repairNeeded ++ reports ∧
        (writesRow server s.db nodeId f = false → f.fileId ∈ reports.map (·.1)) := by
  unfold migrate
  split
  · rename_i heq
    simp [renamesObject, writesRow, heq]
  · rename_i hmoves
    have hobjects := @renameOnRemote_fst server s.objects f hmoves
    have hpasses := @renameOnRemote_snd server s.objects f
    split
    · rename_i objects message hremote
      rw [hremote] at hobjects hpasses
      have hfails : passesRemote server f = false := by
        rw [Bool.eq_false_iff]
        exact fun h => nomatch hpasses.mpr h
      refine ⟨hobjects, ?_, _, rfl, fun _ => by simp⟩
      simp [writesRow, hfails]
    · rename_i objects hremote
      rw [hremote] at hobjects hpasses
      have hpassed := hpasses.mp rfl
      unfold Migration.updateRow
      split
      · rename_i htaken
        refine ⟨hobjects, ?_, _, rfl, fun _ => by simp⟩
        simp [writesRow, htaken]
      · rename_i htaken
        have hwrites : writesRow server s.db nodeId f = true := by
          simp [writesRow, hpassed, hmoves, htaken]
        refine ⟨hobjects, by simp [hwrites], [], by simp, fun h => ?_⟩
        rw [hwrites] at h
        cases h

theorem Progress.migrate (keyed : db.Keyed)
    (planned : Planned db nodeId newRoot (done ++ f :: rest))
    (progress : Progress server db objects nodeId done s) :
    Progress server db objects nodeId (done ++ [f]) (migrate server nodeId s f) := by
  obtain ⟨hobjects, hdb, reports, hreports, hreported⟩ := @migrate_spec server nodeId s f
  have hsame : writesRow server s.db nodeId f = writesRow server db nodeId f := by
    by_cases hmoves : f.oldRemotePath = f.newRemotePath
    · simp [writesRow, hmoves]
    · simp only [writesRow, progress.taken keyed planned hmoves]
  rw [hsame] at hdb hreported
  refine ⟨?_, ?_, fun name path id => ?_, ?_⟩
  · rw [hdb]
    split
    · rename_i hwrites
      rw [updateFile, progress.files, List.map_map]
      refine List.map_congr_left fun r _ => ?_
      simp [rowAfter_snoc planned, hwrites]
    · rename_i hwrites
      rw [rowAfter_snoc_of_not planned (by simpa using hwrites), progress.files]
  · rw [hdb]
    split
    · exact progress.log
    · exact progress.log
  · rw [hobjects]
    split
    · rename_i hrenames
      have hsome := hrenames
      simp only [renamesObject, Bool.and_eq_true, Option.isSome_iff_exists] at hsome
      obtain ⟨remote, hremote⟩ := hsome.1.2
      rw [hremote, Option.getD_some]
      exact progress.held_rename planned hremote hrenames name path id
    · rename_i hrenames
      exact progress.held_of_not (by simpa using hrenames) name path id
  · intro f' hf' hskips
    rw [hreports, List.map_append, List.mem_append]
    rcases List.mem_append.mp hf' with hf' | hf'
    · exact .inl (progress.reported f' hf' hskips)
    · obtain rfl := List.mem_singleton.mp hf'
      exact .inr (hreported hskips)

theorem progress_foldl (keyed : db.Keyed) (planned : Planned db nodeId newRoot migration) :
    Progress server db objects nodeId migration
      (migration.foldl (NodeMove.migrate server nodeId) ⟨db, objects, 0, []⟩) := by
  have hrest : ∀ rest done s, done ++ rest = migration →
      Progress server db objects nodeId done s →
      Progress server db objects nodeId migration (rest.foldl (NodeMove.migrate server nodeId) s) := by
    intro rest
    induction rest with
    | nil =>
      rintro done s rfl progress
      simpa using progress
    | cons f rest ih =>
      intro done s hdone progress
      refine ih (done ++ [f]) _ (by simpa using hdone) ?_
      rw [← hdone] at planned
      exact progress.migrate keyed planned
  exact hrest migration [] _ rfl ⟨(List.map_id db.files).symm, rfl, by simp, by simp⟩

theorem rowAfter_of_writes (planned : Planned db nodeId newRoot migration) (hf : f ∈ migration)
    (hwrites : writesRow server db nodeId f = true) {r : FileRow} (hid : f.fileId = r.id) :
    rowAfter server db nodeId migration r = { r with remotePath := some f.newRemotePath } := by
  unfold rowAfter
  have hsome : (migration.find? fun f => decide (f.fileId = r.id) &&
      writesRow server db nodeId f).isSome :=
    List.find?_isSome.mpr ⟨f, hf, by simp [hid, hwrites]⟩
  obtain ⟨f', hf'⟩ := Option.isSome_iff_exists.mp hsome
  have hfound := List.find?_some hf'
  simp only [Bool.and_eq_true, decide_eq_true_eq] at hfound
  have hsame := List.inj_on_of_nodup_map planned.ids (List.mem_of_find?_eq_some hf') hf
    (hfound.1.trans hid.symm)
  rw [hf', hsame]

theorem rowAfter_of_not {r : FileRow}
    (h : ∀ f ∈ migration, f.fileId = r.id → writesRow server db nodeId f = false) :
    rowAfter server db nodeId migration r = r := by
  unfold rowAfter
  split
  · rename_i f hf
    have hfound := List.find?_some hf
    simp only [Bool.and_eq_true, decide_eq_true_eq] at hfound
    rw [h f (List.mem_of_find?_eq_some hf) hfound.1] at hfound
    cases hfound.2
  · rfl

end

open Files Files.Database

variable {server : MoveServer} {g : Graph} {db : Database} {objects : RemoteObjects}
  {nodeId newOrgId : String} {out : MoveNodeOutcome} {migration : List MigratedFile}

theorem buildNodeRoot_eq_ok {info : NodeInfo} {root : RemotePath}
    (htype : info.nodeType ≠ "organization") (h : buildNodeRoot info = .ok root) :
    root = info.orgSyncKey.toList ++ [typePlural info.nodeType, info.nodeSyncKey] := by
  unfold buildNodeRoot at h
  simp only [htype, if_false, bind, Except.bind, pure, Except.pure] at h
  repeat' split at h
  all_goals first | cases h; rfl | cases h

theorem planMigration_eq_ok {newOrg : GraphNode}
    (h : planMigration server g db nodeId newOrgId newOrg = .ok migration) :
    (tracked db nodeId = [] ∧ migration = []) ∨ ∃ oldInfo oldRoot newRoot,
      g.nodeInfo nodeId = some oldInfo ∧ buildNodeRoot oldInfo = .ok oldRoot ∧
      buildNodeRoot { oldInfo with orgSyncKey := some newOrg.syncKey } = .ok newRoot ∧
      migration = (tracked db nodeId).map fun p => migratedFile oldRoot newRoot p.1 p.2 := by
  unfold planMigration at h
  split at h
  · rename_i hnone
    exact .inl ⟨hnone, (Except.ok.inj h).symm⟩
  · split at h
    · cases h
    · rename_i oldInfo hinfo
      split at h
      · rename_i oldRoot newRoot hold hnew
        refine .inr ⟨oldInfo, oldRoot, newRoot, hinfo, hold, hnew, ?_⟩
        dsimp only at h
        split at h
        · exact (Except.ok.inj h).symm
        · split at h
          · cases h
          · exact (Except.ok.inj h).symm
      · cases h
      · cases h

structure Moved (server : MoveServer) (g : Graph) (db : Database) (objects : RemoteObjects)
    (nodeId newOrgId : String) (out : MoveNodeOutcome) (node newOrg : GraphNode)
    (m : Membership) (final : Migration) : Prop where
  isNode : g.nodes nodeId = some node
  isNoOrg : node.type ≠ "organization"
  isTarget : g.nodes newOrgId = some newOrg
  membership : g.membership nodeId = some m
  plan : planMigration server g db nodeId newOrgId newOrg =
    .ok (migrationOf server g db nodeId newOrgId)
  loop : final = (migrationOf server g db nodeId newOrgId).foldl (migrate server nodeId)
    ⟨db, objects, 0, []⟩
  graph : out.graph.nodes = g.nodes ∧ out.graph.membership nodeId = some { m with orgId := newOrgId }
  db : out.db = final.db.insertAudit (moveNodeAudit server nodeId out.result)
  objects : out.objects = final.objects
  repairNeeded : out.result.filesRepairNeeded = final.repairNeeded

theorem moveNodeToOrganization_eq_ok
    (hmove : moveNodeToOrganization server g db objects nodeId newOrgId = .ok out)
    (hmoved : out.result.moved = true) :
    ∃ node newOrg m final, Moved server g db objects nodeId newOrgId out node newOrg m final := by
  unfold moveNodeToOrganization at hmove
  split at hmove
  · cases hmove
  · rename_i node hnode
    split at hmove
    · cases hmove
    · rename_i htype
      split at hmove
      · cases hmove
      · rename_i newOrg hnew
        split at hmove
        · cases hmove
        · split at hmove
          · cases hmove
          · rename_i m hm
            split at hmove
            · obtain rfl := Except.ok.inj hmove
              cases hmoved
            · split at hmove
              · cases hmove
              · rename_i migration hplan
                have hmigration : migrationOf server g db nodeId newOrgId = migration := by
                  simp [migrationOf, hnew, hplan, Except.toOption]
                obtain rfl := Except.ok.inj hmove
                refine ⟨node, newOrg, m, _, hnode, htype, hnew, hm, ?_, rfl, ⟨rfl, ?_⟩, ?_, ?_, ?_⟩
                · rw [hmigration, hplan]
                · simp [Graph.rebind, hm]
                · rw [hmigration]
                · rw [hmigration]
                · rw [hmigration]

theorem Moved.planned {node newOrg : GraphNode} {m : Membership} {final : Migration}
    (moved : Moved server g db objects nodeId newOrgId out node newOrg m final)
    (keyed : db.Keyed) (unique : UniquePaths db) :
    ∃ newRoot, Planned db nodeId newRoot (migrationOf server g db nodeId newOrgId) ∧
      ∀ info root, out.graph.nodeInfo nodeId = some info → buildNodeRoot info = .ok root →
        ∀ f ∈ migrationOf server g db nodeId newOrgId, root = newRoot := by
  rcases planMigration_eq_ok moved.plan with ⟨hnone, hempty⟩ |
    ⟨oldInfo, oldRoot, newRoot, hinfo, hold, hnew, hmigration⟩
  · refine ⟨[], ?_, ?_⟩
    · have hplanned := @planned_of_map db nodeId [] [] keyed unique rfl
      rw [hnone, List.map_nil] at hplanned
      rwa [hempty]
    · rw [hempty]
      rintro - - - - f ⟨⟩
  · obtain ⟨org, horg⟩ := Option.isSome_iff_exists.mp (g.orgExists moved.membership)
    have hold' := @buildNodeRoot_eq_ok oldInfo oldRoot
    have hnew' := @buildNodeRoot_eq_ok { oldInfo with orgSyncKey := some newOrg.syncKey } newRoot
    simp only [Graph.nodeInfo, moved.isNode, Option.map_some, moved.isNoOrg, if_false,
      moved.membership, Option.bind_some, horg, Option.some.injEq] at hinfo
    subst hinfo
    refine ⟨newRoot, ?_, ?_⟩
    · rw [hmigration]
      refine planned_of_map keyed unique ?_
      rw [hold' moved.isNoOrg hold, hnew' moved.isNoOrg hnew]
      rfl
    · intro info root hinfo hroot _ _
      simp only [Graph.nodeInfo, moved.graph.1, moved.isNode, Option.map_some, moved.isNoOrg, if_false,
        moved.graph.2, Option.bind_some, moved.isTarget, Option.some.injEq] at hinfo
      subst hinfo
      exact Except.ok.inj (hroot.symm.trans hnew)

end Portuni.NodeMove
