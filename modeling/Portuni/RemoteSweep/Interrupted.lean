import Portuni.RemoteSweep.Accounted

namespace Portuni.RemoteSweep

/-!
The safety of a whole sweep, from the database that its retries leave: what it
may delete, and what it owes the objects it lists.
-/

section

open Content FileOps Files Files.Database

universe u

variable {Bytes : Type u}

/-- A sweep that started from `before` deleted confirmed records only. Unless it was
given up, it accounted for every listed object that is adoptable; of objects at one
path in different spellings, the last one listed stands for all. -/
structure SweepSafe (server : Server) (world : SweepWorld Bytes) (nodeId : String)
    (before : Database) (swept : Database × Except String SweepResult) : Prop where
  deletes : ∀ r ∈ before.files, (∀ r' ∈ swept.1.files, r'.id ≠ r.id) →
    ∃ target, sweepTarget server world nodeId = .ok (some target) ∧ ConfirmedGone target nodeId r
  accounts : ∀ target listing result, sweepTarget server world nodeId = .ok (some target) →
    listSections world.list target.nodeRoot sectionNames = .ok listing →
    (rootSeen target.call target.nodeRoot ∨
      missingCandidates target.call listing (sweptRecords target.call before nodeId) = []) →
    swept.2 = .ok result → ∀ nfcPath f, presentAt target.call listing nfcPath = some f →
      (adoptableSection target.nodeRoot f.1).isSome →
        Accounted target nodeId before swept.1 result.errors nfcPath

theorem grows_retryPendingFileOps (worlds : ℕ → World) (db : Database) (nodeId : String) :
    Grows db (retryPendingFileOps worlds db nodeId).1 := by
  rw [retryPendingFileOps, ← @performSteps_retryPendingOps Unit]
  exact grows_performSteps _ db

/-- Every sweep is safe from the database that its retries leave. -/
theorem remoteSweep_safe {db : Database} (keyed : db.Keyed) (server : Server)
    (world : SweepWorld Bytes) (nodeId : String) :
    SweepSafe server world nodeId (retryPendingFileOps world.retries db nodeId).1
      (remoteSweep server world db nodeId) := by
  have hgrows := grows_retryPendingFileOps world.retries db nodeId
  have hkeyed := hgrows.keyed keyed
  unfold remoteSweep
  cases hlocal : server.localWorkspace with
  | true =>
    refine ⟨fun r hr hgone => ?_, fun _ _ _ _ _ _ hresult => ?_⟩
    · obtain ⟨r', hr', hid⟩ := List.mem_map.mp (hgrows.ids.subset (List.mem_map_of_mem hr))
      exact absurd hid (hgone r' hr')
    · cases hresult
  | false =>
    simp only [Bool.false_eq_true, if_false]
    generalize retryPendingFileOps world.retries db nodeId = retried at hkeyed
    cases htarget : sweepTarget server world nodeId with
    | error message =>
      exact ⟨fun r hr hgone => absurd rfl (hgone r hr), fun _ _ _ h => by cases htarget.symm.trans h⟩
    | ok target? =>
      cases target? with
      | none =>
        exact ⟨fun r hr hgone => absurd rfl (hgone r hr),
          fun _ _ _ h => by cases htarget.symm.trans h⟩
      | some target =>
        refine ⟨fun r hr hgone => ⟨target, htarget, sweepNode_deletes hkeyed hr hgone⟩, ?_⟩
        intro target' listing result htarget' hlist hroot hresult nfcPath f hf hadoptable
        obtain rfl := Option.some.inj (Except.ok.inj (htarget.symm.trans htarget'))
        obtain rfl := Except.ok.inj hresult
        exact sweepNode_accounts hkeyed hlist hroot hf hadoptable

/-- The stricter reading: from the database before the retries, whatever became of the
sweep, every adoptable object that a section listed has one record or is reported. -/
def StrictlySafe (server : Server) (world : SweepWorld Bytes) (nodeId : String)
    (before : Database) (swept : Database × Except String SweepResult) : Prop :=
  (∀ r ∈ before.files, (∀ r' ∈ swept.1.files, r'.id ≠ r.id) →
    ∃ target, sweepTarget server world nodeId = .ok (some target) ∧ ConfirmedGone target nodeId r) ∧
    ∀ target result s refs f, sweepTarget server world nodeId = .ok (some target) →
      swept.2 = .ok result → world.list (target.nodeRoot ++ [FileSection.segment s]) = .ok refs →
        f ∈ refs → (adoptableSection target.nodeRoot f.1).isSome →
          swept.1.files.countP
              (knownUnder target.call target.nodeRoot (target.call.nfc f.1)) = 1 ∨
            ∃ e ∈ result.errors, e.1 = some f.1

/-- Two spellings of one name; the second is NFC. -/
def decomposed : String := "cafe\u0301.md"

def composed : String := "caf\u00e9.md"

def composeName (segment : String) : String := if segment = decomposed then composed else segment

theorem composeName_composeName (segment : String) :
    composeName (composeName segment) = composeName segment := by
  unfold composeName
  by_cases h : segment = decomposed
  · rw [if_pos h]
    decide +kernel
  · rw [if_neg h, if_neg h]

def listedFile (filename : String) : ListedObject :=
  (["org", "projects", "key", "wip", filename], ⟨none, false, none⟩)

/-- A remote that lists `wip` as given, and whose `outputs` may fail. -/
def listingWip (wip : List ListedObject) (outputs : Except String (List ListedObject)) :
    SweepWorld Bool where
  retries _ := sampleWorld
  getAdapter _ := .ok { stat := fun _ => .ok none, get := fun _ => .error "no object" }
  list folder :=
    if folder.getLast? = some "wip" then .ok wip
    else if folder.getLast? = some "outputs" then outputs
    else .ok []
  hashing := sampleHashing
  nfc path := path.map composeName
  nfc_nfc path := by simp [composeName_composeName]
  now := 1000

def pendingDelete : Database :=
  { onePushedFile with
    pendingOps := [⟨1, "user", "node", 0, .delete "drive" ["org", "projects", "key", "wip", "old.md"]
      "old.md" none true, 1, some "offline"⟩] }

theorem keyed_pendingDelete : pendingDelete.Keyed :=
  ⟨keyed_onePushedFile.nodup, keyed_onePushedFile.lt⟩

/-- A sweep that finishes a pending delete. -/
theorem remoteSweep_safe_pendingDelete :
    SweepSafe sampleServer (listingWip [] (.ok [])) "node"
      (retryPendingFileOps (listingWip [] (.ok [])).retries pendingDelete "node").1
      (remoteSweep sampleServer (listingWip [] (.ok [])) pendingDelete "node") :=
  remoteSweep_safe keyed_pendingDelete _ _ _

def noRecords : Database := ⟨[], [], [], 0⟩

def unroutedFile : Database := ⟨[{ pushedFile "old.md" with remoteName := none }], [], [], 1⟩

def twoSpellings : Database :=
  ⟨[pushedFile decomposed, { pushedFile composed with id := 1 }], [], [], 2⟩

/-- A sweep finishes a pending delete without looking at the root; it gives up with a
failing section, whatever the others listed; a record of the node without a remote
keeps an object from being adopted; and two records may stand at one path in NFC. -/
theorem not_strictlySafe :
    ¬ StrictlySafe sampleServer (listingWip [] (.ok [])) "node" pendingDelete
        (remoteSweep sampleServer (listingWip [] (.ok [])) pendingDelete "node") ∧
      ¬ StrictlySafe sampleServer (listingWip [listedFile "new.md"] (.error "timeout")) "node"
        noRecords (remoteSweep sampleServer (listingWip [listedFile "new.md"] (.error "timeout"))
          noRecords "node") ∧
      ¬ StrictlySafe sampleServer (listingWip [listedFile "old.md"] (.ok [])) "node" unroutedFile
        (remoteSweep sampleServer (listingWip [listedFile "old.md"] (.ok [])) unroutedFile "node") ∧
      ¬ StrictlySafe sampleServer (listingWip [listedFile composed] (.ok [])) "node" twoSpellings
        (remoteSweep sampleServer (listingWip [listedFile composed] (.ok [])) twoSpellings
          "node") := by
  refine ⟨fun h => ?_, fun h => ?_, fun h => ?_, fun h => ?_⟩
  · have hfiles : (remoteSweep sampleServer (listingWip [] (.ok [])) pendingDelete "node").1.files =
        [] := by decide +kernel
    rw [StrictlySafe, hfiles] at h
    obtain ⟨target, htarget, gone⟩ := h.1 (pushedFile "old.md") (List.mem_singleton_self _)
      fun r' hr' => absurd hr' List.not_mem_nil
    obtain rfl := Option.some.inj (Except.ok.inj htarget)
    obtain ⟨ref, href⟩ := gone.root
    cases href
  · have hrun : remoteSweep sampleServer (listingWip [listedFile "new.md"] (.error "timeout"))
        noRecords "node" = (noRecords, .ok { errors :=
          [(some ["org", "projects", "key", "outputs"], "list failed: timeout")] }) := by
      decide +kernel
    rw [StrictlySafe, hrun] at h
    have hone := h.2 _ _ .wip [listedFile "new.md"] (listedFile "new.md") rfl rfl rfl
      (List.mem_singleton_self _) (by decide +kernel)
    revert hone
    decide +kernel
  · have hrun : (remoteSweep sampleServer (listingWip [listedFile "old.md"] (.ok [])) unroutedFile
        "node") = (unroutedFile, .ok {}) := by decide +kernel
    rw [StrictlySafe, hrun] at h
    have hone := h.2 _ _ .wip [listedFile "old.md"] (listedFile "old.md") rfl rfl rfl
      (List.mem_singleton_self _) (by decide +kernel)
    revert hone
    decide +kernel
  · have hrun : (remoteSweep sampleServer (listingWip [listedFile composed] (.ok [])) twoSpellings
        "node") = (twoSpellings, .ok {}) := by decide +kernel
    rw [StrictlySafe, hrun] at h
    have hone := h.2 _ _ .wip [listedFile composed] (listedFile composed) rfl rfl rfl
      (List.mem_singleton_self _) (by decide +kernel)
    revert hone
    decide +kernel

end

open FileOps Files Files.Database RemoteWatch

universe u v

variable {Bytes : Type u} {call : Call Bytes} {nodeId : String} {db : Database}
  {candidates : List FileRow} {listing : List ListedObject} {nodeRoot : RemotePath}

/-- The database when a statement fails, or the process stops, after `k` statements. -/
def interrupted (call : Call Bytes) (nodeId : String) (candidates : List FileRow) (db : Database)
    (k : ℕ) : Database :=
  ((deleteRemovedRecords call nodeId candidates).statements.take k).foldl Database.apply db

def IsRemovalOf (nodeId : String) (r : FileRow) (row : AuditRow) : Prop :=
  row.action = .syncDeleteRemote ∧ row.fileId? = some r.id ∧ row.auditNodeId = some nodeId ∧
    row.auditRemotePath = r.remotePath

def Tombstoned (nodeId : String) (r : FileRow) (db : Database) : Prop :=
  ∃ row ∈ db.auditLog, IsRemovalOf nodeId r row

/-- Every removed row has its tombstone, now or after the next sweep, and no record is
removed whose stat still finds an object. -/
structure AllOrNothing (call : Call Bytes) (nodeId : String) (candidates : List FileRow)
    (db stopped swept : Database) : Prop where
  tombstoned : ∀ r ∈ db.files, (∀ r' ∈ stopped.files, r'.id ≠ r.id) →
    Tombstoned nodeId r stopped ∨ Tombstoned nodeId r swept
  found : ∀ r ∈ candidates, (∃ path ref, r.remotePath = some path ∧
    call.adapter.stat path = .ok (some ref)) → r ∈ stopped.files

theorem isRemovalOf_removalAudit (r : FileRow) :
    IsRemovalOf nodeId r (removalAudit call nodeId r) := by
  refine ⟨rfl, rfl, rfl, ?_⟩
  rw [AuditRow.auditRemotePath_eq rfl]
  exact Option.or_none

theorem interrupted_eq (k : ℕ) : interrupted call nodeId candidates db k =
    removing call nodeId db ((confirmed call candidates).take ((k + 1) / 2))
      ((confirmed call candidates).take (k / 2)) := by
  rw [interrupted, deleteRemovedRecords_statements, removalStatements_take]

/-- The tombstones of removals by a sweep are of records there were. -/
def RemovalsKnown (before after : Database) : Prop :=
  ∀ row ∈ after.auditLog, row.action = .syncDeleteRemote →
    row ∈ before.auditLog ∨ ∃ r ∈ before.files, row.fileId? = some r.id

theorem auditLog_writeRelocatedRecord {id : ℕ} {path : RemotePath} {set : FileRow → FileRow} :
    (writeRelocatedRecord db id nodeId path set).auditLog = db.auditLog := by
  unfold writeRelocatedRecord
  cases shadowOf db nodeId path id with
  | none => rfl
  | some shadow => rfl

theorem removalsKnown_retryPendingOp (world : World) (op : PendingOpRow) (row : AuditRow)
    (hrow : row ∈ (retryPendingOp world db op).1.auditLog) (haction : row.action = .syncDeleteRemote) :
    row ∈ db.auditLog := by
  unfold retryPendingOp at hrow
  split at hrow
  · rename_i repaired hrun
    unfold runPendingOp at hrun
    split at hrun
    · obtain ⟨-, rfl⟩ := runMove_eq_ok hrun
      simp only [completePendingOp, insertAudit, auditLog_writeRelocatedRecord, List.mem_append,
        List.mem_singleton] at hrow
      rcases hrow with hrow | rfl
      · exact hrow
      · cases haction
    · obtain ⟨-, rfl⟩ := runDelete_eq_ok hrun
      simp only [completePendingOp, insertAudit, Database.deleteFile, List.mem_append,
        List.mem_singleton] at hrow
      rcases hrow with hrow | rfl
      · exact hrow
      · cases haction
  · exact hrow

theorem removalsKnown_retryPendingOps (worlds : ℕ → World) (ops : List PendingOpRow)
    (row : AuditRow) (hrow : row ∈ (retryPendingOps worlds db ops).1.auditLog)
    (haction : row.action = .syncDeleteRemote) : row ∈ db.auditLog := by
  induction ops generalizing db with
  | nil => exact hrow
  | cons op rest ih => exact removalsKnown_retryPendingOp (worlds op.id) op row (ih hrow) haction

theorem auditLog_reconciled : (reconciled call nodeId listing db).auditLog =
    db.auditLog ++ (removedRecords call nodeId listing db).map (removalAudit call nodeId) := by
  unfold reconciled
  simp only
  rw [List.foldl_append, List.foldl_append,
    auditLog_foldl_of_refreshes (fun st hst => refreshes_refreshRemoteHashes hst),
    auditLog_foldl_of_refreshes (fun st hst => refreshes_persistListedIds hst),
    deleteRemovedRecords_statements, removalStatements_all]
  rfl

theorem removalsKnown_sweepNode {list : RemotePath → Except String (List ListedObject)} :
    RemovalsKnown db (sweepNode call list nodeId nodeRoot db).1 := by
  intro row hrow haction
  unfold sweepNode at hrow
  split at hrow
  · exact Or.inl hrow
  · rename_i listing hlist
    simp only at hrow
    split at hrow
    · exact Or.inl hrow
    · change row ∈ ((adoptRemoteFiles call nodeId nodeRoot (reconciled call nodeId listing db)
        (newRefs call (reconciled call nodeId listing db) nodeRoot listing)).statements.foldl
          Database.apply (reconciled call nodeId listing db)).auditLog at hrow
      rw [auditLog_adoptRemoteFiles, auditLog_reconciled] at hrow
      rcases List.mem_append.mp hrow with hrow | hadopted
      · rcases List.mem_append.mp hrow with hrow | hremoved
        · exact Or.inl hrow
        · obtain ⟨r, hr, rfl⟩ := List.mem_map.mp hremoved
          exact Or.inr ⟨r, (mem_removedRecords hr).1, rfl⟩
      · obtain ⟨f, -, rfl⟩ := List.mem_map.mp hadopted
        cases haction

theorem tombstoned_of_remoteSweep {Bytes' : Type v} {server : Server} {world : SweepWorld Bytes'}
    {sweptNode : String} {r : FileRow} (hgone : ∀ r' ∈ db.files, r'.id ≠ r.id)
    (h : Tombstoned nodeId r (remoteSweep server world db sweptNode).1) :
    Tombstoned nodeId r db := by
  obtain ⟨row, hrow, hremoval⟩ := h
  refine ⟨row, ?_, hremoval⟩
  have hretried : row ∈ (retryPendingFileOps world.retries db sweptNode).1.auditLog →
      row ∈ db.auditLog := fun h => removalsKnown_retryPendingOps world.retries _ row h hremoval.1
  unfold remoteSweep at hrow
  split at hrow
  · exact hrow
  · simp only at hrow
    split at hrow
    · exact hretried hrow
    · exact hretried hrow
    · rcases removalsKnown_sweepNode row hrow hremoval.1 with hrow | ⟨r', hr', hid⟩
      · exact hretried hrow
      · have hids := (grows_retryPendingFileOps world.retries db sweptNode).ids.subset
          (List.mem_map_of_mem hr')
        obtain ⟨r₀, hr₀, hsame⟩ := List.mem_map.mp hids
        have hlogged := hremoval.2.1
        rw [hid] at hlogged
        exact absurd (hsame.trans (Option.some.inj hlogged)) (hgone r₀ hr₀)

/-- A removal that is cut short is all or nothing, also with the next sweep, if and only
if it is not cut short right after deleting a row that had no tombstone yet. -/
theorem allOrNothing_iff {Bytes' : Type v} (keyed : db.Keyed)
    (hrows : ∀ r ∈ candidates, r ∈ db.files) (k : ℕ) (server : Server)
    (world : SweepWorld Bytes') (sweptNode : String) :
    AllOrNothing call nodeId candidates db (interrupted call nodeId candidates db k)
        (remoteSweep server world (interrupted call nodeId candidates db k) sweptNode).1 ↔
      ∀ i r, k = 2 * i + 1 → (confirmed call candidates)[i]? = some r →
        Tombstoned nodeId r (interrupted call nodeId candidates db (2 * i)) := by
  have hsame : ∀ i r, Tombstoned nodeId r (interrupted call nodeId candidates db (2 * i + 1)) ↔
      Tombstoned nodeId r (interrupted call nodeId candidates db (2 * i)) := by
    intro i r
    have hodd : (2 * i + 1) / 2 = i := by omega
    have heven : 2 * i / 2 = i := by omega
    rw [interrupted_eq, interrupted_eq, hodd, heven]
    exact Iff.rfl
  constructor
  · rintro h i r rfl hr
    have hconfirmed := (mem_confirmed_iff.mp (List.mem_of_getElem? hr)).1
    have hgone : ∀ r' ∈ (interrupted call nodeId candidates db (2 * i + 1)).files,
        r'.id ≠ r.id := by
      intro r' hr'
      have hhalf : (2 * i + 1 + 1) / 2 = i + 1 := by omega
      rw [interrupted_eq, hhalf] at hr'
      refine ((mem_removing_iff.mp hr').2 r ?_).symm
      rw [List.take_add_one, hr]
      exact List.mem_append_right _ List.mem_cons_self
    rw [← hsame]
    rcases h.tombstoned r (hrows r hconfirmed) hgone with htold | htold
    · exact htold
    · exact tombstoned_of_remoteSweep hgone htold
  · intro h
    constructor
    · intro r hr hgone
      refine Or.inl ?_
      obtain ⟨c, hc, hid⟩ : ∃ c ∈ (confirmed call candidates).take ((k + 1) / 2), c.id = r.id := by
        by_contra hnone
        refine hgone r ?_ rfl
        rw [interrupted_eq]
        exact mem_removing_iff.mpr ⟨hr, fun c hc hid => hnone ⟨c, hc, hid⟩⟩
      obtain rfl := keyed.unique (hrows c (mem_confirmed_iff.mp (List.mem_of_mem_take hc)).1) hr hid
      by_cases htold : c ∈ (confirmed call candidates).take (k / 2)
      · refine ⟨removalAudit call nodeId c, ?_, isRemovalOf_removalAudit c⟩
        rw [interrupted_eq]
        exact List.mem_append_right _ (List.mem_map_of_mem htold)
      · -- the row went with the last statement, which was its delete
        have hodd : k = 2 * (k / 2) + 1 := by
          by_contra heven
          have hhalf : (k + 1) / 2 = k / 2 := by omega
          rw [hhalf] at hc
          exact htold hc
        have hhalf : (k + 1) / 2 = k / 2 + 1 := by omega
        rw [hhalf, List.take_add_one, List.mem_append] at hc
        have hlast : (confirmed call candidates)[k / 2]? = some c := by
          rcases hc with hc | hc
          · exact absurd hc htold
          · simpa using hc
        have hbefore := h (k / 2) c hodd hlast
        rw [← hsame, ← hodd] at hbefore
        exact hbefore
    · rintro r hr ⟨path, ref, hpath, hstat⟩
      rw [interrupted_eq]
      refine mem_removing_iff.mpr ⟨hrows r hr, fun c hc hid => ?_⟩
      have hconfirmed := mem_confirmed_iff.mp (List.mem_of_mem_take hc)
      obtain rfl := keyed.unique (hrows c hconfirmed.1) (hrows r hr) hid
      obtain ⟨path', hpath', habsent⟩ := hconfirmed.2
      obtain rfl := Option.some.inj (hpath.symm.trans hpath')
      cases hstat.symm.trans habsent

def nothingOnRemote : Call Bool :=
  (listingWip [] (.ok [])).call sampleServer "drive"
    { stat := fun _ => .ok none, get := fun _ => .error "no object" }

/-- A removal that runs to its end. -/
theorem allOrNothing_twoStatements :
    AllOrNothing nothingOnRemote "node" [pushedFile "old.md"] onePushedFile
      (interrupted nothingOnRemote "node" [pushedFile "old.md"] onePushedFile 2)
      (remoteSweep sampleServer (listingWip [] (.ok []))
        (interrupted nothingOnRemote "node" [pushedFile "old.md"] onePushedFile 2) "node").1 := by
  refine (allOrNothing_iff keyed_onePushedFile (by decide) 2 _ _ _).mpr ?_
  intro i r hodd
  omega

/-- Cut short after its first statement, it leaves a deleted row that no tombstone tells
of, and the next sweep has nothing to find it by. -/
theorem not_allOrNothing_oneStatement :
    ¬ AllOrNothing nothingOnRemote "node" [pushedFile "old.md"] onePushedFile
      (interrupted nothingOnRemote "node" [pushedFile "old.md"] onePushedFile 1)
      (remoteSweep sampleServer (listingWip [] (.ok []))
        (interrupted nothingOnRemote "node" [pushedFile "old.md"] onePushedFile 1) "node").1 := by
  intro h
  have hstopped : interrupted nothingOnRemote "node" [pushedFile "old.md"] onePushedFile 1 =
      ⟨[], [], [], 1⟩ := by decide +kernel
  have hswept : (remoteSweep sampleServer (listingWip [] (.ok [])) ⟨[], [], [], 1⟩ "node").1 =
      ⟨[], [], [], 1⟩ := by decide +kernel
  have htold := h.tombstoned (pushedFile "old.md") (List.mem_singleton_self _)
  rw [hstopped, hswept] at htold
  rcases htold fun r' hr' => absurd hr' List.not_mem_nil with ⟨row, hrow, -⟩ | ⟨row, hrow, -⟩
  · exact List.not_mem_nil hrow
  · exact List.not_mem_nil hrow

end Portuni.RemoteSweep
