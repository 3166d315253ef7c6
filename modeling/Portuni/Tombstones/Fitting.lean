import Portuni.FileOps.Outcomes
import Portuni.Tombstones.Matching

namespace Portuni.Tombstones

/-!
A record that an operation takes off a path leaves a tombstone that both
readers accept, and no device takes a clean copy at that path for a new file.
-/

section

open Content FileOps Files Library.Runs

universe u

/-- Both queries find a row that says the file left the path of the node. -/
def BothReadersAccept (order : NewestFirst) (readAt : ℕ) (db : Database) (nodeId : String)
    (path : RemotePath) (fileId : ℕ) : Prop :=
  ∃ row ∈ localTombstoneRows order db nodeId [path], row ∈ syncInfoRows order readAt db nodeId ∧
    row.fileId? = some fileId ∧ row.auditRemotePath = some path

/-- No engine of a device takes a clean copy of the file at the path for a new file. -/
def NeverNewLocal (Bytes : Type u) (order : NewestFirst) (readAt : ℕ) (db : Database)
    (nodeId : String) (path : RemotePath) (fileId : ℕ) : Prop :=
  ∀ (device : Device Bytes) (nodeRoot : RemotePath) (entries : List UntrackedFile)
    (entry : UntrackedFile), CleanCopy device nodeRoot entries fileId path entry →
      entry ∉ (matchDeleteTombstones device order db nodeId nodeRoot entries).2 ∧
        entry ∉ (matchTombstonesForContext device order readAt db nodeId nodeRoot entries).2

/-- At most as many tombstones of the node as sync-info reads are as new as `since`. -/
def Uncrowded (readAt since : ℕ) (db : Database) (nodeId : String) : Prop :=
  ((recentTombstones readAt db nodeId).filter fun r => decide (since ≤ r.timestamp)).length ≤
    tombstoneLimit

variable {Bytes : Type u} {order : NewestFirst} {readAt now : ℕ} {start db db' : Database}
  {nodeId : String} {path : RemotePath} {fileId : ℕ} {row : AuditRow}

theorem bothReadersAccept_of_tellsOf (hrow : row ∈ db.auditLog)
    (htells : TellsOf row now nodeId path fileId) (hwindow : tombstoneCutoff readAt ≤ now)
    (huncrowded : Uncrowded readAt now db nodeId) :
    BothReadersAccept order readAt db nodeId path fileId := by
  have hreads : reads localActions nodeId row := by
    simp [reads, htells.file, htells.node, htells.action]
  refine ⟨row, mem_localTombstoneRows.mpr ⟨hrow, hreads, by simp [htells.path]⟩, ?_, htells.file,
    htells.path⟩
  have hrecent : row ∈ recentTombstones readAt db nodeId := by
    refine List.mem_filter.mpr ⟨hrow, ?_⟩
    simp [reads_central_of_local hreads, htells.timestamp, hwindow]
  refine mem_syncInfoRows hrecent ?_
  rw [htells.timestamp]
  exact huncrowded

theorem BothReadersAccept.neverNewLocal
    (accepted : BothReadersAccept order readAt db nodeId path fileId)
    (gone : ∀ r ∈ db.files, r.id = fileId → r.remotePath ≠ some path) :
    NeverNewLocal Bytes order readAt db nodeId path fileId := by
  obtain ⟨row, hlocal, hcentral, hfile, hpath⟩ := accepted
  obtain ⟨hrow, hreads, -⟩ := mem_localTombstoneRows.mp hlocal
  intro device nodeRoot entries entry copy
  exact ⟨copy.not_new_local hrow hreads hfile hpath gone,
    copy.not_new_local_central hcentral hfile hpath gone⟩

variable {ops : List (Operation Bytes)}

theorem auditLog_prefix_of_run (run : Run operationStep (fun _ _ => True) db ops db') :
    db.auditLog <+: db'.auditLog := by
  refine Run.inv (fun db' => db.auditLog <+: db'.auditLog) (List.prefix_refl _) ?_ run
  rintro db₁ op db₂ hstarts - hstep
  cases hstep
  exact hstarts.trans (op.grows db₁).log

theorem keyed_of_run (keyed : start.Keyed) (run : Run operationStep (fun _ _ => True) start ops db) :
    db.Keyed := by
  refine Run.inv Database.Keyed keyed ?_ run
  rintro db₁ op db₂ hkeyed - hstep
  cases hstep
  exact (op.grows db₁).keyed hkeyed

theorem exists_tellsOf {op : Operation Bytes} {before after : List (FileStep Bytes)}
    {s : FileStep Bytes} (keyed : db.Keyed) (hsteps : op.fileSteps db = before ++ s :: after)
    (sound : s.Sound (performSteps db before)) (taken : TakenOff (performSteps db before).files
      (s.perform (performSteps db before)).files nodeId path fileId) :
    ∃ row ∈ (op.perform db).auditLog, TellsOf row s.now nodeId path fileId := by
  have hkeyed := (grows_performSteps before db).keyed keyed
  obtain ⟨row, hrow, htells⟩ := (s.outcome hkeyed sound).tellsOf hkeyed taken
  have hperform : performSteps db (op.fileSteps db) =
      performSteps (s.perform (performSteps db before)) after := by
    rw [hsteps, performSteps, List.foldl_append]
    rfl
  refine ⟨row, (grows_insertAudits _ _).log.subset ?_, htells⟩
  rw [hperform]
  exact (grows_performSteps after _).log.subset hrow

/-- Whatever operations came before and come after, the operation's sound steps leave
tombstones that both readers accept for every path they take a record off. -/
theorem tombstones_complete {ops later : List (Operation Bytes)} {op : Operation Bytes}
    {before after : List (FileStep Bytes)} {s : FileStep Bytes} (keyed : start.Keyed)
    (run : Run operationStep (fun _ _ => True) start ops db)
    (hsteps : op.fileSteps db = before ++ s :: after) (sound : s.Sound (performSteps db before))
    (taken : TakenOff (performSteps db before).files
      (s.perform (performSteps db before)).files nodeId path fileId)
    (runLater : Run operationStep (fun _ _ => True) (op.perform db) later db')
    (hwindow : tombstoneCutoff readAt ≤ s.now) (huncrowded : Uncrowded readAt s.now db' nodeId) :
    BothReadersAccept order readAt db' nodeId path fileId ∧
      ((∀ r ∈ db'.files, r.id = fileId → r.remotePath ≠ some path) →
        NeverNewLocal Bytes order readAt db' nodeId path fileId) := by
  obtain ⟨row, hrow, htells⟩ := exists_tellsOf (keyed_of_run keyed run) hsteps sound taken
  have haccepted : BothReadersAccept order readAt db' nodeId path fileId :=
    bothReadersAccept_of_tellsOf ((auditLog_prefix_of_run runLater).subset hrow) htells hwindow
      huncrowded
  exact ⟨haccepted, haccepted.neverNewLocal⟩

def mergeNewestFirst : NewestFirst where
  sort rows := rows.mergeSort fun a b => decide (b.timestamp ≤ a.timestamp)
  perm rows := List.mergeSort_perm rows _
  sorted rows := by
    refine (List.pairwise_mergeSort (fun a b c hab hbc => ?_) (fun a b => ?_) rows).imp ?_
    · simp only [decide_eq_true_eq] at hab hbc ⊢
      exact Nat.le_trans hbc hab
    · simp only [Bool.or_eq_true, decide_eq_true_eq]
      exact Nat.le_total _ _
    · exact fun h => of_decide_eq_true h

theorem takenOff_pushedFile : TakenOff onePushedFile.files [pushedFile "new.md"] "node"
    ["org", "projects", "key", "wip", "old.md"] 0 := by
  refine ⟨⟨_, List.mem_singleton_self _, rfl, rfl, rfl⟩, ?_,
    Or.inl ⟨_, List.mem_singleton_self _, rfl⟩⟩
  decide

def renameOldFile : Operation Bool := .renameFile sampleServer sampleWorld 0 "new.md"

/-- A rename leaves a tombstone that both readers accept. -/
theorem tombstones_complete_renameFile :
    BothReadersAccept mergeNewestFirst 1000 (renameOldFile.perform onePushedFile) "node"
        ["org", "projects", "key", "wip", "old.md"] 0 ∧
      ((∀ r ∈ (renameOldFile.perform onePushedFile).files, r.id = 0 →
          r.remotePath ≠ some ["org", "projects", "key", "wip", "old.md"]) →
        NeverNewLocal Bool mergeNewestFirst 1000 (renameOldFile.perform onePushedFile) "node"
          ["org", "projects", "key", "wip", "old.md"] 0) := by
  have hfiles : ((FileStep.renameFile sampleServer sampleWorld 0 "new.md" : FileStep Bool).perform
      onePushedFile).files = [pushedFile "new.md"] := by decide +kernel
  have htaken := takenOff_pushedFile
  rw [← hfiles] at htaken
  have hsteps : renameOldFile.fileSteps onePushedFile =
      [] ++ .renameFile sampleServer sampleWorld 0 "new.md" :: [] := rfl
  refine tombstones_complete keyed_onePushedFile Run.nil hsteps trivial htaken Run.nil
    (by decide) ?_
  unfold Uncrowded
  decide +kernel

def renameOldFileRemote : Operation Bool := .renameFileRemote sampleServer sampleWorld 0 "new.md"

/-- The same rename on a server without a mirror leaves none: its row names no node, and
the direct engine does not ask for its action. -/
theorem not_bothReadersAccept_renameFileRemote :
    Database.Keyed onePushedFile ∧
      renameOldFileRemote.fileSteps onePushedFile =
        [.renameFileRemote sampleServer sampleWorld 0 "new.md"] ∧
      TakenOff onePushedFile.files (renameOldFileRemote.perform onePushedFile).files "node"
        ["org", "projects", "key", "wip", "old.md"] 0 ∧
      tombstoneCutoff 1000 ≤ 1000 ∧
      Uncrowded 1000 1000 (renameOldFileRemote.perform onePushedFile) "node" ∧
      ¬ BothReadersAccept mergeNewestFirst 1000 (renameOldFileRemote.perform onePushedFile) "node"
        ["org", "projects", "key", "wip", "old.md"] 0 := by
  have hfiles : (renameOldFileRemote.perform onePushedFile).files = [pushedFile "new.md"] := by
    decide +kernel
  have hlocal : localTombstoneRows mergeNewestFirst (renameOldFileRemote.perform onePushedFile)
      "node" [["org", "projects", "key", "wip", "old.md"]] = [] := by decide +kernel
  refine ⟨keyed_onePushedFile, rfl, ?_, by decide, ?_, ?_⟩
  · rw [hfiles]
    exact takenOff_pushedFile
  · unfold Uncrowded
    decide +kernel
  · rintro ⟨row, hrow, -⟩
    rw [hlocal] at hrow
    exact List.not_mem_nil hrow

end

open Content Files

universe u

def Newest (rows : List AuditRow) (r : AuditRow) : Prop :=
  r ∈ rows ∧ ∀ r' ∈ rows, r'.timestamp ≤ r.timestamp

def liveActions : List AuditAction := [.syncMove, .syncRename, .syncRenameRemote]

def standsAt (db : Database) (fileId : ℕ) (remotePath : RemotePath) : Bool :=
  (db.fileById fileId).any fun r => r.remotePath = some remotePath

def standsUnder (db : Database) (nodeId : String) (fileId : ℕ) (remotePath : RemotePath) : Bool :=
  ((db.files.filter (·.nodeId = nodeId)).find? (·.id = fileId)).any fun r =>
    r.remotePath = some remotePath

variable {Bytes : Type u} (device : Device Bytes) (now : ℕ) (db : Database) (nodeId : String)
  (nodeRoot : RemotePath) (entries : List UntrackedFile) (entry : UntrackedFile)

def rowApplies (alive : List AuditAction) (movedBack : ℕ → RemotePath → Bool) (r : AuditRow) :
    Bool :=
  (tombstoneOf alive r).any (tombstoneApplies device nodeRoot movedBack entry)

/-- The rows that apply to the file among those that the direct engine asks for. -/
def localFitting : List AuditRow :=
  db.auditLog.filter fun r => (reads localActions nodeId r &&
    r.auditRemotePath.any (expectedRemotePaths device nodeRoot entries).contains) &&
      rowApplies device nodeRoot entry [.syncMove, .syncRename] (standsAt db) r

/-- The rows that apply to the file among those that sync-info reads. -/
def centralFitting : List AuditRow :=
  (recentTombstones now db nodeId).filter
    (rowApplies device nodeRoot entry liveActions (standsUnder db nodeId))

/-- If sync-info has a row for the file then the direct engine asks for one, and the newest
of both name one file and either both or neither leave a live record. -/
def NewestAgree : Prop :=
  (centralFitting device now db nodeId nodeRoot entry ≠ [] →
    localFitting device db nodeId nodeRoot entries entry ≠ []) ∧
    ∀ l c, Newest (localFitting device db nodeId nodeRoot entries entry) l →
      Newest (centralFitting device now db nodeId nodeRoot entry) c →
        l.fileId? = c.fileId? ∧ liveActions.contains l.action = liveActions.contains c.action

/-- Both matchers find the same files deleted, under the same ids and with the same flag,
whatever the order in which rows of one time come. -/
def ReadersAgree : Prop :=
  ∀ (order order' : NewestFirst) (localPath : LocalPath) (fileId : ℕ) (recordAlive : Bool),
    (∃ m ∈ (matchDeleteTombstones device order db nodeId nodeRoot entries).1,
      m.localPath = localPath ∧ m.fileId = fileId ∧ m.recordAlive = recordAlive) ↔
    ∃ m ∈ (matchTombstonesForContext device order' now db nodeId nodeRoot entries).1,
      m.localPath = localPath ∧ m.fileId = fileId ∧ m.recordAlive = recordAlive

structure Unobstructed : Prop where
  keyed : db.Keyed
  apart : Apart device entries
  /-- No row of the log is older than the window. -/
  recent : ∀ r ∈ db.auditLog, tombstoneCutoff now ≤ r.timestamp
  /-- The rows for a file are within the limit of sync-info. -/
  uncrowded : ∀ entry ∈ entries, ∀ r ∈ centralFitting device now db nodeId nodeRoot entry,
    Uncrowded now r.timestamp db nodeId
  /-- The direct engine asks for the rows for a file in one statement. -/
  together : ∀ entry ∈ entries,
    ∀ chunk ∈ chunks tombstoneChunk (expectedRemotePaths device nodeRoot entries).eraseDups,
      ∀ r ∈ localFitting device db nodeId nodeRoot entries entry,
        ∀ r' ∈ localFitting device db nodeId nodeRoot entries entry,
          r.auditRemotePath.any chunk.contains → r'.auditRemotePath.any chunk.contains
  /-- No row for a file is followed by one of the same path and id that is passed over. -/
  kept : ∀ entry ∈ entries, ∀ r ∈ centralFitting device now db nodeId nodeRoot entry,
    ∀ r' ∈ recentTombstones now db nodeId, r'.fileId? = r.fileId? →
      r'.auditRemotePath = r.auditRemotePath → r.timestamp ≤ r'.timestamp →
        r' ∈ centralFitting device now db nodeId nodeRoot entry

variable {device now db nodeId nodeRoot entries entry} {order : NewestFirst} {rows : List AuditRow}
  {r : AuditRow} {t : DeletedTombstone}

theorem newest_of_find? {p : AuditRow → Bool}
    (sorted : rows.Pairwise fun a b => b.timestamp ≤ a.timestamp) (h : rows.find? p = some r) :
    Newest (rows.filter p) r := by
  obtain ⟨hr, before, after, rfl, hbefore⟩ := List.find?_eq_some_iff_append.mp h
  refine ⟨List.mem_filter.mpr ⟨by simp, hr⟩, fun r' hr' => ?_⟩
  obtain ⟨hmem, hp⟩ := List.mem_filter.mp hr'
  rcases List.mem_append.mp hmem with hmem | hmem
  · have hnot := hbefore r' hmem
    rw [hp] at hnot
    cases hnot
  · rcases List.mem_cons.mp hmem with rfl | hmem
    · exact Nat.le_refl _
    · exact (List.pairwise_cons.mp (List.pairwise_append.mp sorted).2.1).1 r' hmem

variable {alive : List AuditAction}

theorem tombstoneOf_fields (h : tombstoneOf alive r = some t) :
    r.fileId? = some t.fileId ∧ r.auditRemotePath = some t.remotePath ∧
      t.recordAlive = alive.contains r.action := by
  unfold tombstoneOf at h
  split at h
  · rename_i fileId path hfile hpath
    cases h
    exact ⟨hfile, hpath, rfl⟩
  · cases h

theorem mem_localFitting : r ∈ localFitting device db nodeId nodeRoot entries entry ↔
    r ∈ localTombstoneRows order db nodeId (expectedRemotePaths device nodeRoot entries) ∧
      rowApplies device nodeRoot entry [.syncMove, .syncRename] (standsAt db) r := by
  rw [mem_localTombstoneRows, localFitting, List.mem_filter]
  simp only [Bool.and_eq_true, and_assoc]

theorem isSome_of_rowApplies {movedBack : ℕ → RemotePath → Bool}
    (h : rowApplies device nodeRoot entry alive movedBack r) : (tombstoneOf alive r).isSome :=
  Option.isSome_of_any h

theorem find?_localTombstones {paths : List RemotePath} :
    (localTombstones order db nodeId paths).find?
        (tombstoneApplies device nodeRoot (standsAt db) entry) =
      ((localTombstoneRows order db nodeId paths).find?
        (rowApplies device nodeRoot entry [.syncMove, .syncRename] (standsAt db))).bind
          (tombstoneOf [.syncMove, .syncRename]) :=
  List.find?_filterMap ..

theorem mem_statement {chunk : List RemotePath}
    (hchunk : chunk ∈ chunks tombstoneChunk (expectedRemotePaths device nodeRoot entries).eraseDups) :
    r ∈ (order.sort (db.auditLog.filter fun r =>
        reads localActions nodeId r && r.auditRemotePath.any chunk.contains)).filter
      (rowApplies device nodeRoot entry [.syncMove, .syncRename] (standsAt db)) ↔
    r ∈ localFitting device db nodeId nodeRoot entries entry ∧
      r.auditRemotePath.any chunk.contains := by
  simp only [List.mem_filter, (order.perm _).mem_iff, localFitting, Bool.and_eq_true]
  constructor
  · rintro ⟨⟨hlog, hreads, hin⟩, happlies⟩
    obtain ⟨path, hpath, hasked⟩ := (Option.any_eq_true _ _).mp hin
    have hexpected := (exists_mem_chunks (by decide)).mp ⟨chunk, hchunk, by simpa using hasked⟩
    exact ⟨⟨hlog, ⟨hreads, (Option.any_eq_true _ _).mpr
      ⟨path, hpath, by simpa using List.mem_eraseDups.mp hexpected⟩⟩, happlies⟩, hin⟩
  · rintro ⟨⟨hlog, ⟨hreads, -⟩, happlies⟩, hin⟩
    exact ⟨⟨hlog, hreads, hin⟩, happlies⟩

theorem exists_statement
    (h : (localTombstoneRows order db nodeId (expectedRemotePaths device nodeRoot entries)).find?
      (rowApplies device nodeRoot entry [.syncMove, .syncRename] (standsAt db)) = some r) :
    ∃ chunk ∈ chunks tombstoneChunk (expectedRemotePaths device nodeRoot entries).eraseDups,
      (order.sort (db.auditLog.filter fun r =>
        reads localActions nodeId r && r.auditRemotePath.any chunk.contains)).find?
          (rowApplies device nodeRoot entry [.syncMove, .syncRename] (standsAt db)) = some r := by
  rw [localTombstoneRows, List.find?_flatMap] at h
  exact List.exists_of_findSome?_eq_some h

theorem newest_localFitting (free : Unobstructed device now db nodeId nodeRoot entries)
    (hentry : entry ∈ entries)
    (h : (localTombstoneRows order db nodeId (expectedRemotePaths device nodeRoot entries)).find?
      (rowApplies device nodeRoot entry [.syncMove, .syncRename] (standsAt db)) = some r) :
    Newest (localFitting device db nodeId nodeRoot entries entry) r := by
  obtain ⟨chunk, hchunk, hfind⟩ := exists_statement h
  obtain ⟨hmem, hnewest⟩ := newest_of_find? (order.sorted _) hfind
  obtain ⟨hr, hin⟩ := (mem_statement hchunk).mp hmem
  refine ⟨hr, fun r' hr' => hnewest r' ((mem_statement hchunk).mpr ⟨hr', ?_⟩)⟩
  exact free.together entry hentry chunk hchunk r hr r' hr' hin

theorem sorted_syncInfoRows (order : NewestFirst) (now : ℕ) (db : Database) (nodeId : String) :
    (syncInfoRows order now db nodeId).Pairwise fun a b => b.timestamp ≤ a.timestamp :=
  (order.sorted _).sublist (List.take_sublist _ _)

theorem mem_recentTombstones_of_syncInfoRows (h : r ∈ syncInfoRows order now db nodeId) :
    r ∈ recentTombstones now db nodeId :=
  (order.perm _).mem_iff.mp (List.mem_of_mem_take h)

variable (free : Unobstructed device now db nodeId nodeRoot entries)

include free

theorem mem_centralFitting (hentry : entry ∈ entries) :
    r ∈ centralFitting device now db nodeId nodeRoot entry ↔
      r ∈ syncInfoRows order now db nodeId ∧
        rowApplies device nodeRoot entry liveActions (standsUnder db nodeId) r := by
  constructor
  · intro h
    obtain ⟨hrecent, happlies⟩ := List.mem_filter.mp h
    exact ⟨mem_syncInfoRows hrecent (free.uncrowded entry hentry r h), happlies⟩
  · rintro ⟨hread, happlies⟩
    exact List.mem_filter.mpr ⟨mem_recentTombstones_of_syncInfoRows hread, happlies⟩

theorem newest_centralFitting (hentry : entry ∈ entries)
    (h : (syncInfoRows order now db nodeId).find? (rowApplies device nodeRoot entry liveActions
      (standsUnder db nodeId)) = some r) :
    Newest (centralFitting device now db nodeId nodeRoot entry) r := by
  obtain ⟨hr, hnewest⟩ := newest_of_find? (sorted_syncInfoRows ..) h
  refine ⟨(mem_centralFitting free hentry).mpr (List.mem_filter.mp hr), fun r' hr' => ?_⟩
  exact hnewest r' (List.mem_filter.mpr ((mem_centralFitting free hentry).mp hr'))

theorem find?_syncInfoDeleted (hentry : entry ∈ entries) :
    (syncInfoDeleted order now db nodeId).find?
        (tombstoneApplies device nodeRoot (standsUnder db nodeId) entry) =
      ((syncInfoRows order now db nodeId).find?
        (rowApplies device nodeRoot entry liveActions (standsUnder db nodeId))).bind
          (tombstoneOf liveActions) := by
  unfold syncInfoDeleted
  rw [find?_dedupeByRemotePath ?_ fun _ _ hmem => absurd hmem List.not_mem_nil]
  · exact List.find?_filterMap ..
  · have hsorted := (sorted_syncInfoRows order now db nodeId).imp_of_mem fun hr hr' hle =>
      And.intro (mem_recentTombstones_of_syncInfoRows hr)
        (And.intro (mem_recentTombstones_of_syncInfoRows hr') hle)
    refine hsorted.filterMap _ ?_
    rintro r r' ⟨hr, hr', hle⟩ t ht t' ht' hkey happlies
    obtain ⟨hfile, hpath, -⟩ := tombstoneOf_fields ht
    obtain ⟨hfile', hpath', -⟩ := tombstoneOf_fields ht'
    obtain ⟨hsamePath, hsameFile⟩ := Prod.mk.inj hkey
    have hfits : r' ∈ centralFitting device now db nodeId nodeRoot entry := by
      refine List.mem_filter.mpr ⟨hr', ?_⟩
      rw [rowApplies, liveActions, ht']
      exact happlies
    have hkept := free.kept entry hentry r' hfits r hr
      (by rw [hfile, hfile', hsameFile])
      (by rw [hpath, hpath', hsamePath]) hle
    have hr := (List.mem_filter.mp hkept).2
    rw [rowApplies, liveActions, ht] at hr
    exact hr

omit free

theorem tombstoneOf_live (h : reads localActions nodeId r) :
    tombstoneOf [.syncMove, .syncRename] r = tombstoneOf liveActions r := by
  have haction : r.action ∈ localActions := by
    simp only [reads, Bool.and_eq_true] at h
    simpa using h.1.2
  have hlive : [AuditAction.syncMove, .syncRename].contains r.action =
      liveActions.contains r.action := by
    revert haction
    cases r.action <;> decide
  unfold tombstoneOf
  rw [hlive]

theorem rowApplies_live (h : reads localActions nodeId r) :
    rowApplies device nodeRoot entry [.syncMove, .syncRename] (standsAt db) r =
      rowApplies device nodeRoot entry liveActions (standsAt db) r := by
  rw [rowApplies, rowApplies, tombstoneOf_live h]

theorem rowApplies_of_movedBack {movedBack movedBack' : ℕ → RemotePath → Bool}
    (fewer : ∀ fileId path, movedBack' fileId path → movedBack fileId path)
    (h : rowApplies device nodeRoot entry alive movedBack r) :
    rowApplies device nodeRoot entry alive movedBack' r := by
  obtain ⟨t, ht, happlies⟩ := (Option.any_eq_true _ _).mp h
  refine (Option.any_eq_true _ _).mpr ⟨t, ht, ?_⟩
  simp only [tombstoneApplies, Bool.and_eq_true, Bool.not_eq_true', Bool.and_eq_false_iff]
    at happlies ⊢
  refine ⟨happlies.1, happlies.2.imp_right fun hnot => ?_⟩
  rw [Bool.eq_false_iff] at hnot ⊢
  exact fun hstands => hnot (fewer _ _ hstands)

theorem standsAt_of_standsUnder (keyed : db.Keyed) {fileId : ℕ} {path : RemotePath}
    (h : standsUnder db nodeId fileId path) : standsAt db fileId path := by
  obtain ⟨row, hrow, hpath⟩ := (Option.any_eq_true _ _).mp h
  have hmem := (List.mem_filter.mp (List.mem_of_find?_eq_some hrow)).1
  have hid := List.find?_some hrow
  simp only [decide_eq_true_eq] at hid
  rw [standsAt, ← hid, FileOps.fileById_of_mem keyed hmem]
  exact hpath

theorem mem_centralFitting_of_local (free : Unobstructed device now db nodeId nodeRoot entries)
    (h : r ∈ localFitting device db nodeId nodeRoot entries entry) :
    r ∈ centralFitting device now db nodeId nodeRoot entry := by
  obtain ⟨hlog, hfits⟩ := List.mem_filter.mp h
  simp only [Bool.and_eq_true] at hfits
  obtain ⟨⟨hreads, -⟩, happlies⟩ := hfits
  refine List.mem_filter.mpr ⟨List.mem_filter.mpr ⟨hlog, ?_⟩, ?_⟩
  · simp [reads_central_of_local hreads, free.recent r hlog]
  · rw [rowApplies_live hreads] at happlies
    refine rowApplies_of_movedBack (fun fileId path hstands => ?_) happlies
    exact standsAt_of_standsUnder free.keyed hstands

end Portuni.Tombstones
