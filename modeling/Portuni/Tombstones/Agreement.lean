import Portuni.Tombstones.Fitting

/-!
When the two readers agree: exactly if the newest rows that they each find for an
untracked file say the same of it.
-/

namespace Portuni.Tombstones

open Content Files

universe u

/-- `a` comes before `b`: it is newer, or of the same time and `b` is not favoured over it. -/
def comesBefore (favoured a b : AuditRow) : Bool :=
  decide (b.timestamp < a.timestamp ∨ b.timestamp = a.timestamp ∧ (a = favoured ∨ b ≠ favoured))

variable {favoured a b c r : AuditRow} {rows : List AuditRow}

theorem comesBefore_trans (hab : comesBefore favoured a b) (hbc : comesBefore favoured b c) :
    comesBefore favoured a c := by
  simp only [comesBefore, decide_eq_true_eq] at *
  grind

theorem comesBefore_total : comesBefore favoured a b || comesBefore favoured b a := by
  simp only [comesBefore, Bool.or_eq_true, decide_eq_true_eq]
  grind

theorem timestamp_le_of_comesBefore (h : comesBefore favoured a b) :
    b.timestamp ≤ a.timestamp := by
  simp only [comesBefore, decide_eq_true_eq] at h
  omega

theorem pairwise_mergeSort_comesBefore (favoured : AuditRow) (rows : List AuditRow) :
    (rows.mergeSort (comesBefore favoured)).Pairwise fun a b => comesBefore favoured a b :=
  List.pairwise_mergeSort
    (fun a b _ (hab : comesBefore favoured a b) hbc => comesBefore_trans hab hbc)
    (fun _ _ => comesBefore_total) rows

/-- Newest first, and `favoured` first among the rows of its time. -/
def newestFirstFavouring (favoured : AuditRow) : NewestFirst where
  sort rows := rows.mergeSort (comesBefore favoured)
  perm rows := List.mergeSort_perm rows _
  sorted rows := (pairwise_mergeSort_comesBefore favoured rows).imp timestamp_le_of_comesBefore

theorem find?_favoured {p : AuditRow → Bool}
    (sorted : rows.Pairwise fun a b => comesBefore r a b) (newest : Newest (rows.filter p) r) :
    rows.find? p = some r := by
  obtain ⟨hmem, hp⟩ := List.mem_filter.mp newest.1
  cases hfind : rows.find? p with
  | none => exact absurd hp (List.find?_eq_none.mp hfind r hmem)
  | some first =>
    obtain ⟨hfirst, before, after, rfl, hbefore⟩ := List.find?_eq_some_iff_append.mp hfind
    rcases List.mem_append.mp hmem with hmem | hmem
    · have hnot := hbefore r hmem
      rw [hp] at hnot
      cases hnot
    · rcases List.mem_cons.mp hmem with rfl | hmem
      · rfl
      · have hle := newest.2 first (List.mem_filter.mpr ⟨by simp, hfirst⟩)
        have hahead := (List.pairwise_cons.mp (List.pairwise_append.mp sorted).2.1).1 r hmem
        simp only [comesBefore, decide_eq_true_eq] at hahead
        rcases hahead with hnewer | ⟨-, hsame | hne⟩
        · omega
        · rw [hsame]
        · exact absurd rfl hne

variable {Bytes : Type u} {device : Device Bytes} {now : ℕ} {db : Database} {nodeId : String}
  {nodeRoot : RemotePath} {entries : List UntrackedFile} {entry : UntrackedFile}
  {order : NewestFirst} {fileId : ℕ} {recordAlive : Bool}

theorem exists_tombstone_iff {found : Option AuditRow}
    (isTombstone : ∀ r, found = some r → (tombstoneOf liveActions r).isSome) :
    (∃ t, found.bind (tombstoneOf liveActions) = some t ∧ t.fileId = fileId ∧
      t.recordAlive = recordAlive) ↔
    ∃ r, found = some r ∧ r.fileId? = some fileId ∧ liveActions.contains r.action = recordAlive := by
  cases found with
  | none => simp
  | some r =>
    obtain ⟨t, ht⟩ := Option.isSome_iff_exists.mp (isTombstone r rfl)
    obtain ⟨hfile, -, halive⟩ := tombstoneOf_fields ht
    simp [ht, hfile, halive]

theorem exists_localMatch_iff (free : Unobstructed device now db nodeId nodeRoot entries)
    (hentry : entry ∈ entries) :
    (∃ m ∈ (matchDeleteTombstones device order db nodeId nodeRoot entries).1,
      m.localPath = entry.localPath ∧ m.fileId = fileId ∧ m.recordAlive = recordAlive) ↔
    ∃ r, (localTombstoneRows order db nodeId (expectedRemotePaths device nodeRoot entries)).find?
        (rowApplies device nodeRoot entry [.syncMove, .syncRename] (standsAt db)) = some r ∧
      r.fileId? = some fileId ∧ liveActions.contains r.action = recordAlive := by
  refine (exists_mem_matchTombstones_iff free.apart hentry).trans ?_
  have hlive : ∀ found, (localTombstoneRows order db nodeId
      (expectedRemotePaths device nodeRoot entries)).find?
        (rowApplies device nodeRoot entry [.syncMove, .syncRename] (standsAt db)) = some found →
      tombstoneOf [.syncMove, .syncRename] found = tombstoneOf liveActions found :=
    fun found hfound =>
      tombstoneOf_live (mem_localTombstoneRows.mp (List.mem_of_find?_eq_some hfound)).2.1
  rw [← exists_tombstone_iff fun r hr => ?_, ← Option.bind_congr hlive, ← find?_localTombstones]
  · simp only [List.not_mem_nil, not_false_eq_true, true_and]
    rfl
  · rw [← hlive r hr]
    exact isSome_of_rowApplies (List.find?_some hr)

theorem exists_centralMatch_iff (free : Unobstructed device now db nodeId nodeRoot entries)
    (hentry : entry ∈ entries) :
    (∃ m ∈ (matchTombstonesForContext device order now db nodeId nodeRoot entries).1,
      m.localPath = entry.localPath ∧ m.fileId = fileId ∧ m.recordAlive = recordAlive) ↔
    ∃ r, (syncInfoRows order now db nodeId).find?
        (rowApplies device nodeRoot entry liveActions (standsUnder db nodeId)) = some r ∧
      r.fileId? = some fileId ∧ liveActions.contains r.action = recordAlive := by
  refine (exists_mem_matchTombstones_iff free.apart hentry).trans ?_
  rw [← exists_tombstone_iff fun r hr => isSome_of_rowApplies (List.find?_some hr),
    ← find?_syncInfoDeleted free hentry]
  simp only [List.not_mem_nil, not_false_eq_true, true_and]
  rfl

theorem exists_find?_local (h : r ∈ localFitting device db nodeId nodeRoot entries entry) :
    ∃ l, (localTombstoneRows order db nodeId (expectedRemotePaths device nodeRoot entries)).find?
      (rowApplies device nodeRoot entry [.syncMove, .syncRename] (standsAt db)) = some l :=
  Option.isSome_iff_exists.mp (List.find?_isSome.mpr ⟨r, mem_localFitting.mp h⟩)

variable (free : Unobstructed device now db nodeId nodeRoot entries)

include free

variable (hentry : entry ∈ entries)

include hentry

theorem exists_find?_central (h : r ∈ centralFitting device now db nodeId nodeRoot entry) :
    ∃ c, (syncInfoRows order now db nodeId).find?
      (rowApplies device nodeRoot entry liveActions (standsUnder db nodeId)) = some c :=
  Option.isSome_iff_exists.mp (List.find?_isSome.mpr ⟨r, (mem_centralFitting free hentry).mp h⟩)

theorem NewestAgree.matches_iff (agree : NewestAgree device now db nodeId nodeRoot entries entry)
    {order' : NewestFirst} :
    (∃ m ∈ (matchDeleteTombstones device order db nodeId nodeRoot entries).1,
      m.localPath = entry.localPath ∧ m.fileId = fileId ∧ m.recordAlive = recordAlive) ↔
    ∃ m ∈ (matchTombstonesForContext device order' now db nodeId nodeRoot entries).1,
      m.localPath = entry.localPath ∧ m.fileId = fileId ∧ m.recordAlive = recordAlive := by
  rw [exists_localMatch_iff free hentry, exists_centralMatch_iff free hentry]
  constructor
  · rintro ⟨l, hl, hfile, halive⟩
    have hnewest := newest_localFitting free hentry hl
    obtain ⟨c, hc⟩ : ∃ c, (syncInfoRows order' now db nodeId).find? _ = some c :=
      exists_find?_central free hentry (mem_centralFitting_of_local free hnewest.1)
    obtain ⟨hsameFile, hsameFlag⟩ := agree.2 l c hnewest (newest_centralFitting free hentry hc)
    exact ⟨c, hc, hsameFile ▸ hfile, hsameFlag ▸ halive⟩
  · rintro ⟨c, hc, hfile, halive⟩
    have hnewest := newest_centralFitting free hentry hc
    obtain ⟨l₀, hl₀⟩ := List.exists_mem_of_ne_nil _ (agree.1 (List.ne_nil_of_mem hnewest.1))
    obtain ⟨l, hl⟩ : ∃ l, (localTombstoneRows order db nodeId _).find? _ = some l :=
      exists_find?_local hl₀
    obtain ⟨hsameFile, hsameFlag⟩ := agree.2 l c (newest_localFitting free hentry hl) hnewest
    exact ⟨l, hl, hsameFile ▸ hfile, hsameFlag ▸ halive⟩

theorem find?_local_favoured
    (newest : Newest (localFitting device db nodeId nodeRoot entries entry) r) :
    (localTombstoneRows (newestFirstFavouring r) db nodeId
        (expectedRemotePaths device nodeRoot entries)).find?
      (rowApplies device nodeRoot entry [.syncMove, .syncRename] (standsAt db)) = some r := by
  obtain ⟨l, hl⟩ : ∃ l, (localTombstoneRows (newestFirstFavouring r) db nodeId _).find? _ = some l :=
    exists_find?_local newest.1
  obtain ⟨chunk, hchunk, hfind⟩ := exists_statement hl
  obtain ⟨hlocal, hin⟩ := (mem_statement hchunk).mp
    (List.mem_filter.mpr ⟨List.mem_of_find?_eq_some hfind, List.find?_some hfind⟩)
  have hin' := free.together entry hentry chunk hchunk l hlocal r newest.1 hin
  rw [hl, ← hfind]
  refine find?_favoured (pairwise_mergeSort_comesBefore r _) ⟨?_, fun r' hr' => newest.2 r' ?_⟩
  · exact (mem_statement hchunk).mpr ⟨newest.1, hin'⟩
  · exact ((mem_statement hchunk).mp hr').1

theorem find?_central_favoured
    (newest : Newest (centralFitting device now db nodeId nodeRoot entry) r) :
    (syncInfoRows (newestFirstFavouring r) now db nodeId).find?
      (rowApplies device nodeRoot entry liveActions (standsUnder db nodeId)) = some r := by
  have hsorted : (syncInfoRows (newestFirstFavouring r) now db nodeId).Pairwise fun a b =>
      comesBefore r a b :=
    (pairwise_mergeSort_comesBefore r _).sublist (List.take_sublist _ _)
  refine find?_favoured hsorted ⟨?_, fun r' hr' => newest.2 r' ?_⟩
  · exact List.mem_filter.mpr ((mem_centralFitting free hentry).mp newest.1)
  · exact (mem_centralFitting free hentry).mpr (List.mem_filter.mp hr')

omit hentry

theorem ReadersAgree.newestAgree (agree : ReadersAgree device now db nodeId nodeRoot entries)
    (hentry : entry ∈ entries) : NewestAgree device now db nodeId nodeRoot entries entry := by
  have hdecides : ∀ {order order' : NewestFirst} {fileId : ℕ} {recordAlive : Bool}, _ ↔ _ :=
    fun {order order' fileId recordAlive} =>
      (exists_localMatch_iff free hentry).symm.trans
        ((agree order order' entry.localPath fileId recordAlive).trans
          (exists_centralMatch_iff free hentry))
  have hfile : ∀ c ∈ centralFitting device now db nodeId nodeRoot entry, ∃ fileId,
      c.fileId? = some fileId := fun c hc => by
    obtain ⟨t, ht⟩ := Option.isSome_iff_exists.mp (isSome_of_rowApplies (List.mem_filter.mp hc).2)
    exact ⟨t.fileId, (tombstoneOf_fields ht).1⟩
  constructor
  · intro hsome
    obtain ⟨c₀, hc₀⟩ := List.exists_mem_of_ne_nil _ hsome
    obtain ⟨c, hc⟩ : ∃ c, (syncInfoRows mergeNewestFirst now db nodeId).find? _ = some c :=
      exists_find?_central free hentry hc₀
    obtain ⟨fileId, hid⟩ := hfile c (newest_centralFitting free hentry hc).1
    obtain ⟨l, hl, -⟩ : ∃ l, (localTombstoneRows mergeNewestFirst db nodeId _).find? _ = some l ∧
        l.fileId? = some fileId ∧ _ := hdecides.mpr ⟨c, hc, hid, rfl⟩
    exact List.ne_nil_of_mem (newest_localFitting free hentry hl).1
  · intro l c hl hc
    obtain ⟨fileId, hid⟩ := hfile l (mem_centralFitting_of_local free hl.1)
    obtain ⟨c', hc', hid', hflag⟩ := hdecides.mp ⟨l, find?_local_favoured free hentry hl, hid, rfl⟩
    obtain rfl := Option.some.inj ((find?_central_favoured free hentry hc).symm.trans hc')
    exact ⟨hid.trans hid'.symm, hflag.symm⟩

omit free

/-- A device that still has its clean copy of the file at the old path. -/
def sampleDevice : Device Bool where
  hashing := sampleHashing
  nfc := id
  mirrorRoot := ["mirror"]
  lastSyncedHash id := if id = 0 then some (sampleHashing.md5Buffer true) else none
  readFile path := if path = ["mirror", "wip", "old.md"] then some true else none

def oldCopy : UntrackedFile := ⟨["mirror", "wip", "old.md"], "old.md", none⟩

/-- The file has been renamed, and the log says so under `action`. -/
def renamed (action : AuditAction) : Database where
  files := [FileOps.pushedFile "new.md"]
  auditLog := [⟨"user", action, .file 0, [("node_id", .text "node"),
    ("old_remote_path", .path ["org", "projects", "key", "wip", "old.md"])], 1000⟩]
  pendingOps := []
  nextId := 1

theorem unobstructed_renamed : Unobstructed sampleDevice 1000 (renamed .syncRename) "node"
    ["org", "projects", "key"] [oldCopy] where
  keyed := ⟨by decide, by decide⟩
  apart := by
    intro e he e' he' _
    rw [List.mem_singleton.mp he, List.mem_singleton.mp he']
  recent := by decide +kernel
  uncrowded := by
    unfold Uncrowded
    decide +kernel
  together := by decide +kernel
  kept := by decide +kernel

end Portuni.Tombstones
