import Portuni.Content.Hashing
import Portuni.Tombstones.Readers

namespace Portuni.Tombstones

/-!
Matching a node's tombstones against the untracked files of its mirror. Both
engines match in the same way; they differ in where the tombstones and the
record's present path come from.
-/

section

open Content Files

universe u

/-- An untracked file of a mirror, with the sha256 that discovery may have taken. -/
structure UntrackedFile where
  localPath : LocalPath
  filename : String
  sha256 : Option String
deriving DecidableEq

/-- A device: the mirror of a node, the baselines in its `file_state` and its disk. -/
structure Device (Bytes : Type u) where
  hashing : Hashing Bytes
  nfc : List String → List String
  mirrorRoot : LocalPath
  lastSyncedHash : ℕ → Option String
  readFile : LocalPath → Option Bytes

structure DeletedRemoteEntry where
  fileId : ℕ
  filename : String
  localPath : LocalPath
  remotePath : RemotePath
  hash : String
  recordAlive : Bool
deriving DecidableEq

variable {Bytes : Type u} (device : Device Bytes)

def diskHashMatching (referenceHash : String) (entry : UntrackedFile) : Option String :=
  let useMd5 : Bool := referenceHash.length = 32
  match useMd5, entry.sha256 with
  | false, some hash =>
    if hash.length = 64 then some hash
    else (device.readFile entry.localPath).map (device.hashing.hashLike referenceHash)
  | _, _ => (device.readFile entry.localPath).map (device.hashing.hashLike referenceHash)

def takeUnmatched (entries : List UntrackedFile) (normalizedPath : List String)
    (matchedPaths : List LocalPath) : Option UntrackedFile :=
  entries.find? fun e =>
    device.nfc e.localPath = normalizedPath && !matchedPaths.contains e.localPath

/-- The entry a tombstone matches: at its path, with the bytes its file was last
synced with, and not where the record has moved back to. -/
def matchTombstone (nodeRoot : RemotePath) (movedBack : ℕ → RemotePath → Bool)
    (entries : List UntrackedFile) (matchedPaths : List LocalPath) (t : DeletedTombstone) :
    Option DeletedRemoteEntry := do
  let expectedLocal ← (deriveLocalPath device.mirrorRoot nodeRoot t.remotePath).toOption
  let entry ← takeUnmatched device entries (device.nfc expectedLocal) matchedPaths
  let lastSynced ← device.lastSyncedHash t.fileId
  let hash ← diskHashMatching device lastSynced entry
  if hash ≠ lastSynced then none
  else if t.recordAlive && movedBack t.fileId t.remotePath then none
  else some ⟨t.fileId, entry.filename, entry.localPath, t.remotePath, hash, t.recordAlive⟩

def matchTombstones (nodeRoot : RemotePath) (movedBack : ℕ → RemotePath → Bool)
    (entries : List UntrackedFile) (matchedPaths : List LocalPath) :
    List DeletedTombstone → List DeletedRemoteEntry
  | [] => []
  | t :: rest =>
    match matchTombstone device nodeRoot movedBack entries matchedPaths t with
    | some m =>
      m :: matchTombstones nodeRoot movedBack entries (m.localPath :: matchedPaths) rest
    | none => matchTombstones nodeRoot movedBack entries matchedPaths rest

def remaining (entries : List UntrackedFile) (deleted : List DeletedRemoteEntry) :
    List UntrackedFile :=
  entries.filter fun e => !(deleted.map (·.localPath)).contains e.localPath

def expectedRemotePaths (nodeRoot : RemotePath) (entries : List UntrackedFile) :
    List RemotePath :=
  entries.flatMap fun e =>
    match below device.mirrorRoot e.localPath with
    | some rel =>
      -- `relative` yields a leading `..` outside the mirror
      if rel.head?.any (·.startsWith "..") then []
      else [nodeRoot ++ rel, device.nfc (nodeRoot ++ rel)]
    | none => []

/-- The direct engine's matcher, on the untracked files of one node. -/
def matchDeleteTombstones (order : NewestFirst) (db : Database) (nodeId : String)
    (nodeRoot : RemotePath) (entries : List UntrackedFile) :
    List DeletedRemoteEntry × List UntrackedFile :=
  let tombstones :=
    localTombstones order db nodeId (expectedRemotePaths device nodeRoot entries)
  let movedBack fileId remotePath :=
    (db.fileById fileId).any fun r => r.remotePath = some remotePath
  let deleted := matchTombstones device nodeRoot movedBack entries [] tombstones
  (deleted, remaining entries deleted)

/-- The central engine's matcher, on the tombstones and files of sync-info. -/
def matchTombstonesForContext (order : NewestFirst) (now : ℕ) (db : Database) (nodeId : String)
    (nodeRoot : RemotePath) (entries : List UntrackedFile) :
    List DeletedRemoteEntry × List UntrackedFile :=
  let movedBack fileId remotePath :=
    ((db.files.filter (·.nodeId = nodeId)).find? (·.id = fileId)).any fun r =>
      r.remotePath = some remotePath
  let deleted := matchTombstones device nodeRoot movedBack entries []
    (syncInfoDeleted order now db nodeId)
  (deleted, remaining entries deleted)

def UntrackedFile.InSection (mirrorRoot : LocalPath) (e : UntrackedFile) : Prop :=
  ∃ first rest, below mirrorRoot e.localPath = some (first :: rest) ∧
    (FileSection.ofSegment first).isSome

/-- The device holds the file's copy at `remotePath`, as it last synced it, and no
other untracked file there under another spelling. -/
structure CleanCopy (nodeRoot : RemotePath) (entries : List UntrackedFile) (fileId : ℕ)
    (remotePath : RemotePath) (entry : UntrackedFile) : Prop where
  mem : entry ∈ entries
  inSection : entry.InSection device.mirrorRoot
  path : deriveLocalPath device.mirrorRoot nodeRoot remotePath = .ok entry.localPath
  clean : ∃ hash, device.lastSyncedHash fileId = some hash ∧
    diskHashMatching device hash entry = some hash
  only : ∀ e ∈ entries, device.nfc e.localPath = device.nfc entry.localPath → e = entry

variable {device} {nodeRoot : RemotePath} {movedBack : ℕ → RemotePath → Bool}
  {entries : List UntrackedFile} {matchedPaths : List LocalPath} {t : DeletedTombstone}
  {tombstones : List DeletedTombstone} {entry : UntrackedFile} {fileId : ℕ} {path : RemotePath}

theorem CleanCopy.matchTombstone (copy : CleanCopy device nodeRoot entries fileId path entry)
    (hfile : t.fileId = fileId) (hpath : t.remotePath = path)
    (hmoved : movedBack fileId path = false) (hunmatched : entry.localPath ∉ matchedPaths) :
    ∃ m, matchTombstone device nodeRoot movedBack entries matchedPaths t = some m ∧
      m.localPath = entry.localPath := by
  subst hfile hpath
  obtain ⟨hash, hstate, hdisk⟩ := copy.clean
  have htake : takeUnmatched device entries (device.nfc entry.localPath) matchedPaths =
      some entry := by
    cases hfind : takeUnmatched device entries (device.nfc entry.localPath) matchedPaths with
    | none =>
      have hmiss := List.find?_eq_none.mp hfind entry copy.mem
      simp [hunmatched] at hmiss
    | some e =>
      have he := List.find?_some hfind
      simp only [Bool.and_eq_true, decide_eq_true_eq] at he
      rw [copy.only e (List.mem_of_find?_eq_some hfind) he.1]
  refine ⟨⟨t.fileId, entry.filename, entry.localPath, t.remotePath, hash, t.recordAlive⟩, ?_, rfl⟩
  simp [Tombstones.matchTombstone, copy.path, Except.toOption, htake, hstate, hdisk, hmoved]

theorem mem_matchTombstones_of_matched (copy : CleanCopy device nodeRoot entries fileId path entry)
    (ht : ∃ t ∈ tombstones, t.fileId = fileId ∧ t.remotePath = path)
    (hmoved : movedBack fileId path = false) (hunmatched : entry.localPath ∉ matchedPaths) :
    ∃ m ∈ matchTombstones device nodeRoot movedBack entries matchedPaths tombstones,
      m.localPath = entry.localPath := by
  induction tombstones generalizing matchedPaths with
  | nil =>
    obtain ⟨t, ht, -⟩ := ht
    cases ht
  | cons t₀ rest ih =>
    obtain ⟨t, ht, hfile, hpath⟩ := ht
    unfold matchTombstones
    cases hmatch : matchTombstone device nodeRoot movedBack entries matchedPaths t₀ with
    | none =>
      rcases List.mem_cons.mp ht with rfl | ht
      · obtain ⟨m, hm, -⟩ := copy.matchTombstone hfile hpath hmoved hunmatched
        rw [hmatch] at hm
        cases hm
      · exact ih ⟨t, ht, hfile, hpath⟩ hunmatched
    | some m =>
      by_cases hm : m.localPath = entry.localPath
      · exact ⟨m, List.mem_cons_self, hm⟩
      · rcases List.mem_cons.mp ht with rfl | ht
        · obtain ⟨m', hm', hlocal⟩ := copy.matchTombstone hfile hpath hmoved hunmatched
          rw [hmatch] at hm'
          cases hm'
          exact absurd hlocal hm
        · have hstill : entry.localPath ∉ m.localPath :: matchedPaths := by
            simp [Ne.symm hm, hunmatched]
          obtain ⟨m', hm', hlocal⟩ := ih ⟨t, ht, hfile, hpath⟩ hstill
          exact ⟨m', List.mem_cons_of_mem _ hm', hlocal⟩

theorem not_mem_remaining {deleted : List DeletedRemoteEntry}
    (h : ∃ m ∈ deleted, m.localPath = entry.localPath) : entry ∉ remaining entries deleted := by
  obtain ⟨m, hm, hlocal⟩ := h
  simp only [remaining, List.mem_filter, not_and]
  intro _
  simpa using ⟨m, hm, hlocal⟩

theorem UntrackedFile.InSection.not_outside {mirrorRoot : LocalPath}
    (h : entry.InSection mirrorRoot) (rel : LocalPath)
    (hrel : below mirrorRoot entry.localPath = some rel) :
    rel.head?.any (·.startsWith "..") = false := by
  obtain ⟨first, rest, hbelow, hsection⟩ := h
  obtain rfl := Option.some.inj (hrel.symm.trans hbelow)
  unfold FileSection.ofSegment at hsection
  simp only [List.head?_cons, Option.any_some]
  split at hsection
  · decide +kernel
  · decide +kernel
  · decide +kernel
  · cases hsection

variable (copy : CleanCopy device nodeRoot entries fileId path entry)

include copy

theorem CleanCopy.mem_expectedRemotePaths : path ∈ expectedRemotePaths device nodeRoot entries := by
  obtain ⟨rel, hbelow, hlocal⟩ : ∃ rel, below nodeRoot path = some rel ∧
      entry.localPath = device.mirrorRoot ++ rel := by
    have hpath := copy.path
    unfold deriveLocalPath at hpath
    cases hbelow : below nodeRoot path with
    | none => simp [hbelow] at hpath
    | some rel =>
      simp only [hbelow] at hpath
      cases hsafe : assertSafeRelativePath "deriveLocalPath.remotePath" rel with
      | error reason =>
        rw [hsafe] at hpath
        cases hpath
      | ok _ =>
        rw [hsafe] at hpath
        exact ⟨rel, rfl, (Except.ok.inj hpath).symm⟩
  have hsplit := below_eq_some hbelow
  refine List.mem_flatMap.mpr ⟨entry, copy.mem, ?_⟩
  have hinside := copy.inSection.not_outside
  rw [hlocal, below_append device.mirrorRoot hsplit.2] at hinside ⊢
  simp [hsplit.1, hinside rel rfl]

theorem CleanCopy.not_new_local {order : NewestFirst} {db : Database} {nodeId : String}
    {r : AuditRow} (hr : r ∈ db.auditLog) (hreads : reads localActions nodeId r)
    (hfile : r.fileId? = some fileId) (hpath : r.auditRemotePath = some path)
    (hgone : ∀ row ∈ db.files, row.id = fileId → row.remotePath ≠ some path) :
    entry ∉ (matchDeleteTombstones device order db nodeId nodeRoot entries).2 := by
  refine not_mem_remaining (mem_matchTombstones_of_matched copy ?_ ?_ (List.not_mem_nil))
  · refine ⟨_, List.mem_filterMap.mpr ⟨r, mem_localTombstoneRows.mpr ⟨hr, hreads, ?_⟩,
      tombstoneOf_eq_some _ hfile hpath⟩, rfl, rfl⟩
    simpa [hpath] using copy.mem_expectedRemotePaths
  · rw [Option.any_eq_false]
    intro row hrow
    have hid := List.find?_some hrow
    simpa using hgone row (List.mem_of_find?_eq_some hrow) (by simpa using hid)

theorem CleanCopy.not_new_local_central {order : NewestFirst} {now : ℕ} {db : Database}
    {nodeId : String} {r : AuditRow} (hr : r ∈ syncInfoRows order now db nodeId)
    (hfile : r.fileId? = some fileId) (hpath : r.auditRemotePath = some path)
    (hgone : ∀ row ∈ db.files, row.id = fileId → row.remotePath ≠ some path) :
    entry ∉ (matchTombstonesForContext device order now db nodeId nodeRoot entries).2 := by
  refine not_mem_remaining (mem_matchTombstones_of_matched copy ?_ ?_ (List.not_mem_nil))
  · have ht := List.mem_filterMap.mpr ⟨r, hr,
      tombstoneOf_eq_some [.syncMove, .syncRename, .syncRenameRemote] hfile hpath⟩
    obtain ⟨t, ht, hfile', hpath'⟩ := exists_mem_dedupeByRemotePath ht List.not_mem_nil
    exact ⟨t, ht, hfile', hpath'⟩
  · rw [Option.any_eq_false]
    intro row hrow
    have hid := List.find?_some hrow
    have hmem := (List.mem_filter.mp (List.mem_of_find?_eq_some hrow)).1
    simpa using hgone row hmem (by simpa using hid)

end

open Content Files

universe u

variable {Bytes : Type u} (device : Device Bytes)

/-- The tombstone is for the path of the file, which holds what its file was last synced with. -/
def tombstoneFits (nodeRoot : RemotePath) (entry : UntrackedFile) (t : DeletedTombstone) : Bool :=
  (deriveLocalPath device.mirrorRoot nodeRoot t.remotePath).toOption.any (fun expected =>
    device.nfc expected = device.nfc entry.localPath) &&
    (device.lastSyncedHash t.fileId).any fun hash => diskHashMatching device hash entry = some hash

def tombstoneApplies (nodeRoot : RemotePath) (movedBack : ℕ → RemotePath → Bool)
    (entry : UntrackedFile) (t : DeletedTombstone) : Bool :=
  tombstoneFits device nodeRoot entry t && !(t.recordAlive && movedBack t.fileId t.remotePath)

def Apart (entries : List UntrackedFile) : Prop :=
  ∀ e ∈ entries, ∀ e' ∈ entries, device.nfc e.localPath = device.nfc e'.localPath → e = e'

variable {device} {nodeRoot : RemotePath} {movedBack : ℕ → RemotePath → Bool}
  {entries : List UntrackedFile} {matchedPaths : List LocalPath} {t : DeletedTombstone}
  {tombstones : List DeletedTombstone} {entry : UntrackedFile} {m : DeletedRemoteEntry}

theorem takeUnmatched_eq_some (apart : Apart device entries) (hentry : entry ∈ entries)
    (hunmatched : entry.localPath ∉ matchedPaths) :
    takeUnmatched device entries (device.nfc entry.localPath) matchedPaths = some entry := by
  unfold takeUnmatched
  cases hfind : entries.find? fun e => decide (device.nfc e.localPath = device.nfc entry.localPath) &&
      !matchedPaths.contains e.localPath with
  | none =>
    have hmiss := List.find?_eq_none.mp hfind entry hentry
    simp [hunmatched] at hmiss
  | some e =>
    have he := List.find?_some hfind
    simp only [Bool.and_eq_true, decide_eq_true_eq] at he
    rw [apart e (List.mem_of_find?_eq_some hfind) entry hentry he.1]

theorem matchTombstone_of_applies (apart : Apart device entries) (hentry : entry ∈ entries)
    (hunmatched : entry.localPath ∉ matchedPaths)
    (happlies : tombstoneApplies device nodeRoot movedBack entry t) :
    ∃ m, matchTombstone device nodeRoot movedBack entries matchedPaths t = some m ∧
      m.localPath = entry.localPath ∧ m.fileId = t.fileId ∧ m.recordAlive = t.recordAlive := by
  simp only [tombstoneApplies, tombstoneFits, Bool.and_eq_true] at happlies
  obtain ⟨⟨hpath, hhash⟩, hmoved⟩ := happlies
  obtain ⟨expected, hexpected, hnfc⟩ := (Option.any_eq_true _ _).mp hpath
  obtain ⟨hash, hsynced, hdisk⟩ := (Option.any_eq_true _ _).mp hhash
  simp only [decide_eq_true_eq] at hnfc hdisk
  refine ⟨⟨t.fileId, entry.filename, entry.localPath, t.remotePath, hash, t.recordAlive⟩, ?_, rfl,
    rfl, rfl⟩
  have htake := takeUnmatched_eq_some apart hentry hunmatched
  rw [← hnfc] at htake
  simp only [Bool.not_eq_true'] at hmoved
  simp [matchTombstone, hexpected, htake, hsynced, hdisk, hmoved]

theorem applies_of_matchTombstone
    (h : matchTombstone device nodeRoot movedBack entries matchedPaths t = some m) :
    ∃ entry ∈ entries, entry.localPath ∉ matchedPaths ∧
      tombstoneApplies device nodeRoot movedBack entry t ∧ m.localPath = entry.localPath ∧
      m.fileId = t.fileId ∧ m.recordAlive = t.recordAlive := by
  simp only [matchTombstone, Option.bind_eq_bind, Option.bind_eq_some_iff] at h
  obtain ⟨expected, hexpected, entry, htake, hash, hsynced, disk, hdisk, h⟩ := h
  have hfound := List.find?_some htake
  simp only [Bool.and_eq_true, decide_eq_true_eq, Bool.not_eq_true'] at hfound
  split at h
  · cases h
  · rename_i hsame
    obtain rfl : disk = hash := by simpa using hsame
    split at h
    · cases h
    · rename_i hmoved
      cases h
      refine ⟨entry, List.mem_of_find?_eq_some htake, by simpa using hfound.2, ?_, rfl, rfl, rfl⟩
      simp only [tombstoneApplies, tombstoneFits, hexpected, hsynced, Option.any_some, hfound.1,
        hdisk, decide_true, Bool.and_self, Bool.true_and]
      rw [Bool.not_eq_true] at hmoved
      rw [hmoved]
      rfl

theorem exists_mem_matchTombstones_iff (apart : Apart device entries) (hentry : entry ∈ entries)
    {fileId : ℕ} {recordAlive : Bool} :
    (∃ m ∈ matchTombstones device nodeRoot movedBack entries matchedPaths tombstones,
      m.localPath = entry.localPath ∧ m.fileId = fileId ∧ m.recordAlive = recordAlive) ↔
      entry.localPath ∉ matchedPaths ∧
        ∃ t, tombstones.find? (tombstoneApplies device nodeRoot movedBack entry) = some t ∧
          t.fileId = fileId ∧ t.recordAlive = recordAlive := by
  induction tombstones generalizing matchedPaths with
  | nil => simp [matchTombstones]
  | cons t rest ih =>
    unfold matchTombstones
    cases hmatch : matchTombstone device nodeRoot movedBack entries matchedPaths t with
    | none =>
      simp only
      rw [ih]
      refine and_congr_right fun hunmatched => ?_
      have hskip : ¬ tombstoneApplies device nodeRoot movedBack entry t := fun happlies => by
        obtain ⟨m, hm, -⟩ := matchTombstone_of_applies apart hentry hunmatched happlies
        rw [hmatch] at hm
        cases hm
      rw [List.find?_cons_of_neg hskip]
    | some m =>
      obtain ⟨taken, htaken, hfree, happlies, hpath, hfile, halive⟩ :=
        applies_of_matchTombstone hmatch
      simp only [List.exists_mem_cons_iff]
      rw [ih]
      by_cases hsame : m.localPath = entry.localPath
      · obtain rfl := apart taken htaken entry hentry (by rw [← hpath, hsame])
        simp [List.find?_cons_of_pos happlies, hfree, hpath, hfile, halive]
      · have hskip : entry.localPath ∉ matchedPaths →
            ¬ tombstoneApplies device nodeRoot movedBack entry t := fun hunmatched happlies => by
          obtain ⟨m', hm', hlocal, -⟩ :=
            matchTombstone_of_applies apart hentry hunmatched happlies
          rw [hmatch] at hm'
          cases hm'
          exact hsame hlocal
        simp only [hsame, false_and, false_or, List.mem_cons, Ne.symm hsame]
        refine and_congr_right fun hunmatched => ?_
        rw [List.find?_cons_of_neg (hskip hunmatched)]

theorem exists_entry_of_mem_matchTombstones
    (hm : m ∈ matchTombstones device nodeRoot movedBack entries matchedPaths tombstones) :
    ∃ entry ∈ entries, m.localPath = entry.localPath := by
  induction tombstones generalizing matchedPaths with
  | nil => cases hm
  | cons t rest ih =>
    unfold matchTombstones at hm
    cases hmatch : matchTombstone device nodeRoot movedBack entries matchedPaths t with
    | none =>
      rw [hmatch] at hm
      exact ih hm
    | some m' =>
      rw [hmatch] at hm
      rcases List.mem_cons.mp hm with rfl | hm
      · obtain ⟨entry, hentry, -, -, hpath, -⟩ := applies_of_matchTombstone hmatch
        exact ⟨entry, hentry, hpath⟩
      · exact ih hm

theorem find?_dedupeByRemotePath {p : DeletedTombstone → Bool} {seen : List (RemotePath × ℕ)}
    (kept : tombstones.Pairwise fun t t' =>
      (t'.remotePath, t'.fileId) = (t.remotePath, t.fileId) → p t' → p t)
    (unseen : ∀ t ∈ tombstones, (t.remotePath, t.fileId) ∈ seen → p t = false) :
    (dedupeByRemotePath seen tombstones).find? p = tombstones.find? p := by
  induction tombstones generalizing seen with
  | nil => rfl
  | cons t rest ih =>
    obtain ⟨hfirst, hrest⟩ := List.pairwise_cons.mp kept
    have hunseen : ∀ t' ∈ rest, (t'.remotePath, t'.fileId) ∈ seen → p t' = false :=
      fun t' ht' => unseen t' (List.mem_cons_of_mem _ ht')
    unfold dedupeByRemotePath
    by_cases hseen : (t.remotePath, t.fileId) ∈ seen
    · have hskip := unseen t List.mem_cons_self hseen
      simp [hseen, hskip, ih hrest hunseen]
    · simp only [List.contains_eq_mem, hseen, decide_false, Bool.false_eq_true, if_false]
      cases ht : p t with
      | true => simp [ht]
      | false =>
        simp only [List.find?_cons, ht]
        refine ih hrest fun t' ht' hmem => ?_
        rcases List.mem_cons.mp hmem with hkey | hmem
        · rw [Bool.eq_false_iff]
          intro hholds
          rw [hfirst t' ht' hkey hholds] at ht
          cases ht
        · exact hunseen t' ht' hmem

/-- The entry is an untracked file that the tombstone fits. -/
def FoundBy (device : Device Bytes) (nodeRoot : RemotePath) (entries : List UntrackedFile)
    (t : DeletedTombstone) (m : DeletedRemoteEntry) : Prop :=
  m.fileId = t.fileId ∧ m.recordAlive = t.recordAlive ∧ ∃ entry ∈ entries,
    m.localPath = entry.localPath ∧ tombstoneFits device nodeRoot entry t

/-- Each untracked file is new, or what is left of one deleted record, and no tombstone tells of two
of these. -/
structure OneToOne (device : Device Bytes) (nodeRoot : RemotePath)
    (tombstones : List DeletedTombstone) (entries : List UntrackedFile)
    (deleted : List DeletedRemoteEntry) (left : List UntrackedFile) : Prop where
  fits : ∃ used, used.Sublist tombstones ∧
    List.Forall₂ (FoundBy device nodeRoot entries) used deleted
  once : (deleted.map (·.localPath)).Nodup
  split : ∀ entry ∈ entries,
    entry ∉ left ↔ ∃! m, m ∈ deleted ∧ m.localPath = entry.localPath

theorem fits_matchTombstones (matchedPaths : List LocalPath) :
    let deleted := matchTombstones device nodeRoot movedBack entries matchedPaths tombstones
    (∃ used, used.Sublist tombstones ∧
      List.Forall₂ (FoundBy device nodeRoot entries) used deleted) ∧
    (deleted.map (·.localPath)).Nodup ∧ ∀ m ∈ deleted, m.localPath ∉ matchedPaths := by
  induction tombstones generalizing matchedPaths with
  | nil => exact ⟨⟨[], .slnil, .nil⟩, .nil, by simp [matchTombstones]⟩
  | cons t rest ih =>
    unfold matchTombstones
    split
    next m hm =>
      obtain ⟨⟨used, hused, hfits⟩, nodup, hrest⟩ := ih (m.localPath :: matchedPaths)
      obtain ⟨entry, hentry, hunmatched, happlies, hpath, hfile⟩ := applies_of_matchTombstone hm
      have hfit := (Bool.and_eq_true_iff.mp happlies).1
      refine ⟨⟨t :: used, hused.cons_cons t,
        .cons ⟨hfile.1, hfile.2, entry, hentry, hpath, hfit⟩ hfits⟩, ?_, ?_⟩
      · refine List.nodup_cons.mpr ⟨fun hmem => ?_, nodup⟩
        obtain ⟨m', hm', heq⟩ := List.mem_map.mp hmem
        exact hrest m' hm' (heq ▸ List.mem_cons_self)
      · refine List.forall_mem_cons.mpr ⟨hpath ▸ hunmatched, fun m' hm' => ?_⟩
        exact hrest m' hm' ∘ List.mem_cons_of_mem _
    next =>
      obtain ⟨⟨used, hused, hfits⟩, hrest⟩ := ih matchedPaths
      exact ⟨⟨used, hused.cons t, hfits⟩, hrest⟩

theorem oneToOne_matchTombstones :
    let deleted := matchTombstones device nodeRoot movedBack entries [] tombstones
    OneToOne device nodeRoot tombstones entries deleted (remaining entries deleted) := by
  obtain ⟨fits, nodup, -⟩ :=
    @fits_matchTombstones Bytes device nodeRoot movedBack entries tombstones []
  refine ⟨fits, nodup, fun entry hentry => ?_⟩
  simp only [remaining, List.mem_filter, hentry, true_and, Bool.not_eq_true', Bool.not_eq_false,
    List.contains_iff_mem, List.mem_map]
  constructor
  · rintro ⟨m, hm, hpath⟩
    refine ⟨m, ⟨hm, hpath⟩, fun m' hm' => ?_⟩
    exact List.inj_on_of_nodup_map nodup hm'.1 hm (hm'.2.trans hpath.symm)
  · rintro ⟨m, hm, -⟩
    exact ⟨m, hm⟩

/-- For every audit log, files table and set of untracked files, both readers. -/
theorem matchers_one_to_one (device : Device Bytes) (order : NewestFirst) (now : ℕ) (db : Database)
    (nodeId : String) (nodeRoot : RemotePath) (entries : List UntrackedFile) :
    (∀ deleted left, matchDeleteTombstones device order db nodeId nodeRoot entries =
      (deleted, left) → OneToOne device nodeRoot
        (localTombstones order db nodeId (expectedRemotePaths device nodeRoot entries))
        entries deleted left) ∧
    ∀ deleted left, matchTombstonesForContext device order now db nodeId nodeRoot entries =
      (deleted, left) → OneToOne device nodeRoot (syncInfoDeleted order now db nodeId)
        entries deleted left := by
  constructor
  all_goals
    rintro _ _ ⟨⟩
    exact oneToOne_matchTombstones

end Portuni.Tombstones
