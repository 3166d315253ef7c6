import Portuni.Tombstones.Fitting

namespace Portuni.LocalCleanup

/-!
The tombstone cleanup of a sync run, one file and one tombstone at a time, in a
mirror that the user writes to meanwhile: the walk finds the untracked files,
matching reads their hashes, the cleanup removes what has matched.
-/

section

open Content Files Tombstones

universe u

/-- A mirror, and who put its files where they stand: a sync or the user. -/
structure Mirror (Bytes : Type u) where
  device : Device Bytes
  byUser : LocalPath → Bool

inductive Engine where
  | direct
  | central

/-- What a run works with besides the mirror: its node, the audit log and the records. -/
structure SyncRun where
  engine : Engine
  order : NewestFirst
  now : ℕ
  db : Database
  nodeId : String
  nodeRoot : RemotePath

variable {Bytes : Type u} (run : SyncRun) (device : Device Bytes)

def SyncRun.known (path : LocalPath) : Bool :=
  (run.db.files.filter (·.nodeId = run.nodeId)).any fun r => r.remotePath.any fun remotePath =>
    (deriveLocalPath device.mirrorRoot run.nodeRoot remotePath).toOption.any fun known =>
      device.nfc known = device.nfc path

def inSection (path : LocalPath) : Bool :=
  match below device.mirrorRoot path with
  | some (first :: _) => (FileSection.ofSegment first).isSome
  | _ => false

/-- What the walk makes of a file it comes to. The central engine takes its sha256, and
skips it if it cannot be read. -/
def SyncRun.discover (path : LocalPath) : Option UntrackedFile :=
  if run.known device path || !inSection device path then none
  else
    match run.engine with
    | .direct => some ⟨path, path.getLastD "", none⟩
    | .central => (device.readFile path).map fun bytes =>
      ⟨path, path.getLastD "", some (device.hashing.sha256Buffer bytes)⟩

/-- The tombstones that the run matches against the files it has found. -/
def SyncRun.tombstones (entries : List UntrackedFile) : List DeletedTombstone :=
  match run.engine with
  | .direct => localTombstones run.order run.db run.nodeId
      (expectedRemotePaths device run.nodeRoot entries)
  | .central => syncInfoDeleted run.order run.now run.db run.nodeId

def SyncRun.movedBack : ℕ → RemotePath → Bool :=
  match run.engine with
  | .direct => standsAt run.db
  | .central => standsUnder run.db run.nodeId

inductive Phase where
  | walking (left : List LocalPath) (entries : List UntrackedFile)
  /-- `deleted` has the latest match first. -/
  | matching (left : List DeletedTombstone) (entries : List UntrackedFile)
      (deleted : List DeletedRemoteEntry)
  | cleaning (left : List DeletedRemoteEntry)
deriving DecidableEq

/-- A copy that the cleanup has removed, as it stood at that moment. -/
structure Removal (Bytes : Type u) where
  entry : DeletedRemoteEntry
  bytes : Option Bytes
  byUser : Bool

structure State (Bytes : Type u) where
  mirror : Mirror Bytes
  phase : Phase
  removed : List (Removal Bytes) := []

inductive Action (Bytes : Type u) where
  | user (path : LocalPath) (content : Option Bytes)
  | next
  | rmFails
  | dropFails

def Device.write (path : LocalPath) (content : Option Bytes) : Device Bytes :=
  { device with readFile := Function.update device.readFile path content }

def Device.dropState (fileId : ℕ) : Device Bytes :=
  { device with lastSyncedHash := Function.update device.lastSyncedHash fileId none }

def Mirror.userWrites (mirror : Mirror Bytes) (path : LocalPath) (content : Option Bytes) :
    Mirror Bytes where
  device := Device.write mirror.device path content
  byUser := Function.update mirror.byUser path true

/-- `rm`, which also succeeds where there is no file, and then the `file_state` row of a
record that is gone. -/
def cleanup (dropsState : Bool) (m : DeletedRemoteEntry) : Device Bytes :=
  let removed := Device.write device m.localPath none
  if m.recordAlive || !dropsState then removed else Device.dropState removed m.fileId

def State.clean (s : State Bytes) (dropsState : Bool) (m : DeletedRemoteEntry)
    (left : List DeletedRemoteEntry) : State Bytes where
  mirror := { s.mirror with device := cleanup s.mirror.device dropsState m }
  phase := .cleaning left
  removed :=
    ⟨m, s.mirror.device.readFile m.localPath, s.mirror.byUser m.localPath⟩ :: s.removed

def SyncRun.matches (entries : List UntrackedFile) (deleted : List DeletedRemoteEntry)
    (t : DeletedTombstone) : List DeletedRemoteEntry :=
  (matchTombstone device run.nodeRoot run.movedBack entries (deleted.map (·.localPath)) t).toList
    ++ deleted

def step (s : State Bytes) : Action Bytes → Option (State Bytes)
  | .user path content => some { s with mirror := s.mirror.userWrites path content }
  | .next =>
    match s.phase with
    | .walking (path :: left) entries =>
      let found := run.discover s.mirror.device path
      some { s with phase := .walking left (entries ++ found.toList) }
    | .walking [] entries =>
      some { s with phase := .matching (run.tombstones s.mirror.device entries) entries [] }
    | .matching (t :: left) entries deleted =>
      let deleted := run.matches s.mirror.device entries deleted t
      some { s with phase := .matching left entries deleted }
    | .matching [] _ deleted => some { s with phase := .cleaning deleted.reverse }
    | .cleaning (m :: left) => some (s.clean true m left)
    | .cleaning [] => none
  | .rmFails =>
    match s.phase with
    | .cleaning (_ :: left) => some { s with phase := .cleaning left }
    | _ => none
  | .dropFails =>
    match s.phase with
    | .cleaning (m :: left) => some (s.clean false m left)
    | _ => none

def start (mirror : Mirror Bytes) (paths : List LocalPath) : State Bytes where
  mirror := mirror
  phase := .walking paths []

theorem diskHashMatching_cases {device : Device Bytes} {e : UntrackedFile} {reference disk : String}
    (h : diskHashMatching device reference e = some disk) :
    (disk.length = 64 ∧ e.sha256 = some disk) ∨
      ∃ bytes, device.readFile e.localPath = some bytes ∧
        device.hashing.hashLike reference bytes = disk := by
  simp only [diskHashMatching] at h
  split at h
  · rename_i hash hmd5 hsha
    split at h
    · rename_i hlength
      cases h
      exact .inl ⟨hlength, hsha⟩
    · exact .inr (Option.map_eq_some_iff.mp h)
  · exact .inr (Option.map_eq_some_iff.mp h)

end

open Content Files Library.Runs Tombstones

universe u

variable {Bytes : Type u} (run : SyncRun) (device : Device Bytes) (paths : List LocalPath)

def SyncRun.entries : List UntrackedFile :=
  paths.filterMap (run.discover device)

def SyncRun.deletedRemote : List DeletedRemoteEntry :=
  matchTombstones device run.nodeRoot run.movedBack (run.entries device paths) []
    (run.tombstones device (run.entries device paths))

def cleanupDeletedRemote (entries : List DeletedRemoteEntry) : Device Bytes :=
  entries.foldl (fun device m => cleanup device true m) device

def Quiet (_ : State Bytes) (a : Action Bytes) : Prop :=
  a = .next

instance (s : State Bytes) (a : Action Bytes) : Decidable (Quiet s a) :=
  match a with
  | .next => isTrue rfl
  | .user _ _ => isFalse fun h => by cases h
  | .rmFails => isFalse fun h => by cases h
  | .dropFails => isFalse fun h => by cases h

def SyncRun.Reached (now : Device Bytes) : Phase → Prop
  | .walking left entries =>
    now = device ∧ entries ++ left.filterMap (run.discover device) = run.entries device paths
  | .matching left entries deleted =>
    now = device ∧ entries = run.entries device paths ∧
      deleted.reverse ++ matchTombstones device run.nodeRoot run.movedBack entries
        (deleted.map (·.localPath)) left = run.deletedRemote device paths
  | .cleaning left => cleanupDeletedRemote now left =
      cleanupDeletedRemote device (run.deletedRemote device paths)

variable {run device paths} {mirror : Mirror Bytes} {s s' : State Bytes}
  {acts : List (Action Bytes)} {m : DeletedRemoteEntry} {e : UntrackedFile}

theorem Reached.next (reached : run.Reached device paths s.mirror.device s.phase)
    (hstep : step run s .next = some s') :
    run.Reached device paths s'.mirror.device s'.phase := by
  simp only [step] at hstep
  split at hstep
  · rename_i path left entries hcase
    rw [hcase] at reached
    obtain ⟨hsame, hentries⟩ := reached
    cases hstep
    refine ⟨hsame, ?_⟩
    rw [← hentries, hsame, List.append_assoc]
    cases hfound : run.discover device path with
    | none => simp [hfound]
    | some e => simp [hfound]
  · rename_i entries hcase
    rw [hcase] at reached
    obtain ⟨hsame, hentries⟩ := reached
    cases hstep
    have hall : entries = run.entries device paths := by simpa using hentries
    refine ⟨hsame, hall, ?_⟩
    simp only [hsame, hall]
    rfl
  · rename_i t left entries deleted hcase
    rw [hcase] at reached
    obtain ⟨hsame, hall, hmatched⟩ := reached
    cases hstep
    refine ⟨hsame, hall, ?_⟩
    rw [← hmatched, hsame, SyncRun.matches, matchTombstones]
    cases hmatch : matchTombstone device run.nodeRoot run.movedBack entries
        (deleted.map (·.localPath)) t with
    | none => simp
    | some m => simp
  · rename_i entries deleted hcase
    rw [hcase] at reached
    obtain ⟨hsame, hall, hmatched⟩ := reached
    cases hstep
    have hdeleted : deleted.reverse = run.deletedRemote device paths := by
      simpa [matchTombstones] using hmatched
    simp only [SyncRun.Reached, hsame, hdeleted]
  · rename_i m left hcase
    rw [hcase] at reached
    cases hstep
    exact reached
  · cases hstep

theorem device_of_quiet
    (hrun : Run (step run) Quiet (start mirror paths) acts s) (hdone : s.phase = .cleaning []) :
    s.mirror.device = cleanupDeletedRemote mirror.device (run.deletedRemote mirror.device paths) := by
  have hstart : run.Reached mirror.device paths (start mirror paths).mirror.device
      (start mirror paths).phase := ⟨rfl, rfl⟩
  have hreached := hrun.inv
    (fun s => run.Reached mirror.device paths s.mirror.device s.phase) hstart
    (fun s a s' reached hquiet hstep => by
      subst hquiet
      exact Reached.next reached hstep)
  rw [hdone] at hreached
  exact hreached

theorem readFile_cleanup_true : (cleanup device true m).readFile =
    Function.update device.readFile m.localPath none := by
  unfold cleanup
  split <;> rfl

theorem readFile_cleanupDeletedRemote {entries : List DeletedRemoteEntry} {path : LocalPath} :
    (cleanupDeletedRemote device entries).readFile path =
      if ∃ m ∈ entries, m.localPath = path then none else device.readFile path := by
  induction entries generalizing device with
  | nil => simp [cleanupDeletedRemote]
  | cons m rest ih =>
    have hcons : cleanupDeletedRemote device (m :: rest) =
        cleanupDeletedRemote (cleanup device true m) rest := rfl
    rw [hcons, ih, readFile_cleanup_true]
    by_cases hrest : ∃ m ∈ rest, m.localPath = path
    · have hall : ∃ m' ∈ m :: rest, m'.localPath = path := by
        obtain ⟨m', hm', hpath⟩ := hrest
        exact ⟨m', List.mem_cons_of_mem m hm', hpath⟩
      rw [if_pos hrest, if_pos hall]
    · rw [if_neg hrest]
      by_cases hm : m.localPath = path
      · have hall : ∃ m' ∈ m :: rest, m'.localPath = path := ⟨m, List.mem_cons_self, hm⟩
        rw [if_pos hall, ← hm, Function.update_self]
      · have hnone : ¬ ∃ m' ∈ m :: rest, m'.localPath = path := by
          rintro ⟨m', hm', hpath⟩
          rcases List.mem_cons.mp hm' with rfl | hm'
          · exact hm hpath
          · exact hrest ⟨m', hm', hpath⟩
        rw [if_neg hnone, Function.update_of_ne (Ne.symm hm)]

variable {movedBack : ℕ → RemotePath → Bool} {nodeRoot : RemotePath}
  {entries : List UntrackedFile} {path : List String} {t : DeletedTombstone}
  {tombstones : List DeletedTombstone} {matchedPaths : List LocalPath}

theorem takeUnmatched_first
    (hfirst : entries.find? (fun e => device.nfc e.localPath = path) = some e)
    (hunmatched : e.localPath ∉ matchedPaths) :
    takeUnmatched device entries path matchedPaths = some e := by
  obtain ⟨he, before, after, hsplit, hbefore⟩ := List.find?_eq_some_iff_append.mp hfirst
  refine List.find?_eq_some_iff_append.mpr ⟨by simpa [hunmatched] using he, before, after,
    hsplit, fun e' he' => ?_⟩
  have hother : ¬ device.nfc e'.localPath = path := by simpa using hbefore e' he'
  simp [hother]

theorem taken_of_matchTombstone
    (h : matchTombstone device nodeRoot movedBack entries matchedPaths t = some m) :
    ∃ e', takeUnmatched device entries (device.nfc m.localPath) matchedPaths = some e' ∧
      m.localPath = e'.localPath ∧ tombstoneApplies device nodeRoot movedBack e' t = true := by
  simp only [matchTombstone, Option.bind_eq_bind, Option.bind_eq_some_iff] at h
  obtain ⟨expected, hexpected, e', htake, hash, hsynced, disk, hdisk, h⟩ := h
  have hfound := List.find?_some htake
  simp only [Bool.and_eq_true, decide_eq_true_eq] at hfound
  split at h
  · cases h
  · rename_i hsame
    obtain rfl : disk = hash := by simpa using hsame
    split at h
    · cases h
    · rename_i hmoved
      cases h
      refine ⟨e', by rw [hfound.1, htake], rfl, ?_⟩
      rw [Bool.not_eq_true] at hmoved
      simp [tombstoneApplies, tombstoneFits, hexpected, hsynced, hfound.1, hdisk, hmoved]

variable (hfirst : entries.find? (fun e => device.nfc e.localPath = path) = some e)

include hfirst

theorem match_of_applies (hunmatched : e.localPath ∉ matchedPaths)
    (happlies : tombstoneApplies device nodeRoot movedBack e t = true) :
    ∃ m, matchTombstone device nodeRoot movedBack entries matchedPaths t = some m ∧
      m.localPath = e.localPath := by
  have hpath : device.nfc e.localPath = path := by simpa using List.find?_some hfirst
  simp only [tombstoneApplies, tombstoneFits, Bool.and_eq_true] at happlies
  obtain ⟨⟨hfor, hhash⟩, hmoved⟩ := happlies
  obtain ⟨expected, hexpected, hnfc⟩ := (Option.any_eq_true _ _).mp hfor
  obtain ⟨hash, hsynced, hdisk⟩ := (Option.any_eq_true _ _).mp hhash
  simp only [decide_eq_true_eq] at hnfc hdisk
  have htake : takeUnmatched device entries (device.nfc expected) matchedPaths = some e := by
    rw [hnfc, hpath]
    exact takeUnmatched_first hfirst hunmatched
  simp only [Bool.not_eq_true'] at hmoved
  exact ⟨⟨t.fileId, e.filename, e.localPath, t.remotePath, hash, t.recordAlive⟩,
    by simp [matchTombstone, hexpected, htake, hsynced, hdisk, hmoved], rfl⟩

theorem exists_match_at_iff (hunmatched : e.localPath ∉ matchedPaths) :
    (∃ m ∈ matchTombstones device nodeRoot movedBack entries matchedPaths tombstones,
      device.nfc m.localPath = path) ↔
      ∃ t ∈ tombstones, tombstoneApplies device nodeRoot movedBack e t = true := by
  have hpath : device.nfc e.localPath = path := by simpa using List.find?_some hfirst
  induction tombstones generalizing matchedPaths with
  | nil => simp [matchTombstones]
  | cons t rest ih =>
    unfold matchTombstones
    cases hmatch : matchTombstone device nodeRoot movedBack entries matchedPaths t with
    | none =>
      have hnot : ¬ tombstoneApplies device nodeRoot movedBack e t = true := by
        intro happlies
        obtain ⟨m, hm, -⟩ := match_of_applies hfirst hunmatched happlies
        rw [hmatch] at hm
        cases hm
      simp only [List.exists_mem_cons_iff, hnot, Bool.false_eq_true, false_or]
      exact ih hunmatched
    | some m =>
      obtain ⟨e', htake, hlocal, happlies⟩ := taken_of_matchTombstone hmatch
      by_cases hm : device.nfc m.localPath = path
      · rw [hm, takeUnmatched_first hfirst hunmatched] at htake
        cases htake
        exact iff_of_true ⟨m, List.mem_cons_self, hm⟩ ⟨t, List.mem_cons_self, happlies⟩
      · have hnot : ¬ tombstoneApplies device nodeRoot movedBack e t = true := by
          intro happlies
          obtain ⟨m', hm', hlocal'⟩ := match_of_applies hfirst hunmatched happlies
          rw [hmatch] at hm'
          cases hm'
          exact hm (by rw [hlocal', hpath])
        have hstill : e.localPath ∉ m.localPath :: matchedPaths := by
          intro hmem
          rcases List.mem_cons.mp hmem with hsame | hmem
          · exact hm (by rw [← hsame, hpath])
          · exact hunmatched hmem
        simp only [List.exists_mem_cons_iff, hnot, hm, Bool.false_eq_true, false_or]
        exact ih hstill

omit hfirst

theorem applies_of_mem_matchTombstones
    (hm : m ∈ matchTombstones device nodeRoot movedBack entries matchedPaths tombstones) :
    ∃ e ∈ entries, m.localPath = e.localPath ∧
      ∃ t ∈ tombstones, tombstoneApplies device nodeRoot movedBack e t = true := by
  induction tombstones generalizing matchedPaths with
  | nil => cases hm
  | cons t rest ih =>
    unfold matchTombstones at hm
    cases hmatch : matchTombstone device nodeRoot movedBack entries matchedPaths t with
    | none =>
      rw [hmatch] at hm
      obtain ⟨e, he, hlocal, t', ht', happlies⟩ := ih hm
      exact ⟨e, he, hlocal, t', List.mem_cons_of_mem t ht', happlies⟩
    | some m' =>
      rw [hmatch] at hm
      rcases List.mem_cons.mp hm with rfl | hm
      · obtain ⟨e, he, -, happlies, hlocal, -⟩ := applies_of_matchTombstone hmatch
        exact ⟨e, he, hlocal, t, List.mem_cons_self, happlies⟩
      · obtain ⟨e, he, hlocal, t', ht', happlies⟩ := ih hm
        exact ⟨e, he, hlocal, t', List.mem_cons_of_mem t ht', happlies⟩

theorem no_match_at (hnone : entries.find? (fun e => device.nfc e.localPath = path) = none) :
    ¬ ∃ m ∈ matchTombstones device nodeRoot movedBack entries matchedPaths tombstones,
      device.nfc m.localPath = path := by
  rintro ⟨m, hm, hpath⟩
  obtain ⟨e, he, hlocal⟩ := exists_entry_of_mem_matchTombstones hm
  exact List.find?_eq_none.mp hnone e he (by simpa [← hlocal] using hpath)

end Portuni.LocalCleanup
