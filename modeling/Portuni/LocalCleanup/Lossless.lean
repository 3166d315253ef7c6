import Portuni.LocalCleanup.Quiet
import Portuni.Tombstones.Agreement

/-!
What the cleanup removes is what the device last synced, as long as the user keeps away
from a file between the reading of its hash and its removal, and does not put back at a
path what a file that has left it was last synced with.
-/

namespace Portuni.LocalCleanup

open Content Files Library.Runs Tombstones

universe u

variable {Bytes : Type u} (run : SyncRun) (device : Device Bytes)

def SyncRun.allTombstones : List DeletedTombstone :=
  match run.engine with
  | .direct => (run.db.auditLog.filter (reads localActions run.nodeId)).filterMap
      (tombstoneOf [.syncMove, .syncRename])
  | .central => syncInfoDeleted run.order run.now run.db run.nodeId

def SyncRun.isFor (t : DeletedTombstone) (path : LocalPath) : Bool :=
  (deriveLocalPath device.mirrorRoot run.nodeRoot t.remotePath).toOption.any fun expected =>
    device.nfc expected = device.nfc path

def isLastSynced (fileId : ℕ) (bytes : Bytes) : Bool :=
  (device.lastSyncedHash fileId).any fun hash => device.hashing.hashLike hash bytes = hash

def SyncRun.revives (path : LocalPath) (bytes : Bytes) : Bool :=
  run.allTombstones.any fun t => run.isFor device t path && isLastSynced device t.fileId bytes

def SyncRun.matchesUnread (e : UntrackedFile) (t : DeletedTombstone) : Bool :=
  run.isFor device t e.localPath && !(t.recordAlive && run.movedBack t.fileId t.remotePath) &&
    (device.lastSyncedHash t.fileId).any fun hash => hash.length = 64 && e.sha256 = some hash

def SyncRun.held (phase : Phase) (path : LocalPath) : Bool :=
  match phase with
  | .walking _ entries =>
    entries.any fun e => e.localPath = path && run.allTombstones.any (run.matchesUnread device e)
  | .matching left entries deleted =>
    (entries.any fun e => e.localPath = path && left.any (run.matchesUnread device e)) ||
      deleted.any fun m => m.localPath = path
  | .cleaning left => left.any fun m => m.localPath = path

def SyncRun.Undisturbed (s : State Bytes) : Action Bytes → Prop
  | .user path (some bytes) =>
    run.held s.mirror.device s.phase path = false ∧ run.revives s.mirror.device path bytes = false
  | _ => True

instance (s : State Bytes) (a : Action Bytes) : Decidable (run.Undisturbed s a) :=
  match a with
  | .user path (some bytes) =>
    inferInstanceAs (Decidable (run.held s.mirror.device s.phase path = false ∧
      run.revives s.mirror.device path bytes = false))
  | .user _ none => isTrue trivial
  | .next => isTrue trivial
  | .rmFails => isTrue trivial
  | .dropFails => isTrue trivial

/-- No file of the user is what a file that has left its path was last synced with. -/
def SyncRun.Fresh (mirror : Mirror Bytes) : Prop :=
  ∀ path bytes, mirror.byUser path = true → mirror.device.readFile path = some bytes →
    run.revives mirror.device path bytes = false

/-- `version` is what the device last synced of the file, and its hash tells it from
everything else. -/
def IsLastSyncedVersion (fileId : ℕ) (version : Bytes) : Prop :=
  ∃ hash, device.lastSyncedHash fileId = some hash ∧
    ∀ bytes, device.hashing.hashLike hash bytes = hash ↔ bytes = version

/-- The copy that was removed was the version last synced, and none of the user's. -/
def Removal.Lossless (r : Removal Bytes) : Prop :=
  ∀ bytes, r.bytes = some bytes → r.byUser = false ∧
    isLastSynced device r.entry.fileId bytes = true ∧
    ∀ version, IsLastSyncedVersion device r.entry.fileId version → bytes = version

variable {run device} {mirror : Mirror Bytes} {s s' : State Bytes} {a : Action Bytes}
  {path : LocalPath} {bytes : Bytes} {e : UntrackedFile} {m : DeletedRemoteEntry}
  {t : DeletedTombstone} {fileId : ℕ} {hash : String}

theorem isLastSynced_iff : isLastSynced device fileId bytes = true ↔
    ∃ hash, device.lastSyncedHash fileId = some hash ∧
      device.hashing.hashLike hash bytes = hash := by
  simp [isLastSynced, Option.any_eq_true]

theorem eq_version (h : isLastSynced device fileId bytes = true) {version : Bytes}
    (hversion : IsLastSyncedVersion device fileId version) : bytes = version := by
  obtain ⟨hash, hhash, hbytes⟩ := isLastSynced_iff.mp h
  obtain ⟨hash', hhash', honly⟩ := hversion
  obtain rfl := Option.some.inj (hhash.symm.trans hhash')
  exact (honly bytes).mp hbytes

variable {entries : List UntrackedFile}

theorem tombstones_subset (ht : t ∈ run.tombstones device entries) : t ∈ run.allTombstones := by
  unfold SyncRun.tombstones at ht
  unfold SyncRun.allTombstones
  cases hengine : run.engine with
  | central =>
    rw [hengine] at ht
    exact ht
  | direct =>
    rw [hengine] at ht
    obtain ⟨r, hr, hrow⟩ := List.mem_filterMap.mp ht
    obtain ⟨hlog, hreads, -⟩ := mem_localTombstoneRows.mp hr
    exact List.mem_filterMap.mpr ⟨r, List.mem_filter.mpr ⟨hlog, hreads⟩, hrow⟩

def Removable (device : Device Bytes) (mirror : Mirror Bytes) (path : LocalPath) (fileId : ℕ) :
    Prop :=
  ∀ bytes, mirror.device.readFile path = some bytes →
    mirror.byUser path = false ∧ isLastSynced device fileId bytes = true

def SameState (device now : Device Bytes) : Prop :=
  ∃ readFile, now = { device with readFile := readFile }

theorem SameState.refl (device : Device Bytes) : SameState device device :=
  ⟨device.readFile, rfl⟩

theorem SameState.write {now : Device Bytes} (h : SameState device now) (path : LocalPath)
    (content : Option Bytes) : SameState device (Device.write now path content) := by
  obtain ⟨readFile, rfl⟩ := h
  exact ⟨_, rfl⟩

theorem SameState.isLastSynced {now : Device Bytes} (h : SameState device now) :
    isLastSynced now fileId bytes = isLastSynced device fileId bytes := by
  obtain ⟨readFile, rfl⟩ := h
  rfl

def SyncRun.PhaseSafe (run : SyncRun) (device : Device Bytes) (mirror : Mirror Bytes) :
    Phase → Prop
  | .walking _ entries => SameState device mirror.device ∧
      ∀ e ∈ entries, ∀ t ∈ run.allTombstones, run.matchesUnread mirror.device e t = true →
        Removable device mirror e.localPath t.fileId
  | .matching left entries deleted => SameState device mirror.device ∧
      (∀ t ∈ left, t ∈ run.allTombstones) ∧
      (∀ e ∈ entries, ∀ t ∈ left, run.matchesUnread mirror.device e t = true →
        Removable device mirror e.localPath t.fileId) ∧
      ∀ m ∈ deleted, Removable device mirror m.localPath m.fileId
  | .cleaning left => ∀ m ∈ left, Removable device mirror m.localPath m.fileId

structure SyncRun.Safe (run : SyncRun) (device : Device Bytes) (s : State Bytes) : Prop where
  fresh : run.Fresh s.mirror
  phase : run.PhaseSafe device s.mirror s.phase
  removed : ∀ r ∈ s.removed, r.Lossless device

theorem revives_of {t : DeletedTombstone} (ht : t ∈ run.allTombstones)
    (hfor : run.isFor device t path = true)
    (hsynced : isLastSynced device t.fileId bytes = true) : run.revives device path bytes = true :=
  List.any_eq_true.mpr ⟨t, ht, by simp [hfor, hsynced]⟩

theorem removable_of_isLastSynced (fresh : run.Fresh mirror)
    (same : SameState device mirror.device) (ht : t ∈ run.allTombstones)
    (hfor : run.isFor mirror.device t path = true) (hread : mirror.device.readFile path = some bytes)
    (hsynced : isLastSynced mirror.device t.fileId bytes = true) :
    Removable device mirror path t.fileId := by
  intro bytes' hread'
  obtain rfl := Option.some.inj (hread.symm.trans hread')
  refine ⟨?_, by rwa [← same.isLastSynced]⟩
  by_contra huser
  have hrevives := fresh path bytes (by simpa using huser) hread
  rw [revives_of ht hfor hsynced] at hrevives
  cases hrevives

theorem removable_of_discover (fresh : run.Fresh mirror) (same : SameState device mirror.device)
    (hfound : run.discover mirror.device path = some e) (ht : t ∈ run.allTombstones)
    (hmatch : run.matchesUnread mirror.device e t = true) :
    Removable device mirror e.localPath t.fileId := by
  simp only [SyncRun.matchesUnread, Bool.and_eq_true] at hmatch
  obtain ⟨⟨hfor, -⟩, hhash⟩ := hmatch
  obtain ⟨hash, hsynced, hsha⟩ := (Option.any_eq_true _ _).mp hhash
  simp only [Bool.and_eq_true, decide_eq_true_eq] at hsha
  unfold SyncRun.discover at hfound
  split at hfound
  · cases hfound
  · cases hengine : run.engine with
    | direct =>
      rw [hengine] at hfound
      cases hfound
      cases hsha.2
    | central =>
      rw [hengine] at hfound
      obtain ⟨bytes, hread, rfl⟩ := Option.map_eq_some_iff.mp hfound
      refine removable_of_isLastSynced fresh same ht hfor hread (isLastSynced_iff.mpr
        ⟨hash, hsynced, ?_⟩)
      have hlength : hash.length ≠ 32 := by omega
      rw [Hashing.hashLike, if_neg hlength]
      exact Option.some.inj hsha.2

theorem removable_of_match {entries : List UntrackedFile} {matchedPaths : List LocalPath}
    (fresh : run.Fresh mirror) (same : SameState device mirror.device) (ht : t ∈ run.allTombstones)
    (hentries : ∀ e ∈ entries, run.matchesUnread mirror.device e t = true →
      Removable device mirror e.localPath t.fileId)
    (h : matchTombstone mirror.device run.nodeRoot run.movedBack entries matchedPaths t = some m) :
    Removable device mirror m.localPath m.fileId := by
  obtain ⟨e, he, -, happlies, hpath, hfile, -⟩ := applies_of_matchTombstone h
  rw [hpath, hfile]
  simp only [tombstoneApplies, tombstoneFits, Bool.and_eq_true] at happlies
  obtain ⟨⟨hfor, hhash⟩, hmoved⟩ := happlies
  obtain ⟨hash, hsynced, hdisk⟩ := (Option.any_eq_true _ _).mp hhash
  rcases diskHashMatching_cases (of_decide_eq_true hdisk) with ⟨hlength, hsha⟩ |
      ⟨bytes, hread, hbytes⟩
  · refine hentries e he ?_
    simp only [SyncRun.matchesUnread, Bool.and_eq_true]
    exact ⟨⟨hfor, hmoved⟩, (Option.any_eq_true _ _).mpr ⟨hash, hsynced, by simp [hlength, hsha]⟩⟩
  · exact removable_of_isLastSynced fresh same ht hfor hread
      (isLastSynced_iff.mpr ⟨hash, hsynced, hbytes⟩)

variable {content : Option Bytes}

theorem Removable.userWrites {written : LocalPath} (h : Removable device mirror path fileId)
    (hapart : content.isSome → path ≠ written) :
    Removable device (mirror.userWrites written content) path fileId := by
  intro bytes hread
  by_cases hsame : path = written
  · subst hsame
    cases content with
    | none => simp [Mirror.userWrites, Device.write] at hread
    | some bytes => exact absurd rfl (hapart rfl)
  · have hold : mirror.device.readFile path = some bytes := by
      simpa [Mirror.userWrites, Device.write, Function.update_of_ne hsame] using hread
    simpa [Mirror.userWrites, Function.update_of_ne hsame] using h bytes hold

theorem SyncRun.Fresh.userWrites (fresh : run.Fresh mirror)
    (hcontent : ∀ bytes, content = some bytes → run.revives mirror.device path bytes = false) :
    run.Fresh (mirror.userWrites path content) := by
  intro at' bytes huser hread
  by_cases hsame : at' = path
  · subst hsame
    have hbytes : content = some bytes := by
      simpa [Mirror.userWrites, Device.write] using hread
    exact hcontent bytes hbytes
  · have hold : mirror.device.readFile at' = some bytes := by
      simpa [Mirror.userWrites, Device.write, Function.update_of_ne hsame] using hread
    have hmark : mirror.byUser at' = true := by
      simpa [Mirror.userWrites, Function.update_of_ne hsame] using huser
    exact fresh at' bytes hmark hold

theorem SyncRun.Safe.userWrites (safe : run.Safe device s)
    (hundisturbed : run.Undisturbed s (.user path content)) :
    run.Safe device { s with mirror := s.mirror.userWrites path content } := by
  have hheld : ∀ bytes, content = some bytes →
      run.held s.mirror.device s.phase path = false ∧
        run.revives s.mirror.device path bytes = false := by
    rintro bytes rfl
    exact hundisturbed
  refine ⟨safe.fresh.userWrites fun bytes hbytes => (hheld bytes hbytes).2, ?_, safe.removed⟩
  have hfree : content.isSome → run.held s.mirror.device s.phase path = false := by
    intro hsome
    obtain ⟨bytes, hbytes⟩ := Option.isSome_iff_exists.mp hsome
    exact (hheld bytes hbytes).1
  have hphase := safe.phase
  cases hcase : s.phase with
  | walking left entries =>
    rw [hcase] at hphase hfree
    obtain ⟨same, hentries⟩ := hphase
    refine ⟨same.write path content, fun e he t ht hmatch => ?_⟩
    refine (hentries e he t ht hmatch).userWrites fun hsome hpath => ?_
    have hnone := List.any_eq_false.mp (hfree hsome) e he
    exact hnone (by simp only [hpath, decide_true, Bool.true_and]
                    exact List.any_eq_true.mpr ⟨t, ht, hmatch⟩)
  | matching left entries deleted =>
    rw [hcase] at hphase hfree
    obtain ⟨same, hleft, hentries, hdeleted⟩ := hphase
    refine ⟨same.write path content, hleft, fun e he t ht hmatch => ?_, fun m hm => ?_⟩
    · refine (hentries e he t ht hmatch).userWrites fun hsome hpath => ?_
      have hnone := (Bool.or_eq_false_iff.mp (hfree hsome)).1
      refine List.any_eq_false.mp hnone e he ?_
      simp only [hpath, decide_true, Bool.true_and]
      exact List.any_eq_true.mpr ⟨t, ht, hmatch⟩
    · refine (hdeleted m hm).userWrites fun hsome hpath => ?_
      have hnone := (Bool.or_eq_false_iff.mp (hfree hsome)).2
      exact List.any_eq_false.mp hnone m hm (by simp [hpath])
  | cleaning left =>
    rw [hcase] at hphase hfree
    intro m hm
    refine (hphase m hm).userWrites fun hsome hpath => ?_
    exact List.any_eq_false.mp (hfree hsome) m hm (by simp [hpath])

theorem revives_of_cleanup {dropsState : Bool} {bytes : Bytes}
    (h : run.revives (cleanup device dropsState m) path bytes = true) :
    run.revives device path bytes = true := by
  obtain ⟨t, ht, hboth⟩ := List.any_eq_true.mp h
  simp only [Bool.and_eq_true] at hboth
  obtain ⟨hash, hsynced, hbytes⟩ := isLastSynced_iff.mp hboth.2
  unfold cleanup at hboth hsynced hbytes
  simp only at hboth hsynced hbytes
  split at hboth
  · rename_i hkeep
    rw [if_pos hkeep] at hsynced hbytes
    exact revives_of ht hboth.1 (isLastSynced_iff.mpr ⟨hash, hsynced, hbytes⟩)
  · rename_i hkeep
    rw [if_neg hkeep] at hsynced hbytes
    refine revives_of ht hboth.1 (isLastSynced_iff.mpr ⟨hash, ?_, hbytes⟩)
    by_cases hsame : t.fileId = m.fileId
    · simp [Device.dropState, hsame] at hsynced
    · simpa [Device.dropState, Device.write, Function.update_of_ne hsame] using hsynced

theorem readFile_cleanup (dropsState : Bool) : (cleanup device dropsState m).readFile =
      Function.update device.readFile m.localPath none := by
  unfold cleanup
  split <;> rfl

theorem SyncRun.Safe.clean {left : List DeletedRemoteEntry} {dropsState : Bool}
    (safe : run.Safe device s) (hphase : s.phase = .cleaning (m :: left)) :
    run.Safe device (s.clean dropsState m left) := by
  have hsafe := safe.phase
  rw [hphase] at hsafe
  have hread : ∀ path bytes,
      (cleanup s.mirror.device dropsState m).readFile path = some bytes →
        s.mirror.device.readFile path = some bytes := by
    intro path bytes h
    rw [readFile_cleanup] at h
    by_cases hsame : path = m.localPath
    · subst hsame
      simp at h
    · rwa [Function.update_of_ne hsame] at h
  refine ⟨fun path bytes huser hnow => ?_, fun m' hm' bytes hnow => ?_, fun r hr => ?_⟩
  · by_contra hrevives
    have hrevived : run.revives (cleanup s.mirror.device dropsState m) path bytes = true := by
      simpa [State.clean] using hrevives
    have hold := safe.fresh path bytes huser (hread path bytes hnow)
    rw [revives_of_cleanup hrevived] at hold
    cases hold
  · exact hsafe m' (List.mem_cons_of_mem m hm') bytes (hread _ _ hnow)
  · rcases List.mem_cons.mp hr with rfl | hr
    · intro bytes hbytes
      obtain ⟨huser, hsynced⟩ := hsafe m List.mem_cons_self bytes hbytes
      exact ⟨huser, hsynced, fun version hversion => eq_version hsynced hversion⟩
    · exact safe.removed r hr

theorem SyncRun.Safe.next (safe : run.Safe device s) (hstep : step run s .next = some s') :
    run.Safe device s' := by
  have hphase := safe.phase
  simp only [step] at hstep
  split at hstep
  · rename_i path left entries hcase
    rw [hcase] at hphase
    obtain ⟨same, hentries⟩ := hphase
    cases hstep
    refine ⟨safe.fresh, ⟨same, fun e he t ht hmatch => ?_⟩, safe.removed⟩
    rcases List.mem_append.mp he with he | he
    · exact hentries e he t ht hmatch
    · exact removable_of_discover safe.fresh same (Option.mem_toList.mp he) ht hmatch
  · rename_i entries hcase
    rw [hcase] at hphase
    obtain ⟨same, hentries⟩ := hphase
    cases hstep
    refine ⟨safe.fresh, ⟨same, fun t ht => tombstones_subset ht, fun e he t ht hmatch => ?_,
      fun m hm => by cases hm⟩, safe.removed⟩
    exact hentries e he t (tombstones_subset ht) hmatch
  · rename_i t left entries deleted hcase
    rw [hcase] at hphase
    obtain ⟨same, hleft, hentries, hdeleted⟩ := hphase
    cases hstep
    refine ⟨safe.fresh, ⟨same, fun t' ht' => hleft t' (List.mem_cons_of_mem t ht'),
      fun e he t' ht' => hentries e he t' (List.mem_cons_of_mem t ht'), fun m hm => ?_⟩,
      safe.removed⟩
    rcases List.mem_append.mp hm with hm | hm
    · exact removable_of_match safe.fresh same (hleft t List.mem_cons_self)
        (fun e he => hentries e he t List.mem_cons_self) (Option.mem_toList.mp hm)
    · exact hdeleted m hm
  · rename_i entries deleted hcase
    rw [hcase] at hphase
    obtain ⟨-, -, -, hdeleted⟩ := hphase
    cases hstep
    exact ⟨safe.fresh, fun m hm => hdeleted m (List.mem_reverse.mp hm), safe.removed⟩
  · rename_i m left hcase
    cases hstep
    exact safe.clean hcase
  · cases hstep

theorem SyncRun.Safe.step (safe : run.Safe device s) (hundisturbed : run.Undisturbed s a)
    (hstep : LocalCleanup.step run s a = some s') : run.Safe device s' := by
  cases a with
  | user path content =>
    cases hstep
    exact safe.userWrites hundisturbed
  | next => exact safe.next hstep
  | rmFails =>
    simp only [LocalCleanup.step] at hstep
    split at hstep
    · rename_i m left hcase
      have hphase := safe.phase
      rw [hcase] at hphase
      cases hstep
      exact ⟨safe.fresh, fun m' hm' => hphase m' (List.mem_cons_of_mem m hm'), safe.removed⟩
    · cases hstep
  | dropFails =>
    simp only [LocalCleanup.step] at hstep
    split at hstep
    · rename_i m left hcase
      cases hstep
      exact safe.clean hcase
    · cases hstep

/-- A run that the user does not disturb removes nothing but what was last synced. -/
theorem cleanup_lossless {paths : List LocalPath} {acts : List (Action Bytes)}
    (fresh : run.Fresh mirror) (hrun : Run (step run) run.Undisturbed (start mirror paths) acts s) :
    ∀ r ∈ s.removed, r.Lossless mirror.device := by
  have hstart : run.Safe mirror.device (start mirror paths) :=
    ⟨fresh, ⟨.refl _, fun e he => by cases he⟩, fun r hr => by cases hr⟩
  exact (hrun.inv _ hstart fun _ _ _ safe hundisturbed hstep =>
    safe.step hundisturbed hstep).removed

def renamedRun : SyncRun :=
  ⟨.direct, mergeNewestFirst, 1000, renamed .syncRename, "node", ["org", "projects", "key"]⟩

def oldPath : LocalPath := ["mirror", "wip", "old.md"]

def untouched : Mirror Bool := ⟨sampleDevice, fun _ => false⟩

def cleanRun : List (Action Bool) :=
  [.next, .user ["mirror", "wip", "other.md"] (some false), .next, .next, .next, .next]

theorem cleanup_lossless_renamed :
    ∃ s, exec (step renamedRun) (start untouched [oldPath]) cleanRun = some s ∧
      s.removed.map (·.bytes) = [some true] ∧ ∀ r ∈ s.removed, r.Lossless sampleDevice := by
  have hremoved : (exec (step renamedRun) (start untouched [oldPath]) cleanRun).map
      (fun s => s.removed.map (·.bytes)) = some [some true] := by
    decide +kernel
  obtain ⟨s, hs, hbytes⟩ := Option.map_eq_some_iff.mp hremoved
  refine ⟨s, hs, hbytes, cleanup_lossless (fun path bytes huser => by cases huser)
    (Run.of_exec hs ?_)⟩
  decide +kernel

def editedRun : List (Action Bool) :=
  [.next, .next, .next, .user oldPath (some false), .next, .next]

/-- The edit of the user is removed; and so is a file that the user has put at the path, if it
has the bytes that were last synced there. -/
theorem cleanup_removes_edit :
    (∃ s, exec (step renamedRun) (start untouched [oldPath]) editedRun = some s ∧
      ∃ r ∈ s.removed, r.bytes = some false ∧ r.byUser = true ∧
        isLastSynced sampleDevice r.entry.fileId false = false ∧ ¬ r.Lossless sampleDevice) ∧
    ∃ s, exec (step renamedRun) (start ⟨sampleDevice, fun _ => true⟩ [oldPath]) cleanRun = some s ∧
      ∃ r ∈ s.removed, r.bytes = some true ∧ r.byUser = true ∧ ¬ r.Lossless sampleDevice := by
  constructor
  · have hremoved : (exec (step renamedRun) (start untouched [oldPath]) editedRun).map
        (fun s => s.removed.map fun r => (r.bytes, r.byUser, r.entry.fileId)) =
          some [(some false, true, 0)] := by
      decide +kernel
    obtain ⟨s, hs, hrows⟩ := Option.map_eq_some_iff.mp hremoved
    obtain ⟨r, hr, hrow⟩ := List.mem_map.mp (hrows ▸ List.mem_singleton.mpr rfl)
    obtain ⟨hbytes, huser, hfile⟩ : r.bytes = some false ∧ r.byUser = true ∧
        r.entry.fileId = 0 := by simpa using hrow
    refine ⟨s, hs, r, hr, hbytes, huser, ?_, fun lossless => ?_⟩
    · rw [hfile]
      decide +kernel
    · rw [(lossless false hbytes).1] at huser
      cases huser
  · have hremoved : (exec (step renamedRun) (start ⟨sampleDevice, fun _ => true⟩ [oldPath])
        cleanRun).map (fun s => s.removed.map fun r => (r.bytes, r.byUser)) =
          some [(some true, true)] := by
      decide +kernel
    obtain ⟨s, hs, hrows⟩ := Option.map_eq_some_iff.mp hremoved
    obtain ⟨r, hr, hrow⟩ := List.mem_map.mp (hrows ▸ List.mem_singleton.mpr rfl)
    obtain ⟨hbytes, huser⟩ : r.bytes = some true ∧ r.byUser = true := by simpa using hrow
    refine ⟨s, hs, r, hr, hbytes, huser, fun lossless => ?_⟩
    rw [(lossless true hbytes).1] at huser
    cases huser

end Portuni.LocalCleanup
