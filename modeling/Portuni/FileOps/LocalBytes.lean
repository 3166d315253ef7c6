import Portuni.FileOps.Mutations
import Portuni.NodeMove.Model

/-!
The local step of the relocations: a plain rename on the device's disk, which
replaces what stands at the destination.
-/

namespace Portuni.FileOps

open Files Files.Database
open NodeMove (UniquePaths)

universe u

abbrev Disk (Bytes : Type u) := LocalPath → Option Bytes

abbrev LocalMove := LocalPath × LocalPath

section

variable {Bytes : Type u} (fails : LocalMove → Option String)

/-- `mkdir` of the parent and `rename`. Whatever stands at the destination is replaced. -/
def fsRename (disk : Disk Bytes) (m : LocalMove) : Disk Bytes × LocalRename :=
  match fails m, disk m.1 with
  | some message, _ => (disk, .failed message)
  | none, none => (disk, .missing)
  | none, some bytes =>
    (fun path => if path = m.2 then some bytes else if path = m.1 then none else disk path,
      .renamed)

def fsRenames (moves : List LocalMove) (disk : Disk Bytes) : Disk Bytes :=
  moves.foldl (fun disk m => (fsRename fails disk m).1) disk

def OnDisk (disk : Disk Bytes) (bytes : Bytes) : Prop :=
  ∃ path, disk path = some bytes

/-- The rename goes through, and another file at its destination is the last with its bytes. -/
def Overwrites (disk : Disk Bytes) (m : LocalMove) : Prop :=
  fails m = none ∧ (disk m.1).isSome ∧ m.1 ≠ m.2 ∧
    ∃ bytes, disk m.2 = some bytes ∧ ∀ path, path ≠ m.2 → disk path ≠ some bytes

/-- No rename meets the last file of some bytes when its turn comes. -/
def NeverOverwrites (disk : Disk Bytes) : List LocalMove → Prop
  | [] => True
  | m :: rest => ¬ Overwrites fails disk m ∧ NeverOverwrites (fsRename fails disk m).1 rest

variable {fails} {disk : Disk Bytes} {m : LocalMove} {moves : List LocalMove} {bytes : Bytes}

theorem onDisk_of_fsRename (h : OnDisk (fsRename fails disk m).1 bytes) : OnDisk disk bytes := by
  obtain ⟨path, hpath⟩ := h
  unfold fsRename at hpath
  split at hpath
  · exact ⟨path, hpath⟩
  · exact ⟨path, hpath⟩
  next moved _ hmoved =>
    dsimp only at hpath
    split at hpath
    · exact ⟨m.1, hmoved.trans hpath⟩
    · split at hpath
      · cases hpath
      · exact ⟨path, hpath⟩

theorem onDisk_of_fsRenames (h : OnDisk (fsRenames fails moves disk) bytes) :
    OnDisk disk bytes := by
  induction moves generalizing disk with
  | nil => exact h
  | cons m rest ih => exact onDisk_of_fsRename (ih h)

theorem fsRename_keeps (hover : ¬ Overwrites fails disk m) (h : OnDisk disk bytes) :
    OnDisk (fsRename fails disk m).1 bytes := by
  obtain ⟨path, hpath⟩ := h
  unfold fsRename
  split
  · exact ⟨path, hpath⟩
  · exact ⟨path, hpath⟩
  next moved hfails hmoved =>
    by_cases hfrom : path = m.1
    · rw [hfrom, hmoved] at hpath
      exact ⟨m.2, by rw [← hpath]; exact if_pos rfl⟩
    · by_cases hto : path = m.2
      · by_cases hsame : m.1 = m.2
        · exact absurd (hto.trans hsame.symm) hfrom
        · -- the bytes have another file, which is moved or stays
          have helse : ∃ other, other ≠ m.2 ∧ disk other = some bytes := by
            apply Classical.byContradiction
            intro hnone
            exact hover ⟨hfails, by rw [hmoved]; rfl, hsame, bytes, hto ▸ hpath,
              fun other hother heq => hnone ⟨other, hother, heq⟩⟩
          obtain ⟨other, hother, hbytes⟩ := helse
          by_cases hfrom' : other = m.1
          · rw [hfrom', hmoved] at hbytes
            exact ⟨m.2, by rw [← hbytes]; exact if_pos rfl⟩
          · refine ⟨other, ?_⟩
            dsimp only
            rw [if_neg hother, if_neg hfrom', hbytes]
      · refine ⟨path, ?_⟩
        dsimp only
        rw [if_neg hto, if_neg hfrom, hpath]

theorem fsRenames_keeps (hover : NeverOverwrites fails disk moves) (h : OnDisk disk bytes) :
    OnDisk (fsRenames fails moves disk) bytes := by
  induction moves generalizing disk with
  | nil => exact h
  | cons m rest ih => exact ih hover.2 (fsRename_keeps hover.1 h)

theorem fsRename_elsewhere {path : LocalPath} (hto : path ≠ m.2) :
    (fsRename fails disk m).1 path = disk path ∨ (fsRename fails disk m).1 path = none := by
  unfold fsRename
  split
  · exact .inl rfl
  · exact .inl rfl
  · by_cases hfrom : path = m.1
    · exact .inr (by dsimp only; rw [if_neg hto, if_pos hfrom])
    · exact .inl (by dsimp only; rw [if_neg hto, if_neg hfrom])

theorem not_onDisk_of_overwritten (hfails : fails m = none) {moved : Bytes}
    (hmoved : disk m.1 = some moved) (hne : m.1 ≠ m.2)
    (hlast : ∀ path, path ≠ m.2 → disk path ≠ some bytes) :
    ¬ OnDisk (fsRename fails disk m).1 bytes := by
  rintro ⟨path, hpath⟩
  simp only [fsRename, hfails, hmoved] at hpath
  split at hpath
  · exact hlast m.1 hne (hmoved.trans hpath)
  next hto =>
    split at hpath
    · cases hpath
    · exact hlast path hto hpath

/-- Every file at a destination that is not the moved file's own has its bytes still. -/
def DestinationsKept (before after : Disk Bytes) (moves : List LocalMove) : Prop :=
  ∀ m ∈ moves, m.1 ≠ m.2 → ∀ bytes, before m.2 = some bytes → OnDisk after bytes

theorem destinationsKept_of_neverOverwrites (hover : NeverOverwrites fails disk moves)
    (derived : List LocalMove) :
    DestinationsKept disk (fsRenames fails moves disk) derived := fun m _ _ _ hbytes =>
  fsRenames_keeps hover ⟨m.2, hbytes⟩

theorem neverOverwrites_of_destinationsKept (hdistinct : (moves.map (·.2)).Nodup)
    (h : DestinationsKept disk (fsRenames fails moves disk) moves) :
    NeverOverwrites fails disk moves := by
  induction moves generalizing disk with
  | nil => trivial
  | cons m rest ih =>
    obtain ⟨hnot, hrest⟩ := List.nodup_cons.mp hdistinct
    refine ⟨?_, ih hrest fun m' hm' hne bytes hbytes => ?_⟩
    · rintro ⟨hfails, hmoved, hne, bytes, hbytes, hlast⟩
      obtain ⟨moved, hmoved⟩ := Option.isSome_iff_exists.mp hmoved
      exact not_onDisk_of_overwritten hfails hmoved hne hlast
        (onDisk_of_fsRenames (h m List.mem_cons_self hne bytes hbytes))
    · have hto : m'.2 ≠ m.2 := fun heq => hnot (List.mem_map.mpr ⟨m', hm', heq⟩)
      rcases fsRename_elsewhere hto with hsame | hnone
      · exact h m' (List.mem_cons_of_mem m hm') hne bytes (hsame.symm.trans hbytes)
      · rw [hnone] at hbytes
        cases hbytes

end

structure DiskSnapshot where
  nodeId : String
  mirrorRoot : LocalPath
  nodeRoot : RemotePath

def deriveOrNull (mirrorRoot : LocalPath) (nodeRoot remotePath : RemotePath) : Option LocalPath :=
  (deriveLocalPath mirrorRoot nodeRoot remotePath).toOption

/-- Central's answer to a move, and the target node as the device knows it; `targetMirror` is
`none` where the node is not mirrored. -/
structure ProxiedMove where
  snapshot : DiskSnapshot
  oldRemotePath : RemotePath
  targetMirror : Option (LocalPath × RemotePath)
  moved : Bool
  newRemotePath : Option RemotePath

structure ProxiedFile where
  ok : Bool
  oldRemotePath : RemotePath
  newRemotePath : RemotePath

inductive RelocationCall where
  | moveFile (a : MoveFileArgs)
  | renameFile (fileId : ℕ) (newFilename : String)
  | renameFolder (a : RenameFolderArgs)
  | proxiedMove (m : ProxiedMove)
  | proxiedRenameFolder (snapshot : DiskSnapshot) (files : List ProxiedFile)

def bothPaths (paths : Option LocalPath × Option LocalPath) : List LocalMove :=
  match paths with
  | (some oldLocal, some newLocal) => [(oldLocal, newLocal)]
  | _ => []

def differing (moves : List LocalMove) : List LocalMove :=
  moves.filter fun m => decide (m.1 ≠ m.2)

def ProxiedMove.localMoves (m : ProxiedMove) : List LocalMove :=
  match m.newRemotePath, m.targetMirror with
  | some newRemotePath, some (targetMirror, targetRoot) =>
    bothPaths (deriveOrNull m.snapshot.mirrorRoot m.snapshot.nodeRoot m.oldRemotePath,
      deriveOrNull targetMirror targetRoot newRemotePath)
  | _, _ => []

def DiskSnapshot.localMoves (snapshot : DiskSnapshot) (f : ProxiedFile) : List LocalMove :=
  bothPaths (deriveOrNull snapshot.mirrorRoot snapshot.nodeRoot f.oldRemotePath,
    deriveOrNull snapshot.mirrorRoot snapshot.nodeRoot f.newRemotePath)

section

variable (server : Server) (db : Database) (remote : RelocateParams → RelocateAnswers)

def remoteDone (p : RelocateParams) : Bool :=
  server.localWorkspace || (relocateRemoteObject p (remote p)).toOption.isSome

def MovePlan.localMoves (plan : MovePlan) : List LocalMove :=
  bothPaths (plan.oldLocalPath, plan.newLocalPath)

def RenamePlan.localMoves (plan : RenamePlan) : List LocalMove :=
  bothPaths (localCopies server plan.row.nodeId plan.oldRemotePath plan.newRemotePath)

def FolderFile.localMoves (nodeId : String) (f : FolderFile) : List LocalMove :=
  bothPaths (localCopies server nodeId f.oldRemotePath f.newRemotePath)

def FolderFile.remoteDone (f : FolderFile) : Bool :=
  server.localWorkspace || f.remoteName.any fun name =>
    FileOps.remoteDone server remote ⟨name, f.oldRemotePath, name, f.newRemotePath, false⟩

/-- The old and the new local paths of the files that a call is to relocate. -/
def RelocationCall.derived : RelocationCall → List LocalMove
  | .moveFile a =>
    match planMove server db a with
    | .error _ => []
    | .ok plan => plan.localMoves
  | .renameFile fileId newFilename =>
    match planRename db fileId newFilename (boundPath server) with
    | .error _ => []
    | .ok plan => plan.localMoves server
  | .renameFolder a =>
    match renameFolderFiles server db a with
    | .error _ => []
    | .ok files => files.flatMap (FolderFile.localMoves server a.nodeId)
  | .proxiedMove m => m.localMoves
  | .proxiedRenameFolder snapshot files => files.flatMap snapshot.localMoves

def RelocationCall.renames : RelocationCall → List LocalMove
  | .moveFile a =>
    match planMove server db a with
    | .error _ => []
    | .ok plan =>
      if a.confirmed && remoteDone server remote plan.relocation then differing plan.localMoves
      else []
  | .renameFile fileId newFilename =>
    match planRename db fileId newFilename (boundPath server) with
    | .error _ => []
    | .ok plan =>
      if remoteDone server remote (plan.relocation (plan.row.remoteName.getD "")) then
        differing (plan.localMoves server)
      else []
  | .renameFolder a =>
    match renameFolderFiles server db a with
    | .error _ => []
    | .ok files =>
      if a.dryRun then []
      else ((files.take a.limit).filter fun f => f.remoteDone server remote).flatMap
        (FolderFile.localMoves server a.nodeId)
  | .proxiedMove m => if m.moved then differing m.localMoves else []
  | .proxiedRenameFolder snapshot files =>
    differing ((files.filter (·.ok)).flatMap snapshot.localMoves)

/-- The records have one path each; central answers with one destination for each file. -/
def RelocationCall.WellFormed : RelocationCall → Prop
  | .renameFolder _ => db.Keyed ∧ UniquePaths db
  | .proxiedRenameFolder _ files => (files.map (·.newRemotePath)).Nodup
  | _ => True

end

variable {server : Server} {db : Database} {remote : RelocateParams → RelocateAnswers}

theorem mem_bothPaths {paths : Option LocalPath × Option LocalPath} {m : LocalMove} :
    m ∈ bothPaths paths ↔ paths = (some m.1, some m.2) := by
  obtain ⟨_ | oldLocal, _ | newLocal⟩ := paths
  · simp [bothPaths]
  · simp [bothPaths]
  · simp [bothPaths]
  · simp [bothPaths, Prod.ext_iff, eq_comm]

theorem length_bothPaths (paths : Option LocalPath × Option LocalPath) :
    (bothPaths paths).length ≤ 1 := by
  obtain ⟨_ | oldLocal, _ | newLocal⟩ := paths
  · exact Nat.zero_le 1
  · exact Nat.zero_le 1
  · exact Nat.zero_le 1
  · exact le_refl 1

theorem differing_sublist (moves : List LocalMove) : (differing moves).Sublist moves :=
  List.filter_sublist

theorem renames_subset (call : RelocationCall) :
    ∀ m ∈ call.renames server db remote, m ∈ call.derived server db := by
  intro m hm
  cases call with
  | moveFile a =>
    cases hplan : planMove server db a with
    | error message => simp [RelocationCall.renames, hplan] at hm
    | ok plan =>
      simp only [RelocationCall.renames, hplan] at hm
      simp only [RelocationCall.derived, hplan]
      split at hm
      · exact (differing_sublist _).subset hm
      · cases hm
  | renameFile fileId newFilename =>
    cases hplan : planRename db fileId newFilename (boundPath server) with
    | error message => simp [RelocationCall.renames, hplan] at hm
    | ok plan =>
      simp only [RelocationCall.renames, hplan] at hm
      simp only [RelocationCall.derived, hplan]
      split at hm
      · exact (differing_sublist _).subset hm
      · cases hm
  | renameFolder a =>
    cases hfiles : renameFolderFiles server db a with
    | error message => simp [RelocationCall.renames, hfiles] at hm
    | ok files =>
      simp only [RelocationCall.renames, hfiles] at hm
      simp only [RelocationCall.derived, hfiles]
      split at hm
      · cases hm
      · obtain ⟨f, hf, hm⟩ := List.mem_flatMap.mp hm
        exact List.mem_flatMap.mpr ⟨f, List.mem_of_mem_take (List.mem_of_mem_filter hf), hm⟩
  | proxiedMove move =>
    simp only [RelocationCall.renames] at hm
    split at hm
    · exact (differing_sublist _).subset hm
    · cases hm
  | proxiedRenameFolder snapshot files =>
    obtain ⟨f, hf, hm⟩ := List.mem_flatMap.mp ((differing_sublist _).subset hm)
    exact List.mem_flatMap.mpr ⟨f, List.mem_of_mem_filter hf, hm⟩

variable {mirrorRoot path : LocalPath} {nodeRoot remotePath other : RemotePath}

theorem deriveLocalPath_inj (h : deriveLocalPath mirrorRoot nodeRoot remotePath = .ok path)
    (h' : deriveLocalPath mirrorRoot nodeRoot other = .ok path) : remotePath = other := by
  have hsplit : ∀ {remotePath}, deriveLocalPath mirrorRoot nodeRoot remotePath = .ok path →
      ∃ rel, remotePath = nodeRoot ++ rel ∧ path = mirrorRoot ++ rel := by
    intro remotePath h
    unfold deriveLocalPath at h
    split at h
    · cases h
    next rel hrel =>
      cases hsafe : assertSafeRelativePath "deriveLocalPath.remotePath" rel with
      | error message =>
        rw [hsafe] at h
        cases h
      | ok _ =>
        rw [hsafe] at h
        exact ⟨rel, (below_eq_some hrel).1, (Except.ok.inj h).symm⟩
  obtain ⟨rel, rfl, rfl⟩ := hsplit h
  obtain ⟨rel', rfl, hpath⟩ := hsplit h'
  rw [List.append_cancel_left hpath]

theorem deriveOrNull_inj (h : deriveOrNull mirrorRoot nodeRoot remotePath = some path)
    (h' : deriveOrNull mirrorRoot nodeRoot other = some path) : remotePath = other := by
  have hok : ∀ {remotePath}, deriveOrNull mirrorRoot nodeRoot remotePath = some path →
      deriveLocalPath mirrorRoot nodeRoot remotePath = .ok path := by
    intro remotePath h
    unfold deriveOrNull at h
    cases hderive : deriveLocalPath mirrorRoot nodeRoot remotePath with
    | error message =>
      rw [hderive] at h
      cases h
    | ok path' =>
      rw [hderive] at h
      rw [Option.some.inj h]
  exact deriveLocalPath_inj (hok h) (hok h')

theorem nodup_destinations {α : Type} {files : List α} {moves : α → List LocalMove}
    {newPath : α → RemotePath} (hnodup : (files.map newPath).Nodup)
    (hone : ∀ f, (moves f).length ≤ 1)
    (hinj : ∀ f f', ∀ m ∈ moves f, ∀ m' ∈ moves f', m.2 = m'.2 → newPath f = newPath f') :
    ((files.flatMap moves).map (·.2)).Nodup := by
  induction files with
  | nil => exact List.nodup_nil
  | cons f rest ih =>
    obtain ⟨hnot, hrest⟩ := List.nodup_cons.mp hnodup
    rw [List.flatMap_cons, List.map_append, List.nodup_append]
    refine ⟨?_, ih hrest, fun path hpath path' hpath' heq => ?_⟩
    · have hlength := hone f
      match moves f, hlength with
      | [], _ => exact List.nodup_nil
      | [m], _ => exact List.nodup_singleton _
    · obtain ⟨m, hm, rfl⟩ := List.mem_map.mp hpath
      obtain ⟨m', hm', rfl⟩ := List.mem_map.mp hpath'
      obtain ⟨f', hf', hm'⟩ := List.mem_flatMap.mp hm'
      exact hnot (List.mem_map.mpr ⟨f', hf', (hinj f f' m hm m' hm' heq).symm⟩)

theorem nodup_of_length_le_one {moves : List LocalMove} (h : moves.length ≤ 1) :
    (moves.map (·.2)).Nodup := by
  match moves, h with
  | [], _ => exact List.nodup_nil
  | [m], _ => exact List.nodup_singleton _

theorem localCopies_inj {nodeId : String} {oldPath oldPath' newPath newPath' : RemotePath}
    {oldLocal oldLocal' newLocal : LocalPath}
    (h : localCopies server nodeId oldPath newPath = (some oldLocal, some newLocal))
    (h' : localCopies server nodeId oldPath' newPath' = (some oldLocal', some newLocal)) :
    newPath = newPath' := by
  have hcopy : ∀ {oldPath newPath oldLocal},
      localCopies server nodeId oldPath newPath = (some oldLocal, some newLocal) →
        ∃ info, server.nodeInfo nodeId = some info ∧
          server.localCopy nodeId info newPath = some newLocal := by
    intro oldPath newPath oldLocal h
    unfold localCopies at h
    split at h
    · cases h
    next info hinfo =>
      split at h
      next o n ho hn =>
        obtain rfl : n = newLocal := Option.some.inj (congrArg Prod.snd h)
        exact ⟨info, hinfo, hn⟩
      · cases h
  obtain ⟨info, hinfo, hnew⟩ := hcopy h
  obtain ⟨info', hinfo', hnew'⟩ := hcopy h'
  obtain rfl := Option.some.inj (hinfo.symm.trans hinfo')
  unfold Server.localCopy at hnew hnew'
  cases hmirror : server.mirrorPath nodeId with
  | none => simp [hmirror] at hnew
  | some mirrorRoot =>
    cases hroot : buildNodeRoot info with
    | error message => simp [hmirror, hroot, Except.bind, Except.toOption] at hnew
    | ok nodeRoot =>
      simp only [hmirror, hroot, Option.bind_some] at hnew hnew'
      exact deriveOrNull_inj hnew hnew'

theorem folderFiles_of_renameFolderFiles {a : RenameFolderArgs} {files : List FolderFile}
    (h : renameFolderFiles server db a = .ok files) :
    ∃ oldAbs newAbs, files = folderFiles server db a.nodeId oldAbs newAbs := by
  unfold renameFolderFiles at h
  cases hinfo : server.resolveNodeInfo a.nodeId with
  | error message => rw [hinfo] at h; cases h
  | ok info =>
    rw [hinfo] at h
    cases hroot : buildNodeRoot info with
    | error message => simp only [bind, Except.bind, hroot, reduceCtorEq] at h
    | ok nodeRoot =>
      simp only [bind, Except.bind, hroot] at h
      split at h
      · cases h
      · split at h
        · cases h
        · exact ⟨_, _, (Except.ok.inj h).symm⟩

theorem nodup_newRemotePath (keyed : db.Keyed) (unique : UniquePaths db) {nodeId : String}
    {oldAbs newAbs : RemotePath} :
    ((folderFiles server db nodeId oldAbs newAbs).map (·.newRemotePath)).Nodup := by
  have hrows : (byRemotePath (db.files.filter (underFolder nodeId oldAbs))).Nodup :=
    (List.mergeSort_perm _ _).nodup_iff.mpr ((List.Nodup.of_map _ keyed.nodup).filter _)
  have hunder : ∀ r ∈ byRemotePath (db.files.filter (underFolder nodeId oldAbs)),
      r ∈ db.files ∧ r.nodeId = nodeId ∧
        ∀ path, r.remotePath = some path → ∃ rest, path = oldAbs ++ rest := by
    intro r hr
    obtain ⟨hr, hfolder⟩ := List.mem_filter.mp (List.mem_mergeSort.mp hr)
    simp only [underFolder, Bool.and_eq_true, decide_eq_true_eq, Option.any_eq_true] at hfolder
    obtain ⟨hnode, path, hpath, hbelow⟩ := hfolder
    refine ⟨hr, hnode, fun path' hpath' => ?_⟩
    obtain rfl := Option.some.inj (hpath.symm.trans hpath')
    obtain ⟨rel, hrel⟩ := Option.isSome_iff_exists.mp hbelow
    exact ⟨rel, (below_eq_some hrel).1⟩
  rw [List.Nodup, List.pairwise_map, folderFiles, List.pairwise_filterMap]
  refine hrows.imp_of_mem fun {r r'} hr hr' hne f hf f' hf' heq => hne ?_
  obtain ⟨hmem, hnode, hsplit⟩ := hunder r hr
  obtain ⟨hmem', hnode', hsplit'⟩ := hunder r' hr'
  obtain ⟨path, hpath, rfl⟩ := Option.map_eq_some_iff.mp hf
  obtain ⟨path', hpath', rfl⟩ := Option.map_eq_some_iff.mp hf'
  obtain ⟨rest, rfl⟩ := hsplit path hpath
  obtain ⟨rest', rfl⟩ := hsplit' path' hpath'
  simp only [List.drop_left, List.append_cancel_left_eq] at heq
  subst heq
  exact unique r hmem r' hmem' (hnode.trans hnode'.symm) _ hpath hpath'

theorem nodup_renames {call : RelocationCall} (hcall : call.WellFormed db) :
    ((call.renames server db remote).map (·.2)).Nodup := by
  cases call with
  | moveFile a =>
    apply nodup_of_length_le_one
    cases hplan : planMove server db a with
    | error message => simp [RelocationCall.renames, hplan]
    | ok plan =>
      simp only [RelocationCall.renames, hplan]
      split
      · exact (differing_sublist _).length_le.trans (length_bothPaths _)
      · exact Nat.zero_le 1
  | renameFile fileId newFilename =>
    apply nodup_of_length_le_one
    cases hplan : planRename db fileId newFilename (boundPath server) with
    | error message => simp [RelocationCall.renames, hplan]
    | ok plan =>
      simp only [RelocationCall.renames, hplan]
      split
      · exact (differing_sublist _).length_le.trans (length_bothPaths _)
      · exact Nat.zero_le 1
  | renameFolder a =>
    cases hfiles : renameFolderFiles server db a with
    | error message => simp [RelocationCall.renames, hfiles]
    | ok files =>
      simp only [RelocationCall.renames, hfiles]
      split
      · exact List.nodup_nil
      · obtain ⟨oldAbs, newAbs, rfl⟩ := folderFiles_of_renameFolderFiles hfiles
        have hlisted : ((folderFiles server db a.nodeId oldAbs newAbs).map
            (·.newRemotePath)).Nodup := nodup_newRemotePath hcall.1 hcall.2
        refine nodup_destinations
          (hlisted.sublist ((List.filter_sublist.trans (List.take_sublist _ _)).map _))
          (fun f => length_bothPaths _) ?_
        intro f f' m hm m' hm' heq
        have hm' := mem_bothPaths.mp hm'
        rw [← heq] at hm'
        exact localCopies_inj (mem_bothPaths.mp hm) hm'
  | proxiedMove m =>
    apply nodup_of_length_le_one
    simp only [RelocationCall.renames]
    split
    · refine (differing_sublist _).length_le.trans ?_
      unfold ProxiedMove.localMoves
      split
      · exact length_bothPaths _
      · exact Nat.zero_le 1
    · exact Nat.zero_le 1
  | proxiedRenameFolder snapshot files =>
    refine (nodup_destinations (hcall.sublist (List.filter_sublist.map _))
      (fun f => length_bothPaths _) ?_).sublist ((differing_sublist _).map _)
    intro f f' m hm m' hm' heq
    obtain ⟨-, hnew⟩ := Prod.mk.inj (mem_bothPaths.mp hm)
    obtain ⟨-, hnew'⟩ := Prod.mk.inj (mem_bothPaths.mp hm')
    rw [← heq] at hnew'
    exact deriveOrNull_inj hnew hnew'

/-- The bytes of another file at a derived local path are on the disk after the call, exactly if
no rename of the call meets the last file of some bytes. -/
theorem destinationsKept_iff {Bytes : Type u} {call : RelocationCall}
    (hcall : call.WellFormed db) (fails : LocalMove → Option String) (disk : Disk Bytes) :
    DestinationsKept disk (fsRenames fails (call.renames server db remote) disk)
        (call.derived server db) ↔
      NeverOverwrites fails disk (call.renames server db remote) := by
  constructor
  · intro h
    exact neverOverwrites_of_destinationsKept (nodup_renames hcall) fun m hm =>
      h m (renames_subset call m hm)
  · intro h
    exact destinationsKept_of_neverOverwrites h _

def mirroredServer : Server := { sampleServer with mirrorPath := fun _ => some ["mirror"] }

/-- The remote knows one file; the device has another one, never pushed. -/
def unpushedBeside : Disk Bool := fun path =>
  if path = ["mirror", "wip", "old.md"] then some true
  else if path = ["mirror", "wip", "new.md"] then some false else none

/-- The rename of the one replaces the other. -/
theorem unpushedBeside_replaced :
    ¬ DestinationsKept unpushedBeside (fsRenames (fun _ => none)
        ((RelocationCall.renameFile 0 "new.md").renames mirroredServer onePushedFile
          fun _ => sampleWorld.relocation) unpushedBeside)
      ((RelocationCall.renameFile 0 "new.md").derived mirroredServer onePushedFile) := by
  have hderived : (RelocationCall.renameFile 0 "new.md").derived mirroredServer onePushedFile =
      [(["mirror", "wip", "old.md"], ["mirror", "wip", "new.md"])] := by decide +kernel
  have hrenames : (RelocationCall.renameFile 0 "new.md").renames mirroredServer onePushedFile
      (fun _ => sampleWorld.relocation) =
        [(["mirror", "wip", "old.md"], ["mirror", "wip", "new.md"])] := by decide +kernel
  have hmoved : unpushedBeside ["mirror", "wip", "old.md"] = some true := by decide
  have hlast : ∀ path, path ≠ ["mirror", "wip", "new.md"] → unpushedBeside path ≠ some false := by
    intro path hpath
    unfold unpushedBeside
    split
    · simp
    · simp
  rw [hderived, hrenames]
  intro h
  exact not_onDisk_of_overwritten rfl hmoved (by decide) hlast
    (h _ List.mem_cons_self (by decide) false (by decide))

def wipToOutputs : RelocationCall :=
  .renameFolder
    { nodeId := "node", oldPrefix := ["wip"], newPrefix := ["outputs"], dryRun := false }

theorem wellFormed_wipToOutputs : wipToOutputs.WellFormed onePushedFile := by
  refine ⟨keyed_onePushedFile, fun r hr r' hr' _ _ _ _ => ?_⟩
  rw [List.mem_singleton.mp hr, List.mem_singleton.mp hr']

/-- A folder is renamed beside a file that is not in it. -/
theorem destinationsKept_iff_folder :
    DestinationsKept unpushedBeside (fsRenames (fun _ => none)
          (wipToOutputs.renames mirroredServer onePushedFile fun _ => sampleWorld.relocation)
          unpushedBeside) (wipToOutputs.derived mirroredServer onePushedFile) ↔
      NeverOverwrites (fun _ => none) unpushedBeside
        (wipToOutputs.renames mirroredServer onePushedFile fun _ => sampleWorld.relocation) :=
  destinationsKept_iff wellFormed_wipToOutputs _ _

end Portuni.FileOps
