import Portuni.Library.PosixPath
import Portuni.Library.Runs

namespace Portuni.FilesTab

/-!
The plan of the Files tab: which file goes to which folder, the folders that exist only in the
plan, and the steps that edit it. Nothing here touches a file.
-/

section

open Library.PosixPath

inductive Section where
  | wip
  | outputs
  | resources
deriving DecidableEq

def Section.name : Section → String
  | .wip => "wip"
  | .outputs => "outputs"
  | .resources => "resources"

def section? (value : String) : Option Section :=
  [Section.wip, .outputs, .resources].find? (·.name = value)

structure MoveTarget where
  «section» : Section
  subpath : Option String
deriving DecidableEq

/-- `moves` has at most one entry for a file id. -/
structure FilePlan where
  moves : List (String × MoveTarget) := []
  folders : List String := []
deriving DecidableEq

/-- A row of the tree; an untracked file has no id. -/
structure PlanFile where
  relativePath : String
  fileId : Option String
deriving DecidableEq

inductive PlanReason where
  | untracked
  | fileGone
  | targetOutsideSections
  | fileExists (name : String)
  | folderHasUntracked (name : String)
  | sectionMove
  | intoItself
  | sectionRename
  | invalidFolderName
  | folderExists (name : String)
  | pathEmpty
  | pathOutsideSections
  | pathNeedsName

abbrev PlanResult := Except PlanReason FilePlan

def folderPathOf (relativePath : String) : String := joined (segments relativePath).dropLast

def basenameOf (relativePath : String) : String := (segments relativePath).getLastD ""

def targetToFolderPath (target : MoveTarget) : String :=
  match target.subpath.filter (· ≠ "") with
  | some subpath => target.section.name ++ "/" ++ subpath
  | none => target.section.name

def isSpace (c : Char) : Bool :=
  c.toNat ∈ [0x9, 0xa, 0xb, 0xc, 0xd, 0x20, 0xa0, 0x1680, 0x2028, 0x2029, 0x202f, 0x205f, 0x3000,
    0xfeff] || (0x2000 ≤ c.toNat && c.toNat ≤ 0x200a)

def isTrimmed (seg : String) : Bool :=
  seg.toList.head?.all (!isSpace ·) && seg.toList.getLast?.all (!isSpace ·)

def isSafeSegment (seg : String) : Bool :=
  seg ≠ "" && seg ≠ "." && seg ≠ ".." &&
    seg.toList.all (fun c => c ≠ '/' && c ≠ '\\' && c.toNat ≠ 0) && isTrimmed seg

def folderPathToTarget (folderPath : String) : Option MoveTarget :=
  match segments folderPath with
  | [] => none
  | first :: rest =>
    match section? first with
    | none => none
    | some s =>
      if rest.all isSafeSegment then some ⟨s, if rest = [] then none else some (joined rest)⟩
      else none

def joinPath (folderPath name : String) : String :=
  if folderPath = "" then name else folderPath ++ "/" ++ name

/-- What follows `folderPath ++ "/"` in a path that starts with it. -/
def below (folderPath path : String) : Option String :=
  if (folderPath ++ "/").toList.isPrefixOf path.toList then
    some (String.ofList (path.toList.drop (folderPath ++ "/").length))
  else none

def FilePlan.target? (plan : FilePlan) (file : PlanFile) : Option MoveTarget :=
  file.fileId.bind fun fileId => plan.moves.lookup fileId

def effectivePathOf (file : PlanFile) (plan : FilePlan) : String :=
  match plan.target? file with
  | none => file.relativePath
  | some target => joinPath (targetToFolderPath target) (basenameOf file.relativePath)

def ancestors (path : String) : List String :=
  (segments path).inits.dropLast.tail.map joined

def folderPathsOf (files : List PlanFile) : List String :=
  files.flatMap fun f => ancestors f.relativePath

def withoutMove (moves : List (String × MoveTarget)) (fileId : String) :
    List (String × MoveTarget) :=
  moves.filter (·.1 ≠ fileId)

def withMove (moves : List (String × MoveTarget)) (fileId : String) (target : MoveTarget) :
    List (String × MoveTarget) :=
  withoutMove moves fileId ++ [(fileId, target)]

/-- A file that is planned into the folder it lives in has no entry. -/
def setMove (moves : List (String × MoveTarget)) (file : PlanFile) (targetFolder : String) :
    List (String × MoveTarget) :=
  match file.fileId with
  | none => moves
  | some fileId =>
    match folderPathToTarget targetFolder with
    | none => moves
    | some target =>
      if targetFolder = folderPathOf file.relativePath then withoutMove moves fileId
      else withMove moves fileId target

def byId (files : List PlanFile) (fileId : String) : Option PlanFile :=
  files.reverse.find? (·.fileId = some fileId)

/-- The entries that are kept: the file is there, the target is usable and not where it lives. -/
def keptMove (files : List PlanFile) (entry : String × MoveTarget) : Bool :=
  match byId files entry.1 with
  | none => false
  | some file =>
    (folderPathToTarget (targetToFolderPath entry.2)).isSome &&
      folderPathOf file.relativePath ≠ targetToFolderPath entry.2

def keptFolders (files : List PlanFile) (folders : List String) : List String :=
  (folders.eraseDups.filter fun path =>
    (folderPathToTarget path).isSome && !(folderPathsOf files).contains path).mergeSort (· ≤ ·)

def cleanPlan (files : List PlanFile) (plan : FilePlan) : FilePlan where
  moves := plan.moves.filter (keptMove files)
  folders := keptFolders files plan.folders

structure PlannedFile where
  relativePath : String
  fileId : Option String
  plannedFrom : Option String

def plannedFile (moves : List (String × MoveTarget)) (file : PlanFile) : PlannedFile :=
  match file.fileId.bind (fun fileId => moves.lookup fileId) with
  | none => ⟨file.relativePath, file.fileId, none⟩
  | some target =>
    ⟨joinPath (targetToFolderPath target) (basenameOf file.relativePath), file.fileId,
      some (folderPathOf file.relativePath)⟩

structure Applied where
  files : List PlannedFile
  folders : List String
  plan : FilePlan

def applyPlan (files : List PlanFile) (plan : FilePlan) : Applied where
  files := files.map (plannedFile (cleanPlan files plan).moves)
  folders := (cleanPlan files plan).folders
  plan := cleanPlan files plan

def planMove (plan : FilePlan) (file : PlanFile) (targetFolder : String)
    (occupied : List String) : PlanResult :=
  match file.fileId with
  | none => .error .untracked
  | some fileId =>
    match folderPathToTarget targetFolder with
    | none => .error .targetOutsideSections
    | some target =>
      if targetFolder = folderPathOf file.relativePath then
        .ok { plan with moves := withoutMove plan.moves fileId }
      else if joinPath targetFolder (basenameOf file.relativePath) ≠ effectivePathOf file plan ∧
          joinPath targetFolder (basenameOf file.relativePath) ∈ occupied then
        .error (.fileExists (basenameOf file.relativePath))
      else .ok { plan with moves := withMove plan.moves fileId target }

def inside (plan : FilePlan) (folderPath : String) (files : List PlanFile) :
    List (PlanFile × String) :=
  files.filterMap fun f => (below folderPath (effectivePathOf f plan)).map fun rest => (f, rest)

/-- The loop over the files of a folder, with the moves and the taken paths so far. -/
def replanFiles (newFolderPath : String) (occupied leaving : List String) :
    List (PlanFile × String) → List (String × MoveTarget) → List String →
      Except PlanReason (List (String × MoveTarget))
  | [], moves, _ => .ok moves
  | (f, rest) :: more, moves, taken =>
    let newPath := newFolderPath ++ "/" ++ rest
    if (newPath ∈ occupied ∧ newPath ∉ leaving) ∨ newPath ∈ taken then
      .error (.fileExists (basenameOf newPath))
    else if (folderPathToTarget (folderPathOf newPath)).isNone then
      .error .targetOutsideSections
    else
      replanFiles newFolderPath occupied leaving more (setMove moves f (folderPathOf newPath))
        (newPath :: taken)

def replanFolder (plan : FilePlan) (folderPath newFolderPath : String) (files : List PlanFile)
    (occupied : List String) : PlanResult :=
  match (inside plan folderPath files).find? (·.1.fileId = none) with
  | some untracked => .error (.folderHasUntracked (basenameOf untracked.1.relativePath))
  | none =>
    match replanFiles newFolderPath occupied
        ((inside plan folderPath files).map fun p => effectivePathOf p.1 plan)
        (inside plan folderPath files) plan.moves [] with
    | .error reason => .error reason
    | .ok moves =>
      .ok ⟨moves, plan.folders.map fun p =>
        if p = folderPath then newFolderPath
        else
          match below folderPath p with
          | some rest => newFolderPath ++ "/" ++ rest
          | none => p⟩

def planFolderMove (plan : FilePlan) (folderPath targetFolder : String) (files : List PlanFile)
    (occupied : List String) : PlanResult :=
  if (segments folderPath).length < 2 then .error .sectionMove
  else if (folderPathToTarget targetFolder).isNone then .error .targetOutsideSections
  else if targetFolder = folderPath ∨ (below folderPath targetFolder).isSome then
    .error .intoItself
  else if joinPath targetFolder (basenameOf folderPath) = folderPath then .ok plan
  else
    replanFolder plan folderPath (joinPath targetFolder (basenameOf folderPath)) files occupied

def planFolderRename (plan : FilePlan) (folderPath newName : String) (files : List PlanFile)
    (occupied : List String) : PlanResult :=
  let parts := segments folderPath
  let newFolderPath := joined (parts.dropLast ++ [newName])
  if parts.length < 2 ∨ (section? (parts.headD "")).isNone then .error .sectionRename
  else if !isSafeSegment newName then .error .invalidFolderName
  else if newFolderPath = folderPath then .ok plan
  else if newFolderPath ∈ plan.folders ∨ newFolderPath ∈ occupied.flatMap ancestors then
    .error (.folderExists newName)
  else replanFolder plan folderPath newFolderPath files occupied

def trimmedPath (path : String) : String :=
  if path.toList.getLast? = some '/' then String.ofList path.toList.dropLast else path

def planFolder (plan : FilePlan) (path : String) (existingFolders : List String) : PlanResult :=
  let parts := segments (trimmedPath path)
  if trimmedPath path = "" then .error .pathEmpty
  else if (section? (parts.headD "")).isNone then .error .pathOutsideSections
  else if parts.length < 2 then .error .pathNeedsName
  else if !parts.tail.all isSafeSegment then .error .invalidFolderName
  else if trimmedPath path ∈ existingFolders ∨ trimmedPath path ∈ plan.folders then
    .error (.folderExists (trimmedPath path))
  else .ok { plan with folders := plan.folders ++ [trimmedPath path] }

def occupiedFolders (files : List PlanFile) (plan : FilePlan) : List String :=
  files.flatMap fun f => ancestors (effectivePathOf f plan)

def pruneEmptyFolders (prev next : FilePlan) (files : List PlanFile) : FilePlan where
  moves := next.moves
  folders := next.folders.filter fun path =>
    (occupiedFolders files next).contains path || !(occupiedFolders files prev).contains path

/-- The Files tab: the rows of the last poll, and the plan as it was saved last. -/
structure Tab where
  files : List PlanFile
  plan : FilePlan := {}
deriving DecidableEq

def Tab.occupied (tab : Tab) : List String :=
  (applyPlan tab.files tab.plan).files.map (·.relativePath)

inductive Action where
  | move (fileId targetFolder : String)
  | moveFolder (folderPath targetFolder : String)
  | renameFolder (folderPath newName : String)
  | newFolder (path : String)
  | discard
  | refresh (files : List PlanFile)

def Tab.result (tab : Tab) : Action → PlanResult
  | .move fileId targetFolder =>
    match byId tab.files fileId with
    | none => .error .fileGone
    | some file => planMove tab.plan file targetFolder tab.occupied
  | .moveFolder folderPath targetFolder =>
    planFolderMove tab.plan folderPath targetFolder tab.files tab.occupied
  | .renameFolder folderPath newName =>
    planFolderRename tab.plan folderPath newName tab.files tab.occupied
  | .newFolder path =>
    planFolder tab.plan path
      ((applyPlan tab.files tab.plan).files.flatMap fun f => ancestors f.relativePath)
  | .discard => .ok {}
  | .refresh _ => .ok tab.plan

/-- A step that moves files is followed by `pruneEmptyFolders`, and every render saves the plan
that `applyPlan` leaves. -/
def Tab.step (tab : Tab) (a : Action) : Tab :=
  match a, tab.result a with
  | .refresh files, _ => ⟨files, (applyPlan files tab.plan).plan⟩
  | _, .error _ => tab
  | .newFolder _, .ok next => { tab with plan := (applyPlan tab.files next).plan }
  | .discard, .ok next => { tab with plan := (applyPlan tab.files next).plan }
  | _, .ok next =>
    { tab with plan := (applyPlan tab.files (pruneEmptyFolders tab.plan next tab.files)).plan }

end

open Library.PosixPath

section

variable {p folder name rest : String} {target : MoveTarget}

theorem isSegment_of_isSafeSegment {seg : String} (h : isSafeSegment seg = true) :
    IsSegment seg := by
  simp only [isSafeSegment, Bool.and_eq_true, decide_eq_true_eq, List.all_eq_true] at h
  exact ⟨h.1.1.1.1, fun hslash => by simpa using h.1.2 _ hslash⟩

theorem section?_name {value : String} {s : Section} (h : section? value = some s) :
    s.name = value := by
  simpa [section?] using List.find?_some h

theorem targetToFolderPath_folderPathToTarget (h : folderPathToTarget folder = some target) :
    targetToFolderPath target = folder := by
  unfold folderPathToTarget at h
  split at h
  next => simp at h
  next first more hsegs =>
    split at h
    next => simp at h
    next s hs =>
      split at h
      next hsafe =>
        cases h
        have hfolder : folder = joined (first :: more) := by rw [← hsegs, joined_segments]
        have hname := section?_name hs
        cases more with
        | nil => simp [targetToFolderPath, hfolder, hname]
        | cons second more =>
          have hne : joined (second :: more) ≠ "" :=
            joined_ne_empty (List.cons_ne_nil _ _) fun t ht =>
              isSegment_of_isSafeSegment (List.all_eq_true.mp hsafe t ht)
          rw [hfolder, joined_cons (List.cons_ne_nil _ _)]
          simp [targetToFolderPath, Option.filter, hne, hname]
      next => simp at h

theorem folderPathToTarget_empty : folderPathToTarget "" = none := by
  decide

theorem joinPath_folderPathOf (h : (folderPathToTarget (folderPathOf p)).isSome = true) :
    joinPath (folderPathOf p) (basenameOf p) = p := by
  have hne : folderPathOf p ≠ "" := by
    intro hempty
    rw [hempty, folderPathToTarget_empty] at h
    simp at h
  have hdrop : (segments p).dropLast ≠ [] := by
    intro hnil
    exact hne (by rw [folderPathOf, hnil, joined_nil])
  rw [joinPath, if_neg hne]
  calc folderPathOf p ++ "/" ++ basenameOf p
      = joined ((segments p).dropLast ++ [basenameOf p]) := by
        rw [joined_append hdrop (List.cons_ne_nil _ _), joined_singleton, folderPathOf]
    _ = joined (segments p) := by
        rw [basenameOf, List.getLastD_eq_getLast?,
          List.getLast?_eq_some_getLast (segments_ne_nil p), Option.getD_some,
          List.dropLast_append_getLast]
    _ = p := joined_segments p

theorem slash_notMem_basenameOf : '/' ∉ (basenameOf p).toList := by
  rw [basenameOf, List.getLastD_eq_getLast?, List.getLast?_eq_some_getLast (segments_ne_nil p)]
  exact slash_notMem_of_mem_segments (List.getLast_mem _)

theorem basenameOf_append : basenameOf (folder ++ "/" ++ rest) = basenameOf rest := by
  rw [basenameOf, basenameOf, segments_append_slash, List.getLastD_eq_getLast?,
    List.getLastD_eq_getLast?, List.getLast?_append_of_ne_nil _ (segments_ne_nil rest)]

theorem basenameOf_joinPath (h : '/' ∉ name.toList) : basenameOf (joinPath folder name) = name := by
  have hname : basenameOf name = name := by
    rw [basenameOf, segments_singleton h]
    rfl
  unfold joinPath
  split
  · exact hname
  · rw [basenameOf_append, hname]

theorem below_eq_some : below folder p = some rest ↔ p = folder ++ "/" ++ rest := by
  have hlength : (folder ++ "/").length = (folder ++ "/").toList.length :=
    String.length_toList.symm
  unfold below
  rw [hlength]
  constructor
  · intro h
    split at h
    next hprefix =>
      cases h
      obtain ⟨tail, htail⟩ := List.isPrefixOf_iff_prefix.mp hprefix
      have happend : (folder ++ "/" ++ String.ofList tail).toList =
          (folder ++ "/").toList ++ tail := by
        rw [String.toList_append, String.toList_ofList]
      apply String.toList_inj.mp
      rw [← htail, List.drop_left, happend]
    next => simp at h
  · rintro rfl
    have happend : (folder ++ "/" ++ rest).toList = (folder ++ "/").toList ++ rest.toList :=
      String.toList_append
    rw [happend, List.drop_left, String.ofList_toList,
      if_pos (List.isPrefixOf_iff_prefix.mpr (List.prefix_append _ _))]

end

variable {moves : List (String × MoveTarget)} {fileId other : String} {target : MoveTarget}

theorem lookup_withoutMove_self : (withoutMove moves fileId).lookup fileId = none := by
  rw [List.lookup_eq_none_iff]
  intro e he
  have hne : e.1 ≠ fileId := by simpa using (List.mem_filter.mp he).2
  exact bne_iff_ne.mpr hne.symm

theorem lookup_withoutMove (h : other ≠ fileId) :
    (withoutMove moves fileId).lookup other = moves.lookup other := by
  unfold withoutMove
  induction moves with
  | nil => rfl
  | cons e moves ih =>
    rw [List.filter_cons, List.lookup_cons]
    split
    next => rw [List.lookup_cons, ih]
    next hkeep =>
      have heq : e.1 = fileId := by simpa using hkeep
      have hne : (other == e.1) = false := by simpa [heq] using h
      rw [hne, ih]

theorem lookup_withMove_self : (withMove moves fileId target).lookup fileId = some target := by
  rw [withMove, List.lookup_append, lookup_withoutMove_self]
  simp

theorem lookup_withMove (h : other ≠ fileId) :
    (withMove moves fileId target).lookup other = moves.lookup other := by
  rw [withMove, List.lookup_append, lookup_withoutMove h]
  have : (other == fileId) = false := by simpa using h
  simp [List.lookup_cons, this]

def Keyed (moves : List (String × MoveTarget)) : Prop := (moves.map Prod.fst).Nodup

theorem keyed_withoutMove (h : Keyed moves) : Keyed (withoutMove moves fileId) :=
  h.sublist (List.filter_sublist.map _)

theorem keyed_withMove (h : Keyed moves) : Keyed (withMove moves fileId target) := by
  unfold Keyed withMove
  rw [List.map_append, List.nodup_append]
  refine ⟨keyed_withoutMove h, by simp, ?_⟩
  intro a ha b hb
  obtain ⟨e, he, rfl⟩ := List.mem_map.mp ha
  obtain rfl := List.mem_singleton.mp hb
  simpa using (List.mem_filter.mp he).2

theorem lookup_filter (h : Keyed moves) (keep : String × MoveTarget → Bool) :
    (moves.filter keep).lookup fileId = (moves.lookup fileId).filter fun t => keep (fileId, t) := by
  induction moves with
  | nil => rfl
  | cons e moves ih =>
    obtain ⟨hnot, hrest⟩ := List.nodup_cons.mp h
    have ih := ih hrest
    rw [List.filter_cons, List.lookup_cons]
    cases hkey : fileId == e.1 with
    | true =>
      have heq : fileId = e.1 := by simpa using hkey
      subst heq
      have hnone : moves.lookup e.1 = none := by
        rw [List.lookup_eq_none_iff]
        intro e' he'
        have : e.1 ≠ e'.1 := fun heq => hnot (heq ▸ List.mem_map_of_mem he')
        simpa using this
      rw [hnone] at ih
      split
      next hkeep => rw [List.lookup_cons, hkey, Option.filter_some, if_pos hkeep]
      next hkeep => rw [ih, Option.filter_some, if_neg hkeep, Option.filter_none]
    | false =>
      split
      next => rw [List.lookup_cons, hkey, ih]
      next => rw [ih]

theorem mem_of_lookup (h : moves.lookup fileId = some target) : (fileId, target) ∈ moves := by
  obtain ⟨l, r, rfl, -⟩ := List.lookup_eq_some_iff.mp h
  simp

end Portuni.FilesTab
