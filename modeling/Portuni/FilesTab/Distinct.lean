import Mathlib.Data.List.Nodup
import Portuni.FilesTab.Model

/-!
The effective paths of a tree under its plan stay different from each other, whatever steps the
user takes, as long as no file goes home to a place that is taken and no planned file gets another
name underneath the plan.
-/

namespace Portuni.FilesTab

open Library.PosixPath Library.Runs

/-- A tree: its rows have different paths, and a file id belongs to one row. -/
structure Tree (files : List PlanFile) : Prop where
  paths : (files.map (·.relativePath)).Nodup
  ids : ∀ f ∈ files, ∀ g ∈ files, f.fileId ≠ none → f.fileId = g.fileId → f = g

def InSections (moves : List (String × MoveTarget)) : Prop :=
  ∀ e ∈ moves, (folderPathToTarget (targetToFolderPath e.2)).isSome = true

def DistinctPaths (files : List PlanFile) (plan : FilePlan) : Prop :=
  (files.map fun f => effectivePathOf f plan).Nodup

section

variable {files : List PlanFile} {plan : FilePlan} {f g : PlanFile} {fileId : String}

theorem Tree.nodup (tree : Tree files) : files.Nodup := List.Nodup.of_map _ tree.paths

theorem distinctPaths_iff (tree : Tree files) :
    DistinctPaths files plan ↔ ∀ f ∈ files, ∀ g ∈ files,
      effectivePathOf f plan = effectivePathOf g plan → f = g :=
  ⟨fun h _ hf _ hg => List.inj_on_of_nodup_map h hf hg, fun h => tree.nodup.map_on h⟩

theorem effectivePathOf_of_none (h : plan.target? f = none) :
    effectivePathOf f plan = f.relativePath := by
  rw [effectivePathOf, h]

theorem effectivePathOf_of_some {target : MoveTarget} (h : plan.target? f = some target) :
    effectivePathOf f plan = joinPath (targetToFolderPath target) (basenameOf f.relativePath) := by
  rw [effectivePathOf, h]

theorem basenameOf_effectivePathOf (f : PlanFile) (plan : FilePlan) :
    basenameOf (effectivePathOf f plan) = basenameOf f.relativePath := by
  unfold effectivePathOf
  split
  next => rfl
  next => exact basenameOf_joinPath slash_notMem_basenameOf

theorem effectivePathOf_congr {plan' : FilePlan} (h : plan.target? f = plan'.target? f) :
    effectivePathOf f plan = effectivePathOf f plan' := by
  rw [effectivePathOf, effectivePathOf, h]

theorem target?_mk {moves : List (String × MoveTarget)} {folders : List String} :
    (FilePlan.mk moves folders).target? f = f.fileId.bind fun fileId => moves.lookup fileId := rfl

theorem byId_eq_some (tree : Tree files) (hf : f ∈ files) (hid : f.fileId = some fileId) :
    byId files fileId = some f := by
  unfold byId
  cases hfind : files.reverse.find? (·.fileId = some fileId) with
  | none =>
    have := List.find?_eq_none.mp hfind f (List.mem_reverse.mpr hf)
    simp [hid] at this
  | some g =>
    have hg : g ∈ files := List.mem_reverse.mp (List.mem_of_find?_eq_some hfind)
    have hgid : g.fileId = some fileId := by simpa using List.find?_some hfind
    rw [tree.ids f hf g hg (by simp [hid]) (hid.trans hgid.symm)]

theorem mem_of_byId (h : byId files fileId = some f) : f ∈ files ∧ f.fileId = some fileId :=
  ⟨List.mem_reverse.mp (List.mem_of_find?_eq_some h), by simpa using List.find?_some h⟩

theorem effectivePathOf_cleanPlan (tree : Tree files) (keyed : Keyed plan.moves)
    (sections : InSections plan.moves) (hf : f ∈ files) :
    effectivePathOf f (cleanPlan files plan) = effectivePathOf f plan := by
  cases hid : f.fileId with
  | none => exact effectivePathOf_congr (by simp [FilePlan.target?, hid])
  | some fileId =>
    have hclean : (cleanPlan files plan).target? f =
        (plan.moves.lookup fileId).filter fun t => keptMove files (fileId, t) := by
      rw [FilePlan.target?, hid, Option.bind_some, cleanPlan, lookup_filter keyed]
    cases htarget : plan.moves.lookup fileId with
    | none =>
      refine effectivePathOf_congr ?_
      rw [hclean, FilePlan.target?, hid, Option.bind_some, htarget]
      rfl
    | some target =>
      have hplan : plan.target? f = some target := by
        rw [FilePlan.target?, hid, Option.bind_some, htarget]
      rw [htarget] at hclean
      by_cases hkeep : keptMove files (fileId, target) = true
      · refine effectivePathOf_congr ?_
        rw [hclean, hplan, Option.filter_some, if_pos hkeep]
      · rw [Option.filter_some, if_neg hkeep] at hclean
        rw [effectivePathOf_of_none hclean, effectivePathOf_of_some hplan]
        have husable := sections _ (mem_of_lookup htarget)
        have hhome : folderPathOf f.relativePath = targetToFolderPath target := by
          simpa [keptMove, byId_eq_some tree hf hid, husable] using hkeep
        rw [← hhome] at husable ⊢
        exact (joinPath_folderPathOf husable).symm

theorem mem_occupied {tab : Tab} (tree : Tree tab.files) (keyed : Keyed tab.plan.moves)
    (sections : InSections tab.plan.moves) {path : String} :
    path ∈ tab.occupied ↔ ∃ f ∈ tab.files, effectivePathOf f tab.plan = path := by
  have hrow : ∀ f ∈ tab.files, (plannedFile (cleanPlan tab.files tab.plan).moves f).relativePath =
      effectivePathOf f tab.plan := by
    intro f hf
    rw [← effectivePathOf_cleanPlan tree keyed sections hf]
    unfold plannedFile effectivePathOf FilePlan.target?
    split <;> simp_all
  simp only [Tab.occupied, applyPlan, List.map_map, List.mem_map, Function.comp_apply]
  constructor
  · rintro ⟨f, hf, rfl⟩
    exact ⟨f, hf, (hrow f hf).symm⟩
  · rintro ⟨f, hf, rfl⟩
    exact ⟨f, hf, hrow f hf⟩

end

section

variable {files : List PlanFile} {plan next : FilePlan} {f g : PlanFile} {fileId folder : String}
  {moves moves' : List (String × MoveTarget)} {target : MoveTarget}

/-- The entries after a file has been planned into a folder: it lies there, and no other file
moves. -/
structure Sets (moves moves' : List (String × MoveTarget)) (f : PlanFile) (folder : String) :
    Prop where
  keyed : Keyed moves → Keyed moves'
  sections : InSections moves → InSections moves'
  self : ∀ folders, effectivePathOf f ⟨moves', folders⟩ =
    joinPath folder (basenameOf f.relativePath)
  others : ∀ g : PlanFile, g.fileId ≠ f.fileId → ∀ folders folders',
    effectivePathOf g ⟨moves', folders⟩ = effectivePathOf g ⟨moves, folders'⟩

theorem effectivePathOf_congr_lookup {folders folders' : List String}
    (h : ∀ id, g.fileId = some id → moves'.lookup id = moves.lookup id) :
    effectivePathOf g ⟨moves', folders⟩ = effectivePathOf g ⟨moves, folders'⟩ := by
  refine effectivePathOf_congr ?_
  rw [target?_mk, target?_mk]
  cases hid : g.fileId with
  | none => rfl
  | some id => exact h id hid

theorem sets_withMove (hid : f.fileId = some fileId)
    (htarget : folderPathToTarget folder = some target) :
    Sets moves (withMove moves fileId target) f folder where
  keyed := keyed_withMove
  sections h e he := by
    rcases List.mem_append.mp he with he | he
    · exact h e (List.mem_filter.mp he).1
    · rw [List.mem_singleton.mp he, targetToFolderPath_folderPathToTarget htarget, htarget]
      rfl
  self folders := by
    have hself : (FilePlan.mk (withMove moves fileId target) folders).target? f = some target := by
      rw [target?_mk, hid, Option.bind_some, lookup_withMove_self]
    rw [effectivePathOf_of_some hself, targetToFolderPath_folderPathToTarget htarget]
  others g hg folders folders' := by
    refine effectivePathOf_congr_lookup fun id hid' => lookup_withMove fun heq => hg ?_
    rw [hid', hid, heq]

theorem sets_withoutMove (hid : f.fileId = some fileId)
    (husable : (folderPathToTarget folder).isSome = true)
    (hhome : folder = folderPathOf f.relativePath) :
    Sets moves (withoutMove moves fileId) f folder where
  keyed := keyed_withoutMove
  sections h e he := h e (List.mem_filter.mp he).1
  self folders := by
    have hself : (FilePlan.mk (withoutMove moves fileId) folders).target? f = none := by
      rw [target?_mk, hid, Option.bind_some, lookup_withoutMove_self]
    rw [effectivePathOf_of_none hself, hhome]
    exact (joinPath_folderPathOf (hhome ▸ husable)).symm
  others g hg folders folders' := by
    refine effectivePathOf_congr_lookup fun id hid' => lookup_withoutMove fun heq => hg ?_
    rw [hid', hid, heq]

theorem sets_setMove (moves : List (String × MoveTarget)) (hid : f.fileId ≠ none)
    (husable : (folderPathToTarget folder).isSome = true) :
    Sets moves (setMove moves f folder) f folder := by
  obtain ⟨fileId, hid⟩ := Option.ne_none_iff_exists'.mp hid
  obtain ⟨target, htarget⟩ := Option.isSome_iff_exists.mp husable
  simp only [setMove, hid, htarget]
  split
  next hhome => exact sets_withoutMove hid husable hhome
  next => exact sets_withMove hid htarget

theorem planMove_ok {occupied : List String} (h : planMove plan f folder occupied = .ok next) :
    ∃ moves', next = { plan with moves := moves' } ∧ f.fileId ≠ none ∧
      (folderPathToTarget folder).isSome = true ∧ Sets plan.moves moves' f folder ∧
      (folder = folderPathOf f.relativePath ∨
        joinPath folder (basenameOf f.relativePath) = effectivePathOf f plan ∨
        joinPath folder (basenameOf f.relativePath) ∉ occupied) := by
  unfold planMove at h
  split at h
  next => nomatch h
  next fileId hid =>
    split at h
    next => nomatch h
    next target htarget =>
      split at h
      next hhome =>
        cases h
        exact ⟨_, rfl, by simp [hid], by simp [htarget],
          sets_withoutMove hid (by simp [htarget]) hhome, .inl hhome⟩
      next =>
        split at h
        next => nomatch h
        next hfree =>
          cases h
          refine ⟨_, rfl, by simp [hid], by simp [htarget], sets_withMove hid htarget, .inr ?_⟩
          by_cases hsame : joinPath folder (basenameOf f.relativePath) = effectivePathOf f plan
          · exact .inl hsame
          · exact .inr fun hmem => hfree ⟨hsame, hmem⟩

theorem distinctPaths_of_sets (tree : Tree files) (distinct : DistinctPaths files plan)
    (hid : f.fileId ≠ none) (hf : f ∈ files) (sets : Sets plan.moves moves' f folder)
    (free : ∀ g ∈ files, g ≠ f →
      effectivePathOf g plan ≠ joinPath folder (basenameOf f.relativePath))
    (folders : List String) : DistinctPaths files ⟨moves', folders⟩ := by
  have old := (distinctPaths_iff tree).mp distinct
  have kept : ∀ g ∈ files, g ≠ f →
      effectivePathOf g ⟨moves', folders⟩ = effectivePathOf g plan := fun g hg hne =>
    sets.others g (fun heq => hne (tree.ids f hf g hg hid heq.symm).symm) folders plan.folders
  refine (distinctPaths_iff tree).mpr fun a ha b hb heq => ?_
  by_cases haf : a = f
  · by_cases hbf : b = f
    · rw [haf, hbf]
    · rw [haf, sets.self, kept b hb hbf] at heq
      exact absurd heq.symm (free b hb hbf)
  · by_cases hbf : b = f
    · rw [hbf, sets.self, kept a ha haf] at heq
      exact absurd heq (free a ha haf)
    · rw [kept a ha haf, kept b hb hbf] at heq
      exact old a ha b hb heq

end

variable {files : List PlanFile} {plan next : FilePlan} {folder newFolder : String}
  {occupied leaving : List String}

structure Replans (newFolder : String) (occupied leaving : List String)
    (pairs : List (PlanFile × String)) (moves moves' : List (String × MoveTarget)) : Prop where
  keyed : Keyed moves → Keyed moves'
  sections : InSections moves → InSections moves'
  moved : ∀ p ∈ pairs, ∀ folders, effectivePathOf p.1 ⟨moves', folders⟩ = newFolder ++ "/" ++ p.2
  others : ∀ g : PlanFile, (∀ p ∈ pairs, g.fileId ≠ p.1.fileId) → ∀ folders folders',
    effectivePathOf g ⟨moves', folders⟩ = effectivePathOf g ⟨moves, folders'⟩
  free : ∀ p ∈ pairs, newFolder ++ "/" ++ p.2 ∈ occupied → newFolder ++ "/" ++ p.2 ∈ leaving

theorem replanFiles_ok {pairs : List (PlanFile × String)}
    {moves moves' : List (String × MoveTarget)} {taken : List String}
    (hids : ∀ p ∈ pairs, p.1.fileId ≠ none)
    (hnames : ∀ p ∈ pairs, basenameOf p.1.relativePath = basenameOf p.2)
    (hpairs : pairs.Pairwise fun p q => p.1.fileId ≠ q.1.fileId)
    (h : replanFiles newFolder occupied leaving pairs moves taken = .ok moves') :
    Replans newFolder occupied leaving pairs moves moves' := by
  induction pairs generalizing moves taken with
  | nil =>
    simp only [replanFiles, Except.ok.injEq] at h
    subst h
    exact ⟨fun h => h, fun h => h, by simp, fun g _ _ _ => rfl, by simp⟩
  | cons p pairs ih =>
    obtain ⟨f, rest⟩ := p
    simp only [replanFiles] at h
    split at h
    next => nomatch h
    next hfree =>
      split at h
      next => nomatch h
      next husable =>
        have husable : (folderPathToTarget (folderPathOf (newFolder ++ "/" ++ rest))).isSome :=
          by simpa [Option.isSome_iff_ne_none] using husable
        have hid := hids _ List.mem_cons_self
        have sets := sets_setMove moves hid husable
        obtain ⟨hhead, htail⟩ := List.pairwise_cons.mp hpairs
        have more := ih (fun p hp => hids p (List.mem_cons_of_mem _ hp))
          (fun p hp => hnames p (List.mem_cons_of_mem _ hp)) htail h
        have hpath : ∀ folders, effectivePathOf f ⟨setMove moves f
            (folderPathOf (newFolder ++ "/" ++ rest)), folders⟩ = newFolder ++ "/" ++ rest := by
          intro folders
          have hname : basenameOf f.relativePath = basenameOf (newFolder ++ "/" ++ rest) :=
            (hnames _ List.mem_cons_self).trans basenameOf_append.symm
          rw [sets.self, hname, joinPath_folderPathOf husable]
        refine ⟨fun h => more.keyed (sets.keyed h), fun h => more.sections (sets.sections h),
          ?_, ?_, ?_⟩
        · intro q hq folders
          rcases List.mem_cons.mp hq with rfl | hq
          · rw [more.others f hhead folders folders, hpath]
          · exact more.moved q hq folders
        · intro g hg folders folders'
          rw [more.others g (fun q hq => hg q (List.mem_cons_of_mem _ hq)) folders folders',
            sets.others g (hg _ List.mem_cons_self) folders' folders']
        · intro q hq hmem
          rcases List.mem_cons.mp hq with rfl | hq
          · by_contra hnot
            exact hfree (.inl ⟨hmem, hnot⟩)
          · exact more.free q hq hmem

theorem mem_inside {p : PlanFile × String} :
    p ∈ inside plan folder files ↔
      p.1 ∈ files ∧ effectivePathOf p.1 plan = folder ++ "/" ++ p.2 := by
  simp only [inside, List.mem_filterMap, Option.map_eq_some_iff, below_eq_some]
  constructor
  · rintro ⟨f, hf, rest, heq, rfl⟩
    exact ⟨hf, heq⟩
  · rintro ⟨hf, heq⟩
    exact ⟨p.1, hf, p.2, heq, rfl⟩

/-- A folder step that goes through: every file effectively under the folder goes along, and no
other file moves. -/
structure MovesFolder (files : List PlanFile) (plan next : FilePlan)
    (folder newFolder : String) : Prop where
  moved : ∀ f ∈ files, ∀ rest, effectivePathOf f plan = folder ++ "/" ++ rest →
    effectivePathOf f next = newFolder ++ "/" ++ rest
  kept : ∀ f ∈ files, (∀ rest, effectivePathOf f plan ≠ folder ++ "/" ++ rest) →
    effectivePathOf f next = effectivePathOf f plan

theorem replanFolder_ok (tree : Tree files) (distinct : DistinctPaths files plan)
    (hoccupied : ∀ f ∈ files, effectivePathOf f plan ∈ occupied)
    (h : replanFolder plan folder newFolder files occupied = .ok next) :
    (Keyed plan.moves → Keyed next.moves) ∧ (InSections plan.moves → InSections next.moves) ∧
      DistinctPaths files next ∧ MovesFolder files plan next folder newFolder := by
  unfold replanFolder at h
  split at h
  next => nomatch h
  next huntracked =>
    split at h
    next => nomatch h
    next moves' hmoves =>
      cases h
      have hids : ∀ p ∈ inside plan folder files, p.1.fileId ≠ none := by
        simpa using List.find?_eq_none.mp huntracked
      have hpairs : (inside plan folder files).Pairwise fun p q => p.1.fileId ≠ q.1.fileId := by
        have hnodup : (inside plan folder files).Pairwise fun p q => p.1 ≠ q.1 := by
          refine List.pairwise_filterMap.mpr (tree.nodup.imp ?_)
          intro f g hne p hp q hq
          obtain ⟨_, _, rfl⟩ := Option.map_eq_some_iff.mp hp
          obtain ⟨_, _, rfl⟩ := Option.map_eq_some_iff.mp hq
          exact hne
        refine hnodup.imp_of_mem fun {p q} hp hq hne heq => hne ?_
        exact tree.ids _ (mem_inside.mp hp).1 _ (mem_inside.mp hq).1 (hids p hp) heq
      have hnames : ∀ p ∈ inside plan folder files,
          basenameOf p.1.relativePath = basenameOf p.2 := by
        intro p hp
        rw [← basenameOf_effectivePathOf p.1 plan, (mem_inside.mp hp).2, basenameOf_append]
      have replans := replanFiles_ok hids hnames hpairs hmoves
      have old := (distinctPaths_iff tree).mp distinct
      have moved : ∀ f ∈ files, ∀ rest, effectivePathOf f plan = folder ++ "/" ++ rest →
          ∀ folders, effectivePathOf f ⟨moves', folders⟩ = newFolder ++ "/" ++ rest :=
        fun f hf rest heq => replans.moved (f, rest) (mem_inside.mpr ⟨hf, heq⟩)
      have kept : ∀ f ∈ files, (∀ rest, effectivePathOf f plan ≠ folder ++ "/" ++ rest) →
          ∀ folders, effectivePathOf f ⟨moves', folders⟩ = effectivePathOf f plan := by
        intro f hf hout folders
        refine replans.others f (fun p hp heq => ?_) folders plan.folders
        have hin := mem_inside.mp hp
        have hsame := tree.ids _ hin.1 f hf (hids p hp) heq.symm
        exact hout p.2 (hsame ▸ hin.2)
      -- a path that a file of the folder takes is the path of no file outside
      have apart : ∀ f ∈ files, ∀ rest, effectivePathOf f plan = folder ++ "/" ++ rest →
          ∀ g ∈ files, (∀ rest, effectivePathOf g plan ≠ folder ++ "/" ++ rest) →
            newFolder ++ "/" ++ rest ≠ effectivePathOf g plan := by
        intro f hf rest heq g hg hout hsame
        have hleaving := replans.free (f, rest) (mem_inside.mpr ⟨hf, heq⟩) (hsame ▸ hoccupied g hg)
        obtain ⟨q, hq, hqpath⟩ := List.mem_map.mp hleaving
        have hin := mem_inside.mp hq
        have hgq := old g hg q.1 hin.1 (hsame.symm.trans hqpath.symm)
        exact hout q.2 (hgq ▸ hin.2)
      refine ⟨replans.keyed, replans.sections, (distinctPaths_iff tree).mpr ?_,
        fun f hf rest heq => moved f hf rest heq _, fun f hf hout => kept f hf hout _⟩
      intro f hf g hg heq
      by_cases hfin : ∃ rest, effectivePathOf f plan = folder ++ "/" ++ rest
      · obtain ⟨rest, hfrest⟩ := hfin
        rw [moved f hf rest hfrest] at heq
        by_cases hgin : ∃ rest, effectivePathOf g plan = folder ++ "/" ++ rest
        · obtain ⟨rest', hgrest⟩ := hgin
          rw [moved g hg rest' hgrest] at heq
          have hrest : rest = rest' := (String.append_right_inj _).mp heq
          exact old f hf g hg (by rw [hfrest, hgrest, hrest])
        · rw [kept g hg (not_exists.mp hgin)] at heq
          exact absurd heq (apart f hf rest hfrest g hg (not_exists.mp hgin))
      · rw [kept f hf (not_exists.mp hfin)] at heq
        by_cases hgin : ∃ rest, effectivePathOf g plan = folder ++ "/" ++ rest
        · obtain ⟨rest', hgrest⟩ := hgin
          rw [moved g hg rest' hgrest] at heq
          exact absurd heq.symm (apart g hg rest' hgrest f hf (not_exists.mp hfin))
        · rw [kept g hg (not_exists.mp hgin)] at heq
          exact old f hf g hg heq

end Portuni.FilesTab
