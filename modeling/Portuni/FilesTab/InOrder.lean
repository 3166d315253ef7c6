import Mathlib.Data.Prod.Lex
import Mathlib.Logic.Relation
import Portuni.FilesTab.OnePath
import Portuni.Library.Relocations
import Portuni.Library.SortedByKey
import Portuni.Library.Utf16

/-!
The apply of a plan: one move for each planned file, in the order of the targets. A move meets a
taken path when the file that lies there is planned too, but later in that order.
-/

namespace Portuni.FilesTab

open Library Library.PosixPath Library.Runs Library.Utf16 Library.Relocations

structure PlannedMove where
  fileId : String
  target : MoveTarget
  path : String

def plannedMove (entry : String × MoveTarget) : PlannedMove :=
  ⟨entry.1, entry.2, targetToFolderPath entry.2⟩

def depthOf (path : String) : ℕ := (segments path).length

/-- `a < b` of two strings. -/
def isBefore (a b : String) : Bool := decide (units a < units b)

/-- The comparison that `orderMoves` sorts by. -/
def compareMoves (a b : PlannedMove) : ℤ :=
  if (depthOf a.path : ℤ) - depthOf b.path ≠ 0 then (depthOf a.path : ℤ) - depthOf b.path
  else if a.path ≠ b.path then (if isBefore a.path b.path then -1 else 1)
  else if isBefore a.fileId b.fileId then -1
  else if isBefore b.fileId a.fileId then 1
  else 0

def orderMoves (plan : FilePlan) : List PlannedMove :=
  (plan.moves.map plannedMove).insertionSort fun a b => compareMoves a b ≤ 0

def relocate (files : List PlanFile) (m : PlannedMove) : Option (List PlanFile) :=
  match byId files m.fileId with
  | none => some files
  | some file =>
    let path := joinPath m.path (basenameOf file.relativePath)
    if ∃ g ∈ files, g ≠ file ∧ g.relativePath = path then none
    else some (files.map fun g => if g = file then { g with relativePath := path } else g)

def performMoves : List PlannedMove → List PlanFile → Option (List PlanFile)
  | [], files => some files
  | m :: more, files => (relocate files m).bind (performMoves more)

section

variable {plan : FilePlan} {a b m : PlannedMove}

def moveKey (m : PlannedMove) : ℕ ×ₗ List ℕ ×ₗ List ℕ :=
  toLex (depthOf m.path, toLex (units m.path, units m.fileId))

theorem compareMoves_neg_iff : compareMoves a b < 0 ↔ moveKey a < moveKey b := by
  have hunits : ∀ s t : String, units s = units t ↔ s = t := fun s t => units_injective.eq_iff
  simp only [moveKey, Prod.Lex.toLex_lt_toLex, hunits]
  unfold compareMoves isBefore
  split
  next hdepth => omega
  next hdepth =>
    have hdepth : depthOf a.path = depthOf b.path := by omega
    simp only [hdepth, lt_irrefl, false_or, true_and]
    split
    next hpath => split <;> simp_all
    next hpath =>
      have hpath : a.path = b.path := by simpa using hpath
      simp only [hpath, lt_irrefl, false_or, true_and]
      split
      next hlt => simpa using hlt
      next hnot => split <;> simpa using hnot

theorem compareMoves_eq_zero_iff : compareMoves a b = 0 ↔ moveKey a = moveKey b := by
  have hunits : ∀ s t : String, units s = units t ↔ s = t := fun s t => units_injective.eq_iff
  simp only [moveKey, toLex_inj, Prod.mk.injEq, hunits]
  unfold compareMoves isBefore
  split
  next hdepth => omega
  next hdepth =>
    have hdepth : depthOf a.path = depthOf b.path := by omega
    split
    next hpath => split <;> simp [hpath]
    next hpath =>
      have hpath : a.path = b.path := by simpa using hpath
      simp only [hpath, true_and, ← hunits a.fileId]
      split
      next hlt => simpa using (of_decide_eq_true hlt).ne
      next hnot =>
        split
        next hlt => simpa using (of_decide_eq_true hlt).ne'
        next hnot' =>
          have hle : units a.fileId ≤ units b.fileId := by simpa using hnot'
          have hge : units b.fileId ≤ units a.fileId := by simpa using hnot
          simp [le_antisymm hle hge]

theorem compareMoves_nonpos_iff : compareMoves a b ≤ 0 ↔ moveKey a ≤ moveKey b := by
  rw [le_iff_lt_or_eq, le_iff_lt_or_eq, compareMoves_neg_iff, compareMoves_eq_zero_iff]

theorem fileId_of_moveKey (h : moveKey a = moveKey b) : a.fileId = b.fileId :=
  units_injective (congrArg (fun key => (ofLex (ofLex key).2).2) h)

theorem mem_orderMoves : m ∈ orderMoves plan ↔ ∃ e ∈ plan.moves, plannedMove e = m := by
  rw [orderMoves, List.mem_insertionSort, List.mem_map]

theorem sorted_orderMoves (keyed : Keyed plan.moves) :
    SortedByKey.Sorted moveKey (orderMoves plan) := by
  have htotal : Std.Total fun a b : PlannedMove => compareMoves a b ≤ 0 :=
    ⟨fun a b => by simpa only [compareMoves_nonpos_iff] using le_total (moveKey a) (moveKey b)⟩
  have htrans : IsTrans PlannedMove fun a b => compareMoves a b ≤ 0 :=
    ⟨fun a b c => by simpa only [compareMoves_nonpos_iff] using le_trans⟩
  have hsorted := List.pairwise_insertionSort (fun a b : PlannedMove => compareMoves a b ≤ 0)
    (plan.moves.map plannedMove)
  have hids : (orderMoves plan).Pairwise fun a b => a.fileId ≠ b.fileId := by
    have hperm := List.perm_insertionSort (fun a b : PlannedMove => compareMoves a b ≤ 0)
      (plan.moves.map plannedMove)
    refine (hperm.pairwise_iff (fun h => h.symm)).mpr ?_
    exact List.pairwise_map.mpr (List.pairwise_map.mp keyed)
  refine List.Pairwise.imp ?_ (List.pairwise_and_iff.mpr ⟨hsorted, hids⟩)
  rintro a b ⟨hle, hne⟩
  exact lt_of_le_of_ne (compareMoves_nonpos_iff.mp hle) fun heq => hne (fileId_of_moveKey heq)

end

section

variable {files gone : List PlanFile} {plan : FilePlan} {f g : PlanFile} {fileId : String}
  {e : String × MoveTarget} {moves : List PlannedMove}

def whereNow (plan : FilePlan) (gone : List PlanFile) (f : PlanFile) : String :=
  place PlanFile.relativePath (fun f => effectivePathOf f plan) gone f

def laid (plan : FilePlan) (gone files : List PlanFile) : List PlanFile :=
  files.map fun f => { f with relativePath := whereNow plan gone f }

def rowsOf (files : List PlanFile) (moves : List PlannedMove) : List PlanFile :=
  moves.filterMap fun m => byId files m.fileId

theorem byId_laid : byId (laid plan gone files) fileId =
    (byId files fileId).map fun f => { f with relativePath := whereNow plan gone f } := by
  rw [byId, laid, ← List.map_reverse, List.find?_map]
  rfl

theorem target?_of_entry (keyed : Keyed plan.moves) (he : e ∈ plan.moves)
    (hid : f.fileId = some e.1) : plan.target? f = some e.2 := by
  obtain ⟨before, after, hsplit⟩ := List.append_of_mem he
  rw [FilePlan.target?, hid, Option.bind_some, List.lookup_eq_some_iff]
  refine ⟨before, after, hsplit, fun e' he' => ?_⟩
  rw [Keyed, hsplit, List.map_append] at keyed
  have hne := (List.nodup_append.mp keyed).2.2 _ (List.mem_map_of_mem he') e.1 (by simp)
  simpa using hne.symm

theorem path_of_entry (keyed : Keyed plan.moves) (he : e ∈ plan.moves)
    (hf : byId files e.1 = some f) :
    joinPath (plannedMove e).path (basenameOf f.relativePath) = effectivePathOf f plan :=
  (effectivePathOf_of_some (target?_of_entry keyed he (mem_of_byId hf).2)).symm

theorem relocate_unknown (h : byId files e.1 = none) :
    relocate (laid plan gone files) (plannedMove e) = some (laid plan gone files) := by
  have hnone : byId (laid plan gone files) (plannedMove e).fileId = none := by
    rw [byId_laid, show (plannedMove e).fileId = e.1 from rfl, h]
    rfl
  rw [relocate, hnone]

theorem relocate_laid (tree : Tree files) (keyed : Keyed plan.moves) (he : e ∈ plan.moves)
    (hf : byId files e.1 = some f) (hgone : f ∉ gone) :
    (Clear PlanFile.relativePath (fun f => effectivePathOf f plan) files gone f →
      relocate (laid plan gone files) (plannedMove e) = some (laid plan (gone ++ [f]) files)) ∧
    (¬ Clear PlanFile.relativePath (fun f => effectivePathOf f plan) files gone f →
      relocate (laid plan gone files) (plannedMove e) = none) := by
  obtain ⟨hmem, hid⟩ := mem_of_byId hf
  have hrow : { f with relativePath := whereNow plan gone f } = f := by
    rw [whereNow, place_of_notMem hgone]
  have hbyId : byId (laid plan gone files) (plannedMove e).fileId = some f := by
    rw [byId_laid, show (plannedMove e).fileId = e.1 from rfl, hf, Option.map_some, hrow]
  have hsame : ∀ g ∈ files, { g with relativePath := whereNow plan gone g } = f ↔ g = f := by
    intro g hg
    constructor
    · intro heq
      have hgid := congrArg PlanFile.fileId heq
      exact (tree.ids f hmem g hg (by simp [hid]) hgid.symm).symm
    · rintro rfl
      exact hrow
  have htaken : (∃ g ∈ laid plan gone files, g ≠ f ∧ g.relativePath = effectivePathOf f plan) ↔
      ¬ Clear PlanFile.relativePath (fun f => effectivePathOf f plan) files gone f := by
    simp only [Clear, not_forall, not_not, laid, List.mem_map]
    constructor
    · rintro ⟨_, ⟨g, hg, rfl⟩, hne, hpath⟩
      exact ⟨g, hg, fun heq => hne ((hsame g hg).mpr heq), hpath⟩
    · rintro ⟨g, hg, hne, hpath⟩
      exact ⟨_, ⟨g, hg, rfl⟩, fun heq => hne ((hsame g hg).mp heq), hpath⟩
  rw [relocate, hbyId]
  simp only [path_of_entry keyed he hf]
  constructor
  · intro clear
    rw [if_neg fun h => htaken.mp h clear, laid, laid, List.map_map]
    refine congrArg some (List.map_congr_left fun g hg => ?_)
    by_cases heq : g = f
    · rw [Function.comp_apply, if_pos ((hsame g hg).mpr heq), heq]
      simp [whereNow, place]
    · rw [Function.comp_apply, if_neg fun h => heq ((hsame g hg).mp h), whereNow, whereNow,
        place_append_singleton, if_neg heq]
  · intro blocked
    rw [if_pos (htaken.mpr blocked)]

theorem performMoves_laid (tree : Tree files) (keyed : Keyed plan.moves)
    (hmoves : ∀ m ∈ moves, ∃ e ∈ plan.moves, plannedMove e = m)
    (hnodup : (gone ++ rowsOf files moves).Nodup) :
    (CarriedOut PlanFile.relativePath (fun f => effectivePathOf f plan) files gone
        (rowsOf files moves) →
      performMoves moves (laid plan gone files) =
        some (laid plan (gone ++ rowsOf files moves) files)) ∧
    (¬ CarriedOut PlanFile.relativePath (fun f => effectivePathOf f plan) files gone
        (rowsOf files moves) →
      performMoves moves (laid plan gone files) = none) := by
  induction moves generalizing gone with
  | nil => simp [rowsOf, CarriedOut, performMoves]
  | cons m moves ih =>
    obtain ⟨e, he, rfl⟩ := hmoves _ List.mem_cons_self
    have hmore := fun m hm => hmoves m (List.mem_cons_of_mem _ hm)
    cases hf : byId files e.1 with
    | none =>
      have hrows : rowsOf files (plannedMove e :: moves) = rowsOf files moves :=
        List.filterMap_cons_none hf
      rw [hrows] at hnodup ⊢
      rw [performMoves, relocate_unknown hf]
      exact ih hmore hnodup
    | some f =>
      have hrows : rowsOf files (plannedMove e :: moves) = f :: rowsOf files moves :=
        List.filterMap_cons_some hf
      rw [hrows] at hnodup ⊢
      have hgone : f ∉ gone := fun h =>
        (List.nodup_append.mp hnodup).2.2 f h f List.mem_cons_self rfl
      obtain ⟨hclear, hblocked⟩ := relocate_laid tree keyed he hf hgone
      have happend : gone ++ f :: rowsOf files moves = (gone ++ [f]) ++ rowsOf files moves := by
        simp
      obtain ⟨hdone, hstopped⟩ := ih hmore (happend ▸ hnodup)
      rw [performMoves, CarriedOut, happend]
      constructor
      · rintro ⟨clear, rest⟩
        rw [hclear clear]
        exact hdone rest
      · intro hnot
        by_cases clear : Clear PlanFile.relativePath (fun f => effectivePathOf f plan) files gone f
        · rw [hclear clear]
          exact hstopped fun rest => hnot ⟨clear, rest⟩
        · rw [hblocked clear]
          rfl

end

variable {files : List PlanFile} {plan : FilePlan} {f : PlanFile}

theorem nodup_rowsOf (keyed : Keyed plan.moves) : (rowsOf files (orderMoves plan)).Nodup := by
  refine List.pairwise_filterMap.mpr ?_
  refine (sorted_orderMoves keyed).imp_of_mem ?_
  rintro m n hm hn hlt f hf g hg rfl
  obtain ⟨e, he, rfl⟩ := mem_orderMoves.mp hm
  obtain ⟨e', he', rfl⟩ := mem_orderMoves.mp hn
  have hid : e.1 = e'.1 := Option.some.inj ((mem_of_byId hf).2.symm.trans (mem_of_byId hg).2)
  rw [List.inj_on_of_nodup_map keyed he he' hid] at hlt
  exact lt_irrefl _ hlt

theorem mem_rowsOf (tree : Tree files) (keyed : Keyed plan.moves) (hf : f ∈ files) :
    f ∈ rowsOf files (orderMoves plan) ↔ plan.target? f ≠ none := by
  simp only [rowsOf, List.mem_filterMap, mem_orderMoves]
  constructor
  · rintro ⟨_, ⟨e, he, rfl⟩, hbyId⟩
    rw [target?_of_entry keyed he (mem_of_byId hbyId).2]
    simp
  · intro hplanned
    obtain ⟨t, ht⟩ := Option.ne_none_iff_exists'.mp hplanned
    obtain ⟨fileId, hid, hlookup⟩ := Option.bind_eq_some_iff.mp ht
    exact ⟨_, ⟨(fileId, t), mem_of_lookup hlookup, rfl⟩, byId_eq_some tree hf hid⟩

theorem whereNow_all (tree : Tree files) (keyed : Keyed plan.moves) (hf : f ∈ files) :
    whereNow plan (rowsOf files (orderMoves plan)) f = effectivePathOf f plan := by
  by_cases hrow : f ∈ rowsOf files (orderMoves plan)
  · exact place_of_mem hrow
  · have hnone : plan.target? f = none :=
      not_not.mp fun hne => hrow ((mem_rowsOf tree keyed hf).mpr hne)
    rw [effectivePathOf_of_none hnone]
    exact place_of_notMem hrow

/-- A file that still lies where another one is planned to go is planned to go before it. -/
def LeavesFirst (files : List PlanFile) (plan : FilePlan) : Prop :=
  ∀ e ∈ plan.moves, ∀ e' ∈ plan.moves, ∀ f ∈ files, ∀ g ∈ files,
    f.fileId = some e.1 → g.fileId = some e'.1 → f ≠ g →
      effectivePathOf f plan = g.relativePath → compareMoves (plannedMove e') (plannedMove e) < 0

instance : Decidable (LeavesFirst files plan) :=
  inferInstanceAs (Decidable (∀ e ∈ plan.moves, ∀ e' ∈ plan.moves, ∀ f ∈ files, ∀ g ∈ files,
    f.fileId = some e.1 → g.fileId = some e'.1 → f ≠ g →
      effectivePathOf f plan = g.relativePath → compareMoves (plannedMove e') (plannedMove e) < 0))

structure GoesTo (files : List PlanFile) (plan : FilePlan) (f g : PlanFile) : Prop where
  source : f ∈ files
  occupant : g ∈ files
  planned : plan.target? f ≠ none
  follows : plan.target? g ≠ none
  path : effectivePathOf f plan = g.relativePath

def NoCycle (files : List PlanFile) (plan : FilePlan) : Prop :=
  ∀ f, ¬ Relation.TransGen (GoesTo files plan) f f

/-- The plan goes through in the order of `orderMoves`, and leaves each file where the plan has
it, exactly when each file that is in the way of another one goes first. -/
theorem plan_carried_out_iff (files : List PlanFile) (plan : FilePlan) (tree : Tree files)
    (keyed : Keyed plan.moves) (distinct : DistinctPaths files plan) :
    performMoves (orderMoves plan) files =
        some (files.map fun f => { f with relativePath := effectivePathOf f plan }) ↔
      LeavesFirst files plan := by
  have hstart : laid plan [] files = files := by
    simp [laid, whereNow, place]
  have hend : laid plan (rowsOf files (orderMoves plan)) files =
      files.map fun f => { f with relativePath := effectivePathOf f plan } :=
    List.map_congr_left fun f hf => by rw [whereNow_all tree keyed hf]
  have hnodup := @nodup_rowsOf files plan keyed
  have hmem : ∀ f ∈ rowsOf files (orderMoves plan), f ∈ files := by
    intro f hf
    obtain ⟨m, -, hbyId⟩ := List.mem_filterMap.mp hf
    exact (mem_of_byId hbyId).1
  have apart : EndsApart PlanFile.relativePath (fun f => effectivePathOf f plan) files
      (rowsOf files (orderMoves plan)) := by
    intro f hf g hg heq
    refine (distinctPaths_iff tree).mp distinct f hf g hg ?_
    rw [← whereNow_all tree keyed hf, ← whereNow_all tree keyed hg]
    exact heq
  obtain ⟨hdone, hstopped⟩ := @performMoves_laid files [] plan (orderMoves plan) tree keyed
    (fun m hm => mem_orderMoves.mp hm) hnodup
  rw [hstart, List.nil_append, hend] at hdone
  rw [hstart] at hstopped
  have hcarried := @carriedOut_iff_pairwise _ _ _ PlanFile.relativePath
    (fun f => effectivePathOf f plan) files [] _ hnodup hmem apart
  have hpairs : (rowsOf files (orderMoves plan)).Pairwise
      (fun f g => effectivePathOf f plan ≠ g.relativePath) ↔ LeavesFirst files plan := by
    rw [rowsOf, List.pairwise_filterMap, (sorted_orderMoves keyed).pairwise_iff]
    constructor
    · intro hall e he e' he' f hf g hg hid hid' hne heq
      by_contra hnot
      have hle : moveKey (plannedMove e) ≤ moveKey (plannedMove e') :=
        not_lt.mp fun hlt => hnot (compareMoves_neg_iff.mpr hlt)
      have hkeys : moveKey (plannedMove e) ≠ moveKey (plannedMove e') := by
        intro hkeys
        refine hne (tree.ids f hf g hg (by simp [hid]) ?_)
        rw [hid, hid', show e.1 = e'.1 from fileId_of_moveKey hkeys]
      exact hall _ (mem_orderMoves.mpr ⟨e, he, rfl⟩) _ (mem_orderMoves.mpr ⟨e', he', rfl⟩)
        (lt_of_le_of_ne hle hkeys) f (byId_eq_some tree hf hid) g (byId_eq_some tree hg hid') heq
    · rintro leaves m hm n hn hlt f hf g hg heq
      obtain ⟨e, he, rfl⟩ := mem_orderMoves.mp hm
      obtain ⟨e', he', rfl⟩ := mem_orderMoves.mp hn
      obtain ⟨hfmem, hid⟩ := mem_of_byId hf
      obtain ⟨hgmem, hid'⟩ := mem_of_byId hg
      by_cases hfg : f = g
      · subst hfg
        have hids : e.1 = e'.1 := Option.some.inj (hid.symm.trans hid')
        rw [List.inj_on_of_nodup_map keyed he he' hids] at hlt
        exact lt_irrefl _ hlt
      · have hbefore := leaves e he e' he' f hfmem g hgmem hid hid' hfg heq
        exact lt_asymm hlt (compareMoves_neg_iff.mp hbefore)
  constructor
  · intro hperformed
    by_contra hnot
    rw [hstopped fun h => hnot (hpairs.mp (hcarried.mp h))] at hperformed
    cases hperformed
  · intro leaves
    exact hdone (hcarried.mpr (hpairs.mpr leaves))

/-- A file goes away to a folder, and another one of its name is planned where it was. -/
def makeRoom : List PlanFile := [⟨"wip/x.md", some "a"⟩, ⟨"wip/old/x.md", some "b"⟩]

def takesOver : List Action := [.move "a" "wip/new", .move "b" "wip"]

/-- The user plans these two moves, and the one with the shallower target goes first. -/
theorem plan_stops_at_taken_path :
    ∃ tab, Run tabStep Tab.Admits ⟨makeRoom, {}⟩ takesOver tab ∧
      DistinctPaths tab.files tab.plan ∧ NoCycle tab.files tab.plan ∧
      performMoves (orderMoves tab.plan) tab.files = none := by
  let a : PlanFile := ⟨"wip/x.md", some "a"⟩
  let b : PlanFile := ⟨"wip/old/x.md", some "b"⟩
  have hrun : (exec tabStep ⟨makeRoom, {}⟩ takesOver).any (fun tab =>
      decide (tab = ⟨makeRoom, ⟨[("a", ⟨.wip, some "new"⟩), ("b", ⟨.wip, none⟩)], []⟩⟩)) = true := by
    decide +kernel
  obtain ⟨tab, hexec, htab⟩ := (Option.any_eq_true _ _).mp hrun
  obtain rfl := of_decide_eq_true htab
  have hallowed : allowedAlong tabStep Tab.Admits ⟨makeRoom, {}⟩ takesOver = true := by
    decide +kernel
  refine ⟨_, Run.of_exec hexec hallowed, by decide +kernel, ?_, by decide +kernel⟩
  -- only `b` goes to where a file lies, and nothing goes to where `b` lies
  have honly : ∀ f ∈ makeRoom, ∀ g ∈ makeRoom,
      effectivePathOf f ⟨[("a", ⟨.wip, some "new"⟩), ("b", ⟨.wip, none⟩)], []⟩ = g.relativePath →
        f = b ∧ g = a := by
    decide +kernel
  intro f hcycle
  obtain ⟨g, hfirst, -⟩ := Relation.TransGen.head'_iff.mp hcycle
  obtain ⟨h, -, hlast⟩ := Relation.TransGen.tail'_iff.mp hcycle
  have hfb := (honly f hfirst.source g hfirst.occupant hfirst.path).1
  have hfa := (honly h hlast.source f hlast.occupant hlast.path).2
  exact absurd (hfb.symm.trans hfa) (by decide)

/-- Each into a folder of its own, and one of them to where the other one was. -/
theorem plan_carried_out_iff_deeper :
    performMoves (orderMoves ⟨[("b", ⟨.wip, some "new"⟩), ("a", ⟨.outputs, none⟩)], []⟩)
        [⟨"wip/new/x.md", some "a"⟩, ⟨"wip/old/x.md", some "b"⟩] =
      some [⟨"outputs/x.md", some "a"⟩, ⟨"wip/new/x.md", some "b"⟩] := by
  have hdone := (plan_carried_out_iff [⟨"wip/new/x.md", some "a"⟩, ⟨"wip/old/x.md", some "b"⟩]
    ⟨[("b", ⟨.wip, some "new"⟩), ("a", ⟨.outputs, none⟩)], []⟩ (by decide +kernel)
    (by unfold Keyed; decide) (by decide +kernel)).mpr (by decide +kernel)
  exact hdone

variable {files files' : List PlanFile} {plan plan' : FilePlan} {m : PlannedMove}
  {moves : List PlannedMove}

theorem relocate_lossless (paths : (files.map (·.relativePath)).Nodup)
    (h : relocate files m = some files') : (files'.map (·.relativePath)).Nodup ∧
      files'.map (fun f => (f.fileId, basenameOf f.relativePath)) =
        files.map fun f => (f.fileId, basenameOf f.relativePath) := by
  rw [relocate] at h
  split at h
  next =>
    cases h
    exact ⟨paths, rfl⟩
  next file hfile =>
    obtain ⟨hfree, h⟩ := Option.ite_none_left_eq_some.mp h
    cases h
    have hfree : ∀ g ∈ files, g ≠ file →
        g.relativePath ≠ joinPath m.path (basenameOf file.relativePath) :=
      fun g hg hne hpath => hfree ⟨g, hg, hne, hpath⟩
    rw [List.map_map, List.map_map]
    constructor
    · refine List.Nodup.map_on (fun f hf g hg => ?_) paths.of_map
      have hinj : f.relativePath = g.relativePath → f = g := List.inj_on_of_nodup_map paths hf hg
      simp only [Function.comp_apply]
      split <;> split <;> simp_all [eq_comm]
    · refine List.map_congr_left fun f _ => ?_
      simp only [Function.comp_apply]
      split
      next heq => rw [basenameOf_joinPath slash_notMem_basenameOf, heq]
      next => rfl

end Portuni.FilesTab
