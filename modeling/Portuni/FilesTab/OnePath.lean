import Portuni.FilesTab.Distinct

/-!
No two files on one path, over every run of the Files tab. Two steps can break it: a file goes
home without a look at who is planned there, and a refresh gives a planned file another name, for
which the folder it is planned into was never checked.
-/

namespace Portuni.FilesTab

open Library.PosixPath Library.Runs

structure Tab.Settled (tab : Tab) : Prop where
  tree : Tree tab.files
  keyed : Keyed tab.plan.moves
  sections : InSections tab.plan.moves
  known : ∀ e ∈ tab.plan.moves, ∃ f ∈ tab.files, f.fileId = some e.1
  distinct : DistinctPaths tab.files tab.plan

section

variable {files : List PlanFile} {plan next : FilePlan} {f : PlanFile}

theorem distinctPaths_congr (h : ∀ f ∈ files, effectivePathOf f next = effectivePathOf f plan) :
    DistinctPaths files next ↔ DistinctPaths files plan := by
  rw [DistinctPaths, DistinctPaths, List.map_congr_left h]

theorem settled_save (tree : Tree files) (keyed : Keyed plan.moves)
    (sections : InSections plan.moves) (distinct : DistinctPaths files plan) :
    Tab.Settled ⟨files, (applyPlan files plan).plan⟩ where
  tree := tree
  keyed := keyed.sublist (List.filter_sublist.map _)
  sections e he := sections e (List.mem_filter.mp he).1
  known e he := by
    have hkept := (List.mem_filter.mp he).2
    unfold keptMove at hkept
    split at hkept
    next => simp at hkept
    next f hf => exact ⟨f, mem_of_byId hf⟩
  distinct := (distinctPaths_congr fun f hf =>
    effectivePathOf_cleanPlan tree keyed sections hf).mpr distinct

theorem effectivePathOf_pruneEmptyFolders {prev : FilePlan} :
    effectivePathOf f (pruneEmptyFolders prev next files) = effectivePathOf f next :=
  effectivePathOf_congr rfl

theorem settled_prune {prev : FilePlan} (tree : Tree files) (keyed : Keyed next.moves)
    (sections : InSections next.moves) (distinct : DistinctPaths files next) :
    Tab.Settled ⟨files, (applyPlan files (pruneEmptyFolders prev next files)).plan⟩ :=
  settled_save tree keyed sections
    ((distinctPaths_congr fun _ _ => effectivePathOf_pruneEmptyFolders).mpr distinct)

theorem settled_start (tree : Tree files) : Tab.Settled ⟨files, {}⟩ where
  tree := tree
  keyed := List.nodup_nil
  sections := by simp [InSections]
  known := by simp
  distinct := by
    have hpaths : ∀ f ∈ files, effectivePathOf f {} = f.relativePath := by
      intro f _
      refine effectivePathOf_of_none ?_
      cases hid : f.fileId <;> simp [FilePlan.target?, hid]
    rw [DistinctPaths, List.map_congr_left hpaths]
    exact tree.paths

end

/-- A refresh shows a tree in which whatever appeared or moved lies on no planned target of
another file. -/
structure Tab.Refreshes (tab : Tab) (files : List PlanFile) : Prop where
  tree : Tree files
  free : ∀ f ∈ files, f ∉ tab.files → ∀ g ∈ tab.files, g.fileId ≠ f.fileId →
    tab.plan.target? g ≠ none → effectivePathOf g tab.plan ≠ f.relativePath

/-- A planned file that a refresh shows under another name is still alone at its target. -/
def Tab.RenamedAlone (tab : Tab) (files : List PlanFile) : Prop :=
  ∀ f ∈ files, tab.plan.target? f ≠ none →
    (∃ g ∈ tab.files, g.fileId = f.fileId ∧ basenameOf g.relativePath ≠ basenameOf f.relativePath) →
    ∀ h ∈ files, h ≠ f → effectivePathOf h tab.plan ≠ effectivePathOf f tab.plan

/-- A file that is moved to the folder it lives in finds its place there free. -/
def Tab.HomeFree (tab : Tab) (fileId targetFolder : String) : Prop :=
  ∀ f ∈ tab.files, f.fileId = some fileId → targetFolder = folderPathOf f.relativePath →
    ∀ g ∈ tab.files, g ≠ f → effectivePathOf g tab.plan ≠ f.relativePath

def Tab.Admits (tab : Tab) : Action → Prop
  | .move fileId targetFolder => tab.HomeFree fileId targetFolder
  | .refresh files => tab.Refreshes files ∧ tab.RenamedAlone files
  | _ => True

/-- The steps that are spoken of at all: a refresh leaves the planned targets free. -/
def Tab.Sees (tab : Tab) : Action → Prop
  | .refresh files => tab.Refreshes files
  | _ => True

instance (files : List PlanFile) (plan : FilePlan) : Decidable (DistinctPaths files plan) :=
  inferInstanceAs (Decidable (files.map fun f => effectivePathOf f plan).Nodup)

instance (files : List PlanFile) : Decidable (Tree files) :=
  decidable_of_iff ((files.map (·.relativePath)).Nodup ∧
      ∀ f ∈ files, ∀ g ∈ files, f.fileId ≠ none → f.fileId = g.fileId → f = g)
    ⟨fun h => ⟨h.1, h.2⟩, fun h => ⟨h.paths, h.ids⟩⟩

instance (tab : Tab) (files : List PlanFile) : Decidable (tab.Refreshes files) :=
  decidable_of_iff (Tree files ∧ ∀ f ∈ files, f ∉ tab.files → ∀ g ∈ tab.files,
      g.fileId ≠ f.fileId → tab.plan.target? g ≠ none → effectivePathOf g tab.plan ≠ f.relativePath)
    ⟨fun h => ⟨h.1, h.2⟩, fun h => ⟨h.tree, h.free⟩⟩

instance (tab : Tab) : ∀ a, Decidable (tab.Sees a)
  | .refresh files => inferInstanceAs (Decidable (tab.Refreshes files))
  | .move _ _ => .isTrue trivial
  | .moveFolder _ _ => .isTrue trivial
  | .renameFolder _ _ => .isTrue trivial
  | .newFolder _ => .isTrue trivial
  | .discard => .isTrue trivial

instance (tab : Tab) : ∀ a, Decidable (tab.Admits a)
  | .move fileId targetFolder =>
    inferInstanceAs (Decidable (∀ f ∈ tab.files, f.fileId = some fileId →
      targetFolder = folderPathOf f.relativePath →
        ∀ g ∈ tab.files, g ≠ f → effectivePathOf g tab.plan ≠ f.relativePath))
  | .refresh files =>
    inferInstanceAs (Decidable (tab.Refreshes files ∧ ∀ f ∈ files,
      tab.plan.target? f ≠ none →
        (∃ g ∈ tab.files, g.fileId = f.fileId ∧
          basenameOf g.relativePath ≠ basenameOf f.relativePath) →
        ∀ h ∈ files, h ≠ f → effectivePathOf h tab.plan ≠ effectivePathOf f tab.plan))
  | .moveFolder _ _ => .isTrue trivial
  | .renameFolder _ _ => .isTrue trivial
  | .newFolder _ => .isTrue trivial
  | .discard => .isTrue trivial

section

variable {tab : Tab} {next : FilePlan} {files : List PlanFile} {fileId folder target name : String}
  {plan : FilePlan} {occupied : List String}

theorem planFolderMove_ok (h : planFolderMove plan folder target files occupied = .ok next) :
    next = plan ∨
      replanFolder plan folder (joinPath target (basenameOf folder)) files occupied = .ok next := by
  simp only [planFolderMove] at h
  split at h
  next => nomatch h
  split at h
  next => nomatch h
  split at h
  next => nomatch h
  split at h
  next => exact .inl (Except.ok.inj h).symm
  next => exact .inr h

theorem planFolderRename_ok (h : planFolderRename plan folder name files occupied = .ok next) :
    next = plan ∨ replanFolder plan folder (joined ((segments folder).dropLast ++ [name])) files
      occupied = .ok next := by
  simp only [planFolderRename] at h
  split at h
  next => nomatch h
  split at h
  next => nomatch h
  split at h
  next => exact .inl (Except.ok.inj h).symm
  split at h
  next => nomatch h
  next => exact .inr h

theorem planFolder_ok {path : String} {existing : List String}
    (h : planFolder plan path existing = .ok next) : next.moves = plan.moves := by
  simp only [planFolder] at h
  split at h
  next => nomatch h
  split at h
  next => nomatch h
  split at h
  next => nomatch h
  split at h
  next => nomatch h
  split at h
  next => nomatch h
  next => exact (Except.ok.inj h) ▸ rfl

/-- What a step on a folder did to the files: all that lie under it went to the new folder, or
none of them moved. -/
def FolderWhole (tab tab' : Tab) (folder : String) : Prop :=
  (∃ newFolder, MovesFolder tab.files tab.plan tab'.plan folder newFolder) ∨
    ∀ f ∈ tab.files, effectivePathOf f tab'.plan = effectivePathOf f tab.plan

theorem settled_replanFolder (h : tab.Settled) {newFolder : String} (hok : next = tab.plan ∨
      replanFolder tab.plan folder newFolder tab.files tab.occupied = .ok next) :
    Tab.Settled ⟨tab.files, (applyPlan tab.files (pruneEmptyFolders tab.plan next tab.files)).plan⟩ ∧
    FolderWhole tab
      ⟨tab.files, (applyPlan tab.files (pruneEmptyFolders tab.plan next tab.files)).plan⟩ folder := by
  have saved : Keyed next.moves → InSections next.moves → ∀ f ∈ tab.files, effectivePathOf f
      (applyPlan tab.files (pruneEmptyFolders tab.plan next tab.files)).plan =
        effectivePathOf f next := by
    intro keyed sections f hf
    have hclean := @effectivePathOf_cleanPlan _ (pruneEmptyFolders tab.plan next tab.files) _
      h.tree keyed sections hf
    exact hclean.trans effectivePathOf_pruneEmptyFolders
  rcases hok with rfl | hok
  · exact ⟨settled_prune h.tree h.keyed h.sections h.distinct,
      .inr fun f hf => saved h.keyed h.sections f hf⟩
  · obtain ⟨hkeyed, hsections, distinct, moves⟩ := replanFolder_ok h.tree h.distinct
      (fun f hf => (mem_occupied h.tree h.keyed h.sections).mpr ⟨f, hf, rfl⟩) hok
    have keyed := hkeyed h.keyed
    have sections := hsections h.sections
    refine ⟨settled_prune h.tree keyed sections distinct, .inl ⟨newFolder, ?_, ?_⟩⟩
    · intro f hf rest hrest
      rw [saved keyed sections f hf, moves.moved f hf rest hrest]
    · intro f hf hout
      rw [saved keyed sections f hf, moves.kept f hf hout]

theorem settled_move (h : tab.Settled) (free : tab.HomeFree fileId folder) :
    (tab.step (.move fileId folder)).Settled := by
  cases hresult : tab.result (.move fileId folder) with
  | error reason => simpa only [Tab.step, hresult] using h
  | ok next =>
    simp only [Tab.step, hresult]
    simp only [Tab.result] at hresult
    split at hresult
    next => nomatch hresult
    next f hf =>
      obtain ⟨hmem, hid⟩ := mem_of_byId hf
      obtain ⟨moves', rfl, hne, husable, sets, hexit⟩ := planMove_ok hresult
      refine settled_prune h.tree (sets.keyed h.keyed) (sets.sections h.sections) ?_
      refine distinctPaths_of_sets h.tree h.distinct hne hmem sets ?_ _
      intro g hg hgf heq
      rcases hexit with hhome | hsame | hfree
      · have hpath : joinPath folder (basenameOf f.relativePath) = f.relativePath := by
          rw [hhome] at husable ⊢
          exact joinPath_folderPathOf husable
        exact free f hmem hid hhome g hg hgf (heq.trans hpath)
      · exact hgf ((distinctPaths_iff h.tree).mp h.distinct g hg f hmem (heq.trans hsame))
      · exact hfree ((mem_occupied h.tree h.keyed h.sections).mpr ⟨g, hg, heq⟩)

theorem exists_of_target? (h : tab.Settled) {f : PlanFile} (hf : tab.plan.target? f ≠ none) :
    ∃ g ∈ tab.files, g.fileId = f.fileId ∧ g.fileId ≠ none ∧ tab.plan.target? g ≠ none := by
  obtain ⟨t, ht⟩ := Option.ne_none_iff_exists'.mp hf
  obtain ⟨fileId, hid, hlookup⟩ := Option.bind_eq_some_iff.mp ht
  obtain ⟨g, hg, hgid⟩ := h.known _ (mem_of_lookup hlookup)
  refine ⟨g, hg, hgid.trans hid.symm, by simp [hgid], ?_⟩
  simp [FilePlan.target?, hgid, hlookup]

theorem effectivePathOf_sameName {f g : PlanFile} (hid : g.fileId = f.fileId)
    (hname : basenameOf g.relativePath = basenameOf f.relativePath)
    (hplanned : plan.target? f ≠ none) : effectivePathOf g plan = effectivePathOf f plan := by
  obtain ⟨t, ht⟩ := Option.ne_none_iff_exists'.mp hplanned
  have hg : plan.target? g = some t := by rw [FilePlan.target?, hid]; exact ht
  rw [effectivePathOf_of_some ht, effectivePathOf_of_some hg, hname]

theorem settled_refresh (h : tab.Settled) (fresh : tab.Refreshes files)
    (alone : tab.RenamedAlone files) : (tab.step (.refresh files)).Settled := by
  refine settled_save fresh.tree h.keyed h.sections ((distinctPaths_iff fresh.tree).mpr ?_)
  have old := (distinctPaths_iff h.tree).mp h.distinct
  -- a planned row under its old name, against any other row
  have apart : ∀ f ∈ files, tab.plan.target? f ≠ none → ∀ g ∈ files,
      effectivePathOf f tab.plan = effectivePathOf g tab.plan → g = f := by
    intro f hf hplanned g hg heq
    by_contra hgf
    obtain ⟨f₀, hf₀, hid, hsome, htarget⟩ := exists_of_target? h hplanned
    have hids : g.fileId ≠ f.fileId := fun hsame =>
      hgf (fresh.tree.ids f hf g hg (hid ▸ hsome) hsame.symm).symm
    by_cases hname : basenameOf f₀.relativePath = basenameOf f.relativePath
    · have hf₀eff := effectivePathOf_sameName hid hname hplanned
      by_cases hg' : tab.plan.target? g = none
      · rw [effectivePathOf_of_none hg'] at heq
        by_cases hgold : g ∈ tab.files
        · have hg₀ := old f₀ hf₀ g hgold (by rw [hf₀eff, heq, effectivePathOf_of_none hg'])
          exact hids (hg₀ ▸ hid)
        · exact fresh.free g hg hgold f₀ hf₀ (fun hsame => hids (hsame.symm.trans hid)) htarget
            (hf₀eff.trans heq)
      · obtain ⟨g₀, hg₀, hgid, -, -⟩ := exists_of_target? h hg'
        by_cases hgname : basenameOf g₀.relativePath = basenameOf g.relativePath
        · have hsame := old f₀ hf₀ g₀ hg₀
            ((hf₀eff.trans heq).trans (effectivePathOf_sameName hgid hgname hg').symm)
          exact hids (hgid.symm.trans (hsame ▸ hid))
        · exact alone g hg hg' ⟨g₀, hg₀, hgid, hgname⟩ f hf (fun heq => hgf heq.symm) heq
    · exact alone f hf hplanned ⟨f₀, hf₀, hid, hname⟩ g hg hgf heq.symm
  intro f hf g hg heq
  by_cases hfplanned : tab.plan.target? f = none
  · by_cases hgplanned : tab.plan.target? g = none
    · rw [effectivePathOf_of_none hfplanned, effectivePathOf_of_none hgplanned] at heq
      exact List.inj_on_of_nodup_map fresh.tree.paths hf hg heq
    · exact apart g hg hgplanned f hf heq.symm
  · exact (apart f hf hfplanned g hg heq).symm

variable {a : Action}

theorem settled_step (h : tab.Settled) (admits : tab.Admits a) : (tab.step a).Settled := by
  cases a with
  | move fileId folder => exact settled_move h admits
  | moveFolder folder target =>
    cases hresult : tab.result (.moveFolder folder target) with
    | error reason => simpa only [Tab.step, hresult] using h
    | ok next =>
      simp only [Tab.step, hresult]
      exact (settled_replanFolder h (planFolderMove_ok hresult)).1
  | renameFolder folder name =>
    cases hresult : tab.result (.renameFolder folder name) with
    | error reason => simpa only [Tab.step, hresult] using h
    | ok next =>
      simp only [Tab.step, hresult]
      exact (settled_replanFolder h (planFolderRename_ok hresult)).1
  | newFolder path =>
    cases hresult : tab.result (.newFolder path) with
    | error reason => simpa only [Tab.step, hresult] using h
    | ok next =>
      simp only [Tab.step, hresult]
      have hmoves : next.moves = tab.plan.moves := planFolder_ok hresult
      refine settled_save h.tree (hmoves ▸ h.keyed) (hmoves ▸ h.sections)
        ((distinctPaths_congr fun f _ => effectivePathOf_congr ?_).mpr h.distinct)
      rw [FilePlan.target?, FilePlan.target?, hmoves]
  | discard =>
    have start := settled_start h.tree
    exact settled_save start.tree start.keyed start.sections start.distinct
  | refresh files => exact settled_refresh h admits.1 admits.2

theorem folderWhole_step (h : tab.Settled)
    (ha : (∃ target, a = .moveFolder folder target) ∨ ∃ name, a = .renameFolder folder name) :
    FolderWhole tab (tab.step a) folder := by
  rcases ha with ⟨target, rfl⟩ | ⟨name, rfl⟩
  · cases hresult : tab.result (.moveFolder folder target) with
    | error reason =>
      simp only [Tab.step, hresult]
      exact .inr fun _ _ => rfl
    | ok next =>
      simp only [Tab.step, hresult]
      exact (settled_replanFolder h (planFolderMove_ok hresult)).2
  · cases hresult : tab.result (.renameFolder folder name) with
    | error reason =>
      simp only [Tab.step, hresult]
      exact .inr fun _ _ => rfl
    | ok next =>
      simp only [Tab.step, hresult]
      exact (settled_replanFolder h (planFolderRename_ok hresult)).2

theorem step_of_refused {reason : PlanReason} (h : tab.result a = .error reason) :
    tab.step a = tab := by
  cases a with
  | refresh files => nomatch h
  | _ => simp only [Tab.step, h]

end

def tabStep (tab : Tab) (a : Action) : Option Tab := some (tab.step a)

theorem settled_run {files : List PlanFile} {actions : List Action} {tab : Tab}
    (tree : Tree files) (run : Run tabStep Tab.Admits ⟨files, {}⟩ actions tab) : tab.Settled := by
  refine run.inv Tab.Settled (settled_start tree) ?_
  intro tab a tab' h admits hstep
  cases hstep
  exact settled_step h admits

/-- Every reachable plan gives every file a path of its own in one of the sections, a refused step
changes nothing, and a step on a folder takes all its files along or none. -/
theorem one_path_per_file (files : List PlanFile) (tree : Tree files) (actions : List Action)
    (tab : Tab) (run : Run tabStep Tab.Admits ⟨files, {}⟩ actions tab) :
    DistinctPaths tab.files tab.plan ∧ InSections tab.plan.moves ∧
      (∀ a reason, tab.result a = .error reason → tab.step a = tab) ∧
      ∀ a folder, (∃ target, a = .moveFolder folder target) ∨
          (∃ name, a = .renameFolder folder name) → FolderWhole tab (tab.step a) folder := by
  have settled := settled_run tree run
  exact ⟨settled.distinct, settled.sections, fun a reason h => step_of_refused h,
    fun a folder ha => folderWhole_step settled ha⟩

/-- Two files of one name, and the first of them moved away and planned home again. -/
def twins : List PlanFile := [⟨"wip/x.md", some "a"⟩, ⟨"resources/x.md", some "b"⟩]

def awayAndBack : List Action := [.move "a" "outputs", .move "b" "wip", .move "a" "wip"]

/-- The way home does not look at who is planned there meanwhile. -/
theorem home_is_taken :
    ∃ tab, Tree twins ∧ Run tabStep Tab.Sees ⟨twins, {}⟩ awayAndBack tab ∧
      ¬ DistinctPaths tab.files tab.plan := by
  have hrun : (exec tabStep ⟨twins, {}⟩ awayAndBack).any
      (fun tab => decide (¬ DistinctPaths tab.files tab.plan)) = true := by decide +kernel
  obtain ⟨tab, hexec, htab⟩ := (Option.any_eq_true _ _).mp hrun
  have hallowed : allowedAlong tabStep Tab.Sees ⟨twins, {}⟩ awayAndBack = true := by
    decide +kernel
  exact ⟨tab, by decide +kernel, Run.of_exec hexec hallowed, of_decide_eq_true htab⟩

/-- A folder that is renamed, a file that is moved into what it was called, and a refresh. -/
def tidied : List Action :=
  [.move "a" "wip/old", .renameFolder "wip/old" "new", .move "b" "wip/old",
    .refresh [⟨"wip/x.md", some "a"⟩, ⟨"resources/x.md", some "b"⟩, ⟨"wip/y.md", none⟩],
    .move "a" "wip"]

theorem one_path_per_file_tidied :
    ∃ tab, exec tabStep ⟨twins, {}⟩ tidied = some tab ∧ DistinctPaths tab.files tab.plan ∧
      tab.occupied = ["wip/x.md", "wip/old/x.md", "wip/y.md"] := by
  have hrun : (exec tabStep ⟨twins, {}⟩ tidied).any
      (fun tab => decide (tab.occupied = ["wip/x.md", "wip/old/x.md", "wip/y.md"])) = true := by
    decide +kernel
  obtain ⟨tab, hexec, htab⟩ := (Option.any_eq_true _ _).mp hrun
  have hallowed : allowedAlong tabStep Tab.Admits ⟨twins, {}⟩ tidied = true := by decide +kernel
  have hrun := Run.of_exec hexec hallowed
  exact ⟨tab, hexec, (one_path_per_file twins (by decide +kernel) tidied tab hrun).1,
    of_decide_eq_true htab⟩

end Portuni.FilesTab
