import Portuni.MirrorIgnore.Expressions
import Portuni.MirrorOwners.Owned

/-!
The ignore file says the same to all who ask it: the walkers, who stop at an ignored directory,
and the watcher, who asks about a file's own path.
-/

namespace Portuni.MirrorIgnore

open Library.JsRegExp Library.PosixPath MirrorOwners RemotePaths

section

variable {text : String}

theorem mapM_parse {lines : List String} {matchers : List RegExp}
    (h : lines.mapM (fun raw => parse (lineSource raw.toList)) = some matchers) :
    ∀ r ∈ matchers, ∃ raw, parse (lineSource raw) = some r := by
  induction lines generalizing matchers with
  | nil =>
    cases h
    simp
  | cons line lines ih =>
    simp only [List.mapM_cons, Option.bind_eq_bind, Option.bind_eq_some_iff, Option.pure_def,
      Option.some.injEq] at h
    obtain ⟨r, hr, rest, hrest, rfl⟩ := h
    intro r' hr'
    rcases List.mem_cons.mp hr' with rfl | hr'
    · exact ⟨line.toList, hr⟩
    · exact ih hrest r' hr'

theorem mapM_translatable {lines : List String} (h : ∀ line ∈ lines, Translatable line) :
    ∃ matchers, lines.mapM (fun raw => parse (lineSource raw.toList)) = some matchers ∧
      ∀ path : String, (matchers.any fun r => test r path.toList) = true ↔
        ∃ line ∈ lines, LineMatches line path := by
  induction lines with
  | nil => exact ⟨[], rfl, by simp⟩
  | cons line lines ih =>
    obtain ⟨r, hr, hmatches⟩ := parse_translatable (h line List.mem_cons_self)
    obtain ⟨rest, hrest, hrestMatches⟩ := ih fun l hl => h l (List.mem_cons_of_mem line hl)
    refine ⟨r :: rest, ?_, fun path => ?_⟩
    · rw [List.mapM_cons, hr, hrest]
      rfl
    · rw [List.any_cons, Bool.or_eq_true, hmatches, hrestMatches, List.exists_mem_cons_iff]

theorem compileIgnorePatterns_below {matcher : String → Bool}
    (h : compileIgnorePatterns text = some matcher) {path : String} (hpath : matcher path = true)
    (below : String) : matcher (path ++ "/" ++ below) = true := by
  obtain ⟨matchers, hmatchers, rfl⟩ := Option.map_eq_some_iff.mp h
  obtain ⟨r, hr, htest⟩ := List.any_eq_true.mp hpath
  obtain ⟨raw, hraw⟩ := mapM_parse hmatchers r hr
  obtain ⟨r₀, rfl, hfree⟩ := parse_covered hraw
  refine List.any_eq_true.mpr ⟨_, hr, ?_⟩
  have hbelow := test_below hfree htest below.toList
  simpa using hbelow

theorem defaultPatterns_compile : (compileIgnorePatterns defaultPatterns).isSome = true := by
  decide +kernel

end

section

variable {cwd : WorkingDirectory} {file : Option String} {mirrorRoot dir : String}
  {isIgnored : String → Bool} {names : List String}

theorem relativeSegments_cases (source target : List String) :
    (∃ rest, relativeSegments source target = ".." :: rest) ∨
      ∃ below, target = source ++ below ∧ relativeSegments source target = below := by
  induction source generalizing target with
  | nil => exact .inr ⟨target, rfl, by cases target <;> rfl⟩
  | cons a source ih =>
    cases target with
    | nil => exact .inl ⟨_, rfl⟩
    | cons b target =>
      by_cases hab : a = b
      · subst hab
        rw [relativeSegments, if_pos rfl]
        rcases ih target with hup | ⟨below, rfl, hbelow⟩
        · exact .inl hup
        · exact .inr ⟨below, rfl, hbelow⟩
      · rw [relativeSegments, if_neg hab]
        exact .inl ⟨_, rfl⟩

theorem startsWith_joined_up (rest : List String) : startsWith (joined (".." :: rest)) ".." = true := by
  cases rest with
  | nil => rw [joined_singleton]; rfl
  | cons s rest =>
    rw [joined_cons (List.cons_ne_nil s rest), String.append_assoc]
    exact startsWith_append ".." _

theorem relative_names (hdir : dir ≠ "") (hne : names ≠ []) (hnames : ∀ s ∈ names, IsName s)
    (hdown : startsWith (relative cwd mirrorRoot dir) ".." = false)
    (hrel : relative cwd mirrorRoot dir ≠ "") :
    relative cwd mirrorRoot (dir ++ "/" ++ joined names) =
      relative cwd mirrorRoot dir ++ "/" ++ joined names := by
  have hsegs := resolvedSegments_names cwd hdir hne hnames
  unfold relative at hdown hrel ⊢
  rw [hsegs]
  rcases relativeSegments_cases (resolvedSegments cwd [mirrorRoot]) (resolvedSegments cwd [dir])
    with ⟨rest, hup⟩ | ⟨below, htarget, hbelow⟩
  · rw [hup, startsWith_joined_up] at hdown
    cases hdown
  · rw [hbelow] at hrel ⊢
    have hbelowNe : below ≠ [] := by
      rintro rfl
      exact hrel rfl
    rw [htarget, List.append_assoc, relativeSegments_append, joined_append hbelowNe hne]

theorem startsWith_dots_below {rel : String} (hrel : rel ≠ "") (hdown : startsWith rel ".." = false)
    (below : String) : startsWith (rel ++ "/" ++ below) ".." = false := by
  have hne : rel.toList ≠ [] := by simpa using hrel
  obtain ⟨c, cs, hcs⟩ := List.exists_cons_of_ne_nil hne
  simp only [startsWith, String.toList_append, hcs] at hdown ⊢
  cases cs with
  | nil => simp [List.isPrefixOf]
  | cons d cs => simpa [List.isPrefixOf] using hdown

theorem isIgnored_below (hload : loadMirrorIgnore cwd file mirrorRoot = some isIgnored)
    (hdir : dir ≠ "") (hne : names ≠ []) (hnames : ∀ s ∈ names, IsName s)
    (hignored : isIgnored dir = true) : isIgnored (dir ++ "/" ++ joined names) = true := by
  obtain ⟨defaults, hdefaults, rfl⟩ := Option.map_eq_some_iff.mp hload
  dsimp only at hignored ⊢
  split at hignored
  next => cases hignored
  next hrel =>
    simp only [Bool.or_eq_true, decide_eq_true_eq, not_or, Bool.not_eq_true] at hrel
    rw [relative_names hdir hne hnames hrel.2 hrel.1,
      if_neg (by simp [startsWith_dots_below hrel.1 hrel.2])]
    generalize relative cwd mirrorRoot dir = rel at hignored ⊢
    have hsegs : segments (rel ++ "/" ++ joined names) = segments rel ++ names := by
      rw [segments_append_slash, segments_joined_names hne hnames]
    rw [hsegs, List.any_append]
    split at hignored
    next hdot => rw [hdot, Bool.true_or, if_pos rfl]
    next =>
      split
      · rfl
      · rcases Bool.or_eq_true_iff.mp hignored with hdefault | hcustom
        · rw [compileIgnorePatterns_below hdefaults hdefault, Bool.true_or]
        · have hsome := of_decide_eq_true hcustom
          obtain ⟨matcher, hmatcher, hmatch⟩ := Option.map_eq_some_iff.mp hsome
          obtain ⟨text, -, hcompile⟩ := Option.bind_eq_some_iff.mp hmatcher
          have hbelow := compileIgnorePatterns_below hcompile hmatch (joined names)
          rw [hmatcher, Option.map_some, hbelow]
          simp

end

section

variable {cwd : WorkingDirectory} {device : Device} {isIgnored : String → Bool}
  {mirrorRoot dir absPath : String}

def CoversBelow (isIgnored : String → Bool) : Prop :=
  ∀ dir names, dir ≠ "" → names ≠ [] → (∀ s ∈ names, IsName s) → isIgnored dir = true →
    isIgnored (dir ++ "/" ++ joined names) = true

mutual

theorem mem_filesOf_iff (hcovers : CoversBelow isIgnored) {dir : String} (hdir : Normal dir)
    (item : Item) :
    absPath ∈ filesOf isIgnored dir item ↔
      absPath ∈ filesOf (fun _ => false) dir item ∧ isIgnored absPath = false := by
  cases item with
  | file name =>
    simp only [filesOf, Bool.false_eq_true, if_false, List.mem_singleton]
    constructor
    · intro h
      split at h
      next => cases h
      next hnot =>
        obtain rfl := List.mem_singleton.mp h
        exact ⟨rfl, Bool.not_eq_true _ ▸ hnot⟩
    · rintro ⟨rfl, hnot⟩
      rw [hnot]
      exact List.mem_singleton_self _
  | directory name items =>
    obtain ⟨hjoin, hnormal⟩ := join_name hdir name
    simp only [filesOf, hjoin, Bool.false_eq_true, if_false]
    by_cases hignored : isIgnored (dir ++ "/" ++ name) = true
    · rw [if_pos hignored]
      refine iff_of_false List.not_mem_nil ?_
      rintro ⟨hmem, hnot⟩
      obtain ⟨names, hne, hnames, rfl⟩ := below_of_mem_filesBelow hnormal items hmem
      rw [hcovers _ names hnormal.ne_empty hne hnames hignored] at hnot
      cases hnot
    · rw [if_neg hignored]
      exact mem_filesBelow_iff hcovers hnormal items
  | other name => simp [filesOf]

theorem mem_filesBelow_iff (hcovers : CoversBelow isIgnored) {dir : String} (hdir : Normal dir)
    (items : List Item) : absPath ∈ filesBelow isIgnored dir items ↔
      absPath ∈ filesBelow (fun _ => false) dir items ∧ isIgnored absPath = false := by
  cases items with
  | nil => simp [filesBelow]
  | cons item items =>
    simp only [filesBelow, List.mem_append, mem_filesOf_iff hcovers hdir item,
      mem_filesBelow_iff hcovers hdir items, or_and_right]

end

theorem mem_walk_iff (hcovers : CoversBelow isIgnored) (hdir : Normal dir) :
    absPath ∈ device.walk cwd isIgnored dir ↔
      absPath ∈ device.walk cwd (fun _ => false) dir ∧ isIgnored absPath = false := by
  unfold Device.walk
  split
  next items _ => exact mem_filesBelow_iff hcovers hdir items
  next => simp

variable {items : List Item}

theorem filesOf_subset {item : Item} (hitem : item ∈ items)
    (h : absPath ∈ filesOf isIgnored dir item) : absPath ∈ filesBelow isIgnored dir items := by
  induction items with
  | nil => cases hitem
  | cons first items ih =>
    rw [filesBelow, List.mem_append]
    rcases List.mem_cons.mp hitem with rfl | hitem
    · exact .inl h
    · exact .inr (ih hitem)

theorem mem_filesBelow_of_lookup (hdir : Normal dir) {names : List String} (hne : names ≠ [])
    (h : lookup items names = some .file) :
    dir ++ "/" ++ joined names ∈ filesBelow (fun _ => false) dir items := by
  induction names generalizing dir items with
  | nil => exact absurd rfl hne
  | cons name rest ih =>
    rw [lookup] at h
    split at h
    next => cases h
    next found below hfind =>
      obtain rfl : found.1 = name :=
        of_decide_eq_true (List.find?_some (p := fun item : Item => item.name = name) hfind)
      refine filesOf_subset (List.mem_of_find?_eq_some hfind) ?_
      obtain ⟨hjoin, hnormal⟩ := join_name hdir found
      have hrest : rest ≠ [] := by
        rintro rfl
        cases h
      rw [filesOf, hjoin, if_neg (by simp), joined_cons hrest, ← String.append_assoc,
        ← String.append_assoc]
      exact ih hnormal hrest h
    next found hfind =>
      obtain rfl : found.1 = name :=
        of_decide_eq_true (List.find?_some (p := fun item : Item => item.name = name) hfind)
      refine filesOf_subset (List.mem_of_find?_eq_some hfind) ?_
      obtain ⟨hjoin, -⟩ := join_name hdir found
      split at h
      next hlast =>
        subst hlast
        rw [filesOf, hjoin, if_neg (by simp), joined_singleton]
        exact List.mem_singleton_self _
      next => cases h
    next =>
      split at h
      all_goals cases h

theorem lookup_append {front back : List String} (hback : back ≠ [])
    (h : lookup items (front ++ back) = some .file) :
    ∃ below, lookup items front = some (.directory below) ∧ lookup below back = some .file := by
  induction front generalizing items with
  | nil => exact ⟨items, rfl, h⟩
  | cons name front ih =>
    have hne : front ++ back ≠ [] := List.append_ne_nil_of_right_ne_nil front hback
    rw [List.cons_append, lookup] at h
    rw [lookup]
    split at h
    next => cases h
    next => exact ih h
    next =>
      rw [if_neg hne] at h
      cases h
    next =>
      rw [if_neg hne] at h
      cases h

theorem isName_section {fileSection : String} (h : fileSection ∈ sections) : IsName fileSection := by
  simp only [sections, List.mem_cons, List.not_mem_nil, or_false] at h
  rcases h with rfl | rfl | rfl
  all_goals exact ⟨by decide, by decide, by decide, by decide⟩

theorem normal_section (hroot : MirrorPath mirrorRoot) {fileSection : String}
    (h : fileSection ∈ sections) : Normal (join [mirrorRoot, fileSection]) := by
  have hstart := join_below hroot (List.cons_ne_nil fileSection []) (by simpa using isName_section h)
  rw [joined_singleton] at hstart
  exact hstart.1

theorem eligible_of_scanned (hcovers : CoversBelow isIgnored) (hroot : MirrorPath mirrorRoot)
    (h : absPath ∈ scanned cwd device isIgnored mirrorRoot) :
    eligible cwd isIgnored mirrorRoot absPath = true := by
  obtain ⟨fileSection, hsection, hmem⟩ := List.mem_flatMap.mp h
  obtain ⟨hwalked, hsub⟩ := List.mem_filter.mp hmem
  have hnot := ((mem_walk_iff hcovers (normal_section hroot hsection)).mp hwalked).2
  rw [eligible, hnot, hsub]
  rfl

theorem scanned_of_eligible (hcovers : CoversBelow isIgnored) (hroot : MirrorPath mirrorRoot)
    (hpath : Normal absPath) (hcontains : contains mirrorRoot absPath = true)
    (hplace : ∀ fileSection ∈ sections, absPath ≠ join [mirrorRoot, fileSection])
    (hfind : device.find cwd absPath = some .file)
    (h : eligible cwd isIgnored mirrorRoot absPath = true) :
    absPath ∈ scanned cwd device isIgnored mirrorRoot := by
  obtain ⟨hnot, hsub⟩ := Bool.and_eq_true_iff.mp h
  obtain ⟨hnormal, fileSection, rest, hsection, hnames, rfl⟩ :=
    section_names hroot hpath hcontains hsub
  have hname := isName_section hsection
  have hjoin : join [mirrorRoot, fileSection] = mirrorRoot ++ "/" ++ fileSection := by
    have hbelow := hnormal.join (List.cons_ne_nil fileSection []) (by simpa using hname)
    rwa [joined_singleton] at hbelow
  have hrest : rest ≠ [] := by
    rintro rfl
    apply hplace fileSection hsection
    rw [hjoin, joined_singleton]
  have hsegs : resolvedSegments cwd [mirrorRoot ++ "/" ++ joined (fileSection :: rest)] =
      resolvedSegments cwd [join [mirrorRoot, fileSection]] ++ rest := by
    have hsectionSegs := resolvedSegments_names cwd hnormal.ne_empty
      (List.cons_ne_nil fileSection []) (by simpa using hname)
    rw [joined_singleton] at hsectionSegs
    rw [resolvedSegments_names cwd hnormal.ne_empty (List.cons_ne_nil _ _) hnames, hjoin,
      hsectionSegs]
    simp
  rw [Device.find, hsegs] at hfind
  obtain ⟨items, hdirectory, hfile⟩ := lookup_append hrest hfind
  refine List.mem_flatMap.mpr ⟨fileSection, hsection, List.mem_filter.mpr ⟨?_, hsub⟩⟩
  refine (mem_walk_iff hcovers (normal_section hroot hsection)).mpr ⟨?_, by simpa using hnot⟩
  have hwalked := mem_filesBelow_of_lookup (normal_section hroot hsection) hrest hfile
  rw [hjoin] at hwalked hdirectory ⊢
  rw [Device.walk, Device.find, hdirectory, joined_cons hrest]
  simpa only [String.append_assoc] using hwalked

end

/-- An ignore file whose lines are translated as they stand compiles, and matches what one of its
lines matches. Whatever is in the file, a file below a section's folder is come by in a walk just
when reconciling its path goes on to look for a record. -/
theorem ignore_file_honoured (cwd : WorkingDirectory) (file : Option String) (mirrorRoot : String) :
    (∀ text, (∀ line ∈ patternLines text, Translatable line) →
      ∃ matcher, compileIgnorePatterns text = some matcher ∧
        ∀ path, matcher path = true ↔ ∃ line ∈ patternLines text, LineMatches line path) ∧
    ∃ isIgnored, loadMirrorIgnore cwd file mirrorRoot = some isIgnored ∧
      ∀ device absPath, MirrorPath mirrorRoot → Normal absPath →
        contains mirrorRoot absPath = true →
        (∀ fileSection ∈ sections, absPath ≠ join [mirrorRoot, fileSection]) →
        Device.find cwd device absPath = some .file →
          (absPath ∈ scanned cwd device isIgnored mirrorRoot ↔
            eligible cwd isIgnored mirrorRoot absPath = true) := by
  constructor
  · intro text hlines
    obtain ⟨matchers, hmatchers, hmatches⟩ := mapM_translatable hlines
    refine ⟨fun path => matchers.any fun r => test r path.toList, ?_, hmatches⟩
    rw [compileIgnorePatterns, hmatchers]
    rfl
  · obtain ⟨defaults, hdefaults⟩ := Option.isSome_iff_exists.mp defaultPatterns_compile
    obtain ⟨isIgnored, hload⟩ : ∃ isIgnored, loadMirrorIgnore cwd file mirrorRoot = some isIgnored :=
      ⟨_, congrArg (Option.map _) hdefaults⟩
    have hcovers : CoversBelow isIgnored :=
      fun _ _ hdir hne hnames hignored => isIgnored_below hload hdir hne hnames hignored
    refine ⟨isIgnored, hload, fun device absPath hroot hpath hcontains hplace hfind => ?_⟩
    exact ⟨eligible_of_scanned hcovers hroot,
      scanned_of_eligible hcovers hroot hpath hcontains hplace hfind⟩

theorem ignore_file_honoured_build :
    ∃ matcher, compileIgnorePatterns "# generated\n*.tmp\n/build/\n" = some matcher ∧
      ∀ path, matcher path = true ↔
        ∃ line ∈ patternLines "# generated\n*.tmp\n/build/\n", LineMatches line path :=
  (ignore_file_honoured ⟨"/", rfl⟩ none "/mirror").1 _ (by decide +kernel)

/-- A file that `**` is to match with no segment for it is not matched, and not ignored. -/
theorem no_segments_unmatched :
    ¬∀ text, ∃ matcher, compileIgnorePatterns text = some matcher ∧
      ∀ path, matcher path = true ↔ ∃ line ∈ patternLines text, LineMatchesSegments line path := by
  intro hclaim
  obtain ⟨matcher, hcompile, hmatches⟩ := hclaim "**/secret"
  have hnot : (compileIgnorePatterns "**/secret").map (· "secret") = some false := by
    decide +kernel
  rw [hcompile, Option.map_some, Option.some.injEq] at hnot
  have hline : "**/secret" ∈ patternLines "**/secret" := by decide +kernel
  have hsegments : LineMatchesSegments "**/secret" "secret" := by
    refine ⟨[], ["secret".toList], [], by decide +kernel, ?_⟩
    have hparts : ((patternOf "**/secret".toList).splitOn '/').map tokens =
        [[.deepRun], "secret".toList.map .literal] := by decide +kernel
    rw [if_neg (by decide +kernel), hparts]
    refine ⟨[], _, rfl, "secret".toList, [], rfl, ?_, rfl⟩
    exact ⟨['s'], _, rfl, rfl, ['e'], _, rfl, rfl, ['c'], _, rfl, rfl, ['r'], _, rfl, rfl,
      ['e'], _, rfl, rfl, ['t'], [], rfl, rfl, rfl⟩
  rw [(hmatches "secret").mpr ⟨_, hline, hsegments⟩] at hnot
  cases hnot

end Portuni.MirrorIgnore
