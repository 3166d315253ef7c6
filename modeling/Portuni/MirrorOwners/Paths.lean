import Portuni.Library.NormalPath
import Portuni.MirrorOwners.Model

/-!
Which mirror a path belongs to: the text of a path that a walk finds or an event names, and what
the deepest mirror on it can be.
-/

namespace Portuni.MirrorOwners

open Files (FileSection)
open Library.PosixPath RemotePaths

variable {cwd : WorkingDirectory} {mirrors : List LocalMirror} {root path absPath : String}

/-- What a mirror is registered at: a path of `join` or `resolve`. -/
def MirrorPath (path : String) : Prop := path = "/" ∨ Normal path

theorem isName_typePlural (nodeType : Organizations.NodeType) : IsName (typePlural nodeType) := by
  cases nodeType <;> exact ⟨by decide, by decide, by decide, by decide⟩

theorem mirrorPath_resolve (paths : List String) : MirrorPath (resolve cwd paths) := by
  unfold resolve
  by_cases hempty : resolvedSegments cwd paths = []
  · rw [hempty]
    exact .inl rfl
  · exact .inr (normal_slash_joined hempty (isName_resolvedSegments cwd paths))

theorem mirrorPath_ensureUnderRoot {candidate : String}
    (h : ensureUnderRoot cwd root candidate = .ok path) : MirrorPath path := by
  cases habs : isAbsolute candidate with
  | true =>
    simp only [ensureUnderRoot, habs, if_true] at h
    split at h
    next =>
      obtain rfl := Except.ok.inj h
      exact mirrorPath_resolve _
    next => cases h
  | false =>
    simp only [ensureUnderRoot, habs, Bool.false_eq_true, if_false] at h
    split at h
    next =>
      obtain rfl := Except.ok.inj h
      exact mirrorPath_resolve _
    next => cases h

theorem mirrorPath_resolveMirrorPath {row : NodeRow} {customPath : Option String}
    (hroot : root ≠ "") (h : resolveMirrorPath cwd root row customPath = .ok path) :
    MirrorPath path := by
  unfold resolveMirrorPath at h
  split at h
  next =>
    exact mirrorPath_ensureUnderRoot h
  next =>
    split at h
    · obtain rfl := Except.ok.inj h
      exact .inr (normal_join hroot (by simp) (by simpa using row.syncKey.2))
    · split at h
      next orgKey _ =>
        obtain rfl := Except.ok.inj h
        refine .inr (normal_join hroot (by simp) ?_)
        simpa using ⟨orgKey.2, isName_typePlural row.nodeType, row.syncKey.2⟩
      next =>
        obtain rfl := Except.ok.inj h
        refine .inr (normal_join hroot (by simp) ?_)
        simpa using ⟨isName_typePlural row.nodeType, row.syncKey.2⟩

theorem contains_normal (h : Normal path) :
    contains path absPath = true ↔ absPath = path ∨ ∃ rest, absPath = path ++ "/" ++ rest := by
  unfold contains
  simp only [h.endsInName.no_trailing, if_false, Bool.or_eq_true, decide_eq_true_eq, startsWith_iff]

theorem contains_slash :
    contains "/" absPath = true ↔ ∃ rest, absPath = "/" ++ rest := by
  unfold contains
  have hlast : ("/" : String).toList.getLast? = some '/' := rfl
  simp only [hlast, if_true, Bool.or_eq_true, decide_eq_true_eq, startsWith_iff]
  constructor
  · rintro (rfl | h)
    · exact ⟨"", rfl⟩
    · exact h
  · exact .inr

theorem contains_below (h : MirrorPath path) {text : String} (hcontains : contains path absPath) :
    contains path (absPath ++ "/" ++ text) = true := by
  rcases h with rfl | h
  · obtain ⟨rest, rfl⟩ := contains_slash.mp hcontains
    exact contains_slash.mpr ⟨rest ++ "/" ++ text, by simp only [String.append_assoc]⟩
  · refine (contains_normal h).mpr (.inr ?_)
    rcases (contains_normal h).mp hcontains with rfl | ⟨rest, rfl⟩
    · exact ⟨text, rfl⟩
    · exact ⟨rest ++ "/" ++ text, by simp only [String.append_assoc]⟩

theorem join_below (h : MirrorPath path) {names : List String} (hne : names ≠ [])
    (hnames : ∀ s ∈ names, IsName s) :
    Normal (join [path, joined names]) ∧ contains path (join [path, joined names]) = true := by
  rcases h with rfl | h
  · have hnormal := normal_slash_joined hne hnames
    have hjoined := joined_ne_empty hne fun s hs => (hnames s hs).segment
    have hjoin : join ["/", joined names] = "/" ++ joined names := by
      rw [join_eq_normalize (by simp) (by simp [hjoined]), joined_cons (List.cons_ne_nil _ _),
        joined_singleton]
      have hends : EndsInName ("/" ++ "/" ++ joined names) := EndsInName.below hne hnames
      have hsegs : segments ("/" ++ "/" ++ joined names) = ["", ""] ++ names := by
        rw [segments_append_slash, segments_joined_names hne hnames]
        rfl
      have habs : isAbsolute ("/" ++ "/" ++ joined names) = true := by
        rw [String.append_assoc, isAbsolute_slash_append]
      rw [normalize_endsInName hends, habs, hsegs, List.cons_append, normalizeSegments_empty_cons,
        List.cons_append, normalizeSegments_empty_cons, List.nil_append,
        normalizeSegments_names hnames]
      rfl
    rw [hjoin]
    exact ⟨hnormal, contains_slash.mpr ⟨_, rfl⟩⟩
  · rw [h.join hne hnames]
    exact ⟨h.below hne hnames, (contains_normal h).mpr (.inr ⟨_, rfl⟩)⟩

theorem mem_sections {segment : String} (h : FileSection.ofSegment segment ≠ none) :
    segment ∈ sections := by
  obtain ⟨s, hs⟩ := Option.ne_none_iff_exists'.mp h
  obtain rfl := ofSegment_eq_some hs
  cases s <;> simp [sections, FileSection.segment]

theorem relativeSegments_self (segs : List String) : relativeSegments segs segs = [] := by
  have h := relativeSegments_append segs []
  rwa [List.append_nil] at h

theorem subpathFromMirror_some {absPath : String}
    (h : (subpathFromMirror cwd root absPath).isSome = true) :
    isInside cwd root absPath = true ∧ relative cwd root absPath ≠ "" ∧
      FileSection.ofSegment ((segments (relative cwd root absPath)).headD "") ≠ none := by
  unfold subpathFromMirror at h
  dsimp only at h
  split at h
  next => cases h
  next hinside =>
    split at h
    next => cases h
    next hrel =>
      split at h
      next => cases h
      next hsection =>
        simp only [Bool.or_eq_true, decide_eq_true_eq, not_or] at hrel
        exact ⟨by simpa using hinside, hrel.2, hsection⟩

theorem not_section_of_slash : (subpathFromMirror cwd "/" absPath).isSome = false := by
  by_contra hsome
  obtain ⟨hinside, hrel, -⟩ := subpathFromMirror_some (Bool.not_eq_false _ ▸ hsome)
  have hdir : resolvedSegments cwd ["/"] = [] := @resolvedSegments_slash_joined [] cwd (by simp)
  have hresolve : resolve cwd ["/"] = "/" := by
    rw [resolve, hdir]
    rfl
  by_cases hempty : resolvedSegments cwd [absPath] = []
  · apply hrel
    rw [relative, hdir, hempty]
    rfl
  · have hagain : resolve cwd ["/" ++ joined (resolvedSegments cwd [absPath])] =
        resolve cwd [absPath] := resolve_resolve cwd [absPath]
    have hbelow : isInside cwd "/" ("/" ++ joined (resolvedSegments cwd ["/"] ++
        resolvedSegments cwd [absPath])) = true := by
      rw [hdir, List.nil_append]
      unfold isInside at hinside ⊢
      rwa [hagain]
    have hne : resolve cwd ["/"] ≠ "/" :=
      root_ne_slash_of_isInside hempty (isName_resolvedSegments cwd [absPath]) hbelow
    exact hne hresolve

theorem section_names (hroot : MirrorPath root) (hpath : Normal absPath)
    (hcontains : contains root absPath = true)
    (hsome : (subpathFromMirror cwd root absPath).isSome = true) :
    Normal root ∧ ∃ fileSection rest, fileSection ∈ sections ∧
      (∀ s ∈ fileSection :: rest, IsName s) ∧
      absPath = root ++ "/" ++ joined (fileSection :: rest) := by
  rcases hroot with rfl | hroot
  · rw [not_section_of_slash] at hsome
    cases hsome
  · refine ⟨hroot, ?_⟩
    obtain ⟨-, hrel, hsection⟩ := subpathFromMirror_some hsome
    rcases (contains_normal hroot).mp hcontains with rfl | ⟨text, rfl⟩
    · rw [relative, relativeSegments_self] at hrel
      exact absurd rfl hrel
    · have hnames := hroot.names_between hpath
      have hne := segments_ne_nil text
      have hdir := resolvedSegments_names cwd hroot.ne_empty hne hnames
      rw [joined_segments] at hdir
      rw [relative, hdir, relativeSegments_append, segments_joined_names hne hnames] at hsection
      obtain ⟨fileSection, rest, hsplit⟩ := List.exists_cons_of_ne_nil hne
      rw [hsplit] at hsection hnames
      refine ⟨fileSection, rest, mem_sections hsection, hnames, ?_⟩
      rw [← hsplit, joined_segments]

variable (cwd)

structure Apart (a b : String) : Prop where
  ne : resolvedSegments cwd [a] ≠ resolvedSegments cwd [b]
  below : ∀ s ∈ sections, ¬resolvedSegments cwd [a] ++ [s] <+: resolvedSegments cwd [b]
  above : ∀ s ∈ sections, ¬resolvedSegments cwd [b] ++ [s] <+: resolvedSegments cwd [a]

variable {cwd}

theorem Apart.symm {a b : String} (h : Apart cwd a b) : Apart cwd b a :=
  ⟨fun heq => h.ne heq.symm, h.above, h.below⟩

theorem text_of_segments {a b : String} {names : List String} (hne : names ≠ [])
    (h : segments b = segments a ++ names) : b = a ++ "/" ++ joined names := by
  rw [← joined_segments b, h, joined_append (segments_ne_nil a) hne, joined_segments]

theorem segments_of_contains {path : String} (h : Normal path)
    (hcontains : contains path absPath = true) : segments path <+: segments absPath := by
  rcases (contains_normal h).mp hcontains with rfl | ⟨text, rfl⟩
  · exact List.prefix_refl _
  · rw [segments_append_slash]
    exact List.prefix_append _ _

theorem deeper_in_section {other fileSection : String} {rest : List String} (hroot : Normal root)
    (hother : MirrorPath other) (hnames : ∀ s ∈ fileSection :: rest, IsName s)
    (hcontains : contains other (root ++ "/" ++ joined (fileSection :: rest)) = true)
    (hlong : root.length ≤ other.length) :
    resolvedSegments cwd [root] = resolvedSegments cwd [other] ∨
      resolvedSegments cwd [root] ++ [fileSection] <+: resolvedSegments cwd [other] := by
  have hlengths : root.toList.length ≤ other.toList.length := by
    rwa [String.length_toList, String.length_toList]
  rcases hother with rfl | hother
  · -- the root of the file system is shorter than any path that ends in a name
    obtain ⟨text, htext⟩ := contains_slash.mp hcontains
    have hchars := congrArg String.toList htext
    simp only [String.toList_append, List.append_assoc] at hchars
    obtain ⟨c, cs, hcs⟩ := List.exists_cons_of_ne_nil
      (show root.toList ≠ [] by simpa using hroot.ne_empty)
    rw [hcs] at hchars hlengths
    have hc : c = '/' := (List.cons.inj hchars).1
    have hcsNil : cs = [] := by
      simpa using hlengths
    have hlast := hroot.endsInName.no_trailing
    rw [hcs, hc, hcsNil] at hlast
    exact absurd rfl hlast
  · have hon := segments_of_contains hother hcontains
    have hsegs : segments (root ++ "/" ++ joined (fileSection :: rest)) =
        segments root ++ fileSection :: rest := by
      rw [segments_append_slash, segments_joined_names (List.cons_ne_nil _ _) hnames]
    rw [hsegs] at hon
    rcases List.prefix_or_prefix_of_prefix hon (List.prefix_append _ _) with hshort | hlong'
    · obtain ⟨names, hsplit⟩ := hshort
      by_cases hempty : names = []
      · rw [hempty, List.append_nil] at hsplit
        exact .inl (by rw [segments_injective hsplit])
      · rw [text_of_segments hempty hsplit.symm] at hlengths
        have hslash : ("/" : String).toList.length = 1 := rfl
        simp only [String.toList_append, List.length_append] at hlengths
        omega
    · obtain ⟨names, hsplit⟩ := hlong'
      by_cases hempty : names = []
      · rw [hempty, List.append_nil] at hsplit
        exact .inl (by rw [segments_injective hsplit])
      · rw [← hsplit, List.prefix_append_right_inj] at hon
        obtain ⟨name, names', rfl⟩ := List.exists_cons_of_ne_nil hempty
        obtain ⟨rfl, -⟩ := List.cons_prefix_cons.mp hon
        refine .inr ?_
        have hown : ∀ s ∈ name :: names', IsName s := fun s hs => hnames s (hon.subset hs)
        rw [text_of_segments hempty hsplit.symm,
          resolvedSegments_names cwd hroot.ne_empty hempty hown]
        exact ⟨names', by simp⟩

theorem owner_of_section {nodeId : String} (hpaths : ∀ m ∈ mirrors, MirrorPath m.localPath)
    (hroot : getMirrorPath mirrors nodeId = some root)
    (hapart : ∀ m ∈ mirrors, m.nodeId ≠ nodeId → Apart cwd root m.localPath)
    (hpath : Normal absPath) (hcontains : contains root absPath = true)
    (hsome : (subpathFromMirror cwd root absPath).isSome = true) :
    ownerNodeForPath mirrors absPath = some nodeId := by
  obtain ⟨own, hfind, hown⟩ := Option.map_eq_some_iff.mp hroot
  have hmem := List.mem_of_find?_eq_some hfind
  obtain ⟨hnormal, fileSection, rest, hsection, hnames, rfl⟩ :=
    section_names (hown ▸ hpaths own hmem) hpath hcontains hsome
  let onPath := mirrors.filter fun m =>
    contains m.localPath (root ++ "/" ++ joined (fileSection :: rest))
  have hownOn : own ∈ onPath := List.mem_filter.mpr ⟨hmem, hown ▸ hcontains⟩
  cases hdeepest : onPath.argmax (·.localPath.length) with
  | none =>
    rw [List.argmax_eq_none.mp hdeepest] at hownOn
    cases hownOn
  | some deepest =>
    have hdeep := List.mem_filter.mp (List.argmax_mem hdeepest)
    have hlong := List.le_of_mem_argmax hownOn hdeepest
    have hsame : deepest.nodeId = nodeId := by
      by_contra hother
      have happart := hapart deepest hdeep.1 hother
      have hdeeper : resolvedSegments cwd [root] = resolvedSegments cwd [deepest.localPath] ∨ _ :=
        deeper_in_section hnormal (hpaths deepest hdeep.1) hnames hdeep.2 (hown ▸ hlong)
      exact hdeeper.elim happart.ne (happart.below fileSection hsection)
    unfold ownerNodeForPath
    rw [show (mirrors.filter fun m => contains m.localPath _) = onPath from rfl, hdeepest,
      Option.map_some, hsame]

end Portuni.MirrorOwners
