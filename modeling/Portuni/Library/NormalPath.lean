import Portuni.Library.PosixPath

/-!
Normal paths: what `join` and `resolve` return is normal, a name below a normal path is appended to
its text, and between two normal paths one of which starts with the other there are only names.
-/

namespace Portuni.Library.PosixPath

section

variable {absolute : Bool}

theorem length_foldl_keep (kept segs : List String) :
    (segs.foldl (keep absolute) kept).length ≤ kept.length + segs.length := by
  induction segs generalizing kept with
  | nil => simp
  | cons s segs ih =>
    have hkeep : (keep absolute kept s).length ≤ kept.length + 1 := by
      unfold keep
      split
      next => exact Nat.le_succ _
      next =>
        split
        next =>
          cases kept with
          | nil => cases absolute <;> simp
          | cons last rest =>
            dsimp only
            split
            next => exact Nat.le_refl _
            next =>
              simp only [List.length_cons]
              omega
        next => exact Nat.le_refl _
    have := ih (keep absolute kept s)
    simp only [List.foldl_cons, List.length_cons]
    omega

theorem Stable.ups {kept : List String} (h : Stable absolute (".." :: kept)) :
    ∀ s ∈ kept, s = ".." := by
  induction kept with
  | nil => simp
  | cons last rest ih =>
    have hagain := h.again
    rw [List.reverse_cons, List.foldl_append, List.foldl_cons, List.foldl_nil] at hagain
    have hlength := @length_foldl_keep absolute [] (last :: rest).reverse
    have hempty : Stable absolute [] := ⟨by simp, rfl⟩
    have hstable := stable_foldl_keep hempty (last :: rest).reverse
    generalize (last :: rest).reverse.foldl (PosixPath.keep absolute) [] = before
      at hagain hlength hstable
    cases before with
    | nil => cases absolute <;> simp [PosixPath.keep] at hagain
    | cons top below =>
      by_cases htop : top = ".."
      · subst htop
        have heq : ".." :: below = last :: rest := by simpa [PosixPath.keep] using hagain
        obtain ⟨rfl, rfl⟩ := List.cons.inj heq
        intro s hs
        rcases List.mem_cons.mp hs with rfl | hs
        · rfl
        · exact ih hstable s hs
      · have heq : below = ".." :: last :: rest := by
          simpa [PosixPath.keep, htop] using hagain
        simp only [heq, List.length_cons, List.length_nil, List.length_reverse] at hlength
        omega

theorem Stable.names {names rest : List String} {last : String}
    (h : Stable absolute (names ++ last :: rest)) (hlast : last ≠ "..") :
    ∀ s ∈ names, s ≠ ".." := by
  induction names with
  | nil => simp
  | cons name names ih =>
    have hname : name ≠ ".." := by
      rintro rfl
      exact hlast (h.ups last (by simp))
    intro s hs
    rcases List.mem_cons.mp hs with rfl | hs
    · exact hname
    · exact ih (h.pop hname) s hs

end

section

/-- A path that ends in a name and that normalizing leaves as it is. -/
structure Normal (path : String) : Prop where
  endsInName : EndsInName path
  normal : normalize path = path

variable {path : String}

def start (absolute : Bool) : List String :=
  if absolute then [""] else []

variable {names : List String}

theorem segments_lead_joined (absolute : Bool) (hne : names ≠ [])
    (hnames : ∀ s ∈ names, IsSegment s) :
    segments (lead absolute ++ joined names) = start absolute ++ names ∧
      isAbsolute (lead absolute ++ joined names) = absolute := by
  have hsplit : segments (joined names) = names :=
    segments_joined hne fun s hs => (hnames s hs).slash
  cases absolute with
  | true =>
    have hsegs := segments_append_slash "" (joined names)
    rw [segments_empty, hsplit, String.empty_append] at hsegs
    exact ⟨hsegs, isAbsolute_slash_append _⟩
  | false =>
    have hlead : lead false ++ joined names = joined names := by simp [lead]
    rw [hlead]
    exact ⟨hsplit, isAbsolute_joined hne hnames⟩

theorem normalizeSegments_start (absolute : Bool) (segs : List String) :
    normalizeSegments absolute (start absolute ++ segs) = normalizeSegments absolute segs := by
  cases absolute with
  | true => exact normalizeSegments_empty_cons segs
  | false => rfl

theorem EndsInName.kept (h : EndsInName path) : ∃ segs last,
    normalizeSegments (isAbsolute path) (segments path) = segs ++ [last] ∧ IsName last := by
  obtain ⟨segs, last, hsegs, hlast⟩ := h
  exact ⟨_, last, by rw [hsegs, normalizeSegments_append_names (by simpa using hlast)], hlast⟩

theorem normal_normalize (h : EndsInName path) : Normal (normalize path) := by
  obtain ⟨segs, last, hkept, hlast⟩ := h.kept
  have hne : normalizeSegments (isAbsolute path) (segments path) ≠ [] := by simp [hkept]
  obtain ⟨hsegs, habs⟩ := segments_lead_joined (isAbsolute path) hne isSegment_normalizeSegments
  have hends : EndsInName (normalize path) := by
    refine ⟨start (isAbsolute path) ++ segs, last, ?_, hlast⟩
    rw [normalize_endsInName h, hsegs, hkept, List.append_assoc]
  refine ⟨hends, ?_⟩
  rw [normalize_endsInName hends, normalize_endsInName h, habs, hsegs, normalizeSegments_start,
    normalizeSegments_idem]

variable (h : Normal path)

include h

theorem Normal.segments : ∃ segs last,
    segments path = start (isAbsolute path) ++ (segs ++ [last]) ∧ IsName last ∧
      Stable (isAbsolute path) (segs ++ [last]).reverse := by
  obtain ⟨segs, last, hkept, hlast⟩ := h.endsInName.kept
  have hne : normalizeSegments (isAbsolute path) (PosixPath.segments path) ≠ [] := by simp [hkept]
  obtain ⟨hsegs, -⟩ := segments_lead_joined (isAbsolute path) hne isSegment_normalizeSegments
  refine ⟨segs, last, ?_, hlast, ?_⟩
  · rw [← normalize_endsInName h.endsInName, h.normal, hkept] at hsegs
    exact hsegs
  · rw [← hkept]
    exact stable_normalizeSegments _

theorem Normal.ne_empty : path ≠ "" := h.endsInName.ne_empty

theorem Normal.below (hne : names ≠ []) (hnames : ∀ s ∈ names, IsName s) :
    Normal (path ++ "/" ++ joined names) := by
  have hbelow := normalize_below h.endsInName hne hnames
  rw [h.normal] at hbelow
  exact ⟨EndsInName.below hne hnames, hbelow⟩

theorem Normal.join (hne : names ≠ []) (hnames : ∀ s ∈ names, IsName s) :
    join [path, joined names] = path ++ "/" ++ joined names := by
  have hjoined := joined_ne_empty hne fun s hs => (hnames s hs).segment
  rw [join_eq_normalize (by simp) (by simp [h.ne_empty, hjoined]),
    joined_cons (List.cons_ne_nil _ _), joined_singleton, (h.below hne hnames).normal]

theorem Normal.names_between {text : String} (hlonger : Normal (path ++ "/" ++ text)) :
    ∀ s ∈ PosixPath.segments text, IsName s := by
  obtain ⟨segs, last, hsegs, hlast, -⟩ := h.segments
  obtain ⟨segs', last', hsegs', -, hstable⟩ := hlonger.segments
  have habs : isAbsolute (path ++ "/" ++ text) = isAbsolute path := by
    rw [String.append_assoc, isAbsolute_append h.ne_empty]
  rw [segments_append_slash, hsegs, habs, List.append_assoc] at hsegs'
  have heq := List.append_cancel_left hsegs'
  rw [← heq] at hstable
  have hshape : ((segs ++ [last]) ++ PosixPath.segments text).reverse =
      (PosixPath.segments text).reverse ++ last :: segs.reverse := by simp
  rw [hshape] at hstable
  intro s hs
  have hs' := List.mem_reverse.mpr hs
  have hsegment := hstable.nonempty s (List.mem_append_left _ hs')
  exact ⟨hsegment.1, hsegment.2, hstable.names hlast.ne_dotdot s hs',
    slash_notMem_of_mem_segments hs⟩

omit h

theorem normal_slash_joined (hne : names ≠ []) (hnames : ∀ s ∈ names, IsName s) :
    Normal ("/" ++ joined names) := by
  have hsegs : ∀ s ∈ names, IsSegment s := fun s hs => (hnames s hs).segment
  obtain ⟨hsplit, habs⟩ := segments_lead_joined true hne hsegs
  have hends : EndsInName ("/" ++ joined names) := by
    refine ⟨"" :: names.dropLast, names.getLast hne, ?_, hnames _ (List.getLast_mem hne)⟩
    have hlast : names.dropLast ++ [names.getLast hne] = names := List.dropLast_append_getLast hne
    rw [List.cons_append, hlast]
    exact hsplit
  refine ⟨hends, ?_⟩
  have hnormal := normalize_endsInName hends
  rw [show isAbsolute ("/" ++ joined names) = true from habs,
    show PosixPath.segments ("/" ++ joined names) = start true ++ names from hsplit,
    normalizeSegments_start, normalizeSegments_names hnames] at hnormal
  exact hnormal

theorem normal_join {root : String} (hroot : root ≠ "") (hne : names ≠ [])
    (hnames : ∀ s ∈ names, IsName s) : Normal (join (root :: names)) := by
  have hparts : ∀ p ∈ root :: names, p ≠ "" := by
    intro p hp
    rcases List.mem_cons.mp hp with rfl | hp
    · exact hroot
    · exact (hnames p hp).ne_empty
  rw [join_eq_normalize (List.cons_ne_nil _ _) hparts, joined_cons hne]
  exact normal_normalize (EndsInName.below hne hnames)

end

variable (cwd : WorkingDirectory)

theorem resolvedSegments_names {path : String} (hpath : path ≠ "") {names : List String}
    (hne : names ≠ []) (hnames : ∀ s ∈ names, IsName s) :
    resolvedSegments cwd [path ++ "/" ++ joined names] = resolvedSegments cwd [path] ++ names := by
  have hsplit := segments_joined_names hne hnames
  have hlonger : path ++ "/" ++ joined names ≠ "" := by simp
  have habs : isAbsolute (path ++ "/" ++ joined names) = isAbsolute path := by
    rw [String.append_assoc, isAbsolute_append hpath]
  have hbase : ∃ base, segments (resolvedText cwd [path]) = base ++ [""] ∧
      segments (resolvedText cwd [path ++ "/" ++ joined names]) = base ++ names ++ [""] := by
    cases hcase : isAbsolute path with
    | true =>
      refine ⟨segments path, ?_, ?_⟩
      · simp [resolvedText, collected, hpath, hcase, segments_slash]
      · rw [hcase] at habs
        simp only [resolvedText, collected, List.foldr_cons, List.foldr_nil, hlonger, habs,
          Bool.false_or, decide_false, if_false, if_true, segments_append_slash, hsplit,
          segments_empty, Bool.false_eq_true]
    | false =>
      refine ⟨segments cwd.path ++ segments path, ?_, ?_⟩
      · simp [resolvedText, collected, hpath, hcase, segments_slash, segments_append_slash]
      · rw [hcase] at habs
        simp only [resolvedText, collected, List.foldr_cons, List.foldr_nil, hlonger, habs,
          Bool.false_or, decide_false, if_false, segments_append_slash, hsplit,
          segments_empty, Bool.false_eq_true, List.append_assoc]
  obtain ⟨base, hshort, hlong⟩ := hbase
  rw [resolvedSegments, resolvedSegments, hshort, hlong, normalizeSegments_append_empty,
    normalizeSegments_append_empty, normalizeSegments_append_names hnames]

end Portuni.Library.PosixPath
