import Mathlib.Data.List.Basic
import Mathlib.Data.List.Induction
import Mathlib.Tactic.SplitIfs

/-!
Paths as text: splitting at the slash, `normalize`, `join`, `resolve` and
`relative` of a POSIX platform, and what they do to paths made of names.
-/

namespace Portuni.Library.PosixPath

def segments (path : String) : List String :=
  (path.toList.splitOn '/').map String.ofList

def joined (segs : List String) : String :=
  String.intercalate "/" segs

theorem joined_segments (path : String) : joined (segments path) = path := by
  apply String.toList_inj.mp
  simp only [joined, segments, String.toList_intercalate, List.map_map]
  have hmap : (path.toList.splitOn '/').map (String.toList ∘ String.ofList) =
      path.toList.splitOn '/' := by
    simp [Function.comp_def]
  rw [hmap]
  exact List.intercalate_splitOn '/'

theorem segments_ne_nil (path : String) : segments path ≠ [] := by
  simp [segments]

theorem segments_injective {a b : String} (h : segments a = segments b) : a = b := by
  rw [← joined_segments a, h, joined_segments]

variable {segs : List String}

theorem segments_joined (hne : segs ≠ []) (hslash : ∀ s ∈ segs, '/' ∉ s.toList) :
    segments (joined segs) = segs := by
  simp only [joined, segments, String.toList_intercalate]
  have hsplit : (['/'].intercalate (segs.map String.toList)).splitOn '/' =
      segs.map String.toList := by
    apply List.splitOn_intercalate '/' _ (by simpa using hne)
    intro l hl
    obtain ⟨s, hs, rfl⟩ := List.mem_map.mp hl
    exact hslash s hs
  have htoList : ("/" : String).toList = ['/'] := rfl
  rw [htoList, hsplit]
  simp [Function.comp_def]

theorem slash_notMem_of_mem_splitOn {text part : List Char}
    (h : part ∈ text.splitOn '/') : '/' ∉ part := by
  induction text generalizing part with
  | nil =>
    obtain rfl : part = [] := by simpa using h
    simp
  | cons c text ih =>
    rw [List.splitOn_cons_eq_if_modifyHead] at h
    by_cases hc : (c == '/') = true
    · rw [if_pos hc] at h
      rcases List.mem_cons.mp h with rfl | h
      · simp
      · exact ih h
    · rw [if_neg hc] at h
      obtain ⟨first, rest, hsplit⟩ := List.exists_cons_of_ne_nil (List.splitOn_ne_nil '/' text)
      rw [hsplit, List.modifyHead_cons] at h
      rcases List.mem_cons.mp h with rfl | h
      · have hfirst : '/' ∉ first := ih (by rw [hsplit]; exact List.mem_cons_self)
        simp only [List.mem_cons, not_or]
        exact ⟨fun heq => hc (by simp [← heq]), hfirst⟩
      · exact ih (by rw [hsplit]; exact List.mem_cons_of_mem _ h)

theorem slash_notMem_of_mem_segments {path s : String} (h : s ∈ segments path) :
    '/' ∉ s.toList := by
  obtain ⟨part, hpart, rfl⟩ := List.mem_map.mp h
  simpa using slash_notMem_of_mem_splitOn hpart

theorem segments_append_slash (a b : String) :
    segments (a ++ "/" ++ b) = segments a ++ segments b := by
  have htoList : (a ++ "/" ++ b).toList = a.toList ++ '/' :: b.toList := by
    simp
  simp only [segments, htoList, List.splitOn_append_cons_self, List.map_append]

theorem segments_slash (a : String) : segments (a ++ "/") = segments a ++ [""] := by
  have h := segments_append_slash a ""
  rwa [String.append_empty, show segments "" = [""] from rfl] at h

variable {s : String}

theorem segments_singleton (hslash : '/' ∉ s.toList) : segments s = [s] := by
  simp [segments, List.splitOn_eq_singleton hslash]

@[simp] theorem segments_empty : segments "" = [""] := by
  exact segments_singleton (by simp)

@[simp] theorem joined_nil : joined [] = "" := rfl

@[simp] theorem joined_singleton (s : String) : joined [s] = s := by
  apply String.toList_inj.mp
  simp [joined]

theorem joined_cons (hne : segs ≠ []) : joined (s :: segs) = s ++ "/" ++ joined segs := by
  apply String.toList_inj.mp
  have hmap : segs.map String.toList ≠ [] := by simpa using hne
  simp [joined, List.intercalate_cons_of_ne_nil hmap]

theorem joined_append {a b : List String} (ha : a ≠ []) (hb : b ≠ []) :
    joined (a ++ b) = joined a ++ "/" ++ joined b := by
  induction a with
  | nil => exact absurd rfl ha
  | cons s a ih =>
    cases a with
    | nil => rw [List.singleton_append, joined_cons hb, joined_singleton]
    | cons t a =>
      have hrest := ih (List.cons_ne_nil t a)
      rw [List.cons_append, @joined_cons (t :: a ++ b) s (by simp), hrest,
        joined_cons (List.cons_ne_nil t a)]
      simp only [String.append_assoc]

/-- A segment that names an entry of the directory it is looked up in. -/
structure IsName (s : String) : Prop where
  ne_empty : s ≠ ""
  ne_dot : s ≠ "."
  ne_dotdot : s ≠ ".."
  slash : '/' ∉ s.toList

structure IsSegment (s : String) : Prop where
  ne_empty : s ≠ ""
  slash : '/' ∉ s.toList

theorem IsName.segment (h : IsName s) : IsSegment s :=
  ⟨h.ne_empty, h.slash⟩

variable {names : List String}

theorem segments_joined_names (hne : names ≠ []) (hnames : ∀ s ∈ names, IsName s) :
    segments (joined names) = names :=
  segments_joined hne fun s hs => (hnames s hs).slash

theorem joined_ne_empty (hne : segs ≠ []) (hsegs : ∀ s ∈ segs, IsSegment s) : joined segs ≠ "" := by
  intro h
  have hsplit := segments_joined hne fun s hs => (hsegs s hs).slash
  rw [h, segments_empty] at hsplit
  exact (hsegs "" (by simp [← hsplit])).ne_empty rfl

def isAbsolute (path : String) : Bool :=
  path.toList.head? = some '/'

theorem isAbsolute_slash_append (text : String) : isAbsolute ("/" ++ text) = true := by
  simp [isAbsolute]

variable {path : String}

theorem isAbsolute_iff : isAbsolute path = true ↔ ∃ rest, path = "/" ++ rest := by
  constructor
  · intro h
    obtain ⟨rest, hrest⟩ := List.head?_eq_some_iff.mp (of_decide_eq_true h)
    refine ⟨String.ofList rest, ?_⟩
    apply String.toList_inj.mp
    simp [hrest]
  · rintro ⟨rest, rfl⟩
    exact isAbsolute_slash_append rest

theorem isAbsolute_joined (hne : segs ≠ []) (hsegs : ∀ s ∈ segs, IsSegment s) :
    isAbsolute (joined segs) = false := by
  by_contra habs
  obtain ⟨rest, hrest⟩ := isAbsolute_iff.mp (by simpa using habs)
  have hsplit := segments_joined hne fun s hs => (hsegs s hs).slash
  rw [hrest, ← String.empty_append (s := "/"), segments_append_slash, segments_empty] at hsplit
  exact (hsegs "" (by simp [← hsplit])).ne_empty rfl

theorem isAbsolute_append {a b : String} (ha : a ≠ "") : isAbsolute (a ++ b) = isAbsolute a := by
  have hne : a.toList ≠ [] := by simpa using ha
  simp [isAbsolute, List.head?_append_of_ne_nil _ hne]

/-- One segment of `normalizeString`, on the segments kept so far, the last one first. -/
def keep (absolute : Bool) (kept : List String) (segment : String) : List String :=
  if segment = "" ∨ segment = "." then kept
  else if segment = ".." then
    match kept with
    | [] => if absolute then [] else [".."]
    | last :: rest => if last = ".." then ".." :: last :: rest else rest
  else segment :: kept

def normalizeSegments (absolute : Bool) (segs : List String) : List String :=
  (segs.foldl (keep absolute) []).reverse

def normalize (path : String) : String :=
  if path = "" then "."
  else
    let text := joined (normalizeSegments (isAbsolute path) (segments path))
    let text := if text = "" && !isAbsolute path then "." else text
    let text := if path.toList.getLast? = some '/' && text ≠ "" then text ++ "/" else text
    if isAbsolute path then "/" ++ text else text

def join (paths : List String) : String :=
  let nonempty := paths.filter (· ≠ "")
  if nonempty = [] then "." else normalize (joined nonempty)

/-- The text `resolve` collects from the right up to the first absolute path, and whether
there was one. -/
def collected (paths : List String) : String × Bool :=
  paths.foldr (fun path acc =>
    if acc.2 || path = "" then acc else (path ++ "/" ++ acc.1, isAbsolute path)) ("", false)

structure WorkingDirectory where
  path : String
  absolute : isAbsolute path = true

def resolvedText (cwd : WorkingDirectory) (paths : List String) : String :=
  if (collected paths).2 then (collected paths).1 else cwd.path ++ "/" ++ (collected paths).1

def resolvedSegments (cwd : WorkingDirectory) (paths : List String) : List String :=
  normalizeSegments true (segments (resolvedText cwd paths))

def resolve (cwd : WorkingDirectory) (paths : List String) : String :=
  "/" ++ joined (resolvedSegments cwd paths)

/-- One step up for each segment left of `source`, then down the rest of `target`. -/
def relativeSegments : List String → List String → List String
  | a :: source, b :: target =>
    if a = b then relativeSegments source target
    else ".." :: source.map (fun _ => "..") ++ b :: target
  | source, target => source.map (fun _ => "..") ++ target

def relative (cwd : WorkingDirectory) (source target : String) : String :=
  joined (relativeSegments (resolvedSegments cwd [source]) (resolvedSegments cwd [target]))

section

variable {absolute : Bool} {kept : List String}

theorem keep_name (hs : IsName s) : keep absolute kept s = s :: kept := by
  simp [keep, hs.ne_empty, hs.ne_dot, hs.ne_dotdot]

@[simp] theorem keep_empty (kept : List String) : keep absolute kept "" = kept := by
  simp [keep]

theorem foldl_keep_names {kept names : List String} (hnames : ∀ s ∈ names, IsName s) :
    names.foldl (keep absolute) kept = names.reverse ++ kept := by
  induction names generalizing kept with
  | nil => rfl
  | cons s names ih =>
    have hs : IsName s := hnames s List.mem_cons_self
    have hrest : ∀ t ∈ names, IsName t := fun t ht => hnames t (List.mem_cons_of_mem s ht)
    rw [List.foldl_cons, keep_name hs, ih hrest]
    simp

theorem normalizeSegments_append_names {segs names : List String} (hnames : ∀ s ∈ names, IsName s) :
    normalizeSegments absolute (segs ++ names) = normalizeSegments absolute segs ++ names := by
  simp only [normalizeSegments, List.foldl_append, foldl_keep_names hnames]
  simp

theorem normalizeSegments_names (hnames : ∀ s ∈ names, IsName s) :
    normalizeSegments absolute names = names := by
  simpa [normalizeSegments] using @normalizeSegments_append_names absolute [] names hnames

theorem normalizeSegments_append_empty (segs : List String) :
    normalizeSegments absolute (segs ++ [""]) = normalizeSegments absolute segs := by
  simp [normalizeSegments, List.foldl_append]

theorem normalizeSegments_empty_cons (segs : List String) :
    normalizeSegments absolute ("" :: segs) = normalizeSegments absolute segs := by
  simp [normalizeSegments]

/-- What `normalizeString` keeps is unchanged when it is normalized again. -/
structure Stable (absolute : Bool) (kept : List String) : Prop where
  nonempty : ∀ s ∈ kept, s ≠ "" ∧ s ≠ "."
  again : kept.reverse.foldl (keep absolute) [] = kept

theorem Stable.push (h : Stable absolute kept) (hs : s ≠ "" ∧ s ≠ ".")
    (hkeep : keep absolute kept s = s :: kept) : Stable absolute (s :: kept) := by
  constructor
  · intro t ht
    rcases List.mem_cons.mp ht with rfl | ht
    · exact hs
    · exact h.nonempty t ht
  · rw [List.reverse_cons, List.foldl_append, h.again]
    exact hkeep

theorem Stable.pop {last : String} {rest : List String} (h : Stable absolute (last :: rest))
    (hlast : last ≠ "..") : Stable absolute rest := by
  have hname := h.nonempty last List.mem_cons_self
  have hagain := h.again
  rw [List.reverse_cons, List.foldl_append] at hagain
  have hpush : ∀ kept, keep absolute kept last = last :: kept := by
    intro kept
    simp [keep, hname.1, hname.2, hlast]
  constructor
  · intro s hs
    exact h.nonempty s (List.mem_cons_of_mem _ hs)
  · rw [List.foldl_cons, List.foldl_nil, hpush] at hagain
    exact List.tail_eq_of_cons_eq hagain

theorem Stable.keep (h : Stable absolute kept) (s : String) :
    Stable absolute (keep absolute kept s) := by
  by_cases hskip : s = "" ∨ s = "."
  · have hkept : PosixPath.keep absolute kept s = kept := by
      simp [PosixPath.keep, hskip]
    rw [hkept]
    exact h
  · have hs : s ≠ "" ∧ s ≠ "." := not_or.mp hskip
    by_cases hup : s = ".."
    · subst hup
      cases kept with
      | nil =>
        cases absolute with
        | true => exact h
        | false => exact h.push hs rfl
      | cons last rest =>
        by_cases hlast : last = ".."
        · subst hlast
          exact h.push hs rfl
        · have hpop : PosixPath.keep absolute (last :: rest) ".." = rest := by
            simp [PosixPath.keep, hlast]
          rw [hpop]
          exact h.pop hlast
    · have hpush : PosixPath.keep absolute kept s = s :: kept := by
        simp [PosixPath.keep, hs.1, hs.2, hup]
      rw [hpush]
      exact h.push hs hpush

theorem stable_foldl_keep (h : Stable absolute kept) (segs : List String) :
    Stable absolute (segs.foldl (keep absolute) kept) := by
  induction segs generalizing kept with
  | nil => exact h
  | cons s segs ih => exact ih (h.keep s)

theorem stable_normalizeSegments (segs : List String) :
    Stable absolute (normalizeSegments absolute segs).reverse := by
  rw [normalizeSegments, List.reverse_reverse]
  exact stable_foldl_keep ⟨by simp, rfl⟩ segs

theorem normalizeSegments_idem (segs : List String) :
    normalizeSegments absolute (normalizeSegments absolute segs) =
      normalizeSegments absolute segs := by
  have hstable := (@stable_normalizeSegments absolute segs).again
  rw [List.reverse_reverse] at hstable
  rw [normalizeSegments, hstable, List.reverse_reverse]

theorem isName_keep (hkept : ∀ t ∈ kept, IsName t) (hslash : '/' ∉ s.toList) :
    ∀ t ∈ keep true kept s, IsName t := by
  intro t ht
  by_cases hskip : s = "" ∨ s = "."
  · rw [show keep true kept s = kept by simp [keep, hskip]] at ht
    exact hkept t ht
  · have hs : s ≠ "" ∧ s ≠ "." := not_or.mp hskip
    by_cases hup : s = ".."
    · subst hup
      cases kept with
      | nil => cases ht
      | cons last rest =>
        have hlast : last ≠ ".." := (hkept last List.mem_cons_self).ne_dotdot
        rw [show keep true (last :: rest) ".." = rest by simp [keep, hlast]] at ht
        exact hkept t (List.mem_cons_of_mem last ht)
    · have hname : IsName s := ⟨hs.1, hs.2, hup, hslash⟩
      rw [keep_name hname] at ht
      rcases List.mem_cons.mp ht with rfl | ht
      · exact hname
      · exact hkept t ht

variable {kept segs : List String}

theorem isName_foldl_keep (hkept : ∀ t ∈ kept, IsName t) (hslash : ∀ s ∈ segs, '/' ∉ s.toList) :
    ∀ t ∈ segs.foldl (keep true) kept, IsName t := by
  induction segs generalizing kept with
  | nil => exact hkept
  | cons s segs ih =>
    exact ih (isName_keep hkept (hslash s List.mem_cons_self))
      fun t ht => hslash t (List.mem_cons_of_mem s ht)

theorem mem_keep {s t : String} (ht : t ∈ keep absolute kept s) : t ∈ kept ∨ t = s := by
  by_cases hskip : s = "" ∨ s = "."
  · rw [show keep absolute kept s = kept by simp [keep, hskip]] at ht
    exact .inl ht
  · have hs : s ≠ "" ∧ s ≠ "." := not_or.mp hskip
    by_cases hup : s = ".."
    · subst hup
      cases kept with
      | nil =>
        cases absolute with
        | true => cases ht
        | false => exact .inr (List.mem_singleton.mp ht)
      | cons last rest =>
        by_cases hlast : last = ".."
        · rw [show keep absolute (last :: rest) ".." = ".." :: last :: rest by
            simp [keep, hlast]] at ht
          exact (List.mem_cons.mp ht).symm
        · rw [show keep absolute (last :: rest) ".." = rest by simp [keep, hlast]] at ht
          exact .inl (List.mem_cons_of_mem last ht)
    · rw [show keep absolute kept s = s :: kept by simp [keep, hs.1, hs.2, hup]] at ht
      exact (List.mem_cons.mp ht).symm

theorem slash_notMem_foldl_keep (hkept : ∀ t ∈ kept, '/' ∉ t.toList)
    (hslash : ∀ s ∈ segs, '/' ∉ s.toList) :
    ∀ t ∈ segs.foldl (keep absolute) kept, '/' ∉ t.toList := by
  induction segs generalizing kept with
  | nil => exact hkept
  | cons s segs ih =>
    apply ih
    · intro t ht
      rcases mem_keep ht with ht | rfl
      · exact hkept t ht
      · exact hslash t List.mem_cons_self
    · intro t ht
      exact hslash t (List.mem_cons_of_mem s ht)

theorem isSegment_normalizeSegments :
    ∀ s ∈ normalizeSegments absolute (segments path), IsSegment s := by
  intro s hs
  have hkept : s ∈ (segments path).foldl (keep absolute) [] := List.mem_reverse.mp hs
  constructor
  · have hstable := @stable_normalizeSegments absolute (segments path)
    exact (hstable.nonempty s (List.mem_reverse.mpr hs)).1
  · refine slash_notMem_foldl_keep (by simp) ?_ s hkept
    intro t ht
    exact slash_notMem_of_mem_segments ht

end

def lead (absolute : Bool) : String :=
  if absolute then "/" else ""

/-- The path ends in a name, so normalizing it drops nothing at its end. -/
def EndsInName (path : String) : Prop :=
  ∃ segs last, segments path = segs ++ [last] ∧ IsName last

theorem EndsInName.ne_empty (h : EndsInName path) : path ≠ "" := by
  rintro rfl
  obtain ⟨segs, last, hsegs, hlast⟩ := h
  rw [segments_empty] at hsegs
  have hmem : last ∈ [""] := by simp [hsegs]
  exact hlast.ne_empty (List.mem_singleton.mp hmem)

theorem EndsInName.no_trailing (h : EndsInName path) : path.toList.getLast? ≠ some '/' := by
  intro htrailing
  obtain ⟨front, hfront⟩ := List.getLast?_eq_some_iff.mp htrailing
  have hpath : path = String.ofList front ++ "/" := by
    apply String.toList_inj.mp
    simp [hfront]
  obtain ⟨segs, last, hsegs, hlast⟩ := h
  rw [hpath, segments_slash] at hsegs
  exact hlast.ne_empty (List.append_inj' hsegs rfl |>.2 |> List.cons.inj |>.1).symm

theorem EndsInName.below (hne : names ≠ []) (hnames : ∀ s ∈ names, IsName s) :
    EndsInName (path ++ "/" ++ joined names) := by
  refine ⟨segments path ++ names.dropLast, names.getLast hne, ?_, hnames _ (List.getLast_mem hne)⟩
  rw [segments_append_slash, segments_joined_names hne hnames, List.append_assoc,
    List.dropLast_append_getLast]

theorem normalize_endsInName (h : EndsInName path) :
    normalize path = lead (isAbsolute path) ++
      joined (normalizeSegments (isAbsolute path) (segments path)) := by
  obtain ⟨segs, last, hsegs, hlast⟩ := id h
  have hkept : normalizeSegments (isAbsolute path) (segments path) ≠ [] := by
    rw [hsegs, normalizeSegments_append_names (by simpa using hlast)]
    simp
  have htext := joined_ne_empty hkept isSegment_normalizeSegments
  unfold normalize lead
  rw [if_neg h.ne_empty]
  simp only [htext, decide_false, Bool.false_and, Bool.false_eq_true, if_false, h.no_trailing]
  cases isAbsolute path with
  | true => rfl
  | false => rw [if_neg (by simp), if_neg (by simp), String.empty_append]

theorem normalize_below (h : EndsInName path) (hne : names ≠ []) (hnames : ∀ s ∈ names, IsName s) :
    normalize (normalize path ++ "/" ++ joined names) = normalize path ++ "/" ++ joined names := by
  obtain ⟨segs, last, hsegs, hlast⟩ := id h
  have hnormal := normalize_endsInName h
  generalize hkept : normalizeSegments (isAbsolute path) (segments path) = kept at hnormal
  have hkeptNe : kept ≠ [] := by
    rw [← hkept, hsegs, normalizeSegments_append_names (by simpa using hlast)]
    simp
  have hkeptSegs : ∀ s ∈ kept, IsSegment s := hkept ▸ isSegment_normalizeSegments
  have hkeptSplit : segments (joined kept) = kept :=
    segments_joined hkeptNe fun s hs => (hkeptSegs s hs).slash
  have habs : isAbsolute (normalize path ++ "/" ++ joined names) = isAbsolute path := by
    rw [hnormal]
    cases isAbsolute path with
    | true => simp [lead, String.append_assoc, isAbsolute_slash_append]
    | false =>
      rw [lead, if_neg (by simp), String.empty_append, String.append_assoc,
        isAbsolute_append (joined_ne_empty hkeptNe hkeptSegs),
        isAbsolute_joined hkeptNe hkeptSegs]
  have hsplit : normalizeSegments (isAbsolute path)
      (segments (normalize path ++ "/" ++ joined names)) = kept ++ names := by
    rw [segments_append_slash, segments_joined_names hne hnames,
      normalizeSegments_append_names hnames, hnormal]
    have hagain : normalizeSegments (isAbsolute path) kept = kept := by
      rw [← hkept, normalizeSegments_idem]
    congr 1
    cases habsPath : isAbsolute path with
    | true =>
      rw [habsPath] at hagain
      have hcons : segments (lead true ++ joined kept) = "" :: kept := by
        have hsegs := segments_append_slash "" (joined kept)
        rwa [segments_empty, hkeptSplit] at hsegs
      rw [hcons, normalizeSegments_empty_cons, hagain]
    | false =>
      rw [habsPath] at hagain
      have hsame : segments (lead false ++ joined kept) = kept := by
        rwa [lead, if_neg (by simp), String.empty_append]
      rw [hsame, hagain]
  rw [normalize_endsInName (EndsInName.below hne hnames), habs, hsplit,
    joined_append hkeptNe hne, hnormal]
  simp only [String.append_assoc]

theorem normalize_names (hne : names ≠ []) (hnames : ∀ s ∈ names, IsName s) :
    normalize (joined names) = joined names := by
  have hends : EndsInName (joined names) := by
    refine ⟨names.dropLast, names.getLast hne, ?_, hnames _ (List.getLast_mem hne)⟩
    rw [segments_joined_names hne hnames, List.dropLast_append_getLast]
  rw [normalize_endsInName hends,
    isAbsolute_joined hne fun s hs => (hnames s hs).segment, segments_joined_names hne hnames,
    normalizeSegments_names hnames, lead, if_neg (by simp), String.empty_append]

theorem join_eq_normalize {paths : List String} (hne : paths ≠ [])
    (hpaths : ∀ p ∈ paths, p ≠ "") : join paths = normalize (joined paths) := by
  have hfilter : paths.filter (· ≠ "") = paths := by
    apply List.filter_eq_self.mpr
    simpa using hpaths
  rw [join]
  simp only [hfilter]
  rw [if_neg hne]

variable (cwd : WorkingDirectory)

theorem isName_resolvedSegments (paths : List String) :
    ∀ s ∈ resolvedSegments cwd paths, IsName s := by
  intro s hs
  refine isName_foldl_keep (by simp) ?_ s (List.mem_reverse.mp hs)
  intro t ht
  exact slash_notMem_of_mem_segments ht

theorem segments_resolvedText (root : String) :
    ∃ base, segments (resolvedText cwd [root]) = base ++ [""] ∧
      ∀ rel, rel ≠ "" → isAbsolute rel = false →
        segments (resolvedText cwd [root, rel]) = base ++ segments rel ++ [""] := by
  by_cases hroot : root = ""
  · subst hroot
    refine ⟨segments cwd.path, ?_, ?_⟩
    · simp [resolvedText, collected, segments_slash]
    · intro rel hrel habs
      simp [resolvedText, collected, hrel, habs, segments_slash, segments_append_slash]
  · cases habsRoot : isAbsolute root with
    | true =>
      refine ⟨segments root, ?_, ?_⟩
      · simp [resolvedText, collected, hroot, habsRoot, segments_slash]
      · intro rel hrel habs
        simp [resolvedText, collected, hroot, habsRoot, hrel, habs, segments_slash,
          segments_append_slash]
    | false =>
      refine ⟨segments cwd.path ++ segments root, ?_, ?_⟩
      · simp [resolvedText, collected, hroot, habsRoot, segments_slash, segments_append_slash]
      · intro rel hrel habs
        simp [resolvedText, collected, hroot, habsRoot, hrel, habs, segments_slash,
          segments_append_slash]

theorem resolvedSegments_below (root : String) (hne : names ≠ []) (hnames : ∀ s ∈ names, IsName s) :
    resolvedSegments cwd [root, joined names] = resolvedSegments cwd [root] ++ names := by
  obtain ⟨base, hroot, hbelow⟩ := segments_resolvedText cwd root
  have hsegs : ∀ s ∈ names, IsSegment s := fun s hs => (hnames s hs).segment
  have hrel := hbelow (joined names) (joined_ne_empty hne hsegs) (isAbsolute_joined hne hsegs)
  rw [segments_joined_names hne hnames] at hrel
  rw [resolvedSegments, hrel, normalizeSegments_append_empty,
    normalizeSegments_append_names hnames, resolvedSegments, hroot,
    normalizeSegments_append_empty]

theorem resolvedSegments_slash_joined (hnames : ∀ s ∈ names, IsName s) :
    resolvedSegments cwd ["/" ++ joined names] = names := by
  have hne : "/" ++ joined names ≠ "" := by simp
  have htext : resolvedText cwd ["/" ++ joined names] = "" ++ "/" ++ joined names ++ "/" ++ "" := by
    simp [resolvedText, collected, hne, isAbsolute_slash_append]
  have hsegs : segments ("" ++ "/" ++ joined names) = "" :: segments (joined names) := by
    rw [segments_append_slash]
    simp
  rw [resolvedSegments, htext, segments_append_slash, hsegs, segments_empty,
    normalizeSegments_append_empty, normalizeSegments_empty_cons]
  by_cases hempty : names = []
  · subst hempty
    rfl
  · rw [segments_joined_names hempty hnames, normalizeSegments_names hnames]

theorem resolvedSegments_resolve (paths : List String) :
    resolvedSegments cwd [resolve cwd paths] = resolvedSegments cwd paths :=
  resolvedSegments_slash_joined cwd (isName_resolvedSegments cwd paths)

theorem resolve_resolve (paths : List String) :
    resolve cwd [resolve cwd paths] = resolve cwd paths := by
  rw [resolve, resolvedSegments_resolve, ← resolve]

theorem relativeSegments_append (source names : List String) :
    relativeSegments source (source ++ names) = names := by
  induction source with
  | nil => cases names <;> rfl
  | cons s source ih => simpa [relativeSegments] using ih

end Portuni.Library.PosixPath
