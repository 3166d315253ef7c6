import Portuni.Library.PosixPath

/-!
Directories as lists of names: what a path names when it is looked up from a directory, when one
directory lies in another, and which of several directories is the deepest one around a path.
-/

namespace Portuni.Library.PosixPath

section

def namesOf (path : String) : List String := normalizeSegments true (segments path)

/-- The names from the root down to what a path names that is looked up from a directory. -/
def namesFrom (base : List String) (path : String) : List String :=
  if isAbsolute path then namesOf path else normalizeSegments true (base ++ segments path)

variable {base names : List String} {path : String}

theorem namesFrom_of_absolute (base : List String) (h : isAbsolute path = true) :
    namesFrom base path = namesOf path := if_pos h

theorem isName_namesOf (path : String) : ∀ s ∈ namesOf path, IsName s := by
  intro s hs
  refine isName_foldl_keep (by simp) (fun t ht => ?_) s (List.mem_reverse.mp hs)
  exact slash_notMem_of_mem_segments ht

theorem normalizeSegments_append (segs more : List String) :
    normalizeSegments true (segs ++ more) =
      normalizeSegments true (normalizeSegments true segs ++ more) := by
  have hstable := (@stable_normalizeSegments true segs).again
  rw [List.reverse_reverse] at hstable
  have hsegs : (normalizeSegments true segs).reverse = segs.foldl (keep true) [] := by
    rw [normalizeSegments, List.reverse_reverse]
  rw [normalizeSegments, normalizeSegments, List.foldl_append, List.foldl_append, hstable, hsegs]

theorem resolvedSegments_singleton (cwd : WorkingDirectory) (path : String) :
    resolvedSegments cwd [path] = namesFrom (namesOf cwd.path) path := by
  by_cases hempty : path = ""
  · subst hempty
    have htext : resolvedText cwd [""] = cwd.path ++ "/" := by simp [resolvedText, collected]
    have hnames := isName_namesOf cwd.path
    rw [resolvedSegments, htext, segments_slash, normalizeSegments_append_empty, namesFrom,
      if_neg (by simp [isAbsolute]), segments_empty, normalizeSegments_append_empty,
      normalizeSegments_names hnames]
    rfl
  · cases habs : isAbsolute path with
    | true =>
      have htext : resolvedText cwd [path] = path ++ "/" := by
        simp [resolvedText, collected, hempty, habs]
      rw [resolvedSegments, htext, segments_slash, normalizeSegments_append_empty, namesFrom,
        if_pos habs, namesOf]
    | false =>
      have htext : resolvedText cwd [path] = cwd.path ++ "/" ++ path ++ "/" := by
        simp [resolvedText, collected, hempty, habs, String.append_assoc]
      rw [resolvedSegments, htext, segments_slash, normalizeSegments_append_empty,
        segments_append_slash, namesFrom, if_neg (by simp [habs]), namesOf,
        ← normalizeSegments_append]

theorem isName_namesFrom (base : List String) (path : String) (hbase : ∀ s ∈ base, IsName s) :
    ∀ s ∈ namesFrom base path, IsName s := by
  unfold namesFrom
  split
  · exact isName_namesOf path
  · intro s hs
    refine isName_foldl_keep (by simp) (fun t ht => ?_) s (List.mem_reverse.mp hs)
    rcases List.mem_append.mp ht with ht | ht
    · exact (hbase t ht).slash
    · exact slash_notMem_of_mem_segments ht

theorem namesOf_slash_joined (hnames : ∀ s ∈ names, IsName s) :
    namesOf ("/" ++ joined names) = names := by
  have hcwd : isAbsolute "/" = true := rfl
  have hresolved := resolvedSegments_slash_joined ⟨"/", hcwd⟩ hnames
  rwa [resolvedSegments_singleton, namesFrom, if_pos (isAbsolute_slash_append _)] at hresolved

theorem keep_dotdot (hnames : ∀ s ∈ names, IsName s) :
    (keep true names.reverse "..").reverse = names.dropLast := by
  rcases List.eq_nil_or_concat names with rfl | ⟨front, last, rfl⟩
  · simp [keep]
  · have hlast : last ≠ ".." := (hnames last (by simp)).ne_dotdot
    simp [keep, hlast]

theorem exists_up_down {segs : List String} (hsegs : ∀ s ∈ segs, '/' ∉ s.toList) :
    ∃ up down, (∀ s ∈ down, IsName s) ∧ ∀ base, (∀ s ∈ base, IsName s) → up ≤ base.length →
      normalizeSegments true (base ++ segs) = base.take (base.length - up) ++ down := by
  induction segs using List.reverseRecOn with
  | nil =>
    refine ⟨0, [], by simp, fun base hbase _ => ?_⟩
    simp [normalizeSegments_names hbase]
  | append_singleton segs s ih =>
    obtain ⟨up, down, hdown, hshift⟩ := ih fun t ht => hsegs t (List.mem_append_left _ ht)
    have hlast : ∀ base, normalizeSegments true (base ++ (segs ++ [s])) =
        (keep true (normalizeSegments true (base ++ segs)).reverse s).reverse := by
      intro base
      rw [normalizeSegments, ← List.append_assoc, List.foldl_append, normalizeSegments,
        List.reverse_reverse]
      rfl
    by_cases hskip : s = "" ∨ s = "."
    · refine ⟨up, down, hdown, fun base hbase hup => ?_⟩
      have hkeep : ∀ kept, keep true kept s = kept := fun kept => by simp [keep, hskip]
      rw [hlast, hkeep, List.reverse_reverse, hshift base hbase hup]
    by_cases hdots : s = ".."
    · subst hdots
      have hup' : ∀ base, (∀ s ∈ base, IsName s) → up ≤ base.length →
          normalizeSegments true (base ++ (segs ++ [".."])) =
            (base.take (base.length - up) ++ down).dropLast := by
        intro base hbase hup
        rw [hlast, hshift base hbase hup, keep_dotdot]
        intro t ht
        rcases List.mem_append.mp ht with ht | ht
        · exact hbase t (List.mem_of_mem_take ht)
        · exact hdown t ht
      rcases List.eq_nil_or_concat down with rfl | ⟨front, last, rfl⟩
      · refine ⟨up + 1, [], by simp, fun base hbase hup => ?_⟩
        rw [hup' base hbase (by omega), List.append_nil, List.append_nil, List.dropLast_eq_take,
          List.take_take, List.length_take]
        congr 1
        omega
      · refine ⟨up, front, fun t ht => hdown t (by simp [ht]), fun base hbase hup => ?_⟩
        rw [hup' base hbase hup, List.concat_eq_append, ← List.append_assoc, List.dropLast_concat]
    · have hname : IsName s := ⟨fun h => hskip (.inl h), fun h => hskip (.inr h), hdots,
        hsegs s (by simp)⟩
      refine ⟨up, down ++ [s], ?_, fun base hbase hup => ?_⟩
      · intro t ht
        rcases List.mem_append.mp ht with ht | ht
        · exact hdown t ht
        · exact List.mem_singleton.mp ht ▸ hname
      · rw [hlast, keep_name hname, hshift base hbase hup]
        simp

end

section

variable {outer inner : List String}

/-- The test on texts: the same path, or one that goes on behind a separator. -/
def withinText (parent child : String) : Bool :=
  parent = child ||
    (if parent.toList.getLast? = some '/' then parent else parent ++ "/").toList.isPrefixOf
      child.toList

theorem segments_slash_joined (hne : outer ≠ []) (houter : ∀ s ∈ outer, IsName s) :
    segments ("/" ++ joined outer) = "" :: outer := by
  have hsegs := segments_append_slash "" (joined outer)
  rwa [segments_empty, segments_joined_names hne houter, String.empty_append] at hsegs

theorem no_trailing_slash_joined (hne : outer ≠ []) (houter : ∀ s ∈ outer, IsName s) :
    ("/" ++ joined outer).toList.getLast? ≠ some '/' := by
  refine EndsInName.no_trailing ⟨"" :: outer.dropLast, outer.getLast hne, ?_,
    houter _ (List.getLast_mem hne)⟩
  rw [segments_slash_joined hne houter, List.cons_append, List.dropLast_append_getLast]

theorem withinText_iff (houter : ∀ s ∈ outer, IsName s) (hinner : ∀ s ∈ inner, IsName s) :
    withinText ("/" ++ joined outer) ("/" ++ joined inner) = true ↔ outer <+: inner := by
  by_cases hne : outer = []
  · subst hne
    simp [withinText, List.isPrefixOf]
  rw [withinText, if_neg (no_trailing_slash_joined hne houter), Bool.or_eq_true, decide_eq_true_eq,
    List.isPrefixOf_iff_prefix]
  constructor
  · rintro (heq | ⟨rest, hrest⟩)
    · have hnames := congrArg namesOf heq
      rw [namesOf_slash_joined houter, namesOf_slash_joined hinner] at hnames
      exact hnames ▸ List.prefix_rfl
    · have htext : "/" ++ joined outer ++ "/" ++ String.ofList rest = "/" ++ joined inner := by
        apply String.toList_inj.mp
        rw [← hrest]
        simp
      have hsegs := congrArg segments htext
      rw [segments_append_slash, segments_slash_joined hne houter] at hsegs
      by_cases hinnerNe : inner = []
      · subst hinnerNe
        have hslash : segments ("/" ++ joined []) = ["", ""] := rfl
        rw [hslash, List.cons_append] at hsegs
        have hlist := (List.cons.inj hsegs).2
        have hlength := congrArg List.length hlist
        have hpos := List.length_pos_iff.mpr hne
        have hrestPos := List.length_pos_iff.mpr (segments_ne_nil (String.ofList rest))
        simp only [List.length_append, List.length_cons, List.length_nil] at hlength
        omega
      · rw [segments_slash_joined hinnerNe hinner, List.cons_append] at hsegs
        exact ⟨_, (List.cons.inj hsegs).2⟩
  · rintro ⟨rest, rfl⟩
    by_cases hrest : rest = []
    · subst hrest
      exact .inl (by rw [List.append_nil])
    · refine .inr ⟨(joined rest).toList, ?_⟩
      rw [joined_append hne hrest]
      simp

theorem isPrefixOf_slash_iff (hne : outer ≠ []) (houter : ∀ s ∈ outer, IsName s)
    (hinner : ∀ s ∈ inner, IsName s) :
    ("/" ++ joined outer ++ "/").toList.isPrefixOf ("/" ++ joined inner).toList = true ↔
      outer <+: inner ∧ outer ≠ inner := by
  have hwithin := withinText_iff houter hinner
  rw [withinText, if_neg (no_trailing_slash_joined hne houter), Bool.or_eq_true,
    decide_eq_true_eq] at hwithin
  constructor
  · intro hbelow
    refine ⟨hwithin.mp (.inr hbelow), fun heq => ?_⟩
    subst heq
    have hlength := (List.isPrefixOf_iff_prefix.mp hbelow).length_le
    rw [String.toList_append, List.length_append] at hlength
    exact absurd hlength (by simp)
  · rintro ⟨hbelow, hdistinct⟩
    refine (hwithin.mpr hbelow).resolve_left fun htexts => hdistinct ?_
    have hnames := congrArg namesOf htexts
    rwa [namesOf_slash_joined houter, namesOf_slash_joined hinner] at hnames

end

theorem exists_freshName (texts : List String) : ∃ s, IsName s ∧ s ∉ texts := by
  obtain ⟨bound, hbound⟩ : ∃ bound, ∀ t ∈ texts, t.length ≤ bound := by
    induction texts with
    | nil => exact ⟨0, by simp⟩
    | cons t texts ih =>
      obtain ⟨bound, hbound⟩ := ih
      refine ⟨bound + t.length, fun u hu => ?_⟩
      rcases List.mem_cons.mp hu with rfl | hu
      · omega
      · exact Nat.le_add_right_of_le (hbound u hu)
  have hlength : (String.ofList (List.replicate (bound + 3) 'x')).length = bound + 3 := by
    rw [← String.length_toList, String.toList_ofList, List.length_replicate]
  refine ⟨String.ofList (List.replicate (bound + 3) 'x'), ⟨?_, ?_, ?_, ?_⟩, fun hmem => ?_⟩
  · exact fun heq => by simp [heq] at hlength
  · intro heq
    rw [heq, show ("." : String).length = 1 from rfl] at hlength
    omega
  · intro heq
    rw [heq, show (".." : String).length = 2 from rfl] at hlength
    omega
  · simp
  · have := hbound _ hmem
    omega

theorem prefix_of_fresh {e base down : List String} {fresh : String} (hfresh : fresh ∉ e)
    (h : e <+: base ++ fresh :: down) : e <+: base := by
  rcases List.prefix_or_prefix_of_prefix h (List.prefix_append base (fresh :: down)) with hle | hle
  · exact hle
  · obtain ⟨rest, rfl⟩ := hle
    cases rest with
    | nil => simp
    | cons s rest =>
      have hrest := (List.prefix_append_right_inj base).mp h
      exact absurd (List.mem_append_right _ ((List.cons_prefix_cons.mp hrest).1 ▸ by simp)) hfresh

def directory (names : List String) : WorkingDirectory :=
  ⟨"/" ++ joined names, isAbsolute_slash_append _⟩

theorem exists_directory {path : String} (hpath : isAbsolute path = false)
    (dirs : List (List String)) {base : List String} (hbase : ∀ s ∈ base, IsName s) :
    ∃ (wd : WorkingDirectory) (fresh : String) (down : List String),
      (∀ e ∈ dirs, fresh ∉ e) ∧ namesFrom (namesOf wd.path) path = base ++ fresh :: down := by
  obtain ⟨fresh, hfresh, hnew⟩ := exists_freshName dirs.flatten
  have hsegs : ∀ s ∈ segments path, '/' ∉ s.toList := fun s hs => slash_notMem_of_mem_segments hs
  obtain ⟨up, down, -, hshift⟩ := exists_up_down hsegs
  have hnames : ∀ s ∈ base ++ List.replicate (up + 1) fresh, IsName s := by
    intro s hs
    rcases List.mem_append.mp hs with hs | hs
    · exact hbase s hs
    · exact (List.mem_replicate.mp hs).2 ▸ hfresh
  have htake : (base ++ List.replicate (up + 1) fresh).take
      ((base ++ List.replicate (up + 1) fresh).length - up) = base ++ [fresh] := by
    have hsplit : base ++ List.replicate (up + 1) fresh =
        (base ++ [fresh]) ++ List.replicate up fresh := by
      rw [List.replicate_succ, List.append_assoc, List.singleton_append]
    have hlength : (base ++ List.replicate (up + 1) fresh).length - up =
        (base ++ [fresh]).length := by
      rw [List.length_append, List.length_replicate, List.length_append, List.length_singleton]
      omega
    rw [hlength, hsplit, List.take_left]
  have hdeep : up ≤ (base ++ List.replicate (up + 1) fresh).length := by
    rw [List.length_append, List.length_replicate]
    omega
  refine ⟨directory (base ++ List.replicate (up + 1) fresh), fresh, down, ?_, ?_⟩
  · exact fun e he hmem => hnew (List.mem_flatten.mpr ⟨e, he, hmem⟩)
  · rw [directory, namesOf_slash_joined hnames, namesFrom, if_neg (by simp [hpath]),
      hshift _ hnames hdeep, htake, List.append_assoc, List.singleton_append]

variable {α : Type*} {dirs : List (List α)} {path d e : List α}

/-- `d` is the deepest of the directories around `path`. -/
structure Deepest (dirs : List (List α)) (path d : List α) : Prop where
  mem : d ∈ dirs
  around : d <+: path
  deepest : ∀ e ∈ dirs, e <+: path → e.length ≤ d.length

theorem deepest_iff : Deepest dirs path d ↔
    d ∈ dirs ∧ d <+: path ∧ ∀ e ∈ dirs, e <+: path → e.length ≤ d.length :=
  ⟨fun h => ⟨h.mem, h.around, h.deepest⟩, fun ⟨hmem, haround, hdeepest⟩ =>
    ⟨hmem, haround, hdeepest⟩⟩

instance [DecidableEq α] : Decidable (Deepest dirs path d) := decidable_of_iff' _ deepest_iff

theorem Deepest.unique (h : Deepest dirs path d) (h' : Deepest dirs path e) : d = e := by
  have hle := h'.deepest d h.mem h.around
  have hge := h.deepest e h'.mem h'.around
  exact (List.prefix_of_prefix_length_le h.around h'.around hle).eq_of_length
    (Nat.le_antisymm hle hge)

theorem Deepest.last (haround : e <+: path)
    (hdeepest : ∀ d ∈ dirs, d <+: path → d.length ≤ e.length) : Deepest (dirs ++ [e]) path e := by
  refine ⟨by simp, haround, fun d hd hpath => ?_⟩
  rcases List.mem_append.mp hd with hd | hd
  · exact hdeepest d hd hpath
  · exact Nat.le_of_eq (congrArg List.length (List.mem_singleton.mp hd))

theorem Deepest.kept (h : Deepest dirs path d) (hle : e <+: path → e.length ≤ d.length) :
    Deepest (dirs ++ [e]) path d := by
  refine ⟨List.mem_append_left _ h.mem, h.around, fun c hc hpath => ?_⟩
  rcases List.mem_append.mp hc with hc | hc
  · exact h.deepest c hc hpath
  · rw [List.mem_singleton.mp hc] at hpath ⊢
    exact hle hpath

theorem exists_deepest (h : e ∈ dirs) (haround : e <+: path) : ∃ d, Deepest dirs path d := by
  induction dirs generalizing e with
  | nil => cases h
  | cons c dirs ih =>
    by_cases hmore : ∃ e ∈ dirs, e <+: path ∧ (c <+: path → c.length ≤ e.length)
    · obtain ⟨e', he', haround', hc⟩ := hmore
      obtain ⟨d, hd⟩ := ih he' haround'
      refine ⟨d, List.mem_cons_of_mem _ hd.mem, hd.around, fun x hx hpath => ?_⟩
      rcases List.mem_cons.mp hx with rfl | hx
      · exact Nat.le_trans (hc hpath) (hd.deepest e' he' haround')
      · exact hd.deepest x hx hpath
    · have hc : c <+: path := by
        rcases List.mem_cons.mp h with rfl | h
        · exact haround
        · by_contra hnot
          exact hmore ⟨e, h, haround, fun hc => absurd hc hnot⟩
      refine ⟨c, List.mem_cons_self, hc, fun x hx hpath => ?_⟩
      rcases List.mem_cons.mp hx with rfl | hx
      · exact Nat.le_refl _
      · by_contra hlt
        exact hmore ⟨x, hx, hpath, fun _ => by omega⟩

end Portuni.Library.PosixPath
