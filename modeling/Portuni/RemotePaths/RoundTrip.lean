import Portuni.CentralRetry.Model
import Portuni.Library.PosixPath

/-!
Remote paths and mirror paths as the text the code builds and parses, on a
POSIX platform. A parser splits at the slash by itself, so the segment level is
reached only through the text.
-/

namespace Portuni.RemotePaths

open Files (NodeInfo FileSection)
open Library.PosixPath

section

variable (cwd : WorkingDirectory)

def startsWith (text start : String) : Bool :=
  start.toList.isPrefixOf text.toList

structure PathTraversal where
  attempted : String
  root : String

def isInside (root candidate : String) : Bool :=
  let rootResolved := resolve cwd [root]
  let targetResolved := resolve cwd [candidate]
  targetResolved = rootResolved || startsWith targetResolved (rootResolved ++ "/")

def ensureUnderRoot (root candidate : String) : Except PathTraversal String :=
  let absolute := if isAbsolute candidate then candidate else resolve cwd [root, candidate]
  if isInside cwd root absolute then .ok (resolve cwd [absolute])
  else .error ⟨absolute, resolve cwd [root]⟩

def assertSafeRelativePath (rel ctx : String) : Except String Unit :=
  if rel = "" then .error (ctx ++ ": empty path not allowed")
  else if isAbsolute rel then .error (ctx ++ ": absolute path not allowed: " ++ rel)
  else forM (segments rel) (Files.assertSafeSegment ctx)

def buildNodeRoot (n : NodeInfo) : Except String String := do
  match n.orgSyncKey with
  | some key => Files.assertSafeSegment "buildNodeRoot.orgSyncKey" key
  | none => pure ()
  Files.assertSafeSegment "buildNodeRoot.nodeSyncKey" n.nodeSyncKey
  if n.nodeType = "organization" then return n.orgSyncKey.getD n.nodeSyncKey
  else return join (n.orgSyncKey.toList ++ [Files.typePlural n.nodeType, n.nodeSyncKey])

structure BuildRemotePathArgs extends NodeInfo where
  fileSection : String
  subpath : Option String
  filename : String
deriving DecidableEq

def buildRemotePath (a : BuildRemotePathArgs) : Except String String := do
  if FileSection.ofSegment a.fileSection = none then
    throw ("buildRemotePath: invalid section " ++ a.fileSection.quote)
  Files.assertSafeSegment "buildRemotePath.filename" a.filename
  match a.subpath with
  | some sub => assertSafeRelativePath sub "buildRemotePath.subpath"
  | none => pure ()
  let root ← buildNodeRoot a.toNodeInfo
  return join (root :: a.fileSection :: a.subpath.toList ++ [a.filename])

structure MirrorSubpathResult where
  fileSection : String
  subpath : Option String
  filename : String

def subpathFromMirror (mirrorRoot absolutePath : String) : Option MirrorSubpathResult :=
  if !isInside cwd mirrorRoot absolutePath then none
  else
    let rel := relative cwd mirrorRoot absolutePath
    if startsWith rel ".." || rel = "" then none
    else
      let parts := segments rel
      let fileSection := parts.headD ""
      let filename := parts.getLastD ""
      let middle := parts.tail.dropLast
      if FileSection.ofSegment fileSection = none then none
      else if (middle ++ [filename]).any fun seg => seg = "" || seg = "." || seg = ".." then none
      else some ⟨fileSection, if middle = [] then none else some (joined middle), filename⟩

def deriveLocalPath (mirrorRoot nodeRoot remotePath : String) : Except String String :=
  if !startsWith remotePath (nodeRoot ++ "/") then
    .error ("deriveLocalPath: remotePath " ++ remotePath.quote ++
      " does not start with nodeRoot " ++ nodeRoot.quote)
  else do
    let remainder := String.ofList (remotePath.toList.drop (nodeRoot ++ "/").toList.length)
    assertSafeRelativePath remainder "deriveLocalPath.remotePath"
    match ensureUnderRoot cwd mirrorRoot remainder with
    | .ok localPath => return localPath
    | .error _ =>
      throw ("deriveLocalPath: composed path escapes mirror root (" ++ mirrorRoot ++ "): " ++
        remotePath)

def safeMirrorJoin (mirrorRoot : String) (segs : List String) : Except String String := do
  forM segs fun seg =>
    if seg = "" then pure () else assertSafeRelativePath seg "safeMirrorJoin.segment"
  match ensureUnderRoot cwd mirrorRoot (join segs) with
  | .ok localPath => return localPath
  | .error _ =>
    throw ("safeMirrorJoin: composed path escapes mirror root (" ++ mirrorRoot ++ ")")

def parseRelPath (relPath : String) : Except CentralRetry.RequestError MirrorSubpathResult :=
  (CentralRetry.parseRelPath (segments relPath)).map fun parsed =>
    ⟨parsed.1.segment, parsed.2.1.map joined, parsed.2.2⟩

end

structure SafeSegment (s : String) : Prop extends IsName s where
  backslash : '\\' ∉ s.toList
  nul : '\x00' ∉ s.toList

theorem assertSafeSegment_ok_iff {ctx s : String} :
    Files.assertSafeSegment ctx s = .ok () ↔ SafeSegment s := by
  unfold Files.assertSafeSegment Files.unsafeSegment
  constructor
  · intro h
    split_ifs at h with hslash hdot hchars
    have hdots : (s ≠ "" ∧ s ≠ ".") ∧ s ≠ ".." := by
      simpa [not_or] using hdot
    simp only [List.any_eq_true, decide_eq_true_eq, not_exists, not_and, Bool.or_eq_true,
      not_or] at hslash hchars
    refine ⟨⟨hdots.1.1, hdots.1.2, hdots.2, fun hmem => hslash _ hmem rfl⟩, ?_, ?_⟩
    · intro hmem
      exact (hchars _ hmem).1 rfl
    · intro hmem
      exact (hchars _ hmem).2 rfl
  · intro h
    have hslash : ¬ s.toList.any (· = '/') = true := by
      simpa using h.slash
    have hdot : ¬ (decide (s = "") || decide (s = ".") || decide (s = "..")) = true := by
      simp [h.ne_empty, h.ne_dot, h.ne_dotdot]
    have hchars : ¬ (s.toList.any fun c => c = '\\' || c = '\x00') = true := by
      simp only [List.any_eq_true, decide_eq_true_eq, Bool.or_eq_true, not_exists, not_and, not_or]
      intro c hc
      exact ⟨fun heq => h.backslash (heq ▸ hc), fun heq => h.nul (heq ▸ hc)⟩
    rw [if_neg hslash, if_neg hdot, if_neg hchars]

theorem ok_of_bind {α β : Type} {x : Except String α} {f : α → Except String β} {b : β}
    (h : (x >>= f) = .ok b) : ∃ a, x = .ok a ∧ f a = .ok b := by
  cases x with
  | error e => cases h
  | ok a => exact ⟨a, rfl, h⟩

theorem forM_ok_iff {f : String → Except String Unit} {segs : List String} :
    forM segs f = .ok () ↔ ∀ s ∈ segs, f s = .ok () := by
  induction segs with
  | nil => simp [pure, Except.pure]
  | cons s segs ih =>
    rw [List.forM_cons]
    cases hs : f s with
    | error e => simp [hs, bind, Except.bind]
    | ok u => simpa [hs, bind, Except.bind] using ih

theorem assertSafeRelativePath_ok_iff {rel ctx : String} :
    assertSafeRelativePath rel ctx = .ok () ↔ ∀ s ∈ segments rel, SafeSegment s := by
  unfold assertSafeRelativePath
  constructor
  · intro h
    split_ifs at h
    intro s hs
    exact assertSafeSegment_ok_iff.mp (forM_ok_iff.mp h s hs)
  · intro h
    have hne : rel ≠ "" := by
      rintro rfl
      exact (h "" (by simp)).ne_empty rfl
    have habs : ¬ isAbsolute rel = true := by
      intro habs
      obtain ⟨rest, rfl⟩ := isAbsolute_iff.mp habs
      have hsegs := segments_append_slash "" rest
      rw [String.empty_append, segments_empty] at hsegs
      exact (h "" (by simp [hsegs])).ne_empty rfl
    rw [if_neg hne, if_neg habs]
    exact forM_ok_iff.mpr fun s hs => assertSafeSegment_ok_iff.mpr (h s hs)

open Files (NodeInfo FileSection)
open Library.PosixPath

/-- `path` lies below `root`, and only proper names lead there. -/
def StrictlyUnder (root path : String) : Prop :=
  ∃ names, names ≠ [] ∧ (∀ s ∈ names, SafeSegment s) ∧ path = root ++ "/" ++ joined names

section

variable {cwd : WorkingDirectory} {mirrorRoot : String} {names : List String}

theorem startsWith_append (a b : String) : startsWith (a ++ b) a = true := by
  simp [startsWith]

theorem startsWith_iff {text start : String} :
    startsWith text start = true ↔ ∃ rest, text = start ++ rest := by
  constructor
  · intro h
    obtain ⟨rest, hrest⟩ := List.isPrefixOf_iff_prefix.mp h
    refine ⟨String.ofList rest, ?_⟩
    apply String.toList_inj.mp
    simp [hrest]
  · rintro ⟨rest, rfl⟩
    exact startsWith_append start rest

theorem resolve_below (hne : names ≠ []) (hnames : ∀ s ∈ names, IsName s) :
    resolve cwd [mirrorRoot, joined names] =
      "/" ++ joined (resolvedSegments cwd [mirrorRoot] ++ names) := by
  rw [resolve, resolvedSegments_below cwd mirrorRoot hne hnames]

theorem isName_below (hnames : ∀ s ∈ names, IsName s) :
    ∀ s ∈ resolvedSegments cwd [mirrorRoot] ++ names, IsName s := by
  intro s hs
  rcases List.mem_append.mp hs with hs | hs
  · exact isName_resolvedSegments cwd _ s hs
  · exact hnames s hs

theorem resolve_slash_joined (hnames : ∀ s ∈ names, IsName s) :
    resolve cwd ["/" ++ joined names] = "/" ++ joined names := by
  rw [resolve, resolvedSegments_slash_joined cwd hnames]

variable (hroot : resolve cwd [mirrorRoot] ≠ "/")

include hroot

theorem resolvedSegments_ne_nil : resolvedSegments cwd [mirrorRoot] ≠ [] := by
  intro h
  apply hroot
  rw [resolve, h]
  rfl

theorem below_root (hne : names ≠ []) :
    "/" ++ joined (resolvedSegments cwd [mirrorRoot] ++ names) =
      resolve cwd [mirrorRoot] ++ "/" ++ joined names := by
  rw [joined_append (resolvedSegments_ne_nil hroot) hne, resolve]
  simp only [String.append_assoc]

theorem isInside_below (hne : names ≠ []) (hnames : ∀ s ∈ names, IsName s) :
    isInside cwd mirrorRoot (resolve cwd [mirrorRoot] ++ "/" ++ joined names) = true := by
  have htarget : resolve cwd [resolve cwd [mirrorRoot] ++ "/" ++ joined names] =
      resolve cwd [mirrorRoot] ++ "/" ++ joined names := by
    rw [← below_root hroot hne]
    exact resolve_slash_joined (isName_below hnames)
  simp only [isInside, htarget, startsWith_append, Bool.or_true]

omit hroot

theorem root_ne_slash_of_isInside (hne : names ≠ []) (hnames : ∀ s ∈ names, IsName s)
    (hinside : isInside cwd mirrorRoot
      ("/" ++ joined (resolvedSegments cwd [mirrorRoot] ++ names)) = true) :
    resolve cwd [mirrorRoot] ≠ "/" := by
  intro hroot
  have hsegs : ∀ s ∈ resolvedSegments cwd [mirrorRoot] ++ names, IsSegment s :=
    fun s hs => (isName_below hnames s hs).segment
  have hall : resolvedSegments cwd [mirrorRoot] ++ names ≠ [] := by simp [hne]
  simp only [isInside, resolve_slash_joined (isName_below hnames), hroot, Bool.or_eq_true,
    decide_eq_true_eq] at hinside
  rcases hinside with heq | hstarts
  · have hempty : joined (resolvedSegments cwd [mirrorRoot] ++ names) = "" := by
      apply String.toList_inj.mp
      simpa using congrArg String.toList heq
    exact joined_ne_empty hall hsegs hempty
  · obtain ⟨rest, hrest⟩ := startsWith_iff.mp hstarts
    have htail : joined (resolvedSegments cwd [mirrorRoot] ++ names) = "/" ++ rest := by
      apply String.toList_inj.mp
      simpa using congrArg String.toList hrest
    have habs := isAbsolute_joined hall hsegs
    rw [htail, isAbsolute_slash_append] at habs
    cases habs

theorem ensureUnderRoot_below (hroot : resolve cwd [mirrorRoot] ≠ "/") (hne : names ≠ [])
    (hnames : ∀ s ∈ names, IsName s) :
    ensureUnderRoot cwd mirrorRoot (joined names) =
      .ok (resolve cwd [mirrorRoot] ++ "/" ++ joined names) := by
  have hrel := isAbsolute_joined hne fun s hs => (hnames s hs).segment
  have habs : resolve cwd [mirrorRoot, joined names] =
      resolve cwd [mirrorRoot] ++ "/" ++ joined names := by
    rw [resolve_below hne hnames, below_root hroot hne]
  have hagain : resolve cwd [resolve cwd [mirrorRoot] ++ "/" ++ joined names] =
      resolve cwd [mirrorRoot] ++ "/" ++ joined names := by
    rw [← below_root hroot hne]
    exact resolve_slash_joined (isName_below hnames)
  simp only [ensureUnderRoot, hrel, Bool.false_eq_true, if_false, habs,
    isInside_below hroot hne hnames, if_true, hagain]

theorem ensureUnderRoot_ok {localPath : String} (hne : names ≠ []) (hnames : ∀ s ∈ names, IsName s)
    (h : ensureUnderRoot cwd mirrorRoot (joined names) = .ok localPath) :
    localPath = resolve cwd [mirrorRoot] ++ "/" ++ joined names := by
  have hrel := isAbsolute_joined hne fun s hs => (hnames s hs).segment
  have hroot : resolve cwd [mirrorRoot] ≠ "/" := by
    simp only [ensureUnderRoot, hrel, Bool.false_eq_true, if_false, resolve_below hne hnames] at h
    split at h
    · rename_i hinside
      exact root_ne_slash_of_isInside hne hnames hinside
    · cases h
  rw [ensureUnderRoot_below hroot hne hnames] at h
  exact (Except.ok.inj h).symm

theorem isName_of_safe (hsafe : ∀ s ∈ names, SafeSegment s) : ∀ s ∈ names, IsName s :=
  fun s hs => (hsafe s hs).toIsName

theorem assertSafeRelativePath_names {ctx : String} (hne : names ≠ [])
    (hsafe : ∀ s ∈ names, SafeSegment s) : assertSafeRelativePath (joined names) ctx = .ok () := by
  apply assertSafeRelativePath_ok_iff.mpr
  rwa [segments_joined_names hne (isName_of_safe hsafe)]

theorem remainder_append (nodeRoot rel : String) :
    String.ofList ((nodeRoot ++ "/" ++ rel).toList.drop (nodeRoot ++ "/").toList.length) = rel := by
  apply String.toList_inj.mp
  rw [String.toList_append (s := nodeRoot ++ "/"), List.drop_left]
  simp

theorem deriveLocalPath_names {nodeRoot : String} (hroot : resolve cwd [mirrorRoot] ≠ "/")
    (hne : names ≠ []) (hsafe : ∀ s ∈ names, SafeSegment s) :
    deriveLocalPath cwd mirrorRoot nodeRoot (nodeRoot ++ "/" ++ joined names) =
      .ok (resolve cwd [mirrorRoot] ++ "/" ++ joined names) := by
  simp only [deriveLocalPath, startsWith_append, Bool.not_true, Bool.false_eq_true, if_false,
    remainder_append, assertSafeRelativePath_names hne hsafe,
    ensureUnderRoot_below hroot hne (isName_of_safe hsafe)]
  rfl

theorem deriveLocalPath_strictlyUnder {nodeRoot remotePath localPath : String}
    (h : deriveLocalPath cwd mirrorRoot nodeRoot remotePath = .ok localPath) :
    StrictlyUnder (resolve cwd [mirrorRoot]) localPath := by
  unfold deriveLocalPath at h
  cases hstarts : startsWith remotePath (nodeRoot ++ "/") with
  | false => simp [hstarts] at h
  | true =>
    obtain ⟨rel, rfl⟩ := startsWith_iff.mp hstarts
    simp only [hstarts, Bool.not_true, Bool.false_eq_true, if_false, remainder_append] at h
    cases hsafe : assertSafeRelativePath rel "deriveLocalPath.remotePath" with
    | error e =>
      rw [hsafe] at h
      cases h
    | ok u =>
      have hnames : ∀ s ∈ segments rel, SafeSegment s := assertSafeRelativePath_ok_iff.mp hsafe
      have hrel : rel = joined (segments rel) := (joined_segments rel).symm
      refine ⟨segments rel, segments_ne_nil rel, hnames, ?_⟩
      rw [hsafe] at h
      cases hensure : ensureUnderRoot cwd mirrorRoot rel with
      | error e =>
        rw [hensure] at h
        cases h
      | ok found =>
        rw [hensure] at h
        obtain rfl : found = localPath := Except.ok.inj h
        rw [hrel] at hensure
        exact ensureUnderRoot_ok (segments_ne_nil rel) (isName_of_safe hnames) hensure

variable {parts : List (List String)}

theorem joined_map_joined (hparts : ∀ p ∈ parts, p ≠ []) :
    joined (parts.map joined) = joined parts.flatten := by
  induction parts with
  | nil => rfl
  | cons p parts ih =>
    have hp : p ≠ [] := hparts p List.mem_cons_self
    have hrest : ∀ q ∈ parts, q ≠ [] := fun q hq => hparts q (List.mem_cons_of_mem p hq)
    cases parts with
    | nil => simp
    | cons q parts =>
      have hq : (q :: parts).flatten ≠ [] := by
        simp [hrest q List.mem_cons_self]
      have hsplit : (p :: q :: parts).flatten = p ++ (q :: parts).flatten := List.flatten_cons
      rw [List.map_cons, joined_cons (by simp), ih hrest, hsplit, joined_append hp hq]

theorem safeMirrorJoin_names (hroot : resolve cwd [mirrorRoot] ≠ "/") (hne : parts ≠ [])
    (hparts : ∀ p ∈ parts, p ≠ []) (hsafe : ∀ s ∈ parts.flatten, SafeSegment s) :
    safeMirrorJoin cwd mirrorRoot (parts.map joined) =
      .ok (resolve cwd [mirrorRoot] ++ "/" ++ joined parts.flatten) := by
  have hpart : ∀ p ∈ parts, ∀ s ∈ p, SafeSegment s :=
    fun p hp s hs => hsafe s (List.mem_flatten.mpr ⟨p, hp, hs⟩)
  have hflat : parts.flatten ≠ [] := by
    obtain ⟨p, rest, rfl⟩ := List.exists_cons_of_ne_nil hne
    simp [hparts p List.mem_cons_self]
  have hnonempty : ∀ text ∈ parts.map joined, text ≠ "" := by
    intro text htext
    obtain ⟨p, hp, rfl⟩ := List.mem_map.mp htext
    exact joined_ne_empty (hparts p hp) fun s hs => (hpart p hp s hs).toIsName.segment
  have hchecks : (forM (parts.map joined) fun seg =>
      if seg = "" then pure () else assertSafeRelativePath seg "safeMirrorJoin.segment") =
        Except.ok () := by
    apply forM_ok_iff.mpr
    intro text htext
    rw [if_neg (hnonempty text htext)]
    obtain ⟨p, hp, rfl⟩ := List.mem_map.mp htext
    exact assertSafeRelativePath_names (hparts p hp) (hpart p hp)
  have hjoin : join (parts.map joined) = joined parts.flatten := by
    rw [join_eq_normalize (by simpa using hne) hnonempty, joined_map_joined hparts,
      normalize_names hflat (isName_of_safe hsafe)]
  unfold safeMirrorJoin
  rw [hchecks, hjoin, ensureUnderRoot_below hroot hflat (isName_of_safe hsafe)]
  rfl

end

section

variable {cwd : WorkingDirectory} {mirrorRoot fileSection filename : String} {sub : List String}

theorem ofSegment_eq_some {segment : String} {s : FileSection}
    (h : FileSection.ofSegment segment = some s) : segment = s.segment := by
  unfold FileSection.ofSegment at h
  split at h
  all_goals cases h
  all_goals rfl

theorem safeSegment_of_section {segment : String} (h : FileSection.ofSegment segment ≠ none) :
    SafeSegment segment := by
  obtain ⟨s, hs⟩ := Option.ne_none_iff_exists'.mp h
  obtain rfl := ofSegment_eq_some hs
  apply (@assertSafeSegment_ok_iff "" s.segment).mp
  cases s
  all_goals decide +kernel

theorem safe_sectionPath (hsection : FileSection.ofSegment fileSection ≠ none)
    (hsub : ∀ s ∈ sub, SafeSegment s) (hfilename : SafeSegment filename) :
    ∀ s ∈ fileSection :: sub ++ [filename], SafeSegment s := by
  intro s hs
  rcases List.mem_append.mp hs with hs | hs
  · rcases List.mem_cons.mp hs with rfl | hs
    · exact safeSegment_of_section hsection
    · exact hsub s hs
  · obtain rfl := List.mem_singleton.mp hs
    exact hfilename

theorem relative_below (hroot : resolve cwd [mirrorRoot] ≠ "/") {names : List String}
    (hne : names ≠ []) (hnames : ∀ s ∈ names, IsName s) :
    relative cwd mirrorRoot (resolve cwd [mirrorRoot] ++ "/" ++ joined names) = joined names := by
  rw [relative, ← below_root hroot hne, resolvedSegments_slash_joined cwd (isName_below hnames),
    relativeSegments_append]

theorem not_startsWith_dotdot (hsection : FileSection.ofSegment fileSection ≠ none)
    {rest : List String} (hrest : rest ≠ []) :
    startsWith (joined (fileSection :: rest)) ".." = false := by
  obtain ⟨s, hs⟩ := Option.ne_none_iff_exists'.mp hsection
  obtain rfl := ofSegment_eq_some hs
  rw [joined_cons hrest]
  cases s
  all_goals simp [startsWith, FileSection.segment, List.isPrefixOf]

theorem subpathFromMirror_sectionPath (hroot : resolve cwd [mirrorRoot] ≠ "/")
    (hsection : FileSection.ofSegment fileSection ≠ none)
    (hsub : ∀ s ∈ sub, SafeSegment s) (hfilename : SafeSegment filename) :
    subpathFromMirror cwd mirrorRoot
        (resolve cwd [mirrorRoot] ++ "/" ++ joined (fileSection :: sub ++ [filename])) =
      some ⟨fileSection, if sub = [] then none else some (joined sub), filename⟩ := by
  have hne : fileSection :: sub ++ [filename] ≠ [] := by simp
  have hnames := isName_of_safe (safe_sectionPath hsection hsub hfilename)
  have hsegs : ∀ s ∈ fileSection :: sub ++ [filename], IsSegment s :=
    fun s hs => (hnames s hs).segment
  have hdots : ((sub ++ [filename]).any fun seg => seg = "" || seg = "." || seg = "..") =
      false := by
    rw [List.any_eq_false]
    intro s hs
    have hname := hnames s (List.mem_cons_of_mem fileSection hs)
    simp [hname.ne_empty, hname.ne_dot, hname.ne_dotdot]
  have hstarts : startsWith (joined (fileSection :: sub ++ [filename])) ".." = false :=
    not_startsWith_dotdot hsection (by simp)
  have hhead : (fileSection :: sub ++ [filename]).headD "" = fileSection := rfl
  have hlast : (fileSection :: sub ++ [filename]).getLastD "" = filename :=
    List.getLastD_concat
  have hmiddle : (fileSection :: sub ++ [filename]).tail.dropLast = sub :=
    List.dropLast_concat
  generalize fileSection :: sub ++ [filename] = names at *
  simp only [subpathFromMirror, isInside_below hroot hne hnames, relative_below hroot hne hnames,
    hstarts, joined_ne_empty hne hsegs, segments_joined_names hne hnames, hhead, hlast, hmiddle,
    hsection, hdots]
  rfl

theorem unsafeSegment_eq_none {ctx s : String} (hs : SafeSegment s) :
    Files.unsafeSegment ctx s = none := by
  have hok := (@assertSafeSegment_ok_iff ctx s).mpr hs
  unfold Files.assertSafeSegment at hok
  split at hok
  · cases hok
  · split at hok
    · cases hok
    · assumption

theorem unsafeRelativePath_eq_none {ctx : String} {names : List String} (hne : names ≠ [])
    (hsafe : ∀ s ∈ names, SafeSegment s) : Files.unsafeRelativePath ctx names = none := by
  unfold Files.unsafeRelativePath
  split
  · exact absurd rfl hne
  · exact absurd rfl (hsafe "" (by simp)).ne_empty
  · exact absurd rfl (hsafe "" (by simp)).ne_empty
  · exact List.findSome?_eq_none_iff.mpr fun s hs => unsafeSegment_eq_none (hsafe s hs)

theorem parseRelPath_sectionPath (hsection : FileSection.ofSegment fileSection ≠ none)
    (hsub : ∀ s ∈ sub, SafeSegment s) (hfilename : SafeSegment filename) :
    parseRelPath (joined (fileSection :: sub ++ [filename])) =
      .ok ⟨fileSection, if sub = [] then none else some (joined sub), filename⟩ := by
  have hne : fileSection :: sub ++ [filename] ≠ [] := by simp
  have hsafe := safe_sectionPath hsection hsub hfilename
  obtain ⟨s, hs⟩ := Option.ne_none_iff_exists'.mp hsection
  have hlast : (sub ++ [filename]).getLast? = some filename := List.getLast?_concat
  have hmiddle : (sub ++ [filename]).dropLast = sub := List.dropLast_concat
  have hsegs : segments (joined (fileSection :: (sub ++ [filename]))) =
      fileSection :: (sub ++ [filename]) := segments_joined_names hne (isName_of_safe hsafe)
  have haccepted : Files.unsafeRelativePath "file-content-remote.relPath"
      (fileSection :: (sub ++ [filename])) = none := unsafeRelativePath_eq_none hne hsafe
  simp only [parseRelPath, CentralRetry.parseRelPath, List.cons_append, hsegs, haccepted, hs,
    hlast, hmiddle]
  obtain rfl := ofSegment_eq_some hs
  by_cases hempty : sub = []
  · subst hempty
    rfl
  · simp only [hempty, if_false]
    rfl

end

/-- The segments below the node root, as `buildRemotePath` puts them there. -/
def BuildRemotePathArgs.names (a : BuildRemotePathArgs) : List String :=
  a.fileSection :: (a.subpath.map segments).getD [] ++ [a.filename]

def BuildRemotePathArgs.parts (a : BuildRemotePathArgs) : List (List String) :=
  [a.fileSection] :: (a.subpath.map segments).toList ++ [[a.filename]]

theorem BuildRemotePathArgs.flatten_parts (a : BuildRemotePathArgs) :
    a.parts.flatten = a.names := by
  unfold BuildRemotePathArgs.parts BuildRemotePathArgs.names
  cases a.subpath with
  | none => rfl
  | some sub => simp

theorem BuildRemotePathArgs.map_joined_parts (a : BuildRemotePathArgs) :
    a.parts.map joined = a.fileSection :: a.subpath.toList ++ [a.filename] := by
  unfold BuildRemotePathArgs.parts
  cases a.subpath with
  | none => simp
  | some sub => simp [joined_segments]

theorem BuildRemotePathArgs.parts_ne_nil (a : BuildRemotePathArgs) :
    ∀ p ∈ a.parts, p ≠ [] := by
  intro p hp
  unfold BuildRemotePathArgs.parts at hp
  cases hsub : a.subpath with
  | none =>
    rw [hsub] at hp
    rcases List.mem_cons.mp hp with rfl | hp
    · simp
    · obtain rfl := List.mem_singleton.mp hp
      simp
  | some sub =>
    rw [hsub] at hp
    rcases List.mem_cons.mp hp with rfl | hp
    · simp
    · rcases List.mem_cons.mp hp with rfl | hp
      · exact segments_ne_nil sub
      · obtain rfl := List.mem_singleton.mp hp
        simp

structure BuildRemotePathArgs.Accepted (a : BuildRemotePathArgs) : Prop where
  fileSection : FileSection.ofSegment a.fileSection ≠ none
  subpath : ∀ s ∈ (a.subpath.map segments).getD [], SafeSegment s
  filename : SafeSegment a.filename

variable {a : BuildRemotePathArgs}

theorem buildRemotePath_ok {path : String} (h : buildRemotePath a = .ok path) :
    a.Accepted ∧ ∃ root, buildNodeRoot a.toNodeInfo = .ok root ∧
      path = join (root :: a.fileSection :: a.subpath.toList ++ [a.filename]) := by
  unfold buildRemotePath at h
  by_cases hsection : FileSection.ofSegment a.fileSection = none
  · rw [if_pos hsection] at h
    cases h
  rw [if_neg hsection] at h
  obtain ⟨_, hfilename, h⟩ := ok_of_bind h
  cases hsub : a.subpath with
  | none =>
    rw [hsub] at h
    obtain ⟨root, hroot, h⟩ := ok_of_bind h
    refine ⟨⟨hsection, by simp [hsub], assertSafeSegment_ok_iff.mp hfilename⟩, root, hroot, ?_⟩
    exact (Except.ok.inj h).symm
  | some sub =>
    rw [hsub] at h
    obtain ⟨_, hpath, h⟩ := ok_of_bind h
    obtain ⟨root, hroot, h⟩ := ok_of_bind h
    refine ⟨⟨hsection, ?_, assertSafeSegment_ok_iff.mp hfilename⟩, root, hroot, ?_⟩
    · simpa [hsub] using assertSafeRelativePath_ok_iff.mp hpath
    · exact (Except.ok.inj h).symm

theorem endsInName_joined_concat {segs : List String} {name : String} (hname : IsName name) :
    EndsInName (joined (segs ++ [name])) := by
  have hnames : ∀ s ∈ [name], IsName s := by simpa using hname
  by_cases hsegs : segs = []
  · subst hsegs
    exact ⟨[], name, segments_joined_names (by simp) hnames, hname⟩
  · rw [joined_append hsegs (by simp)]
    exact EndsInName.below (by simp) hnames

theorem buildNodeRoot_ok {n : NodeInfo} {root : String} (h : buildNodeRoot n = .ok root) :
    (∀ key ∈ n.orgSyncKey, SafeSegment key) ∧ SafeSegment n.nodeSyncKey ∧
      root = if n.nodeType = "organization" then n.orgSyncKey.getD n.nodeSyncKey
        else join (n.orgSyncKey.toList ++ [Files.typePlural n.nodeType, n.nodeSyncKey]) := by
  unfold buildNodeRoot at h
  cases horg : n.orgSyncKey with
  | none =>
    rw [horg] at h
    obtain ⟨_, hkey, h⟩ := ok_of_bind h
    refine ⟨by simp, assertSafeSegment_ok_iff.mp hkey, ?_⟩
    split_ifs at h ⊢
    · exact (Except.ok.inj h).symm
    · exact (Except.ok.inj h).symm
  | some key =>
    rw [horg] at h
    obtain ⟨_, horgKey, h⟩ := ok_of_bind h
    obtain ⟨_, hkey, h⟩ := ok_of_bind h
    refine ⟨by simpa using assertSafeSegment_ok_iff.mp horgKey,
      assertSafeSegment_ok_iff.mp hkey, ?_⟩
    split_ifs at h ⊢
    · exact (Except.ok.inj h).symm
    · exact (Except.ok.inj h).symm

theorem buildNodeRoot_normal {n : NodeInfo} {root : String} (h : buildNodeRoot n = .ok root) :
    ∃ text, EndsInName text ∧ root = normalize text := by
  obtain ⟨horg, hkey, rfl⟩ := buildNodeRoot_ok h
  by_cases htype : n.nodeType = "organization"
  · have hroot : SafeSegment (n.orgSyncKey.getD n.nodeSyncKey) := by
      cases hcase : n.orgSyncKey with
      | none => exact hkey
      | some key => exact horg key (by simp [hcase])
    have hnames : ∀ s ∈ [n.orgSyncKey.getD n.nodeSyncKey], IsName s := by
      simpa using hroot.toIsName
    have hsame := normalize_names (by simp) hnames
    rw [joined_singleton] at hsame
    refine ⟨n.orgSyncKey.getD n.nodeSyncKey, ?_, by rw [if_pos htype, hsame]⟩
    exact ⟨[], _, segments_singleton hroot.slash, hroot.toIsName⟩
  · refine ⟨joined ((n.orgSyncKey.toList ++ [Files.typePlural n.nodeType]).filter (· ≠ "") ++
      [n.nodeSyncKey]), endsInName_joined_concat hkey.toIsName, ?_⟩
    rw [if_neg htype]
    have hfilter : (n.orgSyncKey.toList ++ [Files.typePlural n.nodeType, n.nodeSyncKey]).filter
        (· ≠ "") = (n.orgSyncKey.toList ++ [Files.typePlural n.nodeType]).filter (· ≠ "") ++
          [n.nodeSyncKey] := by
      simp [List.filter_append, List.filter_cons, hkey.ne_empty]
      split_ifs <;> rfl
    simp only [join, hfilter]
    rw [if_neg (by simp)]

theorem normalize_ne_empty {text : String} (h : EndsInName text) : normalize text ≠ "" := by
  rw [normalize_endsInName h]
  obtain ⟨segs, last, hsegs, hlast⟩ := id h
  have hkept : normalizeSegments (isAbsolute text) (segments text) ≠ [] := by
    rw [hsegs, normalizeSegments_append_names (by simpa using hlast)]
    simp
  intro hempty
  apply joined_ne_empty hkept isSegment_normalizeSegments
  apply String.toList_inj.mp
  have hchars := congrArg String.toList hempty
  simp only [String.toList_append] at hchars
  simpa using (List.append_eq_nil_iff.mp hchars).2

theorem BuildRemotePathArgs.Accepted.safe (h : a.Accepted) : ∀ s ∈ a.names, SafeSegment s :=
  safe_sectionPath h.fileSection h.subpath h.filename

theorem buildRemotePath_below {path : String} (h : buildRemotePath a = .ok path) :
    a.Accepted ∧ ∃ root, buildNodeRoot a.toNodeInfo = .ok root ∧
      path = root ++ "/" ++ joined a.names := by
  obtain ⟨haccepted, root, hroot, rfl⟩ := buildRemotePath_ok h
  refine ⟨haccepted, root, hroot, ?_⟩
  obtain ⟨text, htext, rfl⟩ := buildNodeRoot_normal hroot
  have hparts : ∀ p ∈ a.parts, ∀ s ∈ p, IsSegment s := by
    intro p hp s hs
    have hmem : s ∈ a.names := by
      rw [← a.flatten_parts]
      exact List.mem_flatten.mpr ⟨p, hp, hs⟩
    exact (haccepted.safe s hmem).toIsName.segment
  have htexts : ∀ t ∈ normalize text :: a.parts.map joined, t ≠ "" := by
    intro t ht
    rcases List.mem_cons.mp ht with rfl | ht
    · exact normalize_ne_empty htext
    · obtain ⟨p, hp, rfl⟩ := List.mem_map.mp ht
      exact joined_ne_empty (a.parts_ne_nil p hp) (hparts p hp)
  have hargs : normalize text :: a.fileSection :: a.subpath.toList ++ [a.filename] =
      normalize text :: a.parts.map joined := by
    rw [a.map_joined_parts]
    rfl
  rw [hargs, join_eq_normalize (by simp) htexts,
    joined_cons (by simp [BuildRemotePathArgs.parts]), joined_map_joined a.parts_ne_nil,
    a.flatten_parts]
  exact normalize_below htext (by simp [BuildRemotePathArgs.names]) (isName_of_safe haccepted.safe)

theorem roundTrip {cwd : WorkingDirectory} {mirrorRoot path : String}
    (hroot : resolve cwd [mirrorRoot] ≠ "/") (h : buildRemotePath a = .ok path) :
    ∃ nodeRoot localPath, buildNodeRoot a.toNodeInfo = .ok nodeRoot ∧
      deriveLocalPath cwd mirrorRoot nodeRoot path = .ok localPath ∧
      safeMirrorJoin cwd mirrorRoot (a.fileSection :: a.subpath.toList ++ [a.filename]) =
        .ok localPath ∧
      StrictlyUnder (resolve cwd [mirrorRoot]) localPath ∧
      subpathFromMirror cwd mirrorRoot localPath = some ⟨a.fileSection, a.subpath, a.filename⟩ ∧
      parseRelPath (relative cwd mirrorRoot localPath) =
        .ok ⟨a.fileSection, a.subpath, a.filename⟩ := by
  obtain ⟨haccepted, nodeRoot, hnode, rfl⟩ := buildRemotePath_below h
  have hne : a.names ≠ [] := by simp [BuildRemotePathArgs.names]
  have hsub : (if (a.subpath.map segments).getD [] = [] then none
      else some (joined ((a.subpath.map segments).getD []))) = a.subpath := by
    cases a.subpath with
    | none => rfl
    | some sub => simp [segments_ne_nil, joined_segments]
  refine ⟨nodeRoot, resolve cwd [mirrorRoot] ++ "/" ++ joined a.names, hnode,
    deriveLocalPath_names hroot hne haccepted.safe, ?_, ⟨a.names, hne, haccepted.safe, rfl⟩, ?_, ?_⟩
  · have hjoin := @safeMirrorJoin_names cwd mirrorRoot a.parts hroot
      (by simp [BuildRemotePathArgs.parts]) a.parts_ne_nil
      (by rw [a.flatten_parts]; exact haccepted.safe)
    rwa [a.map_joined_parts, a.flatten_parts] at hjoin
  · have hparsed := @subpathFromMirror_sectionPath cwd mirrorRoot a.fileSection a.filename
      ((a.subpath.map segments).getD []) hroot haccepted.fileSection haccepted.subpath
      haccepted.filename
    rwa [hsub] at hparsed
  · rw [relative_below hroot hne (isName_of_safe haccepted.safe)]
    have hparsed := @parseRelPath_sectionPath a.fileSection a.filename
      ((a.subpath.map segments).getD []) haccepted.fileSection haccepted.subpath
      haccepted.filename
    rwa [hsub] at hparsed

end Portuni.RemotePaths
