import Mathlib.Data.List.Basic

namespace Portuni.Files

/-!
Remote paths and the rules every path goes through before a record is written
for it. A path is the list of its segments.
-/

/-- The segments of a remote path: `["org", "projects", "key", "wip", "a.md"]`. -/
abbrev RemotePath := List String

inductive FileSection where
  | wip
  | outputs
  | resources

def FileSection.ofSegment : String → Option FileSection
  | "wip" => some .wip
  | "outputs" => some .outputs
  | "resources" => some .resources
  | _ => none

/-- What `path` has below `root`, when it starts with `root/`. -/
def below (root path : RemotePath) : Option RemotePath :=
  if root.isPrefixOf path && decide (root.length < path.length) then some (path.drop root.length)
  else none

/-- Files at any depth under `<nodeRoot>/<section>/` qualify for adoption; a
segment below the section that starts with a dot is skipped. -/
def adoptableSection (nodeRoot remotePath : RemotePath) : Option FileSection :=
  match below nodeRoot remotePath with
  | some (first :: rest) =>
    match FileSection.ofSegment first with
    | some s => if rest.isEmpty || rest.any (·.startsWith ".") then none else some s
    | none => none
  | _ => none

/-- Why a segment is refused: it could escape its scope, or carries control bytes. -/
def unsafeSegment (ctx segment : String) : Option String :=
  if segment = "" || segment = "." || segment = ".." then
    some (ctx ++ ": empty/dot segment not allowed: " ++ segment.quote)
  else if segment.toList.any fun c => c = '\\' || c = '\x00' then
    some (ctx ++ ": invalid character in segment: " ++ segment.quote)
  else none

def unsafeRelativePath (ctx : String) : RemotePath → Option String
  | [] | [""] => some (ctx ++ ": empty path not allowed")
  | "" :: rest => some (ctx ++ ": absolute path not allowed: /" ++ String.intercalate "/" rest)
  | path => path.findSome? (unsafeSegment ctx)

structure NodeInfo where
  orgSyncKey : Option String
  nodeType : String
  nodeSyncKey : String
deriving DecidableEq

abbrev LocalPath := List String

def FileSection.segment : FileSection → String
  | .wip => "wip"
  | .outputs => "outputs"
  | .resources => "resources"

/-- `assertSafeSegment` on a name that a caller supplies, which may hold a slash. -/
def assertSafeSegment (ctx name : String) : Except String Unit :=
  if name.toList.any (· = '/') then
    .error (ctx ++ ": invalid character in segment: " ++ name.quote)
  else
    match unsafeSegment ctx name with
    | some reason => .error reason
    | none => .ok ()

def assertSafeRelativePath (ctx : String) (path : RemotePath) : Except String Unit :=
  match unsafeRelativePath ctx path with
  | some reason => .error reason
  | none => .ok ()

def typePlural : String → String
  | "project" => "projects"
  | "process" => "processes"
  | "area" => "areas"
  | "principle" => "principles"
  | "organization" => "organizations"
  | nodeType => nodeType

def buildNodeRoot (n : NodeInfo) : Except String RemotePath := do
  match n.orgSyncKey with
  | some key => assertSafeSegment "buildNodeRoot.orgSyncKey" key
  | none => pure ()
  assertSafeSegment "buildNodeRoot.nodeSyncKey" n.nodeSyncKey
  if n.nodeType = "organization" then return [n.orgSyncKey.getD n.nodeSyncKey]
  else return n.orgSyncKey.toList ++ [typePlural n.nodeType, n.nodeSyncKey]

def buildRemotePath (n : NodeInfo) (fileSection : FileSection) (subpath : Option RemotePath)
    (filename : String) : Except String RemotePath := do
  assertSafeSegment "buildRemotePath.filename" filename
  match subpath with
  | some sub => assertSafeRelativePath "buildRemotePath.subpath" sub
  | none => pure ()
  let root ← buildNodeRoot n
  return root ++ [fileSection.segment] ++ subpath.getD [] ++ [filename]

/-- The section is the first segment after the node root: segment 1 for an
organization, segment 3 for any other node. -/
def inferSectionFromPath (path : RemotePath) : FileSection :=
  ((path[1]?.bind FileSection.ofSegment).or (path[3]?.bind FileSection.ofSegment)).getD .wip

def deriveLocalPath (mirrorRoot : LocalPath) (nodeRoot remotePath : RemotePath) :
    Except String LocalPath := do
  match below nodeRoot remotePath with
  | none =>
    .error ("deriveLocalPath: remotePath " ++ (String.intercalate "/" remotePath).quote ++
      " does not start with nodeRoot " ++ (String.intercalate "/" nodeRoot).quote)
  | some remainder =>
    assertSafeRelativePath "deriveLocalPath.remotePath" remainder
    return mirrorRoot ++ remainder

theorem below_eq_some {root path rel : RemotePath} (h : below root path = some rel) :
    path = root ++ rel ∧ rel ≠ [] := by
  unfold below at h
  split at h
  · rename_i hcond
    simp only [Bool.and_eq_true, decide_eq_true_eq] at hcond
    obtain ⟨hstarts, hlength⟩ := hcond
    obtain ⟨rest, rfl⟩ := List.isPrefixOf_iff_prefix.mp hstarts
    obtain rfl : rest = rel := by simpa using h
    refine ⟨rfl, ?_⟩
    rintro rfl
    simp at hlength
  · cases h

theorem below_append (root : RemotePath) {rel : RemotePath} (hrel : rel ≠ []) :
    below root (root ++ rel) = some rel := by
  have hlength : 0 < rel.length := List.length_pos_iff.mpr hrel
  simp [below, hlength]

end Portuni.Files
