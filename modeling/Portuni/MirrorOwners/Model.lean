import Mathlib.Data.List.MinMax
import Portuni.Organizations.Invariant
import Portuni.RemotePaths.RoundTrip

/-!
The mirrors of a user: how a node gets the directory it is registered at, which mirror a path
belongs to, and the walks that find files and register them under a node.
-/

namespace Portuni.MirrorOwners

open Library.PosixPath Organizations RemotePaths

variable (cwd : WorkingDirectory)

/-- A segment that names an entry of a directory; a sync key, being a slug, is one. -/
abbrev Name := {name : String // IsName name}

structure NodeRow where
  nodeType : NodeType
  syncKey : Name
  orgKey : Option Name

structure LocalMirror where
  nodeId : String
  localPath : String
deriving DecidableEq

def typePlural : NodeType → String
  | .project => "projects"
  | .process => "processes"
  | .area => "areas"
  | .principle => "principles"
  | .organization => "organization"

def resolveMirrorPath (workspaceRoot : String) (row : NodeRow) (customPath : Option String) :
    Except PathTraversal String :=
  match customPath.filter (· ≠ "") with
  | some path => ensureUnderRoot cwd workspaceRoot path
  | none =>
    if row.nodeType = .organization then .ok (join [workspaceRoot, row.syncKey])
    else
      match row.orgKey with
      | some orgKey =>
        .ok (join [workspaceRoot, orgKey, typePlural row.nodeType, row.syncKey])
      | none => .ok (join [workspaceRoot, typePlural row.nodeType, row.syncKey])

def getMirrorPath (mirrors : List LocalMirror) (nodeId : String) : Option String :=
  (mirrors.find? (·.nodeId = nodeId)).map (·.localPath)

def registerMirror (mirrors : List LocalMirror) (nodeId localPath : String) : List LocalMirror :=
  ⟨nodeId, localPath⟩ :: mirrors.filter (·.nodeId ≠ nodeId)

def unregisterMirror (mirrors : List LocalMirror) (nodeId : String) : List LocalMirror :=
  mirrors.filter (·.nodeId ≠ nodeId)

def taken (mirrors : List LocalMirror) (nodeId localPath : String) : Option LocalMirror :=
  mirrors.find? fun m => m.localPath = localPath && m.nodeId ≠ nodeId

/-- A call of `createMirrorForNode` that has resolved its path, and then looked whether it is
taken. -/
structure Call where
  nodeId : String
  localPath : String
  checked : Bool := false
deriving DecidableEq

structure World where
  mirrors : List LocalMirror := []
  calls : List Call := []
deriving DecidableEq

inductive Action where
  /-- A call up to its path; `row` is what it read of the node. -/
  | resolve (nodeId : String) (row : Option NodeRow) (customPath : Option String)
  | check (index : ℕ)
  | register (index : ℕ)
  | unregister (nodeId : String)

def step (workspaceRoot : String) (w : World) : Action → Option World
  | .resolve nodeId row customPath =>
    match row with
    | none => some w
    | some row =>
      let custom := customPath.filter (· ≠ "")
      if (getMirrorPath w.mirrors nodeId).isSome ∧ custom = none then some w
      else if workspaceRoot = "" then some w
      else
        match resolveMirrorPath cwd workspaceRoot row customPath with
        | .error _ => some w
        | .ok localPath => some { w with calls := w.calls ++ [⟨nodeId, localPath, false⟩] }
  | .check index =>
    match w.calls[index]? with
    | some ⟨nodeId, localPath, false⟩ =>
      match taken w.mirrors nodeId localPath with
      | some _ => some { w with calls := w.calls.eraseIdx index }
      | none => some { w with calls := w.calls.set index ⟨nodeId, localPath, true⟩ }
    | _ => none
  | .register index =>
    match w.calls[index]? with
    | some ⟨nodeId, localPath, true⟩ =>
      some {
        mirrors := registerMirror w.mirrors nodeId localPath
        calls := w.calls.eraseIdx index }
    | _ => none
  | .unregister nodeId => some { w with mirrors := unregisterMirror w.mirrors nodeId }

def contains (localPath absPath : String) : Bool :=
  let root := if localPath.toList.getLast? = some '/' then localPath else localPath ++ "/"
  absPath = localPath || startsWith absPath root

def ownerNodeForPath (mirrors : List LocalMirror) (absPath : String) : Option String :=
  ((mirrors.filter fun m => contains m.localPath absPath).argmax (·.localPath.length)).map
    (·.nodeId)

/-- A directory tree without links; `other` is what is neither a file nor a directory. -/
inductive Item where
  | file (name : Name)
  | directory (name : Name) (items : List Item)
  | other (name : Name)

def Item.name : Item → String
  | .file name => name
  | .directory name _ => name
  | .other name => name

inductive Found where
  | file
  | directory (items : List Item)
  | other

def lookup (items : List Item) : List String → Option Found
  | [] => some (.directory items)
  | name :: rest =>
    match items.find? (·.name = name) with
    | none => none
    | some (.directory _ below) => lookup below rest
    | some (.file _) => if rest = [] then some .file else none
    | some (.other _) => if rest = [] then some .other else none

structure Device where
  disk : List Item
  isIgnored : (mirrorRoot absPath : String) → Bool
  nodeInfo : (nodeId : String) → Option Files.NodeInfo
  /-- The `remote_path` of each record of a node. -/
  files : (nodeId : String) → List (Option String)
  nfc : String → String

variable (device : Device)

def Device.find (absPath : String) : Option Found :=
  lookup device.disk (resolvedSegments cwd [absPath])

mutual

def filesOf (isIgnored : String → Bool) (dir : String) : Item → List String
  | .file name => if isIgnored (join [dir, name]) then [] else [join [dir, name]]
  | .directory name items =>
    if isIgnored (join [dir, name]) then [] else filesBelow isIgnored (join [dir, name]) items
  | .other _ => []

def filesBelow (isIgnored : String → Bool) (dir : String) : List Item → List String
  | [] => []
  | item :: items => filesOf isIgnored dir item ++ filesBelow isIgnored dir items

end

def Device.walk (isIgnored : String → Bool) (dir : String) : List String :=
  match device.find cwd dir with
  | some (.directory items) => filesBelow isIgnored dir items
  | _ => []

def sections : List String := ["wip", "outputs", "resources"]

def Device.known (mirrorRoot nodeRoot : String) (nodeId : String) : List String :=
  (device.files nodeId).filterMap fun remotePath =>
    (remotePath.bind fun rp => (deriveLocalPath cwd mirrorRoot nodeRoot rp).toOption).map device.nfc

def listUntrackedLocal (mirrors : List LocalMirror) (nodeId : String) : List String :=
  match getMirrorPath mirrors nodeId with
  | none => []
  | some mirrorRoot =>
    match (device.nodeInfo nodeId).bind fun info => (buildNodeRoot info).toOption with
    | none => []
    | some nodeRoot =>
      let known := device.known cwd mirrorRoot nodeRoot nodeId
      sections.flatMap fun fileSection =>
        (device.walk cwd (device.isIgnored mirrorRoot) (join [mirrorRoot, fileSection])).filter
          fun p => !known.contains (device.nfc p) && (subpathFromMirror cwd mirrorRoot p).isSome

/-- `reconcilePath` gets as far as looking at the disk: the path is in a section of the mirror, not
ignored, and no record of the node stands for it. -/
def unregistered (mirrorRoot nodeId absPath : String) : Bool :=
  !device.isIgnored mirrorRoot absPath &&
    match subpathFromMirror cwd mirrorRoot absPath, device.nodeInfo nodeId with
    | some sub, some info =>
      match buildRemotePath
        ⟨info, sub.fileSection, sub.subpath.map device.nfc, device.nfc sub.filename⟩ with
      | .ok remotePath => !(device.files nodeId).contains (some remotePath)
      | .error _ => false
    | _, _ => false

/-- The files that reconciling a path registers, or moves a record to, under the node. -/
def reconcilePath (mirrors : List LocalMirror) (nodeId absPath : String) : List String :=
  match getMirrorPath mirrors nodeId with
  | none => []
  | some mirrorRoot =>
    if unregistered cwd device mirrorRoot nodeId absPath then
      match device.find cwd absPath with
      | some .file => [absPath]
      | some (.directory items) =>
        -- `reconcileDirectory`, and `reconcilePath` again on each file it reaches
        (filesBelow (device.isIgnored mirrorRoot) absPath items).filter
          (unregistered cwd device mirrorRoot nodeId)
      | some .other | none => []
    else []

end Portuni.MirrorOwners
