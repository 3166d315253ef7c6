import Portuni.Library.Changes
import Portuni.McpScope.Gates
import Portuni.MirrorOwners.Model

/-!
The tools that the agent transport runs on the device: the arguments as JSON, the gate's reading of
them, and the handlers with what they change on the device and on central.
-/

namespace Portuni.AgentTools

open Library.Changes Library.PosixPath McpScope MirrorOwners
open RemotePaths (subpathFromMirror safeMirrorJoin deriveLocalPath buildNodeRoot)

inductive Json where
  | null
  | bool (b : Bool)
  | number (text : String)
  | string (text : String)
  | array (items : List Json)
  | object (fields : List (String × Json))

/-- The arguments of a call; a field that is not there is `undefined`. -/
abbrev Args := String → Option Json

def Json.string? : Json → Option String
  | .string text => some text
  | _ => none

def truthy : Option Json → Bool
  | none | some .null | some (.bool false) => false
  | some (.number text) => text ≠ "0"
  | some (.string text) => text ≠ ""
  | some _ => true

mutual

/-- `String(value)`. -/
def Json.text : Json → String
  | .null => "null"
  | .bool b => if b then "true" else "false"
  | .number text => text
  | .string text => text
  | .array items => String.intercalate "," (Json.texts items)
  | .object _ => "[object Object]"

def Json.texts : List Json → List String
  | [] => []
  | .null :: items => "" :: Json.texts items
  | item :: items => item.text :: Json.texts items

end

def urlText : Option Json → String
  | none => "undefined"
  | some value => value.text

/-- The driver of the local database: the text that it compares a bound value as, unless it throws.
A string is bound as it is. -/
structure Driver where
  bind : Option Json → Option String
  string : ∀ text, bind (some (.string text)) = some text

structure SyncInfoFile where
  id : String
  filename : String
  remotePath : Option String

structure NodeSyncInfo where
  row : NodeRow
  remoteName : Option String
  files : List SyncInfoFile

def NodeSyncInfo.nodeInfo (si : NodeSyncInfo) : Files.NodeInfo :=
  ⟨si.row.orgKey.map (·.1), match si.row.nodeType with
    | .organization => "organization"
    | .project => "project"
    | .process => "process"
    | .area => "area"
    | .principle => "principle", si.row.syncKey⟩

structure RegisterFileRecordResult where
  id : String
  remoteName : Option String

structure NewLocalEntry where
  localPath : String
  fileSection : String
  subpath : Option String
  filename : String

/-- Everything a call asks the device and central for, at one moment. -/
structure World where
  mirrors : List LocalMirror
  workspaceRoot : String
  /-- `none`: central does not answer. -/
  central : Option (String → Option NodeSyncInfo)
  registerFile : (nodeId relPath : String) → Option RegisterFileRecordResult
  putFileRaw : (nodeId relPath : String) → Bool
  getFileRaw : (nodeId relPath : String) → Bool
  fileExists : (path : String) → Bool
  sameFile : (source dest : String) → Bool
  copyFile : (source dest : String) → Bool
  readFile : (path : String) → Bool
  writeFile : (path : String) → Bool
  mkdir : (path : String) → Bool
  /-- A local copy that was never pushed from this device. -/
  dirty : (fileId path : String) → Bool
  untracked : (mirrorRoot : String) → NodeSyncInfo → List NewLocalEntry
  portuniRoot : (paths : List String) → Option String

inductive Change where
  /-- A file written into the local mirror of a node. -/
  | mirrorFile (nodeId path : String)
  | registered (nodeId relPath : String)
  | pushed (nodeId relPath : String)
  | mirrorCreated (nodeId path : String)
  /-- The harness configuration in the mirror of a node. -/
  | scopeConfig (nodeId path : String)
deriving DecidableEq

def Change.nodeId : Change → String
  | .mirrorFile nodeId _ | .registered nodeId _ | .pushed nodeId _ | .mirrorCreated nodeId _
  | .scopeConfig nodeId _ => nodeId

def Change.isScopeConfig : Change → Bool
  | .scopeConfig _ _ => true
  | _ => false

section

variable (cwd : WorkingDirectory) (nfc : String → String) (w : World)

structure StatusFileEntry where
  fileId : String
  localPath : Option String
  remotePath : Option String

def findEntryByFileId (fileId : Json) : Except String (Option (String × StatusFileEntry)) :=
  if w.mirrors = [] then .ok none
  else
    match w.central with
    | none => .error "central did not answer"
    | some central =>
      let infos := w.mirrors.filterMap fun m => (central m.nodeId).map (m.nodeId, ·)
      .ok (infos.findSome? fun (nodeId, si) =>
        (si.files.find? fun f => fileId.string? = some f.id).map fun rec =>
          (nodeId, ⟨rec.id,
            (getMirrorPath w.mirrors nodeId).bind fun mirrorRoot =>
              rec.remotePath.bind fun remotePath =>
                ((buildNodeRoot si.nodeInfo).bind fun nodeRoot =>
                  deriveLocalPath cwd mirrorRoot nodeRoot remotePath).toOption,
            rec.remotePath⟩))

def localToolWriteTargets (name : String) (args : Args) : Except String (List String) :=
  match name with
  | "portuni_mirror" | "portuni_store" | "portuni_adopt_files" =>
    .ok (((args "node_id").bind Json.string?).toList)
  | "portuni_pull" =>
    match (args "file_id").bind Json.string? with
    | none => .ok []
    | some fileId =>
      (findEntryByFileId cwd w (.string fileId)).map fun found => (found.map (·.1)).toList
  | _ => .ok []

def relPathFor (mirrorRoot absPath : String) : Option String :=
  (subpathFromMirror cwd mirrorRoot absPath).map fun sub =>
    match sub.subpath with
    | some subpath => sub.fileSection ++ "/" ++ nfc subpath ++ "/" ++ nfc sub.filename
    | none => sub.fileSection ++ "/" ++ nfc sub.filename

end

section

variable (cwd : WorkingDirectory) (nfc : String → String) (driver : Driver) (w : World)

abbrev Tool := Program String Change

def orThrow {α : Type} (message : String) : Option α → Tool α
  | some a => pure a
  | none => throw message

def check (message : String) (ok : Bool) : Tool Unit :=
  if ok then pure () else throw message

def lift {α : Type} : Except String α → Tool α
  | .ok a => pure a
  | .error message => throw message

/-- The node and the mirror that a node id of the arguments is bound to. -/
def boundMirror (nodeId : Option Json) : Tool (String × Option String) := do
  let bound ← orThrow "a value cannot be bound" (driver.bind nodeId)
  return (bound, getMirrorPath w.mirrors bound)

def syncInfo (nodeId : String) : Tool NodeSyncInfo :=
  orThrow ("central /nodes/" ++ nodeId ++ "/sync-info failed")
    (w.central.bind fun central => central nodeId)

def registerLocalFileCentral (nodeId : Option Json) (localPath : String) :
    Tool RegisterFileRecordResult := do
  let (_, mirrorRoot) ← boundMirror driver w nodeId
  let mirrorRoot ← orThrow ("Node " ++ urlText nodeId ++
    " has no local mirror. Register via portuni_mirror first.") mirrorRoot
  let relPath ← orThrow
    ("Path is outside the mirror's tracked sections (wip/outputs/resources): " ++ localPath)
    (relPathFor cwd nfc mirrorRoot localPath)
  let reg ← orThrow "central refused the record" (w.registerFile (urlText nodeId) relPath)
  change (.registered (urlText nodeId) relPath)
  return reg

def basename (path : String) : String :=
  ((segments path).filter (· ≠ "")).getLastD ""

structure StoreArgs where
  nodeId : Option Json
  localPath : Option Json
  status : Option Json
  subpath : Option Json

def destinationParts (mirrorRoot localPath : String) (a : StoreArgs) :
    Except String (String × Option String × String) :=
  match subpathFromMirror cwd mirrorRoot localPath with
  | some inside => .ok (inside.fileSection, inside.subpath.map nfc, nfc inside.filename)
  | none =>
    let fileSection := if a.status.bind Json.string? = some "output" then "outputs" else "wip"
    match a.subpath with
    | none | some .null => .ok (fileSection, none, nfc (basename localPath))
    | some (.string subpath) => .ok (fileSection, some (nfc subpath), nfc (basename localPath))
    | some _ => .error "normalize is not a function"

def copyIn (bound localPath dest : String) : Tool Unit := do
  check "no such source" (w.fileExists localPath)
  check "the directory cannot be made" (w.mkdir dest)
  if w.fileExists dest && w.sameFile localPath dest then pure ()
  else do
    check "the source cannot be copied" (w.copyFile localPath dest)
    change (.mirrorFile bound dest)

/-- Where in the mirror a source belongs, and the copy that brings it there. -/
def resolveMirrorDestination (bound mirrorRoot : String) (a : StoreArgs) : Tool String := do
  let localPath ← orThrow "the path must be a string" (a.localPath.bind Json.string?)
  let (fileSection, subpath, filename) ← lift (destinationParts cwd nfc mirrorRoot localPath a)
  let dest ← lift (safeMirrorJoin cwd mirrorRoot
    (fileSection :: (subpath.filter (· ≠ "")).toList ++ [filename]))
  if dest = localPath then pure dest
  else do
    copyIn w bound localPath dest
    pure dest

def storeFileCentral (a : StoreArgs) : Tool Unit := do
  let (bound, mirrorRoot) ← boundMirror driver w a.nodeId
  let mirrorRoot ← orThrow ("Node " ++ urlText a.nodeId ++
    " has no local mirror. Register via portuni_mirror first.") mirrorRoot
  let localPath ← resolveMirrorDestination cwd nfc w bound mirrorRoot a
  let relPath ← orThrow
    ("Path is outside the mirror's tracked sections (wip/outputs/resources): " ++ localPath)
    (relPathFor cwd nfc mirrorRoot localPath)
  let reg ← registerLocalFileCentral cwd nfc driver w a.nodeId localPath
  check ("No remote routing configured for node " ++ urlText a.nodeId)
    ((reg.remoteName.filter (· ≠ "")).isSome)
  check "the file cannot be read" (w.readFile localPath)
  check "central refused the file" (w.putFileRaw (urlText a.nodeId) relPath)
  change (.pushed (urlText a.nodeId) relPath)

def pullFileCentral (nodeId : String) (entry : StatusFileEntry) (force : Bool) : Tool Unit := do
  let si ← syncInfo w nodeId
  let nodeRoot ← lift (buildNodeRoot si.nodeInfo)
  let mirrorRoot ← orThrow ("Node " ++ nodeId ++ " has no local mirror on this device.")
    (getMirrorPath w.mirrors nodeId)
  let remotePath ← orThrow ("file " ++ entry.fileId ++ " has no remote binding") entry.remotePath
  let localPath ← lift (match entry.localPath with
    | some localPath => .ok localPath
    | none => deriveLocalPath cwd mirrorRoot nodeRoot remotePath)
  let relPath ← orThrow ("derived path left the mirror sections: " ++ localPath)
    (relPathFor cwd nfc mirrorRoot localPath)
  check "central has no such file" (w.getFileRaw nodeId relPath)
  check ("File " ++ entry.fileId ++ " has local changes that were never pushed from this device")
    (force || !w.fileExists localPath || !w.dirty entry.fileId localPath)
  check "the directory cannot be made" (w.mkdir localPath)
  check "the file cannot be written" (w.writeFile localPath)
  change (.mirrorFile nodeId localPath)

/-- The `custom_path` of the arguments; a falsy one is none, and no other value is a path. -/
def customPath (args : Args) : Except String (Option String) :=
  if truthy (args "custom_path") then
    match (args "custom_path").bind Json.string? with
    | some path => .ok (some path)
    | none => .error "the path must be a string"
  else .ok none

def materializeAndRegenCentral (mirrors : List LocalMirror) : Tool Unit :=
  match w.portuniRoot (mirrors.map (·.localPath)) with
  | none => pure ()
  | some _ => mirrors.forM fun m => change (.scopeConfig m.nodeId m.localPath)

def createMirrorForNodeCentral (args : Args) : Tool Unit := do
  let nodeId := args "node_id"
  let si ← syncInfo w (urlText nodeId)
  let (bound, existing) ← boundMirror driver w nodeId
  if existing.isSome && !truthy (args "custom_path") then pure ()
  else do
    check "PORTUNI_WORKSPACE_ROOT env variable is not set" (w.workspaceRoot ≠ "")
    let custom ← lift (customPath args)
    let localPath ← lift ((resolveMirrorPath cwd w.workspaceRoot si.row custom).mapError fun _ =>
      "custom_path must be inside PORTUNI_WORKSPACE_ROOT (" ++ w.workspaceRoot ++ ")")
    let taken := w.mirrors.find? fun m =>
      m.localPath = localPath && (nodeId.bind Json.string?) ≠ some m.nodeId
    check ("path " ++ localPath ++ " is already registered") taken.isNone
    check "the directory cannot be made" (w.mkdir localPath)
    change (.mirrorCreated bound localPath)
    materializeAndRegenCentral w (registerMirror w.mirrors bound localPath)

end

section

variable (cwd : WorkingDirectory) (nfc : String → String) (driver : Driver) (w : World)

def stripSlashes (path : String) : String :=
  String.ofList (path.toList.dropWhile (· = '/'))

def relOf (e : NewLocalEntry) : String :=
  match e.subpath.filter (· ≠ "") with
  | some subpath => e.fileSection ++ "/" ++ subpath ++ "/" ++ e.filename
  | none => e.fileSection ++ "/" ++ e.filename

def endsWith (text suffix : String) : Bool :=
  suffix.toList.isSuffixOf text.toList

def matchesWanted (e : NewLocalEntry) (wanted : String) : Bool :=
  wanted = relOf e || wanted = e.filename || endsWith wanted ("/" ++ relOf e) ||
    endsWith wanted ("/" ++ e.filename)

def wantedPaths (args : Args) : List String :=
  match args "paths" with
  | some (.array items) => (items.filterMap Json.string?).map stripSlashes
  | _ => []

def portuniMirror (args : Args) : Tool Unit :=
  createMirrorForNodeCentral cwd driver w args

def portuniStore (args : Args) : Tool Unit :=
  storeFileCentral cwd nfc driver w
    ⟨args "node_id", args "local_path", args "status", args "subpath"⟩

def portuniPull (args : Args) : Tool Unit := do
  check "portuni_pull requires either file_id or node_id"
    (truthy (args "file_id") || truthy (args "node_id"))
  if truthy (args "file_id") then do
    let fileId := (args "file_id").getD .null
    let found ← lift (findEntryByFileId cwd w fileId)
    let (nodeId, entry) ← orThrow
      ("File " ++ fileId.text ++ " not found on any mirror registered for this user") found
    pullFileCentral cwd nfc w nodeId entry (truthy (args "force"))
  else do
    -- the preview of a node changes nothing
    let _ ← syncInfo w (urlText (args "node_id"))
    pure ()

def portuniAdoptFiles (args : Args) : Tool Unit := do
  let nodeId := args "node_id"
  let wanted := wantedPaths args
  let si ← syncInfo w (urlText nodeId)
  let (_, mirrorRoot) ← boundMirror driver w nodeId
  let untracked := (mirrorRoot.map fun root => w.untracked root si).getD []
  let selected := if wanted = [] then untracked
    else untracked.filter fun e => wanted.any (matchesWanted e)
  selected.forM fun e => attempt do
    let _ ← registerLocalFileCentral cwd nfc driver w nodeId e.localPath
    pure ()

def portuniStatus (args : Args) : Tool Unit :=
  if truthy (args "node_id") then do
    let _ ← syncInfo w (urlText (args "node_id"))
    pure ()
  else
    w.mirrors.forM fun m => do
      let _ ← syncInfo w m.nodeId
      pure ()

def callLocalTool (name : String) (args : Args) : Tool Unit :=
  match name with
  | "portuni_mirror" => portuniMirror cwd driver w args
  | "portuni_status" => portuniStatus w args
  | "portuni_store" => portuniStore cwd nfc driver w args
  | "portuni_pull" => portuniPull cwd nfc w args
  | "portuni_adopt_files" => portuniAdoptFiles cwd nfc driver w args
  | _ => throw ("not a local tool: " ++ name)

end

/-- An agent session, with the nodes whose write dialog the user has accepted in it. -/
structure Session where
  ctx : WriteContext
  accepted : List String := []

/-- The answer of the gate for all targets of a call: the nodes it answered allow for, the session
with what was accepted meanwhile, and the refusal that ends the call. -/
structure GateAnswer where
  session : Session
  allowed : List String := []
  refusal : Option WriteGuardErrorPayload := none

def gate (dialog : String → ElicitOutcome) : Session → List String → GateAnswer
  | session, [] => { session := session }
  | session, nodeId :: targets =>
    match guardWrite session.ctx nodeId with
    | .allow =>
      let rest := gate dialog session targets
      { rest with allowed := nodeId :: rest.allowed }
    | .refused hint =>
      { session := session
        refusal := some (writeGuardError nodeId true hint none false) }
    | .elicit hint =>
      if dialog nodeId = .accept then
        gate dialog
          { ctx := { session.ctx with writableNodes := nodeId :: session.ctx.writableNodes }
            accepted := nodeId :: session.accepted } targets
      else
        { session := session
          refusal := some (writeGuardError nodeId false hint
            (some (decide (dialog nodeId ≠ .unsupported))) (dialog nodeId = .timeout)) }

/-- A call of a local tool: what the gate sees, and what the handler finds later. -/
structure Call where
  name : String
  args : Args
  before : World
  after : World
  dialog : String → ElicitOutcome

variable (cwd : WorkingDirectory) (nfc : String → String) (driver : Driver)

structure Handled where
  session : Session
  allowed : List String := []
  changes : List Change := []

def callTool (session : Session) (c : Call) : Handled :=
  match localToolWriteTargets cwd c.before c.name c.args with
  | .error _ => { session := session }
  | .ok targets =>
    let answer := gate c.dialog session targets
    match answer.refusal with
    | some _ => { session := answer.session, allowed := answer.allowed }
    | none =>
      { session := answer.session
        allowed := answer.allowed
        changes := changes (callLocalTool cwd nfc driver c.after c.name c.args) }

def step (session : Session) (c : Call) : Option Session :=
  some (callTool cwd nfc driver session c).session

end Portuni.AgentTools
