import Portuni.CentralRetry.Handlers
import Portuni.Library.Base64
import Portuni.Library.Utf8
import Portuni.RemotePaths.RoundTrip

/-!
The text plane of the file content: what the editor gets of a file in the mirror or on the
remote, what a save writes back, and what an agent gets of a file's bytes.
-/

namespace Portuni.FileContent

open CentralRetry Content Files Library
open Library.PosixPath (WorkingDirectory segments)
open RemotePaths (safeMirrorJoin startsWith)
open RemoteSweep

abbrev Bytes := List UInt8

/-- `name.slice(name.lastIndexOf("."))`, where there is a dot. -/
def extension (name : String) : Option (List Char) :=
  if '.' ∈ name.toList then
    some ('.' :: (name.toList.reverse.takeWhile (· ≠ '.')).reverse)
  else none

def mimeOf : List (List Char × String) :=
  [(".txt".toList, "text/plain"), (".md".toList, "text/markdown"), (".html".toList, "text/html"),
    (".json".toList, "application/json"), (".pdf".toList, "application/pdf"),
    (".png".toList, "image/png"), (".jpg".toList, "image/jpeg"), (".jpeg".toList, "image/jpeg"),
    (".svg".toList, "image/svg+xml"), (".zip".toList, "application/zip"),
    (".showtime".toList, "application/zip")]

def mimeFor (name : String) : Option String :=
  (extension name).bind fun dotted => mimeOf.lookup (dotted.map Char.toLower)

/-- Text-ish by the extension; one that is not known counts as text. -/
def isEditableMime : Option String → Bool
  | none => true
  | some mime => startsWith mime "text/" || mime = "application/json"

def fileNotFoundError (relPath : String) : RequestError :=
  ⟨some (.other "NOT_FOUND"), "file not found: " ++ relPath, none, [("path", relPath)]⟩

def notEditableTextError (relPath : String) : RequestError :=
  ⟨some .notEditable, "file is not editable text: " ++ relPath, none, [("path", relPath)]⟩

def nativeTextError (relPath : String) : RequestError :=
  ⟨some .notEditable, "file is a native format, not editable text: " ++ relPath, none,
    [("path", relPath)]⟩

def noMirrorError : RequestError :=
  ⟨some (.other "NO_MIRROR"), "node has no local mirror", none, []⟩

structure TextContent where
  content : List Char
  version : String
  filename : String
  mimeType : Option String
  localPath : Option String

def editableTextContent (H : Hashing Bytes) (buf : Bytes) (relPath filename : String)
    (mime localPath : Option String) : Except RequestError TextContent :=
  if !isEditableMime mime || buf.contains 0 then .error (notEditableTextError relPath)
  else .ok ⟨Utf8.decode buf, H.sha256Buffer buf, filename, mime, localPath⟩

section

variable (H : Hashing Bytes) (cwd : WorkingDirectory)

abbrev Disk := String → Option Bytes

def basename (path : String) : String :=
  (segments path).getLastD ""

def resolveMirrorAbs (mirrorRoot relPath : String) : Except RequestError String :=
  let segs := (segments relPath).filter (· ≠ "")
  if segs = [] then .error ⟨some .invalidPath, "empty path", none, []⟩
  else
    match safeMirrorJoin cwd mirrorRoot segs with
    | .ok path => .ok path
    | .error _ =>
      .error ⟨some .invalidPath, "invalid path: " ++ relPath, none, [("path", relPath)]⟩

/-- `mirrorRoot` is the mirror of the node on this device. -/
def readFileContent (mirrorRoot : Option String) (disk : Disk) (relPath : String) :
    Except RequestError TextContent := do
  let some root := mirrorRoot | throw noMirrorError
  let path ← resolveMirrorAbs cwd root relPath
  match disk path with
  | none => throw (fileNotFoundError relPath)
  | some buf =>
    editableTextContent H buf relPath (basename path) (mimeFor (basename path)) (some path)

def changedOnDisk (currentVersion : String) : RequestError :=
  ⟨some .conflict, "file changed on disk since it was opened", some currentVersion, []⟩

/-- The conflict check of a save: an absent file and an empty version pass. -/
def diskConflict (current : Option Bytes) (baseVersion : Option String) (force : Bool) :
    Option RequestError :=
  match present baseVersion, force, current with
  | some version, false, some bytes =>
    if H.sha256Buffer bytes ≠ version then some (changedOnDisk (H.sha256Buffer bytes)) else none
  | _, _, _ => none

def writeFileContent (mirrorRoot : Option String) (disk : Disk) (relPath : String)
    (content : List Char) (baseVersion : Option String) (force : Bool) :
    Disk × Except RequestError String :=
  match mirrorRoot with
  | none => (disk, .error noMirrorError)
  | some root =>
    match resolveMirrorAbs cwd root relPath with
    | .error e => (disk, .error e)
    | .ok path =>
      match diskConflict H (disk path) baseVersion force with
      | some conflict => (disk, .error conflict)
      | none =>
        let bytes := Utf8.encode content
        (Function.update disk path (some bytes), .ok (H.sha256Buffer bytes))

end

section

variable (server : CentralServer Bytes) (attempt : Attempt) (s : CentralState Bytes)

structure TextTarget extends RemoteTarget where
  mime : Option String
  record : Option FileRow

def resolveTextTarget (nodeId : String) (relPath : RemotePath) : Except RequestError TextTarget := do
  let target ← resolveRemoteTarget server nodeId relPath
  let mime := mimeFor target.filename
  let record := getFileRecord s.db nodeId target.remotePath
  if record.any (·.isNativeFormat) then throw (nativeTextError (pathText relPath))
  if !isEditableMime mime then throw (notEditableTextError (pathText relPath))
  return { target with mime, record }

def statReadable (target : RemoteTarget) (relPath : RemotePath) : Except RequestError FileRef :=
  match server.stat attempt s.objects target.remoteName target.remotePath with
  | .error message => .error (plainError message)
  | .ok none => .error (fileNotFoundError (pathText relPath))
  | .ok (some ref) =>
    if ref.isNativeFormat then .error (nativeTextError (pathText relPath)) else .ok ref

def readFileContentRemote (nodeId : String) (relPath : RemotePath) :
    Except RequestError TextContent := do
  let target ← resolveTextTarget server s nodeId relPath
  let _ ← statReadable server attempt s target.toRemoteTarget relPath
  match CentralServer.get attempt s.objects target.remoteName target.remotePath with
  | .error message => throw (plainError message)
  | .ok buf =>
    editableTextContent server.hashing buf (pathText relPath) target.filename target.mime none

/-- `assertBaseVersion` of a text write. -/
def textVersionRefusal (target : RemoteTarget) (relPath : RemotePath) (baseVersion : Option String)
    (force : Bool) : Option RequestError :=
  match present baseVersion, force with
  | some version, false =>
    match server.stat attempt s.objects target.remoteName target.remotePath with
    | .error message => some (plainError message)
    | .ok none => none
    | .ok (some ref) =>
      if ref.isNativeFormat then some (nativeTextError (pathText relPath))
      else
        match CentralServer.get attempt s.objects target.remoteName target.remotePath with
        | .error message => some (plainError message)
        | .ok current =>
          if server.hashing.sha256Buffer current = version then none
          else some (changedSinceOpened (server.hashing.sha256Buffer current))
  | _, _ => none

def putText (target : TextTarget) (bytes : Bytes) :
    CentralState Bytes × Except RequestError String :=
  let object := CentralServer.putObject attempt
    (s.objects target.remoteName target.remotePath) bytes
  let objects := s.objects.set target.remoteName target.remotePath (some object)
  match attempt.put with
  | .failed message tookEffect =>
    (if tookEffect then { s with objects } else s, .error (plainError message))
  | .done =>
    let db := match target.record with
      | none => s.db
      | some r =>
        recordRemotePush s.db r.id target.remoteName (server.pushedHash target.remoteName object)
    ({ s with db, objects }, .ok (server.hashing.sha256Buffer bytes))

def writeFileContentRemote (nodeId : String) (relPath : RemotePath) (content : List Char)
    (baseVersion : Option String) (force : Bool) :
    CentralState Bytes × Except RequestError String :=
  match resolveTextTarget server s nodeId relPath with
  | .error e => (s, .error e)
  | .ok target =>
    match textVersionRefusal server attempt s target.toRemoteTarget relPath baseVersion force with
    | some refusal => (s, .error refusal)
    | none => putText server attempt s target (Utf8.encode content)

end

inductive NodeFileContent where
  | text (text : List Char)
  | binary (base64 : List Char) (bytes : ℕ)
  | tooLarge (bytes : ℕ)
deriving DecidableEq

def maxReadBytes : ℕ := 1000000

def classifyBytes (bytes : Bytes) : NodeFileContent :=
  if maxReadBytes < bytes.length then .tooLarge bytes.length
  else if bytes.contains 0 then .binary (Base64.encode bytes) bytes.length
  else .text (Utf8.decode bytes)

open CentralRetry Content Files Library
open Library.PosixPath (WorkingDirectory)
open RemoteSweep

variable {H : Hashing Bytes} {cwd : WorkingDirectory} {disk : Disk} {relPath path root : String}
  {buf : Bytes} {mime localPath : Option String} {filename : String} {shown : TextContent}

theorem sha256_ne_empty (H : Hashing Bytes) (buf : Bytes) : H.sha256Buffer buf ≠ "" := by
  intro hempty
  have hlength := H.sha256_length buf
  rw [hempty] at hlength
  exact absurd hlength (by decide)

theorem present_sha256 (H : Hashing Bytes) (buf : Bytes) :
    present (some (H.sha256Buffer buf)) = some (H.sha256Buffer buf) := by
  simp [present, sha256_ne_empty H buf]

theorem editableTextContent_eq_ok_iff :
    editableTextContent H buf relPath filename mime localPath = .ok shown ↔
      isEditableMime mime = true ∧ 0 ∉ buf ∧
        shown = ⟨Utf8.decode buf, H.sha256Buffer buf, filename, mime, localPath⟩ := by
  unfold editableTextContent
  cases hmime : isEditableMime mime with
  | false => simp
  | true =>
    by_cases hnul : 0 ∈ buf
    · simp [hnul]
    · simp [hnul, eq_comm]

variable {e : RequestError}

theorem code_of_editableTextContent_eq_error
    (h : editableTextContent H buf relPath filename mime localPath = .error e) :
    e.code = some .notEditable := by
  unfold editableTextContent at h
  split at h
  · rw [← Except.error.inj h]
    rfl
  · cases h

theorem readFileContent_of_disk (hpath : resolveMirrorAbs cwd root relPath = .ok path)
    (hbuf : disk path = some buf) :
    readFileContent H cwd (some root) disk relPath =
      editableTextContent H buf relPath (basename path) (mimeFor (basename path)) (some path) := by
  simp only [readFileContent, bind, Except.bind, hpath, hbuf]

theorem exists_of_readFileContent {mirrorRoot : Option String}
    (h : readFileContent H cwd mirrorRoot disk relPath = .ok shown) :
    ∃ root path buf, mirrorRoot = some root ∧ resolveMirrorAbs cwd root relPath = .ok path ∧
      disk path = some buf := by
  cases mirrorRoot with
  | none => cases h
  | some root =>
    simp only [readFileContent, bind, Except.bind] at h
    cases hpath : resolveMirrorAbs cwd root relPath with
    | error e => simp [hpath] at h
    | ok path =>
      cases hbuf : disk path with
      | none => simp [hpath, hbuf, throw, throwThe, MonadExceptOf.throw] at h
      | some buf => exact ⟨root, path, buf, rfl, hpath, hbuf⟩

theorem writeFileContent_of_disk (hpath : resolveMirrorAbs cwd root relPath = .ok path)
    (hbuf : disk path = some buf) (content : List Char) :
    writeFileContent H cwd (some root) disk relPath content (some (H.sha256Buffer buf)) false =
      (Function.update disk path (some (Utf8.encode content)),
        .ok (H.sha256Buffer (Utf8.encode content))) := by
  have hpasses : diskConflict H (disk path) (some (H.sha256Buffer buf)) false = none := by
    simp [diskConflict, present_sha256, hbuf]
  simp only [writeFileContent, hpath, hpasses]

theorem writeFileContent_shown_iff (hpath : resolveMirrorAbs cwd root relPath = .ok path)
    (hbuf : disk path = some buf)
    (hshown : readFileContent H cwd (some root) disk relPath = .ok shown) :
    (writeFileContent H cwd (some root) disk relPath shown.content (some shown.version) false).1 =
      disk ↔ Utf8.Valid buf := by
  rw [readFileContent_of_disk hpath hbuf, editableTextContent_eq_ok_iff] at hshown
  obtain ⟨-, -, rfl⟩ := hshown
  rw [writeFileContent_of_disk hpath hbuf]
  simp only [Function.update_eq_self_iff, hbuf, Option.some_inj]
  exact Utf8.encode_decode_iff

theorem mirror_text_iff (H : Hashing Bytes) (cwd : WorkingDirectory) (mirrorRoot : Option String)
    (disk : Disk) (relPath : String) :
    (∀ shown, readFileContent H cwd mirrorRoot disk relPath = .ok shown →
      (writeFileContent H cwd mirrorRoot disk relPath shown.content (some shown.version) false).1 =
        disk) ↔
    ∀ root path buf, mirrorRoot = some root → resolveMirrorAbs cwd root relPath = .ok path →
      disk path = some buf → isEditableMime (mimeFor (basename path)) = true → 0 ∉ buf →
      Utf8.Valid buf := by
  constructor
  · rintro hsaved root path buf rfl hpath hbuf hmime hnul
    have hshown := readFileContent_of_disk (H := H) hpath hbuf
    rw [editableTextContent_eq_ok_iff.mpr ⟨hmime, hnul, rfl⟩] at hshown
    exact (writeFileContent_shown_iff hpath hbuf hshown).mp (hsaved _ hshown)
  · intro hvalid shown hshown
    obtain ⟨root, path, buf, rfl, hpath, hbuf⟩ := exists_of_readFileContent hshown
    refine (writeFileContent_shown_iff hpath hbuf hshown).mpr ?_
    rw [readFileContent_of_disk hpath hbuf, editableTextContent_eq_ok_iff] at hshown
    exact hvalid root path buf rfl hpath hbuf hshown.1 hshown.2.1

theorem code_of_readFileContent_eq_error (hpath : resolveMirrorAbs cwd root relPath = .ok path)
    (hbuf : disk path = some buf) (h : readFileContent H cwd (some root) disk relPath = .error e) :
    e.code = some .notEditable := by
  rw [readFileContent_of_disk hpath hbuf] at h
  exact code_of_editableTextContent_eq_error h

section

variable {server : CentralServer Bytes} {attempt reads writes : Attempt} {s : CentralState Bytes}
  {nodeId : String} {rel : RemotePath} {target : TextTarget} {object : RemoteObject Bytes}

theorem exists_of_readFileContentRemote
    (h : readFileContentRemote server attempt s nodeId rel = .ok shown) :
    ∃ target object, resolveTextTarget server s nodeId rel = .ok target ∧
      s.objects target.remoteName target.remotePath = some object ∧
      object.isNativeFormat = false ∧
      editableTextContent server.hashing object.bytes (pathText rel) target.filename target.mime
        none = .ok shown := by
  simp only [readFileContentRemote, bind, Except.bind] at h
  cases htarget : resolveTextTarget server s nodeId rel with
  | error e => simp [htarget] at h
  | ok target =>
    simp only [htarget, statReadable, CentralServer.stat] at h
    cases hfails : attempt.statFails target.remoteName target.remotePath with
    | some message => simp [hfails] at h
    | none =>
      simp only [hfails] at h
      cases hobject : s.objects target.remoteName target.remotePath with
      | none => simp [hobject] at h
      | some object =>
        cases hnative : object.isNativeFormat with
        | true => simp [hobject, CentralServer.refOf, hnative] at h
        | false =>
          simp only [hobject, Option.map_some, CentralServer.refOf, hnative,
            Bool.false_eq_true, if_false, CentralServer.get] at h
          cases hget : attempt.getFails target.remoteName target.remotePath with
          | some message => simp [hget, throw, throwThe, MonadExceptOf.throw] at h
          | none =>
            simp only [hget] at h
            exact ⟨target, object, rfl, hobject, hnative, h⟩

theorem readFileContentRemote_of_object (works : attempt.Answers)
    (htarget : resolveTextTarget server s nodeId rel = .ok target)
    (hobject : s.objects target.remoteName target.remotePath = some object)
    (hnative : object.isNativeFormat = false) :
    readFileContentRemote server attempt s nodeId rel =
      editableTextContent server.hashing object.bytes (pathText rel) target.filename target.mime
        none := by
  simp only [readFileContentRemote, bind, Except.bind, htarget, statReadable, CentralServer.stat,
    works.stat, hobject, Option.map_some, CentralServer.refOf, hnative, Bool.false_eq_true, if_false,
    CentralServer.get, works.get]

variable {remote : RemoteTarget}

theorem resolveTextTarget_of_remote (hremote : resolveRemoteTarget server nodeId rel = .ok remote) :
    resolveTextTarget server s nodeId rel =
      if (getFileRecord s.db nodeId remote.remotePath).any (·.isNativeFormat) then
        .error (nativeTextError (pathText rel))
      else if !isEditableMime (mimeFor remote.filename) then
        .error (notEditableTextError (pathText rel))
      else .ok ⟨remote, mimeFor remote.filename, getFileRecord s.db nodeId remote.remotePath⟩ := by
  simp only [resolveTextTarget, bind, Except.bind, hremote]
  split
  · rfl
  · split <;> rfl

theorem code_of_readFileContentRemote_eq_error (works : attempt.Answers)
    (hremote : resolveRemoteTarget server nodeId rel = .ok remote)
    (hobject : s.objects remote.remoteName remote.remotePath = some object)
    (h : readFileContentRemote server attempt s nodeId rel = .error e) :
    e.code = some .notEditable := by
  simp only [readFileContentRemote, bind, Except.bind, resolveTextTarget_of_remote hremote] at h
  split_ifs at h
  · rw [← Except.error.inj h]
    rfl
  · rw [← Except.error.inj h]
    rfl
  · cases hnative : object.isNativeFormat with
    | true =>
      simp only [statReadable, CentralServer.stat, works.stat, hobject, Option.map_some,
        CentralServer.refOf, hnative, if_true] at h
      rw [← Except.error.inj h]
      rfl
    | false =>
      simp only [statReadable, CentralServer.stat, works.stat, hobject, Option.map_some,
        CentralServer.refOf, hnative, Bool.false_eq_true, if_false, CentralServer.get,
        works.get] at h
      exact code_of_editableTextContent_eq_error h

theorem textVersionRefusal_of_object
    (hobject : s.objects target.remoteName target.remotePath = some object)
    (hnative : object.isNativeFormat = false) (works : attempt.Answers) :
    textVersionRefusal server attempt s target.toRemoteTarget rel
      (some (server.hashing.sha256Buffer object.bytes)) false = none := by
  simp only [textVersionRefusal, present_sha256, CentralServer.stat, works.stat, hobject,
    Option.map_some, CentralServer.refOf, hnative, Bool.false_eq_true, if_false, CentralServer.get,
    works.get, if_true]

theorem set_self {objects : Objects Bytes} {name : String} {p : RemotePath}
    (hobject : objects name p = some object) : objects.set name p (some object) = objects := by
  funext n q
  unfold Objects.set
  split
  · rename_i hsame
    rw [hsame.1, hsame.2, hobject]
  · rfl

theorem objects_putText {content : Bytes}
    (hobject : s.objects target.remoteName target.remotePath = some object) :
    (putText server attempt s target content).1.objects = s.objects ∨
      (putText server attempt s target content).1.objects =
        s.objects.set target.remoteName target.remotePath (some { object with bytes := content }) := by
  unfold putText
  cases attempt.put with
  | done => exact .inr (by simp only [CentralServer.putObject, hobject])
  | failed message tookEffect =>
    cases tookEffect with
    | false => exact .inl rfl
    | true => exact .inr (by simp only [CentralServer.putObject, hobject, if_true])

theorem objects_putText_of_answers {content : Bytes} (works : attempt.Answers)
    (hobject : s.objects target.remoteName target.remotePath = some object) :
    (putText server attempt s target content).1.objects =
      s.objects.set target.remoteName target.remotePath (some { object with bytes := content }) := by
  simp only [putText, works.put, CentralServer.putObject, hobject]

theorem objects_writeFileContentRemote (htarget : resolveTextTarget server s nodeId rel = .ok target)
    (hobject : s.objects target.remoteName target.remotePath = some object)
    (hvalid : Utf8.Valid object.bytes) (baseVersion : Option String) (force : Bool) :
    (writeFileContentRemote server attempt s nodeId rel (Utf8.decode object.bytes) baseVersion
      force).1.objects = s.objects := by
  simp only [writeFileContentRemote, htarget]
  cases textVersionRefusal server attempt s target.toRemoteTarget rel baseVersion force with
  | some refusal => rfl
  | none =>
    rw [Utf8.encode_decode_iff.mpr hvalid]
    rcases @objects_putText server attempt s target object _ hobject with h | h
    · exact h
    · exact h.trans (set_self hobject)

def answeringAttempt : Attempt where
  now := 0
  nowIso := "now"
  statFails _ _ := none
  getFails _ _ := none
  put := .done
  copy := .done
  deleteSource := .done
  delete := .done
  newFileId := none

theorem answeringAttempt_answers : answeringAttempt.Answers := ⟨fun _ _ => rfl, fun _ _ => rfl, rfl⟩

theorem remote_text_iff (server : CentralServer Bytes) (s : CentralState Bytes) (nodeId : String)
    (rel : RemotePath) :
    (∀ reads writes shown, readFileContentRemote server reads s nodeId rel = .ok shown →
      (writeFileContentRemote server writes s nodeId rel shown.content (some shown.version)
        false).1.objects = s.objects) ↔
    ∀ target object, resolveTextTarget server s nodeId rel = .ok target →
      s.objects target.remoteName target.remotePath = some object →
      object.isNativeFormat = false → isEditableMime target.mime = true → 0 ∉ object.bytes →
      Utf8.Valid object.bytes := by
  constructor
  · intro hsaved target object htarget hobject hnative hmime hnul
    have works := answeringAttempt_answers
    have hshown := readFileContentRemote_of_object works htarget hobject hnative
    rw [editableTextContent_eq_ok_iff.mpr ⟨hmime, hnul, rfl⟩] at hshown
    have hkept := hsaved _ answeringAttempt _ hshown
    simp only [writeFileContentRemote, htarget,
      @textVersionRefusal_of_object server _ s rel _ _ hobject hnative works,
      objects_putText_of_answers works hobject] at hkept
    have hat := congrFun (congrFun hkept target.remoteName) target.remotePath
    simp only [Objects.set, and_self, if_true, hobject, Option.some_inj] at hat
    exact Utf8.encode_decode_iff.mp (congrArg RemoteObject.bytes hat)
  · intro hvalid reads writes shown hshown
    obtain ⟨target, object, htarget, hobject, hnative, htext⟩ :=
      exists_of_readFileContentRemote hshown
    obtain ⟨hmime, hnul, rfl⟩ := editableTextContent_eq_ok_iff.mp htext
    exact objects_writeFileContentRemote htarget hobject
      (hvalid target object htarget hobject hnative hmime hnul) _ _

end

/-- An inline answer determines the bytes; a refusal as too large is none. -/
def NodeFileContent.Determines : NodeFileContent → Bytes → Prop
  | .text content, bytes => Utf8.encode content = bytes
  | .binary base64 length, bytes => Base64.decode base64 = some bytes ∧ length = bytes.length
  | .tooLarge length, bytes => length = bytes.length

theorem classifyBytes_determines_iff (bytes : Bytes) : (classifyBytes bytes).Determines bytes ↔
      maxReadBytes < bytes.length ∨ 0 ∈ bytes ∨ Utf8.Valid bytes := by
  unfold classifyBytes
  by_cases hlarge : maxReadBytes < bytes.length
  · simp [hlarge, NodeFileContent.Determines]
  · by_cases hnul : 0 ∈ bytes
    · simp [hlarge, hnul, NodeFileContent.Determines, Base64.decode_encode]
    · simp [hlarge, hnul, NodeFileContent.Determines, Utf8.encode_decode_iff]

/-- A file in Latin-1, in a mirror at `/mirror`. -/
def latin1 : Bytes := [0x63, 0x61, 0x66, 0xE9]

def latin1Disk : Disk := fun path => if path = "/mirror/wip/cafe.txt" then some latin1 else none

/-- What the editor shows and an agent is told of a file is the file, exactly when its bytes are
those of a text wherever they pass for one. -/
theorem text_is_the_bytes_iff (H : Hashing Bytes) (cwd : WorkingDirectory)
    (mirrorRoot : Option String) (disk : Disk) (relPath : String) (server : CentralServer Bytes)
    (s : CentralState Bytes) (nodeId : String) (rel : RemotePath) (bytes : Bytes) :
    (((∀ shown, readFileContent H cwd mirrorRoot disk relPath = .ok shown →
        (writeFileContent H cwd mirrorRoot disk relPath shown.content (some shown.version)
          false).1 = disk) ↔
        ∀ root path buf, mirrorRoot = some root → resolveMirrorAbs cwd root relPath = .ok path →
          disk path = some buf → isEditableMime (mimeFor (basename path)) = true → 0 ∉ buf →
          Utf8.Valid buf) ∧
      ∀ root path buf e, mirrorRoot = some root → resolveMirrorAbs cwd root relPath = .ok path →
        disk path = some buf → readFileContent H cwd mirrorRoot disk relPath = .error e →
        e.code = some .notEditable) ∧
    (((∀ reads writes shown, readFileContentRemote server reads s nodeId rel = .ok shown →
        (writeFileContentRemote server writes s nodeId rel shown.content (some shown.version)
          false).1.objects = s.objects) ↔
        ∀ target object, resolveTextTarget server s nodeId rel = .ok target →
          s.objects target.remoteName target.remotePath = some object →
          object.isNativeFormat = false → isEditableMime target.mime = true → 0 ∉ object.bytes →
          Utf8.Valid object.bytes) ∧
      ∀ (reads : Attempt) remote object e, reads.Answers →
        resolveRemoteTarget server nodeId rel = .ok remote →
        s.objects remote.remoteName remote.remotePath = some object →
        readFileContentRemote server reads s nodeId rel = .error e → e.code = some .notEditable) ∧
    ((classifyBytes bytes).Determines bytes ↔
      maxReadBytes < bytes.length ∨ 0 ∈ bytes ∨ Utf8.Valid bytes) := by
  refine ⟨⟨mirror_text_iff H cwd mirrorRoot disk relPath, ?_⟩,
    ⟨remote_text_iff server s nodeId rel, ?_⟩, classifyBytes_determines_iff bytes⟩
  · rintro root path buf e rfl hpath hbuf h
    exact code_of_readFileContent_eq_error hpath hbuf h
  · intro reads remote object e works hremote hobject h
    exact code_of_readFileContentRemote_eq_error works hremote hobject h

def latin1Hashing : Hashing Bytes where
  md5Buffer buf := String.ofList (List.replicate 32 (if buf = latin1 then 'a' else 'b'))
  sha256Buffer buf := String.ofList (List.replicate 64 (if buf = latin1 then 'a' else 'b'))
  md5_length buf := by simp
  sha256_length buf := by simp

def latin1Shown : TextContent where
  content := "caf".toList ++ [Utf8.replacement]
  version := latin1Hashing.sha256Buffer latin1
  filename := "cafe.txt"
  mimeType := some "text/plain"
  localPath := some "/mirror/wip/cafe.txt"

/-- A Latin-1 file is shown with a replacement character, and the save of what was shown passes
the conflict check and writes that character's bytes; an agent gets the same text. -/
theorem latin1_is_lost :
    readFileContent latin1Hashing ⟨"/", by decide⟩ (some "/mirror") latin1Disk "wip/cafe.txt" =
        .ok latin1Shown ∧
      (writeFileContent latin1Hashing ⟨"/", by decide⟩ (some "/mirror") latin1Disk "wip/cafe.txt"
        latin1Shown.content (some latin1Shown.version) false).1 "/mirror/wip/cafe.txt" =
          some [0x63, 0x61, 0x66, 0xEF, 0xBF, 0xBD] ∧
      latin1Disk "/mirror/wip/cafe.txt" = some latin1 ∧
      ¬ (classifyBytes latin1).Determines latin1 := by
  have hpath : resolveMirrorAbs ⟨"/", by decide⟩ "/mirror" "wip/cafe.txt" =
      .ok "/mirror/wip/cafe.txt" := by
    decide +kernel
  have hbuf : latin1Disk "/mirror/wip/cafe.txt" = some latin1 := by
    rw [latin1Disk, if_pos rfl]
  have hname : basename "/mirror/wip/cafe.txt" = "cafe.txt" := by
    decide +kernel
  have hmime : mimeFor "cafe.txt" = some "text/plain" := by
    decide +kernel
  have hversion : latin1Shown.version = latin1Hashing.sha256Buffer latin1 := rfl
  have hinline : classifyBytes latin1 = .text latin1Shown.content := by
    decide
  refine ⟨?_, ?_, hbuf, ?_⟩
  · rw [readFileContent_of_disk hpath hbuf, hname, hmime]
    exact editableTextContent_eq_ok_iff.mpr ⟨by decide, by decide, rfl⟩
  · rw [hversion, writeFileContent_of_disk hpath hbuf]
    simp only [Function.update_self]
    decide
  · rw [hinline]
    show ¬ Utf8.encode latin1Shown.content = latin1
    decide

end Portuni.FileContent
