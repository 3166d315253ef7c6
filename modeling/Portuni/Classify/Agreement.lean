import Portuni.Content.Hashing
import Portuni.Files.Model

namespace Portuni.Classify

/-!
The two classifiers of a tracked file: `scanRow` of the direct engine, which has
the live remote, and `classifyRecord` of the central one, which has what central
has recorded.
-/

section

open Content Files

universe u

structure LocalFile (Bytes : Type u) where
  bytes : Bytes
  mtime : ℕ
  size : ℕ
  ino : ℕ := 0
  dev : ℕ := 0

structure FileStateRow where
  lastSyncedHash : Option String
  lastSyncedAt : Option String := none
  cachedLocalHash : Option String
  cachedMtime : Option ℕ
  cachedSize : Option ℕ
  cachedIno : Option ℕ := none
  cachedDev : Option ℕ := none

inductive FileClass where
  | clean
  | push
  | pull
  | conflict
  | remoteMissing
  | remoteError
  | native
  | deletedLocal

structure StatusFileEntry where
  fileId : ℕ
  nodeId : String
  filename : String
  localPath : Option LocalPath
  remoteName : Option String
  remotePath : Option RemotePath
  localHash : Option String := none
  remoteHash : Option String := none
  lastSyncedHash : Option String := none
  fileClass : FileClass := .clean

def truthy (s : Option String) : Bool := s.any (· ≠ "")

variable {Bytes : Type u} (H : Hashing Bytes)

def cachedHash (file : LocalFile Bytes) (cached : Option FileStateRow) : Option String :=
  cached.bind fun row =>
    if row.cachedMtime = some file.mtime ∧ row.cachedSize = some file.size ∧
        truthy row.cachedLocalHash then row.cachedLocalHash
    else none

def freshHash (file : LocalFile Bytes) (remoteHashRef : Option String)
    (cached : Option FileStateRow) : String :=
  match remoteHashRef.or (cached.bind (·.lastSyncedHash)) with
  | some ref => H.hashLike ref file.bytes
  | none => H.sha256Buffer file.bytes

def localHashFor (file : Option (LocalFile Bytes)) (remoteHashRef : Option String)
    (cached : Option FileStateRow) : Option String × Option FileStateRow :=
  match file with
  | none => (none, cached)
  | some file =>
    match cachedHash file cached with
    | some hash => (some hash, cached)
    | none =>
      let hash := freshHash H file remoteHashRef cached
      (some hash, some {
        lastSyncedHash := cached.bind (·.lastSyncedHash)
        lastSyncedAt := cached.bind (·.lastSyncedAt)
        cachedLocalHash := some hash
        cachedMtime := some file.mtime
        cachedSize := some file.size
        cachedIno := some file.ino
        cachedDev := some file.dev })

/-- What is known of a remote object. A cached hash proves that it is there; that there is
none proves nothing. -/
inductive RemoteKnowledge where
  | present (hash : Option String)
  | absent
  | unknown

def knowledgeFromCachedHash : Option String → RemoteKnowledge
  | none => .unknown
  | some hash => .present (some hash)

def knowledgeFromRecordAndObservation (recordHash observedHash : Option String) :
    RemoteKnowledge :=
  match recordHash, observedHash with
  | some hash, _ => .present (some hash)
  | none, some hash => .present (some hash)
  | none, none => .unknown

def treatAsExisting : RemoteKnowledge → Bool
  | .present _ => true
  | _ => false

def hashOf : RemoteKnowledge → Option String
  | .present hash => hash
  | _ => none

structure RemoteStat where
  hash : Option String
  «exists» : Bool

/-- `remoteStatFor`: the listing where it has the path, else `stat`; `none` if that fails. -/
def remoteStatFor (listed : Option (Option String)) (stat : Except String (Option (Option String))) :
    Option RemoteStat :=
  match listed with
  | some hash => some ⟨hash, true⟩
  | none =>
    match stat with
    | .ok none => some ⟨none, false⟩
    | .ok (some hash) => some ⟨hash, true⟩
    | .error _ => none

def fourWay (localMatchesLast remoteMatchesLast : Bool) : FileClass :=
  match localMatchesLast, remoteMatchesLast with
  | true, true => .clean
  | false, true => .push
  | true, false => .pull
  | false, false => .conflict

def classifyMissing (localHash last : Option String) : FileClass :=
  if localHash.isSome ∧ last = none then .push else .remoteMissing

def classifyNoLocal (last : Option String) : FileClass :=
  if truthy last then .deletedLocal else .pull

def classifyNoBaseline (localHash : String) (remoteHash : Option String) : FileClass :=
  if remoteHash = some localHash then .clean else .conflict

variable (disk : LocalPath → Option (LocalFile Bytes))

def localPathOf (mirrorRoot : Option LocalPath) (nodeRoot : Except String RemotePath)
    (remotePath : Option RemotePath) : Option LocalPath := do
  let mirrorRoot ← mirrorRoot
  let remotePath ← remotePath
  let nodeRoot ← nodeRoot.toOption
  (deriveLocalPath mirrorRoot nodeRoot remotePath).toOption

/-- The class that `scanRow` gives from the live answer about a routed record. -/
def scanClass (localHash last : Option String) (rs : RemoteStat) : FileClass :=
  if !rs.exists then classifyMissing localHash last
  else
    match localHash with
    | none => classifyNoLocal last
    | some localHash =>
      match last with
      | none => classifyNoBaseline localHash rs.hash
      | some last =>
        match rs.hash with
        | none => if localHash = last then .clean else .push
        | some remoteHash => fourWay (localHash = last) (remoteHash = last)

/-- One record, as the direct engine classifies it. `info` is missing where the node cannot
be resolved, `answer` where the remote cannot be reached. -/
def scanRow (localOnly : Bool) (row : FileRow) (info : Option NodeInfo)
    (mirrorRoot : Option LocalPath) (state : Option FileStateRow) (answer : Option RemoteStat) :
    StatusFileEntry :=
  match info with
  | none =>
    { fileId := row.id, nodeId := row.nodeId, filename := row.filename, localPath := none,
      remoteName := row.remoteName, remotePath := row.remotePath, fileClass := .remoteError }
  | some info =>
    let localPath := localPathOf mirrorRoot (buildNodeRoot info) row.remotePath
    let base : StatusFileEntry :=
      { fileId := row.id, nodeId := row.nodeId, filename := row.filename, localPath,
        remoteName := row.remoteName, remotePath := row.remotePath }
    if row.isNativeFormat then { base with fileClass := .native }
    else if row.remotePath.isNone then { base with fileClass := .remoteError }
    else
      let last := state.bind (·.lastSyncedHash)
      let localHash := (localHashFor H (localPath.bind disk) row.currentRemoteHash state).1
      let base := { base with lastSyncedHash := last, localHash }
      if localOnly then
        { base with fileClass := if localHash.isNone then .deletedLocal else .clean }
      else if row.remoteName.isNone then
        { base with fileClass := if localHash.isNone then .clean else .push }
      else
        match answer with
        | none => { base with fileClass := .remoteError }
        | some rs => { base with remoteHash := rs.hash, fileClass := scanClass localHash last rs }

structure NodeContext where
  nodeId : String
  nodeRoot : RemotePath
  mirrorRoot : Option LocalPath
  remoteName : Option String

/-- The class that `classifyRecord` gives from what is known of the remote. -/
def recordClass (localHash last : Option String) (knowledge : RemoteKnowledge) : FileClass :=
  if !treatAsExisting knowledge then classifyMissing localHash last
  else
    match localHash with
    | none => classifyNoLocal last
    | some localHash =>
      match last with
      | none => classifyNoBaseline localHash (hashOf knowledge)
      | some last => fourWay (localHash = last) (hashOf knowledge = some last)

/-- One record, as the central engine classifies it. `observedHash` is what this device has
seen of the object itself. -/
def classifyRecord (ctx : NodeContext) (row : FileRow) (state : Option FileStateRow)
    (observedHash : Option String) : StatusFileEntry :=
  let localPath := localPathOf ctx.mirrorRoot (.ok ctx.nodeRoot) row.remotePath
  let base : StatusFileEntry :=
    { fileId := row.id, nodeId := ctx.nodeId, filename := row.filename, localPath,
      remoteName := ctx.remoteName, remotePath := row.remotePath }
  if row.isNativeFormat then { base with fileClass := .native }
  else if ctx.remoteName.isNone ∨ row.remotePath.isNone then
    { base with fileClass := .remoteError }
  else
    let last := state.bind (·.lastSyncedHash)
    let knowledge := knowledgeFromRecordAndObservation row.currentRemoteHash observedHash
    let remoteHash := hashOf knowledge
    let localHash := (localHashFor H (localPath.bind disk) remoteHash state).1
    { base with
      lastSyncedHash := last, localHash, remoteHash
      fileClass := recordClass localHash last knowledge }

end

open Content Files

universe u

variable {Bytes : Type u} {H : Hashing Bytes} {disk : LocalPath → Option (LocalFile Bytes)}
  {backend : Backend} {object : Option Bytes} {row : FileRow} {rs : RemoteStat} {info : NodeInfo}
  {ctx : NodeContext} {state : Option FileStateRow} {observedHash : Option String}
  {localHash last : Option String} {hash : String} {bytes : Bytes} {file : LocalFile Bytes}

/-- Central has recorded the object that is at the path, and the live answer, which may
have no hash to tell, says nothing else. -/
structure Agrees (H : Hashing Bytes) (backend : Backend) (object : Option Bytes) (row : FileRow)
    (rs : RemoteStat) : Prop where
  recorded : row.currentRemoteHash = object.map (H.canonicalHash backend)
  isThere : rs.exists = object.isSome
  hash : ∀ hash, rs.hash = some hash → object.map (H.canonicalHash backend) = some hash

structure Routed (ctx : NodeContext) (row : FileRow) (info : NodeInfo) : Prop where
  row : row.remoteName.isSome
  context : ctx.remoteName.isSome
  root : buildNodeRoot info = .ok ctx.nodeRoot

def localFile (disk : LocalPath → Option (LocalFile Bytes)) (ctx : NodeContext) (row : FileRow) :
    Option (LocalFile Bytes) :=
  (localPathOf ctx.mirrorRoot (.ok ctx.nodeRoot) row.remotePath).bind disk

/-- Of a missing object the device must not remember a hash, and an object whose live answer
has no hash must leave nothing to compare with it. -/
def Comparable (H : Hashing Bytes) (backend : Backend) (object : Option Bytes) (rs : RemoteStat)
    (localHash last observedHash : Option String) : Prop :=
  match object with
  | none => observedHash = none
  | some bytes =>
    rs.hash = none → ∀ hash, localHash = some hash →
      match last with
      | none => hash ≠ H.canonicalHash backend bytes
      | some last => last = H.canonicalHash backend bytes

/-- The cache has the hash of the file in the algorithm of `ref`, or none that counts. -/
def CacheFits (H : Hashing Bytes) (ref : String) (file : LocalFile Bytes)
    (state : Option FileStateRow) : Prop :=
  ∀ hash, cachedHash file state = some hash → hash = H.hashLike ref file.bytes

/-- Neither side knows the baseline, or it is what is on the remote. -/
def contentClass (last : Option String) (remoteHash : String) : FileClass :=
  if last = none ∨ last = some remoteHash then .clean else .conflict

theorem scanRow_fileClass (routed : Routed ctx row info) (file : row.isNativeFormat = false)
    (path : row.remotePath.isSome) :
    (scanRow H disk false row (some info) ctx.mirrorRoot state (some rs)).fileClass =
      scanClass (localHashFor H (localFile disk ctx row) row.currentRemoteHash state).1
        (state.bind (·.lastSyncedHash)) rs := by
  have hname : row.remoteName.isNone = false := by simp [routed.row]
  have hpath : row.remotePath.isNone = false := by simp [path]
  simp only [scanRow, file, hname, hpath, routed.root, localFile, Bool.false_eq_true, if_false]

theorem classifyRecord_fileClass (routed : Routed ctx row info) (file : row.isNativeFormat = false)
    (path : row.remotePath.isSome) : (classifyRecord H disk ctx row state observedHash).fileClass =
      recordClass (localHashFor H (localFile disk ctx row)
          (hashOf (knowledgeFromRecordAndObservation row.currentRemoteHash observedHash)) state).1
        (state.bind (·.lastSyncedHash))
        (knowledgeFromRecordAndObservation row.currentRemoteHash observedHash) := by
  have hname : ctx.remoteName.isNone = false := by simp [routed.context]
  have hpath : row.remotePath.isNone = false := by simp [path]
  simp only [classifyRecord, file, hname, hpath, localFile, Bool.false_eq_true, or_self, if_false]

theorem classes_absent_iff (missing : rs.exists = false) (localHash' : Option String)
    (same : observedHash = none → localHash' = localHash) :
    scanClass localHash last rs =
        recordClass localHash' last (knowledgeFromRecordAndObservation none observedHash) ↔
      observedHash = none := by
  cases observedHash with
  | none => simp [scanClass, missing, recordClass, knowledgeFromRecordAndObservation,
      treatAsExisting, same rfl]
  | some observed =>
    -- the remembered hash counts as an object, which the live answer denies
    simp only [scanClass, missing, recordClass, knowledgeFromRecordAndObservation,
      treatAsExisting, classifyMissing, classifyNoLocal, classifyNoBaseline, fourWay]
    cases localHash' <;> cases last <;> grind

theorem classes_present_iff (there : rs.exists = true)
    (answered : ∀ hash', rs.hash = some hash' → hash = hash') :
    scanClass localHash last rs = recordClass localHash last (.present (some hash)) ↔
      (rs.hash = none → ∀ found, localHash = some found →
        match last with
        | none => found ≠ hash
        | some last => last = hash) := by
  simp only [scanClass, there, recordClass, treatAsExisting, hashOf, Bool.not_true,
    Bool.false_eq_true, if_false, classifyNoBaseline, fourWay]
  cases hlocal : localHash with
  | none => simp
  | some found =>
    cases hrs : rs.hash with
    | some hash' =>
      obtain rfl := answered hash' hrs
      cases last <;> simp
    | none =>
      cases last with
      | none => grind
      | some last => grind

theorem sameClass_iff (routed : Routed ctx row info) (agrees : Agrees H backend object row rs) :
    (scanRow H disk false row (some info) ctx.mirrorRoot state (some rs)).fileClass =
        (classifyRecord H disk ctx row state observedHash).fileClass ↔
      row.isNativeFormat ∨ row.remotePath = none ∨
        Comparable H backend object rs
          (localHashFor H (localFile disk ctx row) row.currentRemoteHash state).1
          (state.bind (·.lastSyncedHash)) observedHash := by
  cases hnative : row.isNativeFormat with
  | true => simp [scanRow, classifyRecord, hnative]
  | false =>
    cases hpath : row.remotePath with
    | none => simp [scanRow, classifyRecord, hnative, hpath]
    | some path =>
      rw [scanRow_fileClass routed hnative (by simp [hpath]),
        classifyRecord_fileClass routed hnative (by simp [hpath])]
      simp only [Bool.false_eq_true, reduceCtorEq, false_or, agrees.recorded]
      cases object with
      | none =>
        refine classes_absent_iff (by simpa using agrees.isThere) _ fun hobserved => ?_
        rw [hobserved]
        rfl
      | some bytes =>
        refine classes_present_iff (by simpa using agrees.isThere) fun hash' hhash => ?_
        simpa using agrees.hash hash' hhash

theorem localHashFor_of_fits {bytes : Bytes} (same : file.bytes = bytes)
    (fits : CacheFits H (H.canonicalHash backend bytes) file state) :
    (localHashFor H (some file) (some (H.canonicalHash backend bytes)) state).1 =
      some (H.canonicalHash backend bytes) := by
  have hlike : H.hashLike (H.canonicalHash backend bytes) file.bytes =
      H.canonicalHash backend bytes := by
    rw [same, H.hashLike_canonicalHash]
  unfold localHashFor
  cases hcached : cachedHash file state with
  | some hash =>
    simp only [hcached]
    rw [fits hash hcached, hlike]
  | none => simp [hcached, freshHash, hlike]

theorem recordClass_identical :
    recordClass (some hash) last (.present (some hash)) = contentClass last hash := by
  cases last with
  | none => simp [recordClass, treatAsExisting, classifyNoBaseline, hashOf, contentClass]
  | some last =>
    by_cases h : last = hash
    · simp [recordClass, treatAsExisting, hashOf, contentClass, fourWay, h]
    · simp [recordClass, treatAsExisting, hashOf, contentClass, fourWay, h, Ne.symm h]

/-- The two engines class a routed record alike as far as they can compare it, and identical
contents are clean, or a conflict if neither is the baseline. -/
theorem classifiers_agree (routed : Routed ctx row info) (agrees : Agrees H backend object row rs) :
    ((scanRow H disk false row (some info) ctx.mirrorRoot state (some rs)).fileClass =
        (classifyRecord H disk ctx row state observedHash).fileClass ↔
      row.isNativeFormat ∨ row.remotePath = none ∨
        Comparable H backend object rs
          (localHashFor H (localFile disk ctx row) row.currentRemoteHash state).1
          (state.bind (·.lastSyncedHash)) observedHash) ∧
    ∀ file, row.isNativeFormat = false → localFile disk ctx row = some file →
      object = some file.bytes → CacheFits H (H.canonicalHash backend file.bytes) file state →
        (classifyRecord H disk ctx row state observedHash).fileClass =
            contentClass (state.bind (·.lastSyncedHash)) (H.canonicalHash backend file.bytes) ∧
          (rs.hash ≠ none →
            (scanRow H disk false row (some info) ctx.mirrorRoot state (some rs)).fileClass =
              contentClass (state.bind (·.lastSyncedHash))
                (H.canonicalHash backend file.bytes)) := by
  have hiff : (scanRow H disk false row (some info) ctx.mirrorRoot state (some rs)).fileClass =
      (classifyRecord H disk ctx row state observedHash).fileClass ↔ _ :=
    sameClass_iff routed agrees
  refine ⟨hiff, fun file hfile hlocal hobject hfits => ?_⟩
  subst hobject
  have hpath : row.remotePath.isSome := by
    cases hpath : row.remotePath with
    | none => simp [localFile, localPathOf, hpath] at hlocal
    | some path => rfl
  have hrecord : (classifyRecord H disk ctx row state observedHash).fileClass =
      contentClass (state.bind (·.lastSyncedHash)) (H.canonicalHash backend file.bytes) := by
    rw [classifyRecord_fileClass routed hfile hpath, agrees.recorded, hlocal]
    simp only [Option.map_some, knowledgeFromRecordAndObservation, hashOf]
    rw [localHashFor_of_fits rfl hfits, recordClass_identical]
  refine ⟨hrecord, fun hhash => ?_⟩
  rw [← hrecord]
  exact hiff.mpr (.inr (.inr fun hnone => absurd hnone hhash))

def sampleRow : FileRow where
  id := 0
  nodeId := "node"
  filename := "a.md"
  remoteName := some "drive"
  remotePath := some ["org", "projects", "key", "wip", "a.md"]
  remoteFileId := none
  currentRemoteHash := some (sampleHashing.md5Buffer true)
  isNativeFormat := false

def sampleInfo : NodeInfo := ⟨some "org", "project", "key"⟩

def sampleContext : NodeContext := ⟨"node", ["org", "projects", "key"], some ["mirror"], some "drive"⟩

def sampleDisk (path : LocalPath) : Option (LocalFile Bool) :=
  if path = ["mirror", "wip", "a.md"] then some { bytes := true, mtime := 5, size := 1 } else none

def sampleBaseline : FileStateRow :=
  { lastSyncedHash := some (sampleHashing.md5Buffer false), cachedLocalHash := none,
    cachedMtime := none, cachedSize := none }

def sampleStat : RemoteStat := ⟨some (sampleHashing.md5Buffer true), true⟩

theorem routed_sample : Routed sampleContext sampleRow sampleInfo where
  row := rfl
  context := rfl
  root := by rfl

theorem agrees_sample : Agrees sampleHashing .drive (some true) sampleRow sampleStat where
  recorded := rfl
  isThere := rfl
  hash _ h := h

theorem classifiers_agree_sample :
    (scanRow sampleHashing sampleDisk false sampleRow (some sampleInfo) (some ["mirror"]) none
        (some sampleStat)).fileClass = .clean ∧
      (classifyRecord sampleHashing sampleDisk sampleContext sampleRow none none).fileClass =
        .clean := by
  have hlocal : localFile sampleDisk sampleContext sampleRow =
      some { bytes := true, mtime := 5, size := 1 } := by rfl
  have hfits : CacheFits sampleHashing (sampleHashing.canonicalHash .drive true)
      { bytes := true, mtime := 5, size := 1 } none := fun hash h => by cases h
  have hclean := (@classifiers_agree _ _ _ _ _ _ _ _ _ none none routed_sample agrees_sample).2 _
    rfl hlocal rfl hfits
  exact ⟨hclean.2 (by decide), hclean.1⟩

/-- The same edit was made here and on the remote: a conflict over identical bytes. -/
theorem identical_bytes_conflict :
    Agrees sampleHashing .drive (some true) sampleRow sampleStat ∧
      (localFile sampleDisk sampleContext sampleRow).map (·.bytes) = some true ∧
      (scanRow sampleHashing sampleDisk false sampleRow (some sampleInfo) (some ["mirror"])
        (some sampleBaseline) (some sampleStat)).fileClass = .conflict ∧
      (classifyRecord sampleHashing sampleDisk sampleContext sampleRow (some sampleBaseline)
        none).fileClass = .conflict :=
  ⟨agrees_sample, by rfl, by rfl, by rfl⟩

end Portuni.Classify
