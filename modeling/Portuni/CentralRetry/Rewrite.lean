import Portuni.CentralRetry.Repeat

/-!
A byte write and a registration that took effect, asked for once more.
-/

namespace Portuni.CentralRetry

open Content FileOps Files Files.Database RemoteSweep

universe u

/-- Statements that write what is known of a file: its row keeps its id and its place. -/
structure KeepsPlace (set : FileRow → FileRow) : Prop where
  id : ∀ r, (set r).id = r.id
  nodeId : ∀ r, (set r).nodeId = r.nodeId
  remotePath : ∀ r, (set r).remotePath = r.remotePath
  isNativeFormat : ∀ r, (set r).isNativeFormat = r.isNativeFormat

structure Rewritten (db db' : Database) (id : ℕ) (set : FileRow → FileRow) : Prop where
  files : db'.files = (db.updateFile id set).files
  keeps : KeepsPlace set

variable {db db' db'' : Database} {set set' : FileRow → FileRow} {nodeId : String}
  {path : RemotePath} {id : ℕ} {r : FileRow}

theorem Rewritten.refl (db : Database) (id : ℕ) : Rewritten db db id fun r => r where
  files := by simp [updateFile]
  keeps := ⟨fun _ => rfl, fun _ => rfl, fun _ => rfl, fun _ => rfl⟩

theorem Rewritten.updateFile (h : Rewritten db db' id set) (keeps : KeepsPlace set') :
    Rewritten db (db'.updateFile id set') id (fun r => set' (set r)) where
  files := by
    change db'.files.map _ = db.files.map _
    rw [h.files]
    change (db.files.map _).map _ = _
    rw [List.map_map]
    refine List.map_congr_left fun r _ => ?_
    by_cases hid : r.id = id
    · simp [hid, h.keeps.id r]
    · simp [hid]
  keeps :=
    { id := fun r => (keeps.id _).trans (h.keeps.id r)
      nodeId := fun r => (keeps.nodeId _).trans (h.keeps.nodeId r)
      remotePath := fun r => (keeps.remotePath _).trans (h.keeps.remotePath r)
      isNativeFormat := fun r => (keeps.isNativeFormat _).trans (h.keeps.isNativeFormat r) }

theorem Rewritten.getFileRecord (h : Rewritten db db' id set)
    (hrow : getFileRecord db nodeId path = some r) (hid : r.id = id) :
    CentralRetry.getFileRecord db' nodeId path = some (set r) := by
  unfold CentralRetry.getFileRecord at hrow ⊢
  rw [h.files, find?_updateFile fun r' _ _ => by
    rw [h.keeps.nodeId, h.keeps.remotePath], hrow]
  simp [hid]

theorem Rewritten.row (h : Rewritten db db' id set) {r' : FileRow} (hr' : r' ∈ db'.files)
    (hid : r'.id = id) : ∃ r, r' = set r := by
  rw [h.files] at hr'
  obtain ⟨r, -, hr⟩ := mem_updateFile_iff.mp hr'
  by_cases hrid : r.id = id
  · rw [if_pos hrid] at hr
    exact ⟨r, hr.symm⟩
  · rw [if_neg hrid] at hr
    exact absurd (hr ▸ hid) hrid

theorem Rewritten.updateFile_self (h : Rewritten db db' id set)
    (hset : ∀ r, set' (set r) = set r) : db'.updateFile id set' = db' := by
  refine updateFile_of_fixed fun r' hr' hid => ?_
  obtain ⟨r, rfl⟩ := h.row hr' hid
  exact hset r

/-- What `persistRemoteFileId` writes. -/
def withFileId (proved : Option String) (r : FileRow) : FileRow :=
  { r with remoteFileId := proved.or r.remoteFileId }

def withHash (hash : String) (r : FileRow) : FileRow :=
  { r with currentRemoteHash := some hash }

def pushedRow (remoteName hash : String) (fileId : Option String) (r : FileRow) : FileRow :=
  withFileId fileId { r with remoteName := some remoteName, currentRemoteHash := some hash }

theorem keepsPlace_withFileId (proved : Option String) : KeepsPlace (withFileId proved) :=
  ⟨fun _ => rfl, fun _ => rfl, fun _ => rfl, fun _ => rfl⟩

theorem keepsPlace_withHash (hash : String) : KeepsPlace (withHash hash) :=
  ⟨fun _ => rfl, fun _ => rfl, fun _ => rfl, fun _ => rfl⟩

theorem persistFileId_eq (db : Database) (id : ℕ) (proved : Option String) :
    persistFileId db id proved = db.updateFile id (withFileId proved) := by
  cases proved with
  | none => exact (updateFile_of_fixed fun r _ _ => by simp [withFileId]).symm
  | some x => rfl

theorem rewritten_persistFileId (h : Rewritten db db' id set) (proved : Option String) :
    Rewritten db (persistFileId db' id proved) id (fun r => withFileId proved (set r)) := by
  rw [persistFileId_eq]
  exact h.updateFile (keepsPlace_withFileId proved)

theorem rewritten_backfillRemoteHash (db : Database) (r : FileRow) (hash fileId : Option String) :
    ∃ set, Rewritten db (backfillRemoteHash db (some r) hash fileId) r.id set := by
  have hpersisted := rewritten_persistFileId (Rewritten.refl db r.id) fileId
  unfold backfillRemoteHash
  cases hash with
  | none => exact ⟨_, hpersisted⟩
  | some x =>
    simp only
    split
    · exact ⟨_, hpersisted⟩
    · exact ⟨_, hpersisted.updateFile (keepsPlace_withHash x)⟩

variable {remoteName hash : String}

theorem backfillRemoteHash_self {fileId observed : Option String}
    (h : Rewritten db db' id (fun r => pushedRow remoteName hash fileId (set r))) (hid : r.id = id)
    (hhash : r.currentRemoteHash = some hash) (hobserved : observed = none ∨ observed = some hash) :
    backfillRemoteHash db' (some r) observed fileId = db' := by
  have hpersist : persistFileId db' r.id fileId = db' := by
    rw [persistFileId_eq, hid]
    refine h.updateFile_self fun r => ?_
    cases fileId with
    | none => simp [withFileId]
    | some x => simp [withFileId, pushedRow]
  unfold backfillRemoteHash
  simp only [hpersist]
  rcases hobserved with rfl | rfl
  · rfl
  · simp [hhash]

variable {fileId : Option String}

theorem push_self (h : Rewritten db db' id (fun r => pushedRow remoteName hash fileId (set r))) :
    persistFileId (recordRemotePush db' id remoteName hash) id fileId = db' := by
  have hpush : recordRemotePush db' id remoteName hash = db' :=
    h.updateFile_self fun r => by simp [pushedRow, withFileId]
  rw [hpush, persistFileId_eq]
  refine h.updateFile_self fun r => ?_
  cases fileId with
  | none => simp [withFileId]
  | some x => simp [withFileId, pushedRow]

theorem rewritten_push (h : Rewritten db db' id set) :
    Rewritten db (persistFileId (recordRemotePush db' id remoteName hash) id fileId) id
      (fun r => pushedRow remoteName hash fileId (set r)) := by
  have keeps : KeepsPlace fun r : FileRow =>
      { r with remoteName := some remoteName, currentRemoteHash := some hash } :=
    ⟨fun _ => rfl, fun _ => rfl, fun _ => rfl, fun _ => rfl⟩
  exact rewritten_persistFileId (h.updateFile keeps) fileId

section

variable {Bytes : Type u} (server : CentralServer Bytes)

def backendOf (nodeId : String) : Backend :=
  server.backend (((remoteOf server nodeId).toOption.bind (·.2)).getD "")

/-- The hash that a precondition on `base` compares with. -/
def observedHash (backend : Backend) (base : String) (bytes : Bytes) : String :=
  match server.hashing.statHash backend bytes with
  | some hash => hash.toLower
  | none => server.hashing.hashLike base bytes

def PutArgs.replayRefusal (a : PutArgs Bytes) : Option ErrorCode :=
  if a.force then none
  else if a.ifAbsent then some .exists
  else if (present a.baseCanonicalHash).any fun base =>
      observedHash server (backendOf server a.nodeId) base a.bytes ≠ base.toLower then
    some .conflict
  else if (present a.baseVersion).any (server.hashing.sha256Buffer a.bytes ≠ ·) then some .conflict
  else none

def PutArgs.HashFits (a : PutArgs Bytes) : Prop :=
  ∀ base, present a.baseCanonicalHash = some base →
    backendOf server a.nodeId = .drive ∨ base.length ≠ 32

def AnsweredAs (answer : Answer) : Option ErrorCode → Prop
  | none => ∃ payload, answer = .ok payload ∧ payload ≠ .fileOp .repairNeeded
  | some code => ∃ e, answer = .error e ∧ e.code = some code

variable {server} {first second : Attempt} {s s₁ : CentralState Bytes} {a : PutArgs Bytes}
  {target : RemoteTarget} {record : Option FileRow} {payload : Payload}

theorem remoteOf_of_target {relPath : RemotePath}
    (h : resolveRemoteTarget server nodeId relPath = .ok target) :
    ∃ info, remoteOf server nodeId = .ok (info, some target.remoteName) := by
  simp only [resolveRemoteTarget, bind, Except.bind] at h
  split at h
  · cases h
  · rename_i found hfound
    obtain ⟨info, remoteName⟩ := found
    cases remoteName with
    | none => cases h
    | some name =>
      simp only at h
      split at h
      · cases h
      · split at h
        · cases h
        · obtain rfl := Except.ok.inj h
          exact ⟨info, hfound⟩

theorem backendOf_of_target {relPath : RemotePath}
    (h : resolveRemoteTarget server nodeId relPath = .ok target) :
    backendOf server nodeId = server.backend target.remoteName := by
  obtain ⟨info, hinfo⟩ := remoteOf_of_target h
  simp [backendOf, hinfo, Except.toOption]

variable {db : Database}

theorem rewritten_statPreconditions
    (h : statPreconditions server first s target record a = (db, none)) {r : FileRow}
    (hrecord : record = some r) : ∃ set, Rewritten s.db db r.id set := by
  subst hrecord
  have hsame : ∃ set, Rewritten s.db s.db r.id set := ⟨_, Rewritten.refl s.db r.id⟩
  unfold statPreconditions at h
  split at h
  · split at h
    · cases h
    · obtain rfl := (Prod.mk.inj h).1
      exact hsame
    · split at h
      · cases h
      · split at h
        · cases h
        · split at h
          · obtain rfl := (Prod.mk.inj h).1
            exact hsame
          · split at h
            · cases h
            · obtain rfl := (Prod.mk.inj h).1
              exact rewritten_backfillRemoteHash s.db r _ _
  · obtain rfl := (Prod.mk.inj h).1
    exact hsame

theorem statPreconditions_none (h : statPreconditions server first s target none a = (db, none)) :
    db = s.db := by
  unfold statPreconditions at h
  split at h
  · split at h
    · cases h
    · exact (Prod.mk.inj h).1.symm
    · split at h
      · cases h
      · split at h
        · cases h
        · split at h
          · exact (Prod.mk.inj h).1.symm
          · split at h
            · cases h
            · exact (Prod.mk.inj h).1.symm
  · exact (Prod.mk.inj h).1.symm

theorem plain_of_statPreconditions
    (h : statPreconditions server first s target record a = (db, none)) (hforce : a.force = false)
    (hchecked : (a.ifAbsent || (present a.baseCanonicalHash).isSome) = true) (bytes : Bytes) :
    (CentralServer.putObject first (s.objects target.remoteName target.remotePath)
      bytes).isNativeFormat = false := by
  unfold statPreconditions CentralServer.stat at h
  rw [hchecked, hforce] at h
  simp only [Bool.not_false, Bool.and_self, if_true] at h
  cases hobject : s.objects target.remoteName target.remotePath with
  | none => rfl
  | some old =>
    rw [hobject] at h
    split at h
    · cases h
    · rename_i hstat
      split at hstat
      · cases hstat
      · cases hstat
    · rename_i ref hstat
      split at hstat
      · cases hstat
      · obtain rfl := Option.some.inj (Except.ok.inj hstat)
        split at h
        · cases h
        · rename_i hplain
          simpa [CentralServer.refOf, CentralServer.putObject] using hplain

theorem plain_of_baseVersionRefusal
    (h : baseVersionRefusal server first s target a = none) (hforce : a.force = false)
    (hchecked : (present a.baseVersion).isSome = true) (bytes : Bytes) :
    (CentralServer.putObject first (s.objects target.remoteName target.remotePath)
      bytes).isNativeFormat = false := by
  obtain ⟨version, hversion⟩ := Option.isSome_iff_exists.mp hchecked
  unfold baseVersionRefusal CentralServer.stat at h
  rw [hversion, hforce] at h
  cases hobject : s.objects target.remoteName target.remotePath with
  | none => rfl
  | some old =>
    rw [hobject] at h
    simp only at h
    split at h
    · cases h
    · rename_i hstat
      split at hstat
      · cases hstat
      · cases hstat
    · rename_i ref hstat
      split at hstat
      · cases hstat
      · obtain rfl := Option.some.inj (Except.ok.inj hstat)
        split at h
        · cases h
        · rename_i hplain
          simpa [CentralServer.refOf, CentralServer.putObject] using hplain

variable (server) in
structure PutDone (s₁ : CentralState Bytes) (a : PutArgs Bytes) (target : RemoteTarget)
    (object : RemoteObject Bytes) : Prop where
  held : s₁.objects target.remoteName target.remotePath = some object
  bytes : object.bytes = a.bytes
  plain : a.force = false →
    (a.ifAbsent || (present a.baseCanonicalHash).isSome || (present a.baseVersion).isSome) = true →
      object.isNativeFormat = false
  record : ∀ r, getFileRecord s₁.db a.nodeId target.remotePath = some r →
    r.isNativeFormat = false ∧
      r.currentRemoteHash = some (server.pushedHash target.remoteName object) ∧
      ∃ (db : Database) (set : FileRow → FileRow), Rewritten db s₁.db r.id fun r =>
        pushedRow target.remoteName (server.pushedHash target.remoteName object)
          object.remoteFileId (set r)

theorem putBytes_eq_ok {bytes : Bytes} {object : RemoteObject Bytes}
    (hobject : CentralServer.putObject first (s.objects target.remoteName target.remotePath)
      bytes = object) (h : putBytes server first s target record bytes = (s₁, .ok payload)) :
    s₁ = { s with
      db := recordPut s.db record target.remoteName (server.pushedHash target.remoteName object)
        object.remoteFileId
      objects := s.objects.set target.remoteName target.remotePath (some object) } := by
  unfold putBytes at h
  simp only [hobject] at h
  split at h
  · cases h
  · exact (Prod.mk.inj h).1.symm

variable (h : writeFileBytesRemote server first s a = (s₁, .ok payload))

include h

theorem writeFileBytesRemote_eq_ok :
    ∃ target db, resolveRemoteTarget server a.nodeId a.relPath = .ok target ∧
      (getFileRecord s.db a.nodeId target.remotePath).any (·.isNativeFormat) = false ∧
      statPreconditions server first s target
        (getFileRecord s.db a.nodeId target.remotePath) a = (db, none) ∧
      baseVersionRefusal server first { s with db } target a = none ∧
      putBytes server first { s with db } target
        (getFileRecord s.db a.nodeId target.remotePath) a.bytes = (s₁, .ok payload) := by
  unfold writeFileBytesRemote at h
  cases htarget : resolveRemoteTarget server a.nodeId a.relPath with
  | error e =>
    rw [htarget] at h
    cases h
  | ok target =>
    simp only [htarget] at h
    split at h
    · cases h
    · rename_i hnative
      split at h
      · cases h
      · rename_i db hstat
        split at h
        · cases h
        · rename_i hversion
          exact ⟨target, db, rfl, by simpa using hnative, hstat, hversion, h⟩

theorem putDone_of_write :
    ∃ target object, resolveRemoteTarget server a.nodeId a.relPath = .ok target ∧
      PutDone server s₁ a target object := by
  obtain ⟨target, db, htarget, hnative, hstat, hversion, hput⟩ := writeFileBytesRemote_eq_ok h
  have hplain : a.force = false → (a.ifAbsent || (present a.baseCanonicalHash).isSome) = true →
      (CentralServer.putObject first (s.objects target.remoteName target.remotePath)
        a.bytes).isNativeFormat = false :=
    fun hforce hchecked => plain_of_statPreconditions hstat hforce hchecked a.bytes
  have hplain' : a.force = false → (present a.baseVersion).isSome = true →
      (CentralServer.putObject first (s.objects target.remoteName target.remotePath)
        a.bytes).isNativeFormat = false :=
    fun hforce hchecked => plain_of_baseVersionRefusal hversion hforce hchecked a.bytes
  have hbytes : (CentralServer.putObject first (s.objects target.remoteName target.remotePath)
      a.bytes).bytes = a.bytes := by
    cases s.objects target.remoteName target.remotePath with
    | none => rfl
    | some _ => rfl
  obtain ⟨object, hobject⟩ : ∃ object, CentralServer.putObject first
      (s.objects target.remoteName target.remotePath) a.bytes = object := ⟨_, rfl⟩
  have hobject' : CentralServer.putObject first
      (({ s with db } : CentralState Bytes).objects target.remoteName target.remotePath)
      a.bytes = object := hobject
  obtain rfl := putBytes_eq_ok hobject' hput
  rw [hobject] at hplain hplain' hbytes
  refine ⟨target, object, htarget, ⟨by simp [Objects.set], hbytes, ?_, ?_⟩⟩
  · intro hforce hchecked
    rcases Bool.or_eq_true_iff.mp hchecked with hchecked | hchecked
    · exact hplain hforce hchecked
    · exact hplain' hforce hchecked
  · intro r₁ hr₁
    cases hrecord : getFileRecord s.db a.nodeId target.remotePath with
    | none =>
      rw [hrecord] at hstat hr₁
      change getFileRecord db a.nodeId target.remotePath = some r₁ at hr₁
      rw [statPreconditions_none hstat, hrecord] at hr₁
      cases hr₁
    | some r =>
      rw [hrecord] at hstat hr₁ hnative
      simp only
      obtain ⟨set, hset⟩ := rewritten_statPreconditions hstat rfl
      have hpushed : Rewritten s.db (recordPut db (some r) target.remoteName
          (server.pushedHash target.remoteName object) object.remoteFileId) r.id _ :=
        rewritten_push hset
      obtain rfl := Option.some.inj ((hpushed.getFileRecord hrecord rfl).symm.trans hr₁)
      refine ⟨?_, rfl, s.db, set, ?_⟩
      · rw [hpushed.keeps.isNativeFormat]
        simpa using hnative
      · rw [hpushed.keeps.id]
        exact hpushed

omit h

variable {object : RemoteObject Bytes}

variable (done : PutDone server s₁ a target object)

include done

theorem PutDone.stat (works : second.Answers) :
    server.stat second s₁.objects target.remoteName target.remotePath =
      .ok (some (CentralServer.refOf (server.hashing.statHash (server.backend target.remoteName))
        object)) := by
  simp [CentralServer.stat, works.stat, done.held]

theorem PutDone.get (works : second.Answers) :
    CentralServer.get second s₁.objects target.remoteName target.remotePath = .ok a.bytes := by
  simp [CentralServer.get, works.get, done.held, done.bytes]

theorem PutDone.backfill {observed : Option String}
    (hobserved : observed = none ∨ observed = some (server.pushedHash target.remoteName object)) :
    backfillRemoteHash s₁.db (getFileRecord s₁.db a.nodeId target.remotePath) observed
      object.remoteFileId = s₁.db := by
  cases hrecord : getFileRecord s₁.db a.nodeId target.remotePath with
  | none => rfl
  | some r =>
    obtain ⟨-, hhash, db, set, hset⟩ := done.record r hrecord
    exact backfillRemoteHash_self hset rfl hhash hobserved

omit done

theorem statHash_pushed (hplain : object.isNativeFormat = false) :
    (server.hashing.statHash (server.backend target.remoteName) object.bytes).map String.toLower =
        none ∨
      (server.hashing.statHash (server.backend target.remoteName) object.bytes).map String.toLower =
        some (server.pushedHash target.remoteName object) := by
  cases hbackend : server.backend target.remoteName with
  | drive =>
    right
    simp [CentralServer.pushedHash, CentralServer.refOf, hplain, hbackend, Hashing.statHash,
      Hashing.putHash]
  | opendal => exact .inl rfl

theorem observedHash_pushed (hplain : object.isNativeFormat = false) {base : String}
    (hfits : server.backend target.remoteName = .drive ∨ base.length ≠ 32) :
    observedHash server (server.backend target.remoteName) base object.bytes =
      server.pushedHash target.remoteName object := by
  cases hbackend : server.backend target.remoteName with
  | drive =>
    simp [observedHash, CentralServer.pushedHash, CentralServer.refOf, hplain, hbackend,
      Hashing.statHash, Hashing.putHash]
  | opendal =>
    have hlength : base.length ≠ 32 := by
      rcases hfits with hfits | hfits
      · rw [hbackend] at hfits
        cases hfits
      · exact hfits
    simp [observedHash, CentralServer.pushedHash, CentralServer.refOf, hplain, hbackend,
      Hashing.statHash, Hashing.putHash, Hashing.hashLike, hlength, server.sha256_lower]

include done

theorem PutDone.currentHash (works : second.Answers) (hplain : object.isNativeFormat = false)
    (base : String) :
    currentHash server second s₁ target
        (CentralServer.refOf (server.hashing.statHash (server.backend target.remoteName)) object)
        base =
      .ok (observedHash server (server.backend target.remoteName) base a.bytes) := by
  unfold CentralRetry.currentHash observedHash
  rw [done.get works]
  simp only [CentralServer.refOf, hplain, done.bytes, Bool.false_eq_true, if_false]
  cases server.hashing.statHash (server.backend target.remoteName) a.bytes with
  | none => rfl
  | some hash => rfl

variable (server) in
def statRefusal (a : PutArgs Bytes) (target : RemoteTarget) : Option RequestError :=
  if a.force then none
  else if a.ifAbsent then some (existsOnRemote a.relPath target.filename)
  else (present a.baseCanonicalHash).bind fun base =>
    let current := observedHash server (server.backend target.remoteName) base a.bytes
    if current = base.toLower then none else some (changedSinceSync current)

variable (server) in
def versionRefusal (a : PutArgs Bytes) : Option RequestError :=
  if a.force then none
  else (present a.baseVersion).bind fun version =>
    if server.hashing.sha256Buffer a.bytes = version then none
    else some (changedSinceOpened (server.hashing.sha256Buffer a.bytes))

theorem PutDone.statPreconditions (works : second.Answers) (fits : a.HashFits server)
    (hbackend : backendOf server a.nodeId = server.backend target.remoteName) :
    statPreconditions server second s₁ target (getFileRecord s₁.db a.nodeId target.remotePath) a =
      (s₁.db, statRefusal server a target) := by
  unfold CentralRetry.statPreconditions statRefusal
  cases hforce : a.force with
  | true => simp
  | false =>
    rw [done.stat works]
    cases habsent : a.ifAbsent with
    | true =>
      have hplain := done.plain hforce (by simp [habsent])
      have hbackfill := done.backfill (statHash_pushed hplain)
      simp [CentralServer.refOf, hplain, hbackfill]
    | false =>
      cases hbase : present a.baseCanonicalHash with
      | none => simp
      | some base =>
        have hplain := done.plain hforce (by simp [hbase])
        have hcurrent := done.currentHash works hplain base
        have hpushed := observedHash_pushed hplain (hbackend ▸ fits base hbase)
        rw [done.bytes] at hpushed
        have hbackfill := done.backfill (.inr (congrArg some hpushed))
        simp only [Option.isSome_some, Bool.or_true, Bool.not_false, Bool.and_true, if_true,
          hcurrent, Option.bind_some, Bool.false_eq_true, if_false]
        simp [CentralServer.refOf, hplain, hbackfill]

theorem PutDone.baseVersionRefusal (works : second.Answers) :
    baseVersionRefusal server second s₁ target a = versionRefusal server a := by
  unfold CentralRetry.baseVersionRefusal versionRefusal
  cases hforce : a.force with
  | true => cases present a.baseVersion <;> rfl
  | false =>
    cases hversion : present a.baseVersion with
    | none => rfl
    | some version =>
      have hplain := done.plain hforce (by simp [hversion])
      simp [done.stat works, done.get works, CentralServer.refOf, hplain]

omit done

theorem Objects.set_self {objects : Objects Bytes} {name : String}
    {value : Option (RemoteObject Bytes)} (h : objects name path = value) :
    objects.set name path value = objects := by
  funext name' path'
  unfold Objects.set
  split
  · rename_i hat
    rw [hat.1, hat.2, h]
  · rfl

theorem PutDone.putBytes (done : PutDone server s₁ a target object) (works : second.Answers) :
    putBytes server second s₁ target (getFileRecord s₁.db a.nodeId target.remotePath) a.bytes =
      (s₁, .ok (.stored (server.hashing.sha256Buffer a.bytes)
        (server.pushedHash target.remoteName object))) := by
  have hobject : CentralServer.putObject second
      (s₁.objects target.remoteName target.remotePath) a.bytes = object := by
    rw [done.held, ← done.bytes]
    rfl
  have hrecord : recordPut s₁.db (getFileRecord s₁.db a.nodeId target.remotePath)
      target.remoteName (server.pushedHash target.remoteName object) object.remoteFileId =
        s₁.db := by
    cases hfound : getFileRecord s₁.db a.nodeId target.remotePath with
    | none => rfl
    | some r =>
      obtain ⟨-, -, db, set, hset⟩ := done.record r hfound
      exact push_self hset
  unfold CentralRetry.putBytes
  simp only [hobject, works.put, hrecord, Objects.set_self done.held]

theorem replayRefusal_eq (hbackend : backendOf server a.nodeId = server.backend target.remoteName) :
    (a.replayRefusal server).map some =
      ((statRefusal server a target).or (versionRefusal server a)).map (·.code) := by
  unfold PutArgs.replayRefusal statRefusal versionRefusal
  rw [hbackend]
  cases hforce : a.force with
  | true => rfl
  | false =>
    cases habsent : a.ifAbsent with
    | true => rfl
    | false =>
      have hversion : (if (present a.baseVersion).any
            (server.hashing.sha256Buffer a.bytes ≠ ·) then some ErrorCode.conflict
          else none).map some =
          ((present a.baseVersion).bind fun version =>
            if server.hashing.sha256Buffer a.bytes = version then none
            else some (changedSinceOpened (server.hashing.sha256Buffer a.bytes))).map (·.code) := by
        cases present a.baseVersion with
        | none => rfl
        | some version =>
          by_cases hsame : server.hashing.sha256Buffer a.bytes = version
          · simp [hsame]
          · simp [hsame, changedSinceOpened]
      cases present a.baseCanonicalHash with
      | none => simpa using hversion
      | some base =>
        by_cases hsame : observedHash server (server.backend target.remoteName) base a.bytes =
            base.toLower
        · simpa [hsame] using hversion
        · simp [hsame, changedSinceSync]

theorem writeFileBytesRemote_again
    (h : writeFileBytesRemote server first s a = (s₁, .ok payload)) (works : second.Answers)
    (fits : a.HashFits server) :
    ∃ answer, writeFileBytesRemote server second s₁ a = (s₁, answer) ∧
      AnsweredAs answer (a.replayRefusal server) := by
  obtain ⟨target, object, htarget, done⟩ := putDone_of_write h
  have hbackend := backendOf_of_target htarget
  have hnative : (getFileRecord s₁.db a.nodeId target.remotePath).any (·.isNativeFormat) =
      false := by
    cases hrecord : getFileRecord s₁.db a.nodeId target.remotePath with
    | none => rfl
    | some r => exact (done.record r hrecord).1
  have hrefusal := replayRefusal_eq (a := a) hbackend
  unfold writeFileBytesRemote
  simp only [htarget, hnative, Bool.false_eq_true, if_false,
    done.statPreconditions works fits hbackend]
  cases hstat : statRefusal server a target with
  | some refusal =>
    rw [hstat] at hrefusal
    obtain ⟨code, hcode, hsome⟩ := Option.map_eq_some_iff.mp hrefusal
    exact ⟨_, rfl, by rw [hcode]; exact ⟨refusal, rfl, hsome.symm⟩⟩
  | none =>
    rw [hstat] at hrefusal
    simp only [done.baseVersionRefusal works]
    cases hversion : versionRefusal server a with
    | some refusal =>
      rw [hversion] at hrefusal
      obtain ⟨code, hcode, hsome⟩ := Option.map_eq_some_iff.mp hrefusal
      exact ⟨_, rfl, by rw [hcode]; exact ⟨refusal, rfl, hsome.symm⟩⟩
    | none =>
      rw [hversion] at hrefusal
      have hnone := Option.map_eq_none_iff.mp hrefusal
      refine ⟨_, done.putBytes works, ?_⟩
      rw [hnone]
      exact ⟨_, rfl, by simp⟩

end

variable {Bytes : Type u} {server : CentralServer Bytes} {first second : Attempt}
  {s s₁ : CentralState Bytes} {payload : Payload}

theorem getFileRecord_insertFile {row : FileRow} (hnode : row.nodeId = nodeId)
    (hpath : row.remotePath = some path) :
    (getFileRecord (db.apply (.insertFile row)) nodeId path).isSome := by
  unfold getFileRecord
  rw [List.find?_isSome]
  exact ⟨_, List.mem_append_right _ List.mem_cons_self, by simp [hnode, hpath]⟩

theorem createFileRemote_again {a : CreateArgs}
    (h : createFileRemote server first s a = (s₁, .ok payload)) :
    createFileRemote server second s₁ a = (s₁, .error (fileExists a.filename)) := by
  unfold createFileRemote at h ⊢
  split at h
  · cases h
  · rename_i hname
    rw [if_neg hname]
    split at h
    · cases h
    · cases h
    · rename_i info remoteName hremote
      split at h
      · cases h
      · rename_i remotePath hpath
        split at h
        · cases h
        · split at h
          · cases h
          · cases h
          · simp only at h
            split at h
            · cases h
            · obtain rfl := (Prod.mk.inj h).1
              have htaken : ∀ object : RemoteObject Bytes, (getFileRecord
                  (insertCreated server first s a remoteName remotePath object) a.nodeId
                    remotePath).isSome := fun object => getFileRecord_insertFile rfl rfl
              simp only
              rw [if_pos (htaken _)]

theorem upsertFile_again (keyed : db.Keyed) {filename : String} {remoteName : Option String}
    (hdb' : db'.files = (upsertFile db nodeId filename remoteName path).1.files) :
    upsertFile db' nodeId filename remoteName path =
      (db', (upsertFile db nodeId filename remoteName path).2) := by
  unfold upsertFile at hdb' ⊢
  cases hrecord : getFileRecord db nodeId path with
  | some r =>
    rw [hrecord] at hdb'
    have hrewritten : Rewritten db db' r.id fun r =>
        { r with filename, remoteName := remoteName.or r.remoteName } :=
      ⟨hdb', ⟨fun _ => rfl, fun _ => rfl, fun _ => rfl, fun _ => rfl⟩⟩
    rw [hrewritten.getFileRecord hrecord rfl]
    simp only
    rw [hrewritten.updateFile_self fun r => by cases remoteName <;> rfl]
  | none =>
    rw [hrecord] at hdb'
    simp only [Database.apply] at hdb'
    have hmiss : db.files.find? (fun r => r.nodeId = nodeId && r.remotePath = some path) = none :=
      hrecord
    have hfound : getFileRecord db' nodeId path = some ⟨db.nextId, nodeId, filename, remoteName,
        some path, none, none, false⟩ := by
      unfold getFileRecord
      rw [hdb', List.find?_append, hmiss]
      simp
    rw [hfound]
    simp only
    refine congrArg (fun final => (final, db.nextId)) (updateFile_of_fixed fun r hr hid => ?_)
    rw [hdb'] at hr
    rcases List.mem_append.mp hr with hr | hr
    · have hlt := keyed.lt r hr
      omega
    · obtain rfl := List.mem_singleton.mp hr
      simp

theorem registerFileRecordRemote_again (keyed : s.db.Keyed) {relPath : RemotePath}
    (h : registerFileRecordRemote server first s nodeId relPath = (s₁, .ok payload)) :
    ∃ row, row.action = .syncRegisterRemote ∧
      registerFileRecordRemote server second s₁ nodeId relPath =
        ({ s₁ with db := s₁.db.insertAudit row }, .ok payload) := by
  unfold registerFileRecordRemote at h ⊢
  split at h
  · cases h
  · cases h
  · rename_i info remoteName fileSection subpath filename hremote hrel
    split at h
    · cases h
    · rename_i remotePath hpath
      simp only at h
      obtain ⟨rfl, hpayload⟩ := Prod.mk.inj h
      simp only
      have hfiles : ((upsertFile s.db nodeId filename remoteName remotePath).1.insertAudit
          (registeredAudit server first (upsertFile s.db nodeId filename remoteName remotePath).2
            remoteName remotePath)).files =
          (upsertFile s.db nodeId filename remoteName remotePath).1.files := rfl
      rw [upsertFile_again keyed hfiles]
      exact ⟨_, rfl, by rw [hpayload]⟩

end Portuni.CentralRetry
