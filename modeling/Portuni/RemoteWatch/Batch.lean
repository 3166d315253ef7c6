import Portuni.RemoteWatch.Settled

namespace Portuni.RemoteWatch

/-!
What a batch of object-level changes should come to: one record for each object
of the batch, at the path the object now has. And what can disturb it: the
applier looks a record up by path before it looks for the object.
-/

section

open Files RemoteSweep

universe u

/-- An object on the remote, with the content hash that the backend reports. -/
structure RemoteObject where
  id : String
  path : RemotePath
  hash : Option String
  isNativeFormat : Bool

def RemoteObject.ref (o : RemoteObject) : FileRef where
  hash := o.hash
  isNativeFormat := o.isNativeFormat
  remoteFileId := some o.id

def objectAt (remote : List RemoteObject) (path : RemotePath) : Option RemoteObject :=
  remote.find? (·.path = path)

variable {Bytes : Type u} (call : Call Bytes)

/-- The adapter's stat, when it answers, tells what `remote` holds. The backend
reports a hash for every object but the native ones, which have no bytes. -/
structure Shows (remote : List RemoteObject) : Prop where
  ids : (remote.map (·.id)).Nodup
  paths : (remote.map (·.path)).Nodup
  hashes : ∀ o ∈ remote, o.isNativeFormat = o.hash.isNone
  stat : ∀ path answer, call.adapter.stat path = .ok answer →
    answer = (objectAt remote path).map RemoteObject.ref

def RemoteChange.object? : RemoteChange → Option String
  | .upsert _ _ _ fileId => fileId
  | .remove _ fileId => fileId

def RemoteChange.isFolder : RemoteChange → Bool
  | .upsert _ _ isFolder _ => isFolder
  | .remove _ _ => false

def lastChange (x : String) (changes : List RemoteChange) : Option RemoteChange :=
  changes.reverse.find? fun c => decide (c.object? = some x)

def lastPlanned (x : String) (plan : List PlannedChange) : Option PlannedChange :=
  plan.reverse.find? fun c => decide (c.object? = some x)

/-- The change tells how things stand with the object `x`. -/
def RemoteChange.Reports (remote : List RemoteObject) (x : String) : RemoteChange → Prop
  | .upsert path hash _ _ => ∃ o ∈ remote, o.id = x ∧ o.path = path ∧ o.hash = hash
  | .remove _ _ => ∀ o ∈ remote, o.id ≠ x

/-- A batch in feed order: the last change of an object reports its current state. -/
def Reports (changes : List RemoteChange) (remote : List RemoteObject) : Prop :=
  ∀ x c, lastChange x changes = some c → c.Reports remote x

/-- Every tracked record carries its object's id: an object has one record, which
is native if the object is. -/
structure CarriesObjects (db : Database) (remote : List RemoteObject) : Prop where
  carries : ∀ r ∈ db.files, r.remoteName = some call.remoteName → r.remoteFileId ≠ none
  unique : ∀ x, ∀ r ∈ db.files, ∀ r' ∈ db.files, call.ofObject x r → call.ofObject x r' → r = r'
  native : ∀ o ∈ remote, ∀ r ∈ db.files, call.ofObject o.id r →
    r.isNativeFormat = o.isNativeFormat ∧ (o.hash = none → r.currentRemoteHash = none)

/-- The watched node in whose sections `path` is adoptable. -/
def watchedNode (nodes : List WatchedNode) (path : RemotePath) : Option WatchedNode :=
  (nodeFor nodes path).filter fun n => (adoptableSection n.nodeRoot path).isSome

/-- How the records stand with the object `x` once the batch is applied. -/
structure ObjectCorrect (nodes : List WatchedNode) (remote : List RemoteObject)
    (db db' : Database) (x : String) : Prop where
  /-- An object at a watched path has exactly one record, at its path and with its hash. -/
  tracked : ∀ o ∈ remote, o.id = x → (watchedNode nodes o.path).isSome →
    ∃ r ∈ db'.files, (call.ofObject x r ∧ r.remotePath = some o.path ∧ r.currentRemoteHash = o.hash) ∧
      ∀ r' ∈ db'.files, call.ofObject x r' → r' = r
  /-- An object that no longer exists has no record. -/
  gone : (∀ o ∈ remote, o.id ≠ x) → Unclaimed call db' x
  /-- No record is left at a path its object has left. -/
  notLeft : ∀ r ∈ db'.files, call.ofObject x r → ∃ o ∈ remote, o.id = x ∧ r.remotePath = some o.path
  /-- No second record is adopted for an object that had one. -/
  notAdoptedAgain : ∀ r₀ ∈ db.files, call.ofObject x r₀ →
    ∀ r ∈ db'.files, call.ofObject x r → r.id = r₀.id

def BatchCorrect (nodes : List WatchedNode) (changes : List RemoteChange)
    (remote : List RemoteObject) (db db' : Database) : Prop :=
  ∀ x, (∃ c ∈ changes, c.object? = some x) → ObjectCorrect call nodes remote db db' x

/-- An upsert of `x` finds no record of another object at its path, and no other
object at its path on the remote. -/
structure UpsertUndisturbed (remote : List RemoteObject) (db : Database) (node : WatchedNode)
    (path : RemotePath) (x : String) : Prop where
  records : ∀ r ∈ db.files, r.nodeId = node.nodeId →
    r.remotePath = some path ∨ r.remotePath = some (call.nfc path) →
      r.remotePath = some path ∧ call.ofObject x r
  ownNode : ∀ r ∈ db.files, call.ofObject x r → r.remotePath = some path → r.nodeId = node.nodeId
  objects : ∀ o ∈ remote, o.path = path → o.id = x

/-- The record of a removed object had an object, at whose path the remote has none now. -/
def Vacated (remote : List RemoteObject) (db : Database) (x : String) : Prop :=
  ∀ r ∈ db.files, call.ofObject x r →
    r.hadObject = true ∧ ∃ q, r.remotePath = some q ∧ ∀ o ∈ remote, o.path ≠ q

/-- The change meets nothing but its own object's record where it is applied. -/
def Undisturbed (remote : List RemoteObject) (db : Database) : PlannedChange → Prop
  | .upsert node path _ fileId => ∃ x, fileId = some x ∧ UpsertUndisturbed call remote db node path x
  | .remove node path fileId => ∃ x, fileId = some x ∧ Vacated call remote db x ∧
      ∀ r ∈ db.files, call.atPath node.nodeId path r → call.ofObject x r
  | .removeById x => Vacated call remote db x

/-- Every change of the plan is undisturbed in the state it is applied in. -/
def UndisturbedRun (remote : List RemoteObject) : Database → List PlannedChange → Prop
  | _, [] => True
  | db, c :: rest =>
    Undisturbed call remote db c ∧ UndisturbedRun remote (applyChange call db c) rest

def PlannedChange.isUpsert : PlannedChange → Bool
  | .upsert .. => true
  | _ => false

/-- The reducer keeps the last change of the object `x` as its last planned one. -/
def KeepsLast (nodes : List WatchedNode) (db : Database) (plan : List PlannedChange) (x : String) :
    RemoteChange → Prop
  | .upsert path hash _ _ =>
    (∀ node, watchedNode nodes path = some node →
      lastPlanned x plan = some (.upsert node path hash (some x)) ∧
        ∀ d ∈ plan, d.object? = some x → d.isUpsert) ∧
    (watchedNode nodes path = none → Unclaimed call db x)
  | .remove _ _ =>
    (∃ d, lastPlanned x plan = some d ∧ d.isUpsert = false) ∨ Unclaimed call db x

end

section

open Files

variable {nodes : List WatchedNode}

def PlannedChange.Watched (nodes : List WatchedNode) : PlannedChange → Prop
  | .upsert node path _ _ => watchedNode nodes path = some node
  | _ => True

theorem mem_setPlanned {planned : List PlannedChange} {c d : PlannedChange}
    (h : d ∈ setPlanned planned c) : d ∈ planned ∨ d = c := by
  unfold setPlanned at h
  split at h
  · obtain ⟨e, he, rfl⟩ := List.mem_map.mp h
    split
    · exact Or.inr rfl
    · exact Or.inl he
  · rcases List.mem_append.mp h with h | h
    · exact Or.inl h
    · exact Or.inr (List.mem_singleton.mp h)

variable {plan : RemoteChangePlan}

theorem watched_take {path : RemotePath} {d : PlannedChange} (change : WatchedNode → PlannedChange)
    (hchange : ∀ node, watchedNode nodes path = some node → (change node).Watched nodes)
    (h : d ∈ (plan.take nodes path change).planned) : d ∈ plan.planned ∨ d.Watched nodes := by
  unfold RemoteChangePlan.take at h
  split at h
  · exact Or.inl h
  · rename_i node hnode
    split at h
    · exact Or.inl h
    · rename_i hsection
      rcases mem_setPlanned h with h | rfl
      · exact Or.inl h
      · refine Or.inr (hchange node (Option.filter_eq_some_iff.mpr ⟨hnode, ?_⟩))
        simpa [Option.isSome_iff_ne_none] using hsection

theorem watched_planChange {c : RemoteChange} {d : PlannedChange}
    (h : d ∈ (planChange nodes plan c).planned) : d ∈ plan.planned ∨ d.Watched nodes := by
  cases c with
  | upsert path hash isFolder fileId =>
    cases isFolder with
    | false => exact watched_take (.upsert · path hash fileId) (fun node hnode => hnode) h
    | true =>
      left
      simp only [planChange, if_true] at h
      split at h
      · split at h
        · exact h
        · exact h
      · exact h
  | remove path fileId =>
    cases path with
    | some path => exact watched_take (.remove · path fileId) (fun _ _ => trivial) h
    | none =>
      cases fileId with
      | none => exact Or.inl h
      | some x =>
        rcases mem_setPlanned h with h | rfl
        · exact Or.inl h
        · exact Or.inr trivial

theorem watched_planRemoteChanges (nodes : List WatchedNode) (changes : List RemoteChange) :
    ∀ d ∈ (planRemoteChanges changes nodes).planned, d.Watched nodes := by
  have hall : ∀ (changes : List RemoteChange) (plan : RemoteChangePlan),
      (∀ d ∈ plan.planned, d.Watched nodes) →
        ∀ d ∈ (changes.foldl (planChange nodes) plan).planned, d.Watched nodes := by
    intro changes
    induction changes with
    | nil => exact fun plan h => h
    | cons c rest ih =>
      intro plan h
      refine ih _ fun d hd => ?_
      rcases watched_planChange hd with hd | hd
      · exact h d hd
      · exact hd
  exact hall changes {} (by simp)

theorem sweepNodeIds_take {path : RemotePath} {change : WatchedNode → PlannedChange} :
    (plan.take nodes path change).sweepNodeIds = plan.sweepNodeIds := by
  unfold RemoteChangePlan.take
  split
  · rfl
  · split
    · rfl
    · rfl

theorem sweepNodeIds_planRemoteChanges {changes : List RemoteChange}
    (objectLevel : ∀ c ∈ changes, c.isFolder = false) :
    (planRemoteChanges changes nodes).sweepNodeIds = [] := by
  have hstep : ∀ (c : RemoteChange) (plan : RemoteChangePlan), c.isFolder = false →
      (planChange nodes plan c).sweepNodeIds = plan.sweepNodeIds := by
    intro c plan hc
    cases c with
    | upsert path hash isFolder fileId =>
      obtain rfl : isFolder = false := hc
      exact sweepNodeIds_take
    | remove path fileId =>
      cases path with
      | some path => exact sweepNodeIds_take
      | none =>
        cases fileId with
        | none => rfl
        | some x => rfl
  have hall : ∀ (changes : List RemoteChange) (plan : RemoteChangePlan),
      (∀ c ∈ changes, c.isFolder = false) →
        (changes.foldl (planChange nodes) plan).sweepNodeIds = plan.sweepNodeIds := by
    intro changes
    induction changes with
    | nil => exact fun plan _ => rfl
    | cons c rest ih =>
      intro plan h
      obtain ⟨hc, hrest⟩ := List.forall_mem_cons.mp h
      exact (ih _ hrest).trans (hstep c plan hc)
  exact hall changes {} objectLevel

end

open Files Files.Database RemoteSweep

universe u

variable {Bytes : Type u}

structure Replaced (call : Call Bytes) (db db' : Database) (x : String) (o : Option FileRow) :
    Prop where
  mem : ∀ r, r ∈ db'.files ↔ (r ∈ db.files ∧ call.ofObject x r = false) ∨ o = some r
  object : ∀ r, o = some r → call.ofObject x r

variable {call : Call Bytes} {db db' : Database} {x y : String} {r r' : FileRow} {o : Option FileRow}

theorem Replaced.mem_iff_of_ne (h : Replaced call db db' x o) (hne : x ≠ y)
    (hy : call.ofObject y r) : r ∈ db'.files ↔ r ∈ db.files := by
  have hx : call.ofObject x r = false := by
    cases hx : call.ofObject x r with
    | false => rfl
    | true => exact absurd (eq_of_ofObject hx hy) hne
  rw [h.mem]
  constructor
  · rintro (⟨hr, -⟩ | hr)
    · exact hr
    · rw [h.object r hr] at hx
      cases hx
  · intro hr
    exact Or.inl ⟨hr, hx⟩

theorem Replaced.eq_some (h : Replaced call db db' x o) (hr : r ∈ db'.files)
    (hx : call.ofObject x r) : o = some r := by
  rcases (h.mem r).mp hr with ⟨-, hother⟩ | ho
  · rw [hx] at hother
    cases hother
  · exact ho

theorem Replaced.refl (h : Unclaimed call db x) : Replaced call db db x none where
  mem r := by
    constructor
    · intro hr
      exact Or.inl ⟨hr, h r hr⟩
    · rintro (⟨hr, -⟩ | ho)
      · exact hr
      · cases ho
  object r ho := by cases ho

theorem Replaced.insertAudit (h : Replaced call db db' x o) {row : AuditRow} :
    Replaced call db (db'.insertAudit row) x o :=
  ⟨h.mem, h.object⟩

theorem replaced_updateFile (keyed : db.Keyed) {set : FileRow → FileRow} (hr : r ∈ db.files)
    (hx : call.ofObject x r) (unique : ∀ r' ∈ db.files, call.ofObject x r' → r' = r)
    (hset : call.ofObject x (set r)) : Replaced call db (db.updateFile r.id set) x (some (set r)) where
  mem r' := by
    rw [mem_updateFile_iff]
    constructor
    · rintro ⟨r₀, hr₀, rfl⟩
      by_cases hid : r₀.id = r.id
      · obtain rfl := keyed.unique hr₀ hr hid
        exact Or.inr (congrArg some (if_pos rfl).symm)
      · rw [if_neg hid]
        refine Or.inl ⟨hr₀, ?_⟩
        cases hx₀ : call.ofObject x r₀ with
        | false => rfl
        | true => exact absurd (congrArg (·.id) (unique r₀ hr₀ hx₀)) hid
    · rintro (⟨hr', hother⟩ | ho)
      · refine ⟨r', hr', if_neg fun hid => ?_⟩
        obtain rfl := keyed.unique hr' hr hid
        rw [hx] at hother
        cases hother
      · exact ⟨r, hr, (if_pos rfl).trans (Option.some.inj ho)⟩
  object r' ho := by
    cases ho
    exact hset

theorem replaced_insertFile (hunclaimed : Unclaimed call db x) (hid : r.id = db.nextId)
    (hx : call.ofObject x r) :
    Replaced call db (db.apply (.insertFile r)) x (some r) where
  mem r' := by
    have hrow : ({ r with id := db.nextId } : FileRow) = r := by rw [← hid]
    simp only [Database.apply, List.mem_append, List.mem_singleton, hrow]
    constructor
    · rintro (hr' | rfl)
      · exact Or.inl ⟨hr', hunclaimed r' hr'⟩
      · exact Or.inr rfl
    · rintro (⟨hr', -⟩ | ho)
      · exact Or.inl hr'
      · exact Or.inr (Option.some.inj ho).symm
  object r' ho := by
    cases ho
    exact hx

theorem replaced_deleteFile (keyed : db.Keyed) (hr : r ∈ db.files) (hx : call.ofObject x r)
    (unique : ∀ r' ∈ db.files, call.ofObject x r' → r' = r) :
    Replaced call db (db.deleteFile r.id) x none where
  mem r' := by
    rw [mem_deleteFile_iff]
    constructor
    · rintro ⟨hr', hid⟩
      refine Or.inl ⟨hr', ?_⟩
      cases hx' : call.ofObject x r' with
      | false => rfl
      | true => exact absurd (congrArg (·.id) (unique r' hr' hx')) hid
    · rintro (⟨hr', hother⟩ | ho)
      · refine ⟨hr', fun hid => ?_⟩
        obtain rfl := keyed.unique hr' hr hid
        rw [hx] at hother
        cases hother
      · cases ho
  object r' ho := by cases ho

theorem Replaced.trans {db'' : Database} {o' : Option FileRow} (h : Replaced call db db' x o)
    (h' : Replaced call db' db'' x o') : Replaced call db db'' x o' where
  mem r := by
    rw [h'.mem, h.mem]
    constructor
    · rintro (⟨⟨hr, -⟩ | ho, hother⟩ | ho')
      · exact Or.inl ⟨hr, hother⟩
      · rw [h.object r ho] at hother
        cases hother
      · exact Or.inr ho'
    · rintro (⟨hr, hother⟩ | ho')
      · exact Or.inl ⟨Or.inl ⟨hr, hother⟩, hother⟩
      · exact Or.inr ho'
  object := h'.object

theorem replaced_self (hr : r ∈ db.files) (hx : call.ofObject x r)
    (unique : ∀ r' ∈ db.files, call.ofObject x r' → r' = r) :
    Replaced call db db x (some r) where
  mem r' := by
    constructor
    · intro hr'
      cases hx' : call.ofObject x r' with
      | false => exact Or.inl ⟨hr', rfl⟩
      | true => exact Or.inr (congrArg some (unique r' hr' hx').symm)
    · rintro (⟨hr', -⟩ | ho)
      · exact hr'
      · cases ho
        exact hr
  object r' ho := by
    cases ho
    exact hx

end Portuni.RemoteWatch
