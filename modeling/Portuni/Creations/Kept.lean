import Portuni.Creations.Model

/-!
What holds while the calls about one path interleave, as long as no put lands on an object and no
sweep adopts what a creation has just put.
-/

namespace Portuni.Creations

open CentralRetry Content FileOps Files RemoteSweep

universe u

variable {Bytes : Type u} (place : Place Bytes)

def Running.hasPut : Running Bytes → Bool
  | .create _ (.put _) => true
  | _ => false

/-- A put finds no object, and no sweep inserts a row while a creation that has put its bytes has
not inserted its own. -/
def Meets (s : State Bytes) (a : Action Bytes) : Prop :=
  Happens place s a ∧
    match a with
    | .next i =>
      match s.calls[i]? with
      | some (.create _ .absent) => place.object s.central = none
      | some (.push _ (.ready _)) => place.object s.central = none
      | some (.sweep _ (.unknown _)) => ∀ running ∈ s.calls, running.hasPut = false
      | _ => True
    | _ => True

/-- The server before the calls. The index of the table lets no two rows have one path. -/
structure Start (s : State Bytes) : Prop where
  keyed : s.central.db.Keyed
  unique : ∀ r ∈ s.central.db.files, ∀ r' ∈ s.central.db.files, place.Here r → place.Here r' → r = r'
  calls : s.calls = []

def Creation.object (c : Creation Bytes) : RemoteObject Bytes :=
  CentralServer.putObject c.attempt none (c.body place.server)

/-- What a creation that has put its bytes holds: the object, and its row once it is inserted. -/
def Running.holds : Running Bytes → Option (RemoteObject Bytes × Option ℕ)
  | .create _ (.put object) => some (object, none)
  | .create _ (.inserted fileId object) => some (object, some fileId)
  | .create c (.answered (.ok (.created fileId _ _))) => some (c.object place, some fileId)
  | _ => none

def Owner (s : State Bytes) (i : ℕ) (held : RemoteObject Bytes × Option ℕ) : Prop :=
  ∃ running, s.calls[i]? = some running ∧ running.holds place = some held

def NoRow (central : CentralState Bytes) : Prop := ∀ r ∈ central.db.files, ¬place.Here r

def RowOf (central : CentralState Bytes) (object : RemoteObject Bytes) (id : ℕ) : Prop :=
  ∃ r ∈ central.db.files, r.id = id ∧ place.Here r ∧
    r.currentRemoteHash = some (place.server.pushedHash place.remoteName object)

/-- Writing the row `id` or deleting it does not touch what a creation has inserted, nor ever
will. -/
def Harmless (s : State Bytes) (id : ℕ) : Prop :=
  id < s.central.db.nextId ∧ ∀ i object, ¬Owner place s i (object, some id)

/-- A record that was read: where it is what a creation has inserted, it has its hash. -/
def RecordFits (s : State Bytes) (r : FileRow) : Prop :=
  r.id < s.central.db.nextId ∧ ∀ i object, Owner place s i (object, some r.id) →
    r.currentRemoteHash = some (place.server.pushedHash place.remoteName object)

def Listed (s : State Bytes) (ref : FileRef) : Prop := place.listed s.central = some ref

def SpareStatement (s : State Bytes) : Statement → Prop
  | .deleteFile id | .setRemoteHash id _ => Harmless place s id
  | .setRemoteFileId _ _ | .insertAudit _ => True
  | .insertFile _ | .relocateFile _ _ _ => False

def SpareWrite (s : State Bytes) : Write → Prop
  | .sql statement => SpareStatement place s statement
  | .recordPush id _ _ => Harmless place s id

def FailedCall (attempt : Attempt) (e : RequestError) : Prop :=
  ∃ message, e = plainError message ∧
    (attempt.statFails place.remoteName place.remotePath = some message ∨
      ∃ tookEffect, attempt.put = .failed message tookEffect)

def CreateFits (s : State Bytes) (c : Creation Bytes) : CreateStage Bytes → Prop
  | .asked => True
  | .untracked | .absent => place.object s.central = none → NoRow place s.central
  | .put object | .inserted _ object => object = c.object place
  | .answered (.ok answer) => ∃ fileId, answer = .created fileId c.args.filename place.remotePath
  | .answered (.error e) => e = fileExists c.args.filename ∨ FailedCall place c.attempt e

def PushFits (s : State Bytes) : PushStage → Prop
  | .asked | .answered _ => True
  | .queued record | .locked record | .absent record | .versioned record _ | .ready record =>
    ∀ r, record = some r → RecordFits place s r
  | .writing writes _ => ∀ write ∈ writes, SpareWrite place s write

def SweepFits (s : State Bytes) : SweepStage → Prop
  | .asked | .finished => True
  | .listed ref => ∀ x, ref = some x → Listed place s x
  | .missing r => r.id < s.central.db.nextId ∧ r.remotePath = some place.remotePath
  | .stale candidate ref => Harmless place s candidate.id ∧ Listed place s ref
  | .searching ref | .unknown ref => Listed place s ref
  | .adopted file => Harmless place s file.fileId
  | .writing statements next => (∀ st ∈ statements, SpareStatement place s st) ∧ SweepFits s next

def Fits (s : State Bytes) : Running Bytes → Prop
  | .create c stage => c.args.nodeId = place.nodeId ∧ CreateFits place s c stage
  | .push _ stage => PushFits place s stage
  | .sweep _ stage => SweepFits place s stage

structure Kept (s : State Bytes) : Prop where
  keyed : s.central.db.Keyed
  unique : ∀ r ∈ s.central.db.files, ∀ r' ∈ s.central.db.files, place.Here r → place.Here r' → r = r'
  one : ∀ i j held held', Owner place s i held → Owner place s j held' → i = j
  object : ∀ i object row, Owner place s i (object, row) → place.object s.central = some object
  pending : ∀ i object, Owner place s i (object, none) → NoRow place s.central
  row : ∀ i object id, Owner place s i (object, some id) → RowOf place s.central object id
  calls : ∀ (i : ℕ) (running : Running Bytes), s.calls[i]? = some running → Fits place s running

section

variable {place} {s s' : State Bytes}

structure Later (place : Place Bytes) (s s' : State Bytes) : Prop where
  object : ∀ object, place.object s.central = some object → place.object s'.central = some object
  nextId : s.central.db.nextId ≤ s'.central.db.nextId
  owners : ∀ i object id, Owner place s' i (object, some id) →
    Owner place s i (object, some id) ∨ s.central.db.nextId ≤ id
  rows : place.object s'.central = none → NoRow place s.central → NoRow place s'.central

theorem Harmless.later {id : ℕ} (h : Harmless place s id) (later : Later place s s') :
    Harmless place s' id := by
  refine ⟨Nat.lt_of_lt_of_le h.1 later.nextId, fun i object howner => ?_⟩
  rcases later.owners i object id howner with hbefore | hfresh
  · exact h.2 i object hbefore
  · exact absurd h.1 (Nat.not_lt.mpr hfresh)

theorem RecordFits.later {r : FileRow} (h : RecordFits place s r) (later : Later place s s') :
    RecordFits place s' r := by
  refine ⟨Nat.lt_of_lt_of_le h.1 later.nextId, fun i object howner => ?_⟩
  rcases later.owners i object r.id howner with hbefore | hfresh
  · exact h.2 i object hbefore
  · exact absurd h.1 (Nat.not_lt.mpr hfresh)

theorem Listed.later {ref : FileRef} (h : Listed place s ref) (later : Later place s s') :
    Listed place s' ref := by
  obtain ⟨object, hobject, href⟩ := Option.map_eq_some_iff.mp h
  exact Option.map_eq_some_iff.mpr ⟨object, later.object object hobject, href⟩

theorem SpareStatement.later {st : Statement} (h : SpareStatement place s st)
    (later : Later place s s') : SpareStatement place s' st := by
  cases st with
  | deleteFile id | setRemoteHash id hash => exact Harmless.later h later
  | setRemoteFileId id remoteFileId | insertAudit row | insertFile row
  | relocateFile shadow id set => exact h

theorem SpareWrite.later {write : Write} (h : SpareWrite place s write) (later : Later place s s') :
    SpareWrite place s' write := by
  cases write with
  | sql st => exact SpareStatement.later h later
  | recordPush id remoteName hash => exact Harmless.later h later

theorem CreateFits.later {c : Creation Bytes} {stage : CreateStage Bytes}
    (h : CreateFits place s c stage) (later : Later place s s') : CreateFits place s' c stage := by
  have hrows : (place.object s.central = none → NoRow place s.central) →
      place.object s'.central = none → NoRow place s'.central := by
    intro hnone habsent
    refine later.rows habsent (hnone ?_)
    cases hobject : place.object s.central with
    | none => rfl
    | some object =>
      rw [later.object object hobject] at habsent
      cases habsent
  cases stage with
  | untracked | absent => exact hrows h
  | asked | put object | inserted fileId object => exact h
  | answered answer => cases answer <;> exact h

theorem PushFits.later {stage : PushStage} (h : PushFits place s stage) (later : Later place s s') :
    PushFits place s' stage := by
  cases stage with
  | asked | answered answer => exact h
  | writing writes answer => exact fun write hwrite => (h write hwrite).later later
  | queued record | locked record | absent record | versioned record version | ready record =>
    exact fun r hr => (h r hr).later later

theorem SweepFits.later {stage : SweepStage} (h : SweepFits place s stage)
    (later : Later place s s') : SweepFits place s' stage := by
  induction stage with
  | asked | finished => exact h
  | listed ref => exact fun x hx => (h x hx).later later
  | missing r => exact ⟨Nat.lt_of_lt_of_le h.1 later.nextId, h.2⟩
  | stale candidate ref => exact ⟨h.1.later later, h.2.later later⟩
  | searching ref | unknown ref => exact Listed.later h later
  | adopted file => exact Harmless.later h later
  | writing statements next ih => exact ⟨fun st hst => (h.1 st hst).later later, ih h.2⟩

theorem Fits.later {running : Running Bytes} (h : Fits place s running) (later : Later place s s') :
    Fits place s' running := by
  cases running with
  | create c stage => exact ⟨h.1, h.2.later later⟩
  | push p stage => exact PushFits.later h later
  | sweep w stage => exact SweepFits.later h later

end

section

variable {place} {s : State Bytes} {i : ℕ} {running running' : Running Bytes}
  {central' : CentralState Bytes}

structure Change (place : Place Bytes) (s : State Bytes) (central' : CentralState Bytes) : Prop where
  keyed : central'.db.Keyed
  unique : ∀ r ∈ central'.db.files, ∀ r' ∈ central'.db.files, place.Here r → place.Here r' → r = r'
  object : ∀ object, place.object s.central = some object → place.object central' = some object
  nextId : s.central.db.nextId ≤ central'.db.nextId
  rows : place.object central' = none → NoRow place s.central → NoRow place central'
  pending : ∀ j object, Owner place s j (object, none) → NoRow place central'
  row : ∀ j object id, Owner place s j (object, some id) → RowOf place central' object id

theorem Change.refl (h : Kept place s) : Change place s s.central :=
  ⟨h.keyed, h.unique, fun _ ho => ho, Nat.le_refl _, fun _ hnone => hnone, h.pending, h.row⟩

variable {held : RemoteObject Bytes × Option ℕ}

theorem owner_set_iff (hi : s.calls[i]? = some running) {j : ℕ} :
    Owner place ⟨central', s.calls.set i running'⟩ j held ↔
      j = i ∧ running'.holds place = some held ∨ j ≠ i ∧ Owner place s j held := by
  have hlt : i < s.calls.length := (List.getElem?_eq_some_iff.mp hi).1
  unfold Owner
  by_cases hj : j = i
  · subst hj
    simp [List.getElem?_set_self hlt]
  · simp [List.getElem?_set_ne (Ne.symm hj), hj]

theorem owner_set_same (hi : s.calls[i]? = some running)
    (hholds : running'.holds place = running.holds place) {j : ℕ} :
    Owner place ⟨central', s.calls.set i running'⟩ j held ↔ Owner place s j held := by
  rw [owner_set_iff hi, hholds]
  constructor
  · rintro (⟨rfl, hheld⟩ | ⟨-, howner⟩)
    · exact ⟨running, hi, hheld⟩
    · exact howner
  · intro howner
    by_cases hj : j = i
    · subst hj
      obtain ⟨found, hfound, hheld⟩ := howner
      rw [hi] at hfound
      cases hfound
      exact .inl ⟨rfl, hheld⟩
    · exact .inr ⟨hj, howner⟩

theorem fits_set (hlater : Later place s ⟨central', s.calls.set i running'⟩) (h : Kept place s)
    (hi : s.calls[i]? = some running)
    (hfits : Fits place ⟨central', s.calls.set i running'⟩ running') :
    ∀ (j : ℕ) (found : Running Bytes), (s.calls.set i running')[j]? = some found →
      Fits place ⟨central', s.calls.set i running'⟩ found := by
  have hlt : i < s.calls.length := (List.getElem?_eq_some_iff.mp hi).1
  intro j found hfound
  by_cases hj : j = i
  · subst hj
    rw [List.getElem?_set_self hlt] at hfound
    cases hfound
    exact hfits
  · rw [List.getElem?_set_ne (Ne.symm hj)] at hfound
    exact (h.calls j found hfound).later hlater

theorem Change.later (change : Change place s central') (hi : s.calls[i]? = some running)
    (hholds : running'.holds place = running.holds place) :
    Later place s ⟨central', s.calls.set i running'⟩ :=
  ⟨change.object, change.nextId, fun _ _ _ howner => .inl ((owner_set_same hi hholds).mp howner),
    change.rows⟩

theorem Kept.advance (h : Kept place s) (hi : s.calls[i]? = some running)
    (hholds : running'.holds place = running.holds place) (change : Change place s central')
    (hfits : Fits place ⟨central', s.calls.set i running'⟩ running') :
    Kept place ⟨central', s.calls.set i running'⟩ where
  __ := change
  one := fun j k held held' hj hk =>
    h.one j k held held' ((owner_set_same hi hholds).mp hj) ((owner_set_same hi hholds).mp hk)
  object := fun j object row hj =>
    change.object object (h.object j object row ((owner_set_same hi hholds).mp hj))
  pending := fun j object hj => change.pending j object ((owner_set_same hi hholds).mp hj)
  row := fun j object id hj => change.row j object id ((owner_set_same hi hholds).mp hj)
  calls := fits_set (change.later hi hholds) h hi hfits

end

section

variable {place} {s : State Bytes} {i : ℕ} {running running' : Running Bytes}
  {central' : CentralState Bytes} {db : Database} {id : ℕ} {set : FileRow → FileRow}

theorem Kept.no_owner (h : Kept place s) (hnone : place.object s.central = none) {j : ℕ}
    {held : RemoteObject Bytes × Option ℕ} : ¬Owner place s j held := by
  intro howner
  have hobject := h.object j held.1 held.2 howner
  rw [hnone] at hobject
  cases hobject

theorem object_put (central : CentralState Bytes) (object : RemoteObject Bytes) :
    place.object (place.put central object) = some object := by
  simp [Place.object, Place.put, Objects.set]

variable (h : Kept place s)

include h

theorem Change.put (hnone : place.object s.central = none) (object : RemoteObject Bytes) :
    Change place s (place.put s.central object) where
  __ := h
  object := by
    intro before hbefore
    rw [hnone] at hbefore
    cases hbefore
  nextId := Nat.le_refl _
  rows := by
    intro habsent
    rw [object_put] at habsent
    cases habsent
  pending := fun _ _ howner => absurd howner (h.no_owner hnone)
  row := fun _ _ _ howner => absurd howner (h.no_owner hnone)

theorem Change.update (hid : ∀ r, (set r).id = r.id)
    (hhere : ∀ r, place.Here (set r) ↔ place.Here r)
    (hspare : Harmless place s id ∨ ∀ r, (set r).currentRemoteHash = r.currentRemoteHash) :
    Change place s { s.central with db := s.central.db.updateFile id set } := by
  have hback : ∀ r ∈ (s.central.db.updateFile id set).files, place.Here r →
      ∃ r₀ ∈ s.central.db.files, place.Here r₀ ∧ (if r₀.id = id then set r₀ else r₀) = r := by
    intro r hr hplace
    obtain ⟨r₀, hr₀, rfl⟩ := Database.mem_updateFile_iff.mp hr
    refine ⟨r₀, hr₀, ?_, rfl⟩
    split at hplace
    · exact (hhere r₀).mp hplace
    · exact hplace
  have hnone : NoRow place s.central →
      NoRow place { s.central with db := s.central.db.updateFile id set } := by
    intro hno r hr hplace
    obtain ⟨r₀, hr₀, hplace₀, -⟩ := hback r hr hplace
    exact hno r₀ hr₀ hplace₀
  refine ⟨h.keyed.updateFile hid, ?_, fun _ ho => ho, Nat.le_refl _, fun _ => hnone,
    fun j object howner => hnone (h.pending j object howner), ?_⟩
  · intro r hr r' hr' hplace hplace'
    obtain ⟨r₀, hr₀, hplace₀, rfl⟩ := hback r hr hplace
    obtain ⟨r₀', hr₀', hplace₀', rfl⟩ := hback r' hr' hplace'
    rw [h.unique r₀ hr₀ r₀' hr₀' hplace₀ hplace₀']
  · intro j object rowId howner
    obtain ⟨r, hr, hrid, hplace, hhash⟩ := h.row j object rowId howner
    refine ⟨_, Database.mem_updateFile_iff.mpr ⟨r, hr, rfl⟩, ?_⟩
    split
    next heq =>
      refine ⟨(hid r).trans hrid, (hhere r).mpr hplace, ?_⟩
      rcases hspare with hharmless | hkeeps
      · rw [← heq, hrid] at hharmless
        exact absurd howner (hharmless.2 j object)
      · rw [hkeeps]
        exact hhash
    next => exact ⟨hrid, hplace, hhash⟩

theorem Change.delete (hspare : Harmless place s id) :
    Change place s { s.central with db := s.central.db.deleteFile id } := by
  have hback : ∀ r ∈ (s.central.db.deleteFile id).files, r ∈ s.central.db.files :=
    fun r hr => (Database.mem_deleteFile_iff.mp hr).1
  refine ⟨h.keyed.deleteFile, fun r hr r' hr' => h.unique r (hback r hr) r' (hback r' hr'),
    fun _ ho => ho, Nat.le_refl _, fun _ hno r hr => hno r (hback r hr),
    fun j object howner r hr => h.pending j object howner r (hback r hr), ?_⟩
  intro j object rowId howner
  obtain ⟨r, hr, hrid, hplace, hhash⟩ := h.row j object rowId howner
  refine ⟨r, Database.mem_deleteFile_iff.mpr ⟨hr, ?_⟩, hrid, hplace, hhash⟩
  rw [hrid]
  rintro rfl
  exact hspare.2 j object howner

theorem Change.insertAudit (row : AuditRow) :
    Change place s { s.central with db := s.central.db.insertAudit row } where
  __ := h
  keyed := h.keyed.apply (.insertAudit row)
  object := fun _ ho => ho
  nextId := Nat.le_refl _
  rows := fun _ hno => hno

theorem Change.statement {st : Statement} (hspare : SpareStatement place s st) :
    Change place s { s.central with db := s.central.db.apply st } := by
  cases st with
  | deleteFile id => exact Change.delete h hspare
  | setRemoteHash id hash => exact Change.update h (fun _ => rfl) (fun _ => Iff.rfl) (.inl hspare)
  | setRemoteFileId id remoteFileId =>
    exact Change.update h (fun _ => rfl) (fun _ => Iff.rfl) (.inr fun _ => rfl)
  | insertAudit row => exact Change.insertAudit h row
  | insertFile row => exact hspare.elim
  | relocateFile shadow id set => exact hspare.elim

theorem Change.write {write : Write} (hspare : SpareWrite place s write) :
    Change place s { s.central with db := write.apply s.central.db } := by
  cases write with
  | sql st => exact Change.statement h hspare
  | recordPush id remoteName hash =>
    exact Change.update h (fun _ => rfl) (fun _ => Iff.rfl) (.inl hspare)

omit h

theorem not_taken_iff : db.taken place.nodeId place.remotePath = false ↔
    ∀ r ∈ db.files, ¬place.Here r := by
  simp [Database.taken, Place.Here]

theorem Change.insert (h : Kept place s) {row : FileRow} {object : RemoteObject Bytes}
    (hno : NoRow place s.central) (hobject : place.object s.central = some object)
    (hpending : ∀ j object, ¬Owner place s j (object, none)) :
    Change place s { s.central with db := s.central.db.apply (.insertFile row) } where
  keyed := h.keyed.apply (.insertFile row)
  unique := by
    intro r hr r' hr' hplace hplace'
    rcases List.mem_append.mp hr with hr | hr
    · exact absurd hplace (hno r hr)
    · rcases List.mem_append.mp hr' with hr' | hr'
      · exact absurd hplace' (hno r' hr')
      · rw [List.mem_singleton.mp hr, List.mem_singleton.mp hr']
  object := fun _ ho => ho
  nextId := Nat.le_succ _
  rows := by
    intro habsent
    rw [show place.object s.central = none from habsent] at hobject
    cases hobject
  pending := fun j object howner => absurd howner (hpending j object)
  row := by
    intro j object rowId howner
    obtain ⟨r, hr, hrow⟩ := h.row j object rowId howner
    exact ⟨r, List.mem_append_left _ hr, hrow⟩

end

variable {place} {s : State Bytes} {i : ℕ} {c : Creation Bytes}

theorem Kept.put (h : Kept place s) (hi : s.calls[i]? = some (.create c .absent))
    (hnone : place.object s.central = none) :
    Kept place ⟨place.put s.central (c.object place),
      s.calls.set i (.create c (.put (c.object place)))⟩ := by
  obtain ⟨hnode, hfits⟩ := h.calls i _ hi
  have hno : NoRow place s.central := hfits hnone
  have howner : ∀ {j held}, Owner place ⟨place.put s.central (c.object place),
      s.calls.set i (.create c (.put (c.object place)))⟩ j held →
        j = i ∧ held = (c.object place, none) := by
    intro j held hj
    rcases (owner_set_iff hi).mp hj with ⟨hji, hheld⟩ | ⟨-, hbefore⟩
    · exact ⟨hji, (Option.some.inj hheld).symm⟩
    · exact absurd hbefore (h.no_owner hnone)
  have change := Change.put h hnone (c.object place)
  have later : Later place s ⟨place.put s.central (c.object place),
      s.calls.set i (.create c (.put (c.object place)))⟩ := by
    refine ⟨change.object, change.nextId, fun j object id hj => ?_, change.rows⟩
    obtain ⟨-, hheld⟩ := howner hj
    cases hheld
  refine ⟨change.keyed, change.unique, ?_, ?_, ?_, ?_, fits_set later h hi ⟨hnode, rfl⟩⟩
  · intro j k held held' hj hk
    rw [(howner hj).1, (howner hk).1]
  · intro j object row hj
    obtain ⟨-, hheld⟩ := howner hj
    obtain ⟨rfl, -⟩ := Prod.mk.inj hheld
    exact object_put s.central _
  · exact fun _ _ _ => hno
  · intro j object id hj
    obtain ⟨-, hheld⟩ := howner hj
    cases hheld

theorem Kept.insert (h : Kept place s) {object : RemoteObject Bytes}
    (hi : s.calls[i]? = some (.create c (.put object))) :
    Kept place ⟨{ s.central with
        db := s.central.db.apply (.insertFile (c.row place s.central object)) },
      s.calls.set i (.create c (.inserted s.central.db.nextId object))⟩ := by
  have howns : Owner place s i (object, none) := ⟨_, hi, rfl⟩
  have hobject := h.object i object none howns
  have hno := h.pending i object howns
  have hall : ∀ {j held}, Owner place s j held → j = i ∧ held = (object, none) := by
    intro j held hj
    obtain rfl := h.one j i held _ hj howns
    obtain ⟨running, hrunning, hheld⟩ := hj
    rw [hi] at hrunning
    cases hrunning
    exact ⟨rfl, (Option.some.inj hheld).symm⟩
  have howner : ∀ {j held}, Owner place ⟨{ s.central with
      db := s.central.db.apply (.insertFile (c.row place s.central object)) },
      s.calls.set i (.create c (.inserted s.central.db.nextId object))⟩ j held →
        j = i ∧ held = (object, some s.central.db.nextId) := by
    intro j held hj
    rcases (owner_set_iff hi).mp hj with ⟨hji, hheld⟩ | ⟨hji, hbefore⟩
    · exact ⟨hji, (Option.some.inj hheld).symm⟩
    · exact absurd (hall hbefore).1 hji
  have hrow : c.row place s.central object ∈
      (s.central.db.apply (.insertFile (c.row place s.central object))).files :=
    List.mem_append_right _ (List.mem_singleton.mpr rfl)
  have hunique : ∀ r ∈ (s.central.db.apply (.insertFile (c.row place s.central object))).files,
      place.Here r → r = c.row place s.central object := by
    intro r hr hplace
    rcases List.mem_append.mp hr with hr | hr
    · exact absurd hplace (hno r hr)
    · exact List.mem_singleton.mp hr
  have later : Later place s ⟨{ s.central with
      db := s.central.db.apply (.insertFile (c.row place s.central object)) },
      s.calls.set i (.create c (.inserted s.central.db.nextId object))⟩ := by
    refine ⟨fun _ ho => ho, Nat.le_succ _, fun j object' id hj => .inr ?_, fun habsent => ?_⟩
    · obtain ⟨-, hheld⟩ := howner hj
      obtain ⟨-, hid⟩ := Prod.mk.inj hheld
      exact Nat.le_of_eq (Option.some.inj hid).symm
    · rw [show place.object s.central = none from habsent] at hobject
      cases hobject
  refine ⟨h.keyed.apply (.insertFile (c.row place s.central object)), ?_, ?_, ?_, ?_, ?_,
    fits_set later h hi (h.calls i _ hi)⟩
  · intro r hr r' hr' hplace hplace'
    rw [hunique r hr hplace, hunique r' hr' hplace']
  · intro j k held held' hj hk
    rw [(howner hj).1, (howner hk).1]
  · intro j object' row hj
    obtain ⟨-, hheld⟩ := howner hj
    obtain ⟨rfl, -⟩ := Prod.mk.inj hheld
    exact hobject
  · intro j object' hj
    obtain ⟨-, hheld⟩ := howner hj
    cases hheld
  · intro j object' id hj
    obtain ⟨-, hheld⟩ := howner hj
    obtain ⟨rfl, hid⟩ := Prod.mk.inj hheld
    cases hid
    exact ⟨_, hrow, rfl, ⟨(h.calls i _ hi).1, rfl⟩, rfl⟩

end Portuni.Creations
