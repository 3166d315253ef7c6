import Portuni.CrashSafety.Relocations

/-!
`relocateRemoteObject` on the objects of the remotes, with a failure at any of
its adapter calls: the content of the source is held afterwards, and an object
that stood at the destination stays.
-/

namespace Portuni.CrashSafety

open CentralRetry (RemoteObject Objects CallAnswer)
open Content FileOps Files RemoteSweep

universe u

/-- How a rename or a put comes out. The answer of a call that took effect can be lost, and
one that did not can leave something of its own at the destination. -/
inductive CopyAnswer (Bytes : Type u) where
  | done
  | lost (message : String)
  | failed (message : String) (left : Option (RemoteObject Bytes))

def CopyAnswer.toExcept {Bytes : Type u} : CopyAnswer Bytes → Except String Unit
  | .done => .ok ()
  | .lost message => .error message
  | .failed message _ => .error message

/-- How the adapter calls of one relocation come out. `copy` is the rename, or the put between
two remotes. -/
structure RemoteCalls (Bytes : Type u) where
  statFails : String → RemotePath → Option String
  getFails : Option String
  copy : CopyAnswer Bytes
  newFileId : Option String
  deleteSource : CallAnswer

abbrev RelocateOutcome (Bytes : Type u) := Objects Bytes × Except (SubStep × String) RelocateStatus

variable {Bytes : Type u} (server : SyncServer Bytes) (calls : RemoteCalls Bytes)
  (p : RelocateParams) (objects : Objects Bytes)

namespace RemoteCalls

def stat (name : String) (path : RemotePath) : Except String (Option FileRef) :=
  match calls.statFails name path with
  | some message => .error message
  | none => .ok ((objects name path).map (statRef server name))

/-- The rename, or the get and the put, as far as the caller hears of it. -/
def copyAnswer : Except String Unit :=
  if p.fromRemoteName = p.toRemoteName then calls.copy.toExcept
  else
    match calls.getFails with
    | some message => .error message
    | none => calls.copy.toExcept

def answersTo : RelocateAnswers where
  atFrom := calls.stat server objects p.fromRemoteName p.fromRemotePath
  atTo := calls.stat server objects p.toRemoteName p.toRemotePath
  copy := calls.copyAnswer p
  deleteSource := calls.deleteSource.toExcept

end RemoteCalls

def atTargetSet (object : Option (RemoteObject Bytes)) : Objects Bytes :=
  objects.set p.toRemoteName p.toRemotePath object

def removeSource : RelocateOutcome Bytes :=
  match calls.deleteSource with
  | .done => (sourceRemoved p objects, .ok .moved)
  | .failed message tookEffect =>
    (if tookEffect then sourceRemoved p objects else objects, .error (.deleteSource, message))

def renameObject : RelocateOutcome Bytes :=
  match calls.copy with
  | .done => (renamed p objects, .ok .moved)
  | .lost message => (renamed p objects, .error (.copy, message))
  | .failed message left => (atTargetSet p objects left, .error (.copy, message))

def copyObject (source : RemoteObject Bytes) : RelocateOutcome Bytes :=
  let copy : RemoteObject Bytes := ⟨source.bytes, false, calls.newFileId⟩
  match calls.getFails with
  | some message => (objects, .error (.copy, message))
  | none =>
    match calls.copy with
    | .done => removeSource calls p (atTargetSet p objects (some copy))
    | .lost message => (atTargetSet p objects (some copy), .error (.copy, message))
    | .failed message left => (atTargetSet p objects left, .error (.copy, message))

def relocate : RelocateOutcome Bytes :=
  if SamePlace p then (objects, .ok .alreadyAtTarget)
  else
    match calls.statFails p.fromRemoteName p.fromRemotePath,
      calls.statFails p.toRemoteName p.toRemotePath, atSource p objects, atTarget p objects with
    | some message, _, _, _ => (objects, .error (.copy, message))
    | none, some message, _, _ => (objects, .error (.copy, message))
    | none, none, some source, some target =>
      if p.sourceCopied && sameContent (statRef server p.fromRemoteName source)
          (statRef server p.toRemoteName target) then removeSource calls p objects
      else
        (objects, .error (.copy, "both " ++ String.intercalate "/" p.fromRemotePath ++ " and " ++
          String.intercalate "/" p.toRemotePath ++ " exist on the remote"))
    | none, none, none, none =>
      (objects, .error (.copy, "neither " ++ String.intercalate "/" p.fromRemotePath ++ " nor " ++
        String.intercalate "/" p.toRemotePath ++ " exists on the remote"))
    | none, none, none, some _ => (objects, .ok .alreadyAtTarget)
    | none, none, some source, none =>
      if p.fromRemoteName = p.toRemoteName then renameObject calls p objects
      else copyObject calls p objects source

/-- Nothing is lost: the content of the source is held at one of the two places, an object at
the destination stays as it is and is never what is left of two contents, and after a success
the one object is at the destination. -/
structure ContentKept (before : Objects Bytes) (after : RelocateOutcome Bytes) : Prop where
  source : ∀ object, atSource p before = some object →
    ∃ kept, (atSource p after.1 = some kept ∨ atTarget p after.1 = some kept) ∧
      kept.bytes = object.bytes
  target : ∀ object, atTarget p before = some object → atTarget p after.1 = some object
  survivor : ∀ source target, atSource p before = some source → atTarget p before = some target →
    source.bytes ≠ target.bytes → atSource p after.1 = some source
  moved : ∀ status, after.2 = .ok status →
    (atTarget p after.1).isSome ∧ (¬ SamePlace p → atSource p after.1 = none)

/-- Another content stands at the destination, no hash tells so, and the recorded intent says
that it is the copy of the source. -/
def TakenOnTrust : Prop :=
  p.sourceCopied = true ∧ ∃ source target, atSource p objects = some source ∧
    atTarget p objects = some target ∧ source.bytes ≠ target.bytes ∧
    sameContent (statRef server p.fromRemoteName source)
      (statRef server p.toRemoteName target) = true

variable {server calls p objects}

theorem kept_of_untouched (failed : SubStep × String) :
    ContentKept p objects (objects, .error failed) where
  source object h := ⟨object, .inl h, rfl⟩
  target _ h := h
  survivor _ _ h _ _ := h
  moved _ h := by cases h

theorem kept_of_samePlace (hplace : SamePlace p) (there : (atTarget p objects).isSome)
    (status : RelocateStatus) : ContentKept p objects (objects, .ok status) where
  source object h := ⟨object, .inl h, rfl⟩
  target _ h := h
  survivor _ _ h _ _ := h
  moved _ _ := ⟨there, fun hne => absurd hplace hne⟩

variable {target : RemoteObject Bytes}

theorem kept_of_already (hsource : atSource p objects = none)
    (htarget : atTarget p objects = some target) (status : RelocateStatus) :
    ContentKept p objects (objects, .ok status) where
  source _ h := by rw [hsource] at h; cases h
  target _ h := h
  survivor _ _ h _ _ := h
  moved _ _ := ⟨by rw [htarget]; rfl, fun _ => hsource⟩

variable (calls objects) in
theorem removeSource_places (hplace : ¬ SamePlace p) :
    atTarget p (removeSource calls p objects).1 = atTarget p objects ∧
      (∀ status, (removeSource calls p objects).2 = .ok status →
        atSource p (removeSource calls p objects).1 = none) := by
  have hplaces : atSource p (sourceRemoved p objects) = none ∧
      atTarget p (sourceRemoved p objects) = atTarget p objects := sourceRemoved_places hplace
  obtain ⟨hgone, hstays⟩ := hplaces
  unfold removeSource
  cases calls.deleteSource with
  | done => exact ⟨hstays, fun _ _ => hgone⟩
  | failed message tookEffect =>
    refine ⟨?_, fun _ h => by cases h⟩
    cases tookEffect with
    | false => rfl
    | true => exact hstays

variable {source : RemoteObject Bytes}

variable (hsource : atSource p objects = some source)

include hsource

variable (htarget : atTarget p objects = none)

include htarget

theorem atTargetSet_places (object : Option (RemoteObject Bytes)) :
    atSource p (atTargetSet p objects object) = some source ∧
      atTarget p (atTargetSet p objects object) = object :=
  ⟨(set_elsewhere (not_samePlace_of_source hsource htarget)).trans hsource, set_self⟩

theorem kept_of_vacant {kept : RemoteObject Bytes} {after : RelocateOutcome Bytes}
    (held : atSource p after.1 = some kept ∨ atTarget p after.1 = some kept)
    (bytes : kept.bytes = source.bytes)
    (moved : ∀ status, after.2 = .ok status → (atTarget p after.1).isSome ∧ atSource p after.1 =
      none) : ContentKept p objects after where
  source object h := by
    obtain rfl := Option.some.inj (hsource.symm.trans h)
    exact ⟨kept, held, bytes⟩
  target _ h := by rw [htarget] at h; cases h
  survivor _ _ _ h _ := by rw [htarget] at h; cases h
  moved status h := ⟨(moved status h).1, fun _ => (moved status h).2⟩

theorem kept_of_left (left : Option (RemoteObject Bytes)) (failed : SubStep × String) :
    ContentKept p objects (atTargetSet p objects left, .error failed) :=
  kept_of_vacant hsource htarget (.inl (atTargetSet_places hsource htarget left).1) rfl
    fun _ h => by cases h

theorem renameObject_kept : ContentKept p objects (renameObject calls p objects) := by
  obtain ⟨hgone, hthere⟩ := renamed_places hsource htarget
  unfold renameObject
  cases calls.copy with
  | done =>
    exact kept_of_vacant hsource htarget (.inr hthere) rfl fun _ _ => ⟨by rw [hthere]; rfl, hgone⟩
  | lost message =>
    exact kept_of_vacant hsource htarget (.inr hthere) rfl fun _ h => by cases h
  | failed message left => exact kept_of_left hsource htarget left _

theorem copyObject_kept : ContentKept p objects (copyObject calls p objects source) := by
  have hplace := not_samePlace_of_source hsource htarget
  unfold copyObject
  cases calls.getFails with
  | some message => exact kept_of_untouched _
  | none =>
    cases calls.copy with
    | done =>
      have hcopy := (atTargetSet_places hsource htarget
        (some ⟨source.bytes, false, calls.newFileId⟩)).2
      obtain ⟨hstays, hgone⟩ := removeSource_places calls
        (atTargetSet p objects (some ⟨source.bytes, false, calls.newFileId⟩)) hplace
      rw [hcopy] at hstays
      exact kept_of_vacant hsource htarget (.inr hstays) rfl
        fun status h => ⟨by rw [hstays]; rfl, hgone status h⟩
    | lost message => exact kept_of_left hsource htarget _ _
    | failed message left => exact kept_of_left hsource htarget left _

omit htarget

omit hsource

theorem removeSource_kept (hplace : ¬ SamePlace p) (hsource : atSource p objects = some source)
    (htarget : atTarget p objects = some target) (hbytes : source.bytes = target.bytes) :
    ContentKept p objects (removeSource calls p objects) := by
  obtain ⟨hstays, hgone⟩ := removeSource_places calls objects hplace
  rw [htarget] at hstays
  refine ⟨fun object h => ?_, fun object h => ?_, fun source' target' h h' hne => ?_,
    fun status h => ?_⟩
  · obtain rfl := Option.some.inj (hsource.symm.trans h)
    exact ⟨target, .inr hstays, hbytes.symm⟩
  · obtain rfl := Option.some.inj (htarget.symm.trans h)
    exact hstays
  · obtain rfl := Option.some.inj (hsource.symm.trans h)
    obtain rfl := Option.some.inj (htarget.symm.trans h')
    exact absurd hbytes hne
  · exact ⟨by rw [hstays]; rfl, fun _ => hgone status h⟩

theorem relocate_kept (htrust : ¬ TakenOnTrust server p objects)
    (there : SamePlace p → (atTarget p objects).isSome) :
    ContentKept p objects (relocate server calls p objects) := by
  unfold relocate
  by_cases hplace : SamePlace p
  · rw [if_pos hplace]
    exact kept_of_samePlace hplace (there hplace) _
  · rw [if_neg hplace]
    cases calls.statFails p.fromRemoteName p.fromRemotePath with
    | some message => exact kept_of_untouched _
    | none =>
      cases calls.statFails p.toRemoteName p.toRemotePath with
      | some message => exact kept_of_untouched _
      | none =>
        cases hsource : atSource p objects with
        | none =>
          cases htarget : atTarget p objects with
          | none => exact kept_of_untouched _
          | some target => exact kept_of_already hsource htarget _
        | some source =>
          cases htarget : atTarget p objects with
          | none =>
            show ContentKept p objects (if _ then _ else _)
            split
            · exact renameObject_kept hsource htarget
            · exact copyObject_kept hsource htarget
          | some target =>
            show ContentKept p objects (if _ then _ else _)
            split
            · rename_i hdelete
              rw [Bool.and_eq_true] at hdelete
              have hbytes : source.bytes = target.bytes := by
                apply Classical.byContradiction
                intro hne
                exact htrust ⟨hdelete.1, source, target, hsource, htarget, hne, hdelete.2⟩
              exact removeSource_kept hplace hsource htarget hbytes
            · exact kept_of_untouched _

def workingCalls (Bytes : Type u) : RemoteCalls Bytes where
  statFails _ _ := none
  getFails := none
  copy := .done
  newFileId := none
  deleteSource := .done

theorem relocate_onTrust (htrust : TakenOnTrust server p objects) :
    relocate server (workingCalls Bytes) p objects = (sourceRemoved p objects, .ok .moved) := by
  obtain ⟨hcopied, source, target, hsource, htarget, hne, hsame⟩ := htrust
  have hplace : ¬ SamePlace p := by
    rintro ⟨hname, hpath⟩
    rw [atSource, hname, hpath] at hsource
    exact hne (congrArg _ (Option.some.inj (hsource.symm.trans htarget)))
  unfold relocate
  rw [if_neg hplace, hsource, htarget]
  simp only [workingCalls, hcopied, hsame, Bool.and_self, if_true, removeSource]

/-- Whatever calls fail, nothing is lost, but for an intent that is trusted wrongly and for a
relocation of nothing onto its own place. -/
theorem relocate_kept_iff (server : SyncServer Bytes) (p : RelocateParams)
    (objects : Objects Bytes) : (∀ calls, ContentKept p objects (relocate server calls p objects)) ↔
      ¬ TakenOnTrust server p objects ∧ (SamePlace p → (atTarget p objects).isSome) := by
  constructor
  · intro h
    have hkept := h (workingCalls Bytes)
    refine ⟨fun htrust => ?_, fun hplace => ?_⟩
    · rw [relocate_onTrust htrust] at hkept
      obtain ⟨-, source, target, hsource, htarget, hne, -⟩ := htrust
      have hstays := hkept.survivor source target hsource htarget hne
      have hgone : atSource p (sourceRemoved p objects) = none := set_self
      rw [hgone] at hstays
      cases hstays
    · have hsame : relocate server (workingCalls Bytes) p objects =
          (objects, .ok .alreadyAtTarget) := if_pos hplace
      rw [hsame] at hkept
      exact (hkept.moved _ rfl).1
  · rintro ⟨htrust, there⟩ calls
    exact relocate_kept htrust there

/-- A server whose remotes report no hash on `stat`. -/
def hashlessSync : SyncServer Bool where
  toServer := sampleServer
  hashing := sampleHashing
  backend _ := .opendal

/-- A retry between two remotes whose earlier attempt has copied the file. -/
def copiedBefore : RelocateParams := ⟨"one", ["a"], "two", ["a"], true⟩

/-- A copy at the destination that the source has changed under, and no object anywhere. -/
def editedSince : Objects Bool :=
  fun name path =>
    if path = ["a"] then
      if name = "one" then some ⟨true, false, none⟩
      else if name = "two" then some ⟨false, false, none⟩ else none
    else none

def onePlace : RelocateParams := ⟨"one", ["b"], "one", ["b"], false⟩

/-- The changed source is deleted, and a relocation of nothing onto its own place succeeds. -/
theorem relocate_loses_edit : (∃ source, atSource copiedBefore editedSince = some source ∧
      ¬ ∃ kept, (atSource copiedBefore
            (relocate hashlessSync (workingCalls Bool) copiedBefore editedSince).1 = some kept ∨
          atTarget copiedBefore
            (relocate hashlessSync (workingCalls Bool) copiedBefore editedSince).1 = some kept) ∧
        kept.bytes = source.bytes) ∧
      (relocate hashlessSync (workingCalls Bool) onePlace editedSince).2 = .ok .alreadyAtTarget ∧
      atTarget onePlace (relocate hashlessSync (workingCalls Bool) onePlace editedSince).1 =
        none := by
  have hsource : atSource copiedBefore
      (relocate hashlessSync (workingCalls Bool) copiedBefore editedSince).1 = none := by
    decide +kernel
  have htarget : atTarget copiedBefore
      (relocate hashlessSync (workingCalls Bool) copiedBefore editedSince).1 =
        some ⟨false, false, none⟩ := by
    decide +kernel
  refine ⟨⟨⟨true, false, none⟩, by decide +kernel, ?_⟩, by decide +kernel, by decide +kernel⟩
  rintro ⟨kept, hkept, hbytes⟩
  rw [hsource, htarget] at hkept
  rcases hkept with hkept | hkept
  · cases hkept
  · cases hkept
    cases hbytes

end Portuni.CrashSafety
