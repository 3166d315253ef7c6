import Portuni.RemoteWatch.Model

/-!
Planned changes that are done: when one is, and which statements of other
changes leave it so.
-/

namespace Portuni.RemoteWatch

open Files Files.Database RemoteSweep

universe u

variable {Bytes : Type u} (call : Call Bytes)

def PlannedChange.about (c : PlannedChange) (r : FileRow) : Bool :=
  match c with
  | .upsert .. => false
  | .remove node path fileId => call.atPath node.nodeId path r || fileId.any (call.ofObject · r)
  | .removeById fileId => call.ofObject fileId r

def SingleAt (db : Database) (nodeId : String) (path : RemotePath) : Prop :=
  ∀ r ∈ db.files, ∀ r' ∈ db.files, call.atPath nodeId path r → call.atPath nodeId path r' → r = r'

def Unclaimed (db : Database) (x : String) : Prop :=
  ∀ r ∈ db.files, call.ofObject x r = false

/-- An upsert of the object `x` that has nothing left to do: neither the record
at its path nor, where there is none, the object asks for a statement. -/
structure UpsertSettled (db : Database) (node : WatchedNode) (path : RemotePath)
    (hash : Option String) (x : String) : Prop where
  silent : (changeEffect call db (.upsert node path hash (some x))).statements = []
  single : SingleAt call db node.nodeId path
  unclaimed : findRemoteRecord call db node.nodeId path = none → Unclaimed call db x

def Settled (db : Database) : PlannedChange → Prop
  | .upsert node path hash fileId =>
    ∃ x, fileId = some x ∧ UpsertSettled call db node path hash x
  | c => ∀ r ∈ db.files, c.about call r → removable call r = false

def FollowsSafely : PlannedChange → PlannedChange → Prop
  | .upsert .., .upsert .. => False
  | .upsert _ path _ _, _ => ∀ ref, call.adapter.stat path ≠ .ok (some ref)
  | _, .upsert _ path _ _ =>
    call.adapter.stat path ≠ .ok none ∧ call.adapter.stat (call.nfc path) ≠ .ok none
  | _, _ => True

/-- Two changes of a plan, in this order, that do not get in each other's way. -/
structure Apart (c c' : PlannedChange) : Prop where
  paths : ∀ p p', c.path? = some p → c'.path? = some p' → call.nfc p ≠ call.nfc p'
  objects : ∀ x, c.object? = some x → c'.object? = some x → FollowsSafely call c c'

variable {call} {db : Database} {c c' : PlannedChange} {node : WatchedNode}
  {nodeId nodeId' x : String} {path path' : RemotePath} {hash : Option String} {r : FileRow}

variable (h : call.atPath nodeId path r)

include h

theorem remoteName_of_atPath : r.remoteName = some call.remoteName := by
  simp only [Call.atPath, Bool.and_eq_true, decide_eq_true_eq] at h
  exact h.1.2

theorem nodeId_of_atPath : r.nodeId = nodeId := by
  simp only [Call.atPath, Bool.and_eq_true, decide_eq_true_eq] at h
  exact h.1.1

theorem spelling_of_atPath : r.remotePath = some path ∨ r.remotePath = some (call.nfc path) := by
  simp only [Call.atPath, Bool.and_eq_true, Bool.or_eq_true, decide_eq_true_eq] at h
  exact h.2

theorem nfc_of_atPath {q : RemotePath} (hq : r.remotePath = some q) :
    call.nfc q = call.nfc path := by
  rcases spelling_of_atPath h with hpath | hpath
  · obtain rfl := Option.some.inj (hq.symm.trans hpath)
    rfl
  · obtain rfl := Option.some.inj (hq.symm.trans hpath)
    exact call.nfc_nfc path

omit h

theorem atPath_of_eq (hnode : r.nodeId = nodeId) (hremote : r.remoteName = some call.remoteName)
    (hpath : r.remotePath = some path) : call.atPath nodeId path r := by
  simp [Call.atPath, hnode, hremote, hpath]

theorem not_atPath_of_apart (hne : call.nfc path ≠ call.nfc path')
    (h : call.atPath nodeId' path' r) : call.atPath nodeId path r = false := by
  cases hat : call.atPath nodeId path r with
  | false => rfl
  | true =>
    exfalso
    rcases spelling_of_atPath h with hpath | hpath
    · exact hne ((nfc_of_atPath hat hpath).symm.trans (nfc_of_atPath h hpath))
    · exact hne ((nfc_of_atPath hat hpath).symm.trans (nfc_of_atPath h hpath))

theorem ofObject_iff : call.ofObject x r ↔
    r.remoteName = some call.remoteName ∧ r.remoteFileId = some x := by
  simp [Call.ofObject]

theorem findRemoteRecord_eq_some (hmem : r ∈ db.files) (hat : call.atPath nodeId path r)
    (single : SingleAt call db nodeId path) : findRemoteRecord call db nodeId path = some r := by
  cases hfind : findRemoteRecord call db nodeId path with
  | none => exact absurd hat (List.find?_eq_none.mp hfind r hmem)
  | some r' =>
    rw [single r' (List.mem_of_find?_eq_some hfind) r hmem (List.find?_some hfind) hat]

theorem findRemoteRecord_eq_none_iff :
    findRemoteRecord call db nodeId path = none ↔
      ∀ r ∈ db.files, call.atPath nodeId path r = false := by
  simp [findRemoteRecord, List.find?_eq_none]

theorem movedRecord_eq_none (h : Unclaimed call db x) :
    movedRecord call db path (some x) = none := by
  have hfind : findRecordByRemoteFileId call db x = none :=
    List.find?_eq_none.mpr fun r hr => by simp [h r hr]
  simp [movedRecord, hfind]

theorem about_remove_iff {fileId : Option String} :
    (PlannedChange.remove node path fileId).about call r ↔
      call.atPath node.nodeId path r ∨ ∃ z, fileId = some z ∧ call.ofObject z r := by
  cases fileId with
  | none => simp [PlannedChange.about]
  | some z => simp [PlannedChange.about]

theorem eq_of_ofObject {y : String} (hx : call.ofObject x r) (hy : call.ofObject y r) : x = y :=
  Option.some.inj ((ofObject_iff.mp hx).2.symm.trans (ofObject_iff.mp hy).2)

theorem about_of_ofObject (hc : ∀ n p h x, c ≠ .upsert n p h x) (hx : c.object? = some x)
    (hobject : call.ofObject x r) : c.about call r := by
  cases c with
  | upsert n p h y => exact absurd rfl (hc n p h y)
  | removeById y =>
    cases hx
    exact hobject
  | remove n p y => exact about_remove_iff.mpr (Or.inr ⟨x, hx, hobject⟩)

theorem object?_of_about (hobject : call.ofObject x r) (habout : c.about call r)
    (hpath : ∀ n p, c.path? = some p → call.atPath n p r = false) : c.object? = some x := by
  cases c with
  | upsert n p h y => cases habout
  | removeById y => exact congrArg some (eq_of_ofObject habout hobject)
  | remove n p y =>
    rcases about_remove_iff.mp habout with hat | ⟨z, rfl, hz⟩
    · rw [hpath n.nodeId p rfl] at hat
      cases hat
    · exact congrArg some (eq_of_ofObject hz hobject)

theorem about_of_removalTarget (h : removalTarget call db c = some r) :
    r ∈ db.files ∧ c.about call r := by
  have hfound : ∀ y, findRecordByRemoteFileId call db y = some r →
      r ∈ db.files ∧ call.ofObject y r := fun y hy =>
    ⟨List.mem_of_find?_eq_some hy, List.find?_some hy⟩
  cases c with
  | upsert n p h' y => cases h
  | removeById y => exact hfound y h
  | remove n p y =>
    rcases Option.or_eq_some_iff.mp h with hpath | ⟨-, hobject⟩
    · exact ⟨List.mem_of_find?_eq_some hpath, about_remove_iff.mpr (Or.inl (List.find?_some hpath))⟩
    · obtain ⟨z, rfl, hz⟩ := Option.bind_eq_some_iff.mp hobject
      exact ⟨(hfound z hz).1, about_remove_iff.mpr (Or.inr ⟨z, rfl, (hfound z hz).2⟩)⟩

theorem about_eq_false_of_removalTarget_eq_none (hc : ∀ n p h x, c ≠ .upsert n p h x)
    (h : removalTarget call db c = none) (hr : r ∈ db.files) : c.about call r = false := by
  have hmissing : ∀ y, findRecordByRemoteFileId call db y = none →
      call.ofObject y r = false := fun y hy => by
    simpa using List.find?_eq_none.mp hy r hr
  cases c with
  | upsert n p h' y => exact absurd rfl (hc n p h' y)
  | removeById y => exact hmissing y h
  | remove n p y =>
    obtain ⟨hpath, hobject⟩ := Option.or_eq_none_iff.mp h
    have hat := findRemoteRecord_eq_none_iff.mp hpath r hr
    cases y with
    | none => simp [PlannedChange.about, hat]
    | some z => simp [PlannedChange.about, hat, hmissing z hobject]

theorem remoteName_of_about (h : c.about call r) : r.remoteName = some call.remoteName := by
  cases c with
  | upsert n p h' y => cases h
  | removeById y => exact (ofObject_iff.mp h).1
  | remove n p y =>
    rcases about_remove_iff.mp h with h | ⟨z, -, h⟩
    · exact remoteName_of_atPath h
    · exact (ofObject_iff.mp h).1

theorem removal_silent (hc : ∀ n p h x, c ≠ .upsert n p h x)
    (h : ∀ r ∈ db.files, c.about call r → removable call r = false) :
    (changeEffect call db c).statements = [] := by
  rcases removal_statements call db hc with
    hnone | ⟨r, nodeId, htarget, hremovable, -⟩
  · exact hnone
  · obtain ⟨hmem, habout⟩ := about_of_removalTarget htarget
    rw [h r hmem habout] at hremovable
    cases hremovable

theorem Settled.silent (h : Settled call db c) : (changeEffect call db c).statements = [] := by
  cases c with
  | upsert n p h' y =>
    obtain ⟨x, rfl, hsettled⟩ := h
    exact hsettled.silent
  | remove n p y => exact removal_silent (by simp) h
  | removeById y => exact removal_silent (by simp) h

/-- A statement that an upsert of the object `x` at `path` issues about its own
record, in the state where it issues it. -/
def Own (call : Call Bytes) (db : Database) (node : WatchedNode) (path : RemotePath) (x : String) :
    Statement → Prop
  | .setRemoteFileId id y => y = x ∧ ∀ r ∈ db.files, r.id = id → call.atPath node.nodeId path r
  | .setRemoteHash id _ => ∀ r ∈ db.files, r.id = id →
      call.atPath node.nodeId path r ∧ call.ofObject x r
  | .relocateFile shadow id (remoteName, newPath, nodeId, _) =>
    remoteName = some call.remoteName ∧ newPath = path ∧ nodeId = node.nodeId ∧
      (∀ r ∈ db.files, r.id = id → call.ofObject x r) ∧
      ∀ s, shadow = some s → ∀ r ∈ db.files, r.id = s → r.remotePath = some path
  | .insertFile row => row.nodeId = node.nodeId ∧ row.remoteName = some call.remoteName ∧
      row.remotePath = some path ∧ row.remoteFileId = some x
  | .insertAudit _ => True
  | .deleteFile _ => False

variable {st : Statement}

theorem Own.mem (own : Own call db node path x st) (hr : r ∈ (db.apply st).files) :
    r ∈ db.files ∨ (call.atPath node.nodeId path r ∧ call.ofObject x r) := by
  cases st with
  | deleteFile id => exact own.elim
  | insertAudit row => exact Or.inl hr
  | insertFile row =>
    obtain ⟨hnode, hremote, hpath, hobject⟩ := own
    simp only [Database.apply, List.mem_append, List.mem_singleton] at hr
    rcases hr with hr | rfl
    · exact Or.inl hr
    · exact Or.inr ⟨atPath_of_eq hnode hremote hpath, ofObject_iff.mpr ⟨hremote, hobject⟩⟩
  | setRemoteFileId id y =>
    obtain ⟨rfl, hat⟩ := own
    obtain ⟨r₀, hr₀, rfl⟩ := mem_updateFile_iff.mp hr
    by_cases hid : r₀.id = id
    · rw [if_pos hid]
      exact Or.inr ⟨hat r₀ hr₀ hid, ofObject_iff.mpr ⟨remoteName_of_atPath (hat r₀ hr₀ hid), rfl⟩⟩
    · rw [if_neg hid]
      exact Or.inl hr₀
  | setRemoteHash id h =>
    obtain ⟨r₀, hr₀, rfl⟩ := mem_updateFile_iff.mp hr
    by_cases hid : r₀.id = id
    · rw [if_pos hid]
      exact Or.inr (own r₀ hr₀ hid)
    · rw [if_neg hid]
      exact Or.inl hr₀
  | relocateFile shadow id set =>
    obtain ⟨remoteName, newPath, nodeId, filename⟩ := set
    obtain ⟨rfl, rfl, rfl, hobject, -⟩ := own
    obtain ⟨r₀, hr₀, rfl⟩ := mem_updateFile_iff.mp hr
    have hr₀ : r₀ ∈ db.files := by
      cases shadow with
      | none => exact hr₀
      | some s => exact (mem_deleteFile_iff.mp hr₀).1
    by_cases hid : r₀.id = id
    · rw [if_pos hid]
      exact Or.inr ⟨atPath_of_eq rfl rfl rfl,
        ofObject_iff.mpr ⟨rfl, (ofObject_iff.mp (hobject r₀ hr₀ hid)).2⟩⟩
    · rw [if_neg hid]
      exact Or.inl hr₀

theorem Own.survives (own : Own call db node path x st) (hr : r ∈ db.files)
    (helse : ∀ q, r.remotePath = some q → call.nfc q ≠ call.nfc path)
    (hother : call.ofObject x r = false) : r ∈ (db.apply st).files := by
  have hnotAt : call.atPath node.nodeId path r = false := by
    cases hat : call.atPath node.nodeId path r with
    | false => rfl
    | true =>
      rcases spelling_of_atPath hat with hpath | hpath
      · exact absurd (nfc_of_atPath hat hpath) (helse _ hpath)
      · exact absurd (nfc_of_atPath hat hpath) (helse _ hpath)
  cases st with
  | deleteFile id => exact own.elim
  | insertAudit row => exact hr
  | insertFile row => exact List.mem_append_left _ hr
  | setRemoteFileId id y =>
    have hid : r.id ≠ id := fun hid => by
      rw [own.2 r hr hid] at hnotAt
      cases hnotAt
    exact mem_updateFile_iff.mpr ⟨r, hr, if_neg hid⟩
  | setRemoteHash id h =>
    have hid : r.id ≠ id := fun hid => by
      rw [(own r hr hid).1] at hnotAt
      cases hnotAt
    exact mem_updateFile_iff.mpr ⟨r, hr, if_neg hid⟩
  | relocateFile shadow id set =>
    obtain ⟨remoteName, newPath, nodeId, filename⟩ := set
    obtain ⟨-, -, -, hobject, hshadow⟩ := own
    have hid : r.id ≠ id := fun hid => by
      rw [hobject r hr hid] at hother
      cases hother
    refine mem_updateFile_iff.mpr ⟨r, ?_, if_neg hid⟩
    cases shadow with
    | none => exact hr
    | some s =>
      refine mem_deleteFile_iff.mpr ⟨hr, fun hs => ?_⟩
      exact helse path (hshadow s rfl r hr hs) rfl

end Portuni.RemoteWatch
