import Portuni.Library.Replay
import Portuni.RemoteWatch.Settled

namespace Portuni.RemoteWatch

/-! Later changes of a plan leave a settled change settled. -/

section

open Files Files.Database RemoteSweep

universe u

variable {Bytes : Type u} {call : Call Bytes} {db db' : Database} {c c' : PlannedChange}
  {node node' : WatchedNode} {path path' : RemotePath} {hash hash' : Option String} {x y : String}
  {st : Statement} {r : FileRow}

theorem UpsertSettled.of_found (h : UpsertSettled call db node path hash x)
    (hfound : findRemoteRecord call db node.nodeId path = some r) (hr : r ∈ db'.files)
    (hback : ∀ r' ∈ db'.files, call.atPath node.nodeId path r' → r' ∈ db.files) :
    UpsertSettled call db' node path hash x := by
  have hsingle : SingleAt call db' node.nodeId path := fun r₁ h₁ r₂ h₂ hat₁ hat₂ =>
    h.single r₁ (hback r₁ h₁ hat₁) r₂ (hback r₂ h₂ hat₂) hat₁ hat₂
  have hfound' : findRemoteRecord call db' node.nodeId path = some r :=
    findRemoteRecord_eq_some hr (List.find?_some hfound) hsingle
  refine ⟨?_, hsingle, fun hnone => ?_⟩
  · rw [upsert_statements_tracked hfound', ← upsert_statements_tracked hfound]
    exact h.silent
  · rw [hfound'] at hnone
    cases hnone

theorem UpsertSettled.of_unclaimed (hnone : findRemoteRecord call db node.nodeId path = none)
    (hunclaimed : Unclaimed call db x) (hsilent : ∀ ref, call.adapter.stat path = .ok (some ref) →
      acceptedPath node.nodeRoot path = false ∨ db.taken node.nodeId path = true) :
    UpsertSettled call db node path hash x := by
  refine ⟨?_, fun r hr _ _ hat _ => ?_, fun _ => hunclaimed⟩
  · rw [upsert_statements_new hnone (movedRecord_eq_none hunclaimed)]
    rcases hstat : call.adapter.stat path with message | _ | ref
    · rfl
    · rfl
    · rcases hsilent ref hstat with haccepted | htaken
      · simp [haccepted]
      · simp [htaken]
  · rw [findRemoteRecord_eq_none_iff.mp hnone r hr] at hat
    cases hat

theorem UpsertSettled.ofObject (h : UpsertSettled call db node path hash x)
    (hfound : findRemoteRecord call db node.nodeId path = some r) : call.ofObject x r := by
  have hsilent := h.silent
  rw [upsert_statements_tracked hfound] at hsilent
  have hpersist := (List.append_eq_nil_iff.mp hsilent).1
  refine ofObject_iff.mpr ⟨remoteName_of_atPath (List.find?_some hfound), ?_⟩
  by_contra hne
  simp [persistRemoteFileId, hne] at hpersist

theorem UpsertSettled.cannot_adopt (h : UpsertSettled call db node path hash x)
    (hnone : findRemoteRecord call db node.nodeId path = none) {ref : FileRef}
    (hstat : call.adapter.stat path = .ok (some ref)) :
    acceptedPath node.nodeRoot path = false ∨ db.taken node.nodeId path = true := by
  have hsilent := h.silent
  rw [upsert_statements_new hnone (movedRecord_eq_none (h.unclaimed hnone)), hstat] at hsilent
  by_contra hcan
  simp only [not_or, Bool.not_eq_false, Bool.not_eq_true] at hcan
  simp [hcan.1, hcan.2, adoptStatements] at hsilent

theorem taken_iff {nodeId : String} : db.taken nodeId path = true ↔
    ∃ r ∈ db.files, r.nodeId = nodeId ∧ r.remotePath = some path := by
  simp [Database.taken]

theorem UpsertSettled.apply_own (h : UpsertSettled call db node path hash x)
    (hpaths : call.nfc path ≠ call.nfc path') (hobjects : x ≠ y)
    (own : Own call db node' path' y st) : UpsertSettled call (db.apply st) node path hash x := by
  have hback : ∀ r ∈ (db.apply st).files, call.atPath node.nodeId path r → r ∈ db.files := by
    intro r hr hat
    rcases own.mem hr with hr | ⟨hat', -⟩
    · exact hr
    · rw [not_atPath_of_apart hpaths hat'] at hat
      cases hat
  have hother : ∀ r, call.ofObject x r → call.ofObject y r = false := by
    intro r hx
    cases hy : call.ofObject y r with
    | false => rfl
    | true => exact absurd (eq_of_ofObject hx hy) hobjects
  cases hfound : findRemoteRecord call db node.nodeId path with
  | some r =>
    have hat : call.atPath node.nodeId path r := List.find?_some hfound
    refine h.of_found hfound (own.survives (List.mem_of_find?_eq_some hfound) ?_ ?_) hback
    · intro q hq heq
      exact hpaths ((nfc_of_atPath hat hq).symm.trans heq)
    · exact hother r (h.ofObject hfound)
  | none =>
    have hnone := findRemoteRecord_eq_none_iff.mp hfound
    have hunclaimed := h.unclaimed hfound
    refine .of_unclaimed ?_ ?_ fun ref hstat => ?_
    · refine findRemoteRecord_eq_none_iff.mpr fun r hr => ?_
      rcases own.mem hr with hr | ⟨hat', -⟩
      · exact hnone r hr
      · exact not_atPath_of_apart hpaths hat'
    · intro r hr
      rcases own.mem hr with hr | ⟨-, hy⟩
      · exact hunclaimed r hr
      · cases hx : call.ofObject x r with
        | false => rfl
        | true =>
          rw [hother r hx] at hy
          cases hy
    · refine (h.cannot_adopt hfound hstat).imp id fun htaken => ?_
      obtain ⟨r, hr, hnode, hpath⟩ := taken_iff.mp htaken
      have hforeign : r.remoteName ≠ some call.remoteName := fun hremote => by
        have hat := atPath_of_eq hnode hremote hpath
        rw [hnone r hr] at hat
        cases hat
      refine taken_iff.mpr ⟨r, own.survives hr ?_ ?_, hnode, hpath⟩
      · rintro q hq
        obtain rfl := Option.some.inj (hpath.symm.trans hq)
        exact hpaths
      · simp [Call.ofObject, hforeign]

theorem removable_eq_false {nodeId : String} (hat : call.atPath nodeId path r)
    (hpath : call.adapter.stat path ≠ .ok none)
    (hnfc : call.adapter.stat (call.nfc path) ≠ .ok none) : removable call r = false := by
  have hconfirm : ∀ q, r.remotePath = some q → call.adapter.stat q ≠ .ok none →
      confirmRemoved call r ≠ .ok true := by
    intro q hq hstat
    simp only [confirmRemoved, hq]
    rcases hcase : call.adapter.stat q with message | _ | ref
    · simp
    · exact absurd hcase hstat
    · simp
  rcases spelling_of_atPath hat with hq | hq
  · simp [removable, hconfirm _ hq hpath]
  · simp [removable, hconfirm _ hq hnfc]

theorem Settled.apply_own (h : Settled call db c)
    (apart : Apart call c (.upsert node path hash (some x)))
    (own : Own call db node path x st) : Settled call (db.apply st) c := by
  cases hc : c with
  | upsert n p h' y =>
    subst hc
    obtain ⟨y, rfl, hsettled⟩ := h
    refine ⟨y, rfl, hsettled.apply_own (apart.paths p path rfl rfl) ?_ own⟩
    rintro rfl
    exact apart.objects y rfl rfl
  | remove n p y =>
    subst hc
    intro r hr habout
    rcases own.mem hr with hr | ⟨hat, hobject⟩
    · exact h r hr habout
    · have hnamed := object?_of_about hobject habout fun n' p' hp' =>
        not_atPath_of_apart (apart.paths p' path hp' rfl) hat
      obtain ⟨hpath, hnfc⟩ := apart.objects x hnamed rfl
      exact removable_eq_false hat hpath hnfc
  | removeById y =>
    subst hc
    intro r hr habout
    rcases own.mem hr with hr | ⟨hat, hobject⟩
    · exact h r hr habout
    · obtain rfl := eq_of_ofObject habout hobject
      obtain ⟨hpath, hnfc⟩ := apart.objects y rfl rfl
      exact removable_eq_false hat hpath hnfc

theorem Settled.deleteFile (keyed : db.Keyed) (h : Settled call db c) (apart : Apart call c c')
    (hc' : ∀ n p h x, c' ≠ .upsert n p h x) (hr : r ∈ db.files) (habout : c'.about call r)
    (hone : ∀ r₁ ∈ db.files, ∀ r₂ ∈ db.files, c'.about call r₁ → c'.about call r₂ → r₁ = r₂) :
    Settled call (db.deleteFile r.id) c := by
  cases c with
  | remove n p y | removeById y => exact fun r₁ h₁ => h r₁ (mem_deleteFile_iff.mp h₁).1
  | upsert n p hsh y =>
    obtain ⟨y, rfl, hsettled⟩ := h
    refine ⟨y, rfl, ?_⟩
    have hback : ∀ r₁ ∈ (db.deleteFile r.id).files, call.atPath n.nodeId p r₁ →
        r₁ ∈ db.files := fun r₁ h₁ _ => (mem_deleteFile_iff.mp h₁).1
    cases hfound : findRemoteRecord call db n.nodeId p with
    | some r₀ =>
      have hmem := List.mem_of_find?_eq_some hfound
      have hat : call.atPath n.nodeId p r₀ := List.find?_some hfound
      by_cases hid : r₀.id = r.id
      · obtain rfl := keyed.unique hmem hr hid
        have hobject := hsettled.ofObject hfound
        have hnamed : c'.object? = some y := object?_of_about hobject habout fun n' p' hp' =>
          not_atPath_of_apart (Ne.symm (apart.paths p p' rfl hp')) hat
        have hgone : ∀ ref, call.adapter.stat p ≠ .ok (some ref) := by
          have hfollows := apart.objects y rfl hnamed
          cases c' with
          | upsert n' p' h' z => exact absurd rfl (hc' n' p' h' z)
          | removeById z => exact hfollows
          | remove n' p' z => exact hfollows
        refine .of_unclaimed ?_ ?_ fun ref hstat => absurd hstat (hgone ref)
        · refine findRemoteRecord_eq_none_iff.mpr fun r₁ h₁ => ?_
          obtain ⟨h₁, hne⟩ := mem_deleteFile_iff.mp h₁
          cases hat₁ : call.atPath n.nodeId p r₁ with
          | false => rfl
          | true => exact absurd (congrArg _ (hsettled.single r₁ h₁ r₀ hmem hat₁ hat)) hne
        · intro r₁ h₁
          obtain ⟨h₁, hne⟩ := mem_deleteFile_iff.mp h₁
          cases hobject₁ : call.ofObject y r₁ with
          | false => rfl
          | true =>
            have habout₁ := about_of_ofObject hc' hnamed hobject₁
            exact absurd (congrArg (·.id) (hone r₁ h₁ r₀ hmem habout₁ habout)) hne
      · exact hsettled.of_found hfound (mem_deleteFile_iff.mpr ⟨hmem, hid⟩) hback
    | none =>
      have hnone := findRemoteRecord_eq_none_iff.mp hfound
      refine .of_unclaimed
        (findRemoteRecord_eq_none_iff.mpr fun r₁ h₁ => hnone r₁ (mem_deleteFile_iff.mp h₁).1)
        (fun r₁ h₁ => hsettled.unclaimed hfound r₁ (mem_deleteFile_iff.mp h₁).1)
        fun ref hstat => (hsettled.cannot_adopt hfound hstat).imp id fun htaken => ?_
      obtain ⟨r₁, h₁, hnode, hpath⟩ := taken_iff.mp htaken
      refine taken_iff.mpr ⟨r₁, mem_deleteFile_iff.mpr ⟨h₁, fun hid => ?_⟩, hnode, hpath⟩
      obtain rfl := keyed.unique h₁ hr hid
      have hat := atPath_of_eq hnode (remoteName_of_about habout) hpath
      rw [hnone r₁ h₁] at hat
      cases hat

theorem Settled.insertAudit (h : Settled call db c) {row : AuditRow} :
    Settled call (db.insertAudit row) c := by
  cases c with
  | remove n p y => exact h
  | removeById y => exact h
  | upsert n p hsh y =>
    obtain ⟨y, rfl, hsettled⟩ := h
    refine ⟨y, rfl, ?_⟩
    cases hfound : findRemoteRecord call db n.nodeId p with
    | some r => exact hsettled.of_found hfound (List.mem_of_find?_eq_some hfound) fun _ hr _ => hr
    | none =>
      exact .of_unclaimed hfound (hsettled.unclaimed hfound) fun ref hstat =>
        hsettled.cannot_adopt hfound hstat

end

open Files Files.Database RemoteSweep

universe u

variable {Bytes : Type u}

structure OnlyAt (call : Call Bytes) (db : Database) (nodeId : String) (path : RemotePath)
    (r : FileRow) : Prop where
  mem : r ∈ db.files
  atPath : call.atPath nodeId path r
  only : ∀ r' ∈ db.files, call.atPath nodeId path r' → r' = r

variable {call : Call Bytes} {db : Database} {node : WatchedNode} {nodeId : String}
  {path : RemotePath} {hash fileId : Option String} {x : String} {r r' : FileRow}

variable (h : OnlyAt call db nodeId path r)

include h

theorem OnlyAt.single : SingleAt call db nodeId path :=
  fun r₁ h₁ r₂ h₂ hat₁ hat₂ => (h.only r₁ h₁ hat₁).trans (h.only r₂ h₂ hat₂).symm

theorem OnlyAt.found : findRemoteRecord call db nodeId path = some r :=
  findRemoteRecord_eq_some h.mem h.atPath h.single

theorem OnlyAt.updateFile {set : FileRow → FileRow}
    (hset : ∀ r', call.atPath nodeId path (set r') = call.atPath nodeId path r') :
    OnlyAt call (db.updateFile r.id set) nodeId path (set r) where
  mem := mem_updateFile_iff.mpr ⟨r, h.mem, if_pos rfl⟩
  atPath := (hset r).trans h.atPath
  only := by
    intro r' hr' hat
    obtain ⟨r₀, hr₀, rfl⟩ := mem_updateFile_iff.mp hr'
    by_cases hid : r₀.id = r.id
    · rw [if_pos hid, hset] at hat
      rw [if_pos hid, h.only r₀ hr₀ hat]
    · rw [if_neg hid] at hat
      exact absurd (congrArg (·.id) (h.only r₀ hr₀ hat)) hid

omit h

theorem SingleAt.onlyAt (single : SingleAt call db nodeId path)
    (hfound : findRemoteRecord call db nodeId path = some r) : OnlyAt call db nodeId path r where
  mem := List.mem_of_find?_eq_some hfound
  atPath := List.find?_some hfound
  only := fun r' hr' hat =>
    single r' hr' r (List.mem_of_find?_eq_some hfound) hat (List.find?_some hfound)

theorem refreshedHash_eq_none {path' : RemotePath} {resolved : String}
    (h : refreshedHash call r path hash = some resolved)
    (hr' : r'.currentRemoteHash = some resolved) : refreshedHash call r' path' hash = none := by
  unfold refreshedHash at h ⊢
  split at h
  · refine if_neg ?_
    cases hash with
    | none => simp [needsHashRefresh, hr']
    | some listed =>
      obtain rfl : listed = resolved := by simpa [resolveHash, Except.toOption] using h
      simp [needsHashRefresh, hr']
  · cases h

/-- The statement, if any, that refreshes the hash of the upsert's record. -/
def refreshStatements (call : Call Bytes) (path : RemotePath) (hash : Option String) (r : FileRow) :
    List Statement :=
  ((refreshedHash call r (r.remotePath.getD path) hash).map (Statement.setRemoteHash r.id)).toList

theorem refreshStatements_length (call : Call Bytes) (path : RemotePath) (hash : Option String)
    (r : FileRow) : (refreshStatements call path hash r).length ≤ 1 := by
  unfold refreshStatements
  cases refreshedHash call r (r.remotePath.getD path) hash with
  | none => exact Nat.zero_le 1
  | some resolved => exact Nat.le_refl 1

theorem OnlyAt.statements (h : OnlyAt call db node.nodeId path r) (hobject : call.ofObject x r) :
    (changeEffect call db (.upsert node path hash (some x))).statements =
      refreshStatements call path hash r := by
  rw [upsert_statements_tracked h.found, (ofObject_iff.mp hobject).2]
  simp [persistRemoteFileId, refreshStatements]

theorem OnlyAt.settled (h : OnlyAt call db node.nodeId path r) (hobject : call.ofObject x r)
    (hrefreshed : refreshedHash call r (r.remotePath.getD path) hash = none) :
    UpsertSettled call db node path hash x where
  silent := by
    rw [h.statements hobject, refreshStatements, hrefreshed]
    rfl
  single := h.single
  unclaimed := by
    intro hnone
    rw [h.found] at hnone
    cases hnone

/-- Own statements in a row, each in the state the ones before it lead to. -/
def OwnAll (call : Call Bytes) (node : WatchedNode) (path : RemotePath) (x : String) :
    Database → List Statement → Prop
  | _, [] => True
  | db, st :: rest => Own call db node path x st ∧ OwnAll call node path x (db.apply st) rest

variable {statements : List Statement}

theorem OwnAll.take (own : OwnAll call node path x db statements) (count : ℕ) :
    OwnAll call node path x db (statements.take count) := by
  induction statements generalizing db count with
  | nil => simp [OwnAll]
  | cons st rest ih =>
    cases count with
    | zero => trivial
    | succ count => exact ⟨own.1, ih own.2 count⟩

theorem OwnAll.append {first second : List Statement} (own : OwnAll call node path x db first)
    (own' : OwnAll call node path x (first.foldl Database.apply db) second) :
    OwnAll call node path x db (first ++ second) := by
  induction first generalizing db with
  | nil => exact own'
  | cons st rest ih => exact ⟨own.1, ih own.2 own'⟩

theorem Settled.foldl_own {c : PlannedChange} (h : Settled call db c)
    (apart : Apart call c (.upsert node path hash (some x)))
    (own : OwnAll call node path x db statements) :
    Settled call (statements.foldl Database.apply db) c := by
  induction statements generalizing db with
  | nil => exact h
  | cons st rest ih => exact ih (h.apply_own apart own.1) own.2

theorem OnlyAt.own_refresh (keyed : db.Keyed) (h : OnlyAt call db node.nodeId path r)
    (hobject : call.ofObject x r) (hash : Option String) :
    OwnAll call node path x db (refreshStatements call path hash r) := by
  unfold refreshStatements
  cases refreshedHash call r (r.remotePath.getD path) hash with
  | none => trivial
  | some resolved =>
    refine ⟨fun r' hr' hid => ?_, trivial⟩
    obtain rfl := keyed.unique hr' h.mem hid
    exact ⟨h.atPath, hobject⟩

theorem OnlyAt.settled_after_refresh (h : OnlyAt call db node.nodeId path r)
    (hobject : call.ofObject x r) (hash : Option String) :
    UpsertSettled call ((refreshStatements call path hash r).foldl Database.apply db) node path
      hash x := by
  unfold refreshStatements
  cases hrefreshed : refreshedHash call r (r.remotePath.getD path) hash with
  | none => exact h.settled hobject hrefreshed
  | some resolved =>
    have hset : OnlyAt call (db.apply (.setRemoteHash r.id resolved)) node.nodeId path
        { r with currentRemoteHash := some resolved } := h.updateFile fun _ => rfl
    exact hset.settled hobject (refreshedHash_eq_none hrefreshed rfl)

end Portuni.RemoteWatch
