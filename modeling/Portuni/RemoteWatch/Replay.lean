import Portuni.RemoteWatch.Stages

namespace Portuni.RemoteWatch

/-!
Replaying a plan after an attempt that stopped anywhere in it. The outcome is
that of applying the plan once, where the plan is safe to replay and the attempt
did not stop between taking a record off its path and writing the tombstone.
-/

section

open Files Files.Database RemoteSweep Library.Replay

universe u

variable {Bytes : Type u} (call : Call Bytes)

/-- After `count` statements of a change the next one is not a tombstone. -/
def StopsSafely (db : Database) (c : PlannedChange) (count : ℕ) : Prop :=
  ∀ row, (changeEffect call db c).statements[count]? = some (.insertAudit row) →
    row.tombstone? = none

/-- What makes an upsert of the object `x` safe to replay, in the state it is
first applied in. -/
structure UpsertMeetsOwn (db : Database) (node : WatchedNode) (path : RemotePath)
    (hash : Option String) (x : String) : Prop where
  /-- At most one record stands at the path. -/
  single : SingleAt call db node.nodeId path
  /-- A record of the object at the path is the node's own. -/
  ownNode : ∀ r ∈ db.files, call.ofObject x r → r.remotePath = some path → r.nodeId = node.nodeId
  /-- What the remote has at the path, if that gets adopted, is what the change reports. -/
  current : findRemoteRecord call db node.nodeId path = none →
    movedRecord call db path (some x) = none → ∀ ref, call.adapter.stat path = .ok (some ref) →
      (ref.remoteFileId = none ∨ ref.remoteFileId = some x) ∧
        (ref.isNativeFormat = true ∨ ref.hash = hash)

/-- The change is about one record at most, and reports the remote as it is. -/
def MeetsOwn (db : Database) : PlannedChange → Prop
  | .upsert node path hash fileId => ∃ x, fileId = some x ∧ UpsertMeetsOwn call db node path hash x
  | c => ∀ r ∈ db.files, ∀ r' ∈ db.files, c.about call r → c.about call r' → r = r'

/-- A plan that is safe to replay from `db`: its changes keep out of each other's
way, and each one meets its own record only when it is first applied. -/
structure ReplaySafe (db : Database) (plan : List PlannedChange) : Prop where
  apart : plan.Pairwise (Apart call)
  meets : ∀ before c rest, plan = before ++ c :: rest →
    MeetsOwn call (before.foldl (applyChange call) db) c

variable {call} in
theorem changeEffect_congr {db db' : Database} (same : db.SameOutcome db') (c : PlannedChange) :
    (changeEffect call db c).statements = (changeEffect call db' c).statements := by
  obtain ⟨files, log, ops, next⟩ := db
  obtain ⟨files', log', ops', next'⟩ := db'
  obtain ⟨rfl, -, rfl⟩ := same
  cases c with
  | removeById fileId => rfl
  | remove node path fileId => rfl
  | upsert node path hash fileId =>
    have hother : findRemoteRecord call ⟨files, log', ops', next⟩ node.nodeId path =
      findRemoteRecord call ⟨files, log, ops, next⟩ node.nodeId path := rfl
    have hmoved' : movedRecord call ⟨files, log', ops', next⟩ path fileId =
      movedRecord call ⟨files, log, ops, next⟩ path fileId := rfl
    cases hfound : findRemoteRecord call ⟨files, log, ops, next⟩ node.nodeId path with
    | some r =>
      exact (upsert_statements_tracked hfound).trans
        (upsert_statements_tracked (hother.trans hfound)).symm
    | none =>
      cases hmoved : movedRecord call ⟨files, log, ops, next⟩ path fileId with
      | some r =>
        exact (upsert_statements_moved hfound hmoved).trans
          (upsert_statements_moved (hother.trans hfound) (hmoved'.trans hmoved)).symm
      | none =>
        exact (upsert_statements_new hfound hmoved).trans
          (upsert_statements_new (hother.trans hfound) (hmoved'.trans hmoved)).symm

def replaySystem : System Database PlannedChange Statement where
  apply := Database.apply
  writes db c := (changeEffect call db c).statements
  Settled := Settled call
  writes_of_settled _ _ h := h.silent
  Same := SameOutcome
  same_perform db db' c h := by
    rw [changeEffect_congr h c]
    exact h.foldl_apply _
  Safe := StopsSafely call
  safe_length db c row h := by simp at h

/-- The two stages of an upsert whose record comes to be `r`. -/
structure Stages (db : Database) (node : WatchedNode) (path : RemotePath) (hash : Option String)
    (x : String) (first : List Statement) (r : FileRow) : Prop where
  statements : (changeEffect call db (.upsert node path hash (some x))).statements =
    first ++ refreshStatements call path hash r
  only : OnlyAt call (first.foldl Database.apply db) node.nodeId path r
  object : call.ofObject x r
  own : OwnAll call node path x db first
  /-- An attempt that stops safely inside the first stage only misses an audit
  row that is no tombstone. -/
  early : ∀ count, 0 < count → count < first.length →
    StopsSafely call db (.upsert node path hash (some x)) count →
      ∃ row : AuditRow, row.tombstone? = none ∧ first.drop count = [.insertAudit row]

variable {call} {db : Database} {node : WatchedNode} {path : RemotePath} {hash : Option String}
  {x : String} {r : FileRow}

theorem stages_tracked (keyed : db.Keyed) (single : SingleAt call db node.nodeId path)
    (hfound : findRemoteRecord call db node.nodeId path = some r) :
    ∃ first r', Stages call db node path hash x first r' := by
  have honly := single.onlyAt hfound
  by_cases hobject : r.remoteFileId = some x
  · refine ⟨[], r, ?_, honly, ofObject_iff.mpr ⟨remoteName_of_atPath honly.atPath, hobject⟩,
      trivial, fun count _ hlt => absurd hlt (Nat.not_lt_zero count)⟩
    rw [upsert_statements_tracked hfound]
    simp [persistRemoteFileId, hobject, refreshStatements]
  · refine ⟨[.setRemoteFileId r.id x], { r with remoteFileId := some x }, ?_,
      honly.updateFile fun _ => rfl,
      ofObject_iff.mpr ⟨remoteName_of_atPath honly.atPath, rfl⟩, ⟨⟨rfl, fun r' hr' hid => ?_⟩, trivial⟩,
      fun count hpos hlt => ?_⟩
    · rw [upsert_statements_tracked hfound, persistRemoteFileId, if_neg hobject]
      rfl
    · obtain rfl := keyed.unique hr' honly.mem hid
      exact honly.atPath
    · simp only [List.length_singleton] at hlt
      omega

theorem mem_of_shadowOf {nodeId : String} {id s : ℕ} (h : shadowOf db nodeId path id = some s) :
    s ≠ id ∧ ∃ shadow ∈ db.files, shadow.id = s ∧ shadow.remotePath = some path := by
  obtain ⟨shadow, hfind, rfl⟩ := Option.map_eq_some_iff.mp h
  have hmatch := List.find?_some hfind
  simp only [Bool.and_eq_true, decide_eq_true_eq] at hmatch
  exact ⟨hmatch.2, shadow, List.mem_of_find?_eq_some hfind, rfl, hmatch.1.2⟩

theorem of_movedRecord (h : movedRecord call db path (some x) = some r) :
    r ∈ db.files ∧ call.ofObject x r := by
  have hfind : findRecordByRemoteFileId call db x = some r := (Option.filter_eq_some_iff.mp h).1
  exact ⟨List.mem_of_find?_eq_some hfind, List.find?_some hfind⟩

theorem stages_moved (keyed : db.Keyed) (hnone : findRemoteRecord call db node.nodeId path = none)
    (hmoved : movedRecord call db path (some x) = some r) :
    ∃ first r', Stages call db node path hash x first r' := by
  obtain ⟨hmem, hobject⟩ := of_movedRecord hmoved
  have hfree := findRemoteRecord_eq_none_iff.mp hnone
  let moved : FileRow :=
    { r with remoteName := some call.remoteName, remotePath := some path, nodeId := node.nodeId,
             filename := path.getLastD r.filename }
  have hkept : r ∈ (db.dropShadow (shadowOf db node.nodeId path r.id)).files := by
    cases hshadow : shadowOf db node.nodeId path r.id with
    | none => exact hmem
    | some s =>
      exact mem_deleteFile_iff.mpr ⟨hmem, Ne.symm (mem_of_shadowOf hshadow).1⟩
  have hback : ∀ r' ∈ (db.dropShadow (shadowOf db node.nodeId path r.id)).files,
      r' ∈ db.files := by
    intro r' hr'
    cases hshadow : shadowOf db node.nodeId path r.id with
    | none => rwa [hshadow] at hr'
    | some s =>
      rw [hshadow] at hr'
      exact (mem_deleteFile_iff.mp hr').1
  refine ⟨relocateWatchedRecord call db node.nodeId path r, moved, ?_, ⟨?_, ?_, ?_⟩, ?_, ?_, ?_⟩
  · rw [upsert_statements_moved hnone hmoved]
    rfl
  · exact mem_updateFile_iff.mpr ⟨r, hkept, if_pos rfl⟩
  · exact atPath_of_eq rfl rfl rfl
  · intro r' hr' hat
    obtain ⟨r₀, hr₀, rfl⟩ := mem_updateFile_iff.mp hr'
    by_cases hid : r₀.id = r.id
    · obtain rfl := keyed.unique (hback r₀ hr₀) hmem hid
      exact if_pos rfl
    · rw [if_neg hid, hfree r₀ (hback r₀ hr₀)] at hat
      cases hat
  · exact ofObject_iff.mpr ⟨rfl, (ofObject_iff.mp hobject).2⟩
  · refine ⟨⟨rfl, rfl, rfl, fun r' hr' hid => ?_, fun s hs r' hr' hid => ?_⟩, trivial, trivial⟩
    · obtain rfl := keyed.unique hr' hmem hid
      exact hobject
    · obtain ⟨-, shadow, hshadow, rfl, hpath⟩ := mem_of_shadowOf hs
      obtain rfl := keyed.unique hr' hshadow hid
      exact hpath
  · intro count hpos hlt hsafe
    -- the only place inside is the one between the move and its tombstone
    obtain rfl : count = 1 := by
      change count < 2 at hlt
      omega
    have htombstone := hsafe (relocationAudit call node.nodeId path r) (by
      rw [upsert_statements_moved hnone hmoved]
      rfl)
    simp [relocationAudit, AuditRow.tombstone?, AuditAction.reportsRemoval] at htombstone

theorem stages_adopted (hnone : findRemoteRecord call db node.nodeId path = none)
    (hmoved : movedRecord call db path (some x) = none) {ref : FileRef}
    (hstat : call.adapter.stat path = .ok (some ref))
    (haccepted : acceptedPath node.nodeRoot path = true) (hfree : db.taken node.nodeId path = false)
    (hid : ref.remoteFileId = none ∨ ref.remoteFileId = some x)
    (hhash : ref.isNativeFormat = true ∨ ref.hash = hash) :
    ∃ first r', Stages call db node path hash x first r' := by
  have hunseen := findRemoteRecord_eq_none_iff.mp hnone
  let row := adoptedRow call node.nodeId db.nextId path (adoptedRef ref (some x))
  have hobject : row.remoteFileId = some x := by
    rcases hid with hid | hid
    · simp [row, adoptedRow, adoptedRef, hid]
    · simp [row, adoptedRow, adoptedRef, hid]
  let audit := adoptAudit call ⟨row.id, path, row.filename, adoptedRef ref (some x)⟩
  refine ⟨[.insertFile row, .insertAudit audit], row, ?_, ⟨?_, ?_, ?_⟩, ?_, ?_, ?_⟩
  · rw [upsert_statements_new hnone hmoved, hstat]
    have hrefresh : refreshedHash call row path hash =
        backfilledHash call path (adoptedRef ref (some x)) := by
      rcases hhash with hnative | rfl
      · simp [refreshedHash, backfilledHash, needsHashRefresh, row, adoptedRow, adoptedRef, hnative]
      · cases hnative : ref.isNativeFormat with
        | true => simp [refreshedHash, backfilledHash, needsHashRefresh, row, adoptedRow, adoptedRef,
            hnative]
        | false =>
          cases hlisted : ref.hash with
          | none | some listed =>
            simp [refreshedHash, backfilledHash, needsHashRefresh, row, adoptedRow,
              adoptedRef, hnative, hlisted]
    simp only [haccepted, hfree, Bool.not_false, Bool.and_self, if_true, adoptStatements]
    change _ = _ :: _ :: refreshStatements call path hash row
    simp only [refreshStatements]
    rw [show row.remotePath.getD path = path from rfl, hrefresh]
  · exact List.mem_append_right _ (List.mem_singleton.mpr rfl)
  · exact atPath_of_eq rfl rfl rfl
  · intro r' hr' hat
    rcases List.mem_append.mp hr' with hr' | hr'
    · rw [hunseen r' hr'] at hat
      cases hat
    · exact List.mem_singleton.mp hr'
  · exact ofObject_iff.mpr ⟨rfl, hobject⟩
  · exact ⟨⟨rfl, rfl, rfl, hobject⟩, trivial, trivial⟩
  · intro count hpos hlt _
    obtain rfl : count = 1 := by
      change count < 2 at hlt
      omega
    exact ⟨audit, rfl, rfl⟩

theorem settled_or_stages (keyed : db.Keyed) (meets : UpsertMeetsOwn call db node path hash x) :
    UpsertSettled call db node path hash x ∨ ∃ first r, Stages call db node path hash x first r := by
  cases hfound : findRemoteRecord call db node.nodeId path with
  | some r => exact Or.inr (stages_tracked keyed meets.single hfound)
  | none =>
    cases hmoved : movedRecord call db path (some x) with
    | some r => exact Or.inr (stages_moved keyed hfound hmoved)
    | none =>
      have hunclaimed : Unclaimed call db x := by
        intro r hr
        cases hobject : call.ofObject x r with
        | false => rfl
        | true =>
          exfalso
          cases hfind : findRecordByRemoteFileId call db x with
          | none =>
            have hnot := List.find?_eq_none.mp hfind r hr
            exact hnot hobject
          | some r' =>
            have hobject' : call.ofObject x r' := List.find?_some hfind
            have hmem' := List.mem_of_find?_eq_some hfind
            have hpath : r'.remotePath = some path := by
              simpa [movedRecord, hfind, Option.filter] using hmoved
            have hat := atPath_of_eq (meets.ownNode r' hmem' hobject' hpath)
              (ofObject_iff.mp hobject').1 hpath
            rw [findRemoteRecord_eq_none_iff.mp hfound r' hmem'] at hat
            cases hat
      by_cases hadopts : ∃ ref, call.adapter.stat path = .ok (some ref) ∧
          acceptedPath node.nodeRoot path = true ∧ db.taken node.nodeId path = false
      · obtain ⟨ref, hstat, haccepted, hfree⟩ := hadopts
        obtain ⟨hid, hhash⟩ := meets.current hfound hmoved ref hstat
        exact Or.inr (stages_adopted hfound hmoved hstat haccepted hfree hid hhash)
      · refine Or.inl (.of_unclaimed hfound hunclaimed fun ref hstat => ?_)
        by_contra hcan
        simp only [not_or, Bool.not_eq_false, Bool.not_eq_true] at hcan
        exact hadopts ⟨ref, hstat, hcan⟩

variable {before : List PlannedChange}

theorem Stages.resumable {first : List Statement} (keyed : db.Keyed)
    (stages : Stages call db node path hash x first r)
    (apart : ∀ c ∈ before, Apart call c (.upsert node path hash (some x))) :
    (replaySystem call).Resumable before db (.upsert node path hash (some x)) := by
  have hrefresh := stages.only.own_refresh (keyed.foldl_apply first) stages.object hash
  have hsettled := stages.only.settled_after_refresh stages.object hash
  have hperform : (replaySystem call).perform db (.upsert node path hash (some x)) =
      (refreshStatements call path hash r).foldl Database.apply
        (first.foldl Database.apply db) := by
    change (changeEffect call db _).statements.foldl Database.apply db = _
    rw [stages.statements, List.foldl_append]
  refine ⟨?_, fun count hsafe => ?_, fun c hc h count _ => ?_⟩
  · rw [hperform]
    exact ⟨x, rfl, hsettled⟩
  · have hpart : (replaySystem call).performPart db (.upsert node path hash (some x)) count =
        ((first ++ refreshStatements call path hash r).take count).foldl Database.apply db := by
      change ((changeEffect call db _).statements.take count).foldl Database.apply db = _
      rw [stages.statements]
    rcases Nat.eq_zero_or_pos count with rfl | hpos
    · exact SameOutcome.refl _
    · rcases Nat.lt_trichotomy count first.length with hlt | rfl | hgt
      · -- inside the first stage only the audit row of an adoption is missing
        obtain ⟨row, hrow, hdrop⟩ := stages.early count hpos hlt hsafe
        have hsplit : first.foldl Database.apply db =
            ((first.take count).foldl Database.apply db).insertAudit row := by
          conv_lhs => rw [← List.take_append_drop count first, hdrop, List.foldl_append]
          rfl
        have honly : OnlyAt call ((first.take count).foldl Database.apply db) node.nodeId path r := by
          have h := stages.only
          rw [hsplit] at h
          exact ⟨h.mem, h.atPath, h.only⟩
        have hsame : ((first.take count).foldl Database.apply db).SameOutcome
            (first.foldl Database.apply db) := by
          rw [hsplit]
          exact ⟨rfl, by simp [tombstones, insertAudit, hrow], rfl⟩
        rw [hpart, hperform, List.take_append_of_le_length hlt.le]
        change SameOutcome ((changeEffect call _ _).statements.foldl Database.apply _) _
        rw [honly.statements stages.object]
        exact hsame.foldl_apply _
      · rw [hpart, hperform, List.take_left]
        change SameOutcome ((changeEffect call _ _).statements.foldl Database.apply _) _
        rw [stages.only.statements stages.object]
        exact SameOutcome.refl _
      · have hall : (first ++ refreshStatements call path hash r).take count =
            first ++ refreshStatements call path hash r := by
          refine List.take_of_length_le ?_
          have hlength := refreshStatements_length call path hash r
          rw [List.length_append]
          omega
        rw [hpart, hall, List.foldl_append, ← hperform]
        rw [System.perform_of_settled (S := replaySystem call) (o := .upsert node path hash (some x))]
        · exact SameOutcome.refl _
        · rw [hperform]
          exact ⟨x, rfl, hsettled⟩
  · change Settled call (((changeEffect call db _).statements.take count).foldl Database.apply db) c
    rw [stages.statements]
    exact h.foldl_own (apart c hc) ((stages.own.append hrefresh).take count)

theorem UpsertSettled.resumable (h : UpsertSettled call db node path hash x) :
    (replaySystem call).Resumable before db (.upsert node path hash (some x)) := by
  have hpart : ∀ count, (replaySystem call).performPart db (.upsert node path hash (some x)) count =
      db := by
    intro count
    change ((changeEffect call db _).statements.take count).foldl Database.apply db = db
    rw [h.silent]
    simp
  have hperform : (replaySystem call).perform db (.upsert node path hash (some x)) = db :=
    System.perform_of_settled (S := replaySystem call) ⟨x, rfl, h⟩
  refine ⟨?_, fun count _ => ?_, fun c _ hc count _ => ?_⟩
  · rw [hperform]
    exact ⟨x, rfl, h⟩
  · rw [hpart]
    exact SameOutcome.refl _
  · rw [hpart]
    exact hc

variable {c : PlannedChange}

theorem removal_resumable (keyed : db.Keyed) (hc : ∀ n p h x, c ≠ .upsert n p h x)
    (hone : ∀ r ∈ db.files, ∀ r' ∈ db.files, c.about call r → c.about call r' → r = r')
    (apart : ∀ c' ∈ before, Apart call c' c) : (replaySystem call).Resumable before db c := by
  have hsettled : ∀ db' : Database, Settled call db' c ↔
      ∀ r ∈ db'.files, c.about call r → removable call r = false := by
    intro db'
    cases c with
    | upsert n p h x => exact absurd rfl (hc n p h x)
    | remove n p x => exact Iff.rfl
    | removeById x => exact Iff.rfl
  have hperform : (replaySystem call).perform db c =
      (changeEffect call db c).statements.foldl Database.apply db := rfl
  have hpart : ∀ count, (replaySystem call).performPart db c count =
      ((changeEffect call db c).statements.take count).foldl Database.apply db := fun _ => rfl
  rcases removal_statements call db hc with
    hnone | ⟨r, nodeId, htarget, -, hstatements⟩
  · have hdone : Settled call db c := by
      rw [hsettled]
      intro r hr habout
      cases htarget : removalTarget call db c with
      | none =>
        rw [about_eq_false_of_removalTarget_eq_none hc htarget hr] at habout
        cases habout
      | some r' =>
        obtain ⟨hr', habout'⟩ := about_of_removalTarget htarget
        obtain rfl := hone r hr r' hr' habout habout'
        exact not_removable_of_silent hc htarget hnone
    refine ⟨?_, fun count _ => ?_, fun c' _ h count _ => ?_⟩
    · rw [hperform, hnone]
      exact hdone
    · rw [hpart, hnone, List.take_nil]
      exact SameOutcome.refl _
    · rw [hpart, hnone, List.take_nil]
      exact h
  · obtain ⟨hr, habout⟩ := about_of_removalTarget htarget
    have hdone : Settled call (db.deleteFile r.id) c := by
      rw [hsettled]
      intro r' hr' habout'
      obtain ⟨hr', hne⟩ := mem_deleteFile_iff.mp hr'
      exact absurd (congrArg (·.id) (hone r' hr' r hr habout' habout)) hne
    have hdone' : Settled call ((db.deleteFile r.id).insertAudit (removalAudit call nodeId r)) c := by
      rw [hsettled] at hdone ⊢
      exact hdone
    -- a safe part of the two statements is none of them or both
    have hcount : ∀ count, StopsSafely call db c count →
        (replaySystem call).performPart db c count = db ∨
          (replaySystem call).performPart db c count =
            (db.deleteFile r.id).insertAudit (removalAudit call nodeId r) := by
      intro count hsafe
      rw [hpart, hstatements]
      rcases count with _ | _ | count
      · exact Or.inl rfl
      · have htombstone := hsafe (removalAudit call nodeId r) (by rw [hstatements]; rfl)
        simp [removalAudit, AuditRow.tombstone?, AuditAction.reportsRemoval] at htombstone
      · exact Or.inr (by simp [Database.apply])
    have hfull : (replaySystem call).perform db c =
        (db.deleteFile r.id).insertAudit (removalAudit call nodeId r) := by
      rw [hperform, hstatements]
      rfl
    refine ⟨?_, fun count hsafe => ?_, fun c' hc' h count hsafe => ?_⟩
    · rw [hfull]
      exact hdone'
    · rcases hcount count hsafe with hstate | hstate
      · rw [hstate]
        exact SameOutcome.refl _
      · rw [hstate, hfull, System.perform_of_settled (S := replaySystem call) hdone']
        exact SameOutcome.refl _
    · rcases hcount count hsafe with hstate | hstate
      · rw [hstate]
        exact h
      · rw [hstate]
        exact (h.deleteFile keyed (apart c' hc') hc hr habout hone).insertAudit

theorem resumable (keyed : db.Keyed) (meets : MeetsOwn call db c)
    (apart : ∀ c' ∈ before, Apart call c' c) : (replaySystem call).Resumable before db c := by
  cases c with
  | remove n p x | removeById x => exact removal_resumable keyed (by simp) meets apart
  | upsert n p h x =>
    obtain ⟨x, rfl, hmeets⟩ := meets
    rcases settled_or_stages keyed hmeets with hsettled | ⟨first, r, stages⟩
    · exact hsettled.resumable
    · exact stages.resumable keyed apart

end

open Content Files Files.Database RemoteSweep

universe u

variable {Bytes : Type u} (call : Call Bytes)

/-- The same `files` table and the same set of tombstones. -/
def SameTables (db db' : Database) : Prop :=
  db.files = db'.files ∧ ∀ t, t ∈ db.tombstones ↔ t ∈ db'.tombstones

/-- An attempt at a plan that applies the changes `before` and `count`
statements of the next one, `c`, and stops there. -/
def attempt (db : Database) (before : List PlannedChange) (c : PlannedChange) (count : ℕ) :
    Database :=
  let reached := before.foldl (applyChange call) db
  ((changeEffect call reached c).statements.take count).foldl Database.apply reached

/-- Applying the whole plan after the attempt comes to the same as applying it once. -/
def ReplayHarmless (db : Database) (plan before : List PlannedChange) (c : PlannedChange)
    (count : ℕ) : Prop :=
  SameTables ((applyRemoteChanges call (attempt call db before c count) plan).1)
    ((applyRemoteChanges call db plan).1)

variable {call} {db : Database} {plan before rest : List PlannedChange} {c : PlannedChange}
  {count : ℕ}

theorem applyRemoteChanges_fst :
    (applyRemoteChanges call db plan).1 = plan.foldl (applyChange call) db := by
  induction plan generalizing db with
  | nil => rfl
  | cons c rest ih => exact ih

theorem keyed_foldl_applyChange (keyed : db.Keyed) :
    (before.foldl (applyChange call) db).Keyed := by
  induction before generalizing db with
  | nil => exact keyed
  | cons c rest ih => exact ih (keyed.foldl_apply _)

def renamedRemote : FileAdapter Bool where
  stat path :=
    .ok (if path = ["org", "wip", "new.md"] then
      some ⟨some (sampleHashing.md5Buffer true), false, some "A"⟩ else none)
  get _ := .error "not found"

def sampleCall : Call Bool where
  hashing := sampleHashing
  nfc := id
  nfc_nfc _ := rfl
  adapter := renamedRemote
  userId := "user"
  remoteName := "drive"
  now := 0

def trackedRow (id : ℕ) (filename object : String) : FileRow where
  id := id
  nodeId := "node"
  filename := filename
  remoteName := some "drive"
  remotePath := some ["org", "wip", filename]
  remoteFileId := some object
  currentRemoteHash := some (sampleHashing.md5Buffer true)
  isNativeFormat := false

def twoRecords : Database where
  files := [trackedRow 0 "old.md" "A", trackedRow 1 "other.md" "B"]
  auditLog := []
  pendingOps := []
  nextId := 2

def renameOfA : PlannedChange :=
  .upsert ⟨"node", ["org"]⟩ ["org", "wip", "new.md"] (some (sampleHashing.md5Buffer true)) (some "A")

theorem twoRecords_keyed : twoRecords.Keyed :=
  ⟨by decide, by decide⟩

theorem renameOfA_replaySafe : ReplaySafe sampleCall twoRecords [renameOfA, .removeById "B"] where
  apart := by
    refine List.pairwise_pair.mpr ⟨fun p p' _ hp' => (by cases hp'), fun x hx hx' => ?_⟩
    cases hx
    exact absurd (Option.some.inj hx') (by decide)
  meets := by
    intro before c rest hplan
    rcases before with _ | ⟨first, _ | ⟨second, before⟩⟩
    · obtain ⟨rfl, -⟩ := List.cons_eq_cons.mp hplan
      refine ⟨"A", rfl, ⟨?_, ?_, ?_⟩⟩
      · unfold SingleAt
        decide
      · decide
      · intro _ _ ref href
        cases href
        exact ⟨Or.inr rfl, Or.inr rfl⟩
    · obtain ⟨hfirst, hplan⟩ := List.cons_eq_cons.mp hplan
      obtain ⟨rfl, -⟩ := List.cons_eq_cons.mp hplan
      subst hfirst
      change ∀ r ∈ _, ∀ r' ∈ _, _ → _ → _
      decide
    · simp at hplan

end Portuni.RemoteWatch
