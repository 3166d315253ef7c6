import Portuni.FileOps.Grows
import Portuni.RemoteSweep.Sweep

/-!
The sweep proper removes only what it has confirmed, and accounts for every
object it lists. Paths that differ only in their Unicode spelling count as one.
-/

namespace Portuni.RemoteSweep

open FileOps Files Files.Database

universe u

variable {Bytes : Type u} {call : Call Bytes} {db : Database} {nodeId : String}
  {nodeRoot path nfcPath : RemotePath} {listing : List ListedObject} {f : ListedObject}

theorem nodup_eraseDups {α : Type} [BEq α] [LawfulBEq α] (xs : List α) : xs.eraseDups.Nodup := by
  induction h : xs.length using Nat.strong_induction_on generalizing xs with
  | _ n ih =>
    cases xs with
    | nil => simp
    | cons x rest =>
      have hlength : (rest.filter fun y => !y == x).length < n := by
        have hle := List.length_filter_le (fun y => !y == x) rest
        simp only [List.length_cons] at h
        omega
      rw [List.eraseDups_cons]
      refine List.nodup_cons.mpr ⟨?_, ih _ hlength _ rfl⟩
      rw [List.mem_eraseDups]
      simp

theorem presentAt_nfc (h : presentAt call listing nfcPath = some f) : call.nfc f.1 = nfcPath := by
  simpa using List.find?_some h

theorem mem_of_presentAt (h : presentAt call listing nfcPath = some f) : f ∈ listing :=
  List.mem_reverse.mp (List.mem_of_find?_eq_some h)

theorem exists_presentAt (hf : f ∈ listing) :
    ∃ g, presentAt call listing (call.nfc f.1) = some g := by
  refine Option.isSome_iff_exists.mp (List.find?_isSome.mpr ⟨f, List.mem_reverse.mpr hf, ?_⟩)
  simp

theorem present_keys :
    (present call listing).map (call.nfc ·.1) = (listing.map (call.nfc ·.1)).eraseDups := by
  rw [present, List.map_filterMap]
  conv_rhs => rw [← List.filterMap_some (l := (listing.map (call.nfc ·.1)).eraseDups)]
  refine List.filterMap_congr fun key hkey => ?_
  obtain ⟨f, hf, rfl⟩ := List.mem_map.mp (List.mem_eraseDups.mp hkey)
  obtain ⟨g, hg⟩ : ∃ g, presentAt call listing (call.nfc f.1) = some g := exists_presentAt hf
  rw [hg, Option.map_some, presentAt_nfc hg]

theorem mem_present (h : presentAt call listing nfcPath = some f) : f ∈ present call listing := by
  refine List.mem_filterMap.mpr ⟨nfcPath, List.mem_eraseDups.mpr ?_, h⟩
  exact List.mem_map.mpr ⟨f, mem_of_presentAt h, presentAt_nfc h⟩

/-- The sweep saw the root, a stat of the record's own path answered that there is
nothing, and the record once had an object on the remote. -/
structure ConfirmedGone (target : SweepTarget Bytes) (nodeId : String) (r : FileRow) : Prop where
  root : ∃ ref, target.call.adapter.stat target.nodeRoot = .ok (some ref)
  absent : ∃ path, r.remotePath = some path ∧ target.call.adapter.stat path = .ok none
  hadObject : r.hadObject
  ofNode : r.nodeId = nodeId ∧ r.remoteName = some target.call.remoteName

/-- What became of a listed object: one record of the remote is at its path (as many as
before, where there were several), or a record of the node that is not bound to the
remote is, or the sweep reports it. -/
def Accounted (target : SweepTarget Bytes) (nodeId : String) (before after : Database)
    (errors : List StepError) (nfcPath : RemotePath) : Prop :=
  after.files.countP (knownUnder target.call target.nodeRoot nfcPath) =
      max 1 (before.files.countP (knownUnder target.call target.nodeRoot nfcPath)) ∨
    (∃ r ∈ after.files, r.nodeId = nodeId ∧ r.remoteName ≠ some target.call.remoteName ∧
      r.remotePath.map target.call.nfc = some nfcPath) ∨
    ∃ e ∈ errors, e.1.map target.call.nfc = some nfcPath

/-- The database once the sweep has removed records and refreshed hashes. -/
def reconciled (call : Call Bytes) (nodeId : String) (listing : List ListedObject)
    (db : Database) : Database :=
  let records := sweptRecords call db nodeId
  ((deleteRemovedRecords call nodeId (missingCandidates call listing records)).statements ++
    persistListedIds call listing records ++
    (refreshRemoteHashes call (hashCandidates call listing records)).statements).foldl
      Database.apply db

def removedRecords (call : Call Bytes) (nodeId : String) (listing : List ListedObject)
    (db : Database) : List FileRow :=
  confirmed call (missingCandidates call listing (sweptRecords call db nodeId))

theorem map_reconciled {β : Type} (g : FileRow → β)
    (hid : ∀ r value, g { r with remoteFileId := value } = g r)
    (hhash : ∀ r value, g { r with currentRemoteHash := value } = g r) :
    (reconciled call nodeId listing db).files.map g =
      (removing call nodeId db (removedRecords call nodeId listing db)
        (removedRecords call nodeId listing db)).files.map g := by
  unfold reconciled
  simp only
  rw [List.foldl_append, List.foldl_append,
    map_foldl_of_refreshes g hid hhash (fun st hst => refreshes_refreshRemoteHashes hst),
    map_foldl_of_refreshes g hid hhash (fun st hst => refreshes_persistListedIds hst),
    deleteRemovedRecords_statements, removalStatements_all]
  rfl

theorem mem_removedRecords {r : FileRow} (h : r ∈ removedRecords call nodeId listing db) :
    r ∈ db.files ∧ (r.nodeId = nodeId ∧ r.remoteName = some call.remoteName) ∧ r.hadObject ∧
      listedFor call listing r = none ∧
      ∃ path, r.remotePath = some path ∧ call.adapter.stat path = .ok none := by
  obtain ⟨hmissing, habsent⟩ := mem_confirmed_iff.mp h
  obtain ⟨hswept, hcond⟩ := List.mem_filter.mp hmissing
  obtain ⟨hr, hnode⟩ := List.mem_filter.mp hswept
  simp only [Bool.and_eq_true, decide_eq_true_eq, Option.isNone_iff_eq_none] at hcond hnode
  exact ⟨hr, hnode.1, hcond.1, hcond.2, habsent⟩

variable {list : RemotePath → Except String (List ListedObject)}

theorem sweepNode_files (hlist : listSections list nodeRoot sectionNames = .ok listing)
    (hroot : rootSeen call nodeRoot ∨
      missingCandidates call listing (sweptRecords call db nodeId) = []) :
    (sweepNode call list nodeId nodeRoot db).1 =
      (adoptRemoteFiles call nodeId nodeRoot (reconciled call nodeId listing db)
        (newRefs call (reconciled call nodeId listing db) nodeRoot listing)).statements.foldl
          Database.apply (reconciled call nodeId listing db) := by
  unfold sweepNode
  rw [hlist]
  simp only
  rw [if_neg ?_]
  · rfl
  · rcases hroot with h | h
    · simp [h]
    · simp [h]

theorem sweepNode_deletes (keyed : db.Keyed) {r : FileRow} (hr : r ∈ db.files)
    (hgone : ∀ r' ∈ (sweepNode call list nodeId nodeRoot db).1.files, r'.id ≠ r.id) :
    ConfirmedGone ⟨call, nodeRoot⟩ nodeId r := by
  cases hlist : listSections list nodeRoot sectionNames with
  | error failure =>
    refine absurd rfl (hgone r ?_)
    simpa [sweepNode, hlist] using hr
  | ok listing =>
    by_cases hgiven : (!(missingCandidates call listing (sweptRecords call db nodeId)).isEmpty &&
        !rootSeen call nodeRoot) = true
    · refine absurd rfl (hgone r ?_)
      simpa [sweepNode, hlist, hgiven] using hr
    · have hroot : rootSeen call nodeRoot ∨
          missingCandidates call listing (sweptRecords call db nodeId) = [] := by
        simp only [Bool.and_eq_true, Bool.not_eq_true', not_and, Bool.not_eq_false] at hgiven
        by_cases hmissing : missingCandidates call listing (sweptRecords call db nodeId) = []
        · exact Or.inr hmissing
        · exact Or.inl (hgiven (by simpa using hmissing))
      have hremoved : r ∈ removedRecords call nodeId listing db := by
        by_contra hkept
        have hid : r.id ∈ (reconciled call nodeId listing db).files.map (·.id) := by
          rw [map_reconciled (·.id) (fun _ _ => rfl) (fun _ _ => rfl)]
          refine List.mem_map_of_mem (mem_removing_iff.mpr ⟨hr, fun c hc hsame => hkept ?_⟩)
          exact keyed.unique (mem_removedRecords hc).1 hr hsame ▸ hc
        have hstill : r.id ∈ (sweepNode call list nodeId nodeRoot db).1.files.map (·.id) := by
          rw [sweepNode_files hlist hroot]
          exact ids_adoptRemoteFiles hid
        obtain ⟨r', hr', hsame⟩ := List.mem_map.mp hstill
        exact hgone r' hr' hsame
      obtain ⟨-, hnode, hobject, -, habsent⟩ := mem_removedRecords hremoved
      have hseen : rootSeen call nodeRoot := by
        rcases hroot with h | h
        · exact h
        · have hmissing := (mem_confirmed_iff.mp hremoved).1
          rw [h] at hmissing
          cases hmissing
      refine ⟨?_, habsent, hobject, hnode⟩
      unfold rootSeen at hseen
      split at hseen
      · exact ⟨_, by assumption⟩
      · cases hseen

theorem below_of_adoptable (h : (adoptableSection nodeRoot path).isSome) :
    (below nodeRoot path).isSome := by
  unfold adoptableSection at h
  cases hbelow : below nodeRoot path with
  | none => simp [hbelow] at h
  | some rel => rfl

theorem countP_reconciled (keyed : db.Keyed) (h : presentAt call listing nfcPath = some f) :
    (reconciled call nodeId listing db).files.countP (knownUnder call nodeRoot nfcPath) =
      db.files.countP (knownUnder call nodeRoot nfcPath) := by
  rw [countP_knownUnder, map_reconciled bindingOf (fun _ _ => rfl) (fun _ _ => rfl),
    ← countP_knownUnder]
  change (db.files.filter _).countP _ = _
  rw [List.countP_filter]
  refine List.countP_congr fun r hr => ?_
  simp only [Bool.and_eq_true, decide_eq_true_eq, and_iff_left_iff_imp]
  intro hknown hremoved
  obtain ⟨c, hc, hsame⟩ := List.mem_map.mp hremoved
  obtain rfl := keyed.unique (mem_removedRecords hc).1 hr hsame
  have hunlisted := (mem_removedRecords hc).2.2.2.1
  simp only [knownUnder, Bool.and_eq_true, decide_eq_true_eq, Option.any_eq_true] at hknown
  obtain ⟨-, path, hpath, -, rfl⟩ := hknown
  rw [listedFor, hpath, Option.bind_some, h] at hunlisted
  cases hunlisted

theorem nodup_newRefs : ((newRefs call db nodeRoot listing).map (call.nfc ·.1)).Nodup := by
  refine List.Nodup.sublist (List.filter_sublist.map _) ?_
  rw [present_keys]
  exact nodup_eraseDups (listing.map (call.nfc ·.1))

theorem nodup_adoptionPaths : (((newRefs call db nodeRoot listing).filter fun c =>
    (adoptableSection nodeRoot c.1).isSome).map (·.1)).Nodup := by
  have h : (((newRefs call db nodeRoot listing).map (·.1)).map call.nfc).Nodup := by
    rw [List.map_map]
    exact nodup_newRefs
  exact (List.Nodup.of_map _ h).sublist (List.filter_sublist.map _)

theorem countP_adoptRemoteFiles {refs : List ListedObject}
    (hnodup : ((refs.filter fun c => (adoptableSection nodeRoot c.1).isSome).map (·.1)).Nodup) :
    ((adoptRemoteFiles call nodeId nodeRoot db refs).statements.foldl Database.apply
        db).files.countP (knownUnder call nodeRoot nfcPath) =
      db.files.countP (knownUnder call nodeRoot nfcPath) +
        (((refs.filter fun c => (adoptableSection nodeRoot c.1).isSome).map (·.1)).filter fun p =>
          (refusedPath nodeRoot p).isNone && !db.taken nodeId p).countP fun p =>
            (below nodeRoot p).isSome && call.nfc p = nfcPath := by
  rw [countP_knownUnder, bindings_adoptRemoteFiles, List.countP_append, ← countP_knownUnder,
    ← adoptFiles_paths hnodup, List.countP_map, List.countP_map]
  congr 1
  refine List.countP_congr fun a _ => ?_
  simp

theorem presentAt_of_mem_present (hf : f ∈ present call listing) :
    presentAt call listing (call.nfc f.1) = some f := by
  obtain ⟨key, -, h⟩ := List.mem_filterMap.mp hf
  rw [presentAt_nfc h]
  exact h

variable {paths : List RemotePath}

theorem countP_newPaths_of_known
    (hpaths : ∀ p ∈ paths, ∃ g ∈ newRefs call db nodeRoot listing, g.1 = p)
    (hknown : db.files.any (knownUnder call nodeRoot nfcPath)) :
    (paths.countP fun p => (below nodeRoot p).isSome && call.nfc p = nfcPath) = 0 := by
  refine List.countP_eq_zero.mpr fun p hp hkey => ?_
  obtain ⟨g, hg, rfl⟩ := hpaths p hp
  simp only [Bool.and_eq_true, decide_eq_true_eq] at hkey
  have hnew := (List.mem_filter.mp hg).2
  rw [hkey.2, hknown] at hnew
  cases hnew

theorem countP_newPaths_of_unknown (hnodup : paths.Nodup)
    (hpaths : ∀ p ∈ paths, ∃ g ∈ newRefs call db nodeRoot listing, g.1 = p)
    (hf : presentAt call listing nfcPath = some f) (hbelow : (below nodeRoot f.1).isSome)
    (hmem : f.1 ∈ paths) :
    (paths.countP fun p => (below nodeRoot p).isSome && call.nfc p = nfcPath) = 1 := by
  rw [← List.count_eq_one_of_mem hnodup hmem, List.count]
  refine List.countP_congr fun p hp => ?_
  simp only [Bool.and_eq_true, decide_eq_true_eq, beq_iff_eq]
  constructor
  · rintro ⟨-, hkey⟩
    obtain ⟨g, hg, rfl⟩ := hpaths p hp
    have hpresent := presentAt_of_mem_present (List.mem_filter.mp hg).1
    rw [hkey, hf] at hpresent
    rw [Option.some.inj hpresent]
  · rintro rfl
    exact ⟨hbelow, presentAt_nfc hf⟩

theorem sweepNode_errors (hlist : listSections list nodeRoot sectionNames = .ok listing)
    (hroot : rootSeen call nodeRoot ∨
      missingCandidates call listing (sweptRecords call db nodeId) = []) {e : StepError}
    (he : e ∈ (adoptRemoteFiles call nodeId nodeRoot (reconciled call nodeId listing db)
      (newRefs call (reconciled call nodeId listing db) nodeRoot listing)).errors) :
    e ∈ (sweepNode call list nodeId nodeRoot db).2.errors := by
  unfold sweepNode
  rw [hlist]
  simp only
  rw [if_neg ?_]
  · exact List.mem_append_right _ he
  · rcases hroot with h | h
    · simp [h]
    · simp [h]

theorem sweepNode_accounts (keyed : db.Keyed)
    (hlist : listSections list nodeRoot sectionNames = .ok listing)
    (hroot : rootSeen call nodeRoot ∨
      missingCandidates call listing (sweptRecords call db nodeId) = [])
    (hf : presentAt call listing nfcPath = some f)
    (hadoptable : (adoptableSection nodeRoot f.1).isSome) :
    Accounted ⟨call, nodeRoot⟩ nodeId db (sweepNode call list nodeId nodeRoot db).1
      (sweepNode call list nodeId nodeRoot db).2.errors nfcPath := by
  have hsum := @countP_adoptRemoteFiles Bytes call (reconciled call nodeId listing db) nodeId nodeRoot
    nfcPath (newRefs call (reconciled call nodeId listing db) nodeRoot listing) nodup_adoptionPaths
  rw [← sweepNode_files hlist hroot, countP_reconciled keyed hf] at hsum
  have hpaths : ∀ p ∈ ((((newRefs call (reconciled call nodeId listing db) nodeRoot
      listing).filter fun c => (adoptableSection nodeRoot c.1).isSome).map (·.1)).filter fun p =>
        (refusedPath nodeRoot p).isNone && !(reconciled call nodeId listing db).taken nodeId p),
      ∃ g ∈ newRefs call (reconciled call nodeId listing db) nodeRoot listing, g.1 = p := by
    intro p hp
    obtain ⟨g, hg, rfl⟩ := List.mem_map.mp (List.mem_filter.mp hp).1
    exact ⟨g, (List.mem_filter.mp hg).1, rfl⟩
  cases hknown : (reconciled call nodeId listing db).files.any
      (knownUnder call nodeRoot nfcPath) with
  | true =>
    rw [countP_newPaths_of_known hpaths hknown, Nat.add_zero] at hsum
    have hpos : 0 < db.files.countP (knownUnder call nodeRoot nfcPath) := by
      rw [← countP_reconciled keyed hf]
      exact List.countP_pos_iff.mpr (List.any_eq_true.mp hknown)
    refine Or.inl ?_
    simp only
    omega
  | false =>
    have hzero : db.files.countP (knownUnder call nodeRoot nfcPath) = 0 := by
      rw [← countP_reconciled keyed hf]
      refine List.countP_eq_zero.mpr fun r hr hk => ?_
      rw [List.any_eq_false] at hknown
      exact hknown r hr hk
    have hnew : f ∈ newRefs call (reconciled call nodeId listing db) nodeRoot listing := by
      refine List.mem_filter.mpr ⟨mem_present hf, ?_⟩
      rw [presentAt_nfc hf, hknown]
      rfl
    have hcandidate : f ∈ (newRefs call (reconciled call nodeId listing db) nodeRoot
        listing).filter fun c => (adoptableSection nodeRoot c.1).isSome :=
      List.mem_filter.mpr ⟨hnew, hadoptable⟩
    cases hrefused : refusedPath nodeRoot f.1 with
    | some reason =>
      refine Or.inr (Or.inr ⟨(some f.1, reason), sweepNode_errors hlist hroot ?_, ?_⟩)
      · exact List.mem_append_right _ (mem_adoptFiles_errors hcandidate hrefused)
      · exact congrArg some (presentAt_nfc hf)
    | none =>
      cases htaken : (reconciled call nodeId listing db).taken nodeId f.1 with
      | true =>
        obtain ⟨r, hr, hplace⟩ := List.any_eq_true.mp htaken
        simp only [Bool.and_eq_true, decide_eq_true_eq] at hplace
        have hbinding : bindingOf r ∈
            (sweepNode call list nodeId nodeRoot db).1.files.map bindingOf := by
          rw [sweepNode_files hlist hroot, bindings_adoptRemoteFiles]
          exact List.mem_append_left _ (List.mem_map_of_mem hr)
        obtain ⟨r', hr', hsame⟩ := List.mem_map.mp hbinding
        simp only [bindingOf, Prod.mk.injEq] at hsame
        refine Or.inr (Or.inl ⟨r', hr', hsame.1.trans hplace.1, fun hremote => ?_, ?_⟩)
        · rw [List.any_eq_false] at hknown
          refine hknown r hr ?_
          simp [knownUnder, ← hsame.2.1, hremote, hplace.2, below_of_adoptable hadoptable,
            presentAt_nfc hf]
        · rw [hsame.2.2, hplace.2, Option.map_some, presentAt_nfc hf]
      | false =>
        refine Or.inl ?_
        rw [countP_newPaths_of_unknown ((nodup_adoptionPaths).filter _) hpaths hf
          (below_of_adoptable hadoptable)] at hsum
        · simp only
          omega
        · refine List.mem_filter.mpr ⟨List.mem_map_of_mem hcandidate, ?_⟩
          simp [hrefused, htaken]

end Portuni.RemoteSweep
