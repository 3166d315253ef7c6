import Portuni.RemoteWatch.Batch

namespace Portuni.RemoteWatch

/-! One change of an undisturbed plan replaces the record of its own object. -/

section

open Files Files.Database RemoteSweep

universe u

variable {Bytes : Type u} {call : Call Bytes} {db db' : Database} {remote : List RemoteObject}
  {node : WatchedNode} {path : RemotePath} {hash : Option String} {x : String} {r : FileRow}

def withHash (call : Call Bytes) (path : RemotePath) (hash : Option String) (r : FileRow) : FileRow :=
  { r with currentRemoteHash := (refreshedHash call r path hash).or r.currentRemoteHash }

theorem replaced_refresh (keyed : db.Keyed) (hr : r ∈ db.files) (hx : call.ofObject x r)
    (unique : ∀ r' ∈ db.files, call.ofObject x r' → r' = r) :
    Replaced call db
      ((((refreshedHash call r path hash).map (Statement.setRemoteHash r.id)).toList).foldl
        Database.apply db) x (some (withHash call path hash r)) := by
  cases hrefreshed : refreshedHash call r path hash with
  | none =>
    have hsame : withHash call path hash r = r := by simp [withHash, hrefreshed]
    rw [hsame]
    exact replaced_self hr hx unique
  | some resolved =>
    have hsame : withHash call path hash r = { r with currentRemoteHash := some resolved } := by
      simp [withHash, hrefreshed]
    rw [hsame]
    change Replaced call db (db.updateFile r.id fun r => { r with currentRemoteHash := some resolved })
      x _
    exact replaced_updateFile keyed hr hx unique hx

/-- A record describes the object: it is native if the object is, and then has no hash. -/
def Describes (obj : RemoteObject) (r : FileRow) : Prop :=
  r.isNativeFormat = obj.hash.isNone ∧ (obj.hash = none → r.currentRemoteHash = none)

variable {obj : RemoteObject}

theorem describes_withHash (h : Describes obj r) : Describes obj (withHash call path hash r) := by
  refine ⟨h.1, fun hnone => ?_⟩
  have hnative : r.isNativeFormat = true := by rw [h.1, hnone]; rfl
  simp [withHash, refreshedHash, needsHashRefresh, hnative, h.2 hnone]

theorem withHash_currentRemoteHash (h : Describes obj r) :
    (withHash call path obj.hash r).currentRemoteHash = obj.hash := by
  cases hhash : obj.hash with
  | none =>
    have hnative : r.isNativeFormat = true := by rw [h.1, hhash]; rfl
    simp [withHash, refreshedHash, needsHashRefresh, hnative, h.2 hhash]
  | some listed =>
    have hnative : r.isNativeFormat = false := by rw [h.1, hhash]; rfl
    by_cases hcurrent : r.currentRemoteHash = some listed
    · simp [withHash, refreshedHash, needsHashRefresh, hnative, hcurrent]
    · have hneeds : needsHashRefresh r (some listed) = true := by
        simp [needsHashRefresh, hnative, Ne.symm hcurrent]
      simp [withHash, refreshedHash, hneeds, resolveHash, Except.toOption]

/-- What an undisturbed upsert of `x` at `path` comes to: the record `o`, if any. -/
structure Brings (call : Call Bytes) (remote : List RemoteObject) (db db' : Database)
    (path : RemotePath) (hash : Option String) (x : String) (o : Option FileRow) : Prop where
  replaced : Replaced call db db' x o
  atPath : ∀ r, o = some r → r.remotePath = some path
  keepsId : ∀ r₀ ∈ db.files, call.ofObject x r₀ → ∃ r, o = some r ∧ r.id = r₀.id
  adopts : (∃ obj ∈ remote, obj.path = path) → o ≠ none
  adoptsOnly : Unclaimed call db x → (∀ obj ∈ remote, obj.path ≠ path) → o = none
  describes : ∀ obj ∈ remote, obj.id = x → ∀ r, o = some r → Describes obj r
  current : ∀ obj ∈ remote, obj.id = x → obj.hash = hash →
    ∀ r, o = some r → r.currentRemoteHash = obj.hash

theorem Brings.of_record (hr : r ∈ db.files) (hx : call.ofObject x r)
    (unique : ∀ r' ∈ db.files, call.ofObject x r' → r' = r)
    (describes : ∀ obj ∈ remote, obj.id = x → Describes obj r) {moved : FileRow}
    (hid : moved.id = r.id) (hpath : moved.remotePath = some path)
    (hnative : moved.isNativeFormat = r.isNativeFormat)
    (hcurrent : moved.currentRemoteHash = r.currentRemoteHash)
    (hreplaced : Replaced call db db' x (some (withHash call path hash moved))) :
    Brings call remote db db' path hash x (some (withHash call path hash moved)) where
  replaced := hreplaced
  atPath r' ho := by
    cases ho
    exact hpath
  keepsId r₀ hr₀ hx₀ := ⟨_, rfl, by rw [unique r₀ hr₀ hx₀]; exact hid⟩
  adopts _ hnone := by cases hnone
  adoptsOnly hunclaimed _ := by
    rw [hunclaimed r hr] at hx
    cases hx
  describes obj hobj hx' r' ho := by
    cases ho
    refine describes_withHash ?_
    rw [Describes, hnative, hcurrent]
    exact describes obj hobj hx'
  current obj hobj hx' hhash r' ho := by
    cases ho
    subst hhash
    refine withHash_currentRemoteHash ?_
    rw [Describes, hnative, hcurrent]
    exact describes obj hobj hx'

theorem objectAt_of_mem (shows : Shows call remote) (hobj : obj ∈ remote) :
    objectAt remote obj.path = some obj := by
  cases hfind : objectAt remote obj.path with
  | none =>
    have hmiss := List.find?_eq_none.mp hfind obj hobj
    simp at hmiss
  | some other =>
    have hpath : other.path = obj.path := by simpa using List.find?_some hfind
    rw [List.inj_on_of_nodup_map shows.paths (List.mem_of_find?_eq_some hfind) hobj hpath]

theorem of_objectAt (h : objectAt remote path = some obj) : obj ∈ remote ∧ obj.path = path :=
  ⟨List.mem_of_find?_eq_some h, by simpa using List.find?_some h⟩

theorem refusedPath_eq_none {ref : FileRef} {nodeId : String} {nodeRoot : RemotePath}
    (hsection : (adoptableSection nodeRoot path).isSome)
    (h : (adoptRemoteFiles call nodeId nodeRoot db [(path, ref)]).errors = []) :
    refusedPath nodeRoot path = none := by
  cases hrefused : refusedPath nodeRoot path with
  | none => rfl
  | some reason => simp [adoptRemoteFiles, hsection, adoptFiles, hrefused] at h

variable (shows : Shows call remote)

include shows

theorem brings_adopted (hobj : obj ∈ remote) (hpath : obj.path = path) (hx : obj.id = x)
    (hunclaimed : Unclaimed call db x) :
    Brings call remote db
      ((adoptStatements call db node.nodeId path (adoptedRef obj.ref (some x))).foldl
        Database.apply db) path hash x
      (some (adoptedRow call node.nodeId db.nextId path (adoptedRef obj.ref (some x)))) := by
  have hnative := shows.hashes obj hobj
  have hbackfill : backfilledHash call path (adoptedRef obj.ref (some x)) = none := by
    cases hhash : obj.hash with
    | none => simp [backfilledHash, adoptedRef, RemoteObject.ref, hhash, hnative]
    | some listed => simp [backfilledHash, adoptedRef, RemoteObject.ref, hhash]
  have hobject : call.ofObject x
      (adoptedRow call node.nodeId db.nextId path (adoptedRef obj.ref (some x))) := by
    simp [Call.ofObject, adoptedRow, adoptedRef, RemoteObject.ref, hx]
  have heq : ∀ obj' ∈ remote, obj'.id = x → obj' = obj := fun obj' hobj' hx' =>
    List.inj_on_of_nodup_map shows.ids hobj' hobj (hx'.trans hx.symm)
  refine ⟨?_, ?_, ?_, ?_, ?_, ?_, ?_⟩
  · have hinsert := replaced_insertFile hunclaimed rfl hobject
    simp only [adoptStatements, hbackfill, Option.map_none, Option.toList_none, List.foldl_cons,
      List.foldl_nil]
    exact hinsert.insertAudit
  · rintro r ⟨⟩
    rfl
  · intro r₀ hr₀ hx₀
    rw [hunclaimed r₀ hr₀] at hx₀
    cases hx₀
  · intro _ hnone
    cases hnone
  · intro _ hnone
    exact absurd hpath (hnone obj hobj)
  · rintro obj' hobj' hx' r ⟨⟩
    rw [heq obj' hobj' hx']
    exact ⟨hnative, id⟩
  · rintro obj' hobj' hx' - r ⟨⟩
    rw [heq obj' hobj' hx']
    rfl

theorem upsert_brings (keyed : db.Keyed)
    (unique : ∀ r ∈ db.files, ∀ r' ∈ db.files, call.ofObject x r → call.ofObject x r' → r = r')
    (describes : ∀ obj ∈ remote, obj.id = x → ∀ r ∈ db.files, call.ofObject x r → Describes obj r)
    (undisturbed : UpsertUndisturbed call remote db node path x)
    (hsection : (adoptableSection node.nodeRoot path).isSome)
    (herrors : (changeEffect call db (.upsert node path hash (some x))).result.errors = []) :
    ∃ o, Brings call remote db (applyChange call db (.upsert node path hash (some x))) path hash x
      o := by
  unfold applyChange
  cases hfound : findRemoteRecord call db node.nodeId path with
  | some r =>
    have hr := List.mem_of_find?_eq_some hfound
    have hat : call.atPath node.nodeId path r := List.find?_some hfound
    obtain ⟨hpath, hx⟩ := undisturbed.records r hr (nodeId_of_atPath hat) (spelling_of_atPath hat)
    have hunique : ∀ r' ∈ db.files, call.ofObject x r' → r' = r := fun r' hr' hx' =>
      unique r' hr' r hr hx' hx
    refine ⟨some (withHash call path hash r), Brings.of_record hr hx hunique
      (fun obj hobj hx' => describes obj hobj hx' r hr hx) rfl hpath rfl rfl ?_⟩
    rw [upsert_statements_tracked hfound, (ofObject_iff.mp hx).2]
    simp only [persistRemoteFileId, if_true, List.nil_append, hpath, Option.getD_some]
    exact replaced_refresh keyed hr hx hunique
  | none =>
    have hnone := findRemoteRecord_eq_none_iff.mp hfound
    have hvacant : ∀ r ∈ db.files, r.nodeId = node.nodeId → r.remotePath ≠ some path := by
      intro r hr hnode hpath
      have hx := (undisturbed.records r hr hnode (Or.inl hpath)).2
      have hat := atPath_of_eq hnode (ofObject_iff.mp hx).1 hpath
      rw [hnone r hr] at hat
      cases hat
    cases hmoved : movedRecord call db path (some x) with
    | some r =>
      have hfind : findRecordByRemoteFileId call db x = some r :=
        (Option.filter_eq_some_iff.mp hmoved).1
      have hr := List.mem_of_find?_eq_some hfind
      have hx : call.ofObject x r := List.find?_some hfind
      have hunique : ∀ r' ∈ db.files, call.ofObject x r' → r' = r := fun r' hr' hx' =>
        unique r' hr' r hr hx' hx
      have hshadow : shadowOf db node.nodeId path r.id = none := by
        simp only [shadowOf, Option.map_eq_none_iff, List.find?_eq_none, Bool.and_eq_true,
          decide_eq_true_eq, not_and]
        exact fun r' hr' h => absurd h.2 (hvacant r' hr' h.1)
      let moved : FileRow :=
        { r with remoteName := some call.remoteName, remotePath := some path,
                 nodeId := node.nodeId, filename := path.getLastD r.filename }
      have hx' : call.ofObject x moved := ofObject_iff.mpr ⟨rfl, (ofObject_iff.mp hx).2⟩
      have hrelocated : Replaced call db
          ((relocateWatchedRecord call db node.nodeId path r).foldl Database.apply db) x
          (some moved) := by
        have hupdate : Replaced call db (db.updateFile r.id fun r' => { r' with
            remoteName := some call.remoteName, remotePath := some path,
            nodeId := node.nodeId, filename := path.getLastD r.filename }) x (some moved) :=
          replaced_updateFile keyed hr hx hunique hx'
        simp only [relocateWatchedRecord, hshadow, List.foldl_cons, List.foldl_nil]
        exact hupdate.insertAudit
      have hmem := (hrelocated.mem moved).mpr (Or.inr rfl)
      refine ⟨some (withHash call path hash moved), Brings.of_record hr hx hunique
        (fun obj hobj hx' => describes obj hobj hx' r hr hx) rfl rfl rfl rfl ?_⟩
      rw [upsert_statements_moved hfound hmoved, List.foldl_append]
      refine hrelocated.trans ?_
      exact replaced_refresh
        (keyed.foldl_apply (relocateWatchedRecord call db node.nodeId path r)) hmem hx'
        fun r' hr' hx' => (Option.some.inj (hrelocated.eq_some hr' hx')).symm
    | none =>
      have hunclaimed : Unclaimed call db x := by
        intro r hr
        cases hx : call.ofObject x r with
        | false => rfl
        | true =>
          exfalso
          cases hfind : findRecordByRemoteFileId call db x with
          | none => exact List.find?_eq_none.mp hfind r hr hx
          | some r' =>
            have hr' := List.mem_of_find?_eq_some hfind
            have hpath : r'.remotePath = some path := by
              simpa [movedRecord, hfind, Option.filter] using hmoved
            have hnode := undisturbed.ownNode r' hr' (List.find?_some hfind) hpath
            exact hvacant r' hr' hnode hpath
      have hnothing : (∀ obj ∈ remote, obj.path ≠ path) →
          Brings call remote db db path hash x none := by
        intro habsent
        refine ⟨.refl hunclaimed, by simp, fun r hr hx => by simp [hunclaimed r hr] at hx, ?_,
          by simp, by simp, by simp⟩
        rintro ⟨obj, hobj, hpath⟩
        exact absurd hpath (habsent obj hobj)
      rw [upsert_statements_new hfound hmoved]
      have heffect : (changeEffect call db (.upsert node path hash (some x))) =
          upsertUntracked call db node path hash (some x) := by
        simp only [changeEffect, hfound]
      simp only [heffect, upsertUntracked, hmoved] at herrors
      rcases hstat : call.adapter.stat path with message | answer
      · simp [hstat] at herrors
      · have hanswer := shows.stat path answer hstat
        cases hobject : objectAt remote path with
        | none =>
          rw [hobject] at hanswer
          subst hanswer
          refine ⟨none, hnothing fun obj hobj hpath => ?_⟩
          rw [← hpath, objectAt_of_mem shows hobj] at hobject
          cases hobject
        | some obj =>
          rw [hobject] at hanswer
          subst hanswer
          obtain ⟨hobj, hpath⟩ := of_objectAt hobject
          simp only [hstat, Option.map_some] at herrors
          have hrefused := refusedPath_eq_none hsection herrors
          have hfree : db.taken node.nodeId path = false := by
            simp only [Database.taken, List.any_eq_false, Bool.and_eq_true,
              decide_eq_true_eq, not_and]
            exact hvacant
          refine ⟨some (adoptedRow call node.nodeId db.nextId path
            (adoptedRef obj.ref (some x))), ?_⟩
          simp only [Option.map_some, acceptedPath, hsection, hrefused, hfree,
            Option.isNone_none, Bool.not_false, Bool.and_self, if_true]
          exact brings_adopted shows hobj hpath (undisturbed.objects obj hobj hpath) hunclaimed

theorem confirmRemoved_of_vacated {q : RemotePath} (hpath : r.remotePath = some q)
    (hvacated : ∀ obj ∈ remote, obj.path ≠ q) :
    confirmRemoved call r = .ok true ∨ ∃ message, confirmRemoved call r = .error message := by
  have hnone : objectAt remote q = none :=
    List.find?_eq_none.mpr fun obj hobj => by simp [hvacated obj hobj]
  simp only [confirmRemoved, hpath]
  rcases hstat : call.adapter.stat q with message | answer
  · exact Or.inr ⟨_, rfl⟩
  · obtain rfl : answer = none := by simpa [hnone] using shows.stat q answer hstat
    exact Or.inl rfl

theorem removal_replaced (keyed : db.Keyed)
    (unique : ∀ r ∈ db.files, ∀ r' ∈ db.files, call.ofObject x r → call.ofObject x r' → r = r')
    {c : PlannedChange} (hc : ∀ n p h x, c ≠ .upsert n p h x) (hx : c.object? = some x)
    (vacated : Vacated call remote db x)
    (own : ∀ r, removalTarget call db c = some r → call.ofObject x r)
    (herrors : (changeEffect call db c).result.errors = []) :
    Replaced call db (applyChange call db c) x none := by
  unfold applyChange
  cases htarget : removalTarget call db c with
  | none =>
    rw [changeEffect_no_target hc htarget]
    refine Replaced.refl fun r hr => ?_
    cases hobject : call.ofObject x r with
    | false => rfl
    | true =>
      have habout := about_eq_false_of_removalTarget_eq_none hc htarget hr
      rw [about_of_ofObject hc hx hobject] at habout
      cases habout
  | some r =>
    have hr := (about_of_removalTarget htarget).1
    have hobject := own r htarget
    obtain ⟨hhad, q, hpath, hvacated⟩ := vacated r hr hobject
    obtain ⟨nodeId, heffect⟩ := changeEffect_removal hc htarget
    rw [heffect] at herrors ⊢
    rcases confirmRemoved_of_vacated shows hpath hvacated with hconfirm | ⟨message, hconfirm⟩
    · have hremovable : removable call r = true := by simp [removable, hhad, hconfirm]
      rw [removeRecord_statements, if_pos hremovable]
      exact (replaced_deleteFile keyed hr hobject fun r' hr' hx' =>
        unique r' hr' r hr hx' hobject).insertAudit
    · simp [removeRecord, hhad, deleteRemovedRecords, hconfirm] at herrors

end

open Files Files.Database RemoteSweep

universe u

variable {Bytes : Type u}

structure OneEach (call : Call Bytes) (remote : List RemoteObject) (db : Database) : Prop where
  keyed : db.Keyed
  unique : ∀ x, ∀ r ∈ db.files, ∀ r' ∈ db.files, call.ofObject x r → call.ofObject x r' → r = r'
  describes : ∀ obj ∈ remote, ∀ r ∈ db.files, call.ofObject obj.id r → Describes obj r

structure StepClean (call : Call Bytes) (nodes : List WatchedNode) (remote : List RemoteObject)
    (db : Database) (c : PlannedChange) : Prop where
  undisturbed : Undisturbed call remote db c
  watched : c.Watched nodes
  errors : (changeEffect call db c).result.errors = []

def RunClean (call : Call Bytes) (nodes : List WatchedNode) (remote : List RemoteObject) :
    Database → List PlannedChange → Prop
  | _, [] => True
  | db, c :: rest =>
    StepClean call nodes remote db c ∧ RunClean call nodes remote (applyChange call db c) rest

variable {call : Call Bytes} {nodes : List WatchedNode} {remote : List RemoteObject}
  {db : Database} {c : PlannedChange} {plan before after : List PlannedChange} {x y : String}
  {r : FileRow}

theorem runClean_append : RunClean call nodes remote db (before ++ after) ↔
    RunClean call nodes remote db before ∧
      RunClean call nodes remote (before.foldl (applyChange call) db) after := by
  induction before generalizing db with
  | nil => simp [RunClean]
  | cons c rest ih => simp only [List.cons_append, RunClean, List.foldl_cons, ih, and_assoc]

theorem section_of_watchedNode {path : RemotePath} {node : WatchedNode}
    (h : watchedNode nodes path = some node) : (adoptableSection node.nodeRoot path).isSome :=
  (Option.filter_eq_some_iff.mp h).2

variable (shows : Shows call remote)

include shows

variable (one : OneEach call remote db)

include one

theorem StepClean.brings (clean : StepClean call nodes remote db c) (hupsert : c.isUpsert = true) :
    ∃ x node path hash o, c = .upsert node path hash (some x) ∧
      Brings call remote db (applyChange call db c) path hash x o := by
  obtain ⟨undisturbed, watched, herrors⟩ := clean
  cases c with
  | upsert node path hash fileId =>
    obtain ⟨x, rfl, undisturbed⟩ := undisturbed
    obtain ⟨o, brings⟩ := upsert_brings shows one.keyed (one.unique x)
      (fun obj hobj hx r hr hr' => one.describes obj hobj r hr (hx ▸ hr')) undisturbed
      (section_of_watchedNode watched) herrors
    exact ⟨x, node, path, hash, o, rfl, brings⟩
  | remove node path fileId => cases hupsert
  | removeById x => cases hupsert

theorem StepClean.removes (clean : StepClean call nodes remote db c) (hremoval : c.isUpsert =
      false) :
    ∃ x, c.object? = some x ∧ Replaced call db (applyChange call db c) x none := by
  obtain ⟨undisturbed, -, herrors⟩ := clean
  cases c with
  | upsert node path hash fileId => cases hremoval
  | remove node path fileId =>
    obtain ⟨x, rfl, vacated, hat⟩ := undisturbed
    refine ⟨x, rfl, removal_replaced shows one.keyed (one.unique x) (by simp) rfl vacated
      (fun r htarget => ?_) herrors⟩
    obtain ⟨hr, habout⟩ := about_of_removalTarget htarget
    rcases about_remove_iff.mp habout with h | ⟨z, hz, h⟩
    · exact hat r hr h
    · cases hz
      exact h
  | removeById x =>
    exact ⟨x, rfl, removal_replaced shows one.keyed (one.unique x) (by simp) rfl undisturbed
      (fun r htarget => (about_of_removalTarget htarget).2) herrors⟩

theorem StepClean.replaced (clean : StepClean call nodes remote db c) :
    ∃ x o, c.object? = some x ∧ Replaced call db (applyChange call db c) x o ∧
      ∀ obj ∈ remote, obj.id = x → ∀ r, o = some r → Describes obj r := by
  cases hkind : c.isUpsert with
  | true =>
    obtain ⟨x, node, path, hash, o, rfl, brings⟩ := clean.brings shows one hkind
    exact ⟨x, o, rfl, brings.replaced, brings.describes⟩
  | false =>
    obtain ⟨x, hx, replaced⟩ := clean.removes shows one hkind
    exact ⟨x, none, hx, replaced, fun _ _ _ _ ho => by cases ho⟩

theorem StepClean.oneEach (clean : StepClean call nodes remote db c) :
    OneEach call remote (applyChange call db c) := by
  obtain ⟨x, o, -, replaced, describes⟩ := clean.replaced shows one
  refine ⟨one.keyed.foldl_apply _, fun y r hr r' hr' hy hy' => ?_, fun obj hobj r hr hy => ?_⟩
  · by_cases hxy : x = y
    · subst hxy
      exact Option.some.inj ((replaced.eq_some hr hy).symm.trans (replaced.eq_some hr' hy'))
    · exact one.unique y r ((replaced.mem_iff_of_ne hxy hy).mp hr) r'
        ((replaced.mem_iff_of_ne hxy hy').mp hr') hy hy'
  · by_cases hx : obj.id = x
    · subst hx
      exact describes obj hobj rfl r (replaced.eq_some hr hy)
    · exact one.describes obj hobj r ((replaced.mem_iff_of_ne (Ne.symm hx) hy).mp hr) hy

theorem StepClean.mem_iff (clean : StepClean call nodes remote db c) (hnamed : c.object? ≠ some y)
    (hy : call.ofObject y r) : r ∈ (applyChange call db c).files ↔ r ∈ db.files := by
  obtain ⟨x, o, hx, replaced, -⟩ := clean.replaced shows one
  refine replaced.mem_iff_of_ne ?_ hy
  rintro rfl
  exact hnamed hx

omit one

omit shows

theorem Replaced.unclaimed {db' : Database} (h : Replaced call db db' x none) :
    Unclaimed call db' x := by
  intro r hr
  cases hx : call.ofObject x r with
  | false => rfl
  | true => cases h.eq_some hr hx

include shows

include one

theorem StepClean.unclaimed (clean : StepClean call nodes remote db c)
    (hunclaimed : Unclaimed call db x)
    (habsent : ∀ node path hash, c = .upsert node path hash (some x) → ∀ obj ∈ remote, obj.path ≠
      path) : Unclaimed call (applyChange call db c) x := by
  by_cases hnamed : c.object? = some x
  · cases hkind : c.isUpsert with
    | true =>
      obtain ⟨y, node, path, hash, o, rfl, brings⟩ := clean.brings shows one hkind
      cases hnamed
      have hnone : o = none := brings.adoptsOnly hunclaimed (habsent node path hash rfl)
      rw [hnone] at brings
      exact brings.replaced.unclaimed
    | false =>
      obtain ⟨y, hy, replaced⟩ := clean.removes shows one hkind
      obtain rfl := Option.some.inj (hy.symm.trans hnamed)
      exact replaced.unclaimed
  · intro r hr
    cases hx : call.ofObject x r with
    | false => rfl
    | true =>
      rw [clean.mem_iff shows one hnamed hx] at hr
      rw [hunclaimed r hr] at hx
      cases hx

theorem StepClean.keepsId (clean : StepClean call nodes remote db c)
    (hupserts : c.object? = some x → c.isUpsert = true) (hr : r ∈ db.files) (hx : call.ofObject x
      r) :
    ∃ r' ∈ (applyChange call db c).files, call.ofObject x r' ∧ r'.id = r.id := by
  by_cases hnamed : c.object? = some x
  · obtain ⟨y, node, path, hash, o, rfl, brings⟩ := clean.brings shows one (hupserts hnamed)
    cases hnamed
    obtain ⟨r', rfl, hid⟩ := brings.keepsId r hr hx
    exact ⟨r', (brings.replaced.mem r').mpr (Or.inr rfl), brings.replaced.object r' rfl, hid⟩
  · exact ⟨r, (clean.mem_iff shows one hnamed hx).mpr hr, hx, rfl⟩

theorem RunClean.oneEach (clean : RunClean call nodes remote db plan) :
    OneEach call remote (plan.foldl (applyChange call) db) := by
  induction plan generalizing db with
  | nil => exact one
  | cons c rest ih => exact ih (clean.1.oneEach shows one) clean.2

theorem RunClean.mem_iff (clean : RunClean call nodes remote db plan)
    (hnamed : ∀ c ∈ plan, c.object? ≠ some y) (hy : call.ofObject y r) :
    r ∈ (plan.foldl (applyChange call) db).files ↔ r ∈ db.files := by
  induction plan generalizing db with
  | nil => exact Iff.rfl
  | cons c rest ih =>
    obtain ⟨hc, hrest⟩ := List.forall_mem_cons.mp hnamed
    rw [List.foldl_cons, ih (clean.1.oneEach shows one) clean.2 hrest]
    exact clean.1.mem_iff shows one hc hy

theorem RunClean.unclaimed (clean : RunClean call nodes remote db plan)
    (hunclaimed : Unclaimed call db x)
    (habsent : ∀ node path hash, .upsert node path hash (some x) ∈ plan → ∀ obj ∈ remote, obj.path
      ≠ path) : Unclaimed call (plan.foldl (applyChange call) db) x := by
  induction plan generalizing db with
  | nil => exact hunclaimed
  | cons c rest ih =>
    refine ih (clean.1.oneEach shows one) clean.2 ?_ fun node path hash hmem =>
      habsent node path hash (List.mem_cons_of_mem _ hmem)
    refine clean.1.unclaimed shows one hunclaimed fun node path hash hc => ?_
    exact habsent node path hash (hc ▸ List.mem_cons_self)

theorem RunClean.keepsId (clean : RunClean call nodes remote db plan)
    (hupserts : ∀ c ∈ plan, c.object? = some x → c.isUpsert = true) (hr : r ∈ db.files)
    (hx : call.ofObject x r) :
    ∃ r' ∈ (plan.foldl (applyChange call) db).files, call.ofObject x r' ∧ r'.id = r.id := by
  induction plan generalizing db r with
  | nil => exact ⟨r, hr, hx, rfl⟩
  | cons c rest ih =>
    obtain ⟨hc, hrest⟩ := List.forall_mem_cons.mp hupserts
    obtain ⟨r', hr', hx', hid'⟩ := clean.1.keepsId shows one hc hr hx
    obtain ⟨r'', hr'', hx'', hid''⟩ :=
      ih (clean.1.oneEach shows one) clean.2 hrest hr' hx'
    exact ⟨r'', hr'', hx'', hid''.trans hid'⟩

omit one

omit shows

theorem RunClean.objects_at (clean : RunClean call nodes remote db plan) {node : WatchedNode}
    {path : RemotePath} {hash : Option String} (hmem : .upsert node path hash (some x) ∈ plan)
    (obj : RemoteObject) (hobj : obj ∈ remote) (hpath : obj.path = path) : obj.id = x := by
  induction plan generalizing db with
  | nil => cases hmem
  | cons c rest ih =>
    rcases List.mem_cons.mp hmem with rfl | hmem
    · obtain ⟨y, hy, undisturbed⟩ := clean.1.undisturbed
      cases hy
      exact undisturbed.objects obj hobj hpath
    · exact ih clean.2 hmem

end Portuni.RemoteWatch
