import Portuni.CentralRetry.Repeat
import Portuni.CrashSafety.Calls

/-!
What the retry of other pending operations leaves alone: the record of a file,
the objects at its paths, its tombstones and its own operations.
-/

namespace Portuni.CrashSafety

open CentralRetry (Objects CallAnswer)
open FileOps Files Files.Database Library.Stops RemoteSweep RemoteWatch Tombstones

universe u

def HasTombstone (db : Database) (nodeId : String) (path : RemotePath) (fileId : ℕ) : Prop :=
  ∃ row ∈ db.auditLog, reads centralActions nodeId row ∧ row.fileId? = some fileId ∧
    row.auditRemotePath = some path

def opPaths (op : PendingOpRow) : List RemotePath :=
  [(retryParams op).fromRemotePath, (retryParams op).toRemotePath]

/-- Nothing about the file or its paths has changed in the database. -/
structure DbFrame (fileId : ℕ) (paths : List RemotePath) (db db' : Database) : Prop where
  row : db'.fileById fileId = db.fileById fileId
  tombstones : ∀ nodeId path, HasTombstone db' nodeId path fileId ↔
    HasTombstone db nodeId path fileId
  ops : db'.pendingOps.filter (·.fileId = fileId) = db.pendingOps.filter (·.fileId = fileId)
  keyed : db'.Keyed
  /-- No other record has come to one of the paths. -/
  claims : ∀ r' ∈ db'.files, r'.id ≠ fileId → ∀ path ∈ paths, r'.remotePath = some path →
    ∃ r ∈ db.files, r.id ≠ fileId ∧ r.remoteName = r'.remoteName ∧ r.remotePath = some path

structure Frame {Bytes : Type u} (fileId : ℕ) (paths : List RemotePath) (s s' : Store Bytes) :
    Prop extends DbFrame fileId paths s.db s'.db where
  objects : ∀ name, ∀ path ∈ paths, s'.objects name path = s.objects name path

variable {Bytes : Type u} {server : SyncServer Bytes} {answers : Answers} {s s' s'' : Store Bytes}
  {db db' db'' : Database} {fileId id : ℕ} {paths : List RemotePath} {op : PendingOpRow}
  {nodeId : String} {path : RemotePath} {set : FileRow → FileRow} {row : AuditRow}

theorem DbFrame.refl (keyed : db.Keyed) : DbFrame fileId paths db db where
  row := rfl
  tombstones _ _ := Iff.rfl
  ops := rfl
  keyed := keyed
  claims r hr hid _ _ hpath := ⟨r, hr, hid, rfl, hpath⟩

variable (h : DbFrame fileId paths db db')

include h

theorem DbFrame.trans (h' : DbFrame fileId paths db' db'') : DbFrame fileId paths db db'' where
  row := h'.row.trans h.row
  tombstones nodeId path := (h'.tombstones nodeId path).trans (h.tombstones nodeId path)
  ops := h'.ops.trans h.ops
  keyed := h'.keyed
  claims := by
    intro r'' hr'' hid'' path hpath hat
    obtain ⟨r', hr', hid', hname', hat'⟩ := h'.claims r'' hr'' hid'' path hpath hat
    obtain ⟨r, hr, hid, hname, hat⟩ := h.claims r' hr' hid' path hpath hat'
    exact ⟨r, hr, hid, hname.trans hname', hat⟩

theorem DbFrame.insertAudit (hrow : row.fileId? ≠ some fileId) :
    DbFrame fileId paths db (db'.insertAudit row) where
  __ := h
  tombstones nodeId path := by
    rw [← h.tombstones]
    simp [HasTombstone, Database.insertAudit, or_and_right, exists_or, hrow]
  keyed := ⟨h.keyed.nodup, h.keyed.lt⟩

theorem DbFrame.completePendingOp (hother : ∀ o ∈ db.pendingOps, o.fileId = fileId → o.id ≠ id) :
    DbFrame fileId paths db (FileOps.completePendingOp db' id) where
  __ := h
  ops := by
    rw [← h.ops]
    simp only [FileOps.completePendingOp, List.filter_filter]
    refine List.filter_congr fun o ho => ?_
    by_cases hfile : o.fileId = fileId
    · have hmem : o ∈ db'.pendingOps.filter (·.fileId = fileId) := by simp [ho, hfile]
      rw [h.ops] at hmem
      simp [hfile, hother o (List.mem_filter.mp hmem).1 hfile]
    · simp [hfile]
  keyed := ⟨h.keyed.nodup, h.keyed.lt⟩

omit h

theorem filter_updatePendingOp {update : PendingOpRow → PendingOpRow}
    (hupdate : ∀ o, (update o).fileId = o.fileId)
    (hother : ∀ o ∈ db.pendingOps, o.fileId = fileId → o.id ≠ id) :
    (updatePendingOp db id update).pendingOps.filter (·.fileId = fileId) =
      db.pendingOps.filter (·.fileId = fileId) := by
  have hfile : ∀ o : PendingOpRow, (if o.id = id then update o else o).fileId = o.fileId :=
    fun o => by
      split
      · exact hupdate o
      · rfl
  simp only [updatePendingOp, List.filter_map, Function.comp_def, hfile]
  refine (List.map_congr_left fun o ho => ?_).trans (List.map_id _)
  obtain ⟨ho, hmine⟩ := List.mem_filter.mp ho
  exact if_neg (hother o ho (by simpa using hmine))

include h

theorem DbFrame.failPendingOp {error : String}
    (hother : ∀ o ∈ db.pendingOps, o.fileId = fileId → o.id ≠ id) :
    DbFrame fileId paths db (FileOps.failPendingOp db' id error) where
  __ := h
  ops := by
    rw [← h.ops]
    refine filter_updatePendingOp (fun _ => rfl) fun o ho hfile => ?_
    have hmem : o ∈ db'.pendingOps.filter (·.fileId = fileId) := by simp [ho, hfile]
    rw [h.ops] at hmem
    exact hother o (List.mem_filter.mp hmem).1 hfile
  keyed := ⟨h.keyed.nodup, h.keyed.lt⟩

theorem DbFrame.deleteFile (hid : id ≠ fileId) : DbFrame fileId paths db (db'.deleteFile id) where
  __ := h
  row := by
    rw [← h.row]
    refine find?_deleteFile fun r _ hr => ?_
    simp [hr, hid]
  keyed := h.keyed.deleteFile
  claims r' hr' := h.claims r' (mem_deleteFile_iff.mp hr').1

omit h

theorem shadowOf_ne (keyed : db.Keyed) (hpath : path ∉ paths)
    (hrow : ∀ r, db.fileById fileId = some r → ∃ own ∈ paths, r.remotePath = some own) {shadow : ℕ}
    (hshadow : shadowOf db nodeId path id = some shadow) : shadow ≠ fileId := by
  obtain ⟨r, hfound, rfl⟩ := Option.map_eq_some_iff.mp hshadow
  have hat := List.find?_some hfound
  simp only [Bool.and_eq_true, decide_eq_true_eq] at hat
  rintro rfl
  obtain ⟨own, hown, hsame⟩ := hrow r (fileById_of_mem keyed (List.mem_of_find?_eq_some hfound))
  rw [hat.1.2] at hsame
  exact hpath (Option.some.inj hsame ▸ hown)

include h

theorem DbFrame.dropShadow {shadow : Option ℕ} (hshadow : ∀ id, shadow = some id → id ≠ fileId) :
    DbFrame fileId paths db (db'.dropShadow shadow) := by
  cases shadow with
  | none => exact h
  | some id => exact h.deleteFile (hshadow id rfl)

theorem DbFrame.writeRelocatedRecord (hid : id ≠ fileId)
    (hset : ∀ r, (set r).id = r.id ∧ (set r).remotePath = some path) (hpath : path ∉ paths)
    (hrow : ∀ r, db.fileById fileId = some r → ∃ own ∈ paths, r.remotePath = some own) :
    DbFrame fileId paths db (FileOps.writeRelocatedRecord db' id nodeId path set) := by
  have hdropped : DbFrame fileId paths db (db'.dropShadow (shadowOf db' nodeId path id)) := by
    refine h.dropShadow fun shadow hshadow => shadowOf_ne h.keyed hpath (fun r hr => ?_) hshadow
    exact hrow r (h.row ▸ hr)
  unfold FileOps.writeRelocatedRecord
  refine ⟨?_, hdropped.tombstones, hdropped.ops, hdropped.keyed.updateFile fun r => (hset r).1, ?_⟩
  · rw [← hdropped.row]
    refine (find?_updateFile fun r _ hr => by simp [(hset r).1, hr]).trans ?_
    cases hfound : (db'.dropShadow (shadowOf db' nodeId path id)).files.find?
        fun r => decide (r.id = fileId) with
    | none => exact hfound.symm
    | some r =>
      have hown : r.id = fileId := by simpa using List.find?_some hfound
      have hne : r.id ≠ id := by rw [hown]; exact hid.symm
      simp only [Option.map_some, if_neg hne]
      exact hfound.symm
  · intro r' hr' hother own hown hat
    obtain ⟨r, hr, rfl⟩ := mem_updateFile_iff.mp hr'
    by_cases hsame : r.id = id
    · rw [if_pos hsame, (hset r).2] at hat
      exact absurd (Option.some.inj hat ▸ hown) hpath
    · rw [if_neg hsame] at hother hat ⊢
      exact hdropped.claims r hr hother own hown hat

omit h

theorem executePendingOp_ok {world : World} (h : executePendingOp world db op = .ok db') :
    (∃ nodeId path set row, path ∈ opPaths op ∧
      (∀ r : FileRow, (set r).id = r.id ∧ (set r).remotePath = some path) ∧
      row.fileId? = some op.fileId ∧
      db' = (writeRelocatedRecord db op.fileId nodeId path set).insertAudit row) ∨
    ∃ row, row.fileId? = some op.fileId ∧ db' = (db.deleteFile op.fileId).insertAudit row := by
  unfold executePendingOp at h
  cases hpayload : op.payload with
  | move fromName fromPath toName toPath toNodeId filename sourceCopied =>
    simp only [hpayload] at h
    cases hrelocate : relocateRemoteObject ⟨fromName, fromPath, toName, toPath, sourceCopied⟩
        world.relocation with
    | error failure =>
      rw [hrelocate] at h
      cases h
    | ok status =>
      rw [hrelocate] at h
      exact Or.inl ⟨toNodeId, toPath,
        fun r => { r with remoteName := some toName, remotePath := some toPath,
                          nodeId := toNodeId, filename := filename },
        retriedMoveAudit op ⟨fromName, fromPath, toName, toPath, sourceCopied⟩ world.now,
        by simp [opPaths, retryParams, hpayload], fun r => ⟨rfl, rfl⟩, rfl,
        (Except.ok.inj h).symm⟩
  | delete name path filename expectedHash expectedRemoteObject =>
    simp only [hpayload, bind, Except.bind] at h
    cases hstat : world.stat with
    | error message => simp [hstat] at h
    | ok current =>
      simp only [hstat] at h
      cases hassert : assertTargetObject path expectedHash expectedRemoteObject current with
      | error message => simp [hassert] at h
      | ok _ =>
        simp only [hassert] at h
        cases hdelete : world.deleteObject with
        | error message => simp [hdelete] at h
        | ok _ =>
          simp only [hdelete, pure, Except.pure] at h
          exact Or.inr ⟨_, rfl, (Except.ok.inj h).symm⟩

theorem dbFrame_retryPendingOp {world : World} (keyed : db.Keyed) (hfile : op.fileId ≠ fileId)
    (hpaths : ∀ path ∈ opPaths op, path ∉ paths)
    (hother : ∀ o ∈ db.pendingOps, o.fileId = fileId → o.id ≠ op.id)
    (hrow : ∀ r, db.fileById fileId = some r → ∃ own ∈ paths, r.remotePath = some own) :
    DbFrame fileId paths db (retryPendingOp world db op).1 := by
  have hrefl : DbFrame fileId paths db db := DbFrame.refl keyed
  have haudit : ∀ row : AuditRow, row.fileId? = some op.fileId → row.fileId? ≠ some fileId :=
    fun row hrow => by simp [hrow, hfile]
  rw [retryPendingOp_eq]
  cases checkPendingOp db op with
  | error message => exact hrefl.failPendingOp hother
  | ok _ =>
    simp only [finishPendingOp]
    cases hexecute : executePendingOp world db op with
    | error message => exact hrefl.failPendingOp hother
    | ok repaired =>
      refine DbFrame.completePendingOp ?_ hother
      rcases executePendingOp_ok hexecute with
        ⟨nodeId, path, set, row, hpath, hset, hrowId, rfl⟩ | ⟨row, hrowId, rfl⟩
      · exact (hrefl.writeRelocatedRecord hfile hset (hpaths path hpath) hrow).insertAudit
          (haudit row hrowId)
      · exact (hrefl.deleteFile hfile).insertAudit (haudit row hrowId)

def Spares (paths : List RemotePath) (effects : List (Effect (Store Bytes))) : Prop :=
  ∀ s, ∀ name, ∀ path ∈ paths, (perform effects s).objects name path = s.objects name path

variable {objects : Objects Bytes}

theorem set_of_ne {name name' : String} {path path' : RemotePath}
    {object : Option (CentralRetry.RemoteObject Bytes)} (hne : path' ≠ path) :
    objects.set name path object name' path' = objects name' path' :=
  if_neg fun h => hne h.2

theorem spares_nil : Spares paths ([] : List (Effect (Store Bytes))) :=
  fun _ _ _ _ => rfl

theorem Spares.cons {effects : List (Effect (Store Bytes))}
    {change : Objects Bytes → Objects Bytes} (h : Spares paths effects)
    (hchange : ∀ objects name, ∀ path ∈ paths, change objects name path = objects name path) :
    Spares paths (onObjects change :: effects) := by
  intro s name path hpath
  exact (h (onObjects change s) name path hpath).trans (hchange s.objects name path hpath)

theorem spares_relocateEffects {p : RelocateParams} (hfrom : p.fromRemotePath ∉ paths)
    (hto : p.toRemotePath ∉ paths) : Spares paths (relocateEffects server answers p objects) := by
  have hne : ∀ own ∈ paths, own ≠ p.fromRemotePath ∧ own ≠ p.toRemotePath := fun own hown =>
    ⟨fun h => hfrom (h ▸ hown), fun h => hto (h ▸ hown)⟩
  have hsource : Spares paths (deleteSourceEffects answers p : List (Effect (Store Bytes))) := by
    unfold deleteSourceEffects
    split
    · exact spares_nil.cons fun _ _ own hown => set_of_ne (hne own hown).1
    · exact spares_nil
  unfold relocateEffects
  split
  · exact spares_nil
  · split
    · split
      · exact hsource
      · exact spares_nil
    · simp only
      split
      · exact spares_nil
      · split
        · refine spares_nil.cons fun _ _ own hown => ?_
          rw [renamed, set_of_ne (hne own hown).1, set_of_ne (hne own hown).2]
        · have hcopied : ∀ (objects : Objects Bytes) name, ∀ own ∈ paths,
              copied answers p objects name own = objects name own :=
            fun _ _ own hown => set_of_ne (hne own hown).2
          split
          · exact hsource.cons hcopied
          · exact spares_nil.cons hcopied
    · exact spares_nil

theorem spares_deleteEffects {name : String} (hpath : path ∉ paths) :
    Spares paths (deleteEffects server answers name path objects) := by
  unfold deleteEffects
  split
  · split
    · exact spares_nil.cons fun _ _ own hown => set_of_ne fun h => hpath (h ▸ hown)
    · exact spares_nil
  · exact spares_nil

theorem spares_retryEffects (hpaths : ∀ path ∈ opPaths op, path ∉ paths) :
    Spares paths (retryEffects server answers op s) := by
  have hfrom := hpaths (retryParams op).fromRemotePath List.mem_cons_self
  have hto := hpaths (retryParams op).toRemotePath (List.mem_cons_of_mem _ List.mem_cons_self)
  unfold retryEffects
  split
  · exact spares_nil
  · cases hpayload : op.payload with
    | move => exact spares_relocateEffects hfrom hto
    | delete name path filename expectedHash expectedRemoteObject =>
      have hpath : path ∉ paths := by simpa [retryParams, hpayload] using hfrom
      simp only
      split
      · exact spares_nil
      · exact spares_deleteEffects hpath

structure Unrelated (fileId : ℕ) (paths : List RemotePath) (op : PendingOpRow) : Prop where
  file : op.fileId ≠ fileId
  paths : ∀ path ∈ opPaths op, path ∉ paths

theorem frame_retryAll {ops : List PendingOpRow} (keyed : s.db.Keyed)
    (hunrelated : ∀ op ∈ ops, Unrelated fileId paths op)
    (hother : ∀ o ∈ s.db.pendingOps, o.fileId = fileId → ∀ op ∈ ops, o.id ≠ op.id)
    (hrow : ∀ r, s.db.fileById fileId = some r → ∃ own ∈ paths, r.remotePath = some own) :
    Frame fileId paths s (ops.foldl (retryOne server answers) s) := by
  induction ops generalizing s with
  | nil => exact ⟨DbFrame.refl keyed, fun _ _ _ => rfl⟩
  | cons op rest ih =>
    have hop := hunrelated op List.mem_cons_self
    have hfirst : Frame fileId paths s (retryOne server answers s op) :=
      ⟨dbFrame_retryPendingOp keyed hop.file hop.paths
        (fun o ho hmine => hother o ho hmine op List.mem_cons_self) hrow,
        spares_retryEffects hop.paths s⟩
    have hrest := ih hfirst.keyed (fun o ho => hunrelated o (List.mem_cons_of_mem _ ho))
      (fun o ho hmine op' hop' => ?_) fun r hr => hrow r (hfirst.row ▸ hr)
    · exact ⟨hfirst.toDbFrame.trans hrest.toDbFrame, fun name path hpath =>
        (hrest.objects name path hpath).trans (hfirst.objects name path hpath)⟩
    · have hmem : o ∈ (retryOne server answers s op).db.pendingOps.filter (·.fileId = fileId) := by
        simp [ho, hmine]
      rw [hfirst.ops] at hmem
      exact hother o (List.mem_filter.mp hmem).1 hmine op' (List.mem_cons_of_mem _ hop')

end Portuni.CrashSafety
