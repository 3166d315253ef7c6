import Mathlib.Data.List.Perm.Subperm
import Portuni.FileOps.Outcomes
import Portuni.NodeMove.Model

/-!
The same applied call of `renameFolder` over and over, until it leaves nothing
for another one: what each call takes, and when the calls come to the right end.
-/

namespace Portuni.FileOps

open Files Files.Database
open NodeMove (UniquePaths)
open RemoteWatch

/-- An applied call of `renameFolder` with valid arguments; what happens outside the database
around a file is the same in every call. -/
structure FolderRename where
  server : Server
  worlds : ℕ → World
  now : ℕ
  a : RenameFolderArgs
  info : NodeInfo
  nodeRoot : RemotePath
  applied : a.dryRun = false
  positive : 0 < a.limit
  resolved : server.resolveNodeInfo a.nodeId = .ok info
  rooted : buildNodeRoot info = .ok nodeRoot
  oldSafe : assertSafeRelativePath "renameFolder.oldPrefix" a.oldPrefix = .ok ()
  newSafe : assertSafeRelativePath "renameFolder.newPrefix" a.newPrefix = .ok ()

namespace FolderRename

variable (c : FolderRename) (db : Database)

abbrev oldAbs : RemotePath := c.nodeRoot ++ c.a.oldPrefix

abbrev newAbs : RemotePath := c.nodeRoot ++ c.a.newPrefix

def files : List FolderFile :=
  folderFiles c.server db c.a.nodeId c.oldAbs c.newAbs

def toProcess : List FolderFile :=
  (c.files db).take c.a.limit

def remaining : ℕ :=
  (c.files db).length - (c.toProcess db).length

def world (f : FolderFile) : World :=
  { c.worlds f.fileId with now := c.now }

def step (db : Database) (f : FolderFile) : OpOutcome :=
  renameFolderFile c.server (c.world f) db c.a.nodeId f

def process (db : Database) :
    List FolderFile → Database × List (FolderFile × Except String OpStatus)
  | [] => (db, [])
  | f :: rest =>
    let later := process (c.step db f).1 rest
    (later.1, (f, (c.step db f).2) :: later.2)

def results : List (FolderFile × Except String OpStatus) :=
  (c.process db (c.toProcess db)).2

def call : Database :=
  (c.process db (c.toProcess db)).1.insertAudit (folderAudit c.server c.a (c.remaining db) c.now)

def after : ℕ → Database → Database
  | 0, db => db
  | k + 1, db => after k (c.call db)

/-- The file has a remote and its remote step succeeds; a local workspace has no remote step. -/
def canRename (f : FolderFile) : Bool :=
  c.server.localWorkspace || f.remoteName.any fun name =>
    (relocateRemoteObject ⟨name, f.oldRemotePath, name, f.newRemotePath, false⟩
      (c.worlds f.fileId).relocation).toOption.isSome

/-- The call of this file would find a file at `path`. -/
def under (path : RemotePath) : Bool :=
  (below c.oldAbs path).isSome

def sectionOf (f : FolderFile) : Option FileSection :=
  (f.newRemotePath.drop c.nodeRoot.length).head?.bind FileSection.ofSegment

/-- A call takes all the files, or one at least that it can rename; what it renames leaves the
folder, if it does not take all, replaces no record of the folder and gets into a section. -/
structure Proceeds : Prop where
  renames : (c.files db).length ≤ c.a.limit ∨ ∃ f ∈ c.toProcess db, c.canRename f = true
  leaves : c.a.limit < (c.files db).length → ∀ f ∈ c.toProcess db, c.canRename f = true →
    c.under f.newRemotePath = false
  fresh : ∀ f ∈ c.toProcess db, c.canRename f = true → ∀ g ∈ c.files db,
    g.oldRemotePath = f.newRemotePath → g = f
  tracked : ∀ f ∈ c.toProcess db, c.canRename f = true → (c.sectionOf f).isSome

/-- The `k`-th repetition is the last: every file that can be renamed was taken by one call, and
has its new path; the others are reported and where they were. -/
structure Completed (k : ℕ) : Prop where
  done : c.remaining (c.after k db) = 0
  within : ∀ j ≤ k, ∀ g ∈ c.files (c.after j db), g ∈ c.files db
  renamed : ∀ f ∈ c.files db, c.canRename f = true →
    (∃ j ≤ k, f ∈ c.toProcess (c.after j db) ∧ ∀ j' ≤ k, f ∈ c.toProcess (c.after j' db) → j' = j) ∧
    ∃ r ∈ (c.after (k + 1) db).files, r.id = f.fileId ∧ r.nodeId = c.a.nodeId ∧
      r.remotePath = some f.newRemotePath
  reported : ∀ f ∈ c.files db, c.canRename f = false →
    (f, .ok .repairNeeded) ∈ c.results (c.after k db) ∧
    ∃ r ∈ (c.after (k + 1) db).files, r.id = f.fileId ∧ r.nodeId = c.a.nodeId ∧
      r.remotePath = some f.oldRemotePath
  tracked : ∀ f ∈ c.files db, c.canRename f = true → (c.sectionOf f).isSome

variable {c db} {f g : FolderFile} {r : FileRow}

theorem mem_files : f ∈ c.files db ↔ ∃ r ∈ db.files, r.nodeId = c.a.nodeId ∧ ∃ rest, rest ≠ [] ∧
    r.remotePath = some (c.oldAbs ++ rest) ∧
      f = { fileId := r.id
            filename := r.filename
            remoteName := if c.server.localWorkspace then none else r.remoteName
            oldRemotePath := c.oldAbs ++ rest
            newRemotePath := c.newAbs ++ rest } := by
  unfold files folderFiles byRemotePath
  rw [List.mem_filterMap]
  constructor
  · rintro ⟨r, hr, hf⟩
    obtain ⟨hr, hfolder⟩ := List.mem_filter.mp (List.mem_mergeSort.mp hr)
    obtain ⟨path, hpath, rfl⟩ := Option.map_eq_some_iff.mp hf
    simp only [underFolder, hpath, Bool.and_eq_true, decide_eq_true_eq, Option.any_some] at hfolder
    obtain ⟨rest, hrest⟩ := Option.isSome_iff_exists.mp hfolder.2
    obtain ⟨rfl, hne⟩ := below_eq_some hrest
    exact ⟨r, hr, hfolder.1, rest, hne, hpath, by rw [List.drop_left]⟩
  · rintro ⟨r, hr, hnode, rest, hne, hpath, rfl⟩
    refine ⟨r, List.mem_mergeSort.mpr (List.mem_filter.mpr ⟨hr, ?_⟩), ?_⟩
    · have hbelow : below c.oldAbs (c.oldAbs ++ rest) = some rest := below_append c.oldAbs hne
      simp only [underFolder, hnode, hpath, Option.any_some, hbelow, Option.isSome_some,
        decide_true, Bool.and_self]
    · rw [hpath, Option.map_some, List.drop_left]

theorem nodup_files (keyed : db.Keyed) : ((c.files db).map (·.fileId)).Nodup := by
  have hrows : ((byRemotePath (db.files.filter (underFolder c.a.nodeId c.oldAbs))).map
      (·.id)).Nodup :=
    ((List.mergeSort_perm _ _).map _).nodup_iff.mpr
      (keyed.nodup.sublist (List.filter_sublist.map _))
  rw [List.Nodup, List.pairwise_map] at hrows ⊢
  refine List.pairwise_filterMap.mpr (hrows.imp fun {r r'} hne f hf f' hf' heq => hne ?_)
  obtain ⟨path, -, rfl⟩ := Option.map_eq_some_iff.mp hf
  obtain ⟨path', -, rfl⟩ := Option.map_eq_some_iff.mp hf'
  exact heq

theorem eq_of_fileId (keyed : db.Keyed) (hf : f ∈ c.files db) (hg : g ∈ c.files db)
    (h : f.fileId = g.fileId) : f = g :=
  List.inj_on_of_nodup_map (nodup_files keyed) hf hg h

variable {db' : Database}

theorem old_eq_of_new_eq (hf : f ∈ c.files db) (hg : g ∈ c.files db')
    (h : f.newRemotePath = g.newRemotePath) : f.oldRemotePath = g.oldRemotePath := by
  obtain ⟨r, -, -, rest, -, -, hf⟩ := mem_files.mp hf
  obtain ⟨r', -, -, rest', -, -, hg⟩ := mem_files.mp hg
  rw [hf, hg] at h ⊢
  exact congrArg (c.oldAbs ++ ·) (List.append_cancel_left h)

theorem under_old (hf : f ∈ c.files db) : c.under f.oldRemotePath = true := by
  obtain ⟨-, -, -, rest, hne, -, rfl⟩ := mem_files.mp hf
  have hbelow : below c.oldAbs (c.oldAbs ++ rest) = some rest := below_append c.oldAbs hne
  simp only [under, hbelow, Option.isSome_some]

theorem exists_row (hf : f ∈ c.files db) : ∃ r ∈ db.files, r.id = f.fileId ∧
    r.nodeId = c.a.nodeId ∧ r.remotePath = some f.oldRemotePath := by
  obtain ⟨r, hr, hnode, rest, -, hpath, rfl⟩ := mem_files.mp hf
  exact ⟨r, hr, rfl, hnode, hpath⟩

theorem mem_files_of_row (keyed : db.Keyed) (hf : f ∈ c.files db) (hr : r ∈ db.files)
    (hid : r.id = f.fileId) (hr' : r ∈ db'.files) : f ∈ c.files db' := by
  obtain ⟨r₀, hr₀, hnode, rest, hne, hpath, rfl⟩ := mem_files.mp hf
  obtain rfl := keyed.unique hr hr₀ hid
  exact mem_files.mpr ⟨r, hr', hnode, rest, hne, hpath, rfl⟩

section

variable {id : ℕ} {nodeId : String} {path : RemotePath} {set : FileRow → FileRow}

theorem row_of_shadow {s : ℕ} (h : shadowOf db nodeId path id = some s) :
    ∃ r ∈ db.files, r.nodeId = nodeId ∧ r.remotePath = some path ∧ r.id ≠ id ∧ r.id = s := by
  obtain ⟨r, hfind, hid⟩ := Option.map_eq_some_iff.mp h
  have hr := List.find?_some hfind
  simp only [Bool.and_eq_true, decide_eq_true_eq] at hr
  exact ⟨r, List.mem_of_find?_eq_some hfind, hr.1.1, hr.1.2, hr.2, hid⟩

theorem mem_dropShadow_of_mem (keyed : db.Keyed) (hr : r ∈ db.files)
    (hfree : r.id = id ∨ ¬ (r.nodeId = nodeId ∧ r.remotePath = some path)) :
    r ∈ (db.dropShadow (shadowOf db nodeId path id)).files := by
  cases hshadow : shadowOf db nodeId path id with
  | none => exact hr
  | some s =>
    obtain ⟨r', hr', hnode, hpath, hne, hs⟩ := row_of_shadow hshadow
    refine mem_deleteFile_iff.mpr ⟨hr, fun hrs => ?_⟩
    obtain rfl := keyed.unique hr hr' (hrs.trans hs.symm)
    rcases hfree with hid | hother
    · exact hne hid
    · exact hother ⟨hnode, hpath⟩

theorem mem_of_dropShadow {shadow : Option ℕ} (h : r ∈ (db.dropShadow shadow).files) :
    r ∈ db.files := by
  cases shadow with
  | none => exact h
  | some s => exact (mem_deleteFile_iff.mp h).1

theorem write_keeps (keyed : db.Keyed) (hr : r ∈ db.files) (hne : r.id ≠ id)
    (hother : ¬ (r.nodeId = nodeId ∧ r.remotePath = some path)) :
    r ∈ (writeRelocatedRecord db id nodeId path set).files :=
  mem_updateFile_iff.mpr ⟨r, mem_dropShadow_of_mem keyed hr (.inr hother), if_neg hne⟩

theorem write_sets (keyed : db.Keyed) (hr : r ∈ db.files) (hid : r.id = id) :
    set r ∈ (writeRelocatedRecord db id nodeId path set).files :=
  mem_updateFile_iff.mpr ⟨r, mem_dropShadow_of_mem keyed hr (.inl hid), if_pos hid⟩

theorem mem_of_write (h : r ∈ (writeRelocatedRecord db id nodeId path set).files) :
    (r ∈ db.files ∧ r.id ≠ id) ∨ ∃ r₀ ∈ db.files, r₀.id = id ∧ r = set r₀ := by
  obtain ⟨r₀, hr₀, hset⟩ := mem_updateFile_iff.mp h
  split at hset
  next hid => exact .inr ⟨r₀, mem_of_dropShadow hr₀, hid, hset.symm⟩
  next hid =>
    subst hset
    exact .inl ⟨mem_of_dropShadow hr₀, hid⟩

end

variable (c db) in
theorem files_step (f : FolderFile) : (c.step db f).1.files =
    if c.canRename f then (writeRelocatedRecord db f.fileId c.a.nodeId f.newRemotePath fun r =>
        { r with remotePath := some f.newRemotePath }).files
    else db.files := by
  have hfinish : ∀ db'' : Database,
      (finishFolderFile c.server (c.world f) db'' c.a.nodeId f).1.files =
        (writeRelocatedRecord db'' f.fileId c.a.nodeId f.newRemotePath fun r =>
          { r with remotePath := some f.newRemotePath }).files := by
    intro db''
    unfold finishFolderFile
    split
    simp only
    split
    · rfl
    · rfl
  unfold step renameFolderFile canRename
  cases hlocal : c.server.localWorkspace with
  | true => simpa using hfinish db
  | false =>
    simp only [Bool.false_eq_true, if_false, Bool.false_or]
    cases f.remoteName with
    | none => simp
    | some name =>
      have hworld : (c.world f).relocation = (c.worlds f.fileId).relocation := rfl
      obtain ⟨result, hremote⟩ : ∃ result, relocateRemoteObject
          ⟨name, f.oldRemotePath, name, f.newRemotePath, false⟩
            (c.worlds f.fileId).relocation = result := ⟨_, rfl⟩
      simp only [Option.any_some, enqueuePendingOp, hworld, hremote]
      cases result with
      | error failed => rfl
      | ok status =>
        simp only [Except.toOption, Option.isSome_some, if_true]
        exact (hfinish _).trans (writeRelocatedRecord_files rfl)

theorem step_refused (h : c.canRename f = false) : (c.step db f).2 = .ok .repairNeeded := by
  unfold canRename at h
  obtain ⟨hlocal, hany⟩ := Bool.or_eq_false_iff.mp h
  unfold step renameFolderFile
  rw [hlocal]
  simp only [Bool.false_eq_true, if_false]
  cases hname : f.remoteName with
  | none => rfl
  | some name =>
    rw [hname, Option.any_some] at hany
    have hworld : (c.world f).relocation = (c.worlds f.fileId).relocation := rfl
    simp only [hworld]
    cases hremote : relocateRemoteObject ⟨name, f.oldRemotePath, name, f.newRemotePath, false⟩
        (c.worlds f.fileId).relocation with
    | error failed => rfl
    | ok status =>
      rw [hremote] at hany
      cases hany

/-- The state of the loop after the files `taken`, from the rows `db`. -/
structure Looped (c : FolderRename) (db : Database) (taken : List FolderFile) (db' : Database) :
    Prop where
  keyed : db'.Keyed
  kept : ∀ r ∈ db.files, (∀ f ∈ taken, c.canRename f = true → r.id ≠ f.fileId ∧
    ¬ (r.nodeId = c.a.nodeId ∧ r.remotePath = some f.newRemotePath)) → r ∈ db'.files
  moved : ∀ f ∈ taken, c.canRename f = true → ∃ r ∈ db'.files, r.id = f.fileId ∧
    r.nodeId = c.a.nodeId ∧ r.remotePath = some f.newRemotePath
  only : ∀ r ∈ db'.files, (r ∈ db.files ∧ ∀ f ∈ taken, c.canRename f = true → r.id ≠ f.fileId) ∨
    ∃ f ∈ taken, c.canRename f = true ∧ r.id = f.fileId ∧ r.remotePath = some f.newRemotePath

def Fresh (c : FolderRename) (db : Database) (taken : List FolderFile) : Prop :=
  ∀ f ∈ taken, c.canRename f = true → ∀ g ∈ c.files db, g.oldRemotePath = f.newRemotePath → g = f

def DistinctPaths (c : FolderRename) (db : Database) : Prop :=
  ∀ f ∈ c.files db, ∀ g ∈ c.files db, f.oldRemotePath = g.oldRemotePath → f = g

section

variable {taken : List FolderFile} {db' : Database}

theorem looped_refused (h : Looped c db taken db') (hcan : c.canRename f = false) :
    Looped c db (taken ++ [f]) (c.step db' f).1 := by
  have hfiles : (c.step db' f).1.files = db'.files := by
    rw [files_step, hcan]
    rfl
  have htaken : ∀ g, g ∈ taken ++ [f] → c.canRename g = true → g ∈ taken := by
    intro g hg hgcan
    rcases List.mem_append.mp hg with hg | hg
    · exact hg
    · rw [List.mem_singleton.mp hg, hcan] at hgcan
      cases hgcan
  refine ⟨(grows_renameFolderFile f).keyed h.keyed, fun r hr hfree => ?_, fun g hg hgcan => ?_,
    fun r hr => ?_⟩
  · rw [hfiles]
    exact h.kept r hr fun g hg => hfree g (List.mem_append_left _ hg)
  · rw [hfiles]
    exact h.moved g (htaken g hg hgcan) hgcan
  · rw [hfiles] at hr
    rcases h.only r hr with ⟨hr, hother⟩ | ⟨g, hg, hrenamed⟩
    · exact .inl ⟨hr, fun g hg hgcan => hother g (htaken g hg hgcan) hgcan⟩
    · exact .inr ⟨g, List.mem_append_left _ hg, hrenamed⟩

theorem looped_renamed (keyed : db.Keyed) (distinct : DistinctPaths c db)
    (h : Looped c db taken db') (htaken : ∀ g ∈ taken, g ∈ c.files db) (hf : f ∈ c.files db)
    (hnew : f ∉ taken) (fresh : Fresh c db taken) (hcan : c.canRename f = true) :
    Looped c db (taken ++ [f]) (c.step db' f).1 := by
  have hfiles := files_step c db' f
  rw [hcan, if_pos rfl] at hfiles
  obtain ⟨r₀, hr₀, hid, hnode, hpath⟩ := exists_row hf
  have hrow : r₀ ∈ db'.files := by
    refine h.kept r₀ hr₀ fun g hg hgcan => ⟨fun heq => hnew ?_, fun ⟨_, heq⟩ => hnew ?_⟩
    · rw [eq_of_fileId keyed hf (htaken g hg) (hid.symm.trans heq)]
      exact hg
    · rw [fresh g hg hgcan f hf (Option.some.inj (hpath.symm.trans heq))]
      exact hg
  refine ⟨(grows_renameFolderFile f).keyed h.keyed, fun r hr hfree => ?_, fun g hg hgcan => ?_,
    fun r hr => ?_⟩
  · rw [hfiles]
    have hf := hfree f (by simp) hcan
    have hrow := h.kept r hr fun g hg => hfree g (List.mem_append_left _ hg)
    exact write_keeps h.keyed hrow hf.1 hf.2
  · rw [hfiles]
    rcases List.mem_append.mp hg with hg | hg
    · obtain ⟨r, hr, hrid, hrnode, hrpath⟩ := h.moved g hg hgcan
      refine ⟨r, write_keeps h.keyed hr (fun heq => hnew ?_) (fun ⟨_, heq⟩ => hnew ?_), hrid,
        hrnode, hrpath⟩
      · rw [eq_of_fileId keyed hf (htaken g hg) (heq.symm.trans hrid)]
        exact hg
      · have hsame := old_eq_of_new_eq hf (htaken g hg) (Option.some.inj (heq.symm.trans hrpath))
        rw [distinct f hf g (htaken g hg) hsame]
        exact hg
    · rw [List.mem_singleton.mp hg]
      exact ⟨_, write_sets h.keyed hrow hid, hid, hnode, rfl⟩
  · rw [hfiles] at hr
    rcases mem_of_write hr with ⟨hr, hne⟩ | ⟨r', hr', hid', rfl⟩
    · rcases h.only r hr with ⟨hr, hother⟩ | ⟨g, hg, hrenamed⟩
      · refine .inl ⟨hr, fun g hg hgcan => ?_⟩
        rcases List.mem_append.mp hg with hg | hg
        · exact hother g hg hgcan
        · rw [List.mem_singleton.mp hg]
          exact hne
      · exact .inr ⟨g, List.mem_append_left _ hg, hrenamed⟩
    · exact .inr ⟨f, by simp, hcan, hid', rfl⟩

theorem looped_process (keyed : db.Keyed) (distinct : DistinctPaths c db) :
    ∀ (rest taken : List FolderFile) (db' : Database), Looped c db taken db' →
      (∀ g ∈ taken ++ rest, g ∈ c.files db) → (taken ++ rest).Nodup → Fresh c db (taken ++ rest) →
        Looped c db (taken ++ rest) (c.process db' rest).1 := by
  intro rest
  induction rest with
  | nil =>
    intro taken db' h _ _ _
    rw [List.append_nil]
    exact h
  | cons f rest ih =>
    intro taken db' h hfiles hnodup fresh
    have hshift : taken ++ f :: rest = (taken ++ [f]) ++ rest := by simp
    have hnew : f ∉ taken := fun hmem =>
      (List.nodup_append.mp hnodup).2.2 f hmem f List.mem_cons_self rfl
    have hstep : Looped c db (taken ++ [f]) (c.step db' f).1 := by
      cases hcan : c.canRename f with
      | false => exact looped_refused h hcan
      | true =>
        exact looped_renamed keyed distinct h
          (fun g hg => hfiles g (List.mem_append_left _ hg)) (hfiles f (by simp)) hnew
          (fun g hg => fresh g (List.mem_append_left _ hg)) hcan
    rw [hshift] at hfiles hnodup fresh ⊢
    exact ih _ _ hstep hfiles hnodup fresh

theorem looped_call (keyed : db.Keyed) (distinct : DistinctPaths c db)
    (fresh : Fresh c db (c.toProcess db)) : Looped c db (c.toProcess db) (c.call db) := by
  have hempty : Looped c db [] db :=
    ⟨keyed, fun _ hr _ => hr, fun _ hf => absurd hf List.not_mem_nil,
      fun r hr => .inl ⟨hr, fun _ hf => absurd hf List.not_mem_nil⟩⟩
  have htaken : ∀ g ∈ c.toProcess db, g ∈ c.files db := fun g hg => List.mem_of_mem_take hg
  have hnodup : (c.toProcess db).Nodup :=
    (List.Nodup.of_map _ (nodup_files keyed)).sublist (List.take_sublist _ _)
  have h := looped_process keyed distinct (c.toProcess db) [] db hempty htaken hnodup fresh
  exact ⟨⟨h.keyed.nodup, h.keyed.lt⟩, h.kept, h.moved, h.only⟩

end

section

variable {k : ℕ}

theorem results_of_mem (rest : List FolderFile) (hf : f ∈ rest) (hcan : c.canRename f = false) :
    (f, .ok .repairNeeded) ∈ (c.process db rest).2 := by
  induction rest generalizing db with
  | nil => cases hf
  | cons g rest ih =>
    rcases List.mem_cons.mp hf with rfl | hf
    · refine List.mem_cons.mpr (.inl ?_)
      rw [step_refused hcan]
    · exact List.mem_cons_of_mem _ (ih hf)

theorem mem_files_call (keyed : db.Keyed) (h : Looped c db (c.toProcess db) (c.call db))
    (leaves : ∀ f ∈ c.toProcess db, c.canRename f = true → c.under f.newRemotePath = false) :
    g ∈ c.files (c.call db) ↔ g ∈ c.files db ∧ ¬ (g ∈ c.toProcess db ∧ c.canRename g = true) := by
  constructor
  · intro hg
    obtain ⟨r, hr, hid, hnode, hpath⟩ := exists_row hg
    rcases h.only r hr with ⟨hrow, hother⟩ | ⟨f, hf, hcan, hrid, hnew⟩
    · exact ⟨mem_files_of_row h.keyed hg hr hid hrow, fun ⟨hg, hcan⟩ => hother g hg hcan hid⟩
    · have hunder := under_old hg
      rw [Option.some.inj (hpath.symm.trans hnew), leaves f hf hcan] at hunder
      cases hunder
  · rintro ⟨hg, hnot⟩
    obtain ⟨r, hr, hid, hnode, hpath⟩ := exists_row hg
    refine mem_files_of_row keyed hg hr hid (h.kept r hr fun f hf hcan => ⟨fun heq => ?_, ?_⟩)
    · rw [eq_of_fileId keyed hg (List.mem_of_mem_take hf) (hid.symm.trans heq)] at hnot
      exact hnot ⟨hf, hcan⟩
    · rintro ⟨-, heq⟩
      have hunder := under_old hg
      rw [Option.some.inj (hpath.symm.trans heq), leaves f hf hcan] at hunder
      cases hunder

theorem length_files_call (keyed : db.Keyed) (h : Looped c db (c.toProcess db) (c.call db))
    (leaves : ∀ f ∈ c.toProcess db, c.canRename f = true → c.under f.newRemotePath = false)
    (renames : ∃ f ∈ c.toProcess db, c.canRename f = true) :
    (c.files (c.call db)).length < (c.files db).length := by
  obtain ⟨f, hf, hcan⟩ := renames
  have hmem : f ∈ c.files db := List.mem_of_mem_take hf
  have hsubset : f :: c.files (c.call db) ⊆ c.files db := by
    intro g hg
    rcases List.mem_cons.mp hg with rfl | hg
    · exact hmem
    · exact ((mem_files_call keyed h leaves).mp hg).1
  have hnodup : (f :: c.files (c.call db)).Nodup := by
    refine List.nodup_cons.mpr ⟨fun hg => ?_, List.Nodup.of_map _ (nodup_files h.keyed)⟩
    exact ((mem_files_call keyed h leaves).mp hg).2 ⟨hf, hcan⟩
  have hle := (List.subperm_of_subset hnodup hsubset).length_le
  rw [List.length_cons] at hle
  omega

theorem toProcess_eq (h : (c.files db).length ≤ c.a.limit) : c.toProcess db = c.files db :=
  List.take_of_length_le h

/-- The run ends with its last call. A record outside the folder is left alone, if no file of
the folder comes to its path. -/
structure Ends (c : FolderRename) (db : Database) (k : ℕ) : Prop extends Completed c db k where
  outside : ∀ r ∈ db.files, ∀ path, r.remotePath = some path → c.under path = false →
    (∀ f ∈ c.files db, f.newRemotePath ≠ path) → r ∈ (c.after (k + 1) db).files

theorem outside_call (keyed : db.Keyed) (h : Looped c db (c.toProcess db) (c.call db))
    {path : RemotePath} (hr : r ∈ db.files) (hpath : r.remotePath = some path)
    (hunder : c.under path = false) (hfree : ∀ f ∈ c.files db, f.newRemotePath ≠ path) :
    r ∈ (c.call db).files := by
  refine h.kept r hr fun f hf _ => ⟨fun heq => ?_, fun ⟨_, heq⟩ => ?_⟩
  · obtain ⟨r', hr', hid, -, hpath'⟩ := exists_row (List.mem_of_mem_take hf : f ∈ c.files db)
    obtain rfl := keyed.unique hr hr' (heq.trans hid.symm)
    have hold := under_old (List.mem_of_mem_take hf : f ∈ c.files db)
    rw [Option.some.inj (hpath'.symm.trans hpath), hunder] at hold
    cases hold
  · exact hfree f (List.mem_of_mem_take hf) (Option.some.inj (heq.symm.trans hpath))

theorem ends_last (keyed : db.Keyed) (distinct : DistinctPaths c db) (h : c.Proceeds db)
    (hall : (c.files db).length ≤ c.a.limit) : Ends c db 0 := by
  have hloop := looped_call keyed distinct h.fresh
  have htaken := toProcess_eq hall
  refine ⟨⟨?_, fun j hj g hg => ?_, fun f hf hcan => ⟨⟨0, le_refl 0, ?_, ?_⟩, ?_⟩,
    fun f hf hcan => ⟨?_, ?_⟩, fun f hf hcan => ?_⟩, ?_⟩
  · show c.remaining db = 0
    rw [remaining, htaken]
    omega
  · obtain rfl : j = 0 := by omega
    exact hg
  · show f ∈ c.toProcess db
    rw [htaken]
    exact hf
  · intro j hj _
    omega
  · exact hloop.moved f (htaken ▸ hf) hcan
  · exact results_of_mem _ (htaken ▸ hf) hcan
  · obtain ⟨r, hr, hid, hnode, hpath⟩ := exists_row hf
    refine ⟨r, hloop.kept r hr fun g hg hgcan => ⟨fun heq => ?_, fun ⟨_, heq⟩ => ?_⟩, hid, hnode,
      hpath⟩
    · rw [eq_of_fileId keyed hf (List.mem_of_mem_take hg) (hid.symm.trans heq), hgcan] at hcan
      cases hcan
    · rw [h.fresh g hg hgcan f hf (Option.some.inj (hpath.symm.trans heq)), hgcan] at hcan
      cases hcan
  · exact h.tracked f (htaken ▸ hf) hcan
  · intro r hr path hpath hunder hfree
    exact outside_call keyed hloop hr hpath hunder hfree

theorem ends_next (keyed : db.Keyed) (distinct : DistinctPaths c db) (h : c.Proceeds db)
    (hmore : c.a.limit < (c.files db).length) (hrest : Ends c (c.call db) k) :
    Ends c db (k + 1) := by
  have hloop := looped_call keyed distinct h.fresh
  have hcall := fun g => mem_files_call (g := g) keyed hloop (h.leaves hmore)
  have hwithin : ∀ g, g ∈ c.files (c.call db) → g ∈ c.files db := fun g hg => ((hcall g).mp hg).1
  have hlater : ∀ j, j ≤ k + 1 → j ≠ 0 → ∃ i ≤ k, j = i + 1 := fun j hj hne =>
    ⟨j - 1, by omega, by omega⟩
  refine ⟨⟨hrest.done, fun j hj g hg => ?_, fun f hf hcan => ?_, fun f hf hcan => ?_,
    fun f hf hcan => ?_⟩, ?_⟩
  · cases j with
    | zero => exact hg
    | succ i => exact hwithin g (hrest.within i (by omega) g hg)
  · by_cases htaken : f ∈ c.toProcess db
    · have hgone : f ∉ c.files (c.call db) := fun hg => ((hcall f).mp hg).2 ⟨htaken, hcan⟩
      refine ⟨⟨0, Nat.zero_le _, htaken, fun j hj hmem => ?_⟩, ?_⟩
      · apply Classical.byContradiction
        intro hne
        obtain ⟨i, hi, rfl⟩ := hlater j hj hne
        exact hgone (hrest.within i hi f (List.mem_of_mem_take hmem))
      · obtain ⟨r, hr, hid, hnode, hpath⟩ := hloop.moved f htaken hcan
        refine ⟨r, hrest.outside r hr _ hpath (h.leaves hmore f htaken hcan) ?_, hid, hnode, hpath⟩
        intro g hg heq
        have hsame := distinct g (hwithin g hg) f hf (old_eq_of_new_eq (hwithin g hg) hf heq)
        exact hgone (hsame ▸ hg)
    · obtain ⟨⟨j, hj, hmem, honce⟩, hrow⟩ := hrest.renamed f ((hcall f).mpr
        ⟨hf, fun hboth => htaken hboth.1⟩) hcan
      refine ⟨⟨j + 1, by omega, hmem, fun j' hj' hmem' => ?_⟩, hrow⟩
      have hne : j' ≠ 0 := by
        rintro rfl
        exact htaken hmem'
      obtain ⟨i, hi, rfl⟩ := hlater j' hj' hne
      rw [honce i hi hmem']
  · refine hrest.reported f ((hcall f).mpr ⟨hf, fun hboth => ?_⟩) hcan
    rw [hcan] at hboth
    cases hboth.2
  · by_cases htaken : f ∈ c.toProcess db
    · exact h.tracked f htaken hcan
    · exact hrest.tracked f ((hcall f).mpr ⟨hf, fun hboth => htaken hboth.1⟩) hcan
  · intro r hr path hpath hunder hfree
    exact hrest.outside r (outside_call keyed hloop hr hpath hunder hfree) path hpath hunder
      fun g hg => hfree g (hwithin g hg)

def Proceeding (c : FolderRename) (db : Database) : Prop :=
  ∀ k, (∀ j < k, c.remaining (c.after j db) ≠ 0) → c.Proceeds (c.after k db)

theorem exists_ends (n : ℕ) (hn : (c.files db).length ≤ n) (keyed : db.Keyed)
    (distinct : DistinctPaths c db) (h : c.Proceeding db) : ∃ k, Ends c db k := by
  induction n generalizing db with
  | zero =>
    have hfirst : c.Proceeds db := h 0 fun _ hj => by cases hj
    exact ⟨0, ends_last keyed distinct hfirst (by omega)⟩
  | succ n ih =>
    have hfirst : c.Proceeds db := h 0 fun _ hj => by cases hj
    by_cases hall : (c.files db).length ≤ c.a.limit
    · exact ⟨0, ends_last keyed distinct hfirst hall⟩
    · have hmore : c.a.limit < (c.files db).length := by omega
      have hloop := looped_call keyed distinct hfirst.fresh
      have hshort := length_files_call keyed hloop (hfirst.leaves hmore)
        (hfirst.renames.resolve_left hall)
      have hwithin : ∀ g, g ∈ c.files (c.call db) → g ∈ c.files db := fun g hg =>
        ((mem_files_call keyed hloop (hfirst.leaves hmore)).mp hg).1
      have hnext : c.Proceeding (c.call db) := fun k hk => h (k + 1) fun j hj => by
        cases j with
        | zero =>
          show c.remaining db ≠ 0
          unfold remaining toProcess
          rw [List.length_take]
          omega
        | succ i => exact hk i (by omega)
      obtain ⟨k, hk⟩ := ih (by omega) hloop.keyed (fun f hf g hg heq =>
        distinct f (hwithin f hf) g (hwithin g hg) heq) hnext
      exact ⟨k + 1, ends_next keyed distinct hfirst hmore hk⟩

theorem distinctPaths_of_unique (unique : UniquePaths db) : DistinctPaths c db := by
  intro f hf g hg heq
  obtain ⟨r, hr, hnode, rest, -, hpath, rfl⟩ := mem_files.mp hf
  obtain ⟨r', hr', hnode', rest', -, hpath', rfl⟩ := mem_files.mp hg
  obtain rfl := List.append_cancel_left heq
  obtain rfl := unique r hr r' hr' (hnode.trans hnode'.symm) _ hpath hpath'
  rfl

theorem files_process_of_refused (rest : List FolderFile)
    (h : ∀ f ∈ rest, c.canRename f = false) : (c.process db rest).1.files = db.files := by
  induction rest generalizing db with
  | nil => rfl
  | cons f rest ih =>
    obtain ⟨hf, hrest⟩ := List.forall_mem_cons.mp h
    have hstep : (c.step db f).1.files = db.files := by
      rw [files_step, hf]
      rfl
    exact (ih hrest).trans hstep

theorem files_congr (h : db'.files = db.files) : c.files db' = c.files db := by
  unfold files folderFiles
  rw [h]

variable (h : ∀ f ∈ c.toProcess db, c.canRename f = false)

include h

theorem remaining_of_refused (k : ℕ) : c.remaining (c.after k db) = c.remaining db := by
  induction k generalizing db with
  | zero => rfl
  | succ k ih =>
    have hfiles : c.files (c.call db) = c.files db :=
      files_congr (files_process_of_refused (c.toProcess db) h)
    have htaken : c.toProcess (c.call db) = c.toProcess db := by
      rw [toProcess, hfiles]
      rfl
    have hremaining : c.remaining (c.call db) = c.remaining db := by
      rw [remaining, hfiles, htaken]
      rfl
    exact (ih (htaken ▸ h)).trans hremaining

theorem not_completed_of_refused (hmore : c.remaining db ≠ 0) : ¬ ∃ k, Completed c db k := by
  rintro ⟨k, hk⟩
  rw [← remaining_of_refused h k] at hmore
  exact hmore hk.done

end

/-- The object of the file 0 stands at both paths: its remote step always fails. -/
def occupied (fileId : ℕ) : World :=
  if fileId = 0 then
    { sampleWorld with relocation :=
        { sampleWorld.relocation with atTo := .ok (some ⟨none, false, none⟩) } }
  else sampleWorld

def outputsByOne (worlds : ℕ → World) (limit : ℕ) (positive : 0 < limit) : FolderRename where
  server := sampleServer
  worlds := worlds
  now := 1000
  a := { nodeId := "node", oldPrefix := ["wip"], newPrefix := ["outputs"], dryRun := false
         limit := limit }
  info := ⟨some "org", "project", "key"⟩
  nodeRoot := ["org", "projects", "key"]
  applied := rfl
  positive := positive
  resolved := rfl
  rooted := by decide +kernel
  oldSafe := by
    show assertSafeRelativePath "renameFolder.oldPrefix" ["wip"] = .ok ()
    decide +kernel
  newSafe := by
    show assertSafeRelativePath "renameFolder.newPrefix" ["outputs"] = .ok ()
    decide +kernel

def twoPushedFiles : Database :=
  ⟨[pushedFile "a.md", { pushedFile "b.md" with id := 1 }], [], [], 2⟩

theorem byRemotePath_twoPushedFiles : byRemotePath (twoPushedFiles.files.filter
    (underFolder "node" ["org", "projects", "key", "wip"])) = twoPushedFiles.files := by
  have hall : twoPushedFiles.files.filter (underFolder "node" ["org", "projects", "key", "wip"]) =
      twoPushedFiles.files := by decide +kernel
  rw [hall]
  exact List.mergeSort_of_pairwise (by decide +kernel)

end FolderRename

end Portuni.FileOps
