import Portuni.DriveFolders.Work

/-!
Over every run of changes at Drive, resolutions and batches: with no change outstanding, the
adapter resolves every folder to the path that its parent chain gives, as long as no entry has been
written while the cache still held what rested on the folder's missing one.
-/

namespace Portuni.DriveFolders

open Function Library.Runs

variable {driveRoot : FileId} {fold : Char → Char} {s s' s₀ : State} {a : Action}
  {acts : List Action}

def State.Dirty (s : State) (id : FileId) : Prop := id ∈ s.feed ∨ id ∈ s.page.map Prod.fst

def State.view (s : State) : View := ⟨s.tree, s.Dirty, s.cache.entry⟩

def DriveAllows (s : State) : Action → Prop
  | .edit id file _ => Forest (update s.tree id file)
  | _ => True

/-- The reported folder can be worked in rightly, and then its parent's path be resolved. -/
def WorkFree (driveRoot : FileId) (fold : Char → Char) (s : State) (id : FileId)
    (file : Option DriveFile) (page : List (FileId × Option DriveFile)) : Prop :=
  let reading : View := ⟨s.tree, s.Dirty, (s.cache.get id).2.entry⟩
  let after := { s with cache := workIn driveRoot fold s.tree id file s.cache, page }
  match file with
  | none => ForgetFree driveRoot reading id
  | some f =>
    (if f.trashed then ForgetFree driveRoot reading id
      else RememberFree driveRoot reading id f) ∧ ParentFree driveRoot after.view f

def Meets (driveRoot : FileId) (fold : Char → Char) (s : State) (a : Action) : Prop :=
  DriveAllows s a ∧
    match a with
    | .lookup id => Resolvable driveRoot s.view id
    | .work => ∀ id file page, s.page = (id, file) :: page → WorkFree driveRoot fold s id file page
    | _ => True

structure Start (s : State) : Prop where
  forest : Forest s.tree
  memo : s.cache.memo = []
  rows : ∀ rows, s.cache.store = some rows → ∀ id, rows id = none
  page : s.page = []

structure Settled (s : State) : Prop where
  feed : s.feed = []
  page : s.page = []

/-- Every folder is resolved to the path that its parent chain gives, and to none where the chain
gives none. -/
def Coherent (driveRoot : FileId) (s : State) : Prop :=
  ∀ id, InDepth driveRoot s.view maxDepth id → ∀ p,
    (folderPathOf driveRoot s.tree maxDepth id s.cache).1 = some p ↔ Reaches driveRoot s.tree id p

section

structure Kept (driveRoot : FileId) (s : State) : Prop where
  forest : Forest s.tree
  sound : Sound s.cache
  consistent : Consistent driveRoot s.view
  /-- A listed change is as the folder is, unless the folder has changed again. -/
  current : ∀ id file, (id, file) ∈ s.page → id ∈ s.feed ∨ s.tree id = file
  listed : ∀ id, id ∈ s.page.map Prod.fst → id ∈ s.listed

theorem consistent_of_empty {v : View} (h : ∀ id, v.entry id = none) : Consistent driveRoot v := by
  constructor
  · intro id p _ _ hp
    rw [h] at hp
    cases hp
  · intro id _ _ hnote
    rw [h] at hnote
    cases hnote

theorem Start.kept (h : Start s) : Kept driveRoot s := by
  have hentry : ∀ id, s.cache.entry id = none := by
    intro id
    unfold FolderPathCache.entry
    rw [h.memo]
    cases hstore : s.cache.store with
    | none => rfl
    | some rows => simp [h.rows rows hstore id]
  refine ⟨h.forest, ⟨by simp [h.memo], fun id v p hv => ?_⟩, consistent_of_empty hentry, ?_, ?_⟩
  · rw [h.memo] at hv
    cases hv
  · simp [h.page]
  · simp [h.page]

variable {page : List (FileId × Option DriveFile)} {changes : List RemoteChange}

variable (h : Kept driveRoot s)

include h

theorem Kept.reported {feed listed : List FileId}
    (hdirty : ∀ id, s.Dirty id → id ∈ feed ∨ id ∈ page.map Prod.fst)
    (hcurrent : ∀ id file, (id, file) ∈ page → id ∈ feed ∨ s.tree id = file)
    (hlisted : ∀ id, id ∈ page.map Prod.fst → id ∈ listed) :
    Kept driveRoot { s with feed, page, listed, changes } :=
  ⟨h.forest, h.sound, h.consistent.edit (fun _ _ => rfl) hdirty, hcurrent, hlisted⟩

theorem Kept.fewer {cache : FolderPathCache} (hsound : Sound cache)
    (hfewer : Fewer cache.entry s.cache.entry) : Kept driveRoot { s with cache } :=
  ⟨h.forest, hsound, h.consistent.fewer hfewer, h.current, h.listed⟩

variable {id : FileId} {file : Option DriveFile}

theorem Kept.edit {id : FileId} {file : Option DriveFile} {merged : Bool}
    (hforest : Forest (update s.tree id file)) :
    Kept driveRoot { s with
      tree := update s.tree id file
      feed := (if merged then s.feed.filter (· ≠ id) else s.feed) ++ [id] } := by
  have hfeed : ∀ x, x ∈ s.feed → x ∈ (if merged then s.feed.filter (· ≠ id) else s.feed) ++ [id] := by
    intro x hx
    by_cases hxid : x = id
    · simp [hxid]
    · refine List.mem_append_left _ ?_
      split
      · exact List.mem_filter.mpr ⟨hx, by simpa using hxid⟩
      · exact hx
  refine ⟨hforest, h.sound, h.consistent.edit ?_ ?_, ?_, h.listed⟩
  · intro x hclean
    refine update_of_ne ?_ _ _
    rintro rfl
    exact hclean (.inl (by simp))
  · exact fun x hx => hx.imp_left (hfeed x)
  · intro x snapshot hx
    by_cases hxid : x = id
    · exact .inl (by simp [hxid])
    · have hsame : update s.tree id file x = s.tree x := update_of_ne hxid _ _
      exact (h.current x snapshot hx).imp (hfeed x) fun heq => hsame.trans heq

theorem Kept.lookup (hfree : Resolvable driveRoot s.view id) :
    Kept driveRoot { s with cache := (folderPathOf driveRoot s.tree maxDepth id s.cache).2 } := by
  obtain ⟨entry', hfill, hfewer, hsound⟩ :=
    @folderPathOf_fill driveRoot s.tree _ h.forest maxDepth id h.sound
  have hconsistent := (hfill.consistent h.forest h.consistent hfree.free hfree.depth).1
  exact ⟨h.forest, hsound, hconsistent.fewer hfewer, h.current, h.listed⟩

theorem workIn_consistent (hpage : s.page = (id, file) :: page)
    (hfree : WorkFree driveRoot fold s id file page) :
    Sound (workIn driveRoot fold s.tree id file s.cache) ∧ Consistent driveRoot
      ⟨s.tree, { s with page }.Dirty, (workIn driveRoot fold s.tree id file s.cache).entry⟩ := by
  have hdirty : ∀ x, x ≠ id → ({ s with page }.Dirty x ↔ s.Dirty x) := by
    intro x hx
    simp [State.Dirty, hpage, hx]
  have hcurrent : ¬{ s with page }.Dirty id → s.tree id = file := by
    intro hclean
    rcases h.current id file (by simp [hpage]) with hfeed | hsame
    · exact absurd (.inl hfeed) hclean
    · exact hsame
  cases file with
  | none => exact forgetFolder_consistent h.sound h.consistent hdirty hfree
  | some f =>
    have hown := hfree.1
    unfold workIn
    dsimp only
    split
    next htrashed =>
      rw [if_pos htrashed] at hown
      exact forgetFolder_consistent h.sound h.consistent hdirty hown
    next htrashed =>
      rw [if_neg htrashed] at hown
      exact rememberFolder_consistent h.sound h.forest h.consistent hdirty hcurrent hown

theorem Kept.work (hpage : s.page = (id, file) :: page)
    (hfree : WorkFree driveRoot fold s id file page) :
    Kept driveRoot { s with
      cache := (toRemoteChange driveRoot fold s.tree id file s.cache).2, page, changes } := by
  obtain ⟨hsound, hconsistent⟩ := workIn_consistent h hpage hfree
  have hcurrent : ∀ x snapshot, (x, snapshot) ∈ page → x ∈ s.feed ∨ s.tree x = snapshot :=
    fun x snapshot hx => h.current x snapshot (by rw [hpage]; exact List.mem_cons_of_mem _ hx)
  have hlisted : ∀ x, x ∈ page.map Prod.fst → x ∈ s.listed :=
    fun x hx => h.listed x (by rw [hpage]; exact List.mem_cons_of_mem _ hx)
  cases file with
  | none => exact ⟨h.forest, hsound, hconsistent, hcurrent, hlisted⟩
  | some f =>
    obtain ⟨entry', hfill, hfewer, hsound'⟩ :=
      parentPathOf_spec hsound h.forest hconsistent hfree.2
    have hcache : (toRemoteChange driveRoot fold s.tree id (some f) s.cache).2 =
        (parentPathOf driveRoot s.tree f (workIn driveRoot fold s.tree id (some f) s.cache)).2 := by
      unfold toRemoteChange pathFor
      dsimp only
      split
      all_goals rfl
    rw [hcache]
    exact ⟨h.forest, hsound', hfill.consistent.fewer hfewer, hcurrent, hlisted⟩

theorem Kept.abort : Kept driveRoot s.abort := by
  refine h.reported (fun id hid => .inl ?_) (by simp) (by simp)
  rcases hid with hfeed | hpage
  · exact List.mem_append_right _ hfeed
  · exact List.mem_append_left _ (h.listed id hpage)

theorem kept_step (hmeets : Meets driveRoot fold s a) (hstep : step driveRoot fold s a = some s') :
    Kept driveRoot s' := by
  cases a with
  | edit id file merged =>
    cases hstep
    exact h.edit hmeets.1
  | lookup id =>
    cases hstep
    exact h.lookup hmeets.2
  | list count =>
    simp only [step] at hstep
    split at hstep
    next hpage =>
      cases hstep
      have hids : ((s.feed.take count).map fun id => (id, s.tree id)).map Prod.fst =
          s.feed.take count := by
        rw [List.map_map]
        exact List.map_id _
      refine h.reported ?_ ?_ ?_
      · rintro id (hid | hid)
        · rw [← List.take_append_drop count s.feed, List.mem_append] at hid
          rw [hids]
          exact hid.symm
        · simp [hpage] at hid
      · intro id file hmem
        obtain ⟨x, -, heq⟩ := List.mem_map.mp hmem
        obtain ⟨rfl, rfl⟩ := Prod.mk.inj heq
        exact .inr rfl
      · intro id hid
        rw [hids] at hid
        exact List.mem_append_right _ hid
    next => cases hstep
  | work =>
    simp only [step] at hstep
    split at hstep
    next => cases hstep
    next id file page hpage =>
      cases hstep
      exact h.work hpage (hmeets.2 id file page hpage)
  | finish =>
    simp only [step] at hstep
    split at hstep
    next hpage =>
      cases hstep
      exact h.reported (fun _ hid => hid) h.current (by simp [hpage])
    next => cases hstep
  | abort =>
    cases hstep
    exact h.abort
  | restart =>
    cases hstep
    obtain ⟨hsound, hfewer⟩ := h.sound.drop_memo (List.nil_sublist _)
    exact h.abort.fewer hsound hfewer
  | reset =>
    cases hstep
    refine ⟨h.forest, sound_clear _, consistent_of_empty fun id => ?_, by simp, by simp⟩
    show s.cache.clear.entry id = none
    rw [entry_clear]
  | invalidatePrefix path =>
    cases hstep
    obtain ⟨hsound, hfewer, -⟩ := invalidateSubtree_spec h.sound fold path
    exact h.fewer hsound hfewer

end

section

variable {tree : Tree} {id : FileId} {v : View} {p : String}

theorem Reaches.unique {q : String} (h : Reaches driveRoot tree id p)
    (h' : Reaches driveRoot tree id q) : p = q := by
  induction h generalizing q with
  | root =>
    cases h' with
    | root => rfl
    | step hroot => exact absurd rfl hroot
  | step hroot hup _ ih =>
    cases h' with
    | root => exact absurd rfl hroot
    | step _ hup' habove =>
      rw [hup] at hup'
      cases hup'
      rw [ih habove]

theorem Climb.reaches {names : List Name} {top : FileId} {base : String}
    (h : Climb driveRoot v id names top) (htop : Reaches driveRoot v.tree top base) :
    Reaches driveRoot v.tree id (joinAll base names) := by
  induction h with
  | refl id => exact htop
  | step hroot _ _ hup _ ih =>
    rw [joinAll_concat]
    exact .step hroot hup (ih htop)

theorem Consistent.reaches (h : Consistent driveRoot v) (hclean : ∀ id, ¬v.dirty id)
    (hroot : id ≠ driveRoot) (hentry : v.entry id = some (some p)) :
    Reaches driveRoot v.tree id p := by
  induction hn : p.length using Nat.strong_induction_on generalizing id p with
  | _ n ih =>
    obtain ⟨name, parent, above, hup, rfl, names, top, hclimb, hend⟩ :=
      h.path id p hroot (hclean id) hentry
    rcases hend with ⟨base, hstands, rfl⟩ | hopen
    · have hshorter : base.length < n := by
        have hall := length_joinAll base names
        have hlast := length_joinPath (joinAll base names) name
        omega
      have htop : Reaches driveRoot v.tree top base := by
        rcases hstands with ⟨rfl, rfl⟩ | ⟨htop, hcached⟩
        · exact .root
        · exact ih base.length hshorter htop hcached rfl
      exact .step hroot hup (hclimb.reaches htop)
    · exact absurd hopen.2.2 (hclean top)

theorem Grounded.reaches {n : ℕ} (h : Consistent driveRoot v) (hclean : ∀ id, ¬v.dirty id)
    (hgrounded : Grounded driveRoot v.tree v.entry n id p) : Reaches driveRoot v.tree id p := by
  induction hgrounded with
  | root => exact .root
  | entry hroot hentry => exact h.reaches hclean hroot hentry
  | step hroot _ hup _ ih => exact .step hroot hup ih

theorem Grounded.not_blocked {n : ℕ} (hclean : ∀ id, ¬v.dirty id)
    (h : Grounded driveRoot v.tree v.entry n id p) : ¬Blocked driveRoot v id := by
  intro hblocked
  induction h with
  | root => exact hblocked [] driveRoot (.refl _) "" (.inl ⟨rfl, rfl⟩)
  | @entry id path hroot hentry => exact hblocked [] id (.refl _) path (.inr ⟨hroot, hentry⟩)
  | @step n id parent name path hroot hnone hup _ ih =>
    exact ih fun names top hclimb => hblocked _ top (.step hroot hnone (hclean id) hup hclimb)

theorem Reaches.grounded (h : Consistent driveRoot v) (hclean : ∀ id, ¬v.dirty id)
    (hreaches : Reaches driveRoot v.tree id p) : ∃ n, Grounded driveRoot v.tree v.entry n id p := by
  induction hreaches with
  | root => exact ⟨0, .root⟩
  | @step id parent name path hroot hup habove ih =>
    obtain ⟨n, hn⟩ := ih
    cases hentry : v.entry id with
    | none => exact ⟨n + 1, .step hroot hentry hup hn⟩
    | some cached =>
      cases cached with
      | none =>
        exact absurd (h.note id hroot (hclean id) hentry name parent hup) (hn.not_blocked hclean)
      | some q =>
        obtain rfl := (h.reaches hclean hroot hentry).unique (.step hroot hup habove)
        exact ⟨1, .entry hroot hentry⟩

theorem Kept.coherent (h : Kept driveRoot s) (hsettled : Settled s) : Coherent driveRoot s := by
  have hclean : ∀ id, ¬s.view.dirty id := by
    rintro id (hid | hid)
    · simp [hsettled.feed] at hid
    · simp [hsettled.page] at hid
  intro id hdepth p
  obtain ⟨entry', hfill, -, -⟩ := @folderPathOf_fill driveRoot s.tree _ h.forest maxDepth id h.sound
  constructor
  · intro hp
    obtain ⟨n, hn⟩ := hfill.grounded hp
    exact Grounded.reaches h.consistent hclean hn
  · intro hp
    obtain ⟨n, hn⟩ := Reaches.grounded h.consistent hclean hp
    exact hfill.complete hn (hdepth n p hn)

end

section

variable {tree : Tree} {id : FileId} {v : View} {parent : Option FileId}

theorem forest_of_rank {rank : FileId → ℕ}
    (hrank : ∀ id name parent, up tree id = some (name, parent) → rank parent < rank id) :
    Forest tree := by
  have hbelow : ∀ {id top}, Relation.TransGen (ParentOf tree) id top → rank top < rank id := by
    intro id top h
    induction h with
    | single h => exact hrank _ _ _ h.choose_spec
    | tail _ h ih => exact Nat.lt_trans (hrank _ _ _ h.choose_spec) ih
  exact fun id h => Nat.lt_irrefl _ (hbelow h)

theorem inDepth_of_rank {rank : FileId → ℕ} {fuel : ℕ}
    (hrank : ∀ id name parent, up v.tree id = some (name, parent) → rank parent < rank id)
    (hid : rank id < fuel) : InDepth driveRoot v fuel id := by
  intro n p h
  suffices n ≤ rank id + 1 by omega
  clear hid
  induction h with
  | root => exact Nat.zero_le _
  | entry => exact Nat.succ_le_succ (Nat.zero_le _)
  | step _ _ hup _ ih =>
    have := hrank _ _ _ hup
    omega

def folders (name : Name) (parent : Option FileId) : Tree := fun id =>
  if id = "a" then some { name, parent }
  else if id = "b" then some { name := ⟨"b", by decide⟩, parent := some "a" }
  else none

def rank (id : FileId) : ℕ := if id = "b" then 2 else if id = "a" then 1 else 0

theorem rank_lt {name name' : Name} {above : FileId}
    (hparent : ∀ above, parent = some above → rank above = 0)
    (h : up (folders name parent) id = some (name', above)) : rank above < rank id := by
  unfold up folders at h
  split at h
  next ha =>
    obtain ⟨above', habove', heq⟩ := Option.map_eq_some_iff.mp h
    obtain ⟨-, rfl⟩ := Prod.mk.inj heq
    rw [hparent _ habove', ha]
    decide
  next =>
    split at h
    next hb =>
      obtain ⟨-, rfl⟩ := Prod.mk.inj (Option.some.inj h)
      rw [hb]
      decide
    next => cases h

theorem update_folders (name name' : Name) (parent parent' : Option FileId) :
    update (folders name parent) "a" (some { name := name', parent := parent' }) =
      folders name' parent' := by
  funext id
  by_cases ha : id = "a"
  · rw [ha, update_self]
    rfl
  · rw [update_of_ne ha]
    simp [folders, ha]

theorem resolvable_folders {name : Name} (htree : v.tree = folders name parent)
    (hparent : ∀ above, parent = some above → rank above = 0) (hclean : ∀ x, ¬v.dirty x) :
    Resolvable driveRoot v id := by
  refine ⟨fun x _ hopen => absurd hopen.2.2 (hclean x), @inDepth_of_rank driveRoot _ v rank _ ?_ ?_⟩
  · rw [htree]
    exact fun _ _ _ h => rank_lt hparent h
  · unfold rank
    split
    · decide
    · split
      all_goals decide

theorem parentFree_root {f : DriveFile} (hf : f.parent = some driveRoot) :
    ParentFree driveRoot v f := by
  intro parent hparent
  rw [hf] at hparent
  cases hparent
  constructor
  · intro x hwalk hopen
    cases hwalk with
    | refl => exact absurd rfl hopen.1
    | step hroot => exact absurd rfl hroot
  · intro n p hn
    cases hn with
    | root => exact Nat.zero_le _
    | entry hroot => exact absurd rfl hroot
    | step hroot => exact absurd rfl hroot

def untouched (parent : Option FileId) : State where
  tree := folders ⟨"a", by decide⟩ parent
  cache := { max := 8, max_pos := by decide }

/-- It has resolved the inner one, and then the outer one became a folder `c` of the root. -/
def outerMoved (parent : Option FileId) : State where
  tree := folders ⟨"c", by decide⟩ (some "root")
  cache := (folderPathOf "root" (untouched parent).tree maxDepth "b" (untouched parent).cache).2
  page := [("a", some { name := ⟨"c", by decide⟩, parent := some "root" })]
  listed := ["a"]

variable (hparent : ∀ above, parent = some above → rank above = 0)

include hparent

theorem start_untouched : Start (untouched parent) :=
  ⟨forest_of_rank fun _ _ _ h => rank_lt hparent h, rfl,
    fun _ h _ => (Option.some.inj h) ▸ rfl, rfl⟩

theorem run_outerMoved :
    Run (step "root" Char.toLower) (Meets "root" Char.toLower) (untouched parent)
      [.lookup "b", .edit "a" (some { name := ⟨"c", by decide⟩, parent := some "root" }) false,
        .list 1] (outerMoved parent) := by
  have hupdate := update_folders ⟨"a", by decide⟩ ⟨"c", by decide⟩ parent (some "root")
  have hforest : Forest (folders ⟨"c", by decide⟩ (some "root")) :=
    forest_of_rank fun _ _ _ h => rank_lt (by rintro _ ⟨⟩; decide) h
  have hclean : ∀ x, ¬(untouched parent).view.dirty x := by
    rintro x (h | h)
    all_goals cases h
  have hlookup : Meets "root" Char.toLower (untouched parent) (.lookup "b") :=
    ⟨trivial, resolvable_folders rfl hparent hclean⟩
  have start : Run (step "root" Char.toLower) (Meets "root" Char.toLower) (untouched parent) []
      (untouched parent) := .nil
  have looked := start.snoc (.lookup "b") hlookup rfl
  have edited := looked.snoc
    (Action.edit "a" (some { name := ⟨"c", by decide⟩, parent := some "root" }) false)
    ⟨hupdate.symm ▸ hforest, trivial⟩ rfl
  have listed := edited.snoc (Action.list 1) ⟨trivial, trivial⟩ rfl
  dsimp only [untouched] at listed
  rw [hupdate] at listed
  exact listed

end

theorem folder_paths_coherent (hstart : Start s₀)
    (run : Run (step driveRoot fold) (Meets driveRoot fold) s₀ acts s) (hsettled : Settled s) :
    Coherent driveRoot s := by
  have hkept : Kept driveRoot s := run.inv (Kept driveRoot) hstart.kept
    fun _ _ _ h hmeets hstep => kept_step h hmeets hstep
  exact hkept.coherent hsettled

theorem folder_paths_coherent_renamed : ∃ acts s,
    Run (step "root" Char.toLower) (Meets "root" Char.toLower) (untouched (some "root")) acts s ∧
      Settled s ∧ Coherent "root" s := by
  have hparent : ∀ above, some "root" = some above → rank above = 0 := by
    rintro _ ⟨⟩
    decide
  have hmeets : Meets "root" Char.toLower (outerMoved (some "root")) .work := by
    refine ⟨trivial, ?_⟩
    rintro id file page ⟨⟩
    refine ⟨⟨parentFree_root rfl, fun h => absurd ?_ (h "a")⟩, parentFree_root rfl⟩
    decide +kernel
  have run := (run_outerMoved hparent).snoc .work hmeets rfl
  exact ⟨_, _, run, ⟨rfl, rfl⟩, folder_paths_coherent (start_untouched hparent) run ⟨rfl, rfl⟩⟩

/-- A folder that is moved into the root takes its own path, and what was noted below it stays. -/
theorem moved_in_stays_out : ∃ s₀ acts s, Start s₀ ∧
    Run (step "root" Char.toLower) DriveAllows s₀ acts s ∧ Settled s ∧ ¬Coherent "root" s := by
  have hparent : ∀ above, none = some above → rank above = 0 := fun _ h => by cases h
  have run := ((run_outerMoved hparent).mono fun _ _ h => h.1).snoc .work trivial rfl
  refine ⟨_, _, _, start_untouched hparent, run, ⟨rfl, rfl⟩, fun hcoherent => ?_⟩
  have houter : Reaches "root" (outerMoved none).tree "a" (joinPath "" (⟨"c", by decide⟩ : Name)) :=
    .step (by decide) rfl .root
  have hinner : Reaches "root" (outerMoved none).tree "b"
      (joinPath (joinPath "" (⟨"c", by decide⟩ : Name)) (⟨"b", by decide⟩ : Name)) :=
    .step (by decide) rfl houter
  have hresolved := (hcoherent "b" (inDepth_of_rank (fun _ _ _ h => rank_lt (by rintro _ ⟨⟩; decide) h)
    (by decide)) _).mpr hinner
  revert hresolved
  decide +kernel

end Portuni.DriveFolders
