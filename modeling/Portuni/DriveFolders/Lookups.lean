import Portuni.DriveFolders.Settles

/-!
Resolving a folder's path: what the walk up to the nearest entry finds, and that the entries it
leaves behind are consistent.
-/

namespace Portuni.DriveFolders

open Function

section

variable {tree : Tree} {id parent : FileId} {name : Name}

def ParentOf (tree : Tree) (id parent : FileId) : Prop := ∃ name, up tree id = some (name, parent)

def Forest (tree : Tree) : Prop := ∀ id, ¬Relation.TransGen (ParentOf tree) id id

theorem Climb.above {driveRoot top : FileId} {v : View} {names : List Name}
    (h : Climb driveRoot v id names top) : Relation.ReflTransGen (ParentOf v.tree) id top := by
  induction h with
  | refl => exact .refl
  | step _ _ _ hup _ ih => exact .head ⟨_, hup⟩ ih

theorem Forest.not_above {top : FileId} (hforest : Forest tree) (hup : up tree id = some (name, parent))
    (habove : Relation.ReflTransGen (ParentOf tree) parent top) : top ≠ id := by
  rintro rfl
  exact hforest _ (.head' ⟨name, hup⟩ habove)

end

section

variable (driveRoot : FileId) (tree : Tree) (entry : Entries)

/-- The first entry up the chain, or the root, gives the folder a path, and so many ids are asked
for on the way. -/
inductive Grounded : ℕ → FileId → String → Prop
  | root : Grounded 0 driveRoot ""
  | entry {id : FileId} {path : String} :
      id ≠ driveRoot → entry id = some (some path) → Grounded 1 id path
  | step {n : ℕ} {id parent : FileId} {name : Name} {path : String} :
      id ≠ driveRoot → entry id = none → up tree id = some (name, parent) → Grounded n parent path →
        Grounded (n + 1) id (joinPath path name)

inductive Walk : FileId → FileId → Prop
  | refl (id : FileId) : Walk id id
  | step {id parent top : FileId} {name : Name} :
      id ≠ driveRoot → entry id = none → up tree id = some (name, parent) → Walk parent top →
        Walk id top

inductive Fill : Entries → ℕ → FileId → Option String → Entries → Prop
  | root {entry : Entries} {fuel : ℕ} : Fill entry fuel driveRoot (some "") entry
  | cut {entry : Entries} {id : FileId} : id ≠ driveRoot → Fill entry 0 id none entry
  | hit {entry : Entries} {fuel : ℕ} {id : FileId} {path : Option String} :
      id ≠ driveRoot → entry id = some path → Fill entry (fuel + 1) id path entry
  | dead {entry : Entries} {fuel : ℕ} {id : FileId} :
      id ≠ driveRoot → entry id = none → up tree id = none →
        Fill entry (fuel + 1) id none (update entry id (some none))
  | step {entry entry' : Entries} {fuel : ℕ} {id parent : FileId} {name : Name}
      {path : Option String} :
      id ≠ driveRoot → entry id = none → up tree id = some (name, parent) →
        Fill entry fuel parent path entry' →
          Fill entry (fuel + 1) id (path.map (joinPath · name))
            (update entry' id (some (path.map (joinPath · name))))

end

section

variable {driveRoot id : FileId} {tree : Tree} {entry entry' : Entries} {fuel : ℕ}
  {path : Option String}

theorem Walk.above {top : FileId} (h : Walk driveRoot tree entry id top) :
    Relation.ReflTransGen (ParentOf tree) id top := by
  induction h with
  | refl => exact .refl
  | step _ _ hup _ ih => exact .head ⟨_, hup⟩ ih

theorem Walk.trans {x top : FileId} (h : Walk driveRoot tree entry id x)
    (h' : Walk driveRoot tree entry x top) : Walk driveRoot tree entry id top := by
  induction h with
  | refl => exact h'
  | step hroot hnone hup _ ih => exact .step hroot hnone hup (ih h')

variable (h : Fill driveRoot tree entry fuel id path entry')

include h

theorem Fill.unchanged {x : FileId} (hx : ¬Walk driveRoot tree entry id x) :
    entry' x = entry x := by
  have hne : ∀ {id : FileId}, ¬Walk driveRoot tree entry id x → x ≠ id := by
    rintro id hid rfl
    exact hid (.refl x)
  induction h with
  | root => rfl
  | cut => rfl
  | hit => rfl
  | dead => exact update_of_ne (hne hx) _ _
  | step hroot hnone hup _ ih =>
    rw [update_of_ne (hne hx)]
    exact ih fun habove => hx (.step hroot hnone hup habove)

theorem Fill.kept {x : FileId} {cached : Option String} :
    entry x = some cached → entry' x = some cached := by
  induction h with
  | root | cut | hit => exact fun hx => hx
  | dead _ hnone _ =>
    intro hx
    rw [update_of_ne, hx]
    rintro rfl
    rw [hnone] at hx
    cases hx
  | step _ hnone _ _ ih =>
    intro hx
    rw [update_of_ne, ih hx]
    rintro rfl
    rw [hnone] at hx
    cases hx

theorem Fill.grounded {p : String} (hp : path = some p) :
    ∃ n, Grounded driveRoot tree entry n id p := by
  induction h generalizing p with
  | root =>
    cases hp
    exact ⟨0, .root⟩
  | cut => cases hp
  | hit hroot hentry => exact ⟨1, .entry hroot (hentry.trans (congrArg some hp))⟩
  | dead => cases hp
  | step hroot hnone hup _ ih =>
    obtain ⟨base, rfl, rfl⟩ := Option.map_eq_some_iff.mp hp
    obtain ⟨n, hn⟩ := ih rfl
    exact ⟨n + 1, .step hroot hnone hup hn⟩

theorem Fill.complete {n : ℕ} {p : String} (hgrounded : Grounded driveRoot tree entry n id p)
    (hdepth : n ≤ fuel) : path = some p := by
  induction h generalizing n p with
  | root =>
    cases hgrounded with
    | root => rfl
    | entry hroot => exact absurd rfl hroot
    | step hroot => exact absurd rfl hroot
  | cut hroot =>
    cases hgrounded with
    | root => exact absurd rfl hroot
    | entry => omega
    | step => omega
  | hit hroot hentry =>
    cases hgrounded with
    | root => exact absurd rfl hroot
    | entry _ hentry' =>
      rw [hentry] at hentry'
      exact Option.some.inj hentry'
    | step _ hnone =>
      rw [hentry] at hnone
      cases hnone
  | dead hroot hnone hup =>
    cases hgrounded with
    | root => exact absurd rfl hroot
    | entry _ hentry =>
      rw [hnone] at hentry
      cases hentry
    | step _ _ hup' =>
      rw [hup] at hup'
      cases hup'
  | step hroot hnone hup _ ih =>
    cases hgrounded with
    | root => exact absurd rfl hroot
    | entry _ hentry =>
      rw [hnone] at hentry
      cases hentry
    | step _ _ hup' habove =>
      rw [hup] at hup'
      cases hup'
      rw [ih habove (Nat.le_of_succ_le_succ hdepth)]
      rfl

omit h

theorem folderPathOf_root (fuel : ℕ) (cache : FolderPathCache) :
    folderPathOf driveRoot tree fuel driveRoot cache = (some "", cache) := by
  cases fuel with
  | zero => rw [folderPathOf, if_pos rfl]
  | succ fuel => rw [folderPathOf, if_pos rfl]

variable {cache : FolderPathCache}

theorem folderPathOf_hit (hroot : id ≠ driveRoot) (hhit : (cache.get id).1 = some path) :
    folderPathOf driveRoot tree (fuel + 1) id cache = (path, (cache.get id).2) := by
  rw [folderPathOf, if_neg hroot]
  generalize cache.get id = got at hhit ⊢
  obtain ⟨hit, cache'⟩ := got
  obtain rfl : hit = some path := hhit
  rfl

theorem folderPathOf_miss (hroot : id ≠ driveRoot) (hmiss : (cache.get id).1 = none) :
    folderPathOf driveRoot tree (fuel + 1) id cache =
      match up tree id with
      | none => (none, cache.set id none)
      | some (name, parent) =>
        let path := (folderPathOf driveRoot tree fuel parent cache).1.map (joinPath · name)
        (path, (folderPathOf driveRoot tree fuel parent cache).2.set id path) := by
  have hget : cache.get id = (none, cache) := Prod.ext hmiss (get_miss hmiss)
  rw [folderPathOf, if_neg hroot]
  simp only [hget]
  rfl

theorem folderPathOf_fill (hforest : Forest tree) (fuel : ℕ) (id : FileId) (hcache : Sound cache) :
    ∃ entry', Fill driveRoot tree cache.entry fuel id (folderPathOf driveRoot tree fuel id cache).1
        entry' ∧ Fewer (folderPathOf driveRoot tree fuel id cache).2.entry entry' ∧
      Sound (folderPathOf driveRoot tree fuel id cache).2 := by
  by_cases hroot : id = driveRoot
  · subst hroot
    rw [folderPathOf_root]
    exact ⟨cache.entry, .root, Fewer.refl _, hcache⟩
  · induction fuel generalizing id cache with
    | zero =>
      rw [folderPathOf, if_neg hroot]
      exact ⟨cache.entry, .cut hroot, Fewer.refl _, hcache⟩
    | succ fuel ih =>
      obtain ⟨hgot, hsound, hfewer⟩ := get_spec hcache id
      cases hentry : cache.entry id with
      | some cached =>
        rw [folderPathOf_hit hroot (hgot.trans hentry)]
        exact ⟨cache.entry, .hit hroot hentry, hfewer, hsound⟩
      | none =>
        rw [folderPathOf_miss hroot (hgot.trans hentry)]
        cases hup : up tree id with
        | none =>
          have hset : Sound (cache.set id none) ∧ _ :=
            set_spec hcache fun _ p => by simp [hentry]
          exact ⟨_, .dead hroot hentry hup, hset.2, hset.1⟩
        | some above =>
          obtain ⟨name, parent⟩ := above
          dsimp only
          have habove : ∃ entry', Fill driveRoot tree cache.entry fuel parent
              (folderPathOf driveRoot tree fuel parent cache).1 entry' ∧
              Fewer (folderPathOf driveRoot tree fuel parent cache).2.entry entry' ∧
              Sound (folderPathOf driveRoot tree fuel parent cache).2 := by
            by_cases hparent : parent = driveRoot
            · subst hparent
              rw [folderPathOf_root]
              exact ⟨cache.entry, .root, Fewer.refl _, hcache⟩
            · exact ih parent hcache hparent
          obtain ⟨entry', hfill, hfewer', hsound'⟩ := habove
          have hnone : entry' id = none := by
            rw [hfill.unchanged fun h => hforest.not_above hup h.above rfl, hentry]
          let path := (folderPathOf driveRoot tree fuel parent cache).1.map (joinPath · name)
          obtain ⟨hsound'', hfewer''⟩ := @set_spec _ id path hsound' fun _ p => by
            simp [hfewer'.of_none hnone]
          exact ⟨_, .step hroot hentry hup hfill, hfewer''.trans (hfewer'.update id _), hsound''⟩

end

variable {driveRoot id : FileId} {v : View} {entry' : Entries} {fuel : ℕ} {path : Option String}

/-- A folder whose change is still to be worked in and that has no path cached may get its entry:
no path below rests on it, and no note either where the chain from `parent` on has a path. -/
def Free (driveRoot : FileId) (v : View) (x : FileId) (parent : Option FileId) : Prop :=
  ∀ below name above names, below ≠ driveRoot → below ≠ x → ¬v.dirty below →
    up v.tree below = some (name, above) → Climb driveRoot v above names x →
      (∀ p, v.entry below ≠ some (some p)) ∧
      (v.entry below = some none →
        ∀ top, parent = some top → ∀ n p, ¬Grounded driveRoot v.tree v.entry n top p)

/-- Every folder on the way up that awaits its change may get its entry. -/
def LookupFree (driveRoot : FileId) (v : View) (id : FileId) : Prop :=
  ∀ x, Walk driveRoot v.tree v.entry id x → Open driveRoot v x →
    Free driveRoot v x ((up v.tree x).map Prod.snd)

def InDepth (driveRoot : FileId) (v : View) (fuel : ℕ) (id : FileId) : Prop :=
  ∀ n p, Grounded driveRoot v.tree v.entry n id p → n ≤ fuel

structure Resolvable (driveRoot : FileId) (v : View) (id : FileId) : Prop where
  free : LookupFree driveRoot v id
  depth : InDepth driveRoot v maxDepth id

variable {names : List Name} {top : FileId}

theorem Climb.walk (h : Climb driveRoot v id names top) : Walk driveRoot v.tree v.entry id top := by
  induction h with
  | refl id => exact .refl id
  | step hroot hnone _ hup _ ih => exact .step hroot hnone hup ih

theorem Climb.grounded {base : String} (h : Climb driveRoot v id names top)
    (hstands : Stands driveRoot v top base) :
    ∃ n, Grounded driveRoot v.tree v.entry n id (joinAll base names) := by
  induction h with
  | refl id =>
    rcases hstands with ⟨rfl, rfl⟩ | ⟨hroot, hentry⟩
    · exact ⟨0, .root⟩
    · exact ⟨1, .entry hroot hentry⟩
  | step hroot hnone _ hup _ ih =>
    obtain ⟨n, hn⟩ := ih hstands
    rw [joinAll_concat]
    exact ⟨n + 1, .step hroot hnone hup hn⟩

theorem Climb.of_more (hmore : ∀ x cached, v.entry x = some cached → entry' x = some cached)
    (h : Climb driveRoot { v with entry := entry' } id names top) :
    Climb driveRoot v id names top := by
  induction h with
  | refl id => exact .refl id
  | @step id _ _ _ _ hroot hnone hclean hup _ ih =>
    refine .step hroot ?_ hclean hup ih
    cases hentry : v.entry id with
    | none => rfl
    | some cached =>
      have hkept := hmore id cached hentry
      rw [show entry' id = none from hnone] at hkept
      cases hkept

theorem Grounded.of_zero {tree : Tree} {entry : Entries} {p : String}
    (h : Grounded driveRoot tree entry 0 id p) : id = driveRoot := by
  cases h
  rfl

theorem blocked_of_note (hroot : id ≠ driveRoot) (hentry : v.entry id = some none) :
    Blocked driveRoot v id := by
  intro names top hclimb base hstands
  obtain ⟨rfl, rfl⟩ := hclimb.stays (.inr (.inl (by simp [hentry])))
  rcases hstands with ⟨h, -⟩ | ⟨-, h⟩
  · exact hroot h
  · rw [hentry] at h
    cases h

theorem Climb.onward {names names' : List Name} {x parent top : FileId} {name : Name}
    (h : Climb driveRoot v id names x) (h' : Climb driveRoot v id names' top)
    (hnot : ¬(x = driveRoot ∨ v.entry x ≠ none ∨ v.dirty x))
    (hstop : top = driveRoot ∨ v.entry top ≠ none ∨ v.dirty top)
    (hup : up v.tree x = some (name, parent)) :
    ∃ more, Climb driveRoot v parent more top ∧ names' = more ++ [name] ++ names := by
  rcases h.total h' with ⟨more, hmore, rfl⟩ | ⟨more, hmore, rfl⟩
  · cases hmore with
    | refl => exact absurd hstop hnot
    | step _ _ _ hup' hrest =>
      rw [hup] at hup'
      cases hup'
      exact ⟨_, hrest, rfl⟩
  · obtain ⟨-, rfl⟩ := hmore.stays hstop
    exact absurd hstop hnot

theorem Fill.consistent {tree : Tree} {dirty : FileId → Prop} {entry : Entries}
    (h : Fill driveRoot tree entry fuel id path entry') (hforest : Forest tree)
    (hv : Consistent driveRoot ⟨tree, dirty, entry⟩)
    (hfree : LookupFree driveRoot ⟨tree, dirty, entry⟩ id)
    (hdepth : InDepth driveRoot ⟨tree, dirty, entry⟩ fuel id) :
    Consistent driveRoot ⟨tree, dirty, entry'⟩ ∧
      (∀ p, path = some p → Stands driveRoot ⟨tree, dirty, entry'⟩ id p) ∧
      (path = none → Blocked driveRoot ⟨tree, dirty, entry'⟩ id) := by
  induction h with
  | root => exact ⟨hv, fun p hp => .inl ⟨rfl, (Option.some.inj hp).symm⟩, fun h => by cases h⟩
  | cut hroot =>
    refine ⟨hv, fun p hp => (by cases hp), fun _ names top hclimb base hstands => ?_⟩
    obtain ⟨n, hn⟩ := hclimb.grounded hstands
    obtain rfl : n = 0 := Nat.le_zero.mp (hdepth n _ hn)
    exact hroot hn.of_zero
  | hit hroot hentry =>
    refine ⟨hv, fun p hp => .inr ⟨hroot, hentry.trans (congrArg some hp)⟩, fun hnone => ?_⟩
    exact blocked_of_note hroot (hentry.trans (congrArg some hnone))
  | @dead fuel id hroot hnone hup =>
    have hagrees : Agrees driveRoot ⟨tree, dirty, entry⟩ id none := by
      intro below name above names hbelow hne hclean hparent hclimb
      refine ⟨fun base hentry hjust => ?_, fun _ => rfl⟩
      obtain ⟨names', top, hclimb', hend⟩ := hjust
      by_cases hdirty : dirty id
      · exact absurd hentry ((hfree id (.refl id) ⟨hroot, hnone, hdirty⟩ below name above names
          hbelow hne hclean hparent hclimb).1 _)
      · have hstop := hend.elim (fun ⟨_, hstands, _⟩ => hstands.stop) Open.stop
        rcases hclimb.total hclimb' with ⟨more, hmore, -⟩ | ⟨more, hmore, -⟩
        · cases hmore with
          | refl => simp [hroot, hnone, hdirty] at hstop
          | step _ _ _ hup' _ =>
            rw [show up tree id = none from hup] at hup'
            cases hup'
        · obtain ⟨-, rfl⟩ := hmore.stays hstop
          simp [hroot, hnone, hdirty] at hstop
    have hfits : Fits driveRoot ⟨tree, dirty, entry⟩ id none := by
      refine ⟨fun p hp => (by cases hp), fun _ name parent hup' => ?_⟩
      rw [show up tree id = none from hup] at hup'
      cases hup'
    refine ⟨hv.assign hroot (fun _ _ => Iff.rfl) hagrees fun _ => hfits,
      fun p hp => (by cases hp), fun _ => blocked_of_note hroot ?_⟩
    exact update_self id (some none) entry
  | @step entry' fuel id parent name path hroot hnone hup hfill ih =>
    have hmore : ∀ x cached, entry x = some cached → entry' x = some cached :=
      fun x cached hx => hfill.kept hx
    have hnone' : entry' id = none := by
      rw [hfill.unchanged fun h => hforest.not_above hup h.above rfl, hnone]
    obtain ⟨hv', hstands, hblocked⟩ := ih
      (fun x hwalk => hfree x (.step hroot hnone hup hwalk)) fun n p hn =>
        Nat.le_of_succ_le_succ (hdepth (n + 1) _ (.step hroot hnone hup hn))
    have hagrees : Agrees driveRoot ⟨tree, dirty, entry'⟩ id (path.map (joinPath · name)) := by
      intro below name' above names hbelow hne hclean hparent hclimb
      have hclimbBefore : Climb driveRoot ⟨tree, dirty, entry⟩ above names id :=
        Climb.of_more (v := ⟨tree, dirty, entry⟩) hmore hclimb
      have hsame : entry' below = entry below := by
        refine hfill.unchanged fun h => ?_
        have hcycle : Relation.TransGen (ParentOf tree) id above :=
          .tail (.head' ⟨name, hup⟩ h.above) ⟨name', hparent⟩
        exact hforest id (hcycle.trans_left hclimb.above)
      have hown := fun hdirty => hfree id (.refl id) ⟨hroot, hnone, hdirty⟩ below name' above names
        hbelow hne hclean hparent hclimbBefore
      constructor
      · intro base hentry hjust
        have hentryBefore : entry below = some (some (joinPath base name')) := hsame ▸ hentry
        by_cases hdirty : dirty id
        · exact absurd hentryBefore ((hown hdirty).1 _)
        · obtain ⟨names', top, hclimb', hend⟩ := hjust
          have hstop := hend.elim (fun ⟨_, hstands, _⟩ => hstands.stop) Open.stop
          obtain ⟨more, honward, rfl⟩ := hclimb.onward hclimb'
            (by simp [hroot, hnone', hdirty]) hstop hup
          rcases hend with ⟨base', hbase', rfl⟩ | ⟨htop, hunknown, hopen⟩
          · cases path with
            | none => exact absurd hbase' (hblocked rfl more top honward base')
            | some p =>
              have hp := hstands p rfl
              obtain ⟨rfl, rfl⟩ := (Climb.refl parent).same_end honward hp.stop hbase'.stop
              obtain rfl := hp.unique hbase'
              exact ⟨_, rfl, by rw [joinAll_append, List.nil_append]; rfl⟩
          · -- a folder that awaits its change is on the way up as well
            have hunknownBefore : entry top = none := by
              cases hcached : entry top with
              | none => rfl
              | some cached =>
                have hkept := hmore top cached hcached
                rw [show entry' top = none from hunknown] at hkept
                cases hkept
            have hwalk : Walk driveRoot tree entry parent top :=
              (Climb.of_more (v := ⟨tree, dirty, entry⟩) hmore honward).walk
            have htopFree := hfree top (.step hroot hnone hup hwalk) ⟨htop, hunknownBefore, hopen⟩
            refine absurd hentryBefore ((htopFree below name' above _ hbelow ?_ hclean hparent
              (Climb.of_more (v := ⟨tree, dirty, entry⟩) hmore hclimb')).1 _)
            rintro rfl
            exact hclean hopen
      · intro hnote
        cases path with
        | none => rfl
        | some p =>
          by_cases hdirty : dirty id
          · obtain ⟨n, hn⟩ := hfill.grounded rfl
            refine absurd hn ((hown hdirty).2 (hsame.symm.trans hnote) parent ?_ n p)
            rw [show up tree id = some (name, parent) from hup]
            rfl
          · have hgoes : Climb driveRoot ⟨tree, dirty, entry'⟩ id ([] ++ [name]) parent :=
              .step hroot hnone' hdirty hup (.refl parent)
            exact absurd (hstands p rfl) (hv'.note below hbelow hclean hnote name' above hparent _
              parent (hclimb.trans hgoes) p)
    have hfits : Fits driveRoot ⟨tree, dirty, entry'⟩ id (path.map (joinPath · name)) := by
      constructor
      · intro p hp
        obtain ⟨base, rfl, rfl⟩ := Option.map_eq_some_iff.mp hp
        refine ⟨name, parent, base, hup, rfl,
          ⟨[], parent, .refl parent, .inl ⟨base, hstands base rfl, rfl⟩⟩, fun names hclimb => ?_⟩
        exact hforest.not_above hup hclimb.above rfl
      · intro hnote name' parent' hup'
        rw [show up tree id = some (name, parent) from hup] at hup'
        cases hup'
        exact hblocked (Option.map_eq_none_iff.mp hnote)
    refine ⟨hv'.assign hroot (fun _ _ => Iff.rfl) hagrees fun _ => hfits, fun p hp => ?_,
      fun hnote => blocked_of_note hroot ?_⟩
    · exact .inr ⟨hroot, (update_self id _ entry').trans (congrArg some hp)⟩
    · exact (update_self id _ entry').trans (congrArg some hnote)

end Portuni.DriveFolders
