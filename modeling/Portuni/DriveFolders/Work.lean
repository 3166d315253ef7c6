import Portuni.DriveFolders.Lookups

/-!
Working in what the feed reports of a folder: the entries are consistent afterwards, also with the
folder's own change no longer outstanding.
-/

namespace Portuni.DriveFolders

open Function

variable {driveRoot id : FileId} {fold : Char → Char} {tree : Tree} {dirty dirty' : FileId → Prop}
  {cache : FolderPathCache} {f : DriveFile}

theorem Consistent.off_root {entry entry' : Entries}
    (hv : Consistent driveRoot ⟨tree, dirty, entry⟩)
    (hentry : ∀ id, id ≠ driveRoot → entry' id = entry id)
    (hdirty : ∀ id, id ≠ driveRoot → (dirty' id ↔ dirty id)) :
    Consistent driveRoot ⟨tree, dirty', entry'⟩ := by
  have hforth : ∀ {id names top}, Climb driveRoot ⟨tree, dirty, entry⟩ id names top →
      Climb driveRoot ⟨tree, dirty', entry'⟩ id names top := by
    intro id names top hclimb
    induction hclimb with
    | refl id => exact .refl id
    | @step id _ _ _ _ hroot hnone hclean hup _ ih =>
      exact .step hroot ((hentry id hroot).trans hnone) (fun h => hclean ((hdirty id hroot).mp h))
        hup ih
  have hback : ∀ {id names top}, Climb driveRoot ⟨tree, dirty', entry'⟩ id names top →
      Climb driveRoot ⟨tree, dirty, entry⟩ id names top := by
    intro id names top hclimb
    induction hclimb with
    | refl id => exact .refl id
    | @step id _ _ _ _ hroot hnone hclean hup _ ih =>
      exact .step hroot ((hentry id hroot).symm.trans hnone)
        (fun h => hclean ((hdirty id hroot).mpr h)) hup ih
  constructor
  · intro id p hroot hclean hp
    obtain ⟨name, parent, base, hup, hpath, names, top, hclimb, hend⟩ :=
      hv.path id p hroot (fun h => hclean ((hdirty id hroot).mpr h)) ((hentry id hroot).symm.trans hp)
    refine ⟨name, parent, base, hup, hpath, names, top, hforth hclimb, hend.imp ?_ ?_⟩
    · rintro ⟨base', hstands, hbase⟩
      exact ⟨base', hstands.imp_right fun ⟨htop, h⟩ => ⟨htop, (hentry top htop).trans h⟩, hbase⟩
    · rintro ⟨htop, hnone, hopen⟩
      exact ⟨htop, (hentry top htop).trans hnone, (hdirty top htop).mpr hopen⟩
  · intro id hroot hclean hnote name parent hup names top hclimb base hstands
    refine hv.note id hroot (fun h => hclean ((hdirty id hroot).mpr h))
      ((hentry id hroot).symm.trans hnote) name parent hup names top (hback hclimb) base ?_
    exact hstands.imp_right fun ⟨htop, h⟩ => ⟨htop, (hentry top htop).symm.trans h⟩

def ParentFree (driveRoot : FileId) (v : View) (f : DriveFile) : Prop :=
  ∀ parent, f.parent = some parent → Resolvable driveRoot v parent

/-- What resolving the parent's path has found, and the entries that it leaves behind. -/
structure ParentFill (driveRoot : FileId) (v : View) (f : DriveFile) (path : Option String)
    (entry' : Entries) : Prop where
  consistent : Consistent driveRoot { v with entry := entry' }
  kept : ∀ x cached, v.entry x = some cached → entry' x = some cached
  walked : ∀ x, entry' x ≠ v.entry x →
    ∃ parent, f.parent = some parent ∧ Walk driveRoot v.tree v.entry parent x
  stands : ∀ base, path = some base →
    ∃ parent, f.parent = some parent ∧ Stands driveRoot { v with entry := entry' } parent base
  grounded : ∀ base, path = some base →
    ∃ parent n, f.parent = some parent ∧ Grounded driveRoot v.tree v.entry n parent base
  blocked : path = none →
    ∀ parent, f.parent = some parent → Blocked driveRoot { v with entry := entry' } parent

theorem parentPathOf_spec (hcache : Sound cache) (hforest : Forest tree)
    (hv : Consistent driveRoot ⟨tree, dirty, cache.entry⟩)
    (hfree : ParentFree driveRoot ⟨tree, dirty, cache.entry⟩ f) :
    ∃ entry', ParentFill driveRoot ⟨tree, dirty, cache.entry⟩ f
        (parentPathOf driveRoot tree f cache).1 entry' ∧
      Fewer (parentPathOf driveRoot tree f cache).2.entry entry' ∧
      Sound (parentPathOf driveRoot tree f cache).2 := by
  unfold parentPathOf
  cases hparent : f.parent with
  | none =>
    refine ⟨cache.entry, ⟨hv, fun _ _ h => h, fun x h => absurd rfl h, ?_, ?_, ?_⟩, Fewer.refl _,
      hcache⟩
    · intro base h
      cases h
    · intro base h
      cases h
    · intro _ parent h
      rw [hparent] at h
      cases h
  | some parent =>
    obtain ⟨hlookup, hdepth⟩ := hfree parent hparent
    obtain ⟨entry', hfill, hfewer, hsound⟩ :=
      @folderPathOf_fill driveRoot tree _ hforest maxDepth parent hcache
    obtain ⟨hconsistent, hstands, hblocked⟩ := hfill.consistent hforest hv hlookup hdepth
    refine ⟨entry', ⟨hconsistent, fun x cached h => hfill.kept h, ?_, ?_, ?_, ?_⟩, hfewer, hsound⟩
    · intro x hx
      refine ⟨parent, hparent, ?_⟩
      by_contra hnot
      exact hx (hfill.unchanged hnot)
    · intro base hbase
      exact ⟨parent, hparent, hstands base hbase⟩
    · intro base hbase
      obtain ⟨n, hn⟩ := hfill.grounded hbase
      exact ⟨parent, n, hparent, hn⟩
    · intro hnone parent' hparent'
      rw [hparent] at hparent'
      cases hparent'
      exact hblocked hnone

theorem ParentFill.fits {v : View} {path : Option String} {entry' : Entries}
    (h : ParentFill driveRoot v f path entry') (hforest : Forest v.tree)
    (hcurrent : v.tree id = some f) {entry'' : Entries} (hfewer : Fewer entry'' entry') :
    Fits driveRoot { v with entry := entry'' } id (path.map (joinPath · f.name)) := by
  have hup : up v.tree id = f.parent.map fun parent => (f.name, parent) := by
    rw [up, hcurrent]
    rfl
  constructor
  · intro p hp
    obtain ⟨base, hbase, rfl⟩ := Option.map_eq_some_iff.mp hp
    obtain ⟨parent, hparent, hstands⟩ := h.stands base hbase
    have hup' : up v.tree id = some (f.name, parent) := by
      rw [hup, hparent]
      rfl
    have hjustified : Justified driveRoot { v with entry := entry' } parent base :=
      ⟨[], parent, .refl parent, .inl ⟨base, hstands, rfl⟩⟩
    refine ⟨f.name, parent, base, hup', rfl, hjustified.fewer h.consistent hfewer, ?_⟩
    intro names hclimb
    exact hforest.not_above hup' hclimb.above rfl
  · intro hnote name parent hparent
    rw [hup] at hparent
    obtain ⟨parent', hparent', heq⟩ := Option.map_eq_some_iff.mp hparent
    obtain ⟨rfl, rfl⟩ := Prod.mk.inj heq
    exact (h.blocked (Option.map_eq_none_iff.mp hnote) parent' hparent').fewer h.consistent hfewer

/-- What must hold for a reported folder to be remembered rightly: its parent's path can be
resolved, and where no path of its own is cached it may get one and is not its parent's ancestor. -/
def RememberFree (driveRoot : FileId) (v : View) (id : FileId) (f : DriveFile) : Prop :=
  ParentFree driveRoot v f ∧
    ((∀ p, v.entry id ≠ some (some p)) → Free driveRoot v id f.parent ∧
      ∀ parent, f.parent = some parent → ¬Walk driveRoot v.tree v.entry parent id)

theorem agrees_same {v : View} {p : String} (hv : Consistent driveRoot v) (hroot : id ≠ driveRoot)
    (hentry : v.entry id = some (some p)) : Agrees driveRoot v id (some p) := by
  have hstands : Stands driveRoot v id p := .inr ⟨hroot, hentry⟩
  intro below name above names hbelow _ hclean hparent hclimb
  constructor
  · rintro base - ⟨names', top, hclimb', ⟨base', hstands', rfl⟩ | hopen⟩
    · obtain ⟨rfl, rfl⟩ := hclimb.same_end hclimb' hstands.stop hstands'.stop
      exact ⟨p, rfl, by rw [hstands.unique hstands']⟩
    · obtain ⟨rfl, -⟩ := hclimb.same_end hclimb' hstands.stop hopen.stop
      rw [hopen.2.1] at hentry
      cases hentry
  · intro hnote
    exact absurd hstands (hv.note below hbelow hclean hnote name above hparent names id hclimb p)

theorem agrees_free {v : View} {path : Option String} {entry' : Entries}
    (h : ParentFill driveRoot v f path entry') (hfree : Free driveRoot v id f.parent)
    (hnot : ∀ parent, f.parent = some parent → ¬Walk driveRoot v.tree v.entry parent id) :
    Agrees driveRoot { v with entry := entry' } id (path.map (joinPath · f.name)) := by
  intro below name above names hbelow hne hclean hparent hclimb
  have hclimb' : Climb driveRoot v above names id := Climb.of_more h.kept hclimb
  have hsame : ∀ cached, entry' below = some cached → v.entry below = some cached := by
    intro cached hcached
    cases hentry : v.entry below with
    | some cached' =>
      rw [h.kept below cached' hentry] at hcached
      exact hcached
    | none =>
      obtain ⟨parent, hon, hwalk⟩ := h.walked below (by rw [hcached, hentry]; simp)
      exact absurd (hwalk.trans (.step hbelow hentry hparent hclimb'.walk)) (hnot parent hon)
  obtain ⟨hpath, hnote⟩ := hfree below name above names hbelow hne hclean hparent hclimb'
  refine ⟨fun base hentry => absurd (hsame _ hentry) (hpath _), fun hentry => ?_⟩
  cases path with
  | none => rfl
  | some base =>
    obtain ⟨parent, n, hon, hgrounded⟩ := h.grounded base rfl
    exact absurd hgrounded (hnote (hsame _ hentry) parent hon n base)

theorem rememberFolder_eq : rememberFolder driveRoot fold tree id f cache =
    (match (cache.get id).1 with
      | some (some old) =>
        if (parentPathOf driveRoot tree f (cache.get id).2).1.map (joinPath · f.name) = some old then
          (parentPathOf driveRoot tree f (cache.get id).2).2
        else (parentPathOf driveRoot tree f (cache.get id).2).2.invalidateSubtree fold old
      | _ => (parentPathOf driveRoot tree f (cache.get id).2).2).set id
        ((parentPathOf driveRoot tree f (cache.get id).2).1.map (joinPath · f.name)) := rfl

theorem rememberFolder_consistent (hcache : Sound cache) (hforest : Forest tree)
    (hv : Consistent driveRoot ⟨tree, dirty, cache.entry⟩)
    (hdirty : ∀ x, x ≠ id → (dirty' x ↔ dirty x)) (hcurrent : ¬dirty' id → tree id = some f)
    (hfree : RememberFree driveRoot ⟨tree, dirty, (cache.get id).2.entry⟩ id f) :
    Sound (rememberFolder driveRoot fold tree id f cache) ∧
      Consistent driveRoot ⟨tree, dirty', (rememberFolder driveRoot fold tree id f cache).entry⟩ := by
  obtain ⟨hgot, hsound₁, hfewer₁⟩ := get_spec hcache id
  have hself := entry_get_self hcache id
  obtain ⟨entry₂, hfill, hfewer₂, hsound₂⟩ :=
    parentPathOf_spec hsound₁ hforest (hv.fewer hfewer₁) hfree.1
  rw [rememberFolder_eq, hgot]
  generalize (parentPathOf driveRoot tree f (cache.get id).2).1 = parentPath at *
  generalize (parentPathOf driveRoot tree f (cache.get id).2).2 = cache₂ at *
  have hset : ∀ (cache₃ : FolderPathCache) (entry₃ : Entries), Sound cache₃ →
      Fewer cache₃.entry entry₃ → Fewer entry₃ entry₂ →
      (parentPath.map (joinPath · f.name) = none → ∀ p, cache₃.entry id ≠ some (some p)) →
      (id ≠ driveRoot → Agrees driveRoot ⟨tree, dirty, entry₃⟩ id (parentPath.map (joinPath · f.name))) →
      Sound (cache₃.set id (parentPath.map (joinPath · f.name))) ∧
        Consistent driveRoot
          ⟨tree, dirty', (cache₃.set id (parentPath.map (joinPath · f.name))).entry⟩ := by
    intro cache₃ entry₃ hsound₃ hfewer₃ hfewer' hnote hagrees
    obtain ⟨hsound, hfewer⟩ := set_spec hsound₃ hnote
    have hv₃ := hfill.consistent.fewer hfewer'
    have hlast := hfewer.trans (hfewer₃.update id (some (parentPath.map (joinPath · f.name))))
    refine ⟨hsound, ?_⟩
    by_cases hroot : id = driveRoot
    · subst hroot
      have hv₄ : Consistent id ⟨tree, dirty', update entry₃ id
          (some (parentPath.map (joinPath · f.name)))⟩ :=
        hv₃.off_root (fun x hx => update_of_ne hx _ _) hdirty
      exact hv₄.fewer hlast
    · have hv₄ := hv₃.assign hroot hdirty (hagrees hroot) fun hclean =>
        hfill.fits hforest (hcurrent hclean) hfewer'
      exact hv₄.fewer hlast
  have hnew : (∀ p, cache.entry id ≠ some (some p)) →
      Sound (cache₂.set id (parentPath.map (joinPath · f.name))) ∧
        Consistent driveRoot
          ⟨tree, dirty', (cache₂.set id (parentPath.map (joinPath · f.name))).entry⟩ := by
    intro hentry
    obtain ⟨hrest, hnot⟩ := hfree.2 fun p hp => hentry p (hself.symm.trans hp)
    refine hset cache₂ entry₂ hsound₂ hfewer₂ (Fewer.refl _) (fun _ p hp => ?_)
      fun _ => agrees_free hfill hrest hnot
    have hp₂ := hfewer₂.of_some hp
    cases hcached : (cache.get id).2.entry id with
    | none =>
      obtain ⟨parent, hon, hwalk⟩ := hfill.walked id (by
        dsimp only
        rw [hcached, hp₂]
        simp)
      exact hnot parent hon hwalk
    | some cached =>
      rw [hfill.kept id cached hcached] at hp₂
      cases hp₂
      exact hentry p (hself.symm.trans hcached)
  cases hentry : cache.entry id with
  | none => exact hnew (by simp [hentry])
  | some cached =>
    cases cached with
    | none => exact hnew (by simp [hentry])
    | some old =>
      have hold : entry₂ id = some (some old) := hfill.kept id _ (hself.trans hentry)
      dsimp only
      split
      next hsame =>
        refine hset cache₂ entry₂ hsound₂ hfewer₂ (Fewer.refl _) (fun h => ?_) fun hroot => ?_
        · rw [hsame] at h
          cases h
        · rw [hsame]
          exact agrees_same hfill.consistent hroot hold
      next =>
        obtain ⟨hsound₃, hfewer₃, hnotes, hpaths⟩ := invalidateSubtree_spec hsound₂ fold old
        have hfewer' := hfewer₃.trans hfewer₂
        refine hset _ _ hsound₃ (Fewer.refl _) hfewer' (fun _ p hp => ?_) fun hroot => ?_
        · have hp₂ := hfewer'.of_some hp
          rw [hold] at hp₂
          obtain rfl := Option.some.inj (Option.some.inj hp₂)
          exact (hpaths id old hp).2 (.inl rfl)
        · intro below name above names hbelow _ hclean hparent hclimb
          refine ⟨fun base hbase => ?_, fun hnote => absurd hnote (hnotes below)⟩
          exact absurd hbase (nothing_rests hfill.consistent hroot hold (hpaths below _ hbase).1
            hfewer' (fun x p hp => (hpaths x p hp).2) hbelow hclean hparent hclimb _)

/-- What must hold for a folder that is gone to be forgotten rightly, where it has no path. -/
def ForgetFree (driveRoot : FileId) (v : View) (id : FileId) : Prop :=
  (∀ p, v.entry id ≠ some (some p)) →
    Free driveRoot { v with entry := update v.entry id none } id ((up v.tree id).map Prod.snd)

theorem forgetFolder_consistent (hcache : Sound cache)
    (hv : Consistent driveRoot ⟨tree, dirty, cache.entry⟩)
    (hdirty : ∀ x, x ≠ id → (dirty' x ↔ dirty x))
    (hfree : ForgetFree driveRoot ⟨tree, dirty, (cache.get id).2.entry⟩ id) :
    Sound (forgetFolder fold id cache) ∧
      Consistent driveRoot ⟨tree, dirty', (forgetFolder fold id cache).entry⟩ := by
  obtain ⟨hgot, hsound₁, hfewer₁⟩ := get_spec hcache id
  have hself := entry_get_self hcache id
  have hv₁ := hv.fewer hfewer₁
  have hunpathed : (∀ p, cache.entry id ≠ some (some p)) →
      Sound ((cache.get id).2.forgetMemo id) ∧
        Consistent driveRoot ⟨tree, dirty', ((cache.get id).2.forgetMemo id).entry⟩ := by
    intro hentry
    have hentry₁ : ∀ p, (cache.get id).2.entry id ≠ some (some p) :=
      fun p hp => hentry p (hself.symm.trans hp)
    obtain ⟨hsound, heq⟩ := forgetMemo_spec hsound₁ id hentry₁
    have hfewer : Fewer (update (cache.get id).2.entry id none) (cache.get id).2.entry := by
      intro x
      by_cases hx : x = id
      · rw [hx]
        exact .inr (update_self id _ _)
      · exact .inl (update_of_ne hx _ _)
    have hv₂ := hv₁.fewer hfewer
    rw [heq]
    refine ⟨hsound, ?_⟩
    by_cases hroot : id = driveRoot
    · subst hroot
      exact hv₂.off_root (fun _ _ => rfl) hdirty
    · refine hv₂.forget hroot (update_self id _ _) hdirty ?_
      intro below name above names hbelow hne hclean hparent hclimb
      obtain ⟨hpath, hnote⟩ := hfree hentry₁ below name above names hbelow hne hclean hparent hclimb
      refine ⟨hpath, fun h name' top hup names' top' hclimb' base hstands => ?_⟩
      obtain ⟨n, hn⟩ := hclimb'.grounded hstands
      refine hnote h top ?_ n _ hn
      rw [show up tree id = some (name', top) from hup]
      rfl
  unfold forgetFolder
  dsimp only
  rw [hgot]
  cases hentry : cache.entry id with
  | none => exact hunpathed (by simp [hentry])
  | some cached =>
    cases cached with
    | none => exact hunpathed (by simp [hentry])
    | some old =>
      obtain ⟨hsound₂, hfewer₂, hnotes, hpaths⟩ := invalidateSubtree_spec hsound₁ fold old
      have hold : (cache.get id).2.entry id = some (some old) := hself.trans hentry
      have hv₂ := hv₁.fewer hfewer₂
      refine ⟨hsound₂, ?_⟩
      by_cases hroot : id = driveRoot
      · subst hroot
        exact hv₂.off_root (fun _ _ => rfl) hdirty
      · have hgone : ((cache.get id).2.invalidateSubtree fold old).entry id = none := by
          cases hleft : ((cache.get id).2.invalidateSubtree fold old).entry id with
          | none => rfl
          | some cached =>
            cases cached with
            | none => exact absurd hleft (hnotes id)
            | some p =>
              have hp := hfewer₂.of_some hleft
              rw [hold] at hp
              obtain rfl := Option.some.inj (Option.some.inj hp)
              exact absurd (.inl rfl) (hpaths id old hleft).2
        refine hv₂.forget hroot hgone hdirty ?_
        intro below name above names hbelow _ hclean hparent hclimb
        refine ⟨fun p hp => ?_, fun hnote => absurd hnote (hnotes below)⟩
        exact nothing_rests hv₁ hroot hold (hpaths below _ hp).1 hfewer₂
          (fun x p hp => (hpaths x p hp).2) hbelow hclean hparent hclimb _ hp

end Portuni.DriveFolders
