import Portuni.DriveFolders.Model

/-!
What the two tiers hold together: one entry for an id, which reading, writing and dropping change
as the operations' names say, except that an entry can be gone at any time.
-/

namespace Portuni.DriveFolders

open Function

/-- What is cached: nothing, that the root is not reached, or a path. -/
abbrev Entries := FileId → Option (Option String)

def FolderPathCache.entry (cache : FolderPathCache) : Entries := fun id =>
  match cache.memo.lookup id with
  | some hit => some hit
  | none => (cache.store.bind fun rows => rows id).map some

def Fewer (e' e : Entries) : Prop := ∀ id, e' id = e id ∨ e' id = none

theorem Fewer.refl (e : Entries) : Fewer e e := fun _ => .inl rfl

theorem Fewer.trans {e e' e'' : Entries} (h : Fewer e'' e') (h' : Fewer e' e) : Fewer e'' e := by
  intro id
  rcases h id with heq | hnone
  · rw [heq]
    exact h' id
  · exact .inr hnone

variable {e e' : Entries}

theorem Fewer.of_none {id : FileId} (h : Fewer e' e) (hid : e id = none) : e' id = none := by
  rcases h id with heq | hnone
  · rw [heq, hid]
  · exact hnone

theorem Fewer.of_some {id : FileId} {v : Option String} (h : Fewer e' e) (hid : e' id = some v) :
    e id = some v := by
  rcases h id with heq | hnone
  · rw [← heq, hid]
  · rw [hnone] at hid
    cases hid

theorem Fewer.update (h : Fewer e' e) (id : FileId) (v : Option (Option String)) :
    Fewer (update e' id v) (update e id v) := by
  intro x
  by_cases hx : x = id
  · subst hx
    simp
  · simp only [update_of_ne hx]
    exact h x

/-- The tiers do not contradict each other, and the memo has no key twice. -/
structure Sound (cache : FolderPathCache) : Prop where
  nodup : (cache.memo.map Prod.fst).Nodup
  agrees : ∀ id v p, cache.memo.lookup id = some v →
    (cache.store.bind fun rows => rows id) = some p → v = some p

section

variable {α β : Type} [DecidableEq α] {l l' : List (α × β)} {a b : α} {v : β}

theorem lookup_eq_some_iff (hnodup : (l.map Prod.fst).Nodup) :
    l.lookup a = some v ↔ (a, v) ∈ l := by
  induction l with
  | nil => simp
  | cons entry l ih =>
    obtain ⟨k, w⟩ := entry
    simp only [List.map_cons, List.nodup_cons] at hnodup
    by_cases hk : a = k
    · subst hk
      rw [List.lookup_cons_self]
      constructor
      · intro h
        obtain rfl := Option.some.inj h
        exact List.mem_cons_self
      · intro h
        rcases List.mem_cons.mp h with heq | hmem
        · rw [(Prod.mk.inj heq).2]
        · exact absurd (List.mem_map.mpr ⟨_, hmem, rfl⟩) hnodup.1
    · rw [List.lookup_cons, show (a == k) = false by simpa using hk]
      simp only [ih hnodup.2, List.mem_cons, Prod.mk.injEq, hk, false_and, false_or]

theorem lookup_of_sublist (hnodup : (l.map Prod.fst).Nodup) (hsub : l'.Sublist l)
    (h : l'.lookup a = some v) : l.lookup a = some v := by
  have hnodup' : (l'.map Prod.fst).Nodup := hnodup.sublist (hsub.map Prod.fst)
  exact (lookup_eq_some_iff hnodup).mpr (hsub.subset ((lookup_eq_some_iff hnodup').mp h))

theorem lookup_moved (a b : α) (v : β) (l : List (α × β)) :
    (l.filter (·.1 ≠ a) ++ [(a, v)]).lookup b = if b = a then some v else l.lookup b := by
  induction l with
  | nil =>
    by_cases hb : b = a
    · subst hb
      simp
    · rw [if_neg hb, List.filter_nil, List.nil_append, List.lookup_cons,
        show (b == a) = false by simpa using hb]
  | cons entry l ih =>
    obtain ⟨k, w⟩ := entry
    by_cases hk : k = a
    · subst hk
      rw [List.filter_cons_of_neg (by simp), ih]
      by_cases hb : b = k
      · rw [if_pos hb, if_pos hb]
      · rw [if_neg hb, if_neg hb, List.lookup_cons, show (b == k) = false by simpa using hb]
    · rw [List.filter_cons_of_pos (by simpa using hk), List.cons_append, List.lookup_cons,
        List.lookup_cons, ih]
      by_cases hb : b = k
      · subst hb
        simp [hk]
      · rw [show (b == k) = false by simpa using hb]

end

variable {cache : FolderPathCache} {id : FileId} {v : Option String}

theorem Sound.drop_memo (h : Sound cache) {memo : List (FileId × Option String)}
    (hsub : memo.Sublist cache.memo) :
    Sound { cache with memo } ∧ Fewer (FolderPathCache.entry { cache with memo }) cache.entry := by
  refine ⟨⟨h.nodup.sublist (hsub.map Prod.fst), ?_⟩, ?_⟩
  · intro x w p hw hrow
    exact h.agrees x w p (lookup_of_sublist h.nodup hsub hw) hrow
  · intro x
    unfold FolderPathCache.entry
    dsimp only
    cases hmemo : memo.lookup x with
    | some w =>
      rw [lookup_of_sublist h.nodup hsub hmemo]
      exact .inl rfl
    | none =>
      cases hold : cache.memo.lookup x with
      | none => exact .inl rfl
      | some w =>
        cases hrow : cache.store.bind fun rows => rows x with
        | none => exact .inr rfl
        | some p =>
          rw [h.agrees x w p hold hrow]
          exact .inl rfl

def moved (cache : FolderPathCache) (id : FileId) (v : Option String) : FolderPathCache :=
  { cache with memo := cache.memo.filter (·.1 ≠ id) ++ [(id, v)] }

theorem touch_moved (cache : FolderPathCache) (id : FileId) (v : Option String) :
    cache.touch id v = { moved cache id v with
      memo := (moved cache id v).memo.drop ((moved cache id v).memo.length - cache.max) } := rfl

theorem nodup_moved (h : Sound cache) (id : FileId) (v : Option String) :
    ((moved cache id v).memo.map Prod.fst).Nodup := by
  unfold moved
  rw [List.map_append, List.nodup_append]
  refine ⟨h.nodup.sublist (List.filter_sublist.map Prod.fst), by simp, ?_⟩
  intro a ha b hb
  obtain ⟨entry, hentry, rfl⟩ := List.mem_map.mp ha
  have hne : entry.1 ≠ id := by simpa using (List.mem_filter.mp hentry).2
  rw [show b = id by simpa using hb]
  exact hne

theorem entry_moved (cache : FolderPathCache) (id : FileId) (v : Option String) :
    (moved cache id v).entry = update cache.entry id (some v) := by
  funext x
  simp only [FolderPathCache.entry, moved, lookup_moved]
  by_cases hx : x = id
  · subst hx
    simp
  · rw [if_neg hx, update_of_ne hx]
    rfl

variable (h : Sound cache)

include h

variable (hrow : ∀ p, (cache.store.bind fun rows => rows id) = some p → v = some p)

include hrow

theorem sound_moved : Sound (moved cache id v) := by
  refine ⟨nodup_moved h id v, ?_⟩
  intro x w p hw hx
  simp only [moved, lookup_moved] at hw
  split at hw
  next heq =>
    subst heq
    obtain rfl := Option.some.inj hw
    exact hrow p hx
  next => exact h.agrees x w p hw hx

theorem touch_spec :
    Sound (cache.touch id v) ∧ Fewer (cache.touch id v).entry (update cache.entry id (some v)) := by
  rw [touch_moved, ← entry_moved]
  exact (sound_moved h hrow).drop_memo (List.drop_sublist _ _)

omit hrow

theorem entry_touch_self (id : FileId) (v : Option String) :
    (cache.touch id v).entry id = some v := by
  have hmem : (id, v) ∈ (cache.touch id v).memo := by
    have hpos := cache.max_pos
    unfold FolderPathCache.touch
    simp only [List.length_append, List.length_singleton]
    rw [List.drop_append_of_le_length (by omega)]
    exact List.mem_append_right _ List.mem_cons_self
  have hnodup : ((cache.touch id v).memo.map Prod.fst).Nodup :=
    (nodup_moved h id v).sublist ((List.drop_sublist _ _).map Prod.fst)
  unfold FolderPathCache.entry
  rw [(lookup_eq_some_iff hnodup).mpr hmem]

theorem get_spec (id : FileId) :
    (cache.get id).1 = cache.entry id ∧ Sound (cache.get id).2 ∧
      Fewer (cache.get id).2.entry cache.entry := by
  unfold FolderPathCache.get FolderPathCache.entry
  cases hmemo : cache.memo.lookup id with
  | some hit =>
    have hspec := @touch_spec cache id hit h fun p hp => h.agrees id hit p hmemo hp
    have hsame : update cache.entry id (some hit) = cache.entry := by
      rw [update_eq_self_iff, FolderPathCache.entry, hmemo]
    rw [hsame] at hspec
    exact ⟨rfl, hspec⟩
  | none =>
    cases hrow : cache.store.bind fun rows => rows id with
    | none => exact ⟨rfl, h, Fewer.refl _⟩
    | some row =>
      have hspec := @touch_spec cache id (some row) h fun p hp => by
        rw [hrow] at hp
        exact hp
      have hsame : update cache.entry id (some (some row)) = cache.entry := by
        rw [update_eq_self_iff, FolderPathCache.entry, hmemo, hrow]
        rfl
      rw [hsame] at hspec
      exact ⟨rfl, hspec⟩

theorem entry_get_self (id : FileId) : (cache.get id).2.entry id = cache.entry id := by
  unfold FolderPathCache.get
  split
  next hit hmemo =>
    rw [entry_touch_self h, FolderPathCache.entry, hmemo]
  next hmemo =>
    split
    next row hrow =>
      rw [entry_touch_self h, FolderPathCache.entry, hmemo, hrow]
      rfl
    next => rfl

omit h

theorem get_miss (h : (cache.get id).1 = none) : (cache.get id).2 = cache := by
  unfold FolderPathCache.get at h ⊢
  split at h
  · cases h
  · split at h
    · cases h
    · rfl

theorem set_spec (h : Sound cache) (hset : v = none → ∀ p, cache.entry id ≠ some (some p)) :
    Sound (cache.set id v) ∧ Fewer (cache.set id v).entry (update cache.entry id (some v)) := by
  cases v with
  | none =>
    refine touch_spec h fun p hp => ?_
    refine absurd ?_ (hset rfl p)
    unfold FolderPathCache.entry
    cases hmemo : cache.memo.lookup id with
    | none => rw [hp]; rfl
    | some w => rw [h.agrees id w p hmemo hp]
  | some p =>
    let rowed : FolderPathCache :=
      { moved cache id (some p) with
        store := cache.store.map fun rows => update rows id (some p) }
    have hentry : rowed.entry = update cache.entry id (some (some p)) := by
      rw [← entry_moved]
      funext x
      simp only [FolderPathCache.entry, rowed, moved, lookup_moved]
      by_cases hx : x = id
      · rw [if_pos hx]
      · rw [if_neg hx]
        cases cache.store with
        | none => rfl
        | some rows => simp [update_of_ne hx]
    have hsound : Sound rowed := by
      refine ⟨nodup_moved h id (some p), ?_⟩
      intro x w q hw hx
      simp only [rowed, moved, lookup_moved] at hw
      split at hw
      next heq =>
        subst heq
        obtain rfl := Option.some.inj hw
        cases hstore : cache.store with
        | none => simp [rowed, hstore] at hx
        | some rows => simpa [rowed, hstore] using hx
      next hne =>
        refine h.agrees x w q hw ?_
        cases hstore : cache.store with
        | none => simp [rowed, hstore] at hx
        | some rows => simpa [rowed, hstore, update_of_ne hne] using hx
    rw [← hentry]
    exact hsound.drop_memo (List.drop_sublist _ _)

theorem entry_clear (cache : FolderPathCache) : cache.clear.entry = fun _ => none := by
  funext x
  unfold FolderPathCache.clear FolderPathCache.entry
  cases cache.store <;> rfl

theorem sound_clear (cache : FolderPathCache) : Sound cache.clear := by
  refine ⟨by simp [FolderPathCache.clear], ?_⟩
  intro x w p hw
  cases hw

theorem forgetMemo_spec (h : Sound cache) (id : FileId)
    (hid : ∀ p, cache.entry id ≠ some (some p)) :
    Sound (cache.forgetMemo id) ∧ (cache.forgetMemo id).entry = update cache.entry id none := by
  have hsub : (cache.memo.filter (·.1 ≠ id)).Sublist cache.memo := List.filter_sublist
  refine ⟨(h.drop_memo hsub).1, ?_⟩
  funext x
  have hmoved := lookup_moved id x none cache.memo
  rw [List.lookup_append] at hmoved
  unfold FolderPathCache.forgetMemo FolderPathCache.entry
  dsimp only
  by_cases hx : x = id
  · subst hx
    have hgone : (cache.memo.filter (·.1 ≠ x)).lookup x = none := by
      rw [List.lookup_eq_none_iff]
      intro entry hentry
      have hne : entry.1 ≠ x := by simpa using (List.mem_filter.mp hentry).2
      simpa using hne.symm
    rw [hgone, update_self]
    cases hrow : cache.store.bind fun rows => rows x with
    | none => rfl
    | some p =>
      refine absurd ?_ (hid p)
      unfold FolderPathCache.entry
      cases hmemo : cache.memo.lookup x with
      | none => rw [hrow]; rfl
      | some w => rw [h.agrees x w p hmemo hrow]
  · have hother : [(id, (none : Option String))].lookup x = none := by
      rw [List.lookup_cons, show (x == id) = false by simpa using hx]
      rfl
    rw [if_neg hx, hother, Option.or_none] at hmoved
    rw [hmoved, update_of_ne hx]

def AtOrBelow (path p : String) : Prop :=
  p = path ∨ RemotePaths.startsWith p (path ++ "/") = true

theorem startsWith_like (fold : Char → Char) {start text : String}
    (h : RemotePaths.startsWith text start = true) : like fold start text = true := by
  unfold like
  rw [List.isPrefixOf_iff_prefix]
  unfold RemotePaths.startsWith at h
  exact (List.isPrefixOf_iff_prefix.mp h).map fold

theorem invalidateSubtree_spec (h : Sound cache) (fold : Char → Char) (path : String) :
    Sound (cache.invalidateSubtree fold path) ∧
      Fewer (cache.invalidateSubtree fold path).entry cache.entry ∧
      (∀ x, (cache.invalidateSubtree fold path).entry x ≠ some none) ∧
      ∀ x p, (cache.invalidateSubtree fold path).entry x = some (some p) →
        path ≠ "" ∧ ¬AtOrBelow path p := by
  unfold FolderPathCache.invalidateSubtree
  split
  next =>
    rw [entry_clear]
    exact ⟨sound_clear cache, fun _ => .inr rfl, by simp, by simp⟩
  next hpath =>
    let kept := fun entry : FileId × Option String =>
      !(entry.2 = none || entry.2 = some path ||
        entry.2.any fun cached => RemotePaths.startsWith cached (path ++ "/"))
    have hsub : (cache.memo.filter kept).Sublist cache.memo := List.filter_sublist
    have hrows : ∀ x p, ((cache.store.map (deleteSubtree fold path)).bind fun rows => rows x) =
        some p → (cache.store.bind fun rows => rows x) = some p ∧ ¬AtOrBelow path p := by
      intro x p hp
      cases hstore : cache.store with
      | none => simp [hstore] at hp
      | some rows =>
        simp only [hstore, Option.map_some, Option.bind_some, deleteSubtree,
          Option.filter_eq_some_iff, Bool.not_eq_true', Bool.or_eq_false_iff,
          decide_eq_false_iff_not] at hp
        refine ⟨hp.1, ?_⟩
        rintro (heq | hbelow)
        · exact hp.2.1 heq
        · rw [startsWith_like fold hbelow] at hp
          cases hp.2.2
    have hmemo : ∀ x v, (cache.memo.filter kept).lookup x = some v →
        cache.memo.lookup x = some v ∧ kept (x, v) = true := by
      intro x v hv
      have hmem := (lookup_eq_some_iff (h.nodup.sublist (hsub.map Prod.fst))).mp hv
      exact ⟨lookup_of_sublist h.nodup hsub hv, (List.mem_filter.mp hmem).2⟩
    refine ⟨⟨h.nodup.sublist (hsub.map Prod.fst), ?_⟩, ?_, ?_, ?_⟩
    · intro x v p hv hp
      exact h.agrees x v p (hmemo x v hv).1 (hrows x p hp).1
    · intro x
      unfold FolderPathCache.entry
      dsimp only
      cases hv : (cache.memo.filter kept).lookup x with
      | some v =>
        rw [(hmemo x v hv).1]
        exact .inl rfl
      | none =>
        cases hp : (cache.store.map (deleteSubtree fold path)).bind fun rows => rows x with
        | none => exact .inr rfl
        | some p =>
          have hrow := (hrows x p hp).1
          cases hold : cache.memo.lookup x with
          | none =>
            rw [hrow]
            exact .inl rfl
          | some w =>
            rw [h.agrees x w p hold hrow]
            exact .inl rfl
    · intro x hx
      unfold FolderPathCache.entry at hx
      dsimp only at hx
      cases hv : (cache.memo.filter kept).lookup x with
      | some v =>
        rw [hv] at hx
        obtain rfl := Option.some.inj hx
        simpa [kept] using (hmemo x none hv).2
      | none =>
        rw [hv] at hx
        obtain ⟨q, -, hq⟩ := Option.map_eq_some_iff.mp hx
        cases hq
    · intro x p hx
      refine ⟨hpath, ?_⟩
      unfold FolderPathCache.entry at hx
      dsimp only at hx
      cases hv : (cache.memo.filter kept).lookup x with
      | some v =>
        rw [hv] at hx
        obtain rfl := Option.some.inj hx
        have hkept := (hmemo x (some p) hv).2
        simp only [kept, Bool.not_eq_true', Bool.or_eq_false_iff, decide_eq_false_iff_not,
          Option.any_some, Option.some.injEq] at hkept
        rintro (heq | hbelow)
        · exact hkept.1.2 heq
        · rw [hkept.2] at hbelow
          cases hbelow
      | none =>
        rw [hv] at hx
        obtain ⟨q, hq, hqp⟩ := Option.map_eq_some_iff.mp hx
        obtain rfl := Option.some.inj hqp
        exact (hrows x q hq).2

end Portuni.DriveFolders
