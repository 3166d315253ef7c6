import Mathlib.Data.List.Induction
import Mathlib.Data.List.Nodup

/-!
A map that iterates in the order its keys were first written, as a list of its
entries: a write to a key that is there takes over the place of the entry.
-/

namespace Portuni.Library.InsertionOrder

universe u v

variable {α : Type u} {κ : Type v} (key : α → κ)

def IsLast (writes : List α) (a : α) : Prop :=
  ∃ before after, writes = before ++ a :: after ∧ ∀ b ∈ after, key b ≠ key a

/-- A write of `k` comes before any write of `k'`. -/
def FirstBefore (writes : List α) (k k' : κ) : Prop :=
  k ≠ k' ∧ ∃ before a after, writes = before ++ a :: after ∧ key a = k ∧ ∀ b ∈ before, key b ≠ k'

variable {key} {writes entries front rest : List α} {a b d : α} {k k' : κ}

theorem isLast_append_singleton :
    IsLast key (writes ++ [d]) a ↔ a = d ∨ IsLast key writes a ∧ key a ≠ key d := by
  constructor
  · rintro ⟨before, after, hsplit, hlast⟩
    rcases List.eq_nil_or_concat after with rfl | ⟨rest, e, rfl⟩
    · left
      exact (List.singleton_inj.mp (List.append_inj' hsplit rfl).2).symm
    · right
      rw [List.concat_eq_append] at hsplit hlast
      have hshift : writes ++ [d] = (before ++ a :: rest) ++ [e] := by simpa using hsplit
      obtain ⟨rfl, hd⟩ := List.append_inj' hshift rfl
      obtain rfl := List.singleton_inj.mp hd
      exact ⟨⟨before, rest, rfl, fun b hb => hlast b (List.mem_append_left _ hb)⟩,
        fun heq => hlast d (by simp) heq.symm⟩
  · rintro (rfl | ⟨⟨before, after, rfl, hlast⟩, hne⟩)
    · exact ⟨writes, [], rfl, fun b hb => by cases hb⟩
    · refine ⟨before, after ++ [d], by simp, fun b hb => ?_⟩
      rcases List.mem_append.mp hb with hb | hb
      · exact hlast b hb
      · rw [List.mem_singleton.mp hb]
        exact hne.symm

theorem mem_of_isLast (h : IsLast key writes a) : a ∈ writes := by
  obtain ⟨before, after, rfl, -⟩ := h
  simp

theorem firstBefore_append_singleton : FirstBefore key (writes ++ [d]) k k' ↔
    FirstBefore key writes k k' ∨ k ≠ k' ∧ key d = k ∧ ∀ b ∈ writes, key b ≠ k' := by
  constructor
  · rintro ⟨hne, before, a, after, hsplit, hkey, hbefore⟩
    rcases List.eq_nil_or_concat after with rfl | ⟨rest, e, rfl⟩
    · obtain ⟨rfl, hd⟩ := List.append_inj' hsplit rfl
      obtain rfl := List.singleton_inj.mp hd
      exact .inr ⟨hne, hkey, hbefore⟩
    · rw [List.concat_eq_append] at hsplit
      have hshift : writes ++ [d] = (before ++ a :: rest) ++ [e] := by simpa using hsplit
      obtain ⟨rfl, -⟩ := List.append_inj' hshift rfl
      exact .inl ⟨hne, before, a, rest, rfl, hkey, hbefore⟩
  · rintro (⟨hne, before, a, after, rfl, hkey, hbefore⟩ | ⟨hne, hkey, hbefore⟩)
    · exact ⟨hne, before, a, after ++ [d], by simp, hkey, hbefore⟩
    · exact ⟨hne, writes, d, [], rfl, hkey, hbefore⟩

theorem FirstBefore.asymm (h : FirstBefore key writes k k') : ¬ FirstBefore key writes k' k := by
  rintro ⟨-, before', a', after', hsplit', hkey', hbefore'⟩
  obtain ⟨hne, before, a, after, hsplit, hkey, hbefore⟩ := h
  rw [hsplit] at hsplit'
  rcases List.append_eq_append_iff.mp hsplit' with ⟨rest, rfl, hrest⟩ | ⟨rest, rfl, hrest⟩
  · cases rest with
    | nil =>
      obtain rfl : a = a' := (List.cons.inj hrest).1
      exact hne (hkey.symm.trans hkey')
    | cons b rest =>
      obtain rfl : a = b := (List.cons.inj hrest).1
      exact hbefore' a (by simp) hkey
  · cases rest with
    | nil =>
      obtain rfl : a' = a := (List.cons.inj hrest).1
      exact hne (hkey.symm.trans hkey')
    | cons b rest =>
      obtain rfl : a' = b := (List.cons.inj hrest).1
      exact hbefore a' (by simp) hkey'

variable [DecidableEq κ]

variable (key) in
def set (entries : List α) (a : α) : List α :=
  if entries.any fun b => decide (key b = key a) then
    entries.map fun b => if key b = key a then a else b
  else entries ++ [a]

variable (key) in
def collect (writes : List α) : List α :=
  writes.foldl (set key) []

theorem collect_append_singleton : collect key (writes ++ [d]) = set key (collect key writes) d :=
  by
  rw [collect, List.foldl_append]
  rfl

theorem set_of_mem (h : key d ∈ entries.map key) :
    set key entries d = entries.map fun b => if key b = key d then d else b := by
  obtain ⟨b, hb, hkey⟩ := List.mem_map.mp h
  exact if_pos (List.any_eq_true.mpr ⟨b, hb, decide_eq_true hkey⟩)

theorem set_of_not_mem (h : key d ∉ entries.map key) : set key entries d = entries ++ [d] := by
  refine if_neg fun hany => h ?_
  obtain ⟨b, hb, hkey⟩ := List.any_eq_true.mp hany
  exact List.mem_map.mpr ⟨b, hb, of_decide_eq_true hkey⟩

theorem keys_set : (set key entries d).map key =
    if key d ∈ entries.map key then entries.map key else entries.map key ++ [key d] := by
  split
  next h =>
    rw [set_of_mem h, List.map_map]
    apply List.map_congr_left
    intro b _
    show key (if key b = key d then d else b) = key b
    split
    · exact Eq.symm ‹_›
    · rfl
  next h =>
    rw [set_of_not_mem h, List.map_append]
    rfl

theorem mem_set : a ∈ set key entries d ↔ a = d ∨ a ∈ entries ∧ key a ≠ key d := by
  by_cases h : key d ∈ entries.map key
  · rw [set_of_mem h, List.mem_map]
    constructor
    · rintro ⟨b, hb, rfl⟩
      split
      · exact .inl rfl
      · exact .inr ⟨hb, ‹_›⟩
    · rintro (rfl | ⟨ha, hne⟩)
      · obtain ⟨b, hb, hkey⟩ := List.mem_map.mp h
        exact ⟨b, hb, if_pos hkey⟩
      · exact ⟨a, ha, if_neg hne⟩
  · rw [set_of_not_mem h, List.mem_append, List.mem_singleton]
    constructor
    · rintro (ha | rfl)
      · exact .inr ⟨ha, fun hkey => h (List.mem_map.mpr ⟨a, ha, hkey⟩)⟩
      · exact .inl rfl
    · rintro (rfl | ⟨ha, -⟩)
      · exact .inr rfl
      · exact .inl ha

theorem mem_keys_collect : k ∈ (collect key writes).map key ↔ k ∈ writes.map key := by
  induction writes using List.reverseRecOn with
  | nil => exact Iff.rfl
  | append_singleton writes d ih =>
    rw [collect_append_singleton, keys_set, List.map_append, List.mem_append]
    split
    next h =>
      constructor
      · exact fun hk => .inl (ih.mp hk)
      · rintro (hk | hk)
        · exact ih.mpr hk
        · rw [List.mem_singleton.mp hk]
          exact h
    next h => rw [List.mem_append, ih]; rfl

theorem nodup_collect : ((collect key writes).map key).Nodup := by
  induction writes using List.reverseRecOn with
  | nil => exact List.nodup_nil
  | append_singleton writes d ih =>
    rw [collect_append_singleton, keys_set]
    split
    · exact ih
    next h =>
      rw [List.nodup_append]
      refine ⟨ih, List.nodup_singleton _, fun k hk k' hk' heq => h ?_⟩
      rw [← List.mem_singleton.mp hk', ← heq]
      exact hk

theorem mem_collect : a ∈ collect key writes ↔ IsLast key writes a := by
  induction writes using List.reverseRecOn with
  | nil =>
    constructor
    · intro h
      cases h
    · rintro ⟨before, after, hsplit, -⟩
      simp at hsplit
  | append_singleton writes d ih =>
    rw [collect_append_singleton, mem_set, isLast_append_singleton, ih]

theorem mem_of_mem_collect (h : a ∈ collect key writes) : a ∈ writes :=
  mem_of_isLast (mem_collect.mp h)

theorem firstBefore_of_keys {front rest : List κ}
    (h : (collect key writes).map key = front ++ k :: rest) (hk' : k' ∈ rest) :
    FirstBefore key writes k k' := by
  induction writes using List.reverseRecOn generalizing front rest with
  | nil => simp [collect] at h
  | append_singleton writes d ih =>
    rw [collect_append_singleton, keys_set] at h
    rw [firstBefore_append_singleton]
    split at h
    next => exact .inl (ih h hk')
    next hnew =>
      rcases List.eq_nil_or_concat rest with rfl | ⟨rest, e, rfl⟩
      · cases hk'
      · rw [List.concat_eq_append] at h hk'
        have hshift : (collect key writes).map key ++ [key d] = (front ++ k :: rest) ++ [e] := by
          simpa using h
        obtain ⟨hkeys, hd⟩ := List.append_inj' hshift rfl
        left
        rcases List.mem_append.mp hk' with hk' | hk'
        · exact ih hkeys hk'
        · have hk : k ∈ (collect key writes).map key := by simp [hkeys]
          obtain ⟨a, ha, rfl⟩ := List.mem_map.mp (mem_keys_collect.mp hk)
          obtain ⟨before, after, rfl⟩ := List.append_of_mem ha
          have hlast : k' = key d := by
            rw [List.mem_singleton.mp hk', List.singleton_inj.mp hd]
          refine ⟨fun heq => hnew ?_, before, a, after, rfl, rfl, fun b hb heq => hnew ?_⟩
          · rw [← hlast, ← heq]
            exact hk
          · rw [← hlast, ← heq]
            exact mem_keys_collect.mpr (List.mem_map.mpr ⟨b, List.mem_append_left _ hb, rfl⟩)

theorem mem_behind (h : collect key writes = front ++ a :: rest) :
    b ∈ rest ↔ IsLast key writes b ∧ FirstBefore key writes (key a) (key b) := by
  have hkeys : (collect key writes).map key = front.map key ++ key a :: rest.map key := by
    rw [h, List.map_append, List.map_cons]
  constructor
  · intro hb
    exact ⟨mem_collect.mp (by simp [h, hb]),
      firstBefore_of_keys hkeys (List.mem_map.mpr ⟨b, hb, rfl⟩)⟩
  · rintro ⟨hlast, hfirst⟩
    have hb := mem_collect.mpr hlast
    rw [h, List.mem_append, List.mem_cons] at hb
    rcases hb with hb | rfl | hb
    · obtain ⟨before, after, rfl⟩ := List.append_of_mem hb
      have hsplit : (collect key writes).map key =
          before.map key ++ key b :: (after.map key ++ key a :: rest.map key) := by
        rw [hkeys]
        simp
      exact absurd (firstBefore_of_keys hsplit (by simp)) hfirst.asymm
    · exact absurd rfl hfirst.1
    · exact hb

end Portuni.Library.InsertionOrder
