import Mathlib.Data.List.Sort

/-!
Lists in the strict order of a key: such a list is its set of entries, it is cut by any of
its entries, and merging other entries into it by their keys keeps it so.
-/

namespace Portuni.Library.SortedByKey

variable {α κ : Type*} [LinearOrder κ] {key : α → κ} {l l' items : List α} {a b : α} {n : ℕ}

def Sorted (key : α → κ) (l : List α) : Prop := l.Pairwise fun a b => key a < key b

def Consistent (key : α → κ) (l : List α) : Prop := ∀ a ∈ l, ∀ b ∈ l, key a = key b → a = b

theorem Sorted.eq_of_mem_iff (h : Sorted key l) (h' : Sorted key l') (hmem : ∀ a, a ∈ l ↔ a ∈ l') :
    l = l' := by
  have irrefl : Std.Irrefl fun a b => key a < key b := ⟨fun a => lt_irrefl (key a)⟩
  have asymm : Std.Antisymm fun a b => key a < key b :=
    ⟨fun _ _ hab hba => absurd hba (lt_asymm hab)⟩
  exact List.Pairwise.eq_of_mem_iff h h' hmem

theorem Sorted.consistent (h : Sorted key l) : Consistent key l := by
  induction l with
  | nil => simp [Consistent]
  | cons head tail ih =>
    obtain ⟨hhead, htail⟩ := List.pairwise_cons.mp h
    intro a ha b hb hkey
    rcases List.mem_cons.mp ha with hahead | ha <;> rcases List.mem_cons.mp hb with hbhead | hb
    · rw [hahead, hbhead]
    · exact absurd hkey (hahead ▸ (hhead b hb).ne)
    · exact absurd hkey (hbhead ▸ (hhead a ha).ne')
    · exact ih htail a ha b hb hkey

theorem Sorted.mem_take (h : Sorted key l) (ha : a ∈ l) (hb : b ∈ l.take n) (hle : key a ≤ key b) :
    a ∈ l.take n := by
  rw [← List.take_append_drop n l] at ha h
  rcases List.mem_append.mp ha with htake | hdrop
  · exact htake
  · exact absurd hle (List.pairwise_append.mp h |>.2.2 b hb a hdrop).not_ge

theorem Sorted.pairwise_iff (h : Sorted key l) {R : α → α → Prop} :
    l.Pairwise R ↔ ∀ a ∈ l, ∀ b ∈ l, key a < key b → R a b := by
  constructor
  · intro hpairs a ha b hb hlt
    obtain ⟨i, hi, rfl⟩ := List.getElem_of_mem ha
    obtain ⟨j, hj, rfl⟩ := List.getElem_of_mem hb
    rcases Nat.lt_trichotomy i j with hij | rfl | hji
    · exact List.pairwise_iff_getElem.mp hpairs i j hi hj hij
    · exact absurd hlt (lt_irrefl _)
    · exact absurd hlt (List.pairwise_iff_getElem.mp h j i hj hi hji).not_gt
  · intro hall
    exact List.Pairwise.imp_of_mem (fun {a b} ha hb hlt => hall a ha b hb hlt) h

def fresh (key : α → κ) : List κ → List α → List α
  | _, [] => []
  | seen, item :: items =>
    if key item ∈ seen then fresh key seen items
    else item :: fresh key (key item :: seen) items

/-- `l` with the items of new keys, in the order of the keys. -/
def insertMany (key : α → κ) (l items : List α) : List α :=
  if fresh key (l.map key) items = [] then l
  else (l ++ fresh key (l.map key) items).insertionSort fun a b => key a ≤ key b

theorem mem_fresh {seen : List κ} (ha : a ∈ fresh key seen items) :
    a ∈ items ∧ key a ∉ seen := by
  induction items generalizing seen with
  | nil => simp [fresh] at ha
  | cons item items ih =>
    unfold fresh at ha
    split at ha
    · obtain ⟨hitems, hseen⟩ := ih ha
      exact ⟨List.mem_cons_of_mem _ hitems, hseen⟩
    · rename_i hnew
      rcases List.mem_cons.mp ha with rfl | hrest
      · exact ⟨List.mem_cons_self, hnew⟩
      · obtain ⟨hitems, hseen⟩ := ih hrest
        exact ⟨List.mem_cons_of_mem _ hitems, fun h => hseen (List.mem_cons_of_mem _ h)⟩

theorem pairwise_fresh (seen : List κ) (items : List α) :
    (fresh key seen items).Pairwise fun a b => key a ≠ key b := by
  induction items generalizing seen with
  | nil => exact .nil
  | cons item items ih =>
    unfold fresh
    split
    · exact ih seen
    · refine List.pairwise_cons.mpr ⟨?_, ih _⟩
      intro b hb heq
      exact (mem_fresh hb).2 (heq ▸ List.mem_cons_self)

theorem exists_fresh (seen : List κ) (ha : a ∈ items) :
    key a ∈ seen ∨ ∃ b ∈ fresh key seen items, key b = key a := by
  induction items generalizing seen with
  | nil => cases ha
  | cons item items ih =>
    unfold fresh
    rcases List.mem_cons.mp ha with rfl | htail
    · by_cases hseen : key a ∈ seen
      · exact .inl hseen
      · rw [if_neg hseen]
        exact .inr ⟨a, List.mem_cons_self, rfl⟩
    · split
      · exact ih seen htail
      · rcases ih (key item :: seen) htail with hseen | ⟨b, hb, hkey⟩
        · rcases List.mem_cons.mp hseen with heq | hold
          · exact .inr ⟨item, List.mem_cons_self, heq.symm⟩
          · exact .inl hold
        · exact .inr ⟨b, List.mem_cons_of_mem _ hb, hkey⟩

theorem mem_insertMany : a ∈ insertMany key l items ↔ a ∈ l ∨ a ∈ fresh key (l.map key) items := by
  unfold insertMany
  split
  · rename_i hnone
    simp [hnone]
  · rw [List.mem_insertionSort, List.mem_append]

theorem mem_insertMany_iff (h : Consistent key (l ++ items)) :
    a ∈ insertMany key l items ↔ a ∈ l ∨ a ∈ items := by
  rw [mem_insertMany]
  refine ⟨fun ha => ha.imp_right fun hfresh => (mem_fresh hfresh).1, ?_⟩
  rintro (hold | hitem)
  · exact .inl hold
  · have hright : a ∈ l ++ items := List.mem_append_right _ hitem
    rcases exists_fresh (l.map key) hitem with hseen | ⟨b, hb, hkey⟩
    · obtain ⟨b, hb, hkey⟩ := List.mem_map.mp hseen
      rw [← h b (List.mem_append_left _ hb) a hright hkey]
      exact .inl hb
    · rw [← h b (List.mem_append_right _ (mem_fresh hb).1) a hright hkey]
      exact .inr hb

theorem Sorted.insertMany (h : Sorted key l) (items : List α) :
    Sorted key (insertMany key l items) := by
  unfold SortedByKey.insertMany
  split
  · exact h
  have distinct : (l ++ fresh key (l.map key) items).Pairwise fun a b => key a ≠ key b := by
    refine List.pairwise_append.mpr ⟨h.imp fun hab => hab.ne, pairwise_fresh _ _, ?_⟩
    intro a ha b hb heq
    exact (mem_fresh hb).2 (heq ▸ List.mem_map_of_mem ha)
  have total : Std.Total fun a b => key a ≤ key b := ⟨fun a b => le_total (key a) (key b)⟩
  have transitive : IsTrans α fun a b => key a ≤ key b := ⟨fun _ _ _ => le_trans⟩
  have ordered := List.pairwise_insertionSort (fun a b => key a ≤ key b)
    (l ++ fresh key (l.map key) items)
  have stillDistinct := (List.perm_insertionSort (fun a b => key a ≤ key b)
    (l ++ fresh key (l.map key) items)).pairwise_iff (fun hab => hab.symm) |>.mpr distinct
  refine (ordered.and stillDistinct).imp ?_
  rintro a b ⟨hle, hne⟩
  exact lt_of_le_of_ne hle hne

end Portuni.Library.SortedByKey
