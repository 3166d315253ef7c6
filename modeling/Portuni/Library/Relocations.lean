import Mathlib.Data.List.Nodup

/-!
Things that go to new places one after the other. In a list of goings each finds its place clear
at its turn exactly when nothing in the list goes to where something later in the list still is.
-/

namespace Portuni.Library.Relocations

variable {α P : Type*} [DecidableEq α] {cur tgt : α → P} {items gone order : List α} {x y : α}

/-- Where a thing is once `gone` have gone. -/
def place (cur tgt : α → P) (gone : List α) (x : α) : P := if x ∈ gone then tgt x else cur x

theorem place_of_mem (h : x ∈ gone) : place cur tgt gone x = tgt x := if_pos h

theorem place_of_notMem (h : x ∉ gone) : place cur tgt gone x = cur x := if_neg h

theorem place_append_singleton (cur tgt : α → P) (gone : List α) (x y : α) :
    place cur tgt (gone ++ [x]) y = if y = x then tgt x else place cur tgt gone y := by
  by_cases heq : y = x
  · subst heq
    simp [place]
  · simp [place, heq]

def Clear (cur tgt : α → P) (items gone : List α) (x : α) : Prop :=
  ∀ y ∈ items, y ≠ x → place cur tgt gone y ≠ tgt x

def CarriedOut (cur tgt : α → P) (items : List α) : List α → List α → Prop
  | _, [] => True
  | gone, x :: rest =>
    Clear cur tgt items gone x ∧ CarriedOut cur tgt items (gone ++ [x]) rest

def EndsApart (cur tgt : α → P) (items order : List α) : Prop :=
  ∀ x ∈ items, ∀ y ∈ items, place cur tgt order x = place cur tgt order y → x = y

theorem clear_iff {rest : List α} (hnodup : (gone ++ x :: rest).Nodup)
    (hmem : ∀ y ∈ gone ++ x :: rest, y ∈ items)
    (apart : EndsApart cur tgt items (gone ++ x :: rest)) :
    Clear cur tgt items gone x ↔ ∀ y ∈ rest, tgt x ≠ cur y := by
  obtain ⟨-, hrest, hdisjoint⟩ := List.nodup_append.mp hnodup
  have hx : x ∈ gone ++ x :: rest := List.mem_append_right _ List.mem_cons_self
  constructor
  · intro clear y hy heq
    have hne : y ≠ x := fun heq => (List.nodup_cons.mp hrest).1 (heq ▸ hy)
    have hgone : y ∉ gone := fun hgone => hdisjoint y hgone y (List.mem_cons_of_mem _ hy) rfl
    refine clear y (hmem y ?_) hne ((place_of_notMem hgone).trans heq.symm)
    exact List.mem_append_right _ (List.mem_cons_of_mem _ hy)
  · intro hlater y hy hne heq
    by_cases horder : y ∈ gone ++ x :: rest
    · by_cases hgone : y ∈ gone
      · refine hne (apart y hy x (hmem x hx) ?_)
        rw [place_of_mem horder, place_of_mem hx, ← heq, place_of_mem hgone]
      · have hyrest : y ∈ rest := by
          rcases List.mem_append.mp horder with h | h
          · exact absurd h hgone
          · exact (List.mem_cons.mp h).resolve_left hne
        exact hlater y hyrest (heq.symm.trans (place_of_notMem hgone))
    · have hgone : y ∉ gone := fun h => horder (List.mem_append_left _ h)
      refine hne (apart y hy x (hmem x hx) ?_)
      rw [place_of_notMem horder, place_of_mem hx, ← heq, place_of_notMem hgone]

theorem carriedOut_iff_pairwise (hnodup : (gone ++ order).Nodup)
    (hmem : ∀ y ∈ gone ++ order, y ∈ items) (apart : EndsApart cur tgt items (gone ++ order)) :
    CarriedOut cur tgt items gone order ↔ order.Pairwise fun x y => tgt x ≠ cur y := by
  induction order generalizing gone with
  | nil => simp [CarriedOut]
  | cons x rest ih =>
    have happend : gone ++ x :: rest = (gone ++ [x]) ++ rest := by simp
    rw [CarriedOut, List.pairwise_cons, clear_iff hnodup hmem apart,
      ih (happend ▸ hnodup) (happend ▸ hmem) (happend ▸ apart)]

end Portuni.Library.Relocations
