import Mathlib.Data.List.Basic

/-!
What a log of events says about the order of its events, read one event at a time.
-/

namespace Portuni.Library.Histories

universe u

variable {α : Type u} {log : List α} {a b : α}

/-- Every event is one that `P` admits after the events before it. -/
def Each (P : List α → α → Prop) (log : List α) : Prop :=
  ∀ before a after, log = before ++ a :: after → P before a

/-- Some event of the kind `q` comes after one of the kind `p`. -/
def After (p q : α → Prop) (log : List α) : Prop :=
  ∃ before a after, log = before ++ a :: after ∧ p a ∧ ∃ b ∈ after, q b

theorem concat_split {before after : List α} (h : log ++ [b] = before ++ a :: after) :
    (after = [] ∧ before = log ∧ a = b) ∨
      ∃ rest, after = rest ++ [b] ∧ log = before ++ a :: rest := by
  rcases List.eq_nil_or_concat after with rfl | ⟨rest, last, rfl⟩
  · obtain ⟨hlog, hlast⟩ := List.append_inj' h rfl
    exact .inl ⟨rfl, hlog.symm, (List.singleton_inj.mp hlast).symm⟩
  · rw [List.concat_eq_append, ← List.cons_append, ← List.append_assoc] at h
    obtain ⟨hlog, hlast⟩ := List.append_inj' h rfl
    exact .inr ⟨rest, by rw [List.concat_eq_append, List.singleton_inj.mp hlast], hlog⟩

variable {P Q : List α → α → Prop} {p q : α → Prop}

theorem each_nil : Each P [] := by
  intro before a after h
  simp at h

theorem each_concat : Each P (log ++ [b]) ↔ Each P log ∧ P log b := by
  constructor
  · intro h
    refine ⟨fun before a after hlog => h before a (after ++ [b]) (by simp [hlog]), ?_⟩
    exact h log b [] rfl
  · rintro ⟨hlog, hlast⟩ before a after h
    rcases concat_split h with ⟨-, rfl, rfl⟩ | ⟨rest, -, hrest⟩
    · exact hlast
    · exact hlog before a rest hrest

theorem Each.mono (h : Each P log) (hle : ∀ before a, P before a → Q before a) : Each Q log :=
  fun before a after hlog => hle before a (h before a after hlog)

theorem after_concat : After p q (log ++ [b]) ↔ After p q log ∨ q b ∧ ∃ a ∈ log, p a := by
  constructor
  · rintro ⟨before, a, after, h, ha, c, hc, hq⟩
    rcases concat_split h with ⟨rfl, -, -⟩ | ⟨rest, rfl, rfl⟩
    · cases hc
    · rcases List.mem_append.mp hc with hc | hc
      · exact .inl ⟨before, a, rest, rfl, ha, c, hc, hq⟩
      · exact .inr ⟨List.mem_singleton.mp hc ▸ hq, a, by simp, ha⟩
  · rintro (⟨before, a, after, rfl, ha, c, hc, hq⟩ | ⟨hq, a, ha, hp⟩)
    · exact ⟨before, a, after ++ [b], by simp, ha, c, by simp [hc], hq⟩
    · obtain ⟨before, after, rfl⟩ := List.append_of_mem ha
      exact ⟨before, a, after ++ [b], by simp, hp, b, by simp, hq⟩

end Portuni.Library.Histories
