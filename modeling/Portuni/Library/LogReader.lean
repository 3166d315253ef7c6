import Mathlib.Data.List.Basic

/-!
A reader of a growing log that is handed batches of it. It may lose its place, and says so with a
reset before it goes on further down.
-/

namespace Portuni.Library.LogReader

universe u

variable {α : Type u}

inductive Call (α : Type u) where
  | batch (items : List α)
  | reset
deriving DecidableEq

def Call.items : Call α → List α
  | .batch items => items
  | .reset => []

/-- The calls that lead from one place in the log to another: a batch is what stands there next,
and nothing but a reset skips anything. -/
inductive Reads (log : List α) (start : ℕ) : List (Call α) → ℕ → Prop
  | nil : start ≤ log.length → Reads log start [] start
  | batch {calls : List (Call α)} {place : ℕ} {items : List α} : Reads log start calls place →
      items <+: log.drop place → Reads log start (calls ++ [.batch items]) (place + items.length)
  | reset {calls : List (Call α)} {place further : ℕ} : Reads log start calls place →
      place ≤ further → further ≤ log.length → Reads log start (calls ++ [.reset]) further

variable {log log' : List α} {start place further : ℕ} {calls more : List (Call α)}

theorem drop_prefix_drop (h : log <+: log') (hplace : place ≤ log.length) :
    log.drop place <+: log'.drop place := by
  obtain ⟨rest, rfl⟩ := h
  rw [List.drop_append_of_le_length hplace]
  exact List.prefix_append _ _

theorem Reads.bounds (h : Reads log start calls place) : start ≤ place ∧ place ≤ log.length := by
  induction h with
  | nil h => exact ⟨Nat.le_refl _, h⟩
  | batch _ hitems ih =>
    have hlength := hitems.length_le
    rw [List.length_drop] at hlength
    omega
  | reset _ hplace hfurther ih => omega

theorem Reads.mono (hlog : log <+: log') (h : Reads log start calls place) :
    Reads log' start calls place := by
  induction h with
  | nil h => exact .nil (Nat.le_trans h hlog.length_le)
  | batch h hitems ih => exact .batch ih (hitems.trans (drop_prefix_drop hlog h.bounds.2))
  | reset _ hplace hfurther ih => exact .reset ih hplace (Nat.le_trans hfurther hlog.length_le)

theorem take_append_of_prefix {items : List α} (hitems : items <+: log.drop place) :
    log.take place ++ items = log.take (place + items.length) := by
  rw [List.take_add, ← List.prefix_iff_eq_take.mp hitems]

theorem Reads.sublist (h : Reads log start calls place) :
    (calls.flatMap Call.items).Sublist ((log.take place).drop start) := by
  induction h with
  | nil => simp
  | @batch calls place items h hitems ih =>
    rw [List.flatMap_append, ← take_append_of_prefix hitems,
      List.drop_append_of_le_length (by
        rw [List.length_take]
        exact Nat.le_min.mpr ⟨h.bounds.1, Nat.le_trans h.bounds.1 h.bounds.2⟩)]
    simpa [Call.items] using ih.append (List.Sublist.refl items)
  | @reset calls place further _ hplace _ ih =>
    rw [List.flatMap_append]
    have hgrow : log.take place <+: log.take further := List.take_prefix_take_left hplace
    simpa [Call.items] using ih.trans (hgrow.sublist.drop start)

end Portuni.Library.LogReader
