import Mathlib.Data.List.Nodup
import Mathlib.Logic.Function.Basic

/-! A keyed mutex that serves each key first come, first served: the callers
queued under a key, the first of which holds it. -/

namespace Portuni.Library.KeyedMutex

universe u v

variable {Key : Type u} {Caller : Type v} [DecidableEq Key]

/-- The callers of every key, in the order they came. The first one holds the
key. -/
abbrev Mutex (Key : Type u) (Caller : Type v) := Key → List Caller

namespace Mutex

def free : Mutex Key Caller := fun _ => []

def enqueue (m : Mutex Key Caller) (key : Key) (caller : Caller) : Mutex Key Caller :=
  Function.update m key (m key ++ [caller])

def release (m : Mutex Key Caller) (key : Key) : Mutex Key Caller :=
  Function.update m key (m key).tail

/-- `caller` is the one that holds `key`. -/
def Holds (m : Mutex Key Caller) (key : Key) (caller : Caller) : Prop :=
  (m key).head? = some caller

instance [DecidableEq Caller] (m : Mutex Key Caller) (key : Key) (caller : Caller) :
    Decidable (m.Holds key caller) :=
  inferInstanceAs (Decidable ((m key).head? = some caller))

variable (m : Mutex Key Caller) (key other : Key) (caller : Caller)

@[simp]
theorem enqueue_self : m.enqueue key caller key = m key ++ [caller] := by
  simp [enqueue]

theorem enqueue_of_ne (h : other ≠ key) : m.enqueue key caller other = m other := by
  simp [enqueue, h]

@[simp]
theorem release_self : m.release key key = (m key).tail := by
  simp [release]

theorem release_of_ne (h : other ≠ key) : m.release key other = m other := by
  simp [release, h]

omit [DecidableEq Key] in
theorem Holds.mem {m : Mutex Key Caller} {key : Key} {caller : Caller}
    (h : m.Holds key caller) : caller ∈ m key :=
  List.mem_of_head? h

theorem Holds.enqueue {m : Mutex Key Caller} {key : Key} {caller : Caller}
    (h : m.Holds key caller) (other : Key) (x : Caller) : (m.enqueue other x).Holds key caller := by
  obtain ⟨rest, hrest⟩ := List.head?_eq_some_iff.mp h
  by_cases hkey : key = other
  · subst hkey
    simp [Holds, hrest]
  · rw [Holds, enqueue_of_ne _ _ _ _ hkey]
    exact h

omit [DecidableEq Key] in
theorem Holds.unique {m : Mutex Key Caller} {key : Key} {x y : Caller} (h : m.Holds key x)
    (h' : m.Holds key y) : x = y :=
  Option.some.inj (h.symm.trans h')

variable {x : Caller}

theorem mem_enqueue_iff :
    x ∈ m.enqueue key caller other ↔ x ∈ m other ∨ (other = key ∧ x = caller) := by
  by_cases h : other = key
  · subst h
    simp
  · simp [enqueue_of_ne, h]

theorem mem_release_iff {m : Mutex Key Caller} {key : Key} {holder : Caller} (nodup : (m key).Nodup)
    (h : m.Holds key holder) {other : Key} :
    x ∈ m.release key other ↔ x ∈ m other ∧ ¬ (other = key ∧ x = holder) := by
  by_cases hother : other = key
  · subst hother
    obtain ⟨rest, hrest⟩ : ∃ rest, m other = holder :: rest := List.head?_eq_some_iff.mp h
    rw [release_self, hrest, List.tail_cons, List.mem_cons]
    rw [hrest, List.nodup_cons] at nodup
    constructor
    · intro hmem
      refine ⟨.inr hmem, ?_⟩
      rintro ⟨-, rfl⟩
      exact nodup.1 hmem
    · rintro ⟨hmem, hne⟩
      exact hmem.resolve_left fun heq => hne ⟨rfl, heq⟩
  · simp [release_of_ne, hother]

theorem nodup_enqueue {m : Mutex Key Caller} {key : Key} {caller : Caller}
    (nodup : ∀ other, (m other).Nodup) (hfresh : caller ∉ m key) (other : Key) :
    (m.enqueue key caller other).Nodup := by
  by_cases hother : other = key
  · subst hother
    rw [enqueue_self, List.nodup_append]
    refine ⟨nodup _, by simp, ?_⟩
    rintro x hx y hy rfl
    exact hfresh (List.mem_singleton.mp hy ▸ hx)
  · rw [enqueue_of_ne _ _ _ _ hother]
    exact nodup other

theorem nodup_release {m : Mutex Key Caller} (nodup : ∀ other, (m other).Nodup)
    (key other : Key) : (m.release key other).Nodup := by
  by_cases hother : other = key
  · subst hother
    rw [release_self]
    exact (nodup other).tail
  · rw [release_of_ne _ _ _ hother]
    exact nodup other

theorem prefix_enqueue : m other <+: m.enqueue key caller other := by
  by_cases hother : other = key
  · subst hother
    rw [enqueue_self]
    exact List.prefix_append _ _
  · rewrite [enqueue_of_ne _ _ _ _ hother]
    exact List.prefix_rfl

omit [DecidableEq Key] in
theorem place_of_prefix {queue queue' : List Caller} (h : queue <+: queue') {i : ℕ}
    (hi : queue[i]? = some x) : queue'[i]? = some x := by
  obtain ⟨rest, rfl⟩ := h
  rw [List.getElem?_append_left (List.getElem?_eq_some_iff.mp hi).1, hi]

end Mutex

end Portuni.Library.KeyedMutex
