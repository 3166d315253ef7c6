import Mathlib.Data.List.Basic

/-!
A process that performs a list of effects one after the other and may stop
between any two of them.
-/

namespace Portuni.Library.Stops

universe u

variable {State : Type u}

abbrev Effect (State : Type u) := State → State

def perform (effects : List (Effect State)) (s : State) : State :=
  effects.foldl (fun s effect => effect s) s

/-- `P` holds before the first effect and after each of them. -/
def Throughout (P : State → Prop) : List (Effect State) → State → Prop
  | [], s => P s
  | effect :: rest, s => P s ∧ Throughout P rest (effect s)

variable {P Q : State → Prop} {effects first second : List (Effect State)} {s : State}

theorem perform_append : perform (first ++ second) s = perform second (perform first s) :=
  List.foldl_append

theorem throughout_iff :
    Throughout P effects s ↔ ∀ count, P (perform (effects.take count) s) := by
  induction effects generalizing s with
  | nil => simp [Throughout, perform]
  | cons effect rest ih =>
    rw [Throughout, ih]
    constructor
    · rintro ⟨hstart, hrest⟩ count
      cases count with
      | zero => exact hstart
      | succ count => exact hrest count
    · intro h
      exact ⟨h 0, fun count => h (count + 1)⟩

theorem throughout_append (hfirst : Throughout P first s)
    (hsecond : Throughout P second (perform first s)) : Throughout P (first ++ second) s := by
  induction first generalizing s with
  | nil => exact hsecond
  | cons effect rest ih => exact ⟨hfirst.1, ih hfirst.2 hsecond⟩

theorem Throughout.mono (h : Throughout P effects s) (hPQ : ∀ s, P s → Q s) :
    Throughout Q effects s := by
  induction effects generalizing s with
  | nil => exact hPQ s h
  | cons effect rest ih => exact ⟨hPQ s h.1, ih h.2⟩

theorem Throughout.and (hP : Throughout P effects s) (hQ : Throughout Q effects s) :
    Throughout (fun s => P s ∧ Q s) effects s := by
  induction effects generalizing s with
  | nil => exact ⟨hP, hQ⟩
  | cons effect rest ih => exact ⟨⟨hP.1, hQ.1⟩, ih hP.2 hQ.2⟩

theorem Throughout.finish (h : Throughout P effects s) : P (perform effects s) := by
  induction effects generalizing s with
  | nil => exact h
  | cons effect rest ih => exact ih h.2

end Portuni.Library.Stops
