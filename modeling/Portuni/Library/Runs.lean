import Mathlib.Data.List.GetD

/-! Runs of a guarded step function: finite runs, which carry the safety
results, and infinite executions, which carry the liveness results. -/

namespace Portuni.Library.Runs

universe u v

variable {State : Type u} {Action : Type v}

/-- A finite run of `step` from `s` to `t` in which every action is taken in a
state where `Allowed` admits it. -/
inductive Run (step : State → Action → Option State) (Allowed : State → Action → Prop)
    (s : State) : List Action → State → Prop
  | nil : Run step Allowed s [] s
  | snoc {acts : List Action} {t u : State} (a : Action) :
      Run step Allowed s acts t → Allowed t a → step t a = some u →
        Run step Allowed s (acts ++ [a]) u

variable {step : State → Action → Option State} {Allowed Allowed' : State → Action → Prop}
  {s t u : State} {acts acts' : List Action}

theorem Run.mono (h : ∀ s a, Allowed s a → Allowed' s a) (run : Run step Allowed s acts t) :
    Run step Allowed' s acts t := by
  induction run with
  | nil => exact .nil
  | snoc a _ hallowed hstep ih => exact .snoc a ih (h _ _ hallowed) hstep

theorem Run.trans (first : Run step Allowed s acts t) (second : Run step Allowed t acts' u) :
    Run step Allowed s (acts ++ acts') u := by
  induction second with
  | nil => simpa using first
  | snoc a _ hallowed hstep ih =>
    rw [← List.append_assoc]
    exact .snoc a ih hallowed hstep

/-- A property that holds at the start and that every allowed step keeps holds
at the end of every run. -/
theorem Run.inv (I : State → Prop) (start : I s)
    (keep : ∀ s a s', I s → Allowed s a → step s a = some s' → I s')
    (run : Run step Allowed s acts t) : I t := by
  induction run with
  | nil => exact start
  | snoc a _ hallowed hstep ih => exact keep _ _ _ ih hallowed hstep

/-- Run a list of actions, stopping with `none` at the first one that is not
enabled. -/
def exec (step : State → Action → Option State) (s : State) : List Action → Option State
  | [] => some s
  | a :: acts => (step s a).bind fun s' => exec step s' acts

/-- An executable check that a list of actions is a run whose steps are all
allowed. -/
def allowedAlong (step : State → Action → Option State) (Allowed : State → Action → Prop)
    [∀ s a, Decidable (Allowed s a)] (s : State) : List Action → Bool
  | [] => true
  | a :: acts =>
    decide (Allowed s a) &&
      match step s a with
      | some s' => allowedAlong step Allowed s' acts
      | none => false

variable (hexec : exec step s acts = some t)

include hexec

theorem Run.of_exec [∀ s a, Decidable (Allowed s a)]
    (hallowed : allowedAlong step Allowed s acts = true) : Run step Allowed s acts t := by
  induction acts generalizing s with
  | nil =>
    simp only [exec, Option.some.injEq] at hexec
    subst hexec
    exact .nil
  | cons a acts ih =>
    simp only [exec] at hexec
    simp only [allowedAlong, Bool.and_eq_true, decide_eq_true_eq] at hallowed
    cases hstep : step s a with
    | none => simp [hstep] at hexec
    | some s' =>
      rw [hstep, Option.bind_some] at hexec
      rw [hstep] at hallowed
      have first : Run step Allowed s [a] s' := .snoc a .nil hallowed.1 hstep
      exact first.trans (ih hexec hallowed.2)

theorem Run.of_exec_eq_some : Run step (fun _ _ => True) s acts t := by
  refine Run.of_exec hexec ?_
  induction acts generalizing s with
  | nil => rfl
  | cons a acts ih =>
    obtain ⟨s', hs', hrest⟩ := Option.bind_eq_some_iff.mp hexec
    simp [allowedAlong, hs', ih hrest]

theorem Run.of_exec_of_forall (hallowed : ∀ a ∈ acts, ∀ s, Allowed s a) :
    Run step Allowed s acts t := by
  induction acts generalizing s with
  | nil =>
    cases hexec
    exact .nil
  | cons a acts ih =>
    obtain ⟨s', hs', hrest⟩ := Option.bind_eq_some_iff.mp hexec
    have first : Run step Allowed s [a] s' := .snoc a .nil (hallowed a List.mem_cons_self s) hs'
    exact first.trans (ih hrest fun b hb => hallowed b (List.mem_cons_of_mem _ hb))

omit hexec

/-- An infinite execution of `step` from `s` whose steps are all allowed. -/
structure Execution (step : State → Action → Option State) (Allowed : State → Action → Prop)
    (s : State) where
  state : ℕ → State
  action : ℕ → Action
  start : state 0 = s
  allowed : ∀ n, Allowed (state n) (action n)
  next : ∀ n, step (state n) (action n) = some (state (n + 1))

namespace Execution

variable (e : Execution step Allowed s)

def past (n : ℕ) : List Action := (List.range n).map e.action

@[simp]
theorem past_zero : e.past 0 = [] := rfl

@[simp]
theorem past_succ (n : ℕ) : e.past (n + 1) = e.past n ++ [e.action n] := by
  simp [past, List.range_succ]

theorem run (n : ℕ) : Run step Allowed s (e.past n) (e.state n) := by
  induction n with
  | zero =>
    rw [e.start]
    exact .nil
  | succ n ih =>
    rw [past_succ]
    exact .snoc _ ih (e.allowed n) (e.next n)

theorem until_first (P : State → Action → Prop) (Q : State → Prop)
    (keep : ∀ n, Q (e.state n) → ¬ P (e.state n) (e.action n) → Q (e.state (n + 1)))
    {n : ℕ} (holds : Q (e.state n)) (comes : ∃ m, n ≤ m ∧ P (e.state m) (e.action m)) :
    ∃ m, n ≤ m ∧ Q (e.state m) ∧ P (e.state m) (e.action m) := by
  obtain ⟨m, hnm, hm⟩ := comes
  obtain ⟨k, rfl⟩ := Nat.exists_eq_add_of_le hnm
  induction k generalizing n with
  | zero => exact ⟨n, Nat.le_refl _, holds, hm⟩
  | succ k ih =>
    by_cases hn : P (e.state n) (e.action n)
    · exact ⟨n, Nat.le_refl _, holds, hn⟩
    · have hnext := keep n holds hn
      rw [← Nat.succ_add_eq_add_succ] at hm
      obtain ⟨m, hm', hrest⟩ := ih hnext (by omega) hm
      exact ⟨m, by omega, hrest⟩

variable {State' : Type*} {Action' : Type*} {step' : State' → Action' → Option State'}
  {Admitted : State' → Action' → Prop}

/-- The execution that a simulation makes of `e`. -/
def map (f : State → State') (g : Action → Action')
    (hstep : ∀ s a s', step s a = some s' → step' (f s) (g a) = some (f s'))
    (hallowed : ∀ s a, Allowed s a → Admitted (f s) (g a)) : Execution step' Admitted (f s) where
  state n := f (e.state n)
  action n := g (e.action n)
  start := by rw [e.start]
  allowed n := hallowed _ _ (e.allowed n)
  next n := hstep _ _ _ (e.next n)

end Execution

end Portuni.Library.Runs
