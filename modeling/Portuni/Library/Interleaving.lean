import Portuni.Library.Runs

/-!
Sequential programs over a shared state whose atomic statements interleave in
any order, and the rule that carries what each of them keeps to their runs.
-/

namespace Portuni.Library.Interleaving

open Library.Runs

universe u v w x

/-- A program issues one statement after another. What it does next depends on the state
that a statement ran in. -/
inductive Program (Statement : Type u) (State : Type v) (Result : Type w) where
  | done (result : Result)
  | statement (s : Statement) (next : State → Program Statement State Result)

variable {Statement : Type u} {State : Type v} {Result Result' : Type w} {Call : Type x}

def Program.result? : Program Statement State Result → Option Result
  | .done result => some result
  | .statement _ _ => none

structure Pool (Statement : Type u) (State : Type v) (Result : Type w) where
  state : State
  programs : List (Program Statement State Result)

def Pool.results (pool : Pool Statement State Result) : List Result :=
  pool.programs.filterMap Program.result?

theorem Pool.mem_results_iff {pool : Pool Statement State Result} {result : Result} :
    result ∈ pool.results ↔ .done result ∈ pool.programs := by
  rw [Pool.results, List.mem_filterMap]
  constructor
  · rintro ⟨p, hp, hresult⟩
    cases p with
    | done result' =>
      cases hresult
      exact hp
    | statement s next => cases hresult
  · exact fun h => ⟨_, h, rfl⟩

inductive Action (Call : Type x) (Result : Type w) where
  | call (c : Call)
  | next (i : ℕ)
  /-- The program stops in front of its next statement. -/
  | stop (i : ℕ) (result : Result)

def Program.bind : Program Statement State Result →
    (Result → Program Statement State Result') → Program Statement State Result'
  | .done result, f => f result
  | .statement s next, f => .statement s fun state => (next state).bind f

variable (perform : Statement → State → State) (program : Call → Program Statement State Result)

def step (pool : Pool Statement State Result) :
    Action Call Result → Option (Pool Statement State Result)
  | .call c => some { pool with programs := pool.programs ++ [program c] }
  | .next i =>
    match pool.programs[i]? with
    | some (.statement s next) =>
      some ⟨perform s pool.state, pool.programs.set i (next pool.state)⟩
    | _ => none
  | .stop i result => some { pool with programs := pool.programs.set i (.done result) }

def nextStatement (pool : Pool Statement State Result) (i : ℕ) : Option Statement :=
  match pool.programs[i]? with
  | some (.statement s _) => some s
  | _ => none

/-- The statement that an action performs, if any, is one that `admitted` lets through. -/
def Admits (admitted : State → Statement → Prop) (pool : Pool Statement State Result) :
    Action Call Result → Prop
  | .next i => ∀ s ∈ nextStatement pool i, admitted pool.state s
  | _ => True

instance (admitted : State → Statement → Prop) [∀ state s, Decidable (admitted state s)]
    (pool : Pool Statement State Result) (a : Action Call Result) :
    Decidable (Admits admitted pool a) :=
  match a with
  | .call _ => isTrue trivial
  | .next i => inferInstanceAs (Decidable (∀ s ∈ nextStatement pool i, admitted pool.state s))
  | .stop _ _ => isTrue trivial

variable (Invariant : State → Prop) (admitted : State → Statement → Prop)
  (Guarantee : State → State → Prop)

/-- Every admitted statement of the program keeps the invariant and makes only changes
that are guaranteed, whatever the other programs do in between. -/
def Safe : Program Statement State Result → Prop
  | .done _ => True
  | .statement s next => ∀ state, Invariant state → admitted state s →
      Invariant (perform s state) ∧ Guarantee state (perform s state) ∧ Safe (next state)

variable {perform program Invariant admitted Guarantee} {pool pool' : Pool Statement State Result}
  {a : Action Call Result} {acts : List (Action Call Result)}

theorem Safe.bind {p : Program Statement State Result}
    {f : Result → Program Statement State Result'} (h : Safe perform Invariant admitted Guarantee p)
    (hf : ∀ result, Safe perform Invariant admitted Guarantee (f result)) :
    Safe perform Invariant admitted Guarantee (p.bind f) := by
  induction p with
  | done result => exact hf result
  | statement s next ih =>
    intro state hstate hadmitted
    obtain ⟨hkeep, hguarantee, hnext⟩ := h state hstate hadmitted
    exact ⟨hkeep, hguarantee, ih state hnext⟩

structure SafePool (perform : Statement → State → State) (Invariant : State → Prop)
    (admitted : State → Statement → Prop) (Guarantee : State → State → Prop)
    (pool : Pool Statement State Result) : Prop where
  state : Invariant pool.state
  programs : ∀ p ∈ pool.programs, Safe perform Invariant admitted Guarantee p

theorem SafePool.step (safe : SafePool perform Invariant admitted Guarantee pool)
    (calls : ∀ c, Safe perform Invariant admitted Guarantee (program c))
    (refl : ∀ state, Guarantee state state) (hadmits : Admits admitted pool a)
    (hstep : step perform program pool a = some pool') :
    SafePool perform Invariant admitted Guarantee pool' ∧ Guarantee pool.state pool'.state := by
  cases a with
  | call c =>
    cases hstep
    refine ⟨⟨safe.state, fun p hp => ?_⟩, refl _⟩
    rcases List.mem_append.mp hp with hp | hp
    · exact safe.programs p hp
    · rw [List.mem_singleton.mp hp]
      exact calls c
  | stop i result =>
    cases hstep
    refine ⟨⟨safe.state, fun p hp => ?_⟩, refl _⟩
    rcases List.mem_or_eq_of_mem_set hp with hp | rfl
    · exact safe.programs p hp
    · trivial
  | next i =>
    simp only [Interleaving.step] at hstep
    split at hstep
    · rename_i s next hprogram
      cases hstep
      obtain ⟨hkeep, hguarantee, hnext⟩ := safe.programs _ (List.mem_of_getElem? hprogram)
        pool.state safe.state (hadmits s (by simp [nextStatement, hprogram]))
      refine ⟨⟨hkeep, fun p hp => ?_⟩, hguarantee⟩
      rcases List.mem_or_eq_of_mem_set hp with hp | rfl
      · exact safe.programs p hp
      · exact hnext
    · cases hstep

theorem SafePool.run (safe : SafePool perform Invariant admitted Guarantee pool)
    (calls : ∀ c, Safe perform Invariant admitted Guarantee (program c))
    (refl : ∀ state, Guarantee state state)
    (run : Run (Interleaving.step perform program) (Admits admitted) pool acts pool') :
    SafePool perform Invariant admitted Guarantee pool' :=
  run.inv _ safe fun _ _ _ hsafe hadmits hstep => (hsafe.step calls refl hadmits hstep).1

end Portuni.Library.Interleaving
