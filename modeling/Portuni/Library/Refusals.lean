import Portuni.Library.Interleaving

/-!
A call that takes several statements and may be refused at each: what it has changed, statement by
statement, while others change the state in between, and when a refusal comes before any change.
-/

namespace Portuni.Library.Refusals

open Library.Interleaving Library.Runs

universe u v w

variable {Statement : Type u} {State : Type v} {Result : Type w}

/-- A call between its statements, with the state that each of its statements found and left. -/
structure Underway (Statement : Type u) (State : Type v) (Result : Type w) where
  state : State
  rest : Program Statement State Result
  effects : List (State × State) := []

inductive Action (State : Type v) where
  /-- Others leave this state. -/
  | others (state : State)
  | next

def Underway.Untouched (call : Underway Statement State Result) : Prop :=
  ∀ effect ∈ call.effects, effect.2 = effect.1

variable (perform : Statement → State → State) (Invariant : State → Prop)
  (met : State → Statement → Prop) (refused : Result → Prop)

def step (call : Underway Statement State Result) :
    Action State → Option (Underway Statement State Result)
  | .others state => some { call with state := state }
  | .next =>
    match call.rest with
    | .done _ => none
    | .statement s next =>
      some ⟨perform s call.state, next call.state,
        call.effects ++ [(call.state, perform s call.state)]⟩

/-- Others keep the invariant, and a statement that comes after a change is met by the state that
it finds. -/
def Allowed (call : Underway Statement State Result) : Action State → Prop
  | .others state => Invariant state
  | .next =>
    call.Untouched ∨
      match call.rest with
      | .done _ => True
      | .statement s _ => met call.state s

/-- From here on nothing is refused, as long as the statements are met. -/
def Settled : Program Statement State Result → Prop
  | .done result => ¬refused result
  | .statement s next => ∀ state, Invariant state → met state s →
      Invariant (perform s state) ∧ Settled (next state)

/-- The first statement that changes something is one after which nothing is refused. -/
def AllOrNothing : Program Statement State Result → Prop
  | .done _ => True
  | .statement s next => ∀ state, Invariant state →
      Invariant (perform s state) ∧ (perform s state = state → AllOrNothing (next state)) ∧
        (perform s state ≠ state → Settled perform Invariant met refused (next state))

variable {perform Invariant met refused} {call call' : Underway Statement State Result}
  {acts : List (Action State)} {program : Program Statement State Result} {s : Statement}
  {next : State → Program Statement State Result}

theorem AllOrNothing.read (hread : ∀ state, perform s state = state)
    (h : ∀ state, Invariant state → AllOrNothing perform Invariant met refused (next state)) :
    AllOrNothing perform Invariant met refused (.statement s next) := by
  intro state hinv
  rw [hread state]
  exact ⟨hinv, fun _ => h state hinv, fun hchange => absurd rfl hchange⟩

theorem Settled.read {s : Statement} {next : State → Program Statement State Result}
    (hread : ∀ state, perform s state = state) (h : ∀ state, Invariant state → met state s →
      Settled perform Invariant met refused (next state)) :
    Settled perform Invariant met refused (.statement s next) := by
  intro state hinv hmet
  rw [hread state]
  exact ⟨hinv, h state hinv hmet⟩

structure Kept (perform : Statement → State → State) (Invariant : State → Prop)
    (met : State → Statement → Prop) (refused : Result → Prop)
    (call : Underway Statement State Result) : Prop where
  state : Invariant call.state
  untouched : call.Untouched → AllOrNothing perform Invariant met refused call.rest
  touched : ¬call.Untouched → Settled perform Invariant met refused call.rest

theorem untouched_append {effects : List (State × State)} {state : State} :
    (∀ effect ∈ effects ++ [(state, perform s state)], effect.2 = effect.1) ↔
      (∀ effect ∈ effects, effect.2 = effect.1) ∧ perform s state = state := by
  constructor
  · intro h
    exact ⟨fun effect he => h effect (List.mem_append_left _ he),
      h (state, perform s state) (List.mem_append_right _ (List.mem_singleton_self _))⟩
  · rintro ⟨hold, hnew⟩ effect he
    rcases List.mem_append.mp he with he | he
    · exact hold effect he
    · rw [List.mem_singleton.mp he]
      exact hnew

theorem Kept.step {a : Action State} (kept : Kept perform Invariant met refused call)
    (hallowed : Allowed Invariant met call a) (hstep : step perform call a = some call') :
    Kept perform Invariant met refused call' := by
  cases a with
  | others state =>
    cases hstep
    exact ⟨hallowed, kept.untouched, kept.touched⟩
  | next =>
    obtain ⟨state, rest, effects⟩ := call
    cases rest with
    | done result => cases hstep
    | statement s next =>
      cases hstep
      by_cases hcall : ∀ effect ∈ effects, effect.2 = effect.1
      · obtain ⟨hinv, hsame, hchange⟩ := kept.untouched hcall state kept.state
        refine ⟨hinv, fun h => hsame (untouched_append.mp h).2, fun h => hchange fun hnew => ?_⟩
        exact h (untouched_append.mpr ⟨hcall, hnew⟩)
      · obtain ⟨hinv, hnext⟩ :=
          kept.touched hcall state kept.state (hallowed.resolve_left hcall)
        exact ⟨hinv, fun h => absurd (untouched_append.mp h).1 hcall, fun _ => hnext⟩

theorem untouched_of_refused (hprogram : AllOrNothing perform Invariant met refused program)
    {state : State} (hstate : Invariant state)
    (run : Run (step perform) (Allowed Invariant met) ⟨state, program, []⟩ acts call)
    {result : Result} (hdone : call.rest = .done result) (hrefused : refused result) :
    call.Untouched := by
  have kept : Kept perform Invariant met refused call := by
    refine run.inv (Kept perform Invariant met refused)
      ⟨hstate, fun _ => hprogram, fun h => absurd (fun _ he => by cases he) h⟩
      fun _ _ _ kept hallowed hstep => kept.step hallowed hstep
  refine Classical.byContradiction fun hchanged => ?_
  have hsettled := kept.touched hchanged
  rw [hdone] at hsettled
  exact hsettled hrefused

end Portuni.Library.Refusals
