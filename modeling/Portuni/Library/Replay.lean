import Mathlib.Data.List.Induction

/-!
Replaying a list of operations, each a list of atomic writes worked out from the
state, after an attempt that stopped anywhere in it.
-/

namespace Portuni.Library.Replay

universe u v w

/-- Operations that write in atomic steps, with what counts as a settled
operation, as the same outcome and as a place where an attempt may stop. -/
structure System (State : Type u) (Op : Type v) (Write : Type w) where
  apply : State → Write → State
  writes : State → Op → List Write
  Settled : State → Op → Prop
  writes_of_settled : ∀ s o, Settled s o → writes s o = []
  Same : State → State → Prop
  same_perform : ∀ s t o, Same s t → Same ((writes s o).foldl apply s) ((writes t o).foldl apply t)
  Safe : State → Op → ℕ → Prop
  safe_length : ∀ s o, Safe s o (writes s o).length

namespace System

variable {State : Type u} {Op : Type v} {Write : Type w} (S : System State Op Write)

def perform (s : State) (o : Op) : State :=
  (S.writes s o).foldl S.apply s

def performAll (s : State) (ops : List Op) : State :=
  ops.foldl S.perform s

/-- The first `count` writes of an operation, and no more. -/
def performPart (s : State) (o : Op) (count : ℕ) : State :=
  ((S.writes s o).take count).foldl S.apply s

variable {S} {s t : State} {o : Op} {ops before rest : List Op}

theorem perform_of_settled (h : S.Settled s o) : S.perform s o = s := by
  rw [perform, S.writes_of_settled s o h]
  rfl

theorem performAll_append (first second : List Op) :
    S.performAll s (first ++ second) = S.performAll (S.performAll s first) second :=
  List.foldl_append

theorem performAll_of_settled (h : ∀ o ∈ ops, S.Settled s o) : S.performAll s ops = s := by
  induction ops with
  | nil => rfl
  | cons o rest ih =>
    change S.performAll (S.perform s o) rest = s
    rw [perform_of_settled (h o List.mem_cons_self)]
    exact ih fun o' ho' => h o' (List.mem_cons_of_mem _ ho')

theorem performPart_length : S.performPart s o (S.writes s o).length = S.perform s o := by
  simp [performPart, perform]

theorem Same.performAll (h : S.Same s t) : S.Same (S.performAll s ops) (S.performAll t ops) := by
  induction ops generalizing s t with
  | nil => exact h
  | cons o rest ih => exact ih (S.same_perform s t o h)

/-- What replaying asks of one operation, reached after `before` have been
performed: it is settled once performed, a safe part of it can be resumed, and
no safe part of it unsettles an earlier operation. -/
structure Resumable (S : System State Op Write) (before : List Op) (s : State) (o : Op) :
    Prop where
  settles : S.Settled (S.perform s o) o
  resumes : ∀ count, S.Safe s o count →
    S.Same (S.perform (S.performPart s o count) o) (S.perform s o)
  keeps : ∀ o' ∈ before, S.Settled s o' → ∀ count, S.Safe s o count →
    S.Settled (S.performPart s o count) o'

/-- Every operation of the list is resumable in the state the ones before it lead to. -/
def ResumableRun (S : System State Op Write) (s : State) (ops : List Op) : Prop :=
  ∀ before o rest, ops = before ++ o :: rest → S.Resumable before (S.performAll s before) o

theorem ResumableRun.settled (run : S.ResumableRun s ops) (hstarts : before <+: ops) :
    ∀ o ∈ before, S.Settled (S.performAll s before) o := by
  induction before using List.reverseRecOn with
  | nil => intro o ho; cases ho
  | append_singleton before last ih =>
    obtain ⟨rest, rfl⟩ := hstarts
    have hlast := run before last rest (by simp)
    intro o ho
    rw [performAll_append]
    rcases List.mem_append.mp ho with ho | ho
    · have hbefore := ih ⟨last :: rest, by simp⟩ o ho
      have hkept := hlast.keeps o ho hbefore _ (S.safe_length _ last)
      rwa [performPart_length] at hkept
    · obtain rfl := List.mem_singleton.mp ho
      exact hlast.settles

/-- Stop an attempt after the operations `before` and a safe part of the next
one, then perform the whole list: the outcome is that of performing it once. -/
theorem ResumableRun.replay (run : S.ResumableRun s ops) (hops : ops = before ++ o :: rest)
    {count : ℕ} (hsafe : S.Safe (S.performAll s before) o count) :
    S.Same (S.performAll (S.performPart (S.performAll s before) o count) ops)
      (S.performAll s ops) := by
  have hresumable := run before o rest hops
  have hsettled := run.settled ⟨o :: rest, hops.symm⟩
  subst hops
  have hkept : ∀ o' ∈ before,
      S.Settled (S.performPart (S.performAll s before) o count) o' :=
    fun o' ho' => hresumable.keeps o' ho' (hsettled o' ho') count hsafe
  rw [performAll_append, performAll_of_settled hkept, performAll_append]
  change S.Same (S.performAll (S.perform _ o) rest) (S.performAll (S.perform _ o) rest)
  exact Same.performAll (hresumable.resumes count hsafe)

end System

end Portuni.Library.Replay
