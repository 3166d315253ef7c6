/-!
Programs that may fail and note what they change, also when they fail later; and a logic of what
they may change at most.
-/

namespace Portuni.Library.Changes

universe u

variable {ε C α β : Type}

abbrev Program (ε C : Type) := ExceptT ε (StateM (List C))

def change (c : C) : Program ε C Unit :=
  ExceptT.lift (modify (· ++ [c]))

/-- `try { .. } catch { }`. -/
def attempt (x : Program ε C Unit) : Program ε C Unit :=
  tryCatch x fun _ => pure ()

def changes (x : Program ε C α) : List C :=
  (StateT.run x.run []).2

/-- Whatever the program changes, and whether it throws or not, is as `P` says. -/
def Only (P : C → Prop) (x : Program ε C α) : Prop :=
  ∀ log, ∀ c ∈ (StateT.run x.run log).2, c ∈ log ∨ P c

variable {P Q : C → Prop} {x : Program ε C α} {f : α → Program ε C β}

theorem Only.pure (a : α) : Only P (Pure.pure a : Program ε C α) :=
  fun _ _ hc => .inl hc

theorem Only.throw (e : ε) : Only P (MonadExcept.throw e : Program ε C α) :=
  fun _ _ hc => .inl hc

theorem Only.change {c : C} (h : P c) : Only P (change c : Program ε C Unit) := by
  intro log c' hc'
  rcases List.mem_append.mp hc' with hc' | hc'
  · exact .inl hc'
  · obtain rfl := List.mem_singleton.mp hc'
    exact .inr h

theorem Only.bind (hx : Only P x) (hf : ∀ a, Only P (f a)) : Only P (x >>= f) := by
  intro log c hc
  have hfirst := hx log
  cases hrun : StateT.run x.run log with
  | mk result log' =>
    rw [hrun] at hfirst
    have hstep : StateT.run (x >>= f).run log =
        match result with
        | .ok a => StateT.run (f a).run log'
        | .error e => (.error e, log') := by
      simp only [ExceptT.run_bind, StateT.run_bind, hrun]
      cases result <;> rfl
    rw [hstep] at hc
    cases result with
    | error e => exact hfirst c hc
    | ok a =>
      rcases hf a log' c hc with hlog | hP
      · exact hfirst c hlog
      · exact .inr hP

theorem Only.attempt {x : Program ε C Unit} (hx : Only P x) : Only P (attempt x) := by
  intro log c hc
  have hfirst := hx log
  cases hrun : StateT.run x.run log with
  | mk result log' =>
    rw [hrun] at hfirst
    have hstep : (StateT.run (Changes.attempt x).run log).2 = log' := by
      have hrun' : @StateT.run (List C) Id (Except ε Unit) x log = (result, log') := hrun
      simp only [Changes.attempt, tryCatch, tryCatchThe, MonadExceptOf.tryCatch, ExceptT.tryCatch,
        ExceptT.run_mk, StateT.run_bind, hrun']
      cases result <;> rfl
    rw [hstep] at hc
    exact hfirst c hc

theorem Only.forM {items : List β} {f : β → Program ε C Unit} (hf : ∀ b ∈ items, Only P (f b)) :
    Only P (items.forM f) := by
  induction items with
  | nil => exact Only.pure ()
  | cons b items ih =>
    exact Only.bind (hf b List.mem_cons_self) fun _ =>
      ih fun b' hb' => hf b' (List.mem_cons_of_mem _ hb')

theorem Only.mono (hx : Only P x) (h : ∀ c, P c → Q c) : Only Q x :=
  fun log c hc => (hx log c hc).imp_right (h c)

theorem Only.changes (hx : Only P x) : ∀ c ∈ changes x, P c := by
  intro c hc
  rcases hx [] c hc with hnone | hP
  · cases hnone
  · exact hP

end Portuni.Library.Changes
