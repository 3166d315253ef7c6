import Portuni.Library.Interleaving

/-!
Rely and guarantee for programs whose statements interleave: what a program learns from a
statement may be used later as far as the changes of all the others keep it.
-/

namespace Portuni.Library.RelyGuarantee

open Library.Runs Library.Interleaving

universe u v w x

variable {Statement : Type u} {State : Type v} {Result Result' : Type w} {Call : Type x}
  (perform : Statement → State → State) (Invariant : State → Prop)
  (admitted : State → Statement → Prop) (Guarantee : State → State → Prop)
  (Post : State → Result → Prop)

/-- From a state on, whatever the others do within the guarantee, the program's own admitted
statements keep the invariant and the guarantee, and it ends with what `Post` says. -/
def Sound : Program Statement State Result → State → Prop
  | .done result, state => Post state result
  | .statement s next, state => ∀ state', Guarantee state state' → Invariant state' →
      admitted state' s → Invariant (perform s state') ∧ Guarantee state' (perform s state') ∧
        Sound (next state') (perform s state')

/-- Every statement is let through, and no program stops on the way. -/
def Completes (pool : Pool Statement State Result) : Action Call Result → Prop
  | .call _ => True
  | .next i => ∀ s ∈ nextStatement pool i, admitted pool.state s
  | .stop _ _ => False

instance [∀ state s, Decidable (admitted state s)] (pool : Pool Statement State Result)
    (a : Action Call Result) : Decidable (Completes admitted pool a) :=
  match a with
  | .call _ => isTrue trivial
  | .next i => inferInstanceAs (Decidable (∀ s ∈ nextStatement pool i, admitted pool.state s))
  | .stop _ _ => isFalse id

/-- A change that is guaranteed stays so when more guaranteed changes come in front or behind,
and no such change takes back what a program has ended with. -/
structure Stable : Prop where
  refl : ∀ state, Guarantee state state
  trans : ∀ {s t u}, Guarantee s t → Guarantee t u → Guarantee s u
  post : ∀ {s t result}, Guarantee s t → Post s result → Post t result

structure SoundPool (pool : Pool Statement State Result) : Prop where
  state : Invariant pool.state
  programs : ∀ p ∈ pool.programs, Sound perform Invariant admitted Guarantee Post p pool.state

variable {perform Invariant admitted Guarantee Post}
  {program : Call → Program Statement State Result}
  {pool pool' : Pool Statement State Result} {state state' : State}
  {p : Program Statement State Result} {a : Action Call Result} {acts : List (Action Call Result)}

theorem Sound.later (stable : Stable Guarantee Post) (hchange : Guarantee state state')
    (h : Sound perform Invariant admitted Guarantee Post p state) :
    Sound perform Invariant admitted Guarantee Post p state' := by
  cases p with
  | done result => exact stable.post hchange h
  | statement s next => exact fun later hlater => h later (stable.trans hchange hlater)

theorem Sound.bind {Post' : State → Result' → Prop} {f : Result → Program Statement State Result'}
    (h : Sound perform Invariant admitted Guarantee Post p state)
    (hf : ∀ state result, Post state result →
      Sound perform Invariant admitted Guarantee Post' (f result) state) :
    Sound perform Invariant admitted Guarantee Post' (p.bind f) state := by
  induction p generalizing state with
  | done result => exact hf state result h
  | statement s next ih =>
    intro state' hchange hinv hadmitted
    obtain ⟨hkeep, hguarantee, hnext⟩ := h state' hchange hinv hadmitted
    exact ⟨hkeep, hguarantee, ih state' hnext⟩

theorem Sound.read {s : Statement} {next : State → Program Statement State Result}
    (stable : Stable Guarantee Post) (hread : ∀ state, perform s state = state)
    (h : ∀ state', Guarantee state state' → Invariant state' →
      Sound perform Invariant admitted Guarantee Post (next state') state') :
    Sound perform Invariant admitted Guarantee Post (.statement s next) state := by
  intro state' hchange hinv _
  rw [hread]
  exact ⟨hinv, stable.refl state', h state' hchange hinv⟩

variable (sound : SoundPool perform Invariant admitted Guarantee Post pool)

include sound

theorem SoundPool.step (stable : Stable Guarantee Post)
    (calls : ∀ c state, Invariant state → Sound perform Invariant admitted Guarantee Post (program
      c) state) (hcompletes : Completes admitted pool a)
    (hstep : step perform program pool a = some pool') :
    SoundPool perform Invariant admitted Guarantee Post pool' ∧
      Guarantee pool.state pool'.state := by
  cases a with
  | call c =>
    cases hstep
    refine ⟨⟨sound.state, fun p hp => ?_⟩, stable.refl _⟩
    rcases List.mem_append.mp hp with hp | hp
    · exact sound.programs p hp
    · rw [List.mem_singleton.mp hp]
      exact calls c _ sound.state
  | stop i result => exact hcompletes.elim
  | next i =>
    simp only [Interleaving.step] at hstep
    split at hstep
    · rename_i s next hprogram
      cases hstep
      obtain ⟨hkeep, hguarantee, hnext⟩ := sound.programs _ (List.mem_of_getElem? hprogram)
        pool.state (stable.refl _) sound.state
        (hcompletes s (by simp [nextStatement, hprogram]))
      refine ⟨⟨hkeep, fun p hp => ?_⟩, hguarantee⟩
      rcases List.mem_or_eq_of_mem_set hp with hp | rfl
      · exact (sound.programs p hp).later stable hguarantee
      · exact hnext
    · cases hstep

theorem SoundPool.run (stable : Stable Guarantee Post)
    (calls : ∀ c state, Invariant state → Sound perform Invariant admitted Guarantee Post (program
      c) state) (run : Run (Interleaving.step perform program) (Completes admitted) pool acts
      pool') :
    SoundPool perform Invariant admitted Guarantee Post pool' ∧
      Guarantee pool.state pool'.state := by
  refine run.inv (fun later => SoundPool perform Invariant admitted Guarantee Post later ∧
    Guarantee pool.state later.state) ⟨sound, stable.refl _⟩ ?_
  rintro s b t ⟨hsound, hchange⟩ hcompletes hstep
  obtain ⟨hsound', hchange'⟩ := hsound.step stable calls hcompletes hstep
  exact ⟨hsound', stable.trans hchange hchange'⟩

theorem SoundPool.follow {Post' : State → Result → Prop} {i : ℕ} (stable : Stable Guarantee Post)
    (stable' : Stable Guarantee Post')
    (calls : ∀ c state, Invariant state → Sound perform Invariant admitted Guarantee Post (program
      c) state) (run : Run (Interleaving.step perform program) (Completes admitted) pool acts pool')
    (hi : pool.programs[i]? = some p)
    (hp : Sound perform Invariant admitted Guarantee Post' p pool.state) :
    ∃ p', pool'.programs[i]? = some p' ∧
      Sound perform Invariant admitted Guarantee Post' p' pool'.state := by
  have kept := run.inv (fun later => SoundPool perform Invariant admitted Guarantee Post later ∧
    ∃ p', later.programs[i]? = some p' ∧
      Sound perform Invariant admitted Guarantee Post' p' later.state) ⟨sound, p, hi, hp⟩ ?_
  · exact kept.2
  rintro s b t ⟨hsound, q, hq, hpost⟩ hcompletes hstep
  obtain ⟨hsound', hchange⟩ := hsound.step stable calls hcompletes hstep
  refine ⟨hsound', ?_⟩
  cases b with
  | call c =>
    cases hstep
    obtain ⟨hlt, -⟩ := List.getElem?_eq_some_iff.mp hq
    exact ⟨q, by rw [← hq]; exact List.getElem?_append_left hlt, hpost⟩
  | stop j result => exact hcompletes.elim
  | next j =>
    simp only [Interleaving.step] at hstep
    split at hstep
    · rename_i statement next hprogram
      cases hstep
      by_cases hij : j = i
      · subst hij
        obtain ⟨hlt, -⟩ := List.getElem?_eq_some_iff.mp hq
        rw [hprogram] at hq
        cases hq
        refine ⟨next s.state, List.getElem?_set_self hlt, ?_⟩
        exact (hpost s.state (stable'.refl _) hsound.state
          (hcompletes statement (by simp [nextStatement, hprogram]))).2.2
      · exact ⟨q, by rw [← hq]; exact List.getElem?_set_ne hij, hpost.later stable' hchange⟩
    · cases hstep

omit sound

theorem SoundPool.start (h : Invariant state) :
    SoundPool perform Invariant admitted Guarantee Post (⟨state, []⟩ : Pool Statement State Result) :=
  ⟨h, by simp⟩

end Portuni.Library.RelyGuarantee
