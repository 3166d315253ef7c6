import Mathlib.Data.Option.Basic
import Mathlib.Logic.Function.Basic
import Portuni.Library.KeyedMutex
import Portuni.Library.Runs

/-! `withPathLock`: a promise chain under each key. -/

namespace Portuni.PathLock

open Library.KeyedMutex Library.Runs

section

/-- Where a call is: it awaits `priorSettled`, its body runs, the body's promise is settled, the
`finally` block has run, or `chained` is settled too. -/
inductive Phase (Outcome : Type) where
  | waiting
  | running
  | settled (o : Outcome)
  | released (o : Outcome)
  | passed (o : Outcome)

/-- What a call does next. A body that throws before it returns a promise goes straight to the
`finally` block. -/
inductive Event (Outcome : Type) where
  | start
  | throw (o : Outcome)
  | settle (o : Outcome)
  | finish
  | pass

inductive Action (Key Outcome : Type) where
  | call (key : Key)
  | move (c : ℕ) (e : Event Outcome)

namespace Phase

variable {Outcome : Type}

def outcome? : Phase Outcome → Option Outcome
  | waiting | running => none
  | settled o | released o | passed o => some o

def InBody : Phase Outcome → Prop
  | running | settled _ => True
  | _ => False

def Released : Phase Outcome → Prop
  | released _ | passed _ => True
  | _ => False

def isPassed : Phase Outcome → Bool
  | passed _ => true
  | _ => false

/-- `ready` says that `priorSettled` is settled. -/
def next (ready : Bool) : Event Outcome → Phase Outcome → Option (Phase Outcome)
  | .start, waiting => bif ready then some running else none
  | .throw o, waiting => bif ready then some (released o) else none
  | .settle o, running => some (settled o)
  | .finish, settled o => some (released o)
  | .pass, released o => some (passed o)
  | _, _ => none

end Phase

/-- A call and the one whose `chained` was stored when it came. -/
structure Call (Key Outcome : Type) where
  key : Key
  prior : Option ℕ
  phase : Phase Outcome

/-- The calls in the order they came, and `chains` by the call that stored its `chained`. -/
structure State (Key Outcome : Type) where
  calls : List (Call Key Outcome) := []
  chains : Key → Option ℕ := fun _ => none

variable {Key Outcome : Type}

def State.ready (s : State Key Outcome) (prior : Option ℕ) : Bool :=
  prior.all fun p => s.calls[p]?.any fun call => call.phase.isPassed

variable [DecidableEq Key]

/-- The `finally` block deletes the call's own entry. -/
def cleanup (chains : Key → Option ℕ) (c : ℕ) (key : Key) : Phase Outcome → Key → Option ℕ
  | .released _ => if chains key = some c then Function.update chains key none else chains
  | _ => chains

def step (s : State Key Outcome) : Action Key Outcome → Option (State Key Outcome)
  | .call key => some
      { calls := s.calls ++ [⟨key, s.chains key, .waiting⟩]
        chains := Function.update s.chains key (some s.calls.length) }
  | .move c e => do
      let call ← s.calls[c]?
      let phase ← call.phase.next (s.ready call.prior) e
      some
        { calls := s.calls.set c { call with phase }
          chains := cleanup s.chains c call.key phase }

end

section

variable {Key Outcome : Type} {s s' : State Key Outcome} {c c' : ℕ}
  {call call' : Call Key Outcome} {phase : Phase Outcome}

/-- Every call of `key` that came before `c` has been released. -/
def Clear (s : State Key Outcome) (key : Key) (c : ℕ) : Prop :=
  ∀ c' < c, ∀ call' ∈ s.calls[c']?, call'.key = key → call'.phase.Released

structure Inv (s : State Key Outcome) : Prop where
  prior : ∀ c : ℕ, ∀ call ∈ s.calls[c]?, ∀ p ∈ call.prior,
    p < c ∧ ∃ earlier ∈ s.calls[p]?, earlier.key = call.key
  /-- Every earlier call of the key that is not released is ahead in the chain. -/
  covered : ∀ c : ℕ, ∀ call ∈ s.calls[c]?, ∀ c' < c, ∀ call' ∈ s.calls[c']?,
    call'.key = call.key → call'.phase.Released ∨ ∃ p ∈ call.prior, c' ≤ p
  ordered : ∀ c : ℕ, ∀ call ∈ s.calls[c]?, call.phase ≠ .waiting → Clear s call.key c
  stored : ∀ key, ∀ p ∈ s.chains key, ∃ call ∈ s.calls[p]?, call.key = key ∧ ¬ call.phase.Released
  last : ∀ c : ℕ, ∀ call ∈ s.calls[c]?, call.phase.Released ∨ ∃ p ∈ s.chains call.key, c ≤ p

theorem Inv.clear_of_ready (h : Inv s) (hcall : call ∈ s.calls[c]?)
    (hready : s.ready call.prior = true) : Clear s call.key c := by
  intro c' hlt call' hget hkey
  refine (h.covered c call hcall c' hlt call' hget hkey).elim id ?_
  rintro ⟨p, hp, hle⟩
  obtain ⟨-, earlier, hearlier, hkey'⟩ := h.prior c call hcall p hp
  have hpassed : earlier.phase.isPassed = true := by
    rw [Option.mem_def] at hp hearlier
    simpa [State.ready, hp, hearlier] using hready
  obtain rfl | hlt := Nat.eq_or_lt_of_le hle
  · cases Option.mem_unique hget hearlier
    revert hpassed
    cases call'.phase <;> simp [Phase.isPassed, Phase.Released]
  · refine h.ordered p earlier hearlier ?_ c' hlt call' hget (hkey.trans hkey'.symm)
    intro hwaiting
    simp [hwaiting, Phase.isPassed] at hpassed

theorem mem_concat {calls : List (Call Key Outcome)} (hget : call ∈ (calls ++ [call'])[c]?) :
    call ∈ calls[c]? ∨ c = calls.length ∧ call = call' := by
  rw [List.getElem?_append] at hget
  split at hget
  · exact .inl hget
  · obtain ⟨hc, rfl⟩ := List.getElem?_eq_some_iff.mp hget
    exact .inr ⟨by simp at hc; omega, by simp⟩

theorem lt_of_mem (hget : call ∈ s.calls[c]?) : c < s.calls.length :=
  (List.getElem?_eq_some_iff.mp hget).1

theorem of_next {ready : Bool} {e : Event Outcome} {old : Phase Outcome}
    (h : old.next ready e = some phase) :
    (ready = true ∨ old ≠ .waiting) ∧ phase ≠ .waiting ∧ (old.Released → phase.Released) ∧
      (phase.Released → old.Released ∨ ∃ o, phase = .released o) ∧
      ∀ o, phase.outcome? = some o → old.outcome? = some o ∨ e = .settle o ∨ e = .throw o := by
  cases e <;> cases old <;> cases ready <;> cases h <;> simp [Phase.Released, Phase.outcome?]

variable [DecidableEq Key] {key : Key}

theorem Inv.of_call (h : Inv s) (hstep : step s (.call key) = some s') : Inv s' := by
  cases hstep
  have old : ∀ {c : ℕ} {call : Call Key Outcome}, call ∈ s.calls[c]? →
      call ∈ (s.calls ++ [⟨key, s.chains key, .waiting⟩])[c]? := fun hget => by
    rwa [List.getElem?_append_left (lt_of_mem hget)]
  constructor
  · intro c call hget p hp
    obtain hget | ⟨rfl, rfl⟩ := mem_concat hget
    · obtain ⟨hlt, earlier, hearlier, hkey⟩ := h.prior c call hget p hp
      exact ⟨hlt, earlier, old hearlier, hkey⟩
    · obtain ⟨earlier, hearlier, hkey, -⟩ := h.stored key p hp
      exact ⟨lt_of_mem hearlier, earlier, old hearlier, hkey⟩
  · intro c call hget c' hlt call' hget' hkey
    obtain hin' | ⟨rfl, rfl⟩ := mem_concat hget'
    · obtain hin | ⟨rfl, rfl⟩ := mem_concat hget
      · exact h.covered c call hin c' hlt call' hin' hkey
      · subst hkey
        exact h.last c' call' hin'
    · obtain hin | ⟨rfl, -⟩ := mem_concat hget
      · exact absurd (lt_of_mem hin) (by omega)
      · omega
  · intro c call hget hphase c' hlt call' hget' hkey
    obtain hin | ⟨rfl, rfl⟩ := mem_concat hget
    · obtain hin' | ⟨rfl, rfl⟩ := mem_concat hget'
      · exact h.ordered c call hin hphase c' hlt call' hin' hkey
      · exact absurd (lt_of_mem hin) (by omega)
    · exact absurd rfl hphase
  · intro key' p hp
    change Function.update s.chains key (some s.calls.length) key' = some p at hp
    by_cases hkey : key' = key
    · subst hkey
      rw [Function.update_self] at hp
      cases hp
      exact ⟨_, List.getElem?_concat_length, rfl, id⟩
    · rw [Function.update_of_ne hkey] at hp
      obtain ⟨call', hget, hrest⟩ := h.stored key' p hp
      exact ⟨call', old hget, hrest⟩
  · intro c call hget
    obtain hget | ⟨rfl, rfl⟩ := mem_concat hget
    · by_cases hkey : call.key = key
      · exact .inr ⟨_, by simp [hkey], Nat.le_of_lt (lt_of_mem hget)⟩
      · simpa only [Function.update_of_ne hkey] using h.last c call hget
    · exact .inr ⟨_, by simp, Nat.le_refl _⟩

theorem mem_cleanup {p : ℕ} {own : Key} {chains : Key → Option ℕ} :
    p ∈ cleanup chains c own phase key ↔
      p ∈ chains key ∧ ¬ ((∃ o, phase = .released o) ∧ key = own ∧ p = c) := by
  cases phase with
  | released o =>
    simp only [cleanup, Option.mem_def]
    split
    · by_cases hkey : key = own
      · subst hkey
        simp_all
      · simp [hkey]
    · simp only [iff_self_and]
      rintro hp ⟨-, rfl, rfl⟩
      contradiction
  | _ => simp [cleanup]

theorem Inv.of_move {e : Event Outcome} (h : Inv s) (hstep : step s (.move c e) = some s') :
    Inv s' := by
  obtain ⟨call, hcall, hstep⟩ := Option.bind_eq_some_iff.mp hstep
  obtain ⟨phase, hnext, hstep⟩ := Option.bind_eq_some_iff.mp hstep
  cases hstep
  obtain ⟨hturn, hphase, mono, hreleased, -⟩ := of_next hnext
  have hclear : Clear s call.key c := hturn.elim (h.clear_of_ready hcall) (h.ordered c call hcall)
  have here : (s.calls.set c { call with phase })[c]? = some { call with phase } :=
    List.getElem?_set_self (lt_of_mem hcall)
  have elsewhere : ∀ {d : ℕ}, d ≠ c → (s.calls.set c { call with phase })[d]? = s.calls[d]? :=
    fun hne => List.getElem?_set_ne hne.symm
  have new : ∀ {d : ℕ} {call' : Call Key Outcome}, call' ∈ s.calls[d]? →
      ∃ call'' ∈ (s.calls.set c { call with phase })[d]?, call''.key = call'.key := by
    intro d call' hget
    by_cases hd : d = c
    · subst hd
      cases Option.mem_unique hcall hget
      exact ⟨_, here, rfl⟩
    · exact ⟨call', (elsewhere hd).trans hget, rfl⟩
  have old : ∀ {d : ℕ} {call' : Call Key Outcome},
      call' ∈ (s.calls.set c { call with phase })[d]? → ∃ call₀ ∈ s.calls[d]?,
        call₀.key = call'.key ∧ call₀.prior = call'.prior ∧
          (call₀.phase.Released → call'.phase.Released) := by
    intro d call' hget
    by_cases hd : d = c
    · subst hd
      cases Option.mem_unique here hget
      exact ⟨call, hcall, rfl, rfl, mono⟩
    · exact ⟨call', (elsewhere hd).symm.trans hget, rfl, rfl, id⟩
  constructor
  · intro d call' hget p hp
    obtain ⟨call₀, hget₀, hkey₀, hprior₀, -⟩ := old hget
    obtain ⟨hlt, earlier, hearlier, hkey⟩ := h.prior d call₀ hget₀ p (hprior₀ ▸ hp)
    obtain ⟨later, hlater, hkey'⟩ := new hearlier
    exact ⟨hlt, later, hlater, hkey'.trans (hkey.trans hkey₀)⟩
  · intro d call' hget d' hlt call'' hget' hkey
    obtain ⟨call₀, hget₀, hkey₀, hprior₀, -⟩ := old hget
    obtain ⟨call₁, hget₁, hkey₁, -, mono₁⟩ := old hget'
    rw [← hprior₀]
    exact (h.covered d call₀ hget₀ d' hlt call₁ hget₁
      (hkey₁.trans (hkey.trans hkey₀.symm))).imp_left mono₁
  · intro d call' hget hstarted d' hlt call'' hget' hkey
    obtain ⟨call₁, hget₁, hkey₁, -, mono₁⟩ := old hget'
    by_cases hd : d = c
    · subst hd
      cases Option.mem_unique here hget
      exact mono₁ (hclear d' hlt call₁ hget₁ (hkey₁.trans hkey))
    · exact mono₁ (h.ordered d call' ((elsewhere hd).symm.trans hget) hstarted d' hlt call₁ hget₁
        (hkey₁.trans hkey))
  · intro key p hp
    obtain ⟨hp, hkept⟩ := mem_cleanup.mp hp
    obtain ⟨call', hget, rfl, hlive⟩ := h.stored key p hp
    by_cases hd : p = c
    · subst hd
      cases Option.mem_unique hcall hget
      exact ⟨_, here, rfl, fun hrel => (hreleased hrel).elim hlive fun ho => hkept ⟨ho, rfl, rfl⟩⟩
    · exact ⟨call', (elsewhere hd).trans hget, rfl, hlive⟩
  · intro d call' hget
    refine or_iff_not_imp_left.mpr fun hlive => ?_
    obtain ⟨call₀, hget₀, hkey₀, -, mono₀⟩ := old hget
    obtain ⟨p, hp, hle⟩ := (h.last d call₀ hget₀).resolve_left (hlive ∘ mono₀)
    refine ⟨p, mem_cleanup.mpr ⟨hkey₀ ▸ hp, ?_⟩, hle⟩
    rintro ⟨⟨o, rfl⟩, hkey, rfl⟩
    obtain rfl | hlt := Nat.eq_or_lt_of_le hle
    · cases Option.mem_unique here hget
      exact hlive trivial
    · exact hlive (mono₀ (hclear d hlt call₀ hget₀ (hkey₀.trans hkey)))

theorem Inv.start {prior : Option ℕ} (h : Inv s) (hget : ⟨key, prior, .waiting⟩ ∈ s.calls[c]?)
    (hclear : Clear s key c) :
    ∃ passes s', (passes = [] ∨ ∃ p, passes = [.move p .pass]) ∧ exec step s passes = some s' ∧
      (step s' (.move c .start)).isSome ∧ ∀ o, (step s' (.move c (.throw o))).isSome := by
  have starts : ∀ s' : State Key Outcome, s'.calls[c]? = some ⟨key, prior, .waiting⟩ →
      s'.ready prior = true →
        (step s' (.move c .start)).isSome ∧ ∀ o, (step s' (.move c (.throw o))).isSome := by
    intro s' hget' hready
    simp [step, hget', Phase.next, hready]
  by_cases hready : s.ready prior = true
  · exact ⟨[], s, .inl rfl, rfl, starts s hget hready⟩
  · cases prior with
    | none => exact absurd rfl hready
    | some p =>
      obtain ⟨hlt, ⟨key', prior', phase⟩, hp, rfl⟩ := h.prior c _ hget p rfl
      have hreleased := hclear p hlt _ hp rfl
      rw [Option.mem_def] at hget hp
      obtain ⟨o, rfl⟩ : ∃ o, phase = .released o := by
        cases phase with
        | released o => exact ⟨o, rfl⟩
        | passed o => exact absurd (by simp [State.ready, hp, Phase.isPassed]) hready
        | _ => exact hreleased.elim
      refine ⟨[.move p .pass], ⟨s.calls.set p ⟨key', prior', .passed o⟩, s.chains⟩, .inr ⟨p, rfl⟩,
        by simp [exec, step, hp, Phase.next, cleanup], starts _ ?_ ?_⟩
      · rw [List.getElem?_set_ne (Nat.ne_of_lt hlt), hget]
      · simp [State.ready, lt_of_mem hp, Phase.isPassed]

end

variable {Key Outcome : Type} [DecidableEq Key] {s : State Key Outcome}
  {acts : List (Action Key Outcome)}

theorem inv_of_run (run : Run step (fun _ _ => True) {} acts s) : Inv s :=
  run.inv Inv ⟨by simp, by simp, by simp, by simp, by simp⟩ fun _ a _ h _ hstep => by
    cases a with
    | call key => exact h.of_call hstep
    | move c e => exact h.of_move hstep

theorem outcome_of_run (run : Run step (fun _ _ => True) {} acts s) :
    ∀ c : ℕ, ∀ call ∈ s.calls[c]?, ∀ o ∈ call.phase.outcome?,
      .move c (.settle o) ∈ acts ∨ .move c (.throw o) ∈ acts := by
  induction run with
  | nil => simp
  | @snoc acts t u a _ _ hstep ih =>
    intro c call hget o ho
    have hold : ∀ call' ∈ t.calls[c]?, o ∈ call'.phase.outcome? →
        .move c (.settle o) ∈ acts ++ [a] ∨ .move c (.throw o) ∈ acts ++ [a] :=
      fun call' hget ho => (ih c call' hget o ho).imp (List.mem_append_left _)
        (List.mem_append_left _)
    cases a with
    | call key =>
      cases hstep
      obtain hget | ⟨rfl, rfl⟩ := mem_concat hget
      · exact hold call hget ho
      · cases ho
    | move d e =>
      obtain ⟨call', hcall', hstep⟩ := Option.bind_eq_some_iff.mp hstep
      obtain ⟨phase, hnext, hstep⟩ := Option.bind_eq_some_iff.mp hstep
      cases hstep
      by_cases hd : c = d
      · subst hd
        rw [List.getElem?_set_self (lt_of_mem hcall')] at hget
        cases hget
        obtain ho | rfl | rfl := (of_next hnext).2.2.2.2 o ho
        · exact hold call' hcall' ho
        · simp
        · simp
      · exact hold call (by rwa [List.getElem?_set_ne (Ne.symm hd)] at hget) ho

/-- In every run: a call starts after the earlier calls of its key have been released, so two bodies
of one key never overlap; it can start once they are, whatever they gave, at the latest after the
`chained` of the one before it has settled; a body that runs can end and be released; each call gives
what its own body gave; and a key has an entry in `chains` just while a call of it is active. -/
theorem withPathLock_fifo (run : Run step (fun _ _ => True) {} acts s) :
    (∀ c : ℕ, ∀ call ∈ s.calls[c]?, call.phase ≠ .waiting → Clear s call.key c) ∧
    (∀ c c' : ℕ, ∀ call ∈ s.calls[c]?, ∀ call' ∈ s.calls[c']?, call.key = call'.key →
      call.phase.InBody → call'.phase.InBody → c = c') ∧
    (∀ c : ℕ, ∀ call ∈ s.calls[c]?, call.phase = .waiting → Clear s call.key c →
      ∃ passes s', (passes = [] ∨ ∃ p, passes = [.move p .pass]) ∧ exec step s passes = some s' ∧
        (step s' (.move c .start)).isSome ∧ ∀ o, (step s' (.move c (.throw o))).isSome) ∧
    (∀ c : ℕ, ∀ call ∈ s.calls[c]?, call.phase = .running → ∀ o,
      (exec step s [.move c (.settle o), .move c .finish]).isSome) ∧
    (∀ c : ℕ, ∀ call ∈ s.calls[c]?, ∀ o, call.phase = .settled o →
      (step s (.move c .finish)).isSome) ∧
    (∀ c : ℕ, ∀ call ∈ s.calls[c]?, ∀ o ∈ call.phase.outcome?,
      .move c (.settle o) ∈ acts ∨ .move c (.throw o) ∈ acts) ∧
    ∀ key, s.chains key = none ↔
      ∀ c : ℕ, ∀ call ∈ s.calls[c]?, call.key = key → call.phase.Released := by
  have h := inv_of_run run
  have inBody : ∀ {phase : Phase Outcome}, phase.InBody → phase ≠ .waiting ∧ ¬ phase.Released := by
    intro phase hbody
    cases phase <;> simp_all [Phase.InBody, Phase.Released]
  refine ⟨h.ordered, ?_, ?_, ?_, ?_, outcome_of_run run, ?_⟩
  · intro c c' call hget call' hget' hkey hbody hbody'
    obtain hlt | rfl | hgt := Nat.lt_trichotomy c c'
    · exact absurd (h.ordered c' call' hget' (inBody hbody').1 c hlt call hget hkey) (inBody hbody).2
    · rfl
    · exact absurd (h.ordered c call hget (inBody hbody).1 c' hgt call' hget' hkey.symm)
        (inBody hbody').2
  · rintro c ⟨key, prior, -⟩ hget rfl hclear
    exact h.start hget hclear
  · rintro c ⟨key, prior, -⟩ hget rfl o
    rw [Option.mem_def] at hget
    simp [exec, step, hget, Phase.next, List.getElem?_set_self (lt_of_mem hget)]
  · rintro c ⟨key, prior, -⟩ hget o rfl
    rw [Option.mem_def] at hget
    simp [step, hget, Phase.next]
  · intro key
    constructor
    · rintro hnone c call hget rfl
      refine (h.last c call hget).resolve_right ?_
      simp [hnone]
    · intro hall
      refine Option.eq_none_iff_forall_ne_some.mpr fun p hp => ?_
      obtain ⟨call, hget, hkey, hlive⟩ := h.stored key p hp
      exact hlive (hall p call hget hkey)

theorem withPathLock_fifo_throw : ∃ s : State ℕ ℕ,
    exec step {} [.call 0, .call 0, .call 1, .move 0 .start, .move 2 .start, .move 0 (.settle 7),
      .call 0, .move 0 .finish, .move 0 .pass, .move 1 (.throw 8), .move 1 .pass,
      .move 3 .start] = some s ∧
    (s.chains 0 = none ↔ ∀ c : ℕ, ∀ call ∈ s.calls[c]?, call.key = 0 → call.phase.Released) := by
  refine (Option.isSome_iff_exists.mp ?_).imp fun s hs =>
    ⟨hs, (withPathLock_fifo (Run.of_exec_eq_some hs)).2.2.2.2.2.2 0⟩
  decide

variable {Key Outcome : Type} [DecidableEq Key] {s s' : State Key Outcome} {key : Key} {c : ℕ}
  {call : Call Key Outcome} {phase : Phase Outcome} {acts : List (Action Key Outcome)}

instance : (phase : Phase Outcome) → Decidable phase.Released
  | .released _ | .passed _ => isTrue trivial
  | .waiting | .running | .settled _ => isFalse id

theorem releases_iff {ready : Bool} {e : Event Outcome} {old : Phase Outcome}
    (h : old.next ready e = some phase) : e = .pass ∧ old.Released ∧ phase.Released ∨
      ¬ old.Released ∧ (phase.Released ↔ e = .finish ∨ ∃ o, e = .throw o) := by
  cases e <;> cases old <;> cases ready <;> cases h <;> simp [Phase.Released]

def State.queued (s : State Key Outcome) (key : Key) (c : ℕ) : Bool :=
  s.calls[c]?.any fun call => call.key = key ∧ ¬ call.phase.Released

/-- The calls of a key that are not released, in the order they came. -/
def State.queue (s : State Key Outcome) : Mutex Key ℕ := fun key =>
  (List.range s.calls.length).filter (s.queued key)

theorem holds_of_clear (hget : call ∈ s.calls[c]?) (hlive : ¬ call.phase.Released)
    (hclear : Clear s call.key c) : s.queue.Holds call.key c := by
  rw [Mutex.Holds, State.queue, List.head?_filter, List.find?_range_eq_some]
  refine ⟨?_, List.mem_range.mpr (lt_of_mem hget), fun c' hlt => ?_⟩
  · rw [Option.mem_def] at hget
    simp [State.queued, hget, hlive]
  · rw [Bool.not_eq_true', State.queued, Option.any_eq_false]
    intro call' hget'
    simpa using hclear c' hlt call' hget'

theorem queue_concat : State.queue { s with calls := s.calls ++ [⟨key, s.chains key, .waiting⟩] } =
    s.queue.enqueue key s.calls.length := by
  funext k
  have old : ∀ c ∈ List.range s.calls.length, State.queued
      { s with calls := s.calls ++ [⟨key, s.chains key, .waiting⟩] } k c = s.queued k c :=
    fun c hc => by
      rw [State.queued, List.getElem?_append_left (List.mem_range.mp hc), State.queued]
  rw [State.queue, List.length_append, List.length_singleton, List.range_succ, List.filter_append,
    List.filter_congr old]
  by_cases hkey : k = key
  · subst hkey
    simp [State.queue, State.queued, Phase.Released]
  · rw [Mutex.enqueue_of_ne _ _ _ _ hkey]
    simp [State.queue, State.queued, Ne.symm hkey]

variable {chains : Key → Option ℕ} (hget : call ∈ s.calls[c]?)

include hget

theorem queued_set (k : Key) (d : ℕ) :
    State.queued ⟨s.calls.set c { call with phase }, chains⟩ k d =
      if d = c then decide (call.key = k ∧ ¬ phase.Released) else s.queued k d := by
  split
  next h =>
    subst h
    simp [State.queued, List.getElem?_set_self (lt_of_mem hget)]
  next h => rw [State.queued, List.getElem?_set_ne (Ne.symm h), State.queued]

theorem queue_set (h : phase.Released ↔ call.phase.Released) :
    State.queue ⟨s.calls.set c { call with phase }, chains⟩ = s.queue := by
  funext k
  rw [State.queue, List.length_set]
  refine List.filter_congr fun d _ => ?_
  rw [queued_set hget]
  split
  next hd =>
    subst hd
    rw [Option.mem_def] at hget
    simp [State.queued, hget, h]
  next => rfl

theorem queue_release (h : phase.Released) (holds : s.queue.Holds call.key c) :
    State.queue ⟨s.calls.set c { call with phase }, chains⟩ = s.queue.release call.key := by
  funext k
  have hset : State.queue ⟨s.calls.set c { call with phase }, chains⟩ k =
      (s.queue k).filter (· ≠ c) := by
    rw [State.queue, List.length_set, State.queue, List.filter_filter]
    refine List.filter_congr fun d _ => ?_
    rw [queued_set hget]
    split <;> simp_all
  obtain ⟨rest, hrest⟩ := List.head?_eq_some_iff.mp holds
  have nodup : (c :: rest).Nodup := hrest ▸ List.nodup_range.filter _
  by_cases hkey : k = call.key
  · subst hkey
    rw [Mutex.release_self, hset, hrest, List.filter_cons_of_neg (by simp), List.tail_cons,
      List.filter_eq_self.mpr]
    rintro d hd
    simpa using fun heq : d = c => (List.nodup_cons.mp nodup).1 (heq ▸ hd)
  · rw [Mutex.release_of_ne _ _ _ hkey, hset, List.filter_eq_self.mpr]
    rintro d hd
    refine decide_eq_true fun heq => hkey ?_
    subst heq
    have hqueued := (List.mem_filter.mp hd).2
    rw [State.queued, Option.mem_def.mp hget] at hqueued
    exact (of_decide_eq_true hqueued).1.symm

omit hget

/-- `withPathLock` refines the keyed mutex: a call queues under its key, whatever a call does while
its key is not released it does as the holder, and releasing the key hands it on. -/
theorem withPathLock_refines_mutex (run : Run step (fun _ _ => True) {} acts s) :
    (∀ key s', step s (.call key) = some s' → s'.queue = s.queue.enqueue key s.calls.length) ∧
    ∀ c e s', step s (.move c e) = some s' → ∃ call ∈ s.calls[c]?, match e with
      | .start | .settle _ => s.queue.Holds call.key c ∧ s'.queue = s.queue
      | .throw _ | .finish =>
        s.queue.Holds call.key c ∧ s'.queue = s.queue.release call.key
      | .pass => s'.queue = s.queue := by
  refine ⟨?_, fun c e s' hstep => ?_⟩
  · rintro key s' ⟨⟩
    exact queue_concat
  · obtain ⟨call, hcall, hstep⟩ := Option.bind_eq_some_iff.mp hstep
    obtain ⟨phase, hnext, hstep⟩ := Option.bind_eq_some_iff.mp hstep
    cases hstep
    have inv := inv_of_run run
    have holds := fun hlive => holds_of_clear hcall hlive
      ((of_next hnext).1.elim (inv.clear_of_ready hcall) (inv.ordered c call hcall))
    refine ⟨call, hcall, ?_⟩
    obtain ⟨rfl, hold, hphase⟩ | ⟨hlive, hreleases⟩ := releases_iff hnext
    · exact queue_set hcall (iff_of_true hphase hold)
    · cases e with
      | start | settle => exact ⟨holds hlive, queue_set hcall (by simp [hreleases, hlive])⟩
      | throw | finish =>
        exact ⟨holds hlive, queue_release hcall (by simp [hreleases]) (holds hlive)⟩
      | pass => exact queue_set hcall (by simp [hreleases, hlive])

theorem withPathLock_refines_mutex_handover : ∃ s : State ℕ ℕ,
    exec step {} [.call 0, .call 0, .call 1, .move 0 .start, .move 0 (.settle 7)] = some s ∧
    ∀ s', step s (.move 0 .finish) = some s' → ∃ call ∈ s.calls[0]?,
      s.queue.Holds call.key 0 ∧ s'.queue = s.queue.release call.key := by
  refine (Option.isSome_iff_exists.mp (by decide)).imp fun s hs => ⟨hs, ?_⟩
  exact (withPathLock_refines_mutex (Run.of_exec_eq_some hs)).2 0 .finish

end Portuni.PathLock
