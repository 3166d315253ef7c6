import Portuni.Desktop.SessionsWs

/-!
No frame of a window is lost, doubled or revived. The invariant gives every window a sound
ledger, every entry of the registry a loop, and the loops of other generations nothing to do.
-/

namespace Portuni.Desktop.SessionsWs

open Library.Runs

def SessionsWsState.currentLoop (s : SessionsWsState) (wsId : String) :
    Option (Outbox × LoopState) :=
  (s.connections wsId).bind fun g => (s.loops g).map fun loop => (s.outbox g, loop.2)

/-- A disconnect does not meet a loop inside its drain with frames left, and neither it nor a
connect meets one between its look at the registry and its emit. -/
def Undisturbing (s : SessionsWsState) : Action → Prop
  | .register wsId => ∀ current ∈ s.currentLoop wsId, current.2.emits = false
  | .remove wsId => ∀ current ∈ s.currentLoop wsId, current.2.emits = false ∧
      (current.2.drains = true → current.1.queue = [])
  | _ => True

instance (s : SessionsWsState) : (a : Action) → Decidable (Undisturbing s a)
  | .register wsId =>
    inferInstanceAs (Decidable (∀ current ∈ s.currentLoop wsId, current.2.emits = false))
  | .remove wsId =>
    inferInstanceAs (Decidable (∀ current ∈ s.currentLoop wsId, current.2.emits = false ∧
      (current.2.drains = true → current.1.queue = [])))
  | .push .. => isTrue trivial
  | .cancel .. => isTrue trivial
  | .advance .. => isTrue trivial

/-- No frame of the window is lost, doubled or revived, and no superseded loop speaks. -/
structure Delivers (s : SessionsWsState) (wsId : String) : Prop where
  numbered : (s.accepted wsId).Pairwise fun f g => f.number < g.number
  once : (s.accepted wsId).Nodup
  inOrder : (s.popped wsId).Sublist (s.accepted wsId)
  taken : ∀ f ∈ s.written wsId, f ∈ s.popped wsId
  cancelled : ∀ f ∈ s.written wsId, f ∉ s.cancelled wsId
  kept : ∀ f ∈ s.accepted wsId, f ∉ s.popped wsId → f ∉ s.cancelled wsId → f ∉ s.discarded wsId →
    f ∈ s.waiting wsId
  ahead : (s.waiting wsId).Sublist (s.accepted wsId)
  discarded : ∀ f ∈ s.written wsId, f ∉ s.discarded wsId
  silent : ∀ e ∈ s.emitted, e.current = true


/-- A loop whose generation was replaced or removed has nothing left to take. -/
structure Retired (outbox : Outbox) (state : LoopState) : Prop where
  closed : outbox.closed = true
  drained : state.drains = true → outbox.queue = []
  quiet : state.emits = false

structure Sound (s : SessionsWsState) : Prop where
  ledger : ∀ wsId, (s.ledger wsId).Sound s.pushes
  held : ∀ g wsId f, s.loops g = some (wsId, .writing f) → f ∈ s.popped wsId
  owner : ∀ wsId g, s.connections wsId = some g → ∃ state, s.loops g = some (wsId, state)
  fresh : ∀ g, s.nextGeneration ≤ g → s.loops g = none
  retired : ∀ g wsId state, s.loops g = some (wsId, state) → s.connections wsId ≠ some g →
    Retired (s.outbox g) state
  silent : ∀ e ∈ s.emitted, e.current = true

namespace Sound

variable {s : SessionsWsState}

theorem init : Sound {} where
  ledger := fun _ => Ledger.Sound.empty
  held := by simp
  owner := by simp
  fresh := by simp
  retired := by simp
  silent := by simp

variable {wsId w : String} {g : ℕ} {t : SessionsWsState} {state : LoopState}

variable (h : Sound s)

include h

theorem below (hg : s.connections wsId = some g) : g < s.nextGeneration := by
  obtain ⟨state, hloop⟩ := h.owner wsId g hg
  refine Nat.lt_of_not_le fun hle => ?_
  rw [h.fresh g hle] at hloop
  cases hloop

theorem owner_unique {w' : String} (hw : s.connections w = some g) (hw' : s.connections w' = some g) :
    w = w' := by
  obtain ⟨_, hl⟩ := h.owner w g hw
  obtain ⟨_, hl'⟩ := h.owner w' g hw'
  rw [hl] at hl'
  exact congrArg Prod.fst (Option.some.inj hl')

theorem waiting_of_ne {w' : String} (hg : s.connections w = some g)
    (hconn : t.connections w' = s.connections w')
    (hbox : ∀ g' < s.nextGeneration, g' ≠ g → t.outbox g' = s.outbox g') (hne : w' ≠ w) :
    t.waiting w' = s.waiting w' := by
  unfold SessionsWsState.waiting
  rw [hconn]
  cases hc : s.connections w' with
  | none => rfl
  | some g' =>
    have apart : g' ≠ g := by
      rintro rfl
      exact hne (h.owner_unique hc hg)
    simp [hbox g' (h.below hc) apart]

theorem goto {old : LoopState} (hloop : s.loops g = some (wsId, old))
    (hheld : ∀ f, state = .writing f → f ∈ s.popped wsId)
    (hretired : s.connections wsId ≠ some g → Retired (s.outbox g) state) :
    Sound (s.goto wsId g state) where
  __ := h
  held := by
    intro g' w f hl
    by_cases hg : g' = g
    · subst hg
      simp only [SessionsWsState.goto, put_self, Option.some.injEq, Prod.mk.injEq] at hl
      obtain ⟨rfl, rfl⟩ := hl
      exact hheld f rfl
    · simp only [SessionsWsState.goto, put_of_ne _ _ hg] at hl
      exact h.held g' w f hl
  owner := by
    intro w g' hc
    obtain ⟨state', hl⟩ := h.owner w g' hc
    by_cases hg : g' = g
    · subst hg
      rw [hloop] at hl
      obtain ⟨rfl, -⟩ := Prod.mk.inj (Option.some.inj hl)
      exact ⟨state, by simp [SessionsWsState.goto]⟩
    · exact ⟨state', by simpa [SessionsWsState.goto, hg] using hl⟩
  fresh := by
    intro g' hle
    have hg : g' ≠ g := by
      rintro rfl
      rw [h.fresh g' hle] at hloop
      cases hloop
    simpa [SessionsWsState.goto, hg] using h.fresh g' hle
  retired := by
    intro g' w state' hl hc
    by_cases hg : g' = g
    · subst hg
      simp only [SessionsWsState.goto, put_self, Option.some.injEq, Prod.mk.injEq] at hl
      obtain ⟨rfl, rfl⟩ := hl
      exact hretired hc
    · simp only [SessionsWsState.goto, put_of_ne _ _ hg] at hl
      exact h.retired g' w state' hl hc

theorem of_window (hg : s.connections w = some g) (hconn : t.connections = s.connections)
    (hnext : t.nextGeneration = s.nextGeneration) (hloops : t.loops = s.loops)
    (hemitted : t.emitted = s.emitted) (hbox : ∀ g' ≠ g, t.outbox g' = s.outbox g')
    (hpushes : t.pushes = s.pushes ∨ t.pushes = s.pushes + 1)
    (hother : ∀ w' ≠ w, t.waiting w' = s.waiting w' → t.ledger w' = s.ledger w')
    (hledger : (t.ledger w).Sound t.pushes) (hpopped : s.popped w ⊆ t.popped w) : Sound t where
  ledger := by
    intro w'
    by_cases hw : w' = w
    · exact hw ▸ hledger
    · rw [hother w' hw (h.waiting_of_ne hg (by rw [hconn]) (fun g' _ => hbox g') hw)]
      rcases hpushes with hp | hp
      · exact hp ▸ h.ledger w'
      · exact hp ▸ (h.ledger w').mono
  held := by
    intro g' w' f hl
    rw [hloops] at hl
    by_cases hw : w' = w
    · subst hw
      exact hpopped (h.held g' w' f hl)
    · have same : t.popped w' = s.popped w' := congrArg Ledger.popped
        (hother w' hw (h.waiting_of_ne hg (by rw [hconn]) (fun g' _ => hbox g') hw))
      exact same ▸ h.held g' w' f hl
  owner := by
    rw [hconn, hloops]
    exact h.owner
  fresh := by
    rw [hnext, hloops]
    exact h.fresh
  retired := by
    intro g' w' state hl hc
    rw [hconn] at hc
    rw [hloops] at hl
    have apart : g' ≠ g := by
      rintro rfl
      obtain ⟨_, hl'⟩ := h.owner w g' hg
      rw [hl'] at hl
      obtain ⟨rfl, -⟩ := Prod.mk.inj (Option.some.inj hl)
      exact hc hg
    rw [hbox g' apart]
    exact h.retired g' w' state hl hc
  silent := hemitted ▸ h.silent

theorem push {id : Option String} {text : String} (hstep : s.push wsId id text = some t) :
    Sound t := by
  obtain ⟨g, hg, rfl⟩ := Option.map_eq_some_iff.mp hstep
  refine h.of_window hg rfl rfl rfl rfl (fun g' hne => put_of_ne _ _ hne) (Or.inr rfl) ?_ ?_
    (List.Subset.refl _)
  · intro w' hne hw
    simp only [SessionsWsState.ledger, put_of_ne _ _ hne, hw]
  · have := (h.ledger wsId).accept (f := ⟨s.pushes, id, text⟩) rfl
    simpa [SessionsWsState.ledger, SessionsWsState.waiting, hg] using this

theorem cancel (wsId id : String) : Sound (s.cancel wsId id) := by
  cases hg : s.connections wsId with
  | none => simpa [SessionsWsState.cancel, hg] using h
  | some g =>
    simp only [SessionsWsState.cancel, hg]
    refine h.of_window hg rfl rfl rfl rfl (fun g' hne => put_of_ne _ _ hne) (Or.inl rfl) ?_ ?_
      (List.Subset.refl _)
    · intro w' hne hw
      simp only [SessionsWsState.ledger, put_of_ne _ _ hne, hw]
    · have := (h.ledger wsId).withdraw
        (s.cancelled wsId ++ (s.outbox g).queue.filter fun f => f.id = some id)
        (s.discarded wsId) ((s.outbox g).queue.filter fun f => f.id ≠ some id)
        (by simp [SessionsWsState.ledger, SessionsWsState.waiting, hg])
        (by
          intro f
          simp only [SessionsWsState.ledger, SessionsWsState.waiting, hg, List.mem_append,
            List.mem_filter]
          by_cases hid : f.id = some id <;> simp [hid]; tauto)
      simpa [SessionsWsState.ledger, SessionsWsState.waiting, hg] using this

theorem pop (hloop : s.loops g = some (wsId, .draining)) : Sound (s.pop wsId g) := by
  unfold SessionsWsState.pop
  cases hq : (s.outbox g).queue with
  | nil =>
    refine h.goto hloop (by simp) fun hc => ?_
    exact ⟨(h.retired g wsId _ hloop hc).closed, by simp [LoopState.drains], rfl⟩
  | cons frame rest =>
    -- a retired loop that drains has an empty queue
    have hg : s.connections wsId = some g := by
      refine Classical.byContradiction fun hc => ?_
      rw [(h.retired g wsId _ hloop hc).drained rfl] at hq
      cases hq
    have taken : Sound { s with
        outbox := put s.outbox g { s.outbox g with queue := rest }
        popped := put s.popped wsId (s.popped wsId ++ [frame]) } := by
      refine h.of_window hg rfl rfl rfl rfl (fun g' hne => put_of_ne _ _ hne) (Or.inl rfl) ?_ ?_ ?_
      · intro w' hne hw
        simp only [SessionsWsState.ledger, put_of_ne _ _ hne, hw]
      · have front : (s.ledger wsId).waiting = frame :: rest := by
          simp [SessionsWsState.ledger, SessionsWsState.waiting, hg, hq]
        have := (h.ledger wsId).take front
        simpa [SessionsWsState.ledger, SessionsWsState.waiting, hg] using this
      · simp
    refine taken.goto hloop ?_ (fun hc => absurd hg hc)
    rintro f ⟨⟩
    simp

theorem write {frame : Frame} (hloop : s.loops g = some (wsId, .writing frame)) :
    Sound (s.write wsId g frame) := by
  have wrote : Sound { s with written := put s.written wsId (s.written wsId ++ [frame]) } :=
    { h with
      ledger := by
        intro w'
        by_cases hw : w' = wsId
        · subst hw
          simpa [SessionsWsState.ledger, SessionsWsState.waiting] using
            (h.ledger w').write (h.held g w' frame hloop)
        · simpa [SessionsWsState.ledger, SessionsWsState.waiting, hw] using h.ledger w' }
  refine wrote.goto hloop (by simp) fun hc => ?_
  obtain ⟨closed, drained, -⟩ := h.retired g wsId _ hloop hc
  exact ⟨closed, fun _ => drained rfl, rfl⟩

theorem emit (hg : s.connections wsId = some g) (status : String) : Sound (s.emit wsId g status) :=
  { h with
    silent := by
      intro e he
      rcases List.mem_append.mp he with he | he
      · exact h.silent e he
      · rw [List.mem_singleton.mp he]
        simp [SessionsWsState.isCurrent, hg] }

theorem retired_of_change (hl : s.loops g = some (w, state))
    (hother : ∀ w' ≠ wsId, t.connections w' = s.connections w')
    (hbox : s.connections wsId ≠ some g → t.outbox g = s.outbox g)
    (hold : s.connections wsId = some g → w = wsId → Retired (t.outbox g) state)
    (hc : t.connections w ≠ some g) : Retired (t.outbox g) state := by
  by_cases hg : s.connections wsId = some g
  · obtain ⟨_, hl'⟩ := h.owner wsId g hg
    rw [hl] at hl'
    exact hold hg (congrArg Prod.fst (Option.some.inj hl'))
  · rw [hbox hg]
    by_cases hw : w = wsId
    · exact h.retired g w state hl (hw ▸ hg)
    · exact h.retired g w state hl (hother w hw ▸ hc)

omit h

theorem currentLoop_eq (hg : s.connections wsId = some g) (hl : s.loops g = some (wsId, state)) :
    s.currentLoop wsId = some (s.outbox g, state) := by
  simp [SessionsWsState.currentLoop, hg, hl]

theorem retire_of_ne (hg : s.connections wsId ≠ some g) :
    s.retire wsId g = s.outbox g := by
  unfold SessionsWsState.retire
  cases ho : s.connections wsId with
  | none => rfl
  | some o =>
    refine put_of_ne _ _ ?_
    rintro rfl
    exact hg ho

include h

theorem waiting_register (wsId w : String) : (s.register wsId).waiting w = s.waiting w := by
  by_cases hw : w = wsId
  · subst hw
    simp [SessionsWsState.register, SessionsWsState.waiting]
  · simp only [SessionsWsState.register, SessionsWsState.waiting, put_of_ne _ _ hw]
    cases hc : s.connections w with
    | none => rfl
    | some g =>
      have apart : s.connections wsId ≠ some g := fun ho => hw (h.owner_unique hc ho)
      simp only [put_of_ne _ _ (Nat.ne_of_lt (h.below hc)), retire_of_ne apart]

theorem register (hok : Undisturbing s (.register wsId)) : Sound (s.register wsId) where
  ledger := by
    intro w
    have same : (s.register wsId).ledger w = s.ledger w := by
      simp only [SessionsWsState.ledger, h.waiting_register wsId w]
      rfl
    exact same ▸ h.ledger w
  held := by
    intro g w f hl
    by_cases hg : g = s.nextGeneration
    · simp [SessionsWsState.register, hg] at hl
    · exact h.held g w f (by simpa [SessionsWsState.register, hg] using hl)
  owner := by
    intro w g hc
    by_cases hw : w = wsId
    · subst hw
      have hg : s.nextGeneration = g := by simpa [SessionsWsState.register] using hc
      exact ⟨.top, by simp [SessionsWsState.register, hg]⟩
    · have hc' : s.connections w = some g := by simpa [SessionsWsState.register, hw] using hc
      obtain ⟨state, hl⟩ := h.owner w g hc'
      have hg := Nat.ne_of_lt (h.below hc')
      exact ⟨state, by simpa [SessionsWsState.register, hg] using hl⟩
  fresh := by
    intro g hle
    have hg : g ≠ s.nextGeneration := Nat.ne_of_gt hle
    simpa [SessionsWsState.register, hg] using h.fresh g (Nat.le_of_succ_le hle)
  retired := by
    intro g w state hl hc
    by_cases hg : g = s.nextGeneration
    · -- the new loop is the current one
      subst hg
      simp only [SessionsWsState.register, put_self, Option.some.injEq, Prod.mk.injEq] at hl hc
      exact absurd (by rw [hl.1.symm, put_self]) hc
    · have hl' : s.loops g = some (w, state) := by simpa [SessionsWsState.register, hg] using hl
      refine h.retired_of_change hl' (fun w' hw => put_of_ne _ _ hw) ?_ ?_ hc
      · intro ho
        simp only [SessionsWsState.register, put_of_ne _ _ hg, retire_of_ne ho]
      · rintro ho rfl
        have taken : (s.register w).outbox g = ⟨[], true⟩ := by
          simp [SessionsWsState.register, SessionsWsState.retire, hg, ho]
        rw [taken]
        exact ⟨rfl, fun _ => rfl, hok _ (currentLoop_eq ho hl')⟩
  silent := h.silent

theorem remove (hok : Undisturbing s (.remove wsId)) : Sound (s.remove wsId) := by
  cases ho : s.connections wsId with
  | none => simpa [SessionsWsState.remove, ho] using h
  | some old =>
    simp only [SessionsWsState.remove, ho]
    exact
      { ledger := by
          intro w
          by_cases hw : w = wsId
          · subst hw
            have dropped := (h.ledger w).withdraw (s.cancelled w)
              (s.discarded w ++ (s.outbox old).queue) [] (List.nil_sublist _)
              (by simp [SessionsWsState.ledger, SessionsWsState.waiting, ho, or_assoc])
            simpa [SessionsWsState.ledger, SessionsWsState.waiting] using dropped
          · have waits : (s.remove wsId).waiting w = s.waiting w := h.waiting_of_ne ho
              (by simp [SessionsWsState.remove, ho, hw])
              (fun g _ hg => by simp [SessionsWsState.remove, ho, hg]) hw
            simp only [SessionsWsState.remove, ho] at waits
            simpa [SessionsWsState.ledger, hw, waits] using h.ledger w
        held := h.held
        owner := by
          intro w g hc
          have hw : w ≠ wsId := by
            rintro rfl
            simp at hc
          exact h.owner w g (by simpa [hw] using hc)
        fresh := h.fresh
        retired := by
          intro g w state hl hc
          refine h.retired_of_change hl (fun w' hw => put_of_ne _ _ hw) ?_ ?_ hc
          · intro hg
            refine put_of_ne _ _ ?_
            rintro rfl
            exact hg ho
          · rintro hg rfl
            obtain rfl : old = g := Option.some.inj (ho.symm.trans hg)
            obtain ⟨quiet, drained⟩ := hok _ (currentLoop_eq hg hl)
            exact ⟨by simp, by simpa using drained, quiet⟩
        silent := h.silent }

theorem rest {old : LoopState} (hloop : s.loops g = some (wsId, old))
    (hdrains : state.drains = false) (hemits : state.emits = false) :
    Sound (s.goto wsId g state) := by
  refine h.goto hloop ?_ fun hc => ?_
  · rintro f rfl
    cases hdrains
  · exact ⟨(h.retired g wsId old hloop hc).closed, by simp [hdrains], hemits⟩

theorem current_of_emits (hloop : s.loops g = some (wsId, state)) (hemits : state.emits = true) :
    s.connections wsId = some g := by
  refine Classical.byContradiction fun hc => ?_
  rw [(h.retired g wsId state hloop hc).quiet] at hemits
  cases hemits

theorem look {old other : LoopState} (hloop : s.loops g = some (wsId, old))
    (hdrains : state.drains = false) (hother : other.drains = false ∧ other.emits = false) :
    Sound (s.goto wsId g (if s.isCurrent wsId g then state else other)) := by
  split
  · rename_i hcurrent
    have hg : s.connections wsId = some g := of_decide_eq_true hcurrent
    refine h.goto hloop ?_ (fun hc => absurd hg hc)
    rintro f rfl
    cases hdrains
  · exact h.rest hloop hother.1 hother.2

theorem advance (hloop : s.loops g = some (wsId, state)) (outcome : Outcome) :
    Sound (s.advance g wsId outcome state) := by
  cases state with
  | top =>
    show Sound (if _ then _ else _)
    split
    · cases outcome with
      | ok | error | abort => exact h.rest hloop rfl rfl
    · exact h.rest hloop rfl rfl
  | connecting | selecting =>
    show Sound (s.goto wsId g (if _ then _ else _))
    split <;> exact h.rest hloop rfl rfl
  | connected | lost | reporting => exact h.look hloop rfl ⟨rfl, rfl⟩
  | opening =>
    exact (h.emit (h.current_of_emits hloop rfl) "open").rest hloop rfl rfl
  | socket =>
    show Sound (s.goto wsId g (if _ then _ else _))
    split
    · exact h.rest hloop rfl rfl
    · rename_i hopen
      exact h.goto hloop (by simp) fun hc => absurd (h.retired g wsId _ hloop hc).closed hopen
  | draining => exact h.pop hloop
  | writing frame =>
    show Sound (if _ then _ else _)
    split
    · exact h.write hloop
    · exact h.rest hloop rfl rfl
  | emitting =>
    exact (h.emit (h.current_of_emits hloop rfl) "reconnecting").rest hloop rfl rfl
  | backoff =>
    refine h.look hloop ?_ ⟨rfl, rfl⟩
    split <;> rfl
  | stopped => exact h

theorem step {a : Action} (hok : Undisturbing s a) (hstep : step s a = some t) : Sound t := by
  cases a with
  | register wsId =>
    cases hstep
    exact h.register hok
  | remove wsId =>
    cases hstep
    exact h.remove hok
  | push wsId id text => exact h.push hstep
  | cancel wsId id =>
    cases hstep
    exact h.cancel wsId id
  | advance g outcome =>
    obtain ⟨⟨wsId, state⟩, hloop, rfl⟩ := Option.map_eq_some_iff.mp hstep
    exact h.advance hloop outcome

theorem delivers (wsId : String) : Delivers s wsId where
  numbered := (h.ledger wsId).numbered
  once := (h.ledger wsId).nodup
  inOrder := (List.sublist_append_left _ _).trans (h.ledger wsId).flow
  taken := (h.ledger wsId).taken
  cancelled := by
    intro f hf hc
    exact (h.ledger wsId).popped_notMem_gone ((h.ledger wsId).taken f hf)
      (List.mem_append_left _ hc)
  kept := by
    intro f hf hp hc hd
    rcases (h.ledger wsId).settled f hf with hflow | hgone
    · exact (List.mem_append.mp hflow).resolve_left hp
    · exact ((List.mem_append.mp hgone).elim hc hd).elim
  ahead := (List.sublist_append_right _ _).trans (h.ledger wsId).flow
  discarded := by
    intro f hf hd
    exact (h.ledger wsId).popped_notMem_gone ((h.ledger wsId).taken f hf)
      (List.mem_append_right _ hd)
  silent := h.silent

end Sound

/-- Whatever the interleaving of the commands with the loops, while no disconnect or connect
meets a loop past its last look at the registry. -/
theorem run_delivers {acts : List Action} {t : SessionsWsState}
    (run : Run step Undisturbing {} acts t) (wsId : String) : Delivers t wsId :=
  (run.inv Sound Sound.init fun _ _ _ h hok hstep => h.step hok hstep).delivers wsId

/-- A window whose frame goes out, with a second one left waiting for the socket that a new
connect brings. -/
def reconnected : List Action :=
  [.register "w", .push "w" (some "1") "first", .advance 0 .ok, .advance 0 .ok, .advance 0 .ok,
    .advance 0 .ok, .advance 0 .ok, .advance 0 .ok, .advance 0 .ok, .advance 0 .ok,
    .push "w" none "second", .register "w"]

theorem run_delivers_reconnected :
    ∃ t, Run step Undisturbing {} reconnected t ∧ t.written "w" = [⟨0, some "1", "first"⟩] ∧
      t.waiting "w" = [⟨1, none, "second"⟩] ∧ Delivers t "w" := by
  obtain ⟨t, ht⟩ : ∃ t, exec step {} reconnected = some t := ⟨_, rfl⟩
  have run : Run step Undisturbing {} reconnected t := Run.of_exec ht (by decide)
  cases ht
  exact ⟨_, run, by decide, by decide, run_delivers run "w"⟩

/-- A disconnect while the loop writes the first of two frames, and a disconnect between the
loop's look at the registry and its status. -/
theorem removed_is_written : (∃ acts t, Run step (fun _ _ => True) {} acts t ∧
      ∃ f ∈ t.written "w", f ∈ t.discarded "w") ∧
    ∃ acts t, Run step (fun _ _ => True) {} acts t ∧ ∃ e ∈ t.emitted, e.current = false := by
  constructor
  · refine ⟨[.register "w", .push "w" none "first", .push "w" none "second", .advance 0 .ok,
      .advance 0 .ok, .advance 0 .ok, .advance 0 .ok, .advance 0 .ok, .advance 0 .ok,
      .remove "w", .advance 0 .ok, .advance 0 .ok, .advance 0 .ok], _,
      Run.of_exec_eq_some rfl, ⟨1, none, "second"⟩, ?_, ?_⟩ <;> decide
  · refine ⟨[.register "w", .advance 0 .ok, .advance 0 .ok, .advance 0 .ok, .remove "w",
      .advance 0 .ok], _, Run.of_exec_eq_some rfl, ⟨"w", 0, "open", false⟩, ?_, rfl⟩
    decide

end Portuni.Desktop.SessionsWs
