import Portuni.Subscriptions.Registered

/-!
The runtime holds a listener of a connection for exactly the sessions whose last frame was a
granted `subscribe`, as long as no check passes behind a close or an `unsubscribe`. No event is
sent by two listeners of it.
-/

namespace Portuni.Subscriptions

open EventStream (ChatEvent lastReplayedSeq replayPageSize)
open Library.Runs

universe u v

variable {K : Type u} {Event : Type v}

section

variable {s t : State K Event} {i l l' n m : ℕ} {k : K} {h : Handler K Event}

/-- The listener `l` was given the event number `n`: it sent it, or still has it buffered. -/
def Took (s : State K Event) (l n : ℕ) : Prop :=
  (∃ k e, .event k l n e ∈ s.sent) ∨ ∃ h, s.handlers[l]? = some h ∧ ∃ e, (n, e) ∈ h.buffer

structure Once (s : State K Event) : Prop where
  single : Single s
  published : ∀ l n, Took s l n → n < s.published
  once : ∀ l l' n, Took s l n → Took s l' n → l = l'

theorem once_init : Once (init : State K Event) where
  single _ := rfl
  published l n h := by simp [Took, init] at h
  once l l' n h := by simp [Took, init] at h

theorem took_send {frames : List (ServerFrame K Event)} (h : Took (s.send frames) l n) :
    Took s l n ∨ ∃ k e, .event k l n e ∈ frames := by
  unfold State.send at h
  split at h
  · rcases h with ⟨k, e, he⟩ | hbuffered
    · rcases List.mem_append.mp he with he | he
      · exact .inl (.inl ⟨k, e, he⟩)
      · exact .inr ⟨k, e, he⟩
    · exact .inl (.inr hbuffered)
  · exact .inl h

theorem took_sendReply {id : Option String} (h : Took (s.sendReply id) l n) : Took s l n := by
  unfold State.sendReply at h
  split at h
  · split at h
    · exact h
    · exact (took_send h).resolve_right (by simp)
  · exact h

theorem took_sendErrorReply {id : Option String} {error : ErrorReply}
    (h : Took (s.sendErrorReply id error) l n) : Took s l n := by
  unfold State.sendErrorReply at h
  split at h
  · split at h
    · exact h
    · exact (took_send h).resolve_right (by simp)
  · exact h

theorem took_setHandler {h' : Handler K Event} (h : Took (s.setHandler i h') l n) :
    Took s l n ∨ l = i ∧ ∃ e, (n, e) ∈ h'.buffer := by
  rcases h with hsent | ⟨h, hh, hbuffered⟩
  · exact .inl (.inl hsent)
  · rw [State.setHandler, List.getElem?_set] at hh
    split at hh
    · next heq =>
      split at hh
      · cases hh
        exact .inr ⟨heq.symm, hbuffered⟩
      · cases hh
    · exact .inl (.inr ⟨h, hh, hbuffered⟩)

theorem took_setHandler_subset (h' : Handler K Event) (hi : s.handlers[i]? = some h)
    (hsubset : h'.buffer ⊆ h.buffer) (htook : Took (s.setHandler i h') l n) : Took s l n := by
  rcases took_setHandler htook with htook | ⟨rfl, e, he⟩
  · exact htook
  · exact .inr ⟨h, hi, e, hsubset he⟩

theorem took_listener {event : Published Event} (h : Took (s.listener k i m event) l n) :
    Took s l n ∨ l = i ∧ n = m := by
  unfold State.listener at h
  split at h
  · exact .inl h
  next handler hi =>
  split at h
  · exact .inl h
  split at h
  · rcases took_setHandler h with htook | ⟨rfl, e, he⟩
    · exact .inl htook
    · rcases List.mem_append.mp he with he | he
      · exact .inl (.inr ⟨handler, hi, e, he⟩)
      · obtain ⟨rfl, -⟩ := Prod.mk.inj (List.mem_singleton.mp he)
        exact .inr ⟨rfl, rfl⟩
  · rcases took_send h with htook | ⟨k', e, he⟩
    · exact .inl htook
    · obtain ⟨-, rfl, rfl, -⟩ := ServerFrame.event.inj (List.mem_singleton.mp he)
      exact .inr ⟨rfl, rfl⟩

theorem mem_flushed {last : ℕ} {buffer : List (ℕ × Published Event)} {k' : K}
    {e : Published Event} (h : .event k' l n e ∈ State.flushed k i last buffer) :
    l = i ∧ (n, e) ∈ buffer := by
  obtain ⟨⟨m, e'⟩, hmem, hentry⟩ := List.mem_filterMap.mp h
  dsimp only at hentry
  have hsame : ServerFrame.event k i m e' = .event k' l n e → l = i ∧ (n, e) ∈ buffer := by
    rintro ⟨⟩
    exact ⟨rfl, hmem⟩
  split at hentry
  · cases hentry
  · split at hentry
    · cases hentry
    · exact hsame (Option.some.inj hentry)
  · exact hsame (Option.some.inj hentry)

theorem took_resume {cursor : Option ℕ} {page : List (ChatEvent Event)}
    (hi : s.handlers[i]? = some h) (htook : Took (s.resume i h cursor page) l n) :
    Took s l n := by
  unfold State.resume at htook
  dsimp only at htook
  have hsent : ∀ t : State K Event, t.handlers = s.handlers → (∀ l n, Took t l n → Took s l n) →
      Took (if page.length < replayPageSize then
        ((t.setHandler i { h with stage := .live, buffering := false, buffer := [] }).send
          (State.flushed h.session i (lastReplayedSeq cursor page) h.buffer)).sendReply h.id
        else t.setHandler i { h with stage := .reading (some (lastReplayedSeq cursor page)) })
        l n → Took s l n := by
    intro t hhandlers hle htook
    have hti : t.handlers[i]? = some h := hhandlers ▸ hi
    split at htook
    · rcases took_send (took_sendReply htook) with htook | ⟨k', e, he⟩
      · exact hle _ _ (took_setHandler_subset _ hti (List.nil_subset _) htook)
      · obtain ⟨rfl, hbuffered⟩ := mem_flushed he
        exact .inr ⟨h, hi, e, hbuffered⟩
    · exact hle _ _ (took_setHandler_subset { h with stage := .reading _ } hti
        (List.Subset.refl _) htook)
  refine hsent _ ?_ ?_ htook
  · split
    · rfl
    · unfold State.send
      split <;> rfl
  · intro l n h
    split at h
    · exact h
    · exact (took_send h).resolve_right (by simp)

theorem Once.fewer (hs : Once s) (hsingle : Single t) (hpublished : t.published = s.published)
    (htook : ∀ l n, Took t l n → Took s l n) : Once t where
  single := hsingle
  published l n h := hpublished ▸ hs.published l n (htook l n h)
  once l l' n h h' := hs.once l l' n (htook l n h) (htook l' n h')

theorem published_send (s : State K Event) (frames : List (ServerFrame K Event)) :
    (s.send frames).published = s.published := by
  unfold State.send
  split <;> rfl

theorem published_sendReply (s : State K Event) (id : Option String) :
    (s.sendReply id).published = s.published := by
  unfold State.sendReply
  split
  · split
    · rfl
    · exact published_send _ _
  · rfl

theorem published_sendErrorReply (s : State K Event) (id : Option String) (error : ErrorReply) :
    (s.sendErrorReply id error).published = s.published := by
  unfold State.sendErrorReply
  split
  · split
    · rfl
    · exact published_send _ _
  · rfl

theorem published_resume (s : State K Event) (i : ℕ) (h : Handler K Event) (cursor : Option ℕ)
    (page : List (ChatEvent Event)) : (s.resume i h cursor page).published = s.published := by
  have hset : ∀ (t : State K Event) (h' : Handler K Event),
      (t.setHandler i h').published = t.published := fun _ _ => rfl
  unfold State.resume
  dsimp only
  split <;> split <;> simp only [published_sendReply, published_send, hset]

theorem published_listener (s : State K Event) (k : K) (i m : ℕ) (event : Published Event) :
    (s.listener k i m event).published = s.published := by
  unfold State.listener
  split
  · rfl
  split
  · rfl
  split
  · rfl
  · exact published_send _ _

theorem Once.publish (hs : Once s) (k : K) (event : Published Event) :
    Once (s.publish k event) := by
  have hquiet := hs.single.quiet (quiet_publish s k event)
  set s₁ : State K Event := { s with published := s.published + 1 } with hs₁
  have hpublish : s.publish k event =
      (s.subscriptions k).elim s₁ fun i => s₁.listener k i s.published event := by
    unfold State.publish
    rw [hs.single k]
    cases s.subscriptions k <;> rfl
  have htook : ∀ l n, Took (s.publish k event) l n →
      Took s l n ∨ s.subscriptions k = some l ∧ n = s.published := by
    intro l n h
    rw [hpublish] at h
    cases hsub : s.subscriptions k with
    | none =>
      rw [hsub] at h
      exact .inl h
    | some i =>
      rw [hsub] at h
      rcases took_listener h with h | ⟨rfl, hn⟩
      · exact .inl h
      · exact .inr ⟨rfl, hn⟩
  have hnext : (s.publish k event).published = s.published + 1 := by
    rw [hpublish]
    cases s.subscriptions k with
    | none => rfl
    | some i => exact published_listener _ _ _ _ _
  refine ⟨hquiet, fun l n h => ?_, fun l l' n h h' => ?_⟩
  · rw [hnext]
    rcases htook l n h with h | ⟨-, rfl⟩
    · exact Nat.lt_succ_of_lt (hs.published l n h)
    · exact Nat.lt_succ_self _
  · rcases htook l n h with h | ⟨hsub, hn⟩ <;> rcases htook l' n h' with h' | ⟨hsub', hn'⟩
    · exact hs.once l l' n h h'
    · exact absurd (hs.published l n h) (by omega)
    · exact absurd (hs.published l' n h') (by omega)
    · exact Option.some.inj (hsub.symm.trans hsub')

variable [DecidableEq K]

theorem once_step {a : Action K Event} (hs : Once s) (hstep : step s a = some t) : Once t := by
  cases a with
  | receive frame =>
    simp only [step] at hstep
    split at hstep
    · cases hstep
    cases frame with
    | subscribe id session after =>
      cases hstep
      refine hs.fewer hs.single rfl fun l n htook => ?_
      rcases htook with hsent | ⟨h, hh, hbuffered⟩
      · exact .inl hsent
      · rw [List.getElem?_append] at hh
        split at hh
        · exact .inr ⟨h, hh, hbuffered⟩
        · obtain rfl := List.mem_singleton.mp (List.mem_of_getElem? hh)
          obtain ⟨e, he⟩ := hbuffered
          cases he
    | unsubscribe id session =>
      cases hstep
      have hsingle := hs.single.handleUnsubscribe id session
      refine hs.fewer hsingle ?_ fun l n htook => ?_
      · dsimp only
        rw [handleUnsubscribe_eq hs.single, published_sendReply]
      · change Took (s.handleUnsubscribe id session) l n at htook
        rw [handleUnsubscribe_eq hs.single] at htook
        have hbefore := took_sendReply htook
        exact hbefore
  | grant i =>
    simp only [step] at hstep
    split at hstep
    · cases hstep
    next h hi =>
    split at hstep
    · cases hstep
      refine hs.fewer (hs.single.register i h) ?_ fun l n htook => ?_
      · rw [register_eq hs.single]
      · rw [register_eq hs.single] at htook
        exact took_setHandler_subset { h with stage := .reading h.after, buffering := true } hi
          (List.Subset.refl _) htook
    · cases hstep
  | deny i error =>
    simp only [step] at hstep
    split at hstep
    · cases hstep
    next h hi =>
    split at hstep
    · cases hstep
      have hset : Single (s.setHandler i { h with stage := .denied }) := hs.single
      refine hs.fewer (hset.quiet (quiet_sendErrorReply _ _ _)) ?_ fun l n htook => ?_
      · exact published_sendErrorReply _ _ _
      · exact took_setHandler_subset { h with stage := .denied } hi (List.Subset.refl _)
          (took_sendErrorReply htook)
    · cases hstep
  | page i rows =>
    simp only [step] at hstep
    split at hstep
    · cases hstep
    next h hi =>
    split at hstep
    · next cursor hstage =>
      cases hstep
      exact hs.fewer (hs.single.quiet (quiet_resume hi hstage rows))
        (published_resume _ _ _ _ _) fun l n => took_resume hi
    · cases hstep
  | fail i error =>
    simp only [step] at hstep
    split at hstep
    · cases hstep
    next h hi =>
    split at hstep
    · cases hstep
      have hset : Single (s.setHandler i { h with stage := .broken }) := hs.single
      refine hs.fewer (hset.quiet (quiet_sendErrorReply _ _ _)) ?_ fun l n htook => ?_
      · exact published_sendErrorReply _ _ _
      · exact took_setHandler_subset { h with stage := .broken } hi (List.Subset.refl _)
          (took_sendErrorReply htook)
    · cases hstep
  | publish session event =>
    cases hstep
    exact hs.publish session event
  | terminate =>
    simp only [step] at hstep
    split at hstep
    · cases hstep
      exact hs.fewer hs.single rfl fun l n htook => htook
    · cases hstep
  | close =>
    simp only [step] at hstep
    split at hstep
    · cases hstep
    · cases hstep
      exact hs.fewer hs.single.closed rfl fun l n htook => htook

end

variable [DecidableEq K] {acts : List (Action K Event)} {s : State K Event}

theorem sent_by_one_listener (run : Run step (fun _ _ => True) init acts s) {k k' : K}
    {l l' n : ℕ} {e e' : Published Event} (h : .event k l n e ∈ s.sent)
    (h' : .event k' l' n e' ∈ s.sent) : l = l' :=
  (run.inv Once once_init fun _ _ _ hs _ hstep => once_step hs hstep).once l l' n
    (.inl ⟨k, e, h⟩) (.inl ⟨k', e', h'⟩)

/-- In a run whose access checks all end in time: once every handler has finished, the runtime
holds exactly one listener of the connection for a session if the socket is open and the last
frame about it was a `subscribe` that was granted, and none otherwise. No event is sent by two
listeners. -/
theorem no_leaked_listener (run : Run step InTime init acts s) :
    (s.Finished → ∀ k, (s.listeners k).length =
      if s.socket = .open ∧ s.lastGranted k = true then 1 else 0) ∧
      ∀ k k' l l' n e e', .event k l n e ∈ s.sent → .event k' l' n e' ∈ s.sent → l = l' := by
  have hinv := run.inv Inv inv_init fun _ _ _ hs hallowed hstep => inv_step hs hallowed hstep
  refine ⟨fun hfinished k => hinv.length_listeners hfinished k, ?_⟩
  intro k k' l l' n e e' h h'
  exact sent_by_one_listener (run.mono fun _ _ _ => trivial) h h'

/-- Two `subscribe` frames of one session whose checks end the other way round, and an event. -/
theorem no_leaked_listener_overlapping : (exec step (init : State ℕ ℕ)
      [.receive (.subscribe (some "1") 0 none), .receive (.subscribe (some "2") 0 none), .grant 1,
        .grant 0, .publish 0 (.delta "a"), .page 0 [], .page 1 []]).any
      (fun s => decide ((s.listeners 0).length = 1 ∧
        s.sent = [.event 0 0 0 (.delta "a"), .reply "1", .reply "2"])) = true := by
  obtain ⟨s, hs, hchecks⟩ := (Option.any_eq_true _ _).mp (show (exec step (init : State ℕ ℕ)
      [.receive (.subscribe (some "1") 0 none), .receive (.subscribe (some "2") 0 none), .grant 1,
        .grant 0, .publish 0 (.delta "a"), .page 0 [], .page 1 []]).any
      (fun s => decide (s.socket ≠ .closing ∧ (∀ h ∈ s.handlers, h.finished = true) ∧
        s.socket = .open ∧ s.lastGranted 0 = true ∧
        s.sent = [.event 0 0 0 (.delta "a"), .reply "1", .reply "2"])) = true by decide)
  rw [decide_eq_true_eq] at hchecks
  obtain ⟨hsocket, hdone, hopen, hgranted, hsent⟩ := hchecks
  have hone := (no_leaked_listener (Run.of_exec hs (by decide))).1 ⟨hsocket, hdone⟩ 0
  rw [hs, Option.any_some, decide_eq_true_eq]
  exact ⟨hone.trans (if_pos ⟨hopen, hgranted⟩), hsent⟩

/-- A socket that closes while the check is awaited: the listener is registered behind the close,
and nothing will ever remove it. -/
theorem listener_leaked_behind_close :
    ¬∀ (acts : List (Action ℕ ℕ)) (s : State ℕ ℕ), Run step (fun _ _ => True) init acts s →
      s.Finished → ∀ k, (s.listeners k).length =
        if s.socket = .open ∧ s.lastGranted k = true then 1 else 0 := by
  intro h
  obtain ⟨s, hs, hwrong⟩ := (Option.any_eq_true _ _).mp (show (exec step (init : State ℕ ℕ)
      [.receive (.subscribe (some "1") 0 none), .close, .grant 0, .page 0 []]).any
      (fun s => decide (s.socket = .closed ∧ (∀ h ∈ s.handlers, h.finished = true) ∧
        s.listeners 0 = [0])) = true by decide)
  rw [decide_eq_true_eq] at hwrong
  obtain ⟨hclosed, hdone, hleaked⟩ := hwrong
  have hnone := h _ s (Run.of_exec_eq_some hs) ⟨by simp [hclosed], hdone⟩ 0
  simp [hclosed, hleaked] at hnone

end Portuni.Subscriptions
