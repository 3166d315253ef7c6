import Portuni.McpSessions.Requests

/-!
Connections and session rows live and die together, as long as no step drops the last hold
on a row that is running.
-/

namespace Portuni.McpSessions

open Library.Runs

structure LiveTogether (maxSessions : ℕ) (s : McpState) : Prop where
  open_of_live : s.settled → ∀ id, s.live id → s.openOn id
  leftRunning : s.leftRunning = []
  cutOff : s.cutOff = []
  size_le : s.size ≤ maxSessions

/-- The steps that keep them together: the map has room when a connection registers; a
request that has set its row running is not turned away while the row runs, and one that is
bound to a row only if the row is spared; so is the row of a `createSession` that rejects
behind its `INSERT` or resolves for a closed transport, and the row of a
`closeSessionIfRunning` that fails; and a row is not suspended while a connection is open
on it. -/
def Orderly (maxSessions : ℕ) (s : McpState) : Action → Prop
  | .advance i o => ∀ c ∈ s.connections[i]?,
      (c.registers o → s.size < maxSessions) ∧
        (c.turnedAway o → (∀ id ∈ c.setRunning, s.isRunning id = false) ∧
          ∀ id ∈ c.link.sessionId, s.spared i id)
  | .create i o _ => ∀ c ∈ s.connections[i]?, ∀ id ∈ c.link.awaited,
      o = .fails ∨ c.isOpen = false → s.spared i id
  | .closeStep i o => ∀ c ∈ s.connections[i]?, ∀ p ∈ c.closing,
      (o = .fails → s.spared i p.2) ∧ (p.1 = .write → o = .returns → s.openOn p.2 = false)
  | _ => True

instance (maxSessions : ℕ) (s : McpState) (a : Action) : Decidable (Orderly maxSessions s a) := by
  cases a <;> unfold Orderly <;> infer_instance

structure Started (s : McpState) : Prop where
  connections : s.connections = []
  live : ∀ id, s.live id = false
  leftRunning : s.leftRunning = []
  cutOff : s.cutOff = []

structure Invariant (maxSessions : ℕ) (s : McpState) : Prop where
  wf : ∀ c ∈ s.connections, c.Wf
  held : ∀ id, s.live id → s.held id
  leftRunning : s.leftRunning = []
  cutOff : s.cutOff = []
  size_le : s.size ≤ maxSessions

variable {maxSessions : ℕ} {central : Bool} {s s' : McpState} {i : ℕ}
  {o : Outcome}

variable (inv : Invariant maxSessions s)

include inv

theorem invariant_request {r : McpRequest}
    (hstep : step maxSessions central s (.request r) = some s') : Invariant maxSessions s' := by
  have append : ∀ status, status ≠ .registered →
      Connection.Wf { request := r, status := status } →
      Invariant maxSessions
        { s with connections := s.connections ++ [{ request := r, status := status }] } := by
    intro status hne hwf
    refine ⟨?_, ?_, inv.leftRunning, inv.cutOff, ?_⟩
    · intro d hd
      rcases List.mem_append.mp hd with hmem | hnew
      · exact inv.wf d hmem
      · rw [List.mem_singleton.mp hnew]
        exact hwf
    · intro id hlive
      have hheld := inv.held id hlive
      unfold McpState.held at hheld ⊢
      rw [List.any_append, hheld, Bool.true_or]
    · have hsize := inv.size_le
      unfold McpState.size at hsize ⊢
      rw [List.countP_append]
      simpa [Connection.isOpen, hne] using hsize
  unfold step at hstep
  dsimp only at hstep
  split at hstep <;> cases hstep
  · exact inv
  · exact append _ (by simp) rfl
  · exact append _ (McpRequest.begin_ne_registered r) (Connection.wf_begin r)

theorem invariant_advance (allowed : Orderly maxSessions s (.advance i o))
    (hstep : step maxSessions central s (.advance i o) = some s') : Invariant maxSessions s' := by
  unfold step at hstep
  dsimp only at hstep
  split at hstep
  · rename_i c hc
    obtain ⟨hroom, hspared⟩ := allowed c hc
    have wf : c.Wf := inv.wf c (List.mem_of_getElem? hc)
    split at hstep <;> cases hstep
    rename_i phase hst
    have adv : c.Advances s o (c.advance s phase o) := Connection.advances wf hst
    have gain : ∀ id, (advanceRows s phase o id).any SessionRow.live →
        s.live id ∨ (c.advance s phase o).holds id := by
      intro id hlive
      refine (live_of_advanceRows hlive).imp_right ?_
      rintro ⟨rfl, home, rfl⟩
      exact (Connection.holds_connecting rfl).mpr (.inr rfl)
    refine ⟨wf_set inv.wf (adv.wf wf hst), held_set hc inv.held rfl gain ?_, ?_, inv.cutOff, ?_⟩
    · intro id hid hlive
      rcases gain id hlive with hlive | hnew
      · rcases adv.holds wf hst hid with hkept | haway | hgone
        · exact .inl hkept
        · rcases (Connection.holds_connecting hst).mp hid with hlink | hset
          · have hspare := (hspared haway).2 id (by simp [hlink, RowLink.sessionId])
            rcases hspare with hdead | hbeside
            · simp [hlive] at hdead
            · exact .inr hbeside
          · have hstopped := (hspared haway).1 id (by simp [hset])
            simp [isRunning_of_live hlive] at hstopped
        · simp [McpState.live, hgone] at hlive
      · exact .inl hnew
    · change s.leftRunning ++ _ = []
      rw [inv.leftRunning, adv.abandons fun haway => (hspared haway).1]
      rfl
    · cases hopen : (c.advance s phase o).isOpen with
      | false => exact Nat.le_trans (countP_set_le hc (by simp [hopen])) inv.size_le
      | true => exact Nat.le_trans (countP_set_le_succ hc) (hroom (adv.isOpen hopen))
  · cases hstep

theorem invariant_create {ulid : String} (allowed : Orderly maxSessions s (.create i o ulid))
    (hstep : step maxSessions central s (.create i o ulid) = some s') :
    Invariant maxSessions s' := by
  unfold step at hstep
  dsimp only at hstep
  split at hstep
  · rename_i c hc
    have wf : c.Wf := inv.wf c (List.mem_of_getElem? hc)
    have size_le : ∀ link, (s.connections.set i { c with link := link }).countP
        Connection.isOpen ≤ maxSessions :=
      fun link => Nat.le_trans (countP_set_le hc fun hopen => hopen) inv.size_le
    split at hstep <;> cases hstep
    · rename_i hlink
      have hqueued : c.link.queued = true := by rw [hlink]; rfl
      refine ⟨wf_set inv.wf (wf_of_link wf hqueued _), held_set hc inv.held rfl ?_ ?_,
        inv.leftRunning, inv.cutOff, size_le _⟩
      · -- a row that the `INSERT` brings to life is held by the promise that inserted it
        intro id hlive
        dsimp only [McpState.live] at hlive
        split at hlive
        · rename_i hinsert
          rcases live_of_update hlive with rfl | hold
          · right
            have hnext : c.nextLink s o (c.request.spawnSessionId.getD ulid) =
                .inserted (c.request.spawnSessionId.getD ulid) := by
              simp [Connection.nextLink, hlink, hinsert]
            rw [hnext]
            exact holds_inserted wf hqueued _
          · exact .inl hold
        · exact .inl hlive
      · intro id hid _
        have hkept := holds_of_link wf hqueued hid (c.nextLink s o (c.request.spawnSessionId.getD ulid))
        rw [hlink] at hkept
        exact .inl (hkept.resolve_left (by simp))
    · rename_i id hlink
      have hqueued : c.link.queued = true := by rw [hlink]; rfl
      have hrows : (if c.link = .inserting ∧ o = .returns ∧
            s.rows (c.request.spawnSessionId.getD ulid) = none then
          Function.update s.rows (c.request.spawnSessionId.getD ulid) (some c.request.freshRow)
          else s.rows) = s.rows := if_neg (by simp [hlink])
      rw [hrows]
      refine ⟨wf_set inv.wf (wf_of_link wf hqueued _),
        held_set hc inv.held rfl (fun _ => .inl) ?_, inv.leftRunning, inv.cutOff, size_le _⟩
      intro id' hid hlive
      refine (holds_of_link wf hqueued hid _).elim ?_ .inl
      intro hlink'
      obtain rfl : id = id' := by simpa [hlink] using hlink'
      have hspare := allowed c hc id (by simp [hlink, RowLink.awaited])
      by_cases hlost : o = .fails ∨ c.isOpen = false
      · refine .inr ((hspare hlost).resolve_left ?_)
        rw [show s.live id = true from hlive]
        simp
      · obtain ⟨hreturns, hopen⟩ := not_or.mp hlost
        have hst : c.status = .registered := by simpa [Connection.isOpen] using hopen
        have ho : o = .returns := by cases o <;> simp_all
        have hrow : (s.rows id).isSome := by
          cases hrow : s.rows id with
          | none => simp [McpState.live, hrow] at hlive
          | some row => rfl
        left
        simp [Connection.holds, hst, Connection.nextLink, hlink, ho, hrow]
  · cases hstep

theorem invariant_close (hstep : step maxSessions central s (.close i) = some s') :
    Invariant maxSessions s' := by
  unfold step at hstep
  dsimp only at hstep
  split at hstep
  · rename_i c hc
    split at hstep <;> cases hstep
    rename_i hopen
    have hst : c.status = .registered := by simpa [Connection.isOpen] using hopen
    refine ⟨wf_set inv.wf trivial, held_set hc inv.held rfl (fun _ => .inl) ?_,
      inv.leftRunning, inv.cutOff, Nat.le_trans (countP_set_le hc (fun _ => hopen)) inv.size_le⟩
    intro id hid _
    have hhas : c.link = .bound id ∨ c.link = .inserted id := by
      simpa [Connection.holds, hst] using hid
    left
    rcases hhas with hlink | hlink <;>
      simp [Connection.holds, Connection.onclose, hlink, RowLink.sessionId]
  · cases hstep

theorem invariant_closeStep (allowed : Orderly maxSessions s (.closeStep i o))
    (hstep : step maxSessions central s (.closeStep i o) = some s') : Invariant maxSessions s' := by
  unfold step at hstep
  dsimp only at hstep
  split at hstep
  · rename_i c hc
    split at hstep <;> cases hstep
    rename_i stage id hst
    obtain ⟨hspared, hnotOpen⟩ := allowed c hc (stage, id) (by simp [Connection.closing, hst])
    have size_le : ∀ closing, (s.connections.set i { c with status := .closed closing }).countP
        Connection.isOpen ≤ maxSessions :=
      fun closing => Nat.le_trans (countP_set_le hc (by simp [Connection.isOpen])) inv.size_le
    have hcut : (if stage = .write ∧ o = .returns ∧ s.openOn id then s.cutOff ++ [id]
        else s.cutOff) = [] := by
      rw [if_neg, inv.cutOff]
      rintro ⟨hwrite, hreturns, hopen⟩
      simp [hnotOpen hwrite hreturns] at hopen
    cases o with
    | fails =>
      refine ⟨wf_set inv.wf trivial, held_set hc inv.held rfl (fun _ => .inl) ?_,
        inv.leftRunning, hcut, size_le _⟩
      intro id' hid hlive
      rcases (holds_closed hst).mp hid with rfl | hlink
      · refine .inr ((hspared rfl).resolve_left ?_)
        rw [show s.live id = true from hlive]
        simp
      · exact .inl (by simp [Connection.holds, hlink])
    | returns =>
      refine ⟨wf_set inv.wf trivial, held_set hc inv.held rfl ?_ ?_, inv.leftRunning, hcut,
        size_le _⟩
      · intro id' hlive
        refine (live_of_closeRows central hlive).imp_right ?_
        rintro ⟨rfl, hnext⟩
        obtain ⟨next, hnext⟩ := Option.isSome_iff_exists.mp hnext
        simp [Connection.holds, hnext]
      · intro id' hid hlive
        left
        rcases (holds_closed hst).mp hid with rfl | hlink
        · cases hnext : nextCloseStage central s id stage with
          | none =>
            have hdead := not_live_of_nextCloseStage hnext
            rw [show (closeRows s id stage id).any SessionRow.live = true from hlive] at hdead
            cases hdead
          | some next => simp [Connection.holds]
        · simp [Connection.holds, hlink]
  · cases hstep

theorem invariant_other {id : String} {row : Option SessionRow}
    (hstep : step maxSessions central s (.other id row) = some s') : Invariant maxSessions s' := by
  unfold step at hstep
  dsimp only at hstep
  split at hstep <;> cases hstep
  rename_i hguard
  refine ⟨inv.wf, ?_, inv.leftRunning, inv.cutOff, inv.size_le⟩
  intro id' hlive
  refine inv.held id' ?_
  rcases live_of_update hlive with rfl | hold
  · have hrow : row.any SessionRow.live = true := by
      simpa [McpState.live] using hlive
    simpa [hrow] using hguard
  · exact hold

theorem invariant_step {a : Action} (allowed : Orderly maxSessions s a)
    (hstep : step maxSessions central s a = some s') : Invariant maxSessions s' := by
  cases a with
  | request r => exact invariant_request inv hstep
  | advance i o => exact invariant_advance inv allowed hstep
  | create i o ulid => exact invariant_create inv allowed hstep
  | close i => exact invariant_close inv hstep
  | closeStep i o => exact invariant_closeStep inv allowed hstep
  | other id row => exact invariant_other inv hstep
  | scopeWritten id nodes =>
    cases hstep
    exact ⟨inv.wf, inv.held, inv.leftRunning, inv.cutOff, inv.size_le⟩

omit inv

theorem Started.invariant (start : Started s) : Invariant maxSessions s where
  __ := start
  wf := by simp [start.connections]
  held := by simp [start.live]
  size_le := by simp [McpState.size, start.connections]

theorem Invariant.together (inv : Invariant maxSessions s) : LiveTogether maxSessions s where
  __ := inv
  open_of_live := by
    intro hsettled id hlive
    obtain ⟨c, hc, hid⟩ := List.any_eq_true.mp (inv.held id hlive)
    exact List.any_eq_true.mpr ⟨c, hc, isOpenOn_of_holds hsettled hc hid⟩

/-- In a run of orderly steps, connections and rows live and die together. -/
theorem mcpSessions_together {start : McpState} {acts : List Action} (hstart : Started start)
    (run : Run (step maxSessions central) (Orderly maxSessions) start acts s) :
    LiveTogether maxSessions s := by
  have inv : Invariant maxSessions s :=
    run.inv (Invariant maxSessions) hstart.invariant
      fun _ _ _ inv allowed hstep => invariant_step inv allowed hstep
  exact inv.together

def suspendedRow : SessionRow := { userId := "u", nodeId := some "n", state := .suspended }

def sampleStart : McpState where
  rows := fun id => if id = "s" then some suspendedRow else none
  sessionScope := fun _ => []

theorem sampleStart_started : Started sampleStart where
  connections := rfl
  live := by
    intro id
    unfold McpState.live sampleStart
    dsimp only
    split <;> rfl
  leftRunning := rfl
  cutOff := rfl

def resumeRequest (isInitialize : Bool) : McpRequest :=
  { userId := "u", homeNodeId := some "n", resumeSessionId := some "s",
    isInitialize := isInitialize }

def resumeRun (isInitialize : Bool) : List Action :=
  .request (resumeRequest isInitialize) :: List.replicate 7 (.advance 0 .returns)

/-- The session is resumed, its transport closes and the row is suspended again; meanwhile a
second client opens a session of its own. -/
def resumedAndClosed : List Action :=
  resumeRun true ++
    [.request { userId := "v" }, .advance 1 .returns, .create 1 .returns "w", .close 0,
      .create 1 .returns "w"] ++ List.replicate 6 (.closeStep 0 .returns)

theorem mcpSessions_together_resumed :
    ∃ s, exec (step 100 false) sampleStart resumedAndClosed = some s ∧ s.settled = true ∧
      s.live "s" = false ∧ s.live "w" = true ∧ LiveTogether 100 s := by
  have hfinal : (exec (step 100 false) sampleStart resumedAndClosed).map
      (fun s => (s.settled, s.live "s", s.live "w")) = some (true, false, true) := by
    decide +kernel
  obtain ⟨s, hs, hfacts⟩ := Option.map_eq_some_iff.mp hfinal
  simp only [Prod.mk.injEq] at hfacts
  refine ⟨s, hs, hfacts.1, hfacts.2.1, hfacts.2.2,
    mcpSessions_together sampleStart_started (Run.of_exec hs ?_)⟩
  decide +kernel

/-- A resume request whose body does not initialize is turned away behind the row that it has
set running. -/
theorem resume_leaves_row_running :
    Started sampleStart ∧ ∃ s, Run (step 100 false) (fun _ _ => True) sampleStart
      (resumeRun false) s ∧ s.settled = true ∧ s.live "s" = true ∧ s.openOn "s" = false ∧
        ¬ LiveTogether 100 s := by
  have hfinal : (exec (step 100 false) sampleStart (resumeRun false)).map
      (fun s => (s.settled, s.live "s", s.openOn "s")) = some (true, true, false) := by
    decide +kernel
  obtain ⟨s, hs, hfacts⟩ := Option.map_eq_some_iff.mp hfinal
  simp only [Prod.mk.injEq] at hfacts
  obtain ⟨hsettled, hlive, hclosed⟩ := hfacts
  refine ⟨sampleStart_started, s, Run.of_exec_eq_some hs, hsettled, hlive, hclosed, ?_⟩
  intro together
  have hopen := together.open_of_live hsettled "s" hlive
  simp [hclosed] at hopen

end Portuni.McpSessions
