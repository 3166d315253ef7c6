import Mathlib.Data.List.Basic
import Portuni.McpSessions.Model

/-!
A running row that no runner drives is held by some connection: one that is open on it, a
request that has it, a `createSession` that has inserted it, or a `closeSessionIfRunning`
that is about to suspend it.
-/

namespace Portuni.McpSessions

/-- The step answers the request, which has a row, without a transport. -/
def Connection.turnedAway (c : Connection) (o : Outcome) : Bool :=
  match c.status with
  | .connecting .handshake => o = .fails || !c.request.isInitialize
  | .connecting (.seed _) => o = .fails && !c.seedIsNoop
  | .connecting _ => o = .fails
  | _ => false

def Connection.registers (c : Connection) (o : Outcome) : Bool :=
  c.status = .connecting .handshake && o = .returns && c.request.isInitialize

def Connection.holds (c : Connection) (id : String) : Bool :=
  match c.status with
  | .connecting _ => c.link = .bound id || c.setRunning = some id
  | .refused _ => false
  | .registered => c.link = .bound id || c.link = .inserted id
  | .closed closing => (closing.map Prod.snd) = some id || c.link = .inserted id

def RowLink.awaited : RowLink → Option String
  | .inserted id => some id
  | _ => Option.none

def RowLink.queued : RowLink → Bool
  | .inserting | .inserted _ => true
  | _ => false

def Connection.connecting (c : Connection) : Bool :=
  match c.status with
  | .connecting _ => true
  | _ => false

def Connection.closing (c : Connection) : Option (CloseStage × String) :=
  match c.status with
  | .closed closing => closing
  | _ => none

namespace McpState

variable (s : McpState)

def held (id : String) : Bool := s.connections.any (·.holds id)

def heldBeside (i : ℕ) (id : String) : Bool := (s.connections.eraseIdx i).any (·.holds id)

def spared (i : ℕ) (id : String) : Prop := s.live id = false ∨ s.heldBeside i id = true

instance (i : ℕ) (id : String) : Decidable (s.spared i id) := instDecidableOr

def settled : Bool :=
  s.connections.all fun c => !c.connecting && c.closing.isNone && !c.link.queued

end McpState

section

variable {α : Type*} {l : List α} {i : ℕ} {a b : α} {p : α → Bool}

variable (h : l[i]? = some a)

include h

theorem any_set : (l.set i b).any p = (p b || (l.eraseIdx i).any p) := by
  induction l generalizing i with
  | nil => simp at h
  | cons head tail ih =>
    cases i with
    | zero => simp
    | succ i =>
      rw [List.set_cons_succ, List.eraseIdx_cons_succ, List.any_cons, List.any_cons,
        ih (by simpa using h), Bool.or_left_comm]

theorem any_getElem? : l.any p = (p a || (l.eraseIdx i).any p) := by
  obtain ⟨hi, rfl⟩ := List.getElem?_eq_some_iff.mp h
  conv_lhs => rw [← @List.set_getElem_self _ l i hi]
  exact any_set h

theorem countP_set_le (hp : p b → p a) : (l.set i b).countP p ≤ l.countP p := by
  obtain ⟨hi, rfl⟩ := List.getElem?_eq_some_iff.mp h
  rw [List.countP_set hi]
  cases hb : p b with
  | false => simp
  | true =>
    have hpos : 0 < l.countP p := List.countP_pos_iff.mpr ⟨_, List.getElem_mem hi, hp hb⟩
    simp only [hp hb, if_true]
    omega

theorem countP_set_le_succ : (l.set i b).countP p ≤ l.countP p + 1 := by
  obtain ⟨hi, rfl⟩ := List.getElem?_eq_some_iff.mp h
  rw [List.countP_set hi]
  split <;> split <;> omega

end

variable {s s' : McpState} {i : ℕ} {c c' : Connection} {o : Outcome}

theorem held_set (hc : s.connections[i]? = some c) (held : ∀ id, s.live id → s.held id)
    (hconnections : s'.connections = s.connections.set i c')
    (gain : ∀ id, s'.live id → s.live id ∨ c'.holds id)
    (loss : ∀ id, c.holds id → s'.live id → c'.holds id ∨ s.heldBeside i id) :
    ∀ id, s'.live id → s'.held id := by
  intro id hlive
  have goal : c'.holds id ∨ s.heldBeside i id := by
    rcases gain id hlive with hold | hnew
    · have hheld := held id hold
      rw [McpState.held, any_getElem? hc, Bool.or_eq_true] at hheld
      exact hheld.elim (loss id · hlive) .inr
    · exact .inl hnew
  rw [McpState.held, hconnections, any_set hc, Bool.or_eq_true]
  exact goal

theorem live_of_update {id id' : String} {row : Option SessionRow}
    (h : (Function.update s.rows id row id').any SessionRow.live) : id' = id ∨ s.live id' := by
  by_cases hid : id' = id
  · exact .inl hid
  · rw [Function.update_of_ne hid] at h
    exact .inr h

variable {id : String}

theorem live_of_advanceRows {phase : Phase} (h : (advanceRows s phase o id).any SessionRow.live) :
    s.live id ∨ o = .returns ∧ ∃ home, phase = .transitionWrite id home := by
  unfold advanceRows at h
  split at h
  · rename_i id' home
    rcases live_of_update h with rfl | hlive
    · exact .inr ⟨rfl, home, rfl⟩
    · exact .inl hlive
  · exact .inl h

theorem isRunning_of_live (h : s.live id) : s.isRunning id := by
  unfold McpState.live McpState.isRunning at *
  cases hrow : s.rows id with
  | none => simp [hrow] at h
  | some row =>
    simp only [hrow, Option.any_some, SessionRow.live, Bool.and_eq_true] at h
    simpa using h.1

theorem not_live_of_nextCloseStage {stage : CloseStage}
    (h : nextCloseStage central s id stage = none) :
    (closeRows s id stage id).any SessionRow.live = false := by
  cases hrow : s.rows id with
  | none => cases stage <;> simp [closeRows, McpState.setState, hrow]
  | some row =>
    cases stage <;>
      simp [nextCloseStage, closeRows, McpState.setState, McpState.isRunning, hrow,
        SessionRow.live, SessionRow.isDeviceDrivenSession] at h ⊢
    · intro hrunning hrunner
      simp [h hrunning] at hrunner
    · intro _ _
      omega
    · simp [h]
    · simp [h.1]

theorem live_of_closeRows (central : Bool) {stage : CloseStage} {id id' : String}
    (h : (closeRows s id stage id').any SessionRow.live) :
    s.live id' ∨ id' = id ∧ (nextCloseStage central s id stage).isSome := by
  by_cases hid : id' = id
  · subst hid
    cases hnext : nextCloseStage central s id' stage with
    | none => simp [not_live_of_nextCloseStage hnext] at h
    | some stage' => exact .inr ⟨rfl, rfl⟩
  · left
    cases stage <;> simpa [closeRows, McpState.setState, hid, McpState.live] using h

theorem holds_closed {p : CloseStage × String} (hst : c.status = .closed (some p)) :
    c.holds id = true ↔ p.2 = id ∨ c.link = .inserted id := by
  simp [Connection.holds, hst]

theorem isOpenOn_of_holds (hsettled : s.settled) (hc : c ∈ s.connections) (hid : c.holds id) :
    c.isOpenOn id := by
  have hquiet := List.all_eq_true.mp hsettled c hc
  simp only [Bool.and_eq_true, Bool.not_eq_true'] at hquiet
  obtain ⟨⟨hconnecting, hclosing⟩, hqueued⟩ := hquiet
  have hinserted : c.link ≠ .inserted id := by
    intro hlink
    simp [hlink, RowLink.queued] at hqueued
  cases hst : c.status with
  | connecting phase => simp [Connection.connecting, hst] at hconnecting
  | refused refusal => simp [Connection.holds, hst] at hid
  | registered => simpa [Connection.holds, Connection.isOpenOn, hst, hinserted] using hid
  | closed closing =>
    have hnone : closing = none := by simpa [Connection.closing, hst] using hclosing
    simp [Connection.holds, hst, hnone, hinserted] at hid

theorem McpRequest.begin_ne_registered (r : McpRequest) : r.begin ≠ .registered := by
  unfold McpRequest.begin McpRequest.seedOrHandshake
  repeat' split
  all_goals simp

namespace Connection

def Wf (c : Connection) : Prop :=
  match c.status with
  | .connecting (.rehydrate id) => c.link = .bound id ∧ ∀ id' ∈ c.setRunning, id' = id
  | .connecting (.seed _) | .connecting .handshake =>
    c.link.queued = false ∧ ∀ id ∈ c.setRunning, c.link = .bound id
  | .connecting (.transitionReload id _) => c.link = .none ∧ c.setRunning = some id
  | .connecting _ => c.link = .none ∧ c.setRunning = none
  | .refused _ => c.link.queued = false
  | _ => True

variable {c : Connection} {s : McpState} {phase : Phase} {o : Outcome} {id : String}

theorem wf_seedOrHandshake (hlink : c.link.queued = false)
    (hset : ∀ id ∈ c.setRunning, c.link = .bound id) (hst : c.status = c.request.seedOrHandshake) :
    c.Wf := by
  unfold Wf
  rw [hst]
  unfold McpRequest.seedOrHandshake
  cases c.request.homeNodeId <;> exact ⟨hlink, hset⟩

theorem wf_bind {home : Option String} (hset : ∀ id' ∈ c.setRunning, id' = id) :
    (c.bind id home).Wf := ⟨rfl, hset⟩

theorem wf_begin (r : McpRequest) : Wf { request := r, status := r.begin } := by
  unfold McpRequest.begin
  split
  · trivial
  split
  · split
    · exact ⟨rfl, rfl⟩
    · trivial
  · split
    · exact ⟨rfl, rfl⟩
    · exact wf_seedOrHandshake rfl (by simp) rfl

inductive Advances (s : McpState) (c : Connection) (o : Outcome) : Connection → Prop
  | refuse (refusal : Refusal)
      (why : c.turnedAway o ∨ c.link = .none ∧ ∀ id ∈ c.setRunning, s.rows id = none) :
      Advances s c o (c.refuse refusal)
  | goOn {c' : Connection} (phase : Phase) (status : c'.status = .connecting phase) (wf : c'.Wf)
      (link : c'.link = c.link) (setRunning : c'.setRunning = c.setRunning) : Advances s c o c'
  | bind (id : String) (home : Option String) (link : c.link = .none)
      (setRunning : ∀ id' ∈ c.setRunning, id' = id) : Advances s c o (c.bind id home)
  | setRunning (id home : String) (link : c.link = .none) (setRunning : c.setRunning = none)
      (status : c.status = .connecting (.transitionWrite id home)) (returns : o = .returns) :
      Advances s c o
        { c with status := .connecting (.transitionReload id home), setRunning := some id }
  | register (registers : c.registers o) : Advances s c o c.register

theorem advances_seedOrHandshake {c' : Connection} (hst : c'.status = c'.request.seedOrHandshake)
    (hlink : c'.link = c.link) (hset : c'.setRunning = c.setRunning)
    (hqueued : c.link.queued = false) (hbound : ∀ id ∈ c.setRunning, c.link = .bound id) :
    Advances s c o c' := by
  have wf : c'.Wf := wf_seedOrHandshake (hlink ▸ hqueued) (by rwa [hlink, hset]) hst
  unfold McpRequest.seedOrHandshake at hst
  cases hhome : c'.request.homeNodeId with
  | none => exact .goOn .handshake (by rw [hst, hhome]) wf hlink hset
  | some home => exact .goOn (.seed home) (by rw [hst, hhome]) wf hlink hset

theorem advances (wf : c.Wf) (hst : c.status = .connecting phase) :
    Advances s c o (c.advance s phase o) := by
  unfold Wf at wf
  rw [hst] at wf
  cases o with
  | fails =>
    cases phase with
    | seed home =>
      change Advances s c .fails
        (if c.seedIsNoop then c.goTo .handshake else c.refuse .scopeUnavailable)
      split
      · exact .goOn .handshake rfl ⟨wf.1, wf.2⟩ rfl rfl
      · rename_i hnoop
        exact .refuse _ (.inl (by simp [turnedAway, hst, hnoop]))
    | _ => exact .refuse .internalError (.inl (by simp [turnedAway, hst]))
  | returns =>
    cases phase with
    | lookupSpawn id =>
      obtain ⟨hlink, hset⟩ := wf
      have early : c.link = .none ∧ ∀ id ∈ c.setRunning, s.rows id = none := by
        simp [hlink, hset]
      unfold advance
      dsimp only
      split
      · exact advances_seedOrHandshake rfl rfl rfl (by simp [hlink, RowLink.queued])
          (by simp [hset])
      · split
        · exact .refuse _ (.inr early)
        · exact .bind _ _ hlink (by simp [hset])
    | loadResumable id home =>
      have early : c.link = .none ∧ ∀ id ∈ c.setRunning, s.rows id = none := by
        simp [wf.1, wf.2]
      unfold advance
      dsimp only
      split
      · exact .refuse _ (.inr early)
      · split
        · exact .refuse _ (.inr early)
        · exact .goOn (.transitionLoad id home) rfl ⟨wf.1, wf.2⟩ rfl rfl
    | transitionLoad id home =>
      have early : c.link = .none ∧ ∀ id ∈ c.setRunning, s.rows id = none := by
        simp [wf.1, wf.2]
      unfold advance
      dsimp only
      split
      · exact .refuse _ (.inr early)
      · split
        · exact .bind _ _ wf.1 (by simp [wf.2])
        · split
          · exact .refuse _ (.inr early)
          · exact .goOn (.transitionWrite id home) rfl ⟨wf.1, wf.2⟩ rfl rfl
    | transitionWrite id home => exact .setRunning id home wf.1 wf.2 hst rfl
    | transitionReload id home =>
      unfold advance
      dsimp only
      split
      · exact .bind _ _ wf.1 (by simp [wf.2])
      · rename_i hrow
        exact .refuse _ (.inr ⟨wf.1, by simpa [wf.2] using hrow⟩)
    | rehydrate id =>
      refine advances_seedOrHandshake rfl rfl rfl ?_ ?_
      · rw [wf.1]
        rfl
      · intro id' hid'
        rw [wf.2 id' hid']
        exact wf.1
    | seed home => exact .goOn .handshake rfl ⟨wf.1, wf.2⟩ rfl rfl
    | handshake =>
      unfold advance
      dsimp only
      split
      · rename_i hinit
        exact .register (by simp [registers, hst, hinit])
      · rename_i hinit
        exact .refuse _ (.inl (by simp [turnedAway, hst, hinit]))

variable {c' : Connection}

theorem Wf.queued (wf : c.Wf) (hst : c.status = .connecting phase) : c.link.queued = false := by
  unfold Wf at wf
  rw [hst] at wf
  cases phase with
  | seed | handshake => exact wf.1
  | _ => rw [wf.1]; rfl

theorem Advances.wf (h : Advances s c o c') (wf : c.Wf) (hst : c.status = .connecting phase) :
    c'.Wf := by
  cases h with
  | refuse => exact wf.queued hst
  | register => trivial
  | goOn _ _ wf => exact wf
  | bind _ _ _ hset => exact wf_bind hset
  | setRunning _ _ hlink => exact ⟨hlink, rfl⟩

theorem holds_connecting (hst : c.status = .connecting phase) :
    c.holds id = true ↔ c.link = .bound id ∨ c.setRunning = some id := by
  simp [holds, hst]

theorem Advances.holds (h : Advances s c o c') (wf : c.Wf) (hst : c.status = .connecting phase)
    (hid : c.holds id) : c'.holds id ∨ c.turnedAway o ∨ s.rows id = none := by
  have hhas := (holds_connecting hst).mp hid
  cases h with
  | refuse refusal why =>
    refine .inr (why.imp_right ?_)
    rintro ⟨hlink, hset⟩
    exact hset id (by simpa [hlink] using hhas)
  | goOn phase' hst' _ hlink hset =>
    refine .inl ((holds_connecting hst').mpr ?_)
    rwa [hlink, hset]
  | bind id' home hlink hset =>
    have hid' : id = id' := hset id (by simpa [hlink] using hhas)
    subst hid'
    exact .inl ((holds_connecting rfl).mpr (.inl rfl))
  | setRunning _ _ hlink hset => simp [hlink, hset] at hhas
  | register hreg =>
    unfold Wf at wf
    simp only [registers, Bool.and_eq_true, decide_eq_true_eq] at hreg
    rw [hreg.1.1] at wf
    have hbound : c.link = .bound id := hhas.elim (fun h => h) (wf.2 id)
    exact .inl (by simp [Connection.holds, Connection.register, hbound, RowLink.sessionId])

theorem Advances.isOpen (h : Advances s c o c') (hopen : c'.isOpen) : c.registers o := by
  cases h with
  | refuse | bind | setRunning => simp [Connection.isOpen, Connection.refuse, Connection.bind] at hopen
  | goOn _ hst => simp [Connection.isOpen, hst] at hopen
  | register hreg => exact hreg

theorem Advances.abandons (h : Advances s c o c')
    (spared : c.turnedAway o → ∀ id ∈ c.setRunning, s.isRunning id = false) :
    c'.abandons s = [] := by
  cases h with
  | refuse refusal why =>
    have hnot : ∀ id ∈ c.setRunning, s.isRunning id = false := by
      rcases why with haway | ⟨-, hgone⟩
      · exact spared haway
      · intro id hid
        simp [McpState.isRunning, hgone id hid]
    cases hset : c.setRunning with
    | none => simp [Connection.abandons, Connection.refuse, hset]
    | some id => simp [Connection.abandons, Connection.refuse, hset, hnot id (by simp [hset])]
  | goOn _ hst => simp [Connection.abandons, hst]
  | bind | setRunning | register => rfl

end Connection

variable {s : McpState} {i : ℕ} {c c' : Connection}

theorem wf_set (wf : ∀ c ∈ s.connections, c.Wf) (hwf : c'.Wf) :
    ∀ c ∈ s.connections.set i c', c.Wf := by
  intro d hd
  rcases List.mem_or_eq_of_mem_set hd with hmem | heq
  · exact wf d hmem
  · exact heq ▸ hwf

theorem status_of_queued (wf : c.Wf) (hqueued : c.link.queued = true) :
    c.status = .registered ∨ ∃ closing, c.status = .closed closing := by
  cases hst : c.status with
  | connecting phase => simp [wf.queued hst] at hqueued
  | refused refusal =>
    unfold Connection.Wf at wf
    rw [hst] at wf
    simp [wf] at hqueued
  | registered => exact .inl rfl
  | closed closing => exact .inr ⟨closing, rfl⟩

theorem wf_of_link (wf : c.Wf) (hqueued : c.link.queued = true) (link : RowLink) :
    Connection.Wf { c with link := link } := by
  unfold Connection.Wf
  rcases status_of_queued wf hqueued with hst | ⟨closing, hst⟩ <;> simp [hst]

theorem holds_inserted (wf : c.Wf) (hqueued : c.link.queued = true) (id : String) :
    Connection.holds { c with link := .inserted id } id := by
  rcases status_of_queued wf hqueued with hst | ⟨closing, hst⟩ <;> simp [Connection.holds, hst]

theorem holds_of_link (wf : c.Wf) (hqueued : c.link.queued = true) {id : String}
    (hid : c.holds id) (link : RowLink) :
    c.link = .inserted id ∨ Connection.holds { c with link := link } id := by
  rcases status_of_queued wf hqueued with hst | ⟨closing, hst⟩
  · have hhas : c.link = .bound id ∨ c.link = .inserted id := by
      simpa [Connection.holds, hst] using hid
    refine .inl (hhas.resolve_left ?_)
    intro hlink
    simp [hlink, RowLink.queued] at hqueued
  · simp only [Connection.holds, hst, Bool.or_eq_true, decide_eq_true_eq] at hid ⊢
    exact hid.symm.imp_right .inl

end Portuni.McpSessions
