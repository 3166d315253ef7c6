import Mathlib.Data.List.Basic
import Mathlib.Logic.Function.Basic
import Portuni.Library.Runs

/-!
The desktop host's sessions socket: a registry of connections, an outbox for each,
and the loops that connect, drain an outbox into a socket and back off. A loop
that waits may wake at any time, so the permit of an outbox is left out.
-/

namespace Portuni.Desktop.SessionsWs

open Library.Runs

/-- A frame with its request id, and the number of the push that brought it. -/
structure Frame where
  number : ℕ
  id : Option String
  text : String
deriving DecidableEq

structure Outbox where
  queue : List Frame := []
  closed : Bool := false

inductive LoopState where
  | top
  | connecting
  | connected
  /-- Found current: the next thing is to emit `open`. -/
  | opening
  | socket
  | draining
  | writing (frame : Frame)
  | selecting
  | lost
  | reporting
  /-- Found current: the next thing is to emit `reconnecting`. -/
  | emitting
  | backoff
  | stopped

def LoopState.drains : LoopState → Bool
  | .draining | .writing _ => true
  | _ => false

def LoopState.emits : LoopState → Bool
  | .opening | .emitting => true
  | _ => false

structure Emission where
  wsId : String
  generation : ℕ
  status : String
  /-- The generation was the current one when the status went out. -/
  current : Bool
deriving DecidableEq

/-- The registry with the outboxes and the loops, by generation: a `sessions_connect` makes one
of each. The frames that were taken, written, cancelled or dropped are kept by window. -/
structure SessionsWsState where
  connections : String → Option ℕ := fun _ => none
  nextGeneration : ℕ := 0
  outbox : ℕ → Outbox := fun _ => {}
  loops : ℕ → Option (String × LoopState) := fun _ => none
  pushes : ℕ := 0
  accepted : String → List Frame := fun _ => []
  popped : String → List Frame := fun _ => []
  written : String → List Frame := fun _ => []
  cancelled : String → List Frame := fun _ => []
  discarded : String → List Frame := fun _ => []
  emitted : List Emission := []

inductive Outcome where
  | ok
  | error
  | abort
deriving DecidableEq

inductive Action where
  | register (wsId : String)
  | remove (wsId : String)
  | push (wsId : String) (id : Option String) (text : String)
  | cancel (wsId : String) (id : String)
  | advance (generation : ℕ) (outcome : Outcome)

def put {κ α : Type} [DecidableEq κ] (f : κ → α) (k : κ) (v : α) : κ → α :=
  fun k' => if k' = k then v else f k'

@[simp]
theorem put_self {κ α : Type} [DecidableEq κ] (f : κ → α) (k : κ) (v : α) : put f k v k = v := by
  simp [put]

@[simp]
theorem put_of_ne {κ α : Type} [DecidableEq κ] (f : κ → α) {k k' : κ} (v : α) (h : k' ≠ k) :
    put f k v k' = f k' := by
  simp [put, h]

namespace SessionsWsState

variable (s : SessionsWsState)

def waiting (wsId : String) : List Frame :=
  match s.connections wsId with
  | some g => (s.outbox g).queue
  | none => []

def isCurrent (wsId : String) (g : ℕ) : Bool :=
  s.connections wsId = some g

def retire (wsId : String) : ℕ → Outbox :=
  match s.connections wsId with
  | some old => put s.outbox old ⟨[], true⟩
  | none => s.outbox

def register (wsId : String) : SessionsWsState :=
  { s with
    connections := put s.connections wsId (some s.nextGeneration)
    nextGeneration := s.nextGeneration + 1
    outbox := put (s.retire wsId) s.nextGeneration ⟨s.waiting wsId, false⟩
    loops := put s.loops s.nextGeneration (some (wsId, .top)) }

def remove (wsId : String) : SessionsWsState :=
  match s.connections wsId with
  | none => s
  | some old =>
    { s with
      connections := put s.connections wsId none
      outbox := put s.outbox old { s.outbox old with closed := true }
      discarded := put s.discarded wsId (s.discarded wsId ++ (s.outbox old).queue) }

/-- `sessions_send: not connected` without an entry. -/
def push (wsId : String) (id : Option String) (text : String) : Option SessionsWsState :=
  (s.connections wsId).map fun g =>
    let frame : Frame := ⟨s.pushes, id, text⟩
    { s with
      pushes := s.pushes + 1
      outbox := put s.outbox g { s.outbox g with queue := (s.outbox g).queue ++ [frame] }
      accepted := put s.accepted wsId (s.accepted wsId ++ [frame]) }

def cancel (wsId id : String) : SessionsWsState :=
  match s.connections wsId with
  | none => s
  | some g =>
    { s with
      outbox := put s.outbox g
        { s.outbox g with queue := (s.outbox g).queue.filter fun f => f.id ≠ some id }
      cancelled := put s.cancelled wsId
        (s.cancelled wsId ++ (s.outbox g).queue.filter fun f => f.id = some id) }

def goto (wsId : String) (g : ℕ) (state : LoopState) : SessionsWsState :=
  { s with loops := put s.loops g (some (wsId, state)) }

def emit (wsId : String) (g : ℕ) (status : String) : SessionsWsState :=
  { s with emitted := s.emitted ++ [⟨wsId, g, status, s.isCurrent wsId g⟩] }

def pop (wsId : String) (g : ℕ) : SessionsWsState :=
  match (s.outbox g).queue with
  | [] => s.goto wsId g .selecting
  | frame :: rest =>
    { s with
      outbox := put s.outbox g { s.outbox g with queue := rest }
      popped := put s.popped wsId (s.popped wsId ++ [frame])
      loops := put s.loops g (some (wsId, .writing frame)) }

def write (wsId : String) (g : ℕ) (frame : Frame) : SessionsWsState :=
  { s with
    written := put s.written wsId (s.written wsId ++ [frame])
    loops := put s.loops g (some (wsId, .draining)) }

/-- `run_connection_loop`, up to its next await or lock. -/
def advance (g : ℕ) (wsId : String) (outcome : Outcome) : LoopState → SessionsWsState
  | .top =>
    if s.isCurrent wsId g then
      match outcome with
      | .ok => s.goto wsId g .connecting
      | .error => s.goto wsId g .reporting
      | .abort => s.goto wsId g .stopped
    else s.goto wsId g .stopped
  | .connecting => s.goto wsId g (if outcome = .ok then .connected else .reporting)
  | .connected => s.goto wsId g (if s.isCurrent wsId g then .opening else .stopped)
  | .opening => (s.emit wsId g "open").goto wsId g .socket
  | .socket => s.goto wsId g (if (s.outbox g).closed then .stopped else .draining)
  | .draining => s.pop wsId g
  | .writing frame => if outcome = .ok then s.write wsId g frame else s.goto wsId g .lost
  | .selecting => s.goto wsId g (if outcome = .ok then .socket else .lost)
  | .lost => s.goto wsId g (if s.isCurrent wsId g then .reporting else .stopped)
  | .reporting => s.goto wsId g (if s.isCurrent wsId g then .emitting else .backoff)
  | .emitting => (s.emit wsId g "reconnecting").goto wsId g .backoff
  | .backoff =>
    s.goto wsId g
      (if s.isCurrent wsId g then if outcome = .ok then .top else .backoff else .stopped)
  | .stopped => s

end SessionsWsState

def step (s : SessionsWsState) : Action → Option SessionsWsState
  | .register wsId => some (s.register wsId)
  | .remove wsId => some (s.remove wsId)
  | .push wsId id text => s.push wsId id text
  | .cancel wsId id => some (s.cancel wsId id)
  | .advance g outcome =>
    (s.loops g).map fun (wsId, state) => s.advance g wsId outcome state

structure Ledger where
  accepted : List Frame
  waiting : List Frame
  popped : List Frame
  written : List Frame
  cancelled : List Frame
  discarded : List Frame

def SessionsWsState.ledger (s : SessionsWsState) (wsId : String) : Ledger where
  accepted := s.accepted wsId
  waiting := s.waiting wsId
  popped := s.popped wsId
  written := s.written wsId
  cancelled := s.cancelled wsId
  discarded := s.discarded wsId

/-- The frames flow in push order from the accepted ones through the queue to the popped ones,
and those withdrawn on the way never come back. -/
structure Ledger.Sound (l : Ledger) (pushes : ℕ) : Prop where
  numbered : l.accepted.Pairwise fun f g => f.number < g.number
  below : ∀ f ∈ l.accepted, f.number < pushes
  flow : (l.popped ++ l.waiting).Sublist l.accepted
  settled : ∀ f ∈ l.accepted, f ∈ l.popped ++ l.waiting ∨ f ∈ l.cancelled ++ l.discarded
  gone : ∀ f ∈ l.cancelled ++ l.discarded, f ∈ l.accepted ∧ f ∉ l.popped ++ l.waiting
  taken : ∀ f ∈ l.written, f ∈ l.popped

namespace Ledger.Sound

variable {l : Ledger} {n : ℕ}

theorem nodup (h : l.Sound n) : l.accepted.Nodup :=
  List.Pairwise.imp (fun hlt heq => Nat.ne_of_lt hlt (congrArg Frame.number heq)) h.numbered

theorem mono (h : l.Sound n) : l.Sound (n + 1) :=
  { h with below := fun f hf => Nat.lt_succ_of_lt (h.below f hf) }

theorem empty : Sound ⟨[], [], [], [], [], []⟩ n := by
  constructor <;> simp

variable {f : Frame}

variable (h : l.Sound n)

include h

theorem accept (hf : f.number = n) :
    Sound { l with accepted := l.accepted ++ [f], waiting := l.waiting ++ [f] } (n + 1) where
  numbered := by
    refine List.pairwise_append.mpr ⟨h.numbered, List.pairwise_singleton _ _, ?_⟩
    intro a ha b hb
    rw [List.mem_singleton.mp hb, hf]
    exact h.below a ha
  below := by
    intro a ha
    rcases List.mem_append.mp ha with ha | ha
    · exact Nat.lt_succ_of_lt (h.below a ha)
    · rw [List.mem_singleton.mp ha, hf]
      exact n.lt_succ_self
  flow := by
    rw [← List.append_assoc]
    exact h.flow.append (List.Sublist.refl _)
  settled := by
    intro a ha
    rcases List.mem_append.mp ha with ha | ha
    · rw [← List.append_assoc]
      exact (h.settled a ha).imp_left (List.mem_append_left _)
    · exact Or.inl (List.mem_append_right _ (List.mem_append_right _ ha))
  gone := by
    intro a ha
    obtain ⟨hin, hout⟩ := h.gone a ha
    refine ⟨List.mem_append_left _ hin, ?_⟩
    rw [← List.append_assoc, List.mem_append, not_or, List.mem_singleton]
    -- the new frame's number is fresh
    refine ⟨hout, fun heq => ?_⟩
    exact Nat.ne_of_lt (h.below a hin) (heq ▸ hf)
  taken := h.taken

theorem take {rest : List Frame} (hw : l.waiting = f :: rest) :
    Sound { l with popped := l.popped ++ [f], waiting := rest } n := by
  have same : (l.popped ++ [f]) ++ rest = l.popped ++ l.waiting := by simp [hw]
  exact
    { numbered := h.numbered
      below := h.below
      flow := same ▸ h.flow
      settled := fun a ha => same ▸ h.settled a ha
      gone := fun a ha => same ▸ h.gone a ha
      taken := fun a ha => List.mem_append_left _ (h.taken a ha) }

theorem write (hf : f ∈ l.popped) : Sound { l with written := l.written ++ [f] } n :=
  { h with
    taken := by
      intro a ha
      rcases List.mem_append.mp ha with ha | ha
      · exact h.taken a ha
      · exact List.mem_singleton.mp ha ▸ hf }

theorem withdraw (cancelled discarded waiting : List Frame) (hkeep : waiting.Sublist l.waiting)
    (hgone : ∀ f, f ∈ cancelled ++ discarded ↔ f ∈ l.cancelled ++ l.discarded ∨ f ∈ l.waiting ∧ f ∉
      waiting) : Sound { l with cancelled, discarded, waiting } n where
  __ := h
  flow := (List.Sublist.append_left hkeep _).trans h.flow
  settled := by
    intro a ha
    show a ∈ l.popped ++ waiting ∨ a ∈ cancelled ++ discarded
    rw [hgone, List.mem_append]
    rcases h.settled a ha with hflow | hgone'
    · rcases List.mem_append.mp hflow with hp | hw
      · exact Or.inl (Or.inl hp)
      · by_cases hk : a ∈ waiting
        · exact Or.inl (Or.inr hk)
        · exact Or.inr (Or.inr ⟨hw, hk⟩)
    · exact Or.inr (Or.inl hgone')
  gone := by
    intro a ha
    show a ∈ l.accepted ∧ a ∉ l.popped ++ waiting
    rcases (hgone a).mp ha with hold | ⟨hw, hk⟩
    · obtain ⟨hin, hout⟩ := h.gone a hold
      exact ⟨hin, fun hmem => hout ((List.Sublist.append_left hkeep _).subset hmem)⟩
    · refine ⟨h.flow.subset (List.mem_append_right _ hw), ?_⟩
      have apart := (List.nodup_append.mp (h.nodup.sublist h.flow)).2.2
      rw [List.mem_append, not_or]
      exact ⟨fun hp => apart a hp a hw rfl, hk⟩

theorem popped_notMem_gone (hf : f ∈ l.popped) : f ∉ l.cancelled ++ l.discarded :=
  fun hgone => (h.gone f hgone).2 (List.mem_append_left _ hf)

end Ledger.Sound

end Portuni.Desktop.SessionsWs
