import Portuni.EventStream.Model
import Portuni.Library.Runs

/-!
The listeners that one connection of the sessions channel holds in the runtime. `subscribe` awaits
an access check before it registers its listener and every page of the replay behind it;
`unsubscribe` and the socket's close act at once on the map of the registered ones.
-/

namespace Portuni.Subscriptions

open EventStream (ChatEvent lastReplayedSeq replayPageSize)

universe u v

inductive ClientFrame (K : Type u) where
  | subscribe (id : Option String) (session : K) (after : Option ℕ)
  | unsubscribe (id : Option String) (session : K)

inductive Published (Event : Type v) where
  | event (event : ChatEvent Event)
  | delta (text : String)
  | sessionChanged
deriving DecidableEq

def isSessionChangedFrame {Event : Type v} : Published Event → Bool
  | .sessionChanged => true
  | _ => false

structure ErrorReply where
  code : String
  message : String
deriving DecidableEq

/-- What `handleSubscribe` awaits, and what came of it. -/
inductive Stage where
  | access
  | reading (cursor : Option ℕ)
  | live
  /-- The access check threw. -/
  | denied
  /-- The read of a page threw: the listener stays, and goes on buffering. -/
  | broken
deriving DecidableEq

/-- A call of `handleSubscribe`; its position among the calls names its listener. -/
structure Handler (K : Type u) (Event : Type v) where
  id : Option String
  session : K
  after : Option ℕ
  stage : Stage := .access
  buffering : Bool := true
  /-- Each event with its number among all that were published. -/
  buffer : List (ℕ × Published Event) := []

/-- A frame that the socket was sent. Live events tell which listener they came from. -/
inductive ServerFrame (K : Type u) (Event : Type v) where
  | events (session : K) (events : List (ChatEvent Event))
  | event (session : K) (listener number : ℕ) (event : Published Event)
  | reply (id : String)
  | error (id : String) (payload : ErrorReply)
deriving DecidableEq

inductive Socket where
  | open
  /-- Terminated, with the `close` event still to come. -/
  | closing
  | closed
deriving DecidableEq

/-- A frame in the order of receipt: the call that a `subscribe` started, none for an
`unsubscribe`. -/
structure Received (K : Type u) where
  session : K
  call : Option ℕ

structure State (K : Type u) (Event : Type v) where
  socket : Socket := .open
  handlers : List (Handler K Event) := []
  /-- `conn.subscriptions`: the listener whose removal a session maps to. -/
  subscriptions : K → Option ℕ := fun _ => none
  /-- The listeners of this connection in the runtime's `subscribers`. -/
  listeners : K → List ℕ := fun _ => []
  sent : List (ServerFrame K Event) := []
  published : ℕ := 0
  received : List (Received K) := []

inductive Action (K : Type u) (Event : Type v) where
  | receive (frame : ClientFrame K)
  | grant (i : ℕ)
  | deny (i : ℕ) (error : ErrorReply)
  /-- A page of the replay comes back, or its read throws. -/
  | page (i : ℕ) (rows : List (ChatEvent Event))
  | fail (i : ℕ) (error : ErrorReply)
  | publish (session : K) (event : Published Event)
  | terminate
  | close

namespace State

variable {K : Type u} {Event : Type v} (s : State K Event)

def send (frames : List (ServerFrame K Event)) : State K Event :=
  if s.socket = .open then { s with sent := s.sent ++ frames } else s

def sendReply (id : Option String) : State K Event :=
  match id with
  | some id => if id = "" then s else s.send [.reply id]
  | none => s

def sendErrorReply (id : Option String) (error : ErrorReply) : State K Event :=
  match id with
  | some id => if id = "" then s else s.send [.error id error]
  | none => s

def setHandler (i : ℕ) (h : Handler K Event) : State K Event :=
  { s with handlers := s.handlers.set i h }

def listener (session : K) (i number : ℕ) (event : Published Event) : State K Event :=
  match s.handlers[i]? with
  | none => s
  | some h =>
    if isSessionChangedFrame event then s
    else if h.buffering then s.setHandler i { h with buffer := h.buffer ++ [(number, event)] }
    else s.send [.event session i number event]

def publish (session : K) (event : Published Event) : State K Event :=
  (s.listeners session).foldl (fun t i => t.listener session i s.published event)
    { s with published := s.published + 1 }

/-- What the replay sends of the buffer: not what a page has brought already. -/
def flushed (session : K) (i lastSeq : ℕ) (buffer : List (ℕ × Published Event)) :
    List (ServerFrame K Event) :=
  buffer.filterMap fun entry =>
    match entry.2 with
    | .sessionChanged => none
    | .event e => if e.seq ≤ lastSeq then none else some (.event session i entry.1 entry.2)
    | .delta _ => some (.event session i entry.1 entry.2)

variable [DecidableEq K]

def removeListener (session : K) : State K Event :=
  match s.subscriptions session with
  | none => s
  | some i =>
    { s with
      listeners := Function.update s.listeners session ((s.listeners session).erase i) }

/-- The rest of `handleSubscribe` behind the access check. -/
def register (i : ℕ) (h : Handler K Event) : State K Event :=
  let s := s.removeListener h.session
  { s with
    listeners := Function.update s.listeners h.session (s.listeners h.session ++ [i])
    subscriptions := Function.update s.subscriptions h.session (some i)
    handlers := s.handlers.set i { h with stage := .reading h.after, buffering := true } }

def handleUnsubscribe (id : Option String) (session : K) : State K Event :=
  let s := s.removeListener session
  { s with subscriptions := Function.update s.subscriptions session none }.sendReply id

def resume (i : ℕ) (h : Handler K Event) (cursor : Option ℕ) (page : List (ChatEvent Event)) :
    State K Event :=
  let last := lastReplayedSeq cursor page
  let s := if page = [] then s else s.send [.events h.session page]
  if page.length < replayPageSize then
    let s := s.setHandler i { h with stage := .live, buffering := false, buffer := [] }
    (s.send (flushed h.session i last h.buffer)).sendReply h.id
  else s.setHandler i { h with stage := .reading (some last) }

def closed : State K Event :=
  { s with
    socket := .closed
    listeners := fun session =>
      match s.subscriptions session with
      | none => s.listeners session
      | some i => (s.listeners session).erase i
    subscriptions := fun _ => none }

end State

variable {K : Type u} {Event : Type v} [DecidableEq K]

def step (s : State K Event) : Action K Event → Option (State K Event)
  | .receive frame =>
    if s.socket = .closed then none
    else
      match frame with
      | .subscribe id session after =>
        some { s with
          handlers := s.handlers ++ [{ id := id, session := session, after := after }]
          received := s.received ++ [⟨session, some s.handlers.length⟩] }
      | .unsubscribe id session =>
        some { s.handleUnsubscribe id session with
          received := s.received ++ [⟨session, none⟩] }
  | .grant i =>
    match s.handlers[i]? with
    | none => none
    | some h => if h.stage = .access then some (s.register i h) else none
  | .deny i error =>
    match s.handlers[i]? with
    | none => none
    | some h =>
      if h.stage = .access then
        some ((s.setHandler i { h with stage := .denied }).sendErrorReply h.id error)
      else none
  | .page i rows =>
    match s.handlers[i]? with
    | none => none
    | some h =>
      match h.stage with
      | .reading cursor => some (s.resume i h cursor rows)
      | _ => none
  | .fail i error =>
    match s.handlers[i]? with
    | none => none
    | some h =>
      match h.stage with
      | .reading _ =>
        some ((s.setHandler i { h with stage := .broken }).sendErrorReply h.id error)
      | _ => none
  | .publish session event => some (s.publish session event)
  | .terminate => if s.socket = .open then some { s with socket := .closing } else none
  | .close => if s.socket = .closed then none else some s.closed

def init : State K Event := {}

def State.lastFrame (s : State K Event) (session : K) : Option (Received K) :=
  (s.received.filter fun frame => frame.session = session).getLast?

/-- The last of the frames was a `subscribe`, of the call `i`. -/
def State.lastCall (s : State K Event) (session : K) : Option ℕ :=
  (s.lastFrame session).bind Received.call

def Handler.granted (h : Handler K Event) : Bool := h.stage ≠ .access ∧ h.stage ≠ .denied

def Handler.finished (h : Handler K Event) : Bool :=
  match h.stage with
  | .live | .denied | .broken => true
  | _ => false

def State.lastGranted (s : State K Event) (session : K) : Bool :=
  (s.lastCall session).any fun i => (s.handlers[i]?).any Handler.granted

def State.Finished (s : State K Event) : Prop :=
  s.socket ≠ .closing ∧ ∀ h ∈ s.handlers, h.finished = true

variable {K : Type u} {Event : Type v}

section

variable {s t : State K Event} {i j : ℕ} {h : Handler K Event}

structure Call (K : Type u) where
  session : K
  granted : Bool
  denied : Bool

def Handler.call (h : Handler K Event) : Call K := ⟨h.session, h.granted, h.stage = .denied⟩

def State.calls (s : State K Event) : List (Call K) := s.handlers.map Handler.call

/-- Nothing that the registration reads has changed, save that the socket may be closing. -/
structure Quiet (s t : State K Event) : Prop where
  closed : t.socket = .closed ↔ s.socket = .closed
  calls : t.calls = s.calls
  subscriptions : t.subscriptions = s.subscriptions
  listeners : t.listeners = s.listeners
  received : t.received = s.received

theorem Quiet.refl (s : State K Event) : Quiet s s := ⟨Iff.rfl, rfl, rfl, rfl, rfl⟩

theorem Quiet.trans {t u : State K Event} (h : Quiet s t) (h' : Quiet t u) : Quiet s u where
  closed := h'.closed.trans h.closed
  calls := h'.calls.trans h.calls
  subscriptions := h'.subscriptions.trans h.subscriptions
  listeners := h'.listeners.trans h.listeners
  received := h'.received.trans h.received

theorem quiet_send (s : State K Event) (frames : List (ServerFrame K Event)) :
    Quiet s (s.send frames) := by
  unfold State.send
  split
  · exact ⟨Iff.rfl, rfl, rfl, rfl, rfl⟩
  · exact .refl s

theorem quiet_sendReply (s : State K Event) (id : Option String) : Quiet s (s.sendReply id) := by
  unfold State.sendReply
  split
  · split
    · exact .refl s
    · exact quiet_send _ _
  · exact .refl s

theorem quiet_sendErrorReply (s : State K Event) (id : Option String) (error : ErrorReply) :
    Quiet s (s.sendErrorReply id error) := by
  unfold State.sendErrorReply
  split
  · split
    · exact .refl s
    · exact quiet_send _ _
  · exact .refl s

theorem calls_setHandler (s : State K Event) (i : ℕ) (h : Handler K Event) :
    (s.setHandler i h).calls = s.calls.set i h.call := by
  simp [State.calls, State.setHandler, List.map_set]

theorem getElem?_calls (hi : s.handlers[i]? = some h) : s.calls[i]? = some h.call := by
  simp [State.calls, hi]

theorem getElem?_set_call (hi : s.handlers[i]? = some h) (c : Call K) (j : ℕ) :
    (s.calls.set i c)[j]? = if j = i then some c else s.calls[j]? := by
  have hlt : i < s.calls.length := (List.getElem?_eq_some_iff.mp (getElem?_calls hi)).1
  rw [List.getElem?_set]
  by_cases heq : i = j
  · rw [if_pos heq, if_pos hlt, if_pos heq.symm]
  · rw [if_neg heq, if_neg (Ne.symm heq)]

theorem quiet_setHandler (h' : Handler K Event) (hi : s.handlers[i]? = some h)
    (hcall : h'.call = h.call) : Quiet s (s.setHandler i h') where
  closed := Iff.rfl
  calls := by
    rw [calls_setHandler, hcall]
    obtain ⟨hlt, hget⟩ := List.getElem?_eq_some_iff.mp (getElem?_calls hi)
    rw [← hget, List.set_getElem_self]
  subscriptions := rfl
  listeners := rfl
  received := rfl

theorem quiet_listener (s : State K Event) (session : K) (i number : ℕ)
    (event : Published Event) : Quiet s (s.listener session i number event) := by
  unfold State.listener
  split
  · exact .refl s
  · next h hi =>
    split
    · exact .refl s
    split
    · exact quiet_setHandler _ hi rfl
    · exact quiet_send _ _

theorem quiet_publish (s : State K Event) (session : K) (event : Published Event) :
    Quiet s (s.publish session event) := by
  unfold State.publish
  have hfold : ∀ (listeners : List ℕ) (t : State K Event), Quiet s t →
      Quiet s (listeners.foldl (fun t i => t.listener session i s.published event) t) := by
    intro listeners
    induction listeners with
    | nil => exact fun t ht => ht
    | cons i rest ih => exact fun t ht => ih _ (ht.trans (quiet_listener t session i _ event))
  exact hfold _ _ ⟨Iff.rfl, rfl, rfl, rfl, rfl⟩

theorem quiet_resume {cursor : Option ℕ} (hi : s.handlers[i]? = some h)
    (hstage : h.stage = .reading cursor) (page : List (ChatEvent Event)) :
    Quiet s (s.resume i h cursor page) := by
  unfold State.resume
  dsimp only
  have hsent : ∀ t : State K Event, Quiet s t ∧ t.handlers = s.handlers →
      Quiet s (if page.length < replayPageSize then
        ((t.setHandler i { h with stage := .live, buffering := false, buffer := [] }).send
          (State.flushed h.session i (lastReplayedSeq cursor page) h.buffer)).sendReply h.id
        else t.setHandler i { h with stage := .reading (some (lastReplayedSeq cursor page)) }) := by
    rintro t ⟨ht, hhandlers⟩
    have hti : t.handlers[i]? = some h := hhandlers ▸ hi
    split
    · have hset := quiet_setHandler
        { h with stage := .live, buffering := false, buffer := [] } hti
        (by simp [Handler.call, Handler.granted, hstage])
      exact ((ht.trans hset).trans (quiet_send _ _)).trans (quiet_sendReply _ _)
    · refine ht.trans (quiet_setHandler _ hti ?_)
      simp [Handler.call, Handler.granted, hstage]
  refine hsent _ ?_
  split
  · exact ⟨.refl s, rfl⟩
  · refine ⟨quiet_send _ _, ?_⟩
    unfold State.send
    split <;> rfl

def Single (s : State K Event) : Prop := ∀ k, s.listeners k = (s.subscriptions k).toList

theorem Single.quiet (hs : Single s) (hquiet : Quiet s t) : Single t := by
  intro k
  rw [hquiet.listeners, hquiet.subscriptions, hs]

theorem Single.closed (hs : Single s) : Single s.closed := by
  intro k
  have hk := hs k
  unfold State.closed
  cases hsub : s.subscriptions k with
  | none => simp [hk, hsub]
  | some i => simp [hk, hsub]

end

variable [DecidableEq K] {s t : State K Event} {i j : ℕ} {k k' : K} {h : Handler K Event}

/-- The last frame was a `subscribe` that was not denied so far. -/
def State.lastOpen (s : State K Event) (session : K) : Bool :=
  (s.lastCall session).any fun i => (s.handlers[i]?).any fun h => decide (h.stage ≠ .denied)

theorem lastOpen_iff : s.lastOpen k = true ↔
    ∃ i c, s.lastCall k = some i ∧ s.calls[i]? = some c ∧ c.denied = false := by
  unfold State.lastOpen State.calls
  cases s.lastCall k with
  | none => simp
  | some i =>
    cases hi : s.handlers[i]? with
    | none => simp [hi]
    | some h => simp [hi, Handler.call]

theorem lastGranted_iff : s.lastGranted k = true ↔
    ∃ i c, s.lastCall k = some i ∧ s.calls[i]? = some c ∧ c.granted = true := by
  unfold State.lastGranted State.calls
  cases s.lastCall k with
  | none => simp
  | some i =>
    cases hi : s.handlers[i]? with
    | none => simp [hi]
    | some h => simp [hi, Handler.call]

theorem lastCall_congr (h : t.received = s.received) (k : K) : t.lastCall k = s.lastCall k := by
  simp [State.lastCall, State.lastFrame, h]

theorem lastCall_concat {call : Option ℕ} (h : t.received = s.received ++ [⟨k, call⟩]) (k' : K) :
    t.lastCall k' = if k' = k then call else s.lastCall k' := by
  unfold State.lastCall State.lastFrame
  rw [h, List.filter_append]
  split
  · next heq => simp [heq]
  · next hne => simp [Ne.symm hne]

variable (hs : Single s)

include hs

theorem removeListener_eq (k : K) :
    s.removeListener k = { s with listeners := Function.update s.listeners k [] } := by
  unfold State.removeListener
  have hk := hs k
  cases hsub : s.subscriptions k with
  | none =>
    rw [hsub] at hk
    rw [show Function.update s.listeners k [] = s.listeners from
      Function.update_eq_self_iff.mpr hk.symm]
  | some i =>
    rw [hsub] at hk
    simp [hk]

theorem register_eq (i : ℕ) (h : Handler K Event) :
    s.register i h = { s with
      listeners := Function.update s.listeners h.session [i]
      subscriptions := Function.update s.subscriptions h.session (some i)
      handlers := s.handlers.set i { h with stage := .reading h.after, buffering := true } } := by
  unfold State.register
  rw [removeListener_eq hs]
  simp

theorem handleUnsubscribe_eq (id : Option String) (k : K) :
    s.handleUnsubscribe id k = State.sendReply { s with
      listeners := Function.update s.listeners k []
      subscriptions := Function.update s.subscriptions k none } id := by
  unfold State.handleUnsubscribe
  rw [removeListener_eq hs]

theorem Single.update (k : K) (o : Option ℕ)
    (hlisteners : t.listeners = Function.update s.listeners k o.toList)
    (hsubscriptions : t.subscriptions = Function.update s.subscriptions k o) : Single t := by
  intro k'
  rw [hlisteners, hsubscriptions]
  by_cases heq : k' = k
  · subst heq
    simp
  · simp [heq, hs k']

theorem Single.register (i : ℕ) (h : Handler K Event) : Single (s.register i h) := by
  rw [register_eq hs]
  exact hs.update h.session (some i) rfl rfl

theorem Single.handleUnsubscribe (id : Option String) (k : K) :
    Single (s.handleUnsubscribe id k) := by
  rw [handleUnsubscribe_eq hs]
  have hremoved : Single { s with
      listeners := Function.update s.listeners k []
      subscriptions := Function.update s.subscriptions k none } :=
    hs.update k none rfl rfl
  exact hremoved.quiet (quiet_sendReply _ id)

omit hs

/-- The listeners of the runtime are those of the map, and each belongs to an open socket and a
last frame that stands; a last frame that was granted has one. -/
structure Inv (s : State K Event) : Prop where
  single : Single s
  lastCall : ∀ k i, s.lastCall k = some i → ∃ c, s.calls[i]? = some c ∧ c.session = k
  stands : ∀ k, (s.subscriptions k).isSome → s.socket ≠ .closed ∧ s.lastOpen k = true
  granted : ∀ k, s.socket ≠ .closed → s.lastGranted k = true → (s.subscriptions k).isSome

theorem inv_init : Inv (init : State K Event) where
  single _ := rfl
  lastCall _ _ h := by cases h
  stands _ h := by cases h
  granted _ _ h := by cases h

theorem Inv.quiet (hs : Inv s) (hquiet : Quiet s t) : Inv t := by
  have hlast := lastCall_congr hquiet.received
  have hopen : ∀ k, t.lastOpen k = s.lastOpen k := by
    intro k
    rw [Bool.eq_iff_iff, lastOpen_iff, lastOpen_iff, hlast, hquiet.calls]
  have hgranted : ∀ k, t.lastGranted k = s.lastGranted k := by
    intro k
    rw [Bool.eq_iff_iff, lastGranted_iff, lastGranted_iff, hlast, hquiet.calls]
  refine ⟨hs.single.quiet hquiet, fun k i hi => ?_, fun k hk => ?_, fun k hsocket hk => ?_⟩
  · rw [hquiet.calls]
    exact hs.lastCall k i (hlast k ▸ hi)
  · rw [hquiet.subscriptions] at hk
    rw [Ne, hquiet.closed, hopen]
    exact hs.stands k hk
  · rw [hquiet.subscriptions]
    exact hs.granted k (fun hclosed => hsocket (hquiet.closed.mpr hclosed)) (hgranted k ▸ hk)

theorem Inv.subscribe (hs : Inv s) (hsocket : s.socket ≠ .closed) (id : Option String) (k : K)
    (after : Option ℕ) :
    Inv { s with
      handlers := s.handlers ++ [{ id := id, session := k, after := after }]
      received := s.received ++ [⟨k, some s.handlers.length⟩] } := by
  set t : State K Event := { s with
    handlers := s.handlers ++ [{ id := id, session := k, after := after }]
    received := s.received ++ [⟨k, some s.handlers.length⟩] } with ht
  have hlast : ∀ k', t.lastCall k' = if k' = k then some s.handlers.length else s.lastCall k' :=
    lastCall_concat rfl
  have hcalls : t.calls = s.calls ++ [⟨k, false, false⟩] := by
    simp [ht, State.calls, Handler.call, Handler.granted]
  have hlength : s.calls.length = s.handlers.length := List.length_map _
  have hnew : t.calls[s.handlers.length]? = some ⟨k, false, false⟩ := by
    simp [hcalls, ← hlength]
  have hold : ∀ {i : ℕ} {c}, s.calls[i]? = some c → t.calls[i]? = some c := by
    intro i c hi
    rw [hcalls, List.getElem?_append_left (List.getElem?_eq_some_iff.mp hi).1, hi]
  refine ⟨hs.single, fun k' i hi => ?_, fun k' hk' => ⟨hsocket, ?_⟩, fun k' _ hk' => ?_⟩
  · rw [hlast] at hi
    split at hi
    · next heq =>
      cases hi
      exact ⟨_, hnew, heq.symm⟩
    · obtain ⟨c, hc, hck⟩ := hs.lastCall k' i hi
      exact ⟨c, hold hc, hck⟩
  · rw [lastOpen_iff]
    by_cases heq : k' = k
    · exact ⟨_, _, by rw [hlast, if_pos heq], hnew, rfl⟩
    · obtain ⟨i, c, hi, hc, hdenied⟩ := lastOpen_iff.mp (hs.stands k' hk').2
      exact ⟨i, c, by rw [hlast, if_neg heq, hi], hold hc, hdenied⟩
  · obtain ⟨i, c, hi, hc, hgranted⟩ := lastGranted_iff.mp hk'
    rw [hlast] at hi
    split at hi
    · cases hi
      rw [hnew] at hc
      cases hc
      cases hgranted
    · obtain ⟨c', hc', -⟩ := hs.lastCall k' i hi
      rw [hold hc'] at hc
      exact hs.granted k' hsocket (lastGranted_iff.mpr ⟨i, c, hi, hc' ▸ hc, hgranted⟩)

theorem Inv.unsubscribe (hs : Inv s) (id : Option String) (k : K) :
    Inv { s.handleUnsubscribe id k with received := s.received ++ [⟨k, none⟩] } := by
  have hquiet := quiet_sendReply { s with
    listeners := Function.update s.listeners k []
    subscriptions := Function.update s.subscriptions k none } id
  set t : State K Event :=
    { s.handleUnsubscribe id k with received := s.received ++ [⟨k, none⟩] } with ht
  have hafter := handleUnsubscribe_eq hs.single id k
  have hlast : ∀ k', t.lastCall k' = if k' = k then none else s.lastCall k' :=
    lastCall_concat rfl
  have hsocket : t.socket = .closed ↔ s.socket = .closed := by
    rw [ht, hafter]
    exact hquiet.closed
  have hcalls : t.calls = s.calls := by
    rw [ht, hafter]
    exact hquiet.calls
  have hsubscriptions : t.subscriptions = Function.update s.subscriptions k none := by
    rw [ht, hafter]
    exact hquiet.subscriptions
  refine ⟨hs.single.handleUnsubscribe id k, fun k' i hi => ?_, fun k' hk' => ?_,
    fun k' hopen hk' => ?_⟩
  · rw [hlast] at hi
    split at hi
    · cases hi
    · rw [hcalls]
      exact hs.lastCall k' i hi
  · rw [hsubscriptions] at hk'
    have hne : k' ≠ k := by
      rintro rfl
      simp at hk'
    rw [Function.update_of_ne hne] at hk'
    obtain ⟨hopen, hstands⟩ := hs.stands k' hk'
    refine ⟨fun hclosed => hopen (hsocket.mp hclosed), ?_⟩
    rwa [lastOpen_iff, hlast, if_neg hne, hcalls, ← lastOpen_iff]
  · have hne : k' ≠ k := by
      rintro rfl
      obtain ⟨i, c, hi, -⟩ := lastGranted_iff.mp hk'
      rw [hlast, if_pos rfl] at hi
      cases hi
    rw [lastGranted_iff, hlast, if_neg hne, hcalls, ← lastGranted_iff] at hk'
    rw [hsubscriptions, Function.update_of_ne hne]
    exact hs.granted k' (fun hclosed => hopen (hsocket.mpr hclosed)) hk'

theorem Inv.ne_of_session (hs : Inv s) (hi : s.handlers[i]? = some h) (hne : k ≠ h.session) :
    s.lastCall k ≠ some i := by
  intro hlast
  obtain ⟨c, hc, hck⟩ := hs.lastCall k i hlast
  rw [getElem?_calls hi] at hc
  cases hc
  exact hne hck.symm

theorem Inv.register (hs : Inv s) (hi : s.handlers[i]? = some h) (hsocket : s.socket ≠ .closed)
    (hopen : s.lastOpen h.session = true) : Inv (s.register i h) := by
  have heq := register_eq hs.single i h
  set t := s.register i h with ht
  have hlast : ∀ k, t.lastCall k = s.lastCall k := lastCall_congr (by rw [heq])
  have hcalls : ∀ j : ℕ, t.calls[j]? = if j = i then some ⟨h.session, true, false⟩
      else s.calls[j]? := by
    intro j
    have hset : t.calls = s.calls.set i ⟨h.session, true, false⟩ := by
      rw [heq]
      simp [State.calls, List.map_set, Handler.call, Handler.granted]
    rw [hset, getElem?_set_call hi]
  have hother : ∀ k, k ≠ h.session → ∀ j, s.lastCall k = some j → t.calls[j]? = s.calls[j]? := by
    intro k hne j hj
    rw [hcalls, if_neg]
    rintro rfl
    exact hs.ne_of_session hi hne hj
  refine ⟨hs.single.register i h, fun k j hj => ?_,
    fun k hk => ⟨by rw [heq]; exact hsocket, ?_⟩, fun k _ hk => ?_⟩
  · rw [hlast] at hj
    obtain ⟨c, hc, hck⟩ := hs.lastCall k j hj
    rw [hcalls]
    split
    · next hji =>
      subst hji
      rw [getElem?_calls hi] at hc
      cases hc
      exact ⟨_, rfl, hck⟩
    · exact ⟨c, hc, hck⟩
  · rw [lastOpen_iff]
    by_cases hkh : k = h.session
    · subst hkh
      obtain ⟨j, c, hj, hc, hdenied⟩ := lastOpen_iff.mp hopen
      by_cases hji : j = i
      · exact ⟨j, _, by rw [hlast, hj], by rw [hcalls, if_pos hji], rfl⟩
      · exact ⟨j, c, by rw [hlast, hj], by rw [hcalls, if_neg hji, hc], hdenied⟩
    · rw [heq] at hk
      dsimp only at hk
      rw [Function.update_of_ne hkh] at hk
      obtain ⟨j, c, hj, hc, hdenied⟩ := lastOpen_iff.mp (hs.stands k hk).2
      exact ⟨j, c, by rw [hlast, hj], by rw [hother k hkh j hj, hc], hdenied⟩
  · rw [heq]
    dsimp only
    by_cases hkh : k = h.session
    · subst hkh
      simp
    · obtain ⟨j, c, hj, hc, hgranted⟩ := lastGranted_iff.mp hk
      rw [hlast] at hj
      rw [hother k hkh j hj] at hc
      rw [Function.update_of_ne hkh]
      exact hs.granted k hsocket (lastGranted_iff.mpr ⟨j, c, hj, hc, hgranted⟩)

theorem Inv.deny (hs : Inv s) (hi : s.handlers[i]? = some h)
    (hlone : s.lastCall h.session = some i → s.subscriptions h.session = none) :
    Inv (s.setHandler i { h with stage := .denied }) := by
  set t := s.setHandler i { h with stage := .denied } with ht
  have hcalls : ∀ j : ℕ, t.calls[j]? = if j = i then some ⟨h.session, false, true⟩
      else s.calls[j]? := by
    intro j
    rw [ht, calls_setHandler, getElem?_set_call hi]
    simp [Handler.call, Handler.granted]
  refine ⟨hs.single, fun k j hj => ?_, fun k hk => ?_, fun k hopen hk => ?_⟩
  · obtain ⟨c, hc, hck⟩ := hs.lastCall k j hj
    rw [hcalls]
    split
    · next hji =>
      subst hji
      rw [getElem?_calls hi] at hc
      cases hc
      exact ⟨_, rfl, hck⟩
    · exact ⟨c, hc, hck⟩
  · obtain ⟨hopen, hstands⟩ := hs.stands k hk
    refine ⟨hopen, ?_⟩
    obtain ⟨j, c, hj, hc, hdenied⟩ := lastOpen_iff.mp hstands
    refine lastOpen_iff.mpr ⟨j, c, hj, ?_, hdenied⟩
    rw [hcalls, if_neg, hc]
    rintro rfl
    have hkh : k = h.session := by
      by_contra hne
      exact hs.ne_of_session hi hne hj
    subst hkh
    have hnone : s.subscriptions h.session = none := hlone hj
    have hsome : (s.subscriptions h.session).isSome := hk
    rw [hnone] at hsome
    cases hsome
  · obtain ⟨j, c, hj, hc, hgranted⟩ := lastGranted_iff.mp hk
    rw [hcalls] at hc
    split at hc
    · cases hc
      cases hgranted
    · exact hs.granted k hopen (lastGranted_iff.mpr ⟨j, c, hj, hc, hgranted⟩)

theorem Inv.closed (hs : Inv s) : Inv s.closed where
  single := hs.single.closed
  lastCall := hs.lastCall
  stands _ hk := by cases hk
  granted _ hsocket _ := (hsocket rfl).elim

/-- A check passes only while the socket is open and the last frame of its session stands, and
throws for the last frame only while no listener of the session is registered. -/
def InTime (s : State K Event) : Action K Event → Prop
  | .grant i => ∀ h ∈ s.handlers[i]?, s.socket ≠ .closed ∧ s.lastOpen h.session = true
  | .deny i _ => ∀ h ∈ s.handlers[i]?,
      s.lastCall h.session = some i → s.subscriptions h.session = none
  | _ => True

instance (s : State K Event) : (a : Action K Event) → Decidable (InTime s a)
  | .grant i => inferInstanceAs (Decidable (∀ h ∈ s.handlers[i]?,
      s.socket ≠ .closed ∧ s.lastOpen h.session = true))
  | .deny i _ => inferInstanceAs (Decidable (∀ h ∈ s.handlers[i]?,
      s.lastCall h.session = some i → s.subscriptions h.session = none))
  | .receive _ | .page _ _ | .fail _ _ | .publish _ _ | .terminate | .close =>
    inferInstanceAs (Decidable True)

theorem inv_step {a : Action K Event} (hs : Inv s) (hallowed : InTime s a)
    (hstep : step s a = some t) : Inv t := by
  cases a with
  | receive frame =>
    simp only [step] at hstep
    split at hstep
    · cases hstep
    next hsocket =>
    cases frame with
    | subscribe id session after =>
      cases hstep
      exact hs.subscribe hsocket id session after
    | unsubscribe id session =>
      cases hstep
      exact hs.unsubscribe id session
  | grant i =>
    simp only [step] at hstep
    split at hstep
    · cases hstep
    next h hi =>
    split at hstep
    · cases hstep
      obtain ⟨hsocket, hopen⟩ := hallowed h hi
      exact hs.register hi hsocket hopen
    · cases hstep
  | deny i error =>
    simp only [step] at hstep
    split at hstep
    · cases hstep
    next h hi =>
    split at hstep
    · cases hstep
      exact (hs.deny hi (hallowed h hi)).quiet (quiet_sendErrorReply _ _ _)
    · cases hstep
  | page i rows =>
    simp only [step] at hstep
    split at hstep
    · cases hstep
    next h hi =>
    split at hstep
    · next cursor hstage =>
      cases hstep
      exact hs.quiet (quiet_resume hi hstage rows)
    · cases hstep
  | fail i error =>
    simp only [step] at hstep
    split at hstep
    · cases hstep
    next h hi =>
    split at hstep
    · next cursor hstage =>
      cases hstep
      have hset := quiet_setHandler { h with stage := .broken } hi
        (by simp [Handler.call, Handler.granted, hstage])
      exact hs.quiet (hset.trans (quiet_sendErrorReply _ _ _))
    · cases hstep
  | publish session event =>
    cases hstep
    exact hs.quiet (quiet_publish s session event)
  | terminate =>
    simp only [step] at hstep
    split at hstep
    · next hopen =>
      cases hstep
      exact hs.quiet ⟨by simp [hopen], rfl, rfl, rfl, rfl⟩
    · cases hstep
  | close =>
    simp only [step] at hstep
    split at hstep
    · cases hstep
    · cases hstep
      exact hs.closed

theorem Inv.length_listeners (hs : Inv s) (hfinished : s.Finished) (k : K) :
    (s.listeners k).length = if s.socket = .open ∧ s.lastGranted k = true then 1 else 0 := by
  rw [hs.single, Option.length_toList]
  have hregistered : (s.subscriptions k).isSome = true ↔
      s.socket = .open ∧ s.lastGranted k = true := by
    constructor
    · intro hk
      obtain ⟨hsocket, hstands⟩ := hs.stands k hk
      refine ⟨?_, ?_⟩
      · cases hsock : s.socket with
        | «open» => rfl
        | closing => exact absurd hsock hfinished.1
        | closed => exact absurd hsock hsocket
      · obtain ⟨i, c, hi, hc, hdenied⟩ := lastOpen_iff.mp hstands
        refine lastGranted_iff.mpr ⟨i, c, hi, hc, ?_⟩
        obtain ⟨h, hh, rfl⟩ := List.mem_map.mp (List.mem_of_getElem? hc)
        have hdone := hfinished.2 h hh
        revert hdone hdenied
        cases hstage : h.stage <;> simp [Handler.finished, Handler.call, Handler.granted, hstage]
    · rintro ⟨hsocket, hgranted⟩
      exact hs.granted k (by simp [hsocket]) hgranted
  by_cases hk : (s.subscriptions k).isSome = true
  · rw [if_pos (hregistered.mp hk)]
    simp [hk]
  · rw [if_neg fun h => hk (hregistered.mpr h)]
    simp [hk]

end Portuni.Subscriptions
