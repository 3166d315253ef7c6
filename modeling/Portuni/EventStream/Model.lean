import Portuni.Library.SortedByKey

/-!
The event log of one session, the server's end of the live channel with its subscriptions,
the frames in flight, and the client with the chat that shows the events.
-/

namespace Portuni.EventStream

open Library.SortedByKey

universe u

variable {Event : Type u}

structure ChatEvent (Event : Type u) where
  seq : ℕ
  event : Event
deriving DecidableEq

def insertManyBySeq (list items : List (ChatEvent Event)) : List (ChatEvent Event) :=
  if items = [] then list else insertMany ChatEvent.seq list items

/-- The rows of `session_events`, numbered from 1 in the order of their insertion. -/
def numbered (log : List Event) : List (ChatEvent Event) :=
  (log.zipIdx 1).map fun p => ⟨p.2, p.1⟩

def listEvents (log : List Event) (after : Option ℕ) (limit : ℕ) : List (ChatEvent Event) :=
  ((numbered log).filter fun e => after.all (· < e.seq)).take limit

def replayPageSize : ℕ := 200

inductive Stage (Event : Type u) where
  | access
  | reading (cursor : Option ℕ)
  | page (cursor : Option ℕ) (events : List (ChatEvent Event))
  /-- The replay is through and the request answered: events are sent as they come. -/
  | live
  /-- Answered with an error, before or behind the registration of the listener. -/
  | refused
  | broken

/-- A `subscribe` frame that the server has received. `view` is the chat it was sent for,
which the server does not see. -/
structure Subscription (Event : Type u) where
  id : ℕ
  view : ℕ
  after : Option ℕ
  stage : Stage Event := .access
  buffer : List (ChatEvent Event) := []

inductive ClientFrame where
  | subscribe (id view : ℕ) (after : Option ℕ)
  | unsubscribe

/-- A live `event` frame is an `events` frame of one. -/
inductive ServerFrame (Event : Type u) where
  | events (batch : List (ChatEvent Event))
  | reply (id : ℕ)
  | error (id : ℕ)

/-- A mounted chat: the `after` of its first subscribe, and its event list. -/
structure View (Event : Type u) where
  number : ℕ
  base : ℕ
  events : List (ChatEvent Event) := []

structure Channel (Event : Type u) where
  log : List Event := []
  unpublished : List (List (ChatEvent Event)) := []
  subscriptions : List (Subscription Event) := []
  current : Option ℕ := none
  toServer : List ClientFrame := []
  toClient : List (ServerFrame Event) := []
  isOpen : Bool := false
  queued : ℕ := 0
  lastSeq : Option ℕ := none
  parked : Option (Option ℕ) := none
  pendingReplies : List ℕ := []
  nextId : ℕ := 0
  viewNumber : ℕ := 0
  view : Option (View Event) := none

inductive Action (Event : Type u) where
  /-- The two steps of `appendAndPublish`. -/
  | append (events : List Event)
  | publish (k : ℕ)
  | receive
  /-- The access check of a subscription passes; a page is read; the replay goes on with it. -/
  | start (h : ℕ)
  | read (h : ℕ)
  | resume (h : ℕ)
  /-- The access check or the read of a page throws. -/
  | fail (h : ℕ)
  | subscribe (afterSeq : Option ℕ)
  | unsubscribe
  | opened
  | drop
  | deliver
  | timeout (id : ℕ)

def Stage.isLive : Stage Event → Bool
  | .live => true
  | _ => false

def lastReplayedSeq (cursor : Option ℕ) (page : List (ChatEvent Event)) : ℕ :=
  (page.getLast?.map ChatEvent.seq).getD (cursor.getD 0)

def eventsFrame (batch : List (ChatEvent Event)) : List (ServerFrame Event) :=
  if batch = [] then [] else [.events batch]

namespace Channel

variable (s : Channel Event)

/-- The listener of `handleSubscribe`: sent at once, or buffered during the replay. -/
def publishOne (e : ChatEvent Event) : Channel Event :=
  match s.current with
  | none => s
  | some h =>
    match s.subscriptions[h]? with
    | none => s
    | some sub =>
      if sub.stage.isLive then { s with toClient := s.toClient ++ [.events [e]] }
      else { s with
        subscriptions := s.subscriptions.set h { sub with buffer := sub.buffer ++ [e] } }

/-- `onConnectionLost`: what was in flight is gone, and a subscribe that was not answered
waits for the next open. -/
def lost : Channel Event :=
  { s with
    isOpen := false
    subscriptions := []
    current := none
    toServer := []
    toClient := []
    pendingReplies := []
    parked :=
      if s.view.isSome && s.pendingReplies ≠ [] then some (s.parked.getD s.lastSeq)
      else s.parked }

def resumeAfter : Option ℕ := s.lastSeq.or (s.parked.getD none)

/-- The queued frames are flushed, then `onConnectionOpened` subscribes. -/
def connected : Channel Event :=
  match s.view with
  | none =>
    { s with
      isOpen := true
      toServer := List.replicate s.queued .unsubscribe
      queued := 0 }
  | some view =>
    { s with
      isOpen := true
      toServer := List.replicate s.queued .unsubscribe ++
        [.subscribe s.nextId view.number s.resumeAfter]
      queued := 0
      parked := none
      pendingReplies := s.pendingReplies ++ [s.nextId]
      nextId := s.nextId + 1 }

def subscribeAfter (afterSeq : Option ℕ) : Option ℕ := afterSeq.or s.lastSeq

def mounted (afterSeq : Option ℕ) : View Event :=
  s.view.getD { number := s.viewNumber, base := (s.subscribeAfter afterSeq).getD 0 }

def subscribe (afterSeq : Option ℕ) : Channel Event :=
  if s.isOpen then
    { s with
      view := some (s.mounted afterSeq)
      toServer := s.toServer ++
        [.subscribe s.nextId (s.mounted afterSeq).number (s.subscribeAfter afterSeq)]
      pendingReplies := s.pendingReplies ++ [s.nextId]
      nextId := s.nextId + 1 }
  else
    { s with
      view := some (s.mounted afterSeq)
      parked := some (s.parked.getD (s.subscribeAfter afterSeq)) }

def unsubscribe : Channel Event :=
  { s with
    view := none
    viewNumber := s.viewNumber + 1
    lastSeq := none
    parked := none
    toServer := if s.isOpen then s.toServer ++ [.unsubscribe] else s.toServer
    queued := if s.isOpen then s.queued else s.queued + 1 }

def onFrame : ServerFrame Event → Channel Event
  | .events batch =>
    match batch.getLast? with
    | none => s
    | some last =>
      { s with
        lastSeq := some last.seq
        view := s.view.map fun view =>
          { view with events := insertManyBySeq view.events batch } }
  | .reply id | .error id => { s with pendingReplies := s.pendingReplies.erase id }

/-- The rest of the replay behind a page, and the buffered events behind the last one. -/
def resumed (h : ℕ) (sub : Subscription Event) (cursor : Option ℕ)
    (page : List (ChatEvent Event)) : Channel Event :=
  if page.length < replayPageSize then
    { s with
      toClient := s.toClient ++ eventsFrame page ++
        ((sub.buffer.filter fun e => lastReplayedSeq cursor page < e.seq).map
          fun e => .events [e]) ++ [.reply sub.id]
      subscriptions := s.subscriptions.set h { sub with stage := .live, buffer := [] } }
  else
    { s with
      toClient := s.toClient ++ eventsFrame page
      subscriptions :=
        s.subscriptions.set h { sub with stage := .reading (some (lastReplayedSeq cursor page)) } }

end Channel

def step (s : Channel Event) : Action Event → Option (Channel Event)
  | .append events =>
    some { s with
      log := s.log ++ events
      unpublished := s.unpublished ++ [(numbered (s.log ++ events)).drop s.log.length] }
  | .publish k =>
    match s.unpublished[k]? with
    | none => none
    | some events =>
      some (events.foldl Channel.publishOne { s with unpublished := s.unpublished.eraseIdx k })
  | .receive =>
    match s.toServer with
    | [] => none
    | .subscribe id view after :: rest =>
      some { s with
        toServer := rest
        subscriptions := s.subscriptions ++ [{ id := id, view := view, after := after }] }
    | .unsubscribe :: rest => some { s with toServer := rest, current := none }
  | .start h =>
    match s.subscriptions[h]? with
    | none => none
    | some sub =>
      match sub.stage with
      | .access =>
        some { s with
          current := some h
          subscriptions := s.subscriptions.set h { sub with stage := .reading sub.after } }
      | _ => none
  | .read h =>
    match s.subscriptions[h]? with
    | none => none
    | some sub =>
      match sub.stage with
      | .reading cursor =>
        some { s with
          subscriptions := s.subscriptions.set h
            { sub with stage := .page cursor (listEvents s.log cursor replayPageSize) } }
      | _ => none
  | .resume h =>
    match s.subscriptions[h]? with
    | none => none
    | some sub =>
      match sub.stage with
      | .page cursor page => some (s.resumed h sub cursor page)
      | _ => none
  | .fail h =>
    match s.subscriptions[h]? with
    | none => none
    | some sub =>
      match sub.stage with
      | .access =>
        some { s with
          toClient := s.toClient ++ [.error sub.id]
          subscriptions := s.subscriptions.set h { sub with stage := .refused } }
      | .reading _ =>
        some { s with
          toClient := s.toClient ++ [.error sub.id]
          subscriptions := s.subscriptions.set h { sub with stage := .broken } }
      | _ => none
  | .subscribe afterSeq => some (s.subscribe afterSeq)
  | .unsubscribe => some s.unsubscribe
  | .opened => some (if s.isOpen then s.lost.connected else s.connected)
  | .drop => if s.isOpen then some s.lost else none
  | .deliver =>
    match s.toClient with
    | [] => none
    | frame :: rest => some ({ s with toClient := rest }.onFrame frame)
  | .timeout id => some { s with pendingReplies := s.pendingReplies.erase id }

variable {Event : Type u} {log : List Event} {e : ChatEvent Event} {cursor : Option ℕ}
  {limit n : ℕ}

theorem getElem?_numbered (log : List Event) (i : ℕ) :
    (numbered log)[i]? = log[i]?.map fun event => ⟨i + 1, event⟩ := by
  simp only [numbered, List.getElem?_map, List.getElem?_zipIdx, Option.map_map]
  cases log[i]? with
  | none => rfl
  | some event => simp [Nat.add_comm]

theorem mem_numbered : e ∈ numbered log ↔ ∃ i, e.seq = i + 1 ∧ log[i]? = some e.event := by
  rw [List.mem_iff_getElem?]
  refine exists_congr fun i => ?_
  rw [getElem?_numbered, Option.map_eq_some_iff]
  constructor
  · rintro ⟨event, hevent, rfl⟩
    exact ⟨rfl, hevent⟩
  · rintro ⟨hseq, hevent⟩
    exact ⟨e.event, hevent, by rw [← hseq]⟩

theorem sorted_numbered (log : List Event) : Sorted ChatEvent.seq (numbered log) := by
  refine List.pairwise_iff_getElem.mpr ?_
  intro i j hi hj hij
  have seq_eq : ∀ k (hk : k < (numbered log).length), (numbered log)[k].seq = k + 1 := by
    intro k hk
    have hget := getElem?_numbered log k
    rw [List.getElem?_eq_getElem hk] at hget
    obtain ⟨event, -, heq⟩ := Option.map_eq_some_iff.mp hget.symm
    rw [← heq]
  rw [seq_eq i hi, seq_eq j hj]
  omega

theorem numbered_append (log events : List Event) :
    numbered (log ++ events) = numbered log ++ (numbered (log ++ events)).drop log.length := by
  have htake : (numbered (log ++ events)).take log.length = numbered log := by
    simp [numbered, List.zipIdx_append]
  conv_lhs => rw [← List.take_append_drop log.length (numbered (log ++ events)), htake]

theorem numbered_subset (log events : List Event) : numbered log ⊆ numbered (log ++ events) := by
  rw [numbered_append]
  exact List.subset_append_left _ _

theorem exists_numbered (he : e ∈ numbered log) (hn : 0 < n) (hle : n ≤ e.seq) :
    ∃ e' ∈ numbered log, e'.seq = n := by
  obtain ⟨i, hseq, hget⟩ := mem_numbered.mp he
  have hi : i < log.length := by
    by_contra hge
    simp [List.getElem?_eq_none (Nat.le_of_not_lt hge)] at hget
  have hlt : n - 1 < log.length := by omega
  refine ⟨⟨n, log[n - 1]⟩, mem_numbered.mpr ⟨n - 1, ?_, ?_⟩, rfl⟩
  · dsimp only
    omega
  · exact List.getElem?_eq_getElem hlt

theorem mem_listEvents (he : e ∈ listEvents log cursor limit) :
    e ∈ numbered log ∧ cursor.getD 0 < e.seq := by
  have hfilter := List.mem_of_mem_take he
  obtain ⟨hlog, hafter⟩ := List.mem_filter.mp hfilter
  refine ⟨hlog, ?_⟩
  cases cursor with
  | none =>
    obtain ⟨i, hseq, -⟩ := mem_numbered.mp hlog
    rw [hseq]
    exact Nat.succ_pos i
  | some after => simpa using hafter

theorem mem_filter_after (he : e ∈ numbered log) (hcursor : cursor.getD 0 < e.seq) :
    e ∈ (numbered log).filter fun e => cursor.all (· < e.seq) := by
  refine List.mem_filter.mpr ⟨he, ?_⟩
  cases cursor with
  | none => rfl
  | some after => simpa using hcursor

theorem mem_listEvents_of_short (hshort : (listEvents log cursor limit).length < limit)
    (he : e ∈ numbered log) (hcursor : cursor.getD 0 < e.seq) :
    e ∈ listEvents log cursor limit := by
  unfold listEvents at hshort ⊢
  rw [List.length_take] at hshort
  rw [List.take_of_length_le (by omega)]
  exact mem_filter_after he hcursor

/-- The page holds every seq between the cursor and the one it ends at. -/
def PageClosed (cursor : Option ℕ) (page : List (ChatEvent Event)) : Prop :=
  ∀ n, cursor.getD 0 < n → n ≤ lastReplayedSeq cursor page → ∃ e ∈ page, e.seq = n

theorem pageClosed_listEvents (log : List Event) (cursor : Option ℕ) (limit : ℕ) :
    PageClosed cursor (listEvents log cursor limit) := by
  intro n hcursor hle
  unfold lastReplayedSeq at hle
  cases hlast : (listEvents log cursor limit).getLast? with
  | none =>
    simp only [hlast, Option.map_none, Option.getD_none] at hle
    omega
  | some last =>
    simp only [hlast, Option.map_some, Option.getD_some] at hle
    have hmem : last ∈ listEvents log cursor limit := List.mem_of_getLast? hlast
    obtain ⟨e, he, rfl⟩ := exists_numbered (mem_listEvents hmem).1 (by omega) hle
    have hsorted := (sorted_numbered log).filter fun e => cursor.all (· < e.seq)
    exact ⟨e, Sorted.mem_take hsorted (mem_filter_after he hcursor) hmem hle, rfl⟩

theorem mem_insertManyBySeq {list items : List (ChatEvent Event)}
    (h : Consistent ChatEvent.seq (list ++ items)) :
    e ∈ insertManyBySeq list items ↔ e ∈ list ∨ e ∈ items := by
  unfold insertManyBySeq
  split
  · rename_i hnone
    simp [hnone]
  · exact mem_insertMany_iff h

theorem sorted_insertManyBySeq {list : List (ChatEvent Event)} (h : Sorted ChatEvent.seq list)
    (items : List (ChatEvent Event)) : Sorted ChatEvent.seq (insertManyBySeq list items) := by
  unfold insertManyBySeq
  split
  · exact h
  · exact h.insertMany items

end Portuni.EventStream
