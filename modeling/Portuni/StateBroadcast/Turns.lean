import Portuni.Library.Runs

/-!
The `session_state` broadcasts of one session and the snapshots that connections open with. Every
event of the session starts a broadcast, which reads the row afresh and sends it connection by
connection; the newest broadcast that has its row takes over from the older ones.
-/

namespace Portuni.StateBroadcast

/-- The entry of `broadcastTurns`. -/
structure Turns where
  issued : ℕ := 0
  claimed : ℕ := 0
  inFlight : ℕ := 0

/-- Where a call of `broadcastSessionState` stands. A row is known by the number of events that had
fired when it was read. -/
inductive Stage where
  | reading
  | fetched (row : Option ℕ)
  | checking (row conn : ℕ)
  | returned
deriving DecidableEq

structure Broadcast (U : Type*) where
  record : ℕ
  mine : ℕ
  stage : Stage := .reading
  succeeded : Bool := false
  verdicts : List U := []

def Broadcast.ended {U : Type*} (b : Broadcast U) : Broadcast U := { b with stage := .returned }

/-- Where `sendInitialSnapshot` stands; the session need not be among the rows. -/
inductive Snapshot where
  | reading
  | fetched (row : Option ℕ)
  | finished
deriving DecidableEq

structure Connection (U : Type*) where
  user : U
  /-- The number of events before it opened. -/
  openedAt : ℕ
  isOpen : Bool := true
  snapshot : Snapshot := .reading
  received : List ℕ := []
deriving DecidableEq

structure State (U : Type*) where
  /-- Every connection so far, in the order of the set that the broadcasts walk. -/
  conns : List (Connection U) := []
  /-- Every broadcast so far, one for each event. -/
  broadcasts : List (Broadcast U) := []
  records : List Turns := []
  /-- What `broadcastTurns` maps the session to. -/
  turns : Option ℕ := none

inductive Action (U : Type*) where
  /-- A `state_changed`, `question`, `run_ended` or rename event fires. -/
  | event
  | connect (user : U)
  | disconnect (c : ℕ)
  /-- The read of a connection's snapshot, and what follows it. -/
  | readSnapshot (c : ℕ) (listed : Bool)
  | failSnapshot (c : ℕ)
  | sendSnapshot (c : ℕ)
  /-- The read of a broadcast, and what follows it. -/
  | read (i : ℕ) (found : Bool)
  | failRead (i : ℕ)
  | resume (i : ℕ)
  /-- The verdict that a broadcast awaits comes, or throws. -/
  | check (i : ℕ)
  | failCheck (i : ℕ)

namespace State

variable {U : Type*} (s : State U)

def events : ℕ := s.broadcasts.length

def nextOpen (from_ : ℕ) : Option ℕ :=
  (List.range s.conns.length).find? fun c =>
    decide (from_ ≤ c) && (s.conns[c]?).any Connection.isOpen

def setBroadcast (i : ℕ) (b : Broadcast U) : State U :=
  { s with broadcasts := s.broadcasts.set i b }

def claimed (b : Broadcast U) : ℕ := ((s.records[b.record]?).map Turns.claimed).getD 0

def inFlight (r : ℕ) : ℕ := ((s.records[r]?).map Turns.inFlight).getD 0

def finish (i : ℕ) (b : Broadcast U) : State U :=
  let s := { s.setBroadcast i b.ended with
    records := s.records.modify b.record fun t => { t with inFlight := t.inFlight - 1 } }
  if s.inFlight b.record = 0 ∧ s.turns = some b.record then { s with turns := none } else s

def proceed (i : ℕ) (b : Broadcast U) (row from_ : ℕ) : State U :=
  match s.nextOpen from_ with
  | some c => s.setBroadcast i { b with stage := .checking row c }
  | none => s.finish i b

def send (c row : ℕ) : State U :=
  { s with
    conns := s.conns.modify c fun conn =>
      if conn.isOpen then { conn with received := conn.received ++ [row] } else conn }

def issue : State U :=
  let records := if s.turns = none then s.records ++ [⟨0, 0, 0⟩] else s.records
  let r := s.turns.getD s.records.length
  let mine := ((records[r]?).map Turns.issued).getD 0 + 1
  { s with
    records := records.modify r fun t => { t with issued := mine, inFlight := t.inFlight + 1 }
    turns := some r
    broadcasts := s.broadcasts ++ [{ record := r, mine := mine }] }

def claim (b : Broadcast U) : State U :=
  { s with records := s.records.modify b.record fun t => { t with claimed := b.mine } }

/-- The row is there: the broadcast returns if there is none or a later one has claimed. -/
def resume (i : ℕ) (b : Broadcast U) (row : Option ℕ) : State U :=
  match row with
  | none => s.finish i b
  | some row =>
    let b := { b with succeeded := true }
    if b.mine < s.claimed b then s.finish i b
    else (s.claim b).proceed i b row 0

def checked (permitted : U → Bool) (i : ℕ) (b : Broadcast U) (row c : ℕ) (user : U) : State U :=
  let b := { b with verdicts := b.verdicts ++ [user] }
  if s.claimed b ≠ b.mine then s.finish i b
  else
    let s := if permitted user then s.send c row else s
    s.proceed i b row (c + 1)

end State

variable {U : Type*} [DecidableEq U] (permitted : U → Bool)

def step (s : State U) : Action U → Option (State U)
  | .event => some s.issue
  | .connect user => some { s with conns := s.conns ++ [{ user := user, openedAt := s.events }] }
  | .disconnect c =>
    some { s with conns := s.conns.modify c fun conn => { conn with isOpen := false } }
  | .readSnapshot c listed =>
    match s.conns[c]? with
    | none => none
    | some conn =>
      if conn.snapshot = .reading then
        some { s with
          conns := s.conns.set c { conn with
            snapshot := .fetched (if listed then some s.events else none) } }
      else none
  | .failSnapshot c =>
    match s.conns[c]? with
    | none => none
    | some conn =>
      if conn.snapshot = .finished then none
      else some { s with conns := s.conns.set c { conn with snapshot := .finished } }
  | .sendSnapshot c =>
    match s.conns[c]? with
    | none => none
    | some conn =>
      match conn.snapshot with
      | .fetched row =>
        let s := { s with conns := s.conns.set c { conn with snapshot := .finished } }
        match row with
        | none => some s
        | some row => some (s.send c row)
      | _ => none
  | .read i found =>
    match s.broadcasts[i]? with
    | none => none
    | some b =>
      if b.stage = .reading then
        some (s.setBroadcast i { b with
          stage := .fetched (if found then some s.events else none) })
      else none
  | .failRead i =>
    match s.broadcasts[i]? with
    | none => none
    | some b => if b.stage = .reading then some (s.finish i b) else none
  | .resume i =>
    match s.broadcasts[i]? with
    | none => none
    | some b =>
      match b.stage with
      | .fetched row => some (s.resume i b row)
      | _ => none
  | .check i =>
    match s.broadcasts[i]? with
    | none => none
    | some b =>
      match b.stage with
      | .checking row c =>
        (s.conns[c]?).map fun conn => s.checked permitted i b row c conn.user
      | _ => none
  | .failCheck i =>
    match s.broadcasts[i]? with
    | none => none
    | some b =>
      match b.stage with
      | .checking _ c =>
        match s.conns[c]? with
        | none => none
        -- The verdicts are kept by user, and one that came does not throw.
        | some conn => if conn.user ∈ b.verdicts then none else some (s.finish i b)
      | _ => none

def init : State U := {}

def State.Quiescent (s : State U) : Prop :=
  (∀ b ∈ s.broadcasts, b.stage = .returned) ∧
    ∀ conn ∈ s.conns, conn.isOpen = true → conn.snapshot = .finished

def State.LastReadSucceeded (s : State U) : Prop :=
  ∀ b ∈ s.broadcasts.getLast?, b.succeeded = true

end Portuni.StateBroadcast

namespace Portuni.StateBroadcast

variable {U : Type*}

section

variable {s : State U} {i c p : ℕ} {b b' : Broadcast U} {conn : Connection U}

theorem getLast?_set {α : Type*} (l : List α) {i : ℕ} (hi : i < l.length) (a : α) :
    (l.set i a).getLast? = if i + 1 = l.length then some a else l.getLast? := by
  rw [List.getLast?_eq_getElem?, List.getLast?_eq_getElem?, List.length_set, List.getElem?_set]
  by_cases hlast : i + 1 = l.length
  · rw [if_pos hlast, if_pos (by omega), if_pos (by omega)]
  · rw [if_neg hlast, if_neg (by omega)]

theorem lt_events (hb : s.broadcasts[i]? = some b) : i < s.events :=
  (List.getElem?_eq_some_iff.mp hb).1

theorem getLast?_of_newest (hb : s.broadcasts[i]? = some b) (hi : i + 1 = s.events) :
    s.broadcasts.getLast? = some b := by
  rw [List.getLast?_eq_getElem?, show s.broadcasts.length - 1 = i from by
    unfold State.events at hi
    omega]
  exact hb

theorem events_setBroadcast (s : State U) (i : ℕ) (b : Broadcast U) :
    (s.setBroadcast i b).events = s.events := by
  simp [State.events, State.setBroadcast]

theorem getLast?_setBroadcast (hb : s.broadcasts[i]? = some b) (b' : Broadcast U) :
    (s.setBroadcast i b').broadcasts.getLast? =
      if i + 1 = s.events then some b' else s.broadcasts.getLast? :=
  getLast?_set _ (lt_events hb) _

theorem getElem?_setBroadcast (hb : s.broadcasts[i]? = some b) (b' : Broadcast U) (j : ℕ) :
    (s.setBroadcast i b').broadcasts[j]? = if j = i then some b' else s.broadcasts[j]? := by
  have hi : i < s.broadcasts.length := lt_events hb
  rw [State.setBroadcast, List.getElem?_set]
  by_cases heq : i = j
  · rw [if_pos heq, if_pos hi, if_pos heq.symm]
  · rw [if_neg heq, if_neg (Ne.symm heq)]

theorem nextOpen_eq_some (h : s.nextOpen p = some c) :
    p ≤ c ∧ ∀ d conn, p ≤ d → d < c → s.conns[d]? = some conn → conn.isOpen = false := by
  unfold State.nextOpen at h
  rw [List.find?_range_eq_some] at h
  obtain ⟨hc, -, hnone⟩ := h
  rw [Bool.and_eq_true, decide_eq_true_eq] at hc
  refine ⟨hc.1, fun d conn hpd hdc hconn => ?_⟩
  have hd := hnone d hdc
  simpa [hpd, hconn] using hd

theorem nextOpen_eq_none (h : s.nextOpen p = none) {d : ℕ} (hpd : p ≤ d)
    (hconn : s.conns[d]? = some conn) : conn.isOpen = false := by
  unfold State.nextOpen at h
  rw [List.find?_range_eq_none] at h
  have hd := h d (List.getElem?_eq_some_iff.mp hconn).1
  simpa [hpd, hconn] using hd

end

variable {s : State U} {i r : ℕ} {b newest : Broadcast U} {t : Turns}

def Broadcast.isUnderway (b : Broadcast U) : Bool := b.stage ≠ .returned

/-- The record `r` with the numbers `t` is the one that the broadcasts under way hold. -/
structure Held (s : State U) (r : ℕ) (t : Turns) (newest : Broadcast U) : Prop where
  turns : s.turns = some r
  record : s.records[r]? = some t
  last : s.broadcasts.getLast? = some newest
  holder : ∀ (i : ℕ) b, s.broadcasts[i]? = some b → b.isUnderway = true → b.record = r
  count : t.inFlight = s.broadcasts.countP Broadcast.isUnderway
  mine : newest.mine = t.issued
  older : ∀ (i : ℕ) b, s.broadcasts[i]? = some b → b.isUnderway = true → i + 1 < s.events →
    b.mine < t.issued
  claimed_le : t.claimed ≤ t.issued
  claimed : newest.succeeded = true → t.claimed = t.issued

def Kept (s : State U) : Prop :=
  (s.turns = none ∧ ∀ b ∈ s.broadcasts, b.isUnderway = false) ∨ ∃ r t newest, Held s r t newest

theorem Kept.held (hs : Kept s) (hb : s.broadcasts[i]? = some b) (hunderway : b.isUnderway = true) :
    ∃ r t newest, Held s r t newest := by
  refine hs.resolve_left ?_
  rintro ⟨-, hnone⟩
  rw [hnone b (List.mem_of_getElem? hb)] at hunderway
  cases hunderway

variable (hs : Held s r t newest)

include hs

variable (hb : s.broadcasts[i]? = some b)

include hb

theorem Held.claimed_eq (hunderway : b.isUnderway = true) : s.claimed b = t.claimed := by
  rw [State.claimed, hs.holder i b hb hunderway, hs.record]
  rfl

theorem Held.newest_eq (hi : i + 1 = s.events) : newest = b :=
  Option.some.inj (hs.last.symm.trans (getLast?_of_newest hb hi))

theorem Held.not_succeeded (hunderway : b.isUnderway = true) (hi : i + 1 ≠ s.events)
    (hclaims : ¬b.mine < s.claimed b) : newest.succeeded = false := by
  have holder := hs.older i b hb hunderway (by have := lt_events hb; omega)
  rw [hs.claimed_eq hb hunderway] at hclaims
  rw [← Bool.not_eq_true]
  intro hsucceeded
  have := hs.claimed hsucceeded
  omega

theorem Held.set (hunderway : b.isUnderway = true) (b' : Broadcast U)
    (hunderway' : b'.isUnderway = true) (hrecord : b'.record = b.record) (hmine : b'.mine = b.mine)
    (hclaimed : i + 1 = s.events → b'.succeeded = true → t.claimed = t.issued) :
    ∃ newest', Held (s.setBroadcast i b') r t newest' := by
  have hget := getElem?_setBroadcast hb b'
  refine ⟨if i + 1 = s.events then b' else newest, hs.turns, hs.record, ?_, ?_, ?_, ?_, ?_,
    hs.claimed_le, ?_⟩
  · rw [getLast?_setBroadcast hb, hs.last]
    split <;> rfl
  · intro j b₁ hj hj'
    rw [hget] at hj
    split at hj
    · cases hj
      rw [hrecord]
      exact hs.holder i b hb hunderway
    · exact hs.holder j b₁ hj hj'
  · have hlt : i < s.broadcasts.length := lt_events hb
    have hsame : s.broadcasts[i] = b := (List.getElem?_eq_some_iff.mp hb).2
    have hpos : 0 < s.broadcasts.countP Broadcast.isUnderway :=
      List.countP_pos_iff.mpr ⟨b, List.mem_of_getElem? hb, hunderway⟩
    rw [State.setBroadcast, List.countP_set hlt, hsame, if_pos hunderway, if_pos hunderway',
      hs.count]
    omega
  · split
    · next hi => rw [hmine, ← hs.newest_eq hb hi, hs.mine]
    · exact hs.mine
  · intro j b₁ hj hj' hlt
    rw [events_setBroadcast] at hlt
    rw [hget] at hj
    split at hj
    · next hji =>
      subst hji
      cases hj
      rw [hmine]
      exact hs.older j b hb hunderway hlt
    · exact hs.older j b₁ hj hj' hlt
  · split
    · next hi => exact hclaimed hi
    · exact hs.claimed

omit hb

omit hs

theorem finish_setBroadcast (s : State U) (i : ℕ) (b b' : Broadcast U) :
    (s.setBroadcast i b').finish i b = s.finish i b := by
  have hset : ∀ b₁, (s.setBroadcast i b').setBroadcast i b₁ = s.setBroadcast i b₁ := by
    simp [State.setBroadcast]
  unfold State.finish
  rw [hset]
  rfl

theorem Kept.finish (hs : Held s r t newest) (hb : s.broadcasts[i]? = some b)
    (hunderway : b.isUnderway = true) : Kept (s.finish i b) := by
  have hrecord := hs.holder i b hb hunderway
  have hlt : i < s.broadcasts.length := lt_events hb
  have hsame : s.broadcasts[i] = b := (List.getElem?_eq_some_iff.mp hb).2
  have hover : b.ended.isUnderway = false := by simp [Broadcast.ended, Broadcast.isUnderway]
  have hcount : (s.broadcasts.set i b.ended).countP Broadcast.isUnderway = t.inFlight - 1 := by
    rw [List.countP_set hlt, hsame, if_pos hunderway, hover, hs.count]
    simp
  have hrecords : (s.records.modify r fun t => { t with inFlight := t.inFlight - 1 })[r]? =
      some { t with inFlight := t.inFlight - 1 } := by
    rw [List.getElem?_modify_eq, hs.record]
    rfl
  have hget := getElem?_setBroadcast hb b.ended
  unfold State.finish
  dsimp only
  have hflight : State.inFlight { s.setBroadcast i b.ended with
      records := s.records.modify b.record fun t => { t with inFlight := t.inFlight - 1 } }
      b.record = t.inFlight - 1 := by
    simp only [State.inFlight, hrecord, hrecords]
    rfl
  split
  · next hzero =>
    rw [hflight] at hzero
    left
    refine ⟨rfl, fun b₁ hb₁ => ?_⟩
    rw [hzero.1, List.countP_eq_zero] at hcount
    simpa using hcount b₁ hb₁
  · right
    refine ⟨r, { t with inFlight := t.inFlight - 1 },
      if i + 1 = s.events then b.ended else newest, hs.turns, ?_, ?_, ?_, ?_, ?_, ?_,
      hs.claimed_le, ?_⟩
    · dsimp only
      rw [hrecord]
      exact hrecords
    · refine (getLast?_setBroadcast hb b.ended).trans ?_
      rw [hs.last]
      split <;> rfl
    · intro j b₁ hj hj'
      have hj := (hget j).symm.trans hj
      split at hj
      · cases hj
        rw [hover] at hj'
        cases hj'
      · exact hs.holder j b₁ hj hj'
    · exact hcount.symm
    · split
      · next hi => exact (congrArg Broadcast.mine (hs.newest_eq hb hi)).symm.trans hs.mine
      · exact hs.mine
    · intro j b₁ hj hj' hlt'
      have hj := (hget j).symm.trans hj
      split at hj
      · cases hj
        rw [hover] at hj'
        cases hj'
      · refine hs.older j b₁ hj hj' ?_
        simpa [State.events, State.setBroadcast] using hlt'
    · split
      · next hi =>
        intro hsucceeded
        refine hs.claimed ?_
        rw [hs.newest_eq hb hi]
        exact hsucceeded
      · exact hs.claimed

theorem Held.congr {s' : State U} (hs : Held s r t newest) (hturns : s'.turns = s.turns)
    (hrecords : s'.records = s.records) (hbroadcasts : s'.broadcasts = s.broadcasts) :
    Held s' r t newest := by
  have hevents : s'.events = s.events := congrArg List.length hbroadcasts
  exact ⟨hturns.trans hs.turns, hrecords ▸ hs.record, hbroadcasts ▸ hs.last,
    hbroadcasts ▸ hs.holder, hbroadcasts ▸ hs.count, hs.mine, hevents ▸ hbroadcasts ▸ hs.older,
    hs.claimed_le, hs.claimed⟩

theorem Kept.congr {s' : State U} (hs : Kept s) (hturns : s'.turns = s.turns)
    (hrecords : s'.records = s.records) (hbroadcasts : s'.broadcasts = s.broadcasts) :
    Kept s' := by
  rcases hs with ⟨hnone, hidle⟩ | ⟨r, t, newest, hs⟩
  · exact .inl ⟨hturns.trans hnone, hbroadcasts ▸ hidle⟩
  · exact .inr ⟨r, t, newest, hs.congr hturns hrecords hbroadcasts⟩

theorem Held.claim (hs : Held s r t newest) (hb : s.broadcasts[i]? = some b)
    (hunderway : b.isUnderway = true) (hclaims : ¬b.mine < s.claimed b)
    (hfirst : i + 1 = s.events → b.succeeded = false) :
    Held (s.claim b) r { t with claimed := b.mine } newest := by
  have hmine : b.mine ≤ t.issued := by
    by_cases hi : i + 1 = s.events
    · have hmine := hs.mine
      rw [hs.newest_eq hb hi] at hmine
      exact Nat.le_of_eq hmine
    · exact Nat.le_of_lt (hs.older i b hb hunderway (by have := lt_events hb; omega))
  refine ⟨hs.turns, ?_, hs.last, hs.holder, hs.count, hs.mine, hs.older, hmine, fun h => ?_⟩
  · rw [State.claim, hs.holder i b hb hunderway, List.getElem?_modify_eq, hs.record]
    rfl
  · by_cases hi : i + 1 = s.events
    · rw [hs.newest_eq hb hi, hfirst hi] at h
      cases h
    · rw [hs.not_succeeded hb hunderway hi hclaims] at h
      cases h

theorem getElem?_concat {α : Type*} (l : List α) (a : α) (j : ℕ) :
    (l ++ [a])[j]? = if j = l.length then some a else l[j]? := by
  rw [List.getElem?_append]
  by_cases hlt : j < l.length
  · rw [if_pos hlt, if_neg (by omega)]
  · rw [if_neg hlt]
    by_cases heq : j = l.length
    · simp [heq]
    · rw [if_neg heq, List.getElem?_eq_none (by simp; omega), List.getElem?_eq_none (by omega)]

theorem modify_concat {α : Type*} (l : List α) (a : α) (f : α → α) :
    (l ++ [a]).modify l.length f = l ++ [f a] := by
  induction l with
  | nil => rfl
  | cons x l ih => simp [ih]

theorem events_issue (s : State U) : s.issue.events = s.events + 1 := by
  simp [State.issue, State.events]

theorem Kept.issue (hs : Kept s) : Kept s.issue := by
  right
  rcases hs with ⟨hnone, hidle⟩ | ⟨r, t, newest, hs⟩
  · have hissue : s.issue = { s with
        records := s.records ++ [⟨1, 0, 1⟩]
        turns := some s.records.length
        broadcasts := s.broadcasts ++ [{ record := s.records.length, mine := 1 }] } := by
      simp [State.issue, hnone, modify_concat]
    have hold : ∀ (j : ℕ) b, s.issue.broadcasts[j]? = some b → b.isUnderway = true →
        j = s.events ∧ b = { record := s.records.length, mine := 1 } := by
      intro j b hj hunderway
      rw [hissue, getElem?_concat] at hj
      split at hj
      · next heq => exact ⟨heq, (Option.some.inj hj).symm⟩
      · rw [hidle b (List.mem_of_getElem? hj)] at hunderway
        cases hunderway
    refine ⟨s.records.length, ⟨1, 0, 1⟩, { record := s.records.length, mine := 1 }, ?_, ?_, ?_,
      fun j b hj hunderway => ?_, ?_, rfl, fun j b hj hunderway hlt => ?_, Nat.zero_le _, ?_⟩
    · rw [hissue]
    · rw [hissue]
      simp
    · rw [hissue]
      simp
    · rw [(hold j b hj hunderway).2]
    · have hzero : s.broadcasts.countP Broadcast.isUnderway = 0 := by
        rw [List.countP_eq_zero]
        intro b hb
        simp [hidle b hb]
      rw [hissue]
      simp [List.countP_append, hzero, Broadcast.isUnderway]
    · rw [(hold j b hj hunderway).1, events_issue] at hlt
      omega
    · intro h
      cases h
  · have hissue : s.issue = { s with
        records := s.records.modify r fun t' =>
          { t' with issued := t.issued + 1, inFlight := t'.inFlight + 1 }
        turns := some r
        broadcasts := s.broadcasts ++ [{ record := r, mine := t.issued + 1 }] } := by
      simp [State.issue, hs.turns, hs.record]
    have hnew : ∀ (j : ℕ) b, s.issue.broadcasts[j]? = some b →
        (j = s.events ∧ b = { record := r, mine := t.issued + 1 }) ∨ s.broadcasts[j]? = some b := by
      intro j b hj
      rw [hissue, getElem?_concat] at hj
      split at hj
      · next heq => exact .inl ⟨heq, (Option.some.inj hj).symm⟩
      · exact .inr hj
    refine ⟨r, { t with issued := t.issued + 1, inFlight := t.inFlight + 1 },
      { record := r, mine := t.issued + 1 }, ?_, ?_, ?_, fun j b hj hunderway => ?_, ?_, rfl,
      fun j b hj hunderway hlt => ?_, Nat.le_succ_of_le hs.claimed_le, ?_⟩
    · rw [hissue]
    · rw [hissue]
      simp [hs.record]
    · rw [hissue]
      simp
    · rcases hnew j b hj with ⟨-, rfl⟩ | hj
      · rfl
      · exact hs.holder j b hj hunderway
    · rw [hissue]
      simp [List.countP_append, hs.count, Broadcast.isUnderway]
    · rcases hnew j b hj with ⟨rfl, -⟩ | hj
      · rw [events_issue] at hlt
        omega
      · dsimp only
        by_cases hnewest : j + 1 = s.events
        · rw [← hs.newest_eq hj hnewest, hs.mine]
          omega
        · have := lt_events hj
          have := hs.older j b hj hunderway (by omega)
          omega
    · intro h
      cases h

end Portuni.StateBroadcast
