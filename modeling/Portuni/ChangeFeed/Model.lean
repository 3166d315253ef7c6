import Portuni.Library.LogReader

namespace Portuni.ChangeFeed

/-!
The change feed of a server process, the reads of it that wait for the next change, and the poller
that repeats them over a channel that may lose an answer.
-/

section

open Library.LogReader

inductive NodeChangeKind where
  | node
  | files
deriving DecidableEq

structure NodeChangeEvent where
  seq : ℕ
  nodeId : String
  kind : NodeChangeKind
  publishedAt : ℕ
deriving DecidableEq

/-- A cursor is the text `instance:n`, which its readers do not look into. -/
structure Cursor where
  instanceId : String
  seq : ℕ

structure ChangesSince where
  cursor : Cursor
  reset : Bool
  changes : List NodeChangeEvent

def changeFeedRing : ℕ := 2000

structure Feed where
  instanceId : String
  seq : ℕ := 0
  ring : List NodeChangeEvent := []

section

variable (feed : Feed)

def Feed.cursorOf (n : ℕ) : Cursor := ⟨feed.instanceId, n⟩

def Feed.parseCursor (cursor : Option Cursor) : Option ℕ :=
  (cursor.filter (·.instanceId = feed.instanceId)).map (·.seq)

def Feed.nextChange (nodeId : String) (kind : NodeChangeKind) (now : ℕ) : NodeChangeEvent :=
  ⟨feed.seq + 1, nodeId, kind, now⟩

def pushed (ring : List NodeChangeEvent) (change : NodeChangeEvent) : List NodeChangeEvent :=
  (ring ++ [change]).drop ((ring ++ [change]).length - changeFeedRing)

def Feed.publishNodeChange (nodeId : String) (kind : NodeChangeKind) (now : ℕ) : Feed :=
  { feed with
    seq := feed.seq + 1
    ring := pushed feed.ring (feed.nextChange nodeId kind now) }

def Feed.oldest : ℕ := feed.ring.head?.elim (feed.seq + 1) (·.seq)

def Feed.changesAfter (after max : ℕ) : List NodeChangeEvent :=
  (feed.ring.filter fun c => after < c.seq).take max

def Feed.changesSince (cursor : Option Cursor) (max : ℕ) : ChangesSince :=
  match feed.parseCursor cursor with
  | none => ⟨feed.cursorOf feed.seq, true, []⟩
  | some after =>
    if (after < feed.oldest - 1 ∧ feed.ring ≠ []) ∨ (feed.ring = [] ∧ after < feed.seq) then
      ⟨feed.cursorOf feed.seq, true, []⟩
    else
      let changes := feed.changesAfter after max
      let last := changes.getLast?.elim after (·.seq)
      ⟨feed.cursorOf (Nat.max last after), false, changes⟩

/-- What a wait answers at once; `none` when it registers a waiter. -/
def Feed.waitForChanges (cursor : Option Cursor) (aborted : Bool) : Option Bool :=
  match feed.parseCursor cursor with
  | none => some true
  | some after => if after < feed.seq then some true else if aborted then some false else none

end

inductive Phase where
  | fetching
  | sleeping
deriving DecidableEq

structure Poller where
  cursor : Option Cursor := none
  stopped : Bool := false
  running : Option Phase := none

def Poller.loop (poller : Poller) : Poller :=
  { poller with running := if poller.stopped then none else some .fetching }

def Poller.start (poller : Poller) : Poller :=
  match poller.running with
  | some _ => poller
  | none => Poller.loop { poller with stopped := false }

def Poller.stop (poller : Poller) : Poller := { poller with stopped := true }

def Poller.failed (poller : Poller) : Poller :=
  { poller with running := if poller.stopped then none else some .sleeping }

/-- The call of `onChanges` that an answer leads to: the reset comes in front of the changes. -/
def ChangesSince.call (answer : ChangesSince) : List (Call NodeChangeEvent) :=
  (if answer.reset then [.reset] else []) ++
    if answer.changes = [] then [] else [.batch answer.changes]

/-- The answer of `fetchChanges`; `throws` says whether `onChanges` throws, if it is called. -/
def Poller.answered (poller : Poller) (answer : ChangesSince) (throws : Bool) :
    Poller × List (Call NodeChangeEvent) :=
  if poller.stopped then ({ poller with running := none }, [])
  else
    let poller := { poller with cursor := some answer.cursor }
    if answer.call ≠ [] ∧ throws then (poller.failed, answer.call)
    else if answer.changes ≠ [] then ({ poller with running := some .sleeping }, answer.call)
    else (poller.loop, answer.call)

structure Waiter where
  id : ℕ
  cursor : Option Cursor

/-- The process, its waiters, the poller and the answer on its way to it. `log` has every change
ever published, `began` says how many of them were published before this process, and `calls` has
the calls of `onChanges`, also those that threw. -/
structure World where
  feed : Feed
  log : List NodeChangeEvent := []
  began : ℕ := 0
  instances : List String
  waiters : List Waiter := []
  woken : List (ℕ × Bool) := []
  poller : Poller := {}
  answer : Option ChangesSince := none
  calls : List (Call NodeChangeEvent) := []

def World.initial (instanceId : String) : World where
  feed := ⟨instanceId, 0, []⟩
  instances := [instanceId]

inductive Action where
  | publish (nodeId : String) (kind : NodeChangeKind) (now : ℕ)
  | restart (instanceId : String)
  | wait (id : ℕ) (cursor : Option Cursor) (aborted : Bool)
  | timeoutOrAbort (id : ℕ)
  | start
  | stop
  | read (max : ℕ)
  | deliver (throws : Bool)
  | fail
  | wake

def World.published (w : World) (nodeId : String) (kind : NodeChangeKind) (now : ℕ) : World :=
  { w with
    feed := w.feed.publishNodeChange nodeId kind now
    log := w.log ++ [w.feed.nextChange nodeId kind now]
    woken := w.woken ++ w.waiters.map fun waiter => (waiter.id, true)
    waiters := [] }

/-- A new process: the ring, the count and the waiters of the old one are gone. -/
def World.restarted (w : World) (instanceId : String) : World :=
  { w with
    feed := ⟨instanceId, 0, []⟩
    began := w.log.length
    instances := w.instances ++ [instanceId]
    waiters := [] }

def World.waited (w : World) (id : ℕ) (cursor : Option Cursor) (aborted : Bool) : World :=
  match w.feed.waitForChanges cursor aborted with
  | some woken => { w with woken := w.woken ++ [(id, woken)] }
  | none => { w with waiters := w.waiters ++ [⟨id, cursor⟩] }

/-- One step; an instance id is never given twice, and a page has at least one entry. -/
def step (w : World) : Action → Option World
  | .publish nodeId kind now => some (w.published nodeId kind now)
  | .restart instanceId =>
    if instanceId ∈ w.instances then none else some (w.restarted instanceId)
  | .wait id cursor aborted => some (w.waited id cursor aborted)
  | .timeoutOrAbort id =>
    if w.waiters.any (·.id = id) then
      some { w with
        woken := w.woken ++ [(id, false)]
        waiters := w.waiters.filter (·.id ≠ id) }
    else none
  | .start => some { w with poller := w.poller.start }
  | .stop => some { w with poller := w.poller.stop }
  | .read max =>
    if w.poller.running = some .fetching ∧ w.answer = none ∧ 1 ≤ max then
      some { w with answer := some (w.feed.changesSince w.poller.cursor max) }
    else none
  | .deliver throws =>
    match w.poller.running, w.answer with
    | some .fetching, some answer =>
      some { w with
        poller := (w.poller.answered answer throws).1
        answer := none
        calls := w.calls ++ (w.poller.answered answer throws).2 }
    | _, _ => none
  | .fail =>
    if w.poller.running = some .fetching then
      some { w with poller := w.poller.failed, answer := none }
    else none
  | .wake =>
    if w.poller.running = some .sleeping then some { w with poller := w.poller.loop } else none

end

open Library.LogReader

section

/-- Changes numbered one by one from `first`. -/
def Numbered (first : ℕ) (changes : List NodeChangeEvent) : Prop :=
  changes.map (·.seq) = List.range' first changes.length

variable {first after : ℕ} {changes more : List NodeChangeEvent} {c : NodeChangeEvent}

theorem numbered_cons :
    Numbered first (c :: changes) ↔ c.seq = first ∧ Numbered (first + 1) changes := by
  simp [Numbered, List.range'_succ]

variable (h : Numbered first changes)

include h

theorem Numbered.drop (n : ℕ) : Numbered (first + n) (changes.drop n) := by
  rw [Numbered, List.map_drop, h, List.drop_range', List.length_drop, Nat.mul_one]

theorem numbered_concat (hc : c.seq = first + changes.length) :
    Numbered first (changes ++ [c]) := by
  rw [Numbered, List.map_append, h, List.length_append, List.length_singleton, List.map_singleton,
    List.range'_1_concat, hc]

theorem Numbered.filter_after :
    changes.filter (fun c => after < c.seq) = changes.drop (after + 1 - first) := by
  induction changes generalizing first with
  | nil => simp
  | cons c changes ih =>
    obtain ⟨hc, hrest⟩ := numbered_cons.mp h
    rw [List.filter_cons, ih hrest, hc]
    split
    next hlt =>
      have hlt : after < first := by simpa using hlt
      rw [show after + 1 - (first + 1) = 0 by omega, show after + 1 - first = 0 by omega]
      rfl
    next hge =>
      have hge : first ≤ after := by simpa using hge
      rw [show after + 1 - first = after + 1 - (first + 1) + 1 by omega, List.drop_succ_cons]

theorem Numbered.getLast? (hne : changes ≠ []) :
    changes.getLast?.map (·.seq) = some (first + changes.length - 1) := by
  rw [← List.getLast?_map, h, List.getLast?_range', if_neg fun h => hne (List.length_eq_zero_iff.mp h)]

theorem Numbered.take (n : ℕ) : Numbered first (changes.take n) := by
  rw [Numbered, List.map_take, h, List.length_take]
  rcases Nat.le_total n changes.length with hn | hn
  · rw [List.take_range'_of_length_ge hn, Nat.min_eq_left hn]
  · rw [List.take_range'_of_length_le hn, Nat.min_eq_right hn]

end

def World.current (w : World) : List NodeChangeEvent := w.log.drop w.began

/-- The process publishes behind everything published before it began, numbered from 1, and keeps
the last of it; a waiter waits on a cursor that nothing has passed. -/
structure World.Publishes (w : World) : Prop where
  length : w.log.length = w.began + w.feed.seq
  numbered : Numbered 1 w.current
  ring : w.feed.ring = w.current.drop (w.feed.seq - changeFeedRing)
  known : w.feed.instanceId ∈ w.instances
  waiters : ∀ waiter ∈ w.waiters, ∃ cursor, waiter.cursor = some cursor ∧
    cursor.instanceId = w.feed.instanceId ∧ w.feed.seq ≤ cursor.seq

/-- Where a cursor stands in the sequence of all changes; that of an earlier process stands
somewhere before this one began. -/
def World.Stands (w : World) (cursor : Cursor) (place : ℕ) : Prop :=
  (cursor.instanceId = w.feed.instanceId ∧ place = w.began + cursor.seq ∧ cursor.seq ≤ w.feed.seq) ∨
  (cursor.instanceId ≠ w.feed.instanceId ∧ cursor.instanceId ∈ w.instances ∧ place ≤ w.began)

variable {w : World} {cursor : Cursor} {place max : ℕ}

theorem World.Publishes.current_length (h : w.Publishes) : w.current.length = w.feed.seq := by
  rw [World.current, List.length_drop, h.length]
  omega

theorem World.Stands.le (hw : w.Publishes) (h : w.Stands cursor place) :
    place ≤ w.log.length := by
  rw [hw.length]
  rcases h with ⟨-, rfl, hseq⟩ | ⟨-, -, hplace⟩ <;> omega

theorem parseCursor_own (h : cursor.instanceId = w.feed.instanceId) :
    w.feed.parseCursor (some cursor) = some cursor.seq := by
  simp [Feed.parseCursor, Option.filter, h]

theorem parseCursor_other (h : cursor.instanceId ≠ w.feed.instanceId) :
    w.feed.parseCursor (some cursor) = none := by
  simp [Feed.parseCursor, Option.filter, h]

theorem stands_end (w : World) : w.Stands (w.feed.cursorOf w.feed.seq) (w.began + w.feed.seq) :=
  .inl ⟨rfl, rfl, Nat.le_refl _⟩

theorem filter_ring (hw : w.Publishes) {after : ℕ}
    (hkept : ¬((after < w.feed.oldest - 1 ∧ w.feed.ring ≠ []) ∨
      (w.feed.ring = [] ∧ after < w.feed.seq))) :
    w.feed.ring.filter (fun c => after < c.seq) = w.current.drop after := by
  have hlength := hw.current_length
  have hnumbered : Numbered (1 + (w.feed.seq - changeFeedRing)) w.feed.ring := by
    rw [hw.ring]
    exact hw.numbered.drop _
  cases hring : w.feed.ring with
  | nil =>
    have hafter : w.feed.seq ≤ after := by
      by_contra hlt
      exact hkept (.inr ⟨hring, Nat.lt_of_not_le hlt⟩)
    rw [List.filter_nil, List.drop_eq_nil_of_le (by omega)]
  | cons oldest rest =>
    rw [hring] at hnumbered
    have holdest : w.feed.oldest = 1 + (w.feed.seq - changeFeedRing) := by
      rw [Feed.oldest, hring]
      exact (numbered_cons.mp hnumbered).1
    have hafter : w.feed.seq - changeFeedRing ≤ after := by
      by_contra hlt
      exact hkept (.inl ⟨by omega, by simp [hring]⟩)
    have hskip : w.feed.seq - changeFeedRing +
        (after + 1 - (1 + (w.feed.seq - changeFeedRing))) = after := by omega
    rw [hnumbered.filter_after, ← hring, hw.ring, List.drop_drop, hskip]

theorem changesSince_spec (hw : w.Publishes) (hcursor : w.Stands cursor place) :
    w.feed.changesSince (some cursor) max = ⟨w.feed.cursorOf w.feed.seq, true, []⟩ ∨
    ∃ next changes, w.feed.changesSince (some cursor) max = ⟨next, false, changes⟩ ∧
      changes <+: w.log.drop place ∧ w.Stands next (place + changes.length) ∧
      (1 ≤ max → changes = [] → place = w.log.length) := by
  rcases hcursor with ⟨hown, hplace, hseq⟩ | ⟨hother, -, -⟩
  · simp only [Feed.changesSince, parseCursor_own hown]
    split
    next => exact .inl rfl
    next hkept =>
      refine .inr ⟨_, _, rfl, ?_⟩
      have hchanges : w.feed.changesAfter cursor.seq max = (w.log.drop place).take max := by
        rw [Feed.changesAfter, filter_ring hw hkept, World.current, List.drop_drop, hplace]
      have hlength := hw.length
      have hnumbered : Numbered (1 + cursor.seq) (w.feed.changesAfter cursor.seq max) := by
        rw [Feed.changesAfter, filter_ring hw hkept]
        exact (hw.numbered.drop _).take _
      have hle : (w.feed.changesAfter cursor.seq max).length ≤ w.log.length - place := by
        rw [hchanges, List.length_take, List.length_drop]
        exact Nat.min_le_right _ _
      -- the new cursor is the number of the last change, if there is one
      have hnext : Nat.max ((w.feed.changesAfter cursor.seq max).getLast?.elim cursor.seq (·.seq))
          cursor.seq = cursor.seq + (w.feed.changesAfter cursor.seq max).length := by
        rcases eq_or_ne (w.feed.changesAfter cursor.seq max) [] with hnil | hne
        · simp [hnil]
        · have hpos := List.length_pos_iff.mpr hne
          obtain ⟨last, hsome, hnumber⟩ := Option.map_eq_some_iff.mp (hnumbered.getLast? hne)
          rw [hsome, Option.elim_some, hnumber]
          exact (Nat.max_eq_left (by omega)).trans (by omega)
      refine ⟨hchanges ▸ List.take_prefix _ _, .inl ⟨rfl, ?_, ?_⟩, ?_⟩
      · simp only [Feed.cursorOf, hnext]
        omega
      · simp only [Feed.cursorOf, hnext]
        omega
      · intro hmax hnil
        rw [hchanges, List.take_eq_nil_iff] at hnil
        rcases hnil with hnil | hnil
        · omega
        · have := List.drop_eq_nil_iff.mp hnil
          omega
  · exact .inl (by simp only [Feed.changesSince, parseCursor_other hother])

end Portuni.ChangeFeed
