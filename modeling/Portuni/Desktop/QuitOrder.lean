import Mathlib.Data.List.Nodup
import Mathlib.Data.List.Perm.Basic
import Portuni.Library.Runs

/-!
The desktop host's quit: the windows are asked to close one after another, each with a
fallback timer of its own, and the application exits or restarts at the end of the queue.
A window closes by hand or as its answer in the same way; the window is out of the list
when its `Destroyed` handler runs.
-/

namespace Portuni.Desktop.Quit

open Library.Runs

inductive Label where
  | ws (id : String)
  | bootstrap
deriving DecidableEq

inductive QuitAction where
  | exit
  | restart

structure QuitState where
  remaining : List Label
  action : QuitAction

inductive QuitAdvance where
  | closeWindow (label : Label) (nextState : Option QuitState)
  | finished (action : QuitAction)
  | idle

def quitAdvance : Option QuitState → QuitAdvance
  | none => .idle
  | some ⟨[], action⟩ => .finished action
  | some ⟨label :: remaining, action⟩ => .closeWindow label (some ⟨remaining, action⟩)

def quitAbort (_current : Option QuitState) : Option QuitState :=
  none

def shouldPersistOpenWindows (quitting : Bool) : Bool :=
  !quitting

def exitFallbackTimeout : ℕ := 5000

def fallbackShouldFire (armedGeneration currentGeneration : ℕ) : Bool :=
  armedGeneration == currentGeneration

inductive TimerPhase where
  | sleeping
  /-- Found its generation current: the window is to be destroyed. -/
  | firing
  | done
deriving DecidableEq

structure Timer where
  label : Label
  armedAt : ℕ
  phase : TimerPhase := .sleeping

/-- A close request: whether the window asked before it was still open, and whether the
sequence had been declined. -/
structure Ask where
  label : Label
  early : Bool
  declined : Bool
deriving DecidableEq

/-- A window destroyed by its timer: how long after the request, whether the request was still
the last word, and whether the sequence had been declined. -/
structure Forced where
  label : Label
  elapsed : ℕ
  unanswered : Bool
  declined : Bool

/-- What a `begin_quit` found. -/
structure Begun where
  windows : List Label
  openWindows : List String
deriving DecidableEq

/-- The open windows, the queue, the timers by generation and `open_windows` on disk. The rest
is the history of the last sequence: the window asked last, those closed since it began,
and whether it was declined; `asks` and `forced` go over all of them. -/
structure AppState where
  windows : List Label := []
  quit : Option QuitState := none
  generation : ℕ := 0
  timers : ℕ → Option Timer := fun _ => none
  clock : ℕ := 0
  openWindows : List String := []
  exited : Bool := false
  begun : Option Begun := none
  asked : Option Label := none
  closed : List Label := []
  declined : Bool := false
  asks : List Ask := []
  forced : List Forced := []

inductive Action where
  /-- The order is the one in which the map of windows lists its keys. -/
  | beginQuit (order : List Label) (action : QuitAction)
  | exitRequested (order : List Label)
  | opened (label : Label)
  | destroyed (label : Label)
  | declineExit
  | tick (ms : ℕ)
  | wake (generation : ℕ)
  | fire (generation : ℕ)

namespace AppState

variable (s : AppState)

def isQuitting : Bool :=
  s.quit.isSome

def persistOpenWindows : AppState :=
  if shouldPersistOpenWindows s.isQuitting then
    { s with
      openWindows := s.windows.filterMap fun label =>
        match label with
        | .ws id => some id
        | .bootstrap => none }
  else s

def setTimer (g : ℕ) (timer : Timer) : AppState :=
  { s with timers := fun g' => if g' = g then some timer else s.timers g' }

/-- `schedule_exit_fallback` and `close`. -/
def ask (label : Label) : AppState :=
  { s with
    generation := s.generation + 1
    timers := fun g => if g = s.generation + 1 then some ⟨label, s.clock, .sleeping⟩ else s.timers g
    asked := some label
    asks := s.asks ++ [⟨label, s.asked.any (· ∈ s.windows), s.declined⟩] }

/-- `app.exit` only posts an exit request, which comes as an event of its own; a restart is
immediate. -/
def finish : QuitAction → AppState
  | .exit => { s with quit := none }
  | .restart => { s with quit := none, exited := true }

/-- `advance_quit` on a queue: a label without a window is passed over. -/
def advanceFrom (action : QuitAction) : List Label → AppState
  | [] => s.finish action
  | label :: remaining =>
    if label ∈ s.windows then { s with quit := some ⟨remaining, action⟩ }.ask label
    else advanceFrom action remaining

def advanceQuit : AppState :=
  match s.quit with
  | none => s
  | some ⟨remaining, action⟩ => s.advanceFrom action remaining

def beginQuit (order : List Label) (action : QuitAction) : AppState :=
  if s.quit.isSome then s
  else
    advanceQuit
      { s with
        quit := some ⟨order, action⟩
        begun := some ⟨s.windows, s.openWindows⟩
        asked := none
        closed := []
        declined := false }

def declineExit : AppState :=
  { s with
    generation := s.generation + 1
    quit := quitAbort s.quit
    declined := s.declined || s.quit.isSome }

def destroyed (label : Label) : AppState :=
  let gone : AppState :=
    { s with windows := s.windows.erase label, closed := s.closed ++ [label] }
  match label with
  | .ws _ => gone.persistOpenWindows.advanceQuit
  | .bootstrap => gone.advanceQuit

def opened (label : Label) : AppState :=
  let added : AppState := { s with windows := s.windows ++ [label] }
  match label with
  | .ws _ => added.persistOpenWindows
  | .bootstrap => added

def exitRequested (order : List Label) : AppState :=
  if s.windows = [] then { s with exited := true } else s.beginQuit order .exit

def wake (g : ℕ) (timer : Timer) : AppState :=
  s.setTimer g { timer with phase := if fallbackShouldFire g s.generation then .firing else .done }

def fire (g : ℕ) (timer : Timer) : AppState :=
  let spent := s.setTimer g { timer with phase := .done }
  if timer.label ∈ s.windows then
    destroyed
      { spent with
        forced := s.forced ++
          [⟨timer.label, s.clock - timer.armedAt, g == s.generation, s.declined⟩] }
      timer.label
  else spent

end AppState

def step (s : AppState) (a : Action) : Option AppState :=
  if s.exited then none
  else
    match a with
    | .beginQuit order action =>
      if order.Perm s.windows then some (s.beginQuit order action) else none
    | .exitRequested order =>
      if order.Perm s.windows then some (s.exitRequested order) else none
    | .opened label => if label ∈ s.windows then none else some (s.opened label)
    | .destroyed label => if label ∈ s.windows then some (s.destroyed label) else none
    | .declineExit => some s.declineExit
    | .tick ms => some { s with clock := s.clock + ms }
    | .wake g =>
      (s.timers g).bind fun timer =>
        if timer.phase = .sleeping ∧ timer.armedAt + exitFallbackTimeout ≤ s.clock then
          some (s.wake g timer)
        else none
    | .fire g =>
      (s.timers g).bind fun timer =>
        if timer.phase = .firing then some (s.fire g timer) else none

/-- An application that has finished its queue waits for the exit request it posted. -/
def AppState.finished (s : AppState) : Bool :=
  s.quit.isNone && s.begun.isSome && !s.declined

/-- While a sequence runs only the window being asked goes away, a timer that has woken finds
its request still the last one, the last window does not go between `app.exit` and its event,
and nobody exits by closing every window after a decline. -/
def Orderly (s : AppState) : Action → Prop
  | .destroyed label => (s.quit.isSome → s.asked = some label) ∧
      (s.finished → s.windows.erase label ≠ [])
  | .fire g => ∀ timer ∈ s.timers g, timer.label ∈ s.windows → g = s.generation ∧ s.quit.isSome
  | .exitRequested _ => s.windows = [] → s.declined = false
  | _ => True

instance (s : AppState) : (a : Action) → Decidable (Orderly s a)
  | .destroyed label => inferInstanceAs (Decidable ((s.quit.isSome → s.asked = some label) ∧
      (s.finished → s.windows.erase label ≠ [])))
  | .fire g => inferInstanceAs (Decidable (∀ timer ∈ s.timers g, timer.label ∈ s.windows →
      g = s.generation ∧ s.quit.isSome))
  | .exitRequested _ => inferInstanceAs (Decidable (s.windows = [] → s.declined = false))
  | .beginQuit .. => isTrue trivial
  | .opened _ => isTrue trivial
  | .declineExit => isTrue trivial
  | .tick _ => isTrue trivial
  | .wake _ => isTrue trivial

/-- Windows asked in turn, forced only after their own delay; no exit before all of them are
gone; nothing more after a decline; the list on disk as the sequence found it. -/
structure OneByOne (s : AppState) : Prop where
  inTurn : ∀ a ∈ s.asks, a.early = false
  patient : ∀ f ∈ s.forced, exitFallbackTimeout ≤ f.elapsed ∧ f.unanswered = true
  complete : s.exited = true → ∀ b, s.begun = some b → ∀ w ∈ b.windows, w ∈ s.closed
  aborted : (∀ a ∈ s.asks, a.declined = false) ∧ (∀ f ∈ s.forced, f.declined = false) ∧
    (s.exited = true → s.declined = false)
  restored : s.exited = true → ∀ b, s.begun = some b → s.openWindows = b.openWindows

/-- A timer of the present generation belongs to the window being asked. -/
structure TimerSound (s : AppState) (g : ℕ) (timer : Timer) : Prop where
  known : g ≤ s.generation
  owner : g = s.generation → s.quit.isSome → s.asked = some timer.label
  waited : timer.phase = .firing → timer.armedAt + exitFallbackTimeout ≤ s.clock

/-- A sequence that began with `b` and still has `remaining` to ask. -/
structure Pending (s : AppState) (b : Begun) (remaining : List Label) : Prop where
  begun : s.begun = some b
  undeclined : s.declined = false
  kept : s.openWindows = b.openWindows
  present : ∀ w ∈ b.windows, w ∈ s.closed ∨ w ∈ s.windows
  left : ∀ w ∈ b.windows, w ∈ s.closed ∨ w ∈ remaining

structure Ended (s : AppState) (b : Begun) : Prop where
  closed : ∀ w ∈ b.windows, w ∈ s.closed
  kept : s.windows = [] ∨ s.exited = true → s.openWindows = b.openWindows

structure Sound (s : AppState) : Prop where
  nodup : s.windows.Nodup
  timers : ∀ g timer, s.timers g = some timer → TimerSound s g timer
  running : ∀ q, s.quit = some q → ∃ a b, s.asked = some a ∧ a ∈ s.windows ∧
    Pending s b (a :: q.remaining)
  ended : s.quit = none → s.declined = false → ∀ b, s.begun = some b → Ended s b
  asks : ∀ a ∈ s.asks, a.early = false ∧ a.declined = false
  forced : ∀ f ∈ s.forced, exitFallbackTimeout ≤ f.elapsed ∧ f.unanswered = true ∧
    f.declined = false
  exit : s.exited = true → s.quit = none ∧ s.declined = false

variable {s : AppState}

theorem Sound.oneByOne (h : Sound s) : OneByOne s where
  inTurn a ha := (h.asks a ha).1
  patient f hf := ⟨(h.forced f hf).1, (h.forced f hf).2.1⟩
  complete hx b hb := (h.ended (h.exit hx).1 (h.exit hx).2 b hb).closed
  aborted := ⟨fun a ha => (h.asks a ha).2, fun f hf => (h.forced f hf).2.2, fun hx => (h.exit hx).2⟩
  restored hx b hb := (h.ended (h.exit hx).1 (h.exit hx).2 b hb).kept (Or.inr hx)

/-- What holds of a state between the end of one window and the next request. -/
structure Between (s : AppState) : Prop where
  nodup : s.windows.Nodup
  timers : ∀ g timer, s.timers g = some timer → g ≤ s.generation ∧
    (timer.phase = .firing → timer.armedAt + exitFallbackTimeout ≤ s.clock)
  away : ∀ a, s.asked = some a → a ∉ s.windows
  asks : ∀ a ∈ s.asks, a.early = false ∧ a.declined = false
  forced : ∀ f ∈ s.forced, exitFallbackTimeout ≤ f.elapsed ∧ f.unanswered = true ∧
    f.declined = false
  running : s.exited = false

theorem Between.finish (h : Between s) {b : Begun} (hp : Pending s b []) (action : QuitAction) :
    Sound (s.finish action) := by
  have timers : ∀ g timer, s.timers g = some timer → TimerSound (s.finish action) g timer := by
    intro g timer ht
    obtain ⟨known, waited⟩ := h.timers g timer ht
    cases action with
    | exit | restart => exact ⟨known, fun _ hq => absurd hq Bool.false_ne_true, waited⟩
  have ended : ∀ b', s.begun = some b' → (∀ w ∈ b'.windows, w ∈ s.closed) ∧
      s.openWindows = b'.openWindows := by
    intro b' hb'
    obtain rfl := Option.some.inj (hp.begun.symm.trans hb')
    exact ⟨fun w hw => (hp.left w hw).resolve_right List.not_mem_nil, hp.kept⟩
  cases action with
  | exit =>
    exact
      { nodup := h.nodup
        timers := timers
        running := by rintro q ⟨⟩
        ended := fun _ _ b' hb' => ⟨(ended b' hb').1, fun _ => (ended b' hb').2⟩
        asks := h.asks
        forced := h.forced
        exit := fun hx => absurd (h.running.symm.trans hx) Bool.false_ne_true }
  | restart =>
    exact
      { nodup := h.nodup
        timers := timers
        running := by rintro q ⟨⟩
        ended := fun _ _ b' hb' => ⟨(ended b' hb').1, fun _ => (ended b' hb').2⟩
        asks := h.asks
        forced := h.forced
        exit := fun _ => ⟨rfl, hp.undeclined⟩ }

theorem Between.advanceFrom (h : Between s) {b : Begun} {remaining : List Label}
    (hp : Pending s b remaining) (action : QuitAction) :
    Sound (s.advanceFrom action remaining) := by
  induction remaining with
  | nil => exact h.finish hp action
  | cons label remaining ih =>
    rw [AppState.advanceFrom]
    split
    · rename_i hopen
      exact
        { nodup := h.nodup
          timers := by
            intro g timer ht
            simp only [AppState.ask] at ht ⊢
            split at ht
            · rename_i hg
              cases ht
              exact ⟨Nat.le_of_eq hg, fun _ _ => rfl, by simp⟩
            · rename_i hg
              obtain ⟨known, waited⟩ := h.timers g timer ht
              exact ⟨Nat.le_succ_of_le known, fun heq => absurd heq hg, waited⟩
          running := by
            intro q hq
            cases hq
            exact ⟨label, b, rfl, hopen, hp.begun, hp.undeclined, hp.kept, hp.present, hp.left⟩
          ended := by rintro ⟨⟩
          asks := by
            intro a ha
            rcases List.mem_append.mp ha with ha | ha
            · exact h.asks a ha
            · obtain rfl := List.mem_singleton.mp ha
              refine ⟨?_, hp.undeclined⟩
              cases hasked : s.asked with
              | none => simp
              | some a => simpa using h.away a hasked
          forced := h.forced
          exit := fun hx => absurd (h.running.symm.trans hx) Bool.false_ne_true }
    · rename_i hgone
      refine ih { hp with left := ?_ }
      intro w hw
      rcases hp.left w hw with hc | hmem
      · exact Or.inl hc
      · rcases List.mem_cons.mp hmem with rfl | hr
        · exact Or.inl ((hp.present w hw).resolve_right hgone)
        · exact Or.inr hr

theorem persistOpenWindows_eq (s : AppState) :
    ∃ disk, s.persistOpenWindows = { s with openWindows := disk } ∧
      (s.quit.isSome → disk = s.openWindows) := by
  unfold AppState.persistOpenWindows shouldPersistOpenWindows AppState.isQuitting
  by_cases hq : s.quit.isSome
  · exact ⟨s.openWindows, by simp [hq], fun _ => rfl⟩
  · exact ⟨_, if_pos (by simp [hq]), fun h => absurd h hq⟩

theorem advanceFrom_quit (s : AppState) (quit : Option QuitState) (action : QuitAction)
    (labels : List Label) :
    AppState.advanceFrom { s with quit } action labels = s.advanceFrom action labels := by
  induction labels with
  | nil => cases action <;> rfl
  | cons label labels ih => simp only [AppState.advanceFrom, ih]

theorem advanceQuit_eq (s : AppState) : s.advanceQuit =
    match quitAdvance s.quit with
    | .idle => s
    | .closeWindow label next =>
      if label ∈ s.windows then { s with quit := next }.ask label
      else { s with quit := next }.advanceQuit
    | .finished action => s.finish action := by
  rcases hq : s.quit with _ | ⟨_ | ⟨label, remaining⟩, action⟩
  · simp [AppState.advanceQuit, quitAdvance, hq]
  · simp [AppState.advanceQuit, AppState.advanceFrom, quitAdvance, hq]
  · simp [AppState.advanceQuit, AppState.advanceFrom, quitAdvance, hq, advanceFrom_quit]

theorem destroyed_eq (s : AppState) (label : Label) :
    ∃ disk, s.destroyed label =
        AppState.advanceQuit { s with
            windows := s.windows.erase label
            closed := s.closed ++ [label]
            openWindows := disk } ∧
      (s.quit.isSome → disk = s.openWindows) := by
  cases label with
  | ws id =>
    obtain ⟨disk, heq, hdisk⟩ := persistOpenWindows_eq
      { s with windows := s.windows.erase (.ws id), closed := s.closed ++ [.ws id] }
    exact ⟨disk, by rw [AppState.destroyed, heq], hdisk⟩
  | bootstrap => exact ⟨s.openWindows, rfl, fun _ => rfl⟩

theorem opened_eq (s : AppState) (label : Label) :
    ∃ disk, s.opened label = { s with windows := s.windows ++ [label], openWindows := disk } ∧
      (s.quit.isSome → disk = s.openWindows) := by
  cases label with
  | ws id =>
    obtain ⟨disk, heq, hdisk⟩ := persistOpenWindows_eq { s with windows := s.windows ++ [.ws id] }
    exact ⟨disk, by rw [AppState.opened, heq], hdisk⟩
  | bootstrap => exact ⟨s.openWindows, rfl, fun _ => rfl⟩

namespace Sound

variable {s : AppState}

theorem init (disk : List String) : Sound { openWindows := disk } := by
  constructor <;> simp

variable (h : Sound s)

include h

variable (hrun : s.exited = false)

include hrun

theorem beginQuit {order : List Label} (hperm : order.Perm s.windows) (action : QuitAction) :
    Sound (s.beginQuit order action) := by
  unfold AppState.beginQuit
  split
  · exact h
  · have start : Between
        { s with
          quit := some ⟨order, action⟩
          begun := some ⟨s.windows, s.openWindows⟩
          asked := none
          closed := []
          declined := false } :=
      { nodup := h.nodup
        timers := fun g timer ht => ⟨(h.timers g timer ht).known, (h.timers g timer ht).waited⟩
        away := by rintro a ⟨⟩
        asks := h.asks
        forced := h.forced
        running := hrun }
    refine start.advanceFrom (b := ⟨s.windows, s.openWindows⟩) ?_ action
    exact
      { begun := rfl
        undeclined := rfl
        kept := rfl
        present := fun w hw => Or.inr hw
        left := fun w hw => Or.inr (hperm.mem_iff.mpr hw) }

theorem destroyed {label : Label} (hok : Orderly s (.destroyed label)) :
    Sound (s.destroyed label) := by
  obtain ⟨disk, heq, hdisk⟩ := destroyed_eq s label
  rw [heq]
  cases hq : s.quit with
  | none =>
    -- no sequence: nothing follows the window
    simp only [AppState.advanceQuit]
    exact
      { nodup := h.nodup.erase label
        timers := fun g timer ht => ⟨(h.timers g timer ht).known,
          fun _ hs => absurd hs Bool.false_ne_true, (h.timers g timer ht).waited⟩
        running := by rintro q ⟨⟩
        ended := by
          intro _ hd b hb
          refine ⟨fun w hw => List.mem_append_left _ ((h.ended hq hd b hb).closed w hw), ?_⟩
          rintro (hempty | hx)
          · refine absurd hempty (hok.2 ?_)
            have hd' : s.declined = false := hd
            have hb' : s.begun = some b := hb
            simp [AppState.finished, hq, hd', hb']
          · exact absurd (hrun.symm.trans hx) Bool.false_ne_true
        asks := h.asks
        forced := h.forced
        exit := fun hx => absurd (hrun.symm.trans hx) Bool.false_ne_true }
  | some q =>
    obtain ⟨a, b, hasked, -, hp⟩ := h.running q hq
    have hlabel : s.asked = some label := hok.1 (by simp [hq])
    obtain rfl : label = a := Option.some.inj (hlabel.symm.trans hasked)
    have gone : Between
        { s with
          windows := s.windows.erase label
          quit := some q
          closed := s.closed ++ [label]
          openWindows := disk } :=
      { nodup := h.nodup.erase label
        timers := fun g timer ht => ⟨(h.timers g timer ht).known, (h.timers g timer ht).waited⟩
        away := by
          intro a ha
          obtain rfl := Option.some.inj (hlabel.symm.trans ha)
          exact h.nodup.not_mem_erase
        asks := h.asks
        forced := h.forced
        running := hrun }
    refine gone.advanceFrom (b := b) ?_ q.action
    exact
        { begun := hp.begun
          undeclined := hp.undeclined
          kept := (hdisk (by simp [hq])).trans hp.kept
          present := by
            intro w hw
            by_cases hl : w = label
            · exact Or.inl (List.mem_append_right _ (List.mem_singleton.mpr hl))
            · exact (hp.present w hw).imp (List.mem_append_left _)
                fun hmem => (List.mem_erase_of_ne hl).mpr hmem
          left := by
            intro w hw
            rcases hp.left w hw with hc | hr
            · exact Or.inl (List.mem_append_left _ hc)
            · rcases List.mem_cons.mp hr with rfl | hr
              · exact Or.inl (List.mem_append_right _ (List.mem_singleton.mpr rfl))
              · exact Or.inr hr }

theorem opened {label : Label} (hnew : label ∉ s.windows) : Sound (s.opened label) := by
  obtain ⟨disk, heq, hdisk⟩ := opened_eq s label
  rw [heq]
  exact
    { nodup := by
        refine List.nodup_append.mpr ⟨h.nodup, List.nodup_singleton _, ?_⟩
        rintro a ha b hb rfl
        exact hnew (List.mem_singleton.mp hb ▸ ha)
      timers := fun g timer ht => ⟨(h.timers g timer ht).known, (h.timers g timer ht).owner,
        (h.timers g timer ht).waited⟩
      running := by
        intro q hq
        obtain ⟨a, b, hasked, hopen, hp⟩ := h.running q hq
        refine ⟨a, b, hasked, List.mem_append_left _ hopen, { hp with kept := ?_, present := ?_ }⟩
        · exact (hdisk (by simp [show s.quit = some q from hq])).trans hp.kept
        · exact fun w hw => (hp.present w hw).imp_right (List.mem_append_left _)
      ended := by
        intro hq hd b hb
        refine ⟨(h.ended hq hd b hb).closed, ?_⟩
        rintro (hempty | hx)
        · simp at hempty
        · exact absurd (hrun.symm.trans hx) Bool.false_ne_true
      asks := h.asks
      forced := h.forced
      exit := fun hx => absurd (hrun.symm.trans hx) Bool.false_ne_true }

theorem declineExit : Sound s.declineExit where
  __ := h
  timers g timer ht :=
    ⟨Nat.le_succ_of_le (h.timers g timer ht).known, fun _ hq => absurd hq Bool.false_ne_true,
      (h.timers g timer ht).waited⟩
  running := by rintro q ⟨⟩
  ended := by
    intro _ hd b hb
    obtain ⟨hd, hq⟩ := Bool.or_eq_false_iff.mp hd
    exact ⟨(h.ended (Option.isNone_iff_eq_none.mp (by simpa using hq)) hd b hb).closed,
      (h.ended (Option.isNone_iff_eq_none.mp (by simpa using hq)) hd b hb).kept⟩
  exit := fun hx => absurd (hrun.symm.trans hx) Bool.false_ne_true

theorem exitRequested {order : List Label} (hperm : order.Perm s.windows)
    (hok : Orderly s (.exitRequested order)) : Sound (s.exitRequested order) := by
  unfold AppState.exitRequested
  split
  · rename_i hempty
    have hq : s.quit = none := by
      refine Option.eq_none_iff_forall_ne_some.mpr fun q hq => ?_
      obtain ⟨a, -, -, hopen, -⟩ := h.running q hq
      rw [hempty] at hopen
      cases hopen
    have hd : s.declined = false := hok hempty
    exact
      { h with
        timers := fun g timer ht => ⟨(h.timers g timer ht).known, (h.timers g timer ht).owner,
          (h.timers g timer ht).waited⟩
        running := fun q hq' => absurd (hq.symm.trans hq') (by simp)
        ended := fun _ _ b hb => ⟨(h.ended hq hd b hb).closed,
          fun _ => (h.ended hq hd b hb).kept (Or.inl hempty)⟩
        exit := fun _ => ⟨hq, hd⟩ }
  · exact h.beginQuit hrun hperm .exit

omit hrun

variable {timer : Timer}

theorem setTimer {g : ℕ} (ht : TimerSound s g timer) : Sound (s.setTimer g timer) :=
  { h with
    timers := by
      intro g' timer' ht'
      simp only [AppState.setTimer] at ht'
      split at ht'
      · rename_i hg
        subst hg
        cases ht'
        exact ⟨ht.known, ht.owner, ht.waited⟩
      · exact ⟨(h.timers g' timer' ht').known, (h.timers g' timer' ht').owner,
          (h.timers g' timer' ht').waited⟩
    running := fun q hq => by
      obtain ⟨a, b, hasked, hopen, hp⟩ := h.running q hq
      exact ⟨a, b, hasked, hopen, { hp with }⟩
    ended := fun hq hd b hb => ⟨(h.ended hq hd b hb).closed, (h.ended hq hd b hb).kept⟩ }

theorem fire (hrun : s.exited = false) {g : ℕ} (ht : s.timers g = some timer)
    (hphase : timer.phase = .firing) (hok : Orderly s (.fire g)) : Sound (s.fire g timer) := by
  have hs := h.timers g timer ht
  have spent : Sound (s.setTimer g { timer with phase := .done }) :=
    h.setTimer ⟨hs.known, hs.owner, by simp⟩
  unfold AppState.fire
  split
  · rename_i hopen
    obtain ⟨hg, hquit⟩ := hok timer ht hopen
    obtain ⟨q, hq⟩ := Option.isSome_iff_exists.mp hquit
    obtain ⟨a, b, -, -, hp⟩ := h.running q hq
    have forced : Sound
        { s.setTimer g { timer with phase := .done } with
          forced := s.forced ++
            [⟨timer.label, s.clock - timer.armedAt, g == s.generation, s.declined⟩] } :=
        { spent with
          timers := fun g timer ht => ⟨(spent.timers g timer ht).known,
            (spent.timers g timer ht).owner, (spent.timers g timer ht).waited⟩
          running := fun q hq => by
            obtain ⟨a, b, hasked, hopen, hp⟩ := spent.running q hq
            exact ⟨a, b, hasked, hopen, { hp with }⟩
          ended := fun hq hd b hb => ⟨(spent.ended hq hd b hb).closed,
            (spent.ended hq hd b hb).kept⟩
          forced := by
            intro f hf
            rcases List.mem_append.mp hf with hf | hf
            · exact h.forced f hf
            · obtain rfl := List.mem_singleton.mp hf
              refine ⟨?_, by simp [hg], hp.undeclined⟩
              exact Nat.le_sub_of_add_le' (hs.waited hphase) }
    refine forced.destroyed hrun ⟨fun _ => hs.owner hg hquit, fun hfin => ?_⟩
    simp [AppState.finished, AppState.setTimer, hq] at hfin
  · exact spent

theorem wake {g : ℕ} (ht : s.timers g = some timer)
    (hdue : timer.armedAt + exitFallbackTimeout ≤ s.clock) : Sound (s.wake g timer) :=
  h.setTimer ⟨(h.timers g timer ht).known, (h.timers g timer ht).owner, fun _ => hdue⟩

theorem tick (ms : ℕ) : Sound { s with clock := s.clock + ms } :=
  { h with
    timers := fun g timer ht => ⟨(h.timers g timer ht).known, (h.timers g timer ht).owner,
      fun hp => Nat.le_add_right_of_le ((h.timers g timer ht).waited hp)⟩
    running := fun q hq => by
      obtain ⟨a, b, hasked, hopen, hp⟩ := h.running q hq
      exact ⟨a, b, hasked, hopen, { hp with }⟩
    ended := fun hq hd b hb => ⟨(h.ended hq hd b hb).closed, (h.ended hq hd b hb).kept⟩ }

theorem step {a : Action} {t : AppState} (hok : Orderly s a) (hstep : step s a = some t) :
    Sound t := by
  unfold Quit.step at hstep
  split at hstep
  · cases hstep
  · rename_i hx
    have hrun : s.exited = false := by simpa using hx
    cases a with
    | beginQuit order action =>
      obtain ⟨hperm, htaken⟩ := Option.ite_none_right_eq_some.mp hstep
      cases htaken
      exact h.beginQuit hrun hperm action
    | exitRequested order =>
      obtain ⟨hperm, htaken⟩ := Option.ite_none_right_eq_some.mp hstep
      cases htaken
      exact h.exitRequested hrun hperm hok
    | opened label =>
      obtain ⟨hnew, htaken⟩ := Option.ite_none_left_eq_some.mp hstep
      cases htaken
      exact h.opened hrun hnew
    | destroyed label =>
      obtain ⟨-, htaken⟩ := Option.ite_none_right_eq_some.mp hstep
      cases htaken
      exact h.destroyed hrun hok
    | declineExit =>
      cases hstep
      exact h.declineExit hrun
    | tick ms =>
      cases hstep
      exact h.tick ms
    | wake g =>
      obtain ⟨timer, ht, hstep⟩ := Option.bind_eq_some_iff.mp hstep
      obtain ⟨⟨-, hdue⟩, htaken⟩ := Option.ite_none_right_eq_some.mp hstep
      cases htaken
      exact h.wake ht hdue
    | fire g =>
      obtain ⟨timer, ht, hstep⟩ := Option.bind_eq_some_iff.mp hstep
      obtain ⟨hphase, htaken⟩ := Option.ite_none_right_eq_some.mp hstep
      cases htaken
      exact h.fire hrun ht hphase hok

end Sound

/-- From any list on disk, whatever windows open and close, as long as every step is orderly. -/
theorem run_oneByOne {disk : List String} {acts : List Action} {t : AppState}
    (run : Run step Orderly { openWindows := disk } acts t) : OneByOne t :=
  (run.inv Sound (Sound.init disk) fun _ _ _ h hok hstep => h.step hok hstep).oneByOne

def completedQuit : List Action :=
  [.opened (.ws "a"), .opened (.ws "b"), .beginQuit [.ws "a", .ws "b"] .exit,
    .destroyed (.ws "a"), .tick 5000, .wake 2, .fire 2, .exitRequested []]

theorem run_oneByOne_completed :
    ∃ t, Run step Orderly {} completedQuit t ∧ t.exited = true ∧ t.openWindows = ["a", "b"] ∧
      OneByOne t := by
  obtain ⟨t, ht⟩ : ∃ t, exec step {} completedQuit = some t := ⟨_, rfl⟩
  have run : Run step Orderly {} completedQuit t := Run.of_exec ht (by decide)
  cases ht
  exact ⟨_, run, by decide, by decide, run_oneByOne run⟩

/-- A queued window that closes by hand takes the turn of the one being asked: the next is
asked beside it, and a restart does not wait for it. -/
theorem closed_by_hand_runs_ahead :
    (∃ acts t, Run step (fun _ _ => True) {} acts t ∧ ∃ a ∈ t.asks, a.early = true) ∧
    ∃ acts t, Run step (fun _ _ => True) {} acts t ∧ t.exited = true ∧ t.forced = [] ∧
      ∃ b, t.begun = some b ∧ .ws "a" ∈ b.windows ∧ .ws "a" ∉ t.closed := by
  constructor
  · refine ⟨[.opened (.ws "a"), .opened (.ws "b"), .opened (.ws "c"),
      .beginQuit [.ws "a", .ws "b", .ws "c"] .restart, .destroyed (.ws "b")], _,
      Run.of_exec_eq_some rfl, ⟨.ws "c", true, false⟩, ?_, rfl⟩
    decide
  · exact ⟨[.opened (.ws "a"), .opened (.ws "b"), .beginQuit [.ws "a", .ws "b"] .restart,
      .destroyed (.ws "b")], _, Run.of_exec_eq_some rfl, by decide, by decide,
      ⟨[.ws "a", .ws "b"], ["a", "b"]⟩, by decide, by decide, by decide⟩

end Portuni.Desktop.Quit
