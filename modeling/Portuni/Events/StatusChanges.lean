import Mathlib.Data.List.AList
import Portuni.Library.Runs
import Portuni.Sessions.Transitions

/-! An event and the calls that change it. A call reads the row, may wait at the write guard and
writes by id alone. -/

namespace Portuni.Events

open Library.Runs Sessions

section

inductive EventType where
  | decision | discovery | blocker | reference | milestone | note | change

inductive EventStatus where
  | active | resolved | superseded | archived
deriving DecidableEq

def EventStatus.text : EventStatus → String
  | active => "active"
  | resolved => "resolved"
  | superseded => "superseded"
  | archived => "archived"

/-- What the JSON of the `meta` column stands for. -/
abbrev Meta (Json : Type) := AList fun _ : String => Json

structure EventRow (Json : Type) where
  id : String
  nodeId : String
  type : EventType
  content : String
  metadata : Option (Meta Json) := none
  status : EventStatus := .active
  refs : Option (List String) := none
  taskRef : Option String := none
  createdBy : String
  createdAt : String
  loggedAt : String

/-- `none` leaves the column as it is. -/
structure UpdateEventFields (Json : Type) where
  content : Option String := none
  type : Option EventType := none
  status : Option EventStatus := none
  createdAt : Option String := none
  metadata : Option (Option (Meta Json)) := none
  refs : Option (Option (List String)) := none
  taskRef : Option (Option String) := none

inductive Request (Json : Type) where
  | resolve (resolution : Option String)
  | supersede (userId newContent : String) (metadata : Option (Meta Json))
  | update (fields : UpdateEventFields Json)

/-- A call has read the row and is at the visibility check or the write guard, or it is
`supersedeEventInternal` that has read the row, or it is over but for its audit entry. -/
inductive Phase (Json : Type) where
  | guarding (row : EventRow Json)
  | superseding (row : EventRow Json)
  | answered (error : Option String)

structure Call (Json : Type) where
  request : Request Json
  phase : Phase Json

/-- A statement or a batch that wrote, with what it found: the row, the successors and the `meta`
that the last update gave, or the event's first. -/
structure Write (Json : Type) where
  request : Request Json
  before : EventRow Json
  after : EventRow Json
  others : List (EventRow Json)
  given : Option (Meta Json)
  successor : Option (EventRow Json)

structure State (Json : Type) where
  event : EventRow Json
  given : Option (Meta Json)
  successors : List (EventRow Json) := []
  calls : List (Call Json) := []
  writes : List (Write Json) := []

inductive Action (Json : Type) where
  | call (request : Request Json)
  | refuse (i : ℕ) (error : String)
  | proceed (i : ℕ) (newId now : String)

variable {Json : Type} (toISOString : String → Option String) (json : String → Json)

def UpdateEventFields.isEmpty (fields : UpdateEventFields Json) : Bool :=
  fields.content.isNone && fields.type.isNone && fields.status.isNone && fields.createdAt.isNone &&
    fields.metadata.isNone && fields.refs.isNone && fields.taskRef.isNone

/-- The checks of `updateEventInternal`; the schema of the tool admits no other type or status. -/
def UpdateEventFields.checked (fields : UpdateEventFields Json) :
    Except String (UpdateEventFields Json) := do
  let content ← fields.content.mapM fun content =>
    if trim content = "" then .error "content must not be empty" else .ok (trim content)
  let createdAt ← fields.createdAt.mapM fun date => match toISOString date with
    | some parsed => .ok parsed
    | none => .error ("invalid created_at; expected ISO datetime " ++
        "(e.g. 2024-01-15 or 2024-01-15T10:30:00Z)")
  if fields.isEmpty then .error "no fields to update"
  else .ok { fields with content, createdAt }

def EventRow.update (row : EventRow Json) (fields : UpdateEventFields Json) : EventRow Json :=
  { row with
    content := fields.content.getD row.content
    type := fields.type.getD row.type
    status := fields.status.getD row.status
    createdAt := fields.createdAt.getD row.createdAt
    metadata := fields.metadata.getD row.metadata
    refs := fields.refs.getD row.refs
    taskRef := fields.taskRef.getD row.taskRef }

/-- The `meta` that `portuni_resolve` writes, from the row it read. -/
def EventRow.resolvedMeta (row : EventRow Json) (resolution : Option String) : Meta Json :=
  let existing := row.metadata.getD ∅
  resolution.elim existing fun text => existing.insert "resolution" (json text)

def EventRow.successor (row : EventRow Json) (userId newContent : String)
    (metadata : Option (Meta Json)) (newId now : String) : EventRow Json where
  id := newId
  nodeId := row.nodeId
  type := row.type
  content := newContent
  metadata := metadata.or row.metadata
  refs := some [row.id]
  taskRef := row.taskRef
  createdBy := userId
  createdAt := row.createdAt
  loggedAt := now

def init (event : EventRow Json) : State Json := { event, given := event.metadata }

namespace State

def goto (s : State Json) (i : ℕ) (request : Request Json) (phase : Phase Json) : State Json :=
  { s with calls := s.calls.set i ⟨request, phase⟩ }

def write (s : State Json) (i : ℕ) (request : Request Json) (after : EventRow Json)
    (successor : Option (EventRow Json)) (given : Option (Meta Json)) : State Json :=
  { s.goto i request (.answered none) with
    event := after
    given
    successors := s.successors ++ successor.toList
    writes := s.writes ++ [⟨request, s.event, after, s.successors, s.given, successor⟩] }

end State

def step (s : State Json) : Action Json → Option (State Json)
  | .call request => some { s with calls := s.calls ++ [⟨request, .guarding s.event⟩] }
  | .refuse i error => match s.calls[i]? with
    | some ⟨request, .guarding _⟩ => some (s.goto i request (.answered (some error)))
    | _ => none
  | .proceed i newId now => match s.calls[i]? with
    | some ⟨.resolve resolution, .guarding row⟩ =>
      if row.status = .active then
        some (s.write i (.resolve resolution)
          { s.event with
            status := .resolved, metadata := some (row.resolvedMeta json resolution) } none s.given)
      else
        some (s.goto i (.resolve resolution) (.answered (some ("Error: event " ++ row.id ++
          " is not active (status: " ++ row.status.text ++ ")"))))
    | some ⟨.supersede userId newContent metadata, .guarding _⟩ =>
      some (s.goto i (.supersede userId newContent metadata) (.superseding s.event))
    | some ⟨.supersede userId newContent metadata, .superseding row⟩ =>
      some (s.write i (.supersede userId newContent metadata)
        { s.event with status := .superseded }
        (some (row.successor userId newContent metadata newId now)) s.given)
    | some ⟨.update fields, .guarding _⟩ => match fields.checked toISOString with
      | .error message =>
        some (s.goto i (.update fields) (.answered (some ("Error: " ++ message))))
      | .ok checked =>
        some (s.write i (.update fields) (s.event.update checked) none
          (checked.metadata.getD s.given))
    | _ => none

end

variable {Json : Type} {json : String → Json} {toISOString : String → Option String}
  {s s' : State Json} {i : ℕ} {request : Request Json} {resolution : Option String}

def field (metadata : Option (Meta Json)) (key : String) : Option Json :=
  metadata.bind (·.lookup key)

/-- What a call that wrote owes to the row and the successors it wrote over. -/
def Write.Sound (json : String → Json) (w : Write Json) : Prop :=
  match w.request with
  | .resolve resolution => w.before.status = .active ∧
      (∀ key ≠ "resolution", field w.after.metadata key = field w.given key) ∧
      ∀ text ∈ resolution, field w.after.metadata "resolution" = some (json text)
  | .supersede _ _ metadata => (∀ e ∈ w.others, e.status ≠ .active) ∧
      ∃ e, w.successor = some e ∧ e.type = w.before.type ∧ e.taskRef = w.before.taskRef ∧
        e.createdAt = w.before.createdAt ∧ e.metadata = metadata.or w.before.metadata
  | .update _ => True

def State.activeSuccessors (s : State Json) : List (EventRow Json) :=
  s.successors.filter fun e => e.status = .active

/-- What `portuni_resolve` and `portuni_supersede` read stands when they write, and the event has
not been superseded by an earlier call. -/
def Undisturbed (s : State Json) : Action Json → Prop
  | .proceed i _ _ => match s.calls[i]? with
    | some ⟨.resolve _, .guarding row⟩ => row.status = .active →
        s.event.status = .active ∧ s.event.metadata = row.metadata
    | some ⟨.supersede _ _ metadata, .superseding row⟩ => s.successors = [] ∧
        s.event.type = row.type ∧ s.event.taskRef = row.taskRef ∧
        s.event.createdAt = row.createdAt ∧ (metadata = none → s.event.metadata = row.metadata)
    | _ => True
  | _ => True

structure Inv (json : String → Json) (s : State Json) : Prop where
  writes : ∀ w ∈ s.writes, w.Sound json
  given : ∀ key ≠ "resolution", field s.event.metadata key = field s.given key
  successors : s.activeSuccessors.length ≤ 1

theorem field_resolvedMeta (row : EventRow Json) {key : String} (hkey : key ≠ "resolution") :
    field (some (row.resolvedMeta json resolution)) key = field row.metadata key := by
  have hexisting : (row.metadata.getD ∅).lookup key = field row.metadata key := by
    cases row.metadata <;> rfl
  cases resolution with
  | none => exact hexisting
  | some text => exact (AList.lookup_insert_ne hkey).trans hexisting

theorem Inv.goto (inv : Inv json s) (phase : Phase Json) : Inv json (s.goto i request phase) :=
  ⟨inv.writes, inv.given, inv.successors⟩

theorem Inv.write (inv : Inv json s) {after : EventRow Json} {successor : Option (EventRow Json)}
    {given : Option (Meta Json)}
    (hsound : Write.Sound json ⟨request, s.event, after, s.successors, s.given, successor⟩)
    (hgiven : ∀ key ≠ "resolution", field after.metadata key = field given key)
    (hsuccessors : successor = none ∨ s.successors = []) :
    Inv json (s.write i request after successor given) where
  writes := by
    intro w hw
    rcases List.mem_append.mp hw with hw | hw
    · exact inv.writes w hw
    · cases List.mem_singleton.mp hw
      exact hsound
  given := hgiven
  successors := by
    have hactive := inv.successors
    simp only [State.activeSuccessors, State.write, State.goto] at hactive ⊢
    rcases hsuccessors with rfl | hnil
    · simpa using hactive
    · rw [hnil, List.nil_append]
      exact Nat.le_trans (List.length_filter_le _ _) (by cases successor <;> simp)

theorem Inv.step (inv : Inv json s) {a : Action Json} (hallowed : Undisturbed s a)
    (hstep : step toISOString json s a = some s') : Inv json s' := by
  cases a with
  | call request =>
    cases hstep
    exact ⟨inv.writes, inv.given, inv.successors⟩
  | refuse i error =>
    simp only [Events.step] at hstep
    split at hstep
    · cases hstep
      exact inv.goto _
    · cases hstep
  | proceed i newId now =>
    simp only [Events.step] at hstep
    simp only [Undisturbed] at hallowed
    split at hstep
    · next resolution row hi =>
      rw [hi] at hallowed
      split at hstep
      · next hread =>
        cases hstep
        obtain ⟨hactive, hmeta⟩ := hallowed hread
        have hkept : ∀ key ≠ "resolution",
            field (some (row.resolvedMeta json resolution)) key = field s.given key :=
          fun key hkey => by rw [field_resolvedMeta row hkey, ← hmeta, inv.given key hkey]
        refine inv.write ⟨hactive, hkept, ?_⟩ hkept (.inl rfl)
        rintro text ⟨⟩
        simp [field, EventRow.resolvedMeta]
      · cases hstep
        exact inv.goto _
    · cases hstep
      exact inv.goto _
    · next userId newContent metadata row hi =>
      cases hstep
      rw [hi] at hallowed
      obtain ⟨hfirst, htype, htask, hdate, hmeta⟩ := hallowed
      refine inv.write ⟨by simp [hfirst], _, rfl, htype.symm, htask.symm, hdate.symm, ?_⟩
        inv.given (.inr hfirst)
      cases metadata with
      | none => exact (hmeta rfl).symm
      | some _ => rfl
    · next fields row hi =>
      split at hstep
      · cases hstep
        exact inv.goto _
      · next checked hchecked =>
        cases hstep
        refine inv.write trivial (fun key hkey => ?_) (.inl rfl)
        cases hgiven : checked.metadata with
        | none => simpa [EventRow.update, hgiven] using inv.given key hkey
        | some metadata => simp [EventRow.update, hgiven]
    · cases hstep

/-- In a run in which what a call decided on still stands when it writes: a call resolves the event
only if it is active, keeps the `meta` the last update gave and adds its resolution to it, and
supersedes the event only if no active event replaces it, by a copy of the event as it is. -/
theorem writes_sound {event : EventRow Json} {acts : List (Action Json)}
    (run : Run (step toISOString json) Undisturbed (init event) acts s) :
    (∀ w ∈ s.writes, w.Sound json) ∧ s.activeSuccessors.length ≤ 1 := by
  have inv := run.inv (Inv json) ⟨by simp [init], fun _ _ => rfl, Nat.zero_le _⟩
    fun _ _ _ inv hallowed hstep => inv.step hallowed hstep
  exact ⟨inv.writes, inv.successors⟩

def question : EventRow String where
  id := "e"
  nodeId := "n"
  type := .blocker
  content := "Which port?"
  createdBy := "u"
  createdAt := "2026-09-01T00:00:00.000Z"
  loggedAt := "2026-09-01T00:00:00.000Z"

def portGiven : UpdateEventFields String where
  metadata := some (some (AList.singleton "port" "4011"))

/-- The update comes before the call that resolves. -/
theorem writes_sound_after_update :
    ∃ acts s, Run (step some id) Undisturbed (init question) acts s ∧ s.event.status = .resolved ∧
      (∀ w ∈ s.writes, w.Sound id) ∧ s.activeSuccessors.length ≤ 1 := by
  have start : Run (step some id) Undisturbed (init question) [] _ := .nil
  have updated := (start.snoc (Action.call (.update portGiven)) trivial rfl).snoc
    (Action.proceed 0 "" "") trivial rfl
  have run := (updated.snoc (Action.call (.resolve (some "4011"))) trivial rfl).snoc
    (Action.proceed 1 "" "") (fun _ => ⟨rfl, rfl⟩) rfl
  exact ⟨_, _, run, rfl, writes_sound run⟩

/-- The update comes while `portuni_resolve` waits at the write guard: its `meta` is lost. -/
theorem update_overwritten :
    ¬∀ (event : EventRow String) (acts : List (Action String)) (s : State String),
      Run (step some id) (fun _ _ => True) (init event) acts s →
        (∀ w ∈ s.writes, w.Sound id) ∧ s.activeSuccessors.length ≤ 1 := by
  intro h
  have hsound := (h question
    [.call (.resolve (some "4011")),
      .call (.update portGiven),
      .proceed 1 "" "", .proceed 0 "" ""] _
    (.snoc _ (.snoc _ (.snoc _ (.snoc _ .nil trivial rfl) trivial rfl) trivial rfl) trivial rfl)).1
    _ (List.mem_append_right _ (List.mem_singleton_self _))
  exact absurd (hsound.2.1 "port" (by decide)) (by decide)

end Portuni.Events
