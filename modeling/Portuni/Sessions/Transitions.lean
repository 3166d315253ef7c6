import Portuni.Library.Interleaving

/-!
The session record and the functions that change its state, each as the database
statements that it issues one after the other.
-/

namespace Portuni.Sessions

open Library.Interleaving

inductive SessionState where
  | draft
  | running
  | suspended
  | closed
  | archived
deriving DecidableEq

def SessionState.name : SessionState → String
  | .draft => "draft"
  | .running => "running"
  | .suspended => "suspended"
  | .closed => "closed"
  | .archived => "archived"

def allowedTransitions : SessionState → List SessionState
  | .draft => [.running]
  | .running => [.suspended, .closed]
  | .suspended => [.running, .closed]
  | .closed => [.running, .archived]
  | .archived => []

def isAllowedSessionTransition (fromState toState : SessionState) : Bool :=
  fromState = toState || (allowedTransitions fromState).contains toState

structure SessionRow where
  userId : String
  state : SessionState
  lastActiveAt : ℕ
  closedAt : Option ℕ := none
  name : String
  nameIsCustom : Bool := false
  agentSessionId : Option String := none
  handoffPath : Option String := none
  handoffHash : Option String := none
  waitingSince : Option String := none
  runner : Option String := none
  instanceId : Option String := none
  model : Option String := none
  effort : Option String := none
  contextUsedTokens : Option ℕ := none
  contextMaxTokens : Option ℕ := none

inductive AuditDetail where
  | transition (fromState toState : SessionState)
  | suspend (handoffPath handoffHash : Option String)
  | draftDeleted

structure SessionAudit where
  actorUserId : String
  action : String
  detail : AuditDetail

structure SessionDb where
  row : Option SessionRow
  auditLog : List SessionAudit := []

structure SuspendSessionInput where
  handoffPath : Option String
  handoffHash : Option String
  agentSessionId : Option String := none
  handoffTitle : Option String := none

/-- `some none` sets a column to null, `none` leaves it. -/
structure PatchSessionInput where
  state : Option SessionState := none
  waitingSince : Option (Option String) := none
  name : Option String := none
  handoffPath : Option (Option String) := none
  handoffHash : Option (Option String) := none
  runner : Option String := none
  instanceId : Option (Option String) := none
  nameIsCustom : Option Bool := none
  model : Option (Option String) := none
  effort : Option (Option String) := none
  contextUsedTokens : Option (Option ℕ) := none
  contextMaxTokens : Option (Option ℕ) := none

def PatchSessionInput.set (patch : PatchSessionInput) (r : SessionRow) : SessionRow :=
  { r with
    waitingSince := patch.waitingSince.getD r.waitingSince
    name := patch.name.getD r.name
    handoffPath := patch.handoffPath.getD r.handoffPath
    handoffHash := patch.handoffHash.getD r.handoffHash
    runner := patch.runner.or r.runner
    instanceId := patch.instanceId.getD r.instanceId
    nameIsCustom := patch.nameIsCustom.getD r.nameIsCustom
    model := patch.model.getD r.model
    effort := patch.effort.getD r.effort
    contextUsedTokens := patch.contextUsedTokens.getD r.contextUsedTokens
    contextMaxTokens := patch.contextMaxTokens.getD r.contextMaxTokens }

def PatchSessionInput.setsColumns (patch : PatchSessionInput) : Bool :=
  patch.waitingSince.isSome || patch.name.isSome || patch.handoffPath.isSome ||
    patch.handoffHash.isSome || patch.runner.isSome || patch.instanceId.isSome ||
    patch.nameIsCustom.isSome || patch.model.isSome || patch.effort.isSome ||
    patch.contextUsedTokens.isSome || patch.contextMaxTokens.isSome

def isWhiteSpace (c : Char) : Bool :=
  (0x09 ≤ c.toNat && c.toNat ≤ 0x0d) || (0x2000 ≤ c.toNat && c.toNat ≤ 0x200a) ||
    [0x20, 0xa0, 0x1680, 0x2028, 0x2029, 0x202f, 0x205f, 0x3000, 0xfeff].contains c.toNat

def trim (text : String) : String :=
  String.ofList (((text.toList.dropWhile isWhiteSpace).reverse.dropWhile isWhiteSpace).reverse)

/-- `handoffEnrichedName`: a title that is not blank names a session that nobody renamed. -/
def handoffEnrichedName (session : SessionRow) (handoffTitle : Option String) : String :=
  match handoffTitle.map trim with
  | some title => if !session.nameIsCustom && title ≠ "" then title else session.name
  | none => session.name

/-- The statements. An `UPDATE` keyed on the id alone carries the row that its caller had
loaded, from which its values come. -/
inductive Statement where
  | select
  | transition (existing : SessionRow) (toState : SessionState) (now : ℕ)
  | suspend (existing : SessionRow) (input : SuspendSessionInput) (now : ℕ)
  | archive (cutoff : ℕ)
  | update (patch : PatchSessionInput)
  | delete
  | audit (row : SessionAudit)

def closedAtAfter (existing : SessionRow) (toState : SessionState) (now : ℕ) : Option ℕ :=
  if toState = .closed then some now
  else if toState = .running then none
  else existing.closedAt

def Statement.perform (s : Statement) (db : SessionDb) : SessionDb :=
  match s with
  | .select => db
  | .transition existing toState now =>
    { db with row := db.row.map fun r =>
        { r with state := toState, lastActiveAt := now,
                 closedAt := closedAtAfter existing toState now } }
  | .suspend existing input now =>
    { db with row := db.row.map fun r =>
        { r with
          state := .suspended
          handoffPath := input.handoffPath
          handoffHash := input.handoffHash
          agentSessionId := input.agentSessionId.or r.agentSessionId
          lastActiveAt := now
          name := handoffEnrichedName existing input.handoffTitle } }
  | .archive cutoff =>
    { db with row := db.row.map fun r =>
        if r.state = .closed ∧ r.closedAt.any (· < cutoff) then { r with state := .archived }
        else r }
  | .update patch => { db with row := db.row.map patch.set }
  | .delete => { db with row := none }
  | .audit row => { db with auditLog := db.auditLog ++ [row] }

inductive Answer where
  | row (r : SessionRow)
  | count (rowsAffected : ℕ)
  | deleted

abbrev SessionProgram := Program Statement SessionDb (Except String Answer)

def reload (missing : String) : SessionProgram :=
  .statement .select fun db =>
    match db.row with
    | none => .done (.error missing)
    | some r => .done (.ok (.row r))

variable (sessionId : String)

def transitionSessionState (actorUserId : String) (toState : SessionState) (now : ℕ) :
    SessionProgram :=
  .statement .select fun db =>
    match db.row with
    | none => .done (.error ("transitionSessionState: " ++ sessionId ++ " not found"))
    | some existing =>
      if existing.state = toState then .done (.ok (.row existing))
      else if !isAllowedSessionTransition existing.state toState then
        .done (.error ("transitionSessionState: " ++ existing.state.name ++ " -> " ++
          toState.name ++ " is not a valid transition"))
      else
        .statement (.transition existing toState now) fun _ =>
          .statement (.audit ⟨actorUserId, "session_state_transition",
              .transition existing.state toState⟩) fun _ =>
            reload ("transitionSessionState: row " ++ sessionId ++ " disappeared after UPDATE")

def suspendSession (actorUserId : String) (input : SuspendSessionInput) (now : ℕ) :
    SessionProgram :=
  .statement .select fun db =>
    match db.row with
    | none => .done (.error ("suspendSession: " ++ sessionId ++ " not found"))
    | some existing =>
      if existing.state ≠ .running ∧ existing.state ≠ .suspended then
        .done (.error ("suspendSession: cannot suspend a session in state '" ++
          existing.state.name ++ "'"))
      else
        .statement (.suspend existing input now) fun _ =>
          .statement (.audit ⟨actorUserId, "session_suspend",
              .suspend input.handoffPath input.handoffHash⟩) fun _ =>
            reload ("suspendSession: row " ++ sessionId ++ " disappeared after UPDATE")

def autoArchiveClosedSessions (cutoff : ℕ) : SessionProgram :=
  .statement (.archive cutoff) fun db =>
    .done (.ok (.count (db.row.filter fun r =>
      r.state = .closed && r.closedAt.any (· < cutoff)).toList.length))

def deleteDraftSession (actorUserId : String) : SessionProgram :=
  .statement .select fun db =>
    match db.row with
    | none => .done (.error ("deleteDraftSession: " ++ sessionId ++ " not found"))
    | some existing =>
      if existing.state ≠ .draft then
        .done (.error ("deleteDraftSession: session " ++ sessionId ++ " is not a draft (state: " ++
          existing.state.name ++ ")"))
      else
        .statement .delete fun _ =>
          .statement (.audit ⟨actorUserId, "session_delete", .draftDeleted⟩) fun _ =>
            .done (.ok .deleted)

def patchColumns (patch : PatchSessionInput) : SessionProgram :=
  let last := reload ("patchSession: " ++ sessionId ++ " not found")
  if patch.setsColumns then .statement (.update patch) fun _ => last else last

def patchSession (patch : PatchSessionInput) (now : ℕ) : SessionProgram :=
  match patch.state with
  | none => patchColumns sessionId patch
  | some toState =>
    .statement .select fun db =>
      match db.row with
      | none => .done (.error ("patchSession: " ++ sessionId ++ " not found"))
      | some existing =>
        (transitionSessionState sessionId existing.userId toState now).bind fun
          | .error message => .done (.error message)
          | .ok _ => patchColumns sessionId patch

/-- A call on the session; `now` is the time that it reads. -/
inductive SessionCall where
  | transition (actorUserId : String) (toState : SessionState) (now : ℕ)
  | suspend (actorUserId : String) (input : SuspendSessionInput) (now : ℕ)
  | autoArchive (cutoff : ℕ)
  | patch (input : PatchSessionInput) (now : ℕ)
  | deleteDraft (actorUserId : String)

def SessionCall.program : SessionCall → SessionProgram
  | .transition actorUserId toState now =>
    transitionSessionState sessionId actorUserId toState now
  | .suspend actorUserId input now => suspendSession sessionId actorUserId input now
  | .autoArchive cutoff => autoArchiveClosedSessions cutoff
  | .patch input now => patchSession sessionId input now
  | .deleteDraft actorUserId => deleteDraftSession sessionId actorUserId

open Library.Runs

/-- `closed_at` is set exactly in the states closed and archived. -/
def ClosedAtFits (r : SessionRow) : Prop :=
  r.closedAt.isSome ↔ r.state = .closed ∨ r.state = .archived

def RowFits (db : SessionDb) : Prop := ∀ r, db.row = some r → ClosedAtFits r

/-- What the state column goes through from one committed row to the next. -/
structure StateChange (before after : SessionRow) : Prop where
  allowed : isAllowedSessionTransition before.state after.state
  archivedStays : before.state = .archived → after.state = .archived
  closedNotSuspended : before.state = .closed → after.state ≠ .suspended
  draftRuns : before.state = .draft → after.state = .draft ∨ after.state = .running

def Committed (db db' : SessionDb) : Prop :=
  ∀ r r', db.row = some r → db'.row = some r' → StateChange r r'

/-- The state that a caller loaded is still the row's when its update comes. -/
def Fresh (db : SessionDb) : Statement → Prop
  | .transition existing _ _ | .suspend existing _ _ =>
    ∀ r, db.row = some r → r.state = existing.state
  | _ => True

instance (db : SessionDb) (s : Statement) : Decidable (Fresh db s) :=
  match s with
  | .transition existing _ _ => inferInstanceAs (Decidable (∀ r ∈ db.row, r.state = existing.state))
  | .suspend existing _ _ => inferInstanceAs (Decidable (∀ r ∈ db.row, r.state = existing.state))
  | .select | .archive _ | .update _ | .delete | .audit _ => isTrue trivial

abbrev SessionPool := Pool Statement SessionDb (Except String Answer)

abbrev sessionStep (sessionId : String) :
    SessionPool → Action SessionCall (Except String Answer) → Option SessionPool :=
  step Statement.perform (SessionCall.program sessionId)

def initialPool (db : SessionDb) : SessionPool := ⟨db, []⟩

abbrev SafeProgram : SessionProgram → Prop := Safe Statement.perform RowFits Fresh Committed

variable {sessionId : String} {db db' : SessionDb} {r r' : SessionRow} {toState : SessionState}

theorem stateChange_of_allowed (h : isAllowedSessionTransition r.state r'.state) :
    StateChange r r' := by
  refine ⟨h, fun hr => ?_, fun hr hr' => ?_, fun hr => ?_⟩
  · rw [hr] at h
    revert h
    cases r'.state <;> decide
  · rw [hr, hr'] at h
    revert h
    decide
  · rw [hr] at h
    revert h
    cases r'.state <;> decide

theorem stateChange_of_eq (h : r.state = r'.state) : StateChange r r' :=
  stateChange_of_allowed (by simp [isAllowedSessionTransition, h])

theorem committed_refl (db : SessionDb) : Committed db db := by
  intro r r' hr hr'
  obtain rfl := Option.some.inj (hr.symm.trans hr')
  exact stateChange_of_eq rfl

theorem keeps_of_sameState (hrow : ∀ r', db'.row = some r' →
      ∃ r, db.row = some r ∧ r.state = r'.state ∧ r.closedAt = r'.closedAt)
    (h : RowFits db) : RowFits db' ∧ Committed db db' := by
  refine ⟨fun r' hr' => ?_, fun r r' hr hr' => ?_⟩
  · obtain ⟨r, hr, hstate, hclosed⟩ := hrow r' hr'
    rw [ClosedAtFits, ← hstate, ← hclosed]
    exact h r hr
  · obtain ⟨r₀, hr₀, hstate, -⟩ := hrow r' hr'
    obtain rfl := Option.some.inj (hr.symm.trans hr₀)
    exact stateChange_of_eq hstate

theorem keeps_of_map {f : SessionRow → SessionRow} (hrow : db'.row = db.row.map f)
    (h : ∀ r, db.row = some r → ClosedAtFits (f r) ∧
      isAllowedSessionTransition r.state (f r).state) :
    RowFits db' ∧ Committed db db' := by
  have hback : ∀ r', db'.row = some r' → ∃ r, db.row = some r ∧ f r = r' := fun r' hr' =>
    Option.map_eq_some_iff.mp (hrow ▸ hr')
  refine ⟨fun r' hr' => ?_, fun r r' hr hr' => ?_⟩
  · obtain ⟨r, hr, rfl⟩ := hback r' hr'
    exact (h r hr).1
  · obtain ⟨r₀, hr₀, rfl⟩ := hback r' hr'
    obtain rfl := Option.some.inj (hr.symm.trans hr₀)
    exact stateChange_of_allowed (h r hr).2

theorem keeps_select (h : RowFits db) :
    RowFits (Statement.select.perform db) ∧ Committed db (Statement.select.perform db) :=
  ⟨h, committed_refl db⟩

theorem keeps_audit (row : SessionAudit) (h : RowFits db) :
    RowFits ((Statement.audit row).perform db) ∧ Committed db ((Statement.audit row).perform db) :=
  keeps_of_sameState (fun r' hr' => ⟨r', hr', rfl, rfl⟩) h

variable (patch : PatchSessionInput)

theorem keeps_update (h : RowFits db) :
    RowFits ((Statement.update patch).perform db) ∧
      Committed db ((Statement.update patch).perform db) := by
  refine keeps_of_sameState (fun r' hr' => ?_) h
  obtain ⟨r, hr, rfl⟩ := Option.map_eq_some_iff.mp hr'
  exact ⟨r, hr, rfl, rfl⟩

theorem keeps_delete (h : RowFits db) :
    RowFits (Statement.delete.perform db) ∧ Committed db (Statement.delete.perform db) :=
  keeps_of_sameState (fun _ hr' => by cases hr') h

theorem keeps_archive (cutoff : ℕ) (h : RowFits db) :
    RowFits ((Statement.archive cutoff).perform db) ∧
      Committed db ((Statement.archive cutoff).perform db) := by
  refine keeps_of_map rfl fun r hr => ?_
  split
  · rename_i hclosed
    have hfits := h r hr
    rw [ClosedAtFits, hclosed.1] at hfits
    refine ⟨?_, by rw [hclosed.1]; rfl⟩
    simpa [ClosedAtFits] using hfits
  · exact ⟨h r hr, by simp [isAllowedSessionTransition]⟩

variable {existing : SessionRow}

theorem keeps_transition {now : ℕ} (hexisting : ClosedAtFits existing)
    (hne : existing.state ≠ toState) (hallowed : isAllowedSessionTransition existing.state toState)
    (fresh : Fresh db (.transition existing toState now)) :
    RowFits ((Statement.transition existing toState now).perform db) ∧
      Committed db ((Statement.transition existing toState now).perform db) := by
  refine keeps_of_map rfl fun r hr => ⟨?_, by rw [fresh r hr]; exact hallowed⟩
  revert hexisting hne hallowed
  simp only [ClosedAtFits, closedAtAfter]
  cases existing.state <;> cases toState <;> simp [isAllowedSessionTransition, allowedTransitions]

theorem keeps_suspend {input : SuspendSessionInput} {now : ℕ}
    (hlive : existing.state = .running ∨ existing.state = .suspended) (h : RowFits db)
    (fresh : Fresh db (.suspend existing input now)) :
    RowFits ((Statement.suspend existing input now).perform db) ∧
      Committed db ((Statement.suspend existing input now).perform db) := by
  refine keeps_of_map rfl fun r hr => ?_
  have hfits := h r hr
  rw [← fresh r hr] at hlive
  rw [ClosedAtFits] at hfits ⊢
  rcases hlive with hstate | hstate
  · rw [hstate] at hfits ⊢
    exact ⟨by simpa using hfits, rfl⟩
  · rw [hstate] at hfits ⊢
    exact ⟨by simpa using hfits, rfl⟩

theorem safe_reload (missing : String) : SafeProgram (reload missing) := by
  intro db h _
  refine ⟨(keeps_select h).1, (keeps_select h).2, ?_⟩
  simp only
  split <;> trivial

theorem safe_audited (row : SessionAudit) (missing : String) :
    SafeProgram (.statement (.audit row) fun _ => reload missing) :=
  fun _ h _ => ⟨(keeps_audit row h).1, (keeps_audit row h).2, safe_reload missing⟩

theorem safe_transitionSessionState (actorUserId : String) (now : ℕ) :
    SafeProgram (transitionSessionState sessionId actorUserId toState now) := by
  intro db h _
  refine ⟨(keeps_select h).1, (keeps_select h).2, ?_⟩
  cases hrow : db.row with
  | none =>
    simp only [hrow]
    trivial
  | some existing =>
    simp only [hrow]
    split
    · trivial
    · rename_i hne
      split
      · trivial
      · rename_i hallowed
        intro db' h' fresh
        have hkeeps := keeps_transition (h existing hrow) hne (by simpa using hallowed) fresh
        exact ⟨hkeeps.1, hkeeps.2, safe_audited _ _⟩

theorem safe_suspendSession (actorUserId : String) (input : SuspendSessionInput) (now : ℕ) :
    SafeProgram (suspendSession sessionId actorUserId input now) := by
  intro db h _
  refine ⟨(keeps_select h).1, (keeps_select h).2, ?_⟩
  cases hrow : db.row with
  | none =>
    simp only [hrow]
    trivial
  | some existing =>
    simp only [hrow]
    split
    · trivial
    · rename_i hlive
      intro db' h' fresh
      have hkeeps := keeps_suspend (Decidable.or_iff_not_not_and_not.mpr hlive) h' fresh
      exact ⟨hkeeps.1, hkeeps.2, safe_audited _ _⟩

theorem safe_autoArchiveClosedSessions (cutoff : ℕ) :
    SafeProgram (autoArchiveClosedSessions cutoff) :=
  fun _ h _ => ⟨(keeps_archive cutoff h).1, (keeps_archive cutoff h).2, trivial⟩

theorem safe_deleteDraftSession (actorUserId : String) :
    SafeProgram (deleteDraftSession sessionId actorUserId) := by
  intro db h _
  refine ⟨(keeps_select h).1, (keeps_select h).2, ?_⟩
  cases hrow : db.row with
  | none =>
    simp only [hrow]
    trivial
  | some existing =>
    simp only [hrow]
    split
    · trivial
    · intro db' h' _
      refine ⟨(keeps_delete h').1, (keeps_delete h').2, fun db'' h'' _ => ?_⟩
      exact ⟨(keeps_audit _ h'').1, (keeps_audit _ h'').2, trivial⟩

theorem safe_patchColumns : SafeProgram (patchColumns sessionId patch) := by
  simp only [patchColumns]
  split
  · exact fun _ h _ => ⟨(keeps_update patch h).1, (keeps_update patch h).2, safe_reload _⟩
  · exact safe_reload _

theorem safe_patchSession (now : ℕ) : SafeProgram (patchSession sessionId patch now) := by
  unfold patchSession
  cases patch.state with
  | none => exact safe_patchColumns patch
  | some toState =>
    intro db h _
    refine ⟨(keeps_select h).1, (keeps_select h).2, ?_⟩
    cases hrow : db.row with
    | none =>
      simp only [hrow]
      trivial
    | some existing =>
      simp only [hrow]
      refine (safe_transitionSessionState existing.userId now).bind fun result => ?_
      cases result with
      | error message => trivial
      | ok answer => exact safe_patchColumns patch

theorem safe_program (c : SessionCall) : SafeProgram (c.program sessionId) := by
  cases c with
  | transition actorUserId toState now => exact safe_transitionSessionState actorUserId now
  | suspend actorUserId input now => exact safe_suspendSession actorUserId input now
  | autoArchive cutoff => exact safe_autoArchiveClosedSessions cutoff
  | patch input now => exact safe_patchSession input now
  | deleteDraft actorUserId => exact safe_deleteDraftSession actorUserId

/-- In every run of any callers in which every update finds the state that its caller has
loaded, the row fits in every state reached, and every change of it is allowed. -/
theorem sessionState_changes {pool pool' : SessionPool}
    {acts : List (Action SessionCall (Except String Answer))} {a : Action SessionCall _}
    (start : RowFits db)
    (run : Run (sessionStep sessionId) (Admits Fresh) (initialPool db) acts pool)
    (fresh : Admits Fresh pool a) (hstep : sessionStep sessionId pool a = some pool') :
    RowFits pool.state ∧ RowFits pool'.state ∧ Committed pool.state pool'.state := by
  have hinitial : SafePool Statement.perform RowFits Fresh Committed (initialPool db) :=
    ⟨start, fun _ hp => absurd hp List.not_mem_nil⟩
  have hpool := hinitial.run safe_program committed_refl run
  have hnext := hpool.step safe_program committed_refl fresh hstep
  exact ⟨hpool.state, hnext.1.state, hnext.2⟩

def runningSession : SessionDb where
  row := some { userId := "user", state := .running, lastActiveAt := 1, name := "thread" }

theorem rowFits_runningSession : RowFits runningSession := by
  intro r hr
  cases hr
  simp [ClosedAtFits]

def bothLoaded : List (Action SessionCall (Except String Answer)) :=
  [.call (.suspend "user" ⟨none, none, none, none⟩ 2), .call (.transition "user" .closed 3),
    .next 0, .next 1]

theorem sessionState_changes_suspend :
    ∃ pool pool', Run (sessionStep "s") (Admits Fresh) (initialPool runningSession) bothLoaded pool ∧
      sessionStep "s" pool (.next 0) = some pool' ∧
      RowFits pool.state ∧ RowFits pool'.state ∧ Committed pool.state pool'.state := by
  have hrun : Run (sessionStep "s") (Admits Fresh) (initialPool runningSession) bothLoaded _ :=
    Run.of_exec rfl (by rfl)
  exact ⟨_, _, hrun, rfl, sessionState_changes (a := .next 0) rowFits_runningSession hrun
    (of_decide_eq_true rfl) rfl⟩

/-- The suspend writes after the close: a closed thread becomes suspended, and keeps its
closing time. -/
theorem closed_becomes_suspended :
    ∃ pool pool', Run (sessionStep "s") (fun _ _ => True) (initialPool runningSession)
        (bothLoaded ++ [.next 1]) pool ∧
      sessionStep "s" pool (.next 0) = some pool' ∧ ¬ RowFits pool'.state ∧
      ∃ r r', pool.state.row = some r ∧ pool'.state.row = some r' ∧ r.state = .closed ∧
        r'.state = .suspended ∧ isAllowedSessionTransition r.state r'.state = false := by
  refine ⟨_, _, Run.of_exec_eq_some rfl, rfl, fun h => ?_, _, _, rfl, rfl, rfl, rfl, rfl⟩
  have hfits := (h _ rfl).mp rfl
  simp at hfits

end Portuni.Sessions
