import Portuni.Library.InsertionOrder
import Portuni.Sessions.Transitions
import Portuni.WriteScope.Deepest

/-!
The questions an agent's run asks in the chat: tool calls that need an approval or an answer, and
the dialogs of connectors. One is open at a time and the others wait in line. A promise that
settles frees the line in a later step of its own.
-/

namespace Portuni.Questions

open AgentTools (Json)
open WriteScope

inductive QuestionValue where
  | text (text : String)
  | flag (flag : Bool)
  | answers (entries : List (String × String))
deriving DecidableEq

structure QuestionDecision where
  by_ : String
  value : QuestionValue
  at_ : String

structure QuestionPayload where
  requestId : String
  type : QuestionType
  tool : String
  title : String
  code : Option QuestionCode
  params : List (String × String)
  detail : String
  options : Option (List String)
  questions : Option (List AskPrompt)

inductive PermissionResult where
  | allow (updatedInput : ToolInput)
  | deny (message : String)

inductive ElicitationResult where
  | accept (content : List (String × Bool))
  | decline
  | cancel

inductive Settlement where
  | permission (result : PermissionResult)
  | dialog (result : ElicitationResult)

def Settlement.allows : Settlement → Bool
  | .permission (.allow _) => true
  | .dialog (.accept _) => true
  | _ => false

inductive RunnerDenyCode where
  | connectorDisabled
  | runEnded
  | turnStopped
  | deniedByUser
  | notAnswered

def denyMessage : RunnerDenyCode → String
  | .connectorDisabled =>
    "This connector is disabled for the run: use the portuni server (mcp__portuni__*)."
  | .runEnded => "The run ended before an answer arrived."
  | .turnStopped => "The turn was stopped before an answer arrived."
  | .deniedByUser => "Denied by the user."
  | .notAnswered => "The user did not answer the question."

inductive Asker where
  | permission (input : ToolInput) (toolUseId : Option String)
  | dialog (field : String)

structure Ask where
  payload : QuestionPayload
  asker : Asker

def Ask.requestId (ask : Ask) : String := ask.payload.requestId

def Ask.isDialog (ask : Ask) : Bool :=
  match ask.asker with
  | .permission _ _ => false
  | .dialog _ => true

section

inductive Happening where
  | asked (requestId : String) (isDialog : Bool)
  | question (payload : QuestionPayload) (decision : Option QuestionDecision)
  | error (message : String) (params : List (String × String))
  | answered (requestId : String)
  | aborted (requestId : String)
  | interrupted
  | runEnded
  | settled (requestId : String) (result : Settlement)
  /-- A call that asks nothing returns. -/
  | returned (requestId : String) (result : Settlement)

inductive Denied where
  | decided (code : DenyCode) (params : List (String × String))
  | refused (code : RunnerDenyCode)

structure State where
  pendingPermissions : List Ask
  pendingElicitations : List Ask
  elicitationStops : List String
  questionOpen : Bool
  questionQueue : List Ask
  disabledToolPrefixes : List String
  deniedToolUses : List (String × Denied)
  ended : Bool
  runEndedEmitted : Bool
  aborted : List String
  stopped : List String
  /-- Promises that settled and did not free the line so far. -/
  settling : List String
  /-- What happened, the events of the sink among it. -/
  log : List Happening

def init : State := ⟨[], [], [], false, [], [], [], false, false, [], [], [], []⟩

/-- The part of `RunStart` that permissions are decided by. -/
structure RunStart where
  machine : Machine
  cwd : String
  portuniRoot : String
  mirrors : List String
  policy : PermissionPolicy

variable (s : State)

def State.emit (h : Happening) : State := { s with log := s.log ++ [h] }

def State.noteDenied (toolUseId : Option String) (denied : Denied) : State :=
  match toolUseId with
  | some id =>
    { s with
      deniedToolUses := Library.InsertionOrder.set (·.1) s.deniedToolUses (id, denied) }
  | none => s

def deny (toolUseId : Option String) (code : RunnerDenyCode) : State × PermissionResult :=
  (s.noteDenied toolUseId (.refused code), .deny (denyMessage code))

def refuse (ask : Ask) (code : RunnerDenyCode) : State :=
  match ask.asker with
  | .permission _ toolUseId =>
    let denied := deny s toolUseId code
    denied.1.emit (.settled ask.requestId (.permission denied.2))
  | .dialog _ => s.emit (.settled ask.requestId (.dialog .cancel))

end

section

variable (s : State) (ask : Ask)

def isAborted : Bool :=
  if ask.isDialog then s.stopped.contains ask.requestId else s.aborted.contains ask.requestId

def markSettling : State := { s with settling := s.settling ++ [ask.requestId] }

def openQuestion : State :=
  if isAborted s ask then markSettling (refuse s ask .turnStopped) ask
  else
    let shown := s.emit (.question ask.payload none)
    if ask.isDialog then { shown with pendingElicitations := s.pendingElicitations ++ [ask] }
    else { shown with pendingPermissions := s.pendingPermissions ++ [ask] }

def runAsk : State :=
  let taken := { s with questionOpen := true }
  if s.ended then markSettling (refuse taken ask .runEnded) ask else openQuestion taken ask

def askInTurn : State :=
  if !s.questionOpen then runAsk s ask
  else { s with questionQueue := s.questionQueue ++ [ask] }

def advance (requestId : String) : State :=
  let freed := { s with questionOpen := false, settling := s.settling.erase requestId }
  match s.questionQueue with
  | [] => freed
  | next :: queue => runAsk { freed with questionQueue := queue } next

def leaveLine (requestId : String) : State :=
  match s.questionQueue.find? (·.requestId = requestId) with
  | some ask =>
    refuse { s with questionQueue := s.questionQueue.filter (·.requestId ≠ requestId) } ask
      .turnStopped
  | none => s

def closedBySystem (at_ : String) : QuestionDecision := ⟨"system", .flag false, at_⟩

end

section

variable (s : State)

def canUseTool (run : RunStart) (toolName : String) (input : ToolInput) (requestId : String)
    (toolUseId : Option String) : State :=
  if s.disabledToolPrefixes.any (fun p => p.toList.isPrefixOf toolName.toList) then
    let denied := deny s toolUseId .connectorDisabled
    denied.1.emit (.returned requestId (.permission denied.2))
  else
    match decidePermission run.machine toolName input run.cwd run.portuniRoot run.mirrors
        run.policy with
    | .allow => s.emit (.returned requestId (.permission (.allow input)))
    | .deny message code params =>
      (s.noteDenied toolUseId (.decided code params)).emit
        (.returned requestId (.permission (.deny message)))
    | .ask question =>
      let payload : QuestionPayload := ⟨requestId, question.type, toolName, question.title,
        some question.code, [], question.detail, question.options, question.questions⟩
      let ask : Ask := ⟨payload, .permission input toolUseId⟩
      let asked := s.emit (.asked requestId false)
      if s.ended then refuse asked ask .runEnded
      else if s.aborted.contains requestId then refuse asked ask .turnStopped
      else askInTurn asked ask

structure ElicitationRequest where
  serverName : String
  displayName : Option String
  isUrl : Bool
  title : Option String
  message : String
  properties : List (String × Json)

def confirmationField (request : ElicitationRequest) : Option String :=
  if request.isUrl then none
  else
    match request.properties with
    | [(name, .object fields)] =>
      match fields.lookup "type" with
      | some (.string type) => if type = "boolean" then some name else none
      | _ => none
    | _ => none

def onElicitation (request : ElicitationRequest) (requestId : String) : State :=
  let server := request.displayName.getD request.serverName
  if request.isUrl then
    (s.emit (.error ("Server " ++ server ++ " asked for a sign-in in a browser; the chat cannot " ++
      "open one, so the request was declined.") [("server", server)])).emit
      (.returned requestId (.dialog .decline))
  else
    match confirmationField request with
    | none => s.emit (.returned requestId (.dialog .decline))
    | some field =>
      -- an empty title counts as a title where it is read, and not where the code is chosen
      let named := request.title.any (· ≠ "")
      let payload : QuestionPayload := ⟨requestId, .approval, "mcp__" ++ request.serverName,
        request.title.getD ("Confirm: " ++ server),
        if named then none else some .mcpConfirmation,
        if named then [] else [("server", server)], request.message, none, none⟩
      let ask : Ask := ⟨payload, .dialog field⟩
      let asked := s.emit (.asked requestId true)
      if s.ended || s.aborted.contains requestId then
        asked.emit (.settled requestId (.dialog .cancel))
      else
        askInTurn { asked with elicitationStops := s.elicitationStops ++ [requestId] } ask

end

section

variable (s : State)

def abandonPermission (requestId at_ : String) : State :=
  match s.pendingPermissions.find? (·.requestId = requestId) with
  | some ask =>
    (refuse { s with
        pendingPermissions := s.pendingPermissions.filter (·.requestId ≠ requestId)
        settling := s.settling ++ [requestId] } ask .turnStopped).emit
      (.question ask.payload (some (closedBySystem at_)))
  | none => s

def abandonDialog (requestId at_ : String) : State :=
  match s.pendingElicitations.find? (·.requestId = requestId) with
  | some ask =>
    (refuse { s with
        pendingElicitations := s.pendingElicitations.filter (·.requestId ≠ requestId)
        settling := s.settling ++ [requestId] } ask .turnStopped).emit
      (.question ask.payload (some (closedBySystem at_)))
  | none => s

/-- `stopDialog`: the dialog's own signal fires once. -/
def stopDialog (at_ : String) (s : State) (requestId : String) : State :=
  if s.stopped.contains requestId then s
  else abandonDialog (leaveLine { s with stopped := s.stopped ++ [requestId] } requestId)
    requestId at_

def abort (requestId at_ : String) : State :=
  if s.aborted.contains requestId then s
  else
    let fired := { s.emit (.aborted requestId) with aborted := s.aborted ++ [requestId] }
    if s.elicitationStops.contains requestId then stopDialog at_ fired requestId
    else abandonPermission (leaveLine fired requestId) requestId at_

def interrupt (at_ : String) : State :=
  if s.ended then s
  else s.elicitationStops.foldl (stopDialog at_) (s.emit .interrupted)

def askUserQuestionAnswers (input : ToolInput) (value : QuestionValue) : List (String × String) :=
  (askUserQuestionFields input).questions.foldl (fun answers q =>
    let answer := match value with
      | .text text => some text
      | .answers entries => entries.lookup q.question
      | .flag _ => none
    match answer with
    | some text =>
      if Sessions.trim text ≠ "" then
        Library.InsertionOrder.set (·.1) answers (q.question, text)
      else answers
    | none => answers) []

def answerPermission (ask : Ask) (input : ToolInput) (toolUseId : Option String)
    (value : QuestionValue) : State × PermissionResult :=
  match ask.payload.type with
  | .input =>
    match value with
    | .flag false => deny s toolUseId .deniedByUser
    | .flag true => deny s toolUseId .notAnswered
    | _ =>
      let answers := Json.object
        ((askUserQuestionAnswers input value).map fun entry => (entry.1, .string entry.2))
      (s, .allow fun key => if key = "answers" then some answers else input key)
  | .approval =>
    if value = .flag true then (s, .allow input) else deny s toolUseId .deniedByUser

def settleAnswered (ask : Ask) (value : QuestionValue) : State :=
  match ask.asker with
  | .permission input toolUseId =>
    let settled := answerPermission s ask input toolUseId value
    settled.1.emit (.settled ask.requestId (.permission settled.2))
  | .dialog field =>
    s.emit (.settled ask.requestId
      (.dialog (if value = .flag true then .accept [(field, true)] else .decline)))

def answer (requestId : String) (value : QuestionValue) : State :=
  let told := s.emit (.answered requestId)
  match s.pendingElicitations.find? (·.requestId = requestId) with
  | some ask =>
    settleAnswered { told with
      pendingElicitations := s.pendingElicitations.filter (·.requestId ≠ requestId)
      settling := s.settling ++ [requestId] } ask value
  | none =>
    match s.pendingPermissions.find? (·.requestId = requestId) with
    | some ask =>
      settleAnswered { told with
        pendingPermissions := s.pendingPermissions.filter (·.requestId ≠ requestId)
        settling := s.settling ++ [requestId] } ask value
    | none => told

/-- One round of the loops of `finalizeEnded`. -/
def settleEnded (s : State) (ask : Ask) : State := markSettling (refuse s ask .runEnded) ask

def finalizeEnded : State :=
  if s.ended then s
  else
    let ending := { s with ended := true, pendingPermissions := [] }
    let ending := s.pendingPermissions.foldl settleEnded ending
    let ending := s.pendingElicitations.foldl settleEnded { ending with pendingElicitations := [] }
    s.questionQueue.foldl runAsk { ending with questionQueue := [] }

def emitRunEnded : State :=
  if s.runEndedEmitted then s else { s.emit .runEnded with runEndedEmitted := true }

def finish : State := finalizeEnded (emitRunEnded s)

end

inductive Action where
  | disable (prefixes : List String)
  | canUseTool (toolName : String) (input : ToolInput) (requestId : String)
      (toolUseId : Option String)
  | onElicitation (request : ElicitationRequest) (requestId : String)
  | answer (requestId : String) (value : QuestionValue)
  | abort (requestId at_ : String)
  | interrupt (at_ : String)
  | finish
  | advance (requestId : String)
  /-- The `finally` of `onElicitation`. -/
  | forget (requestId : String)

def Happening.asks? : Happening → Option String
  | .asked id _ => some id
  | _ => none

def Happening.settles? : Happening → Option String
  | .settled id _ => some id
  | _ => none

def askedIds (log : List Happening) : List String := log.filterMap Happening.asks?

def settledIds (log : List Happening) : List String := log.filterMap Happening.settles?

def step (run : RunStart) (s : State) : Action → Option State
  | .disable prefixes => some { s with disabledToolPrefixes := prefixes }
  | .canUseTool toolName input requestId toolUseId =>
    if requestId ∈ askedIds s.log then none
    else some (canUseTool s run toolName input requestId toolUseId)
  | .onElicitation request requestId =>
    if requestId ∈ askedIds s.log then none else some (onElicitation s request requestId)
  | .answer requestId value => some (answer s requestId value)
  | .abort requestId at_ => some (abort s requestId at_)
  | .interrupt at_ => some (interrupt s at_)
  | .finish => some (finish s)
  | .advance requestId => if requestId ∈ s.settling then some (advance s requestId) else none
  | .forget requestId =>
    if requestId ∈ settledIds s.log then
      some { s with elicitationStops := s.elicitationStops.filter (· ≠ requestId) }
    else none

end Portuni.Questions
