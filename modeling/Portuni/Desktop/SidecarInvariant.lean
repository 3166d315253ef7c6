import Mathlib.Logic.Function.Basic
import Portuni.Library.Runs

/-!
The desktop host's sidecars: the maps of children, ports, tokens and proxy secrets by
workspace, the threads that spawn and kill, and the readers of the children's output. A
thread stops between any two locks, and before and after the start of a process.
-/

namespace Portuni.Desktop.Sidecars

open Function (update)
open Library.Runs

inductive CommandEvent where
  | listening (port : ℕ)
  | backendError
  | terminated

/-- A process the host started, with the workspace, token and secret it was given. -/
structure Child where
  wsId : String
  token : String
  secret : String
  alive : Bool := true
  killed : Bool := false
  port : Option ℕ := none
  reading : Bool := false
  events : List CommandEvent := []

/-- What a caller of `kill_sidecar_ws` does next. -/
inductive AfterKill where
  | stop
  | removeWorkspace
  | spawn (mcpToken : Option String)

inductive Phase where
  | setEnabled (enabled : Bool)
  /-- A rotation stores the fresh token. -/
  | cache (token : String)
  /-- `rotating`: after a rotation's `cache`. -/
  | kill (rotating : Bool) (next : AfterKill)
  | dropPort (next : AfterKill)
  | removeWorkspace
  | load (mcpToken : Option String)
  | present (mcpToken : Option String)
  | defer (mcpToken : Option String)
  | storeToken (mcpToken : Option String)
  | storeSecret (token : String)
  | launch (token secret : String)
  | hold (token secret : String) (child : ℕ)
  | done

def AfterKill.phase : AfterKill → Phase
  | .stop => .done
  | .removeWorkspace => .removeWorkspace
  | .spawn mcpToken => .load mcpToken

def Phase.starting : Phase → Bool
  | .defer _ | .storeToken _ | .storeSecret _ | .launch .. | .hold .. => true
  | _ => false

def Phase.interrupts : Phase → Bool
  | .kill true _ | .dropPort _ => true
  | _ => false

/-- Start-up, a login and a retry spawn; create and enable set the flag first. -/
inductive Request where
  | spawn
  | enable
  | disable
  | delete
  | restart
  | rotate (fresh : String)
  | kill

def Request.phase : Request → Phase
  | .spawn => .load none
  | .enable => .setEnabled true
  | .disable => .setEnabled false
  | .delete => .kill false .removeWorkspace
  | .restart => .kill false (.spawn none)
  | .rotate fresh => .cache fresh
  | .kill => .kill false .stop

/-- A spawn that the presence check turned away: whether the child it found was running. -/
structure TurnedAway where
  wsId : String
  running : Bool
deriving DecidableEq

/-- An exit event as it was handled: whether a newer child of the workspace was running, the
port that went, and whether an error was reported. -/
structure ExitHandled where
  child : ℕ
  newer : Bool
  removed : Option ℕ
  reported : Bool
deriving DecidableEq

structure HostState where
  enabled : String → Bool := fun _ => false
  sidecars : String → Option ℕ := fun _ => none
  backendPorts : String → Option ℕ := fun _ => none
  authTokens : String → Option String := fun _ => none
  proxySecrets : String → Option String := fun _ => none
  children : ℕ → Option Child := fun _ => none
  nextChild : ℕ := 0
  threads : ℕ → Option (String × Phase) := fun _ => none
  nextThread : ℕ := 0
  turnedAway : List TurnedAway := []
  exits : List ExitHandled := []

/-- What the surroundings of a thread decide: whether the sync agent waits for a login, the
values that the Keychain and the random source give, and whether the process starts. -/
structure Choice where
  deferred : Bool := false
  token : String := ""
  secret : String := ""
  fails : Bool := false

inductive Action where
  | request (wsId : String) (request : Request)
  | advance (thread : ℕ) (choice : Choice)
  | announce (child port : ℕ)
  | fail (child : ℕ)
  | exit (child : ℕ)
  | read (child : ℕ)

namespace HostState

variable (s : HostState)

def anyThread (wsId : String) (p : Phase → Bool) : Bool :=
  (List.range s.nextThread).any fun j => (s.threads j).any fun t => t.1 = wsId ∧ p t.2

/-- A child of the same workspace, started later, runs and was not killed. -/
def newer (c : ℕ) (child : Child) : Bool :=
  (List.range s.nextChild).any fun d =>
    c < d ∧ (s.children d).any fun other =>
      other.wsId = child.wsId ∧ other.alive = true ∧ other.killed = false

def setChild (c : ℕ) (child : Child) : HostState :=
  { s with children := update s.children c (some child) }

def goto (j : ℕ) (wsId : String) (phase : Phase) : HostState :=
  { s with threads := update s.threads j (some (wsId, phase)) }

/-- `kill_sidecar_ws`, the first lock: the handle goes and its process is killed. -/
def killChild (wsId : String) : HostState :=
  match s.sidecars wsId with
  | none => s
  | some c =>
    { s with
      sidecars := update s.sidecars wsId none
      children := update s.children c
        ((s.children c).map fun child : Child => { child with killed := true }) }

def advance (j : ℕ) (wsId : String) (choice : Choice) : Phase → HostState
  | .setEnabled enabled =>
    { s with enabled := update s.enabled wsId enabled }.goto j wsId
      (if enabled then .load none else .kill false .stop)
  | .cache token =>
    { s with authTokens := update s.authTokens wsId (some token) }.goto j wsId
      (.kill true (.spawn (some token)))
  | .kill _ next => (s.killChild wsId).goto j wsId (.dropPort next)
  | .dropPort next =>
    { s with backendPorts := update s.backendPorts wsId none }.goto j wsId next.phase
  | .removeWorkspace =>
    { s with enabled := update s.enabled wsId false }.goto j wsId .done
  | .load mcpToken => s.goto j wsId (if s.enabled wsId then .present mcpToken else .done)
  | .present mcpToken =>
    match s.sidecars wsId with
    | some c =>
      { s.goto j wsId .done with
        turnedAway := s.turnedAway ++ [⟨wsId, (s.children c).any Child.alive⟩] }
    | none => s.goto j wsId (.defer mcpToken)
  | .defer mcpToken =>
    if choice.deferred then
      { s with backendPorts := update s.backendPorts wsId (some 0) }.goto j wsId .done
    else s.goto j wsId (.storeToken mcpToken)
  | .storeToken mcpToken =>
    { s with
      authTokens := update s.authTokens wsId (some (mcpToken.getD choice.token)) }.goto j wsId
        (.storeSecret (mcpToken.getD choice.token))
  | .storeSecret token =>
    { s with proxySecrets := update s.proxySecrets wsId (some choice.secret) }.goto j wsId
      (.launch token choice.secret)
  | .launch token secret =>
    if choice.fails then s.goto j wsId .done
    else
      let child : Child := { wsId, token, secret }
      { s.goto j wsId (.hold token secret s.nextChild) with
        children := update s.children s.nextChild (some child)
        nextChild := s.nextChild + 1 }
  | .hold _ _ c =>
    { s with
      sidecars := update s.sidecars wsId (some c)
      children := update s.children c
        ((s.children c).map fun child : Child => { child with reading := true }) }.goto
      j wsId .done
  | .done => s

def handle (c : ℕ) (child : Child) (event : CommandEvent) : HostState :=
  match event with
  | .listening port => { s with backendPorts := update s.backendPorts child.wsId (some port) }
  | .backendError => s
  | .terminated =>
    { s with
      backendPorts := update s.backendPorts child.wsId none
      exits := s.exits ++ [⟨c, s.newer c child, s.backendPorts child.wsId, true⟩] }

end HostState

def step (s : HostState) : Action → Option HostState
  | .request wsId request =>
    some { s.goto s.nextThread wsId request.phase with nextThread := s.nextThread + 1 }
  | .advance j choice => (s.threads j).map fun t => s.advance j t.1 choice t.2
  | .announce c port =>
    (s.children c).bind fun child =>
      if child.alive ∧ child.port = none then
        some (s.setChild c
          { child with port := some port, events := child.events ++ [.listening port] })
      else none
  | .fail c =>
    (s.children c).bind fun child =>
      if child.alive then
        some (s.setChild c { child with events := child.events ++ [.backendError] })
      else none
  | .exit c =>
    (s.children c).bind fun child =>
      if child.alive then
        some (s.setChild c { child with alive := false, events := child.events ++ [.terminated] })
      else none
  | .read c =>
    (s.children c).bind fun child =>
      match child.reading, child.events with
      | true, event :: events =>
        some ((s.handle c child event).setChild c { child with events })
      | _, _ => none

namespace HostState

variable (s : HostState)

/-- A thread that goes on undisturbed by the other threads of its workspace. -/
def clear (wsId : String) : Phase → Bool
  | .present _ => (s.sidecars wsId).isSome || !s.anyThread wsId Phase.starting
  | .kill true _ => !s.anyThread wsId Phase.starting
  | _ => true

def timely (c : ℕ) (child : Child) : List CommandEvent → Bool
  | .listening _ :: _ =>
    s.sidecars child.wsId == some c || s.anyThread child.wsId Phase.interrupts
  | .terminated :: _ => !s.newer c child
  | _ => true

end HostState

/-- No spawn passes its presence check beside another that is still starting a child, no
rotation comes to its kill beside one, no child exits unless killed, and the port of a child
is read while the child is held or a kill is under way, its exit before a newer child
runs. -/
def Undisturbed (s : HostState) : Action → Prop
  | .advance j _ => ∀ t ∈ s.threads j, s.clear t.1 t.2 = true
  | .exit c => ∀ child ∈ s.children c, child.killed = true
  | .read c => ∀ child ∈ s.children c, s.timely c child child.events = true
  | _ => True

instance (s : HostState) : (a : Action) → Decidable (Undisturbed s a)
  | .advance j _ => inferInstanceAs (Decidable (∀ t ∈ s.threads j, s.clear t.1 t.2 = true))
  | .exit c => inferInstanceAs (Decidable (∀ child ∈ s.children c, child.killed = true))
  | .read c =>
    inferInstanceAs (Decidable (∀ child ∈ s.children c, s.timely c child child.events = true))
  | .request .. => isTrue trivial
  | .announce .. => isTrue trivial
  | .fail _ => isTrue trivial

structure OneSidecar (s : HostState) (wsId : String) : Prop where
  one : ∀ c d child other, s.children c = some child → s.children d = some other →
    child.wsId = wsId → other.wsId = wsId → child.alive = true → other.alive = true →
    child.killed = false → other.killed = false → c = d
  held : ∀ c, s.sidecars wsId = some c → ∃ child, s.children c = some child ∧ child.alive = true
  known : s.anyThread wsId Phase.interrupts = false → ∀ port, s.backendPorts wsId = some port →
    port ≠ 0 → ∃ c child, s.sidecars wsId = some c ∧ s.children c = some child ∧
      child.port = some port ∧ s.authTokens wsId = some child.token ∧
      s.proxySecrets wsId = some child.secret
  respawned : ∀ r ∈ s.turnedAway, r.running = true
  late : ∀ e ∈ s.exits, e.newer = true → e.removed = none ∧ e.reported = false

/-!
What holds of the sidecar maps at every stop of the threads: one thread at most starts a
child of a workspace, and only without an entry; a stored token and secret are those of
the child, or a rotation is about to kill it; a port is the child's, or a kill is about to
drop it.
-/

namespace HostState

variable (s : HostState)

def Rotating (wsId : String) : Prop :=
  ∃ j next, s.threads j = some (wsId, .kill true next)

def Interrupted (wsId : String) : Prop :=
  ∃ j phase, s.threads j = some (wsId, phase) ∧ phase.interrupts = true

/-- The stored token is this one, or about to be replaced with its child. -/
def Token (wsId token : String) : Prop :=
  s.authTokens wsId = some token ∨ s.Rotating wsId

def Stored (wsId : String) : Phase → Prop
  | .storeSecret token => s.Token wsId token
  | .launch token secret => s.Token wsId token ∧ s.proxySecrets wsId = some secret
  | .hold token secret c => s.Token wsId token ∧ s.proxySecrets wsId = some secret ∧
      ∃ child, s.children c = some child ∧ child.wsId = wsId ∧ child.alive = true ∧
        child.killed = false ∧ child.token = token ∧ child.secret = secret
  | _ => True

def PortHeld (wsId : String) (port : ℕ) : Prop :=
  ∃ c child, s.sidecars wsId = some c ∧ s.children c = some child ∧ child.port = some port

end HostState

variable {wsId : String}

theorem HostState.Stored.imp {s t : HostState} {wsId : String} {phase : Phase}
    (hs : s.Stored wsId phase)
    (htoken : phase.starting = true → ∀ token, s.Token wsId token → t.Token wsId token)
    (hsecret : t.proxySecrets = s.proxySecrets)
    (hchild : ∀ token secret c child, phase = .hold token secret c → s.children c = some child →
      child.wsId = wsId → t.children c = some child) : t.Stored wsId phase := by
  cases phase with
  | storeSecret token => exact htoken rfl token hs
  | launch token secret => exact ⟨htoken rfl token hs.1, hsecret ▸ hs.2⟩
  | hold token secret c =>
    obtain ⟨ht, hsec, child, hc, hws, hrest⟩ := hs
    exact ⟨htoken rfl token ht, hsecret ▸ hsec, child,
      hchild token secret c child rfl hc hws, hws, hrest⟩
  | _ => trivial

structure Sound (s : HostState) : Prop where
  threadBound : ∀ j t, s.threads j = some t → j < s.nextThread
  childBound : ∀ c child, s.children c = some child → c < s.nextChild
  held : ∀ wsId c, s.sidecars wsId = some c → ∃ child, s.children c = some child ∧
    child.wsId = wsId ∧ child.alive = true ∧ child.killed = false
  unkilled : ∀ c child, s.children c = some child → child.killed = false →
    s.sidecars child.wsId = some c ∨
      ∃ j token secret, s.threads j = some (child.wsId, .hold token secret c)
  alone : ∀ j wsId phase, s.threads j = some (wsId, phase) → phase.starting = true →
    s.sidecars wsId = none ∧
      ∀ j' phase', s.threads j' = some (wsId, phase') → phase'.starting = true → j' = j
  stored : ∀ j wsId phase, s.threads j = some (wsId, phase) → s.Stored wsId phase
  matching : ∀ wsId c child, s.sidecars wsId = some c → s.children c = some child →
    s.Token wsId child.token ∧ s.proxySecrets wsId = some child.secret
  ported : ∀ wsId port, s.backendPorts wsId = some port → port ≠ 0 →
    s.PortHeld wsId port ∨ s.Interrupted wsId
  announced : ∀ c child port, s.children c = some child → .listening port ∈ child.events →
    child.port = some port
  respawned : ∀ r ∈ s.turnedAway, r.running = true
  late : ∀ e ∈ s.exits, e.newer = false

namespace Sound

variable {s : HostState}

theorem init : Sound {} := by
  constructor <;> simp

theorem exists_of_anyThread {p : Phase → Bool} (h : s.anyThread wsId p = true) :
    ∃ j phase, s.threads j = some (wsId, phase) ∧ p phase = true := by
  obtain ⟨j, -, hj⟩ := List.any_eq_true.mp h
  obtain ⟨⟨w, phase⟩, hthread, hp⟩ := (Option.any_eq_true _ _).mp hj
  obtain ⟨rfl, hphase⟩ := of_decide_eq_true hp
  exact ⟨j, phase, hthread, hphase⟩

theorem anyThread_of (h : Sound s) {p : Phase → Bool} {j : ℕ} {phase : Phase}
    (hj : s.threads j = some (wsId, phase)) (hp : p phase = true) : s.anyThread wsId p = true := by
  refine List.any_eq_true.mpr ⟨j, List.mem_range.mpr (h.threadBound j _ hj), ?_⟩
  simp [hj, hp]

theorem oneSidecar (h : Sound s) (wsId : String) : OneSidecar s wsId where
  one := by
    rintro c d child other hc hd rfl hws - - hkc hkd
    rcases h.unkilled c child hc hkc with hheld | ⟨j, t, sec, hj⟩
    · rcases h.unkilled d other hd hkd with hheld' | ⟨j', t', sec', hj'⟩
      · rw [hws, hheld] at hheld'
        exact Option.some.inj hheld'
      · rw [hws] at hj'
        rw [(h.alone j' _ _ hj' rfl).1] at hheld
        cases hheld
    · rcases h.unkilled d other hd hkd with hheld' | ⟨j', t', sec', hj'⟩
      · rw [hws, (h.alone j _ _ hj rfl).1] at hheld'
        cases hheld'
      · rw [hws] at hj'
        obtain rfl := (h.alone j _ _ hj rfl).2 j' _ hj' rfl
        rw [hj] at hj'
        simp only [Option.some.injEq, Prod.mk.injEq, Phase.hold.injEq, true_and] at hj'
        exact hj'.2.2
  held := by
    intro c hc
    obtain ⟨child, hchild, -, halive, -⟩ := h.held wsId c hc
    exact ⟨child, hchild, halive⟩
  known := by
    intro hquiet port hport hne
    have calm : ¬ s.Interrupted wsId := by
      rintro ⟨j, phase, hj, hp⟩
      rw [h.anyThread_of hj hp] at hquiet
      cases hquiet
    obtain ⟨c, child, hc, hchild, hp⟩ := (h.ported wsId port hport hne).resolve_right calm
    obtain ⟨htoken, hsecret⟩ := h.matching wsId c child hc hchild
    refine ⟨c, child, hc, hchild, hp, htoken.resolve_right ?_, hsecret⟩
    rintro ⟨j, next, hj⟩
    exact calm ⟨j, _, hj, rfl⟩
  respawned := h.respawned
  late := fun e he hnew => by
    rw [h.late e he] at hnew
    cases hnew

theorem threads_goto {j j' : ℕ} {wsId w : String} {new phase : Phase}
    (hj' : (s.goto j wsId new).threads j' = some (w, phase)) :
    (j' = j ∧ w = wsId ∧ phase = new) ∨ (j' ≠ j ∧ s.threads j' = some (w, phase)) := by
  by_cases hj : j' = j
  · subst hj
    simp only [HostState.goto, Function.update_self, Option.some.injEq, Prod.mk.injEq] at hj'
    exact Or.inl ⟨rfl, hj'.1.symm, hj'.2.symm⟩
  · simp only [HostState.goto, Function.update_of_ne hj] at hj'
    exact Or.inr ⟨hj, hj'⟩

theorem goto_of_ne {j j' : ℕ} {wsId w : String} {old new phase : Phase}
    (hj : s.threads j = some (wsId, old)) (hj' : s.threads j' = some (w, phase))
    (hne : (wsId, old) ≠ (w, phase)) : (s.goto j wsId new).threads j' = some (w, phase) := by
  have apart : j' ≠ j := by
    rintro rfl
    rw [hj] at hj'
    exact hne (Option.some.inj hj')
  simp [HostState.goto, apart, hj']

variable (h : Sound s)

include h

theorem goto {j : ℕ} {wsId : String} {old : Phase} (hj : s.threads j = some (wsId, old))
    (new : Phase)
    (hstart : new.starting = true → s.sidecars wsId = none ∧ ∀ j' phase', s.threads j' = some
      (wsId, phase') → phase'.starting = true → j' = j) (hstored : s.Stored wsId new)
    (hhold : ∀ token secret c, old ≠ .hold token secret c) (hrot : ∀ next, old ≠ .kill true next)
    (hdrop : old.interrupts = true → s.backendPorts wsId = none) : Sound (s.goto j wsId new) := by
  have rotating : ∀ w, s.Rotating w → (s.goto j wsId new).Rotating w := by
    rintro w ⟨j', next, hj'⟩
    exact ⟨j', next, goto_of_ne hj hj' fun heq => hrot next (congrArg Prod.snd heq)⟩
  have token : ∀ w t, s.Token w t → (s.goto j wsId new).Token w t := fun w t ht =>
    ht.imp_right (rotating w)
  have stored : ∀ w phase, s.Stored w phase → (s.goto j wsId new).Stored w phase :=
    fun w _ hs => hs.imp (fun _ => token w) rfl fun _ _ _ _ _ hc _ => hc
  exact
    { threadBound := by
        intro j' t hj'
        rcases threads_goto hj' with ⟨rfl, -, -⟩ | ⟨-, hj'⟩
        · exact h.threadBound j' _ hj
        · exact h.threadBound j' _ hj'
      childBound := h.childBound
      held := h.held
      unkilled := by
        intro c child hc hk
        refine (h.unkilled c child hc hk).imp_right ?_
        rintro ⟨j', t, sec, hj'⟩
        exact ⟨j', t, sec, goto_of_ne hj hj' fun heq => hhold t sec c (congrArg Prod.snd heq)⟩
      alone := by
        intro j' w phase hj' hs
        rcases threads_goto hj' with ⟨rfl, rfl, rfl⟩ | ⟨hne, hold⟩
        · refine ⟨(hstart hs).1, fun j₂ phase₂ hj₂ hs₂ => ?_⟩
          rcases threads_goto hj₂ with ⟨rfl, -, -⟩ | ⟨-, hold₂⟩
          · rfl
          · exact (hstart hs).2 j₂ phase₂ hold₂ hs₂
        · refine ⟨(h.alone j' w phase hold hs).1, fun j₂ phase₂ hj₂ hs₂ => ?_⟩
          rcases threads_goto hj₂ with ⟨rfl, rfl, rfl⟩ | ⟨-, hold₂⟩
          · exact absurd ((hstart hs₂).2 j' phase hold hs) hne
          · exact (h.alone j' w phase hold hs).2 j₂ phase₂ hold₂ hs₂
      stored := by
        intro j' w phase hj'
        rcases threads_goto hj' with ⟨rfl, rfl, rfl⟩ | ⟨-, hj'⟩
        · exact stored w phase hstored
        · exact stored w phase (h.stored j' w phase hj')
      matching := fun w c child hc hchild =>
        ⟨token w _ (h.matching w c child hc hchild).1, (h.matching w c child hc hchild).2⟩
      ported := by
        intro w port hport hne
        refine (h.ported w port hport hne).imp_right ?_
        rintro ⟨j', phase, hj', hp⟩
        refine ⟨j', phase, goto_of_ne hj hj' ?_, hp⟩
        -- only the thread that goes on could have been the interrupting one
        rintro ⟨⟩
        exact absurd ((hdrop hp).symm.trans hport) (by simp)
      announced := h.announced
      respawned := h.respawned
      late := h.late }

theorem setEnabled (enabled : String → Bool) : Sound { s with enabled } :=
  { h with
    stored := fun j wsId phase hj =>
      (h.stored j wsId phase hj).imp (fun _ _ ht => ht) rfl fun _ _ _ _ _ hc _ => hc
    matching := h.matching
    ported := h.ported }

theorem setToken (wsId token : String)
    (hok : s.Rotating wsId ∨ s.sidecars wsId = none ∧ ∀ j phase, s.threads j = some (wsId, phase) →
      phase.starting = true → ∃ given, phase = .storeToken given) :
    Sound { s with authTokens := update s.authTokens wsId (some token) } := by
  have tokens : ∀ w t, (w = wsId → s.Rotating wsId) → s.Token w t →
      HostState.Token { s with authTokens := update s.authTokens wsId (some token) } w t := by
    intro w t hrot ht
    by_cases hw : w = wsId
    · subst hw
      exact Or.inr (hrot rfl)
    · exact ht.imp_left fun ht => (Function.update_of_ne hw _ _).trans ht
  exact
    { h with
      stored := by
        intro j w phase hj
        by_cases hfirst : ∃ given, phase = .storeToken given
        · obtain ⟨given, rfl⟩ := hfirst
          trivial
        · refine (h.stored j w phase hj).imp (fun hs t => tokens w t ?_) rfl
            fun _ _ _ _ _ hc _ => hc
          rintro rfl
          exact hok.resolve_right fun hfree => hfirst (hfree.2 j phase hj hs)
      matching := by
        intro w c child hc hchild
        obtain ⟨ht, hsec⟩ := h.matching w c child hc hchild
        refine ⟨tokens w _ ?_ ht, hsec⟩
        rintro rfl
        refine hok.resolve_right fun hfree => ?_
        exact absurd (hfree.1.symm.trans hc) (by simp)
      ported := h.ported }

theorem setSecret (wsId secret : String) (hfree : s.sidecars wsId = none)
    (hall : ∀ j phase, s.threads j = some (wsId, phase) → phase.starting = true → ∃ token, phase =
      .storeSecret token) :
    Sound { s with proxySecrets := update s.proxySecrets wsId (some secret) } :=
  { h with
    stored := by
      intro j w phase hj
      have hs := h.stored j w phase hj
      cases phase with
      | storeSecret t => exact hs
      | launch t sec =>
        have hw : w ≠ wsId := by
          rintro rfl
          obtain ⟨_, hg⟩ := hall j _ hj rfl
          cases hg
        exact ⟨hs.1, (Function.update_of_ne hw _ _).trans hs.2⟩
      | hold t sec c =>
        have hw : w ≠ wsId := by
          rintro rfl
          obtain ⟨_, hg⟩ := hall j _ hj rfl
          cases hg
        exact ⟨hs.1, (Function.update_of_ne hw _ _).trans hs.2.1, hs.2.2⟩
      | _ => trivial
    matching := by
      intro w c child hc hchild
      have hw : w ≠ wsId := by
        rintro rfl
        exact absurd (hfree.symm.trans hc) (by simp)
      exact ⟨(h.matching w c child hc hchild).1,
        (Function.update_of_ne hw _ _).trans (h.matching w c child hc hchild).2⟩
    ported := h.ported }

theorem setPort (wsId : String) (port : Option ℕ)
    (hok : ∀ p, port = some p → p ≠ 0 → s.PortHeld wsId p ∨ s.Interrupted wsId) :
    Sound { s with backendPorts := update s.backendPorts wsId port } :=
  { h with
    stored := fun j w phase hj =>
      (h.stored j w phase hj).imp (fun _ _ ht => ht) rfl fun _ _ _ _ _ hc _ => hc
    matching := h.matching
    ported := by
      intro w p hp hne
      by_cases hw : w = wsId
      · subst hw
        exact hok p (by simpa using hp) hne
      · exact h.ported w p (by simpa [hw] using hp) hne }

theorem setChild {c : ℕ} {child child' : Child} (hc : s.children c = some child)
    (hws : child'.wsId = child.wsId) (htoken : child'.token = child.token)
    (hsecret : child'.secret = child.secret) (hkilled : child'.killed = child.killed)
    (halive : child.killed = false → child.alive = true → child'.alive = true)
    (hport : ∀ port, child.port = some port → child'.port = some port)
    (hevents : ∀ port, .listening port ∈ child'.events → child'.port = some port) :
    Sound (s.setChild c child') := by
  have new : ∀ {d other}, (s.setChild c child').children d = some other →
      (d = c ∧ other = child') ∨ (d ≠ c ∧ s.children d = some other) := by
    intro d other hd
    by_cases heq : d = c
    · subst heq
      simp only [HostState.setChild, Function.update_self, Option.some.injEq] at hd
      exact Or.inl ⟨rfl, hd.symm⟩
    · simp only [HostState.setChild, Function.update_of_ne heq] at hd
      exact Or.inr ⟨heq, hd⟩
  have self : (s.setChild c child').children c = some child' := Function.update_self _ _ _
  have old : ∀ {d other}, d ≠ c → s.children d = some other →
      (s.setChild c child').children d = some other := fun hne hd =>
    (Function.update_of_ne hne _ _).trans hd
  exact
    { threadBound := h.threadBound
      childBound := by
        intro d other hd
        rcases new hd with ⟨rfl, -⟩ | ⟨-, hd⟩
        · exact h.childBound d child hc
        · exact h.childBound d other hd
      held := by
        intro w d hd
        obtain ⟨other, hother, rfl, ha, hk⟩ := h.held w d hd
        by_cases heq : d = c
        · subst heq
          obtain rfl := Option.some.inj (hc.symm.trans hother)
          exact ⟨child', self, hws, halive hk ha, hkilled.trans hk⟩
        · exact ⟨other, old heq hother, rfl, ha, hk⟩
      unkilled := by
        intro d other hd hk
        rcases new hd with ⟨rfl, rfl⟩ | ⟨-, hd⟩
        · rw [hws]
          exact h.unkilled d child hc (hkilled ▸ hk)
        · exact h.unkilled d other hd hk
      alone := h.alone
      stored := by
        intro j w phase hj
        have hs := h.stored j w phase hj
        cases phase with
        | hold t sec d =>
          obtain ⟨ht, hsec, other, hother, rfl, ha, hk, rfl, rfl⟩ := hs
          refine ⟨ht, hsec, ?_⟩
          by_cases heq : d = c
          · subst heq
            obtain rfl := Option.some.inj (hc.symm.trans hother)
            exact ⟨child', self, hws, halive hk ha, hkilled.trans hk, htoken, hsecret⟩
          · exact ⟨other, old heq hother, rfl, ha, hk, rfl, rfl⟩
        | _ => exact hs
      matching := by
        intro w d other hd hother
        rcases new hother with ⟨rfl, rfl⟩ | ⟨-, hother⟩
        · rw [htoken, hsecret]
          exact h.matching w d child hd hc
        · exact h.matching w d other hd hother
      ported := by
        intro w port hp hne
        refine (h.ported w port hp hne).imp_left ?_
        rintro ⟨d, other, hd, hother, hport'⟩
        by_cases heq : d = c
        · subst heq
          obtain rfl := Option.some.inj (hc.symm.trans hother)
          exact ⟨d, child', hd, self, hport port hport'⟩
        · exact ⟨d, other, hd, old heq hother, hport'⟩
      announced := by
        intro d other port hd hmem
        rcases new hd with ⟨rfl, rfl⟩ | ⟨-, hd⟩
        · exact hevents port hmem
        · exact h.announced d other port hd hmem
      respawned := h.respawned
      late := h.late }

theorem setHistory (turnedAway : List TurnedAway) (exits : List ExitHandled)
    (hturned : ∀ r ∈ turnedAway, r.running = true) (hexits : ∀ e ∈ exits, e.newer = false) :
    Sound { s with turnedAway, exits } :=
  { h with
    stored := fun j w phase hj =>
      (h.stored j w phase hj).imp (fun _ _ ht => ht) rfl fun _ _ _ _ _ hc _ => hc
    matching := h.matching
    ported := h.ported
    respawned := hturned
    late := hexits }

end Sound

end Portuni.Desktop.Sidecars
