import Mathlib.Algebra.Group.Nat.Defs
import Portuni.Library.Runs

/-!
The desktop's silent refresh of a session token: the gate under which one request of a workspace
refreshes for all, and the stored tokens, which `google_login`, `auth_logout` and the sync agent
change without taking it.
-/

namespace Portuni.Desktop.Refresh

open Library.Runs

abbrev Token := String

/-- The entries of the keychain, in the order in which `auth_logout` deletes them. -/
inductive Entry where
  | googleRefresh
  | sessionJwt
  | deviceToken

inductive Stage where
  | called
  | sent
  | unauthorized
  /-- Holds the gate; `auth_refresh` has not read the Google refresh token yet. -/
  | refreshing
  | renewing
  | stored
  /-- `auth_refresh` has returned, and this is what the keychain held then. -/
  | renewed (outcome : Option Token)
  | retrying (jwt : Token)
  /-- The caller got a 401, and this is what the keychain held then. -/
  | refused (stored : Option Token)
  | settled
deriving DecidableEq

namespace Stage

def holds : Stage → Bool
  | refreshing | renewing | stored | renewed _ => true
  | _ => false

/-- A new token is stored, and the generation does not say so yet. -/
def isStored : Stage → Bool
  | stored | renewed _ => true
  | _ => false

def waits : Stage → Bool
  | sent | unauthorized => true
  | _ => false

/-- Not resolved yet. -/
def early (stage : Stage) : Bool := stage = called || stage.waits

def isRetrying : Stage → Bool
  | retrying _ => true
  | _ => false

end Stage

/-- A call of `central_request_with_refresh`; `sent` lists the tokens that it was sent with. -/
structure Request where
  jwt : Token
  seen : ℕ := 0
  stage : Stage := .called
  sent : List Token := []

structure State where
  google : Option Token
  session : Option Token
  device : Option Token
  generation : ℕ := 0
  lastOk : Bool := false
  gate : Option ℕ := none
  requests : List Request := []
  minting : ℕ := 0
  /-- What each `auth_logout` has left to delete. -/
  logouts : List (List Entry) := []
  stored : List Token := session.toList
  /-- An `auth_logout` has returned, and no `google_login` has stored a token since. -/
  loggedOut : Bool := false

namespace State

variable (s : State)

def leaving : Bool := s.logouts.any fun left => left ≠ []

def setRequest (i : ℕ) (r : Request) : State := { s with requests := s.requests.set i r }

def delete : Entry → State
  | .googleRefresh => { s with google := none }
  | .sessionJwt => { s with session := none }
  | .deviceToken => { s with device := none }

def store (jwt : Token) : State := { s with session := some jwt, stored := s.stored ++ [jwt] }

/-- The end of a refresh: the gate is free again. -/
def finish (ok : Bool) : State :=
  { s with lastOk := ok, generation := (s.generation + 1) % 2 ^ 64, gate := none }

end State

inductive Action where
  /-- `central_request` reads the session token that its request carries. -/
  | request
  | send (i : ℕ)
  | answer (i : ℕ) (unauthorized : Bool)
  | resolve (i : ℕ)
  | readGoogle (i : ℕ)
  /-- `auth_refresh` fails: no refresh token, or an error of either server or of the keychain. -/
  | fail (i : ℕ)
  | store (i : ℕ) (jwt : Token)
  | readBack (i : ℕ)
  | release (i : ℕ)
  | retried (i : ℕ) (unauthorized : Bool)
  | loginGoogle (refresh : Token)
  | loginSession (jwt : Token)
  | mint
  | mintStored (device : Token)
  | mintFailed
  | logout
  | delete (j : ℕ) (ok : Bool)

/-- `RefreshGate::resolve` once it has the lock, up to the call of `refresh`. -/
def resolve (s : State) (i : ℕ) (r : Request) : State :=
  if s.generation ≠ r.seen then
    if s.lastOk then
      match s.session with
      | some jwt => s.setRequest i { r with stage := .retrying jwt, sent := r.sent ++ [jwt] }
      | none => s.setRequest i { r with stage := .refused s.session }
    else s.setRequest i { r with stage := .refused s.session }
  else if s.session.all (· = r.jwt) then
    { s.setRequest i { r with stage := .refreshing } with gate := some i }
  else
    match s.session with
    | some jwt => s.setRequest i { r with stage := .retrying jwt, sent := r.sent ++ [jwt] }
    | none => s

def step (s : State) : Action → Option State
  | .request => s.session.map fun jwt => { s with requests := s.requests ++ [{ jwt }] }
  | .send i =>
    match s.requests[i]? with
    | some ⟨jwt, _, .called, sent⟩ =>
      some (s.setRequest i ⟨jwt, s.generation, .sent, sent ++ [jwt]⟩)
    | _ => none
  | .answer i unauthorized =>
    match s.requests[i]? with
    | some ⟨jwt, seen, .sent, sent⟩ =>
      some (s.setRequest i ⟨jwt, seen, if unauthorized then .unauthorized else .settled, sent⟩)
    | _ => none
  | .resolve i =>
    match s.requests[i]? with
    | some ⟨jwt, seen, .unauthorized, sent⟩ =>
      if s.gate = none then some (resolve s i ⟨jwt, seen, .unauthorized, sent⟩) else none
    | _ => none
  | .readGoogle i =>
    match s.requests[i]? with
    | some ⟨jwt, seen, .refreshing, sent⟩ =>
      s.google.map fun _ => s.setRequest i ⟨jwt, seen, .renewing, sent⟩
    | _ => none
  | .fail i =>
    match s.requests[i]? with
    | some ⟨jwt, seen, .refreshing, sent⟩ | some ⟨jwt, seen, .renewing, sent⟩ =>
      some ((s.setRequest i ⟨jwt, seen, .refused s.session, sent⟩).finish false)
    | _ => none
  | .store i token =>
    match s.requests[i]? with
    | some ⟨jwt, seen, .renewing, sent⟩ =>
      some ((s.setRequest i ⟨jwt, seen, .stored, sent⟩).store token)
    | _ => none
  | .readBack i =>
    match s.requests[i]? with
    | some ⟨jwt, seen, .stored, sent⟩ =>
      some (s.setRequest i ⟨jwt, seen, .renewed s.session, sent⟩)
    | _ => none
  | .release i =>
    match s.requests[i]? with
    | some ⟨jwt, seen, .renewed (some token), sent⟩ =>
      some ((s.setRequest i ⟨jwt, seen, .retrying token, sent ++ [token]⟩).finish true)
    | some ⟨jwt, seen, .renewed none, sent⟩ =>
      some ((s.setRequest i ⟨jwt, seen, .settled, sent⟩).finish false)
    | _ => none
  | .retried i unauthorized =>
    match s.requests[i]? with
    | some ⟨jwt, seen, .retrying _, sent⟩ =>
      some (s.setRequest i ⟨jwt, seen, if unauthorized then .refused s.session else .settled, sent⟩)
    | _ => none
  | .loginGoogle refresh => some { s with google := some refresh, loggedOut := false }
  | .loginSession jwt => some { s.store jwt with loggedOut := false }
  | .mint =>
    if s.device = none ∧ s.session ≠ none then some { s with minting := s.minting + 1 } else none
  | .mintStored device =>
    if 0 < s.minting then some { s with device := some device, minting := s.minting - 1 } else none
  | .mintFailed => if 0 < s.minting then some { s with minting := s.minting - 1 } else none
  | .logout => some { s with logouts := s.logouts ++ [[.googleRefresh, .sessionJwt, .deviceToken]] }
  | .delete j ok =>
    match s.logouts[j]? with
    | some (entry :: left) =>
      let s := { s with logouts := s.logouts.set j left, loggedOut := s.loggedOut || left = [] }
      some (if ok then s.delete entry else s)
    | _ => none

/-- What no lock keeps apart is kept apart. -/
def Apart (s : State) : Action → Prop
  | .request => ∀ r ∈ s.requests, r.stage.isStored = false
  | .resolve _ | .loginGoogle _ | .mint => s.leaving = false
  | .fail _ =>
    ∀ r ∈ s.requests, r.stage.waits → s.session = none ∨ s.session = some r.jwt
  | .store _ jwt => jwt ∉ s.stored ∧ ∀ r ∈ s.requests, r.stage.isRetrying = false
  | .loginSession jwt =>
    jwt ∉ s.stored ∧ s.leaving = false ∧ s.gate = none ∧
      (∀ r ∈ s.requests, r.stage.isRetrying = false) ∧
      (s.lastOk ∨ ∀ r ∈ s.requests, r.stage.waits → r.seen = s.generation)
  | .logout =>
    s.gate = none ∧ s.minting = 0 ∧ ∀ r ∈ s.requests, r.stage.early → s.stored.getLast? = some r.jwt
  | .delete _ ok => ok = true
  | _ => True

instance (s : State) (a : Action) : Decidable (Apart s a) := by
  cases a <;> dsimp only [Apart] <;> infer_instance

/-- What a request was sent with so far, and what the keychain holds beside it. -/
def Request.Fits (session : Option Token) (r : Request) : Prop :=
  match r.stage with
  | .called => r.sent = []
  | .sent | .unauthorized => r.sent = [r.jwt]
  | .refreshing | .renewing => r.sent = [r.jwt] ∧ (session = none ∨ session = some r.jwt)
  | .stored => r.sent = [r.jwt] ∧ ∃ jwt, session = some jwt ∧ jwt ≠ r.jwt
  | .renewed outcome =>
    r.sent = [r.jwt] ∧ ∃ jwt, session = some jwt ∧ outcome = some jwt ∧ jwt ≠ r.jwt
  | .retrying jwt => r.sent = [r.jwt, jwt] ∧ jwt ≠ r.jwt ∧ (session = none ∨ session = some jwt)
  | .refused stored =>
    (r.sent = [r.jwt] ∨ ∃ jwt, jwt ≠ r.jwt ∧ r.sent = [r.jwt, jwt]) ∧
      (stored = none ∨ stored = r.sent.getLast?)
  | .settled => r.sent = [r.jwt] ∨ ∃ jwt, jwt ≠ r.jwt ∧ r.sent = [r.jwt, jwt]

structure Inv (s : State) : Prop where
  gate : ∀ i r, s.requests[i]? = some r → (r.stage.holds = true ↔ s.gate = some i)
  bound : ∀ i, s.gate = some i → i < s.requests.length
  fits : ∀ r ∈ s.requests, r.Fits s.session
  known : ∀ r ∈ s.requests, r.jwt ∈ s.stored
  newest : ∀ jwt, s.session = some jwt → s.stored.getLast? = some jwt
  renewed : ∀ r ∈ s.requests, r.stage.isStored → ∀ r' ∈ s.requests, r'.stage.early →
    s.session ≠ some r'.jwt
  gone : s.session = none ∨ s.leaving → ∀ r ∈ s.requests, r.stage.early →
    s.stored.getLast? = some r.jwt
  leaving : s.leaving → s.gate = none ∧ s.minting = 0
  left : ∀ left ∈ s.logouts, left ≠ [] →
    left = [.deviceToken] ∧ s.session = none ∧ s.google = none ∨
      left = [.sessionJwt, .deviceToken] ∧ s.google = none ∨
      left = [.googleRefresh, .sessionJwt, .deviceToken]
  out : s.loggedOut → s.google = none ∧ s.session = none ∧ s.device = none ∧ s.minting = 0 ∧
    ∀ r ∈ s.requests, r.stage.holds → r.stage = .refreshing

/-- What a request that was refused while a refresh went on may rely on. -/
def Late (s : State) : Prop :=
  (∀ r ∈ s.requests, r.stage.isStored = false) → ∀ r ∈ s.requests, r.stage.waits →
    r.seen ≠ s.generation →
      (s.lastOk → s.session ≠ some r.jwt) ∧
        (s.lastOk = false → s.session = none ∨ s.session = some r.jwt)

variable {s s' : State} {i : ℕ} {r q : Request} {g : Option ℕ} {x : Request}

theorem mem_set (h : x ∈ s.requests.set i q) : x = q ∨ x ∈ s.requests :=
  (List.mem_or_eq_of_mem_set h).symm

theorem Inv.none_holds (h : Inv s) (hgate : s.gate = none) (hx : x ∈ s.requests) :
    x.stage.holds = false := by
  obtain ⟨j, hj⟩ := List.mem_iff_getElem?.mp hx
  refine Bool.eq_false_iff.mpr fun hholds => ?_
  have hsome := (h.gate j x hj).mp hholds
  rw [hgate] at hsome
  cases hsome

theorem holds_of_isStored {stage : Stage} (h : stage.isStored) : stage.holds := by
  cases stage <;> first | rfl | cases h

theorem Inv.gate_set (h : Inv s) (hgate : q.stage.holds = true ↔ g = some i)
    (hothers : ∀ j, j ≠ i → (s.gate = some j ↔ g = some j)) (j : ℕ) (x : Request) (hj : (s.requests.set i q)[j]? = some x) :
    x.stage.holds = true ↔ g = some j := by
  rw [List.getElem?_set] at hj
  split at hj
  · next heq =>
    subst heq
    split at hj
    · cases hj
      exact hgate
    · cases hj
  · next hne => exact (h.gate j x hj).trans (hothers j (Ne.symm hne))

theorem Inv.turn (h : Inv s) (hi : s.requests[i]? = some r) (hjwt : q.jwt = r.jwt)
    (hgate : q.stage.holds = true ↔ g = some i) (hothers : ∀ j, j ≠ i → (s.gate = some j ↔ g = some j))
    (hfits : q.Fits s.session) (hearly : q.stage.early → r.stage.early)
    (hstored : q.stage.isStored → r.stage.isStored) (hleaving : s.leaving → g = none)
    (hout : s.loggedOut → q.stage.holds → q.stage = .refreshing) :
    Inv { s.setRequest i q with gate := g } := by
  have hr := List.mem_of_getElem? hi
  have hstoredBy : ∀ x ∈ s.requests.set i q, x.stage.isStored →
      ∃ y ∈ s.requests, y.stage.isStored := by
    intro x hx hxstored
    rcases mem_set hx with rfl | hx
    · exact ⟨r, hr, hstored hxstored⟩
    · exact ⟨x, hx, hxstored⟩
  have hearlyOf : ∀ x ∈ s.requests.set i q, x.stage.early →
      ∃ y ∈ s.requests, y.stage.early ∧ y.jwt = x.jwt := by
    intro x hx hxearly
    rcases mem_set hx with rfl | hx
    · exact ⟨r, hr, hearly hxearly, hjwt.symm⟩
    · exact ⟨x, hx, hxearly, rfl⟩
  exact {
    gate := h.gate_set hgate hothers
    bound := fun j hj => by
      refine Nat.lt_of_lt_of_eq ?_ List.length_set.symm
      rcases Nat.decEq j i with hne | rfl
      · exact h.bound j ((hothers j hne).mpr hj)
      · exact (List.getElem?_eq_some_iff.mp hi).1
    fits := fun x hx => (mem_set hx).elim (fun heq => heq ▸ hfits) (h.fits x)
    known := fun x hx => by
      rcases mem_set hx with rfl | hx
      · rw [hjwt]
        exact h.known r hr
      · exact h.known x hx
    newest := h.newest
    renewed := fun x hx hxstored x' hx' hxearly => by
      obtain ⟨y, hy, hystored⟩ := hstoredBy x hx hxstored
      obtain ⟨y', hy', hyearly, hyjwt⟩ := hearlyOf x' hx' hxearly
      rw [← hyjwt]
      exact h.renewed y hy hystored y' hy' hyearly
    gone := fun hgone x hx hxearly => by
      obtain ⟨y, hy, hyearly, hyjwt⟩ := hearlyOf x hx hxearly
      rw [← hyjwt]
      exact h.gone hgone y hy hyearly
    leaving := fun hleft => ⟨hleaving hleft, (h.leaving hleft).2⟩
    left := h.left
    out := fun hloggedOut => by
      obtain ⟨hgoogle, hsession, hdevice, hminting, hholds⟩ := h.out hloggedOut
      refine ⟨hgoogle, hsession, hdevice, hminting, fun x hx hxholds => ?_⟩
      rcases mem_set hx with rfl | hx
      · exact hout hloggedOut hxholds
      · exact hholds x hx hxholds }

theorem Inv.finish (h : Inv { s with gate := none }) (ok : Bool) : Inv (s.finish ok) :=
  ⟨h.gate, h.bound, h.fits, h.known, h.newest, h.renewed, h.gone, h.leaving, h.left, h.out⟩

theorem Inv.goOn (h : Inv s) (hi : s.requests[i]? = some r) (hjwt : q.jwt = r.jwt)
    (hholds : q.stage.holds = r.stage.holds) (hfits : q.Fits s.session)
    (hearly : q.stage.early → r.stage.early) (hstored : q.stage.isStored → r.stage.isStored)
    (hout : s.loggedOut → q.stage.holds → q.stage = .refreshing) : Inv (s.setRequest i q) :=
  h.turn hi hjwt (hholds ▸ h.gate i r hi) (fun _ _ => Iff.rfl) hfits hearly hstored
    (fun hleaving => (h.leaving hleaving).1) hout

theorem Inv.giveBack (h : Inv s) (hi : s.requests[i]? = some r) (hjwt : q.jwt = r.jwt)
    (hr : r.stage.holds) (hholds : q.stage.holds = false) (hfits : q.Fits s.session)
    (hearly : q.stage.early → r.stage.early) (ok : Bool) : Inv ((s.setRequest i q).finish ok) := by
  refine Inv.finish (h.turn hi hjwt (by simp [hholds]) (fun j hj => ?_) hfits hearly
    (fun hstored => by simp [holds_of_isStored hstored] at hholds) (fun _ => rfl)
    fun _ hq => by simp [hholds] at hq) ok
  rw [(h.gate i r hi).mp hr]
  simp [Ne.symm hj]

theorem Request.Fits.stored {jwt jwt' : Option Token} (h : r.Fits jwt) (hholds : r.stage.holds = false)
    (hretrying : r.stage.isRetrying = false) : r.Fits jwt' := by
  obtain ⟨_, _, _ | _ | _ | _ | _ | _ | _ | _ | _ | _, _⟩ := r <;>
    first | exact h | exact Bool.noConfusion hholds | exact Bool.noConfusion hretrying

theorem Inv.store (h : Inv s) {jwt : Token} (hfresh : jwt ∉ s.stored) (hleaving : s.leaving = false)
    {requests : List Request} (hrequests : ∀ x ∈ requests,
      x ∈ s.requests ∧ x.stage.holds = false ∧ x.stage.isRetrying = false ∨
        x.stage = .stored ∧ x.sent = [x.jwt] ∧ x.jwt ∈ s.stored)
    (hgate : ∀ j x, requests[j]? = some x → (x.stage.holds = true ↔ s.gate = some j))
    (hlength : requests.length = s.requests.length) {loggedOut : Bool} (hout : loggedOut = false) :
    Inv { s.store jwt with requests, loggedOut } := by
  have hknown : ∀ x ∈ requests, x.jwt ∈ s.stored := fun x hx =>
    (hrequests x hx).elim (fun hold => h.known x hold.1) fun hnew => hnew.2.2
  have hne : ∀ x ∈ requests, jwt ≠ x.jwt := fun x hx heq => hfresh (heq ▸ hknown x hx)
  exact {
    gate := hgate
    bound := fun j hj => hlength ▸ h.bound j hj
    fits := fun x hx => by
      rcases hrequests x hx with ⟨hold, hholds, hretrying⟩ | ⟨hstage, hsent, -⟩
      · exact (h.fits x hold).stored hholds hretrying
      · simp only [Request.Fits, hstage]
        exact ⟨hsent, jwt, rfl, hne x hx⟩
    known := fun x hx => List.mem_append_left _ (hknown x hx)
    newest := fun t ht => by
      cases ht
      exact List.getLast?_concat
    renewed := fun _ _ _ x' hx' _ heq => hne x' hx' (Option.some.inj heq)
    gone := fun hgone => by
      rcases hgone with hnone | hleft
      · cases hnone
      · exact absurd (hleaving.symm.trans hleft) Bool.false_ne_true
    leaving := fun hleft => absurd (hleaving.symm.trans hleft) Bool.false_ne_true
    left := fun left hleft hne => by
      have hany : s.leaving = true := List.any_eq_true.mpr ⟨left, hleft, decide_eq_true hne⟩
      exact absurd (hleaving.symm.trans hany) Bool.false_ne_true
    out := fun hloggedOut => absurd (hout.symm.trans hloggedOut) Bool.false_ne_true }

theorem Late.turn (h : Late s) (hi : s.requests[i]? = some r)
    (hq : q.stage.waits → r.stage.waits ∧ q.seen = r.seen ∧ q.jwt = r.jwt ∨ q.seen = s.generation)
    (hstored : r.stage.isStored → q.stage.isStored) : Late { s.setRequest i q with gate := g } := by
  intro hnone x hx hwaits hseen
  have hr := List.mem_of_getElem? hi
  have hq' : q ∈ s.requests.set i q :=
    List.mem_set (List.getElem?_eq_some_iff.mp hi).1 q
  have hnone' : ∀ y ∈ s.requests, y.stage.isStored = false := by
    intro y hy
    obtain ⟨j, hj⟩ := List.mem_iff_getElem?.mp hy
    rcases Nat.decEq i j with hne | rfl
    · exact hnone y (List.mem_of_getElem? ((List.getElem?_set_ne hne).trans hj))
    · obtain rfl := Option.some.inj (hi.symm.trans hj)
      exact Bool.eq_false_iff.mpr fun hy => Bool.false_ne_true ((hnone q hq').symm.trans (hstored hy))
  rcases mem_set hx with rfl | hx
  · rcases hq hwaits with ⟨hrwaits, hrseen, hrjwt⟩ | hseen'
    · rw [hrseen] at hseen
      rw [hrjwt]
      exact h hnone' r hr hrwaits hseen
    · exact absurd hseen' hseen
  · exact h hnone' x hx hwaits hseen

theorem late_of_stored (hx : x ∈ s.requests) (h : x.stage.isStored) : Late s :=
  fun hnone => absurd ((hnone x hx).symm.trans h) Bool.false_ne_true

theorem Inv.append (h : Inv s) {jwt : Token} (hjwt : s.session = some jwt)
    (hstored : ∀ x ∈ s.requests, x.stage.isStored = false) :
    Inv { s with requests := s.requests ++ [{ jwt }] } where
  gate j x hj := by
    rcases Nat.lt_or_ge j s.requests.length with hlt | hge
    · exact h.gate j x ((List.getElem?_append_left hlt).symm.trans hj)
    · rw [List.getElem?_append_right hge] at hj
      obtain rfl := List.mem_singleton.mp (List.mem_of_getElem? hj)
      have hgate : s.gate ≠ some j := fun hj => absurd (h.bound j hj) (Nat.not_lt.mpr hge)
      simp [hgate, Stage.holds]
  bound j hj := Nat.lt_of_lt_of_le (h.bound j hj) (by simp)
  fits x hx := by
    rcases List.mem_append.mp hx with hx | hx
    · exact h.fits x hx
    · obtain rfl := List.mem_singleton.mp hx
      rfl
  known x hx := by
    rcases List.mem_append.mp hx with hx | hx
    · exact h.known x hx
    · obtain rfl := List.mem_singleton.mp hx
      exact List.mem_of_getLast? (h.newest jwt hjwt)
  newest := h.newest
  renewed x hx hxstored := by
    rcases List.mem_append.mp hx with hx | hx
    · exact absurd ((hstored x hx).symm.trans hxstored) Bool.false_ne_true
    · obtain rfl := List.mem_singleton.mp hx
      cases hxstored
  gone hgone x hx hearly := by
    rcases List.mem_append.mp hx with hx | hx
    · exact h.gone hgone x hx hearly
    · obtain rfl := List.mem_singleton.mp hx
      exact h.newest jwt hjwt
  leaving := h.leaving
  left := h.left
  out hout := by
    have hnone := (h.out hout).2.1
    rw [hjwt] at hnone
    cases hnone

theorem resolve_cases (s : State) (i : ℕ) (r : Request) :
    s.session ≠ none ∧ (s.generation ≠ r.seen → s.lastOk) ∧
        (s.generation = r.seen → s.session ≠ some r.jwt) ∧
        (∃ jwt, s.session = some jwt ∧ resolve s i r =
          s.setRequest i { r with stage := .retrying jwt, sent := r.sent ++ [jwt] }) ∨
      s.generation ≠ r.seen ∧ (s.lastOk → s.session = none) ∧
        resolve s i r = s.setRequest i { r with stage := .refused s.session } ∨
      s.generation = r.seen ∧ (s.session = none ∨ s.session = some r.jwt) ∧
        resolve s i r = { s.setRequest i { r with stage := .refreshing } with gate := some i } := by
  unfold resolve
  split
  · next hseen =>
    cases hok : s.lastOk with
    | false => exact .inr (.inl ⟨hseen, nofun, by simp⟩)
    | true =>
      cases hsession : s.session with
      | none => exact .inr (.inl ⟨hseen, fun _ => rfl, by simp⟩)
      | some jwt =>
        exact .inl ⟨nofun, fun _ => rfl, fun heq => absurd heq hseen, jwt, rfl, by simp⟩
  · next hseen =>
    have hseen := not_not.mp hseen
    cases hsession : s.session with
    | none => exact .inr (.inr ⟨hseen, .inl rfl, by simp⟩)
    | some jwt =>
      by_cases hjwt : jwt = r.jwt
      · exact .inr (.inr ⟨hseen, .inr (hjwt ▸ rfl), by simp [hjwt]⟩)
      · exact .inl ⟨nofun, fun hne => absurd hseen hne, fun _ heq => hjwt (Option.some.inj heq),
          jwt, rfl, by simp [hjwt]⟩

theorem Inv.resolved (h : Inv s) (hlate : Late s) (hi : s.requests[i]? = some r)
    (hr : r.stage = .unauthorized) (hgate : s.gate = none) (hleaving : s.leaving = false) :
    Inv (resolve s i r) ∧ Late (resolve s i r) := by
  have hmem := List.mem_of_getElem? hi
  have hfits := h.fits r hmem
  have hstored : ∀ x ∈ s.requests, x.stage.isStored = false := fun x hx =>
    Bool.eq_false_iff.mpr fun hx' => by
      have hholds := h.none_holds hgate hx
      rw [holds_of_isStored hx'] at hholds
      cases hholds
  simp only [Request.Fits, hr] at hfits
  have hlater : s.generation ≠ r.seen → (s.lastOk → s.session ≠ some r.jwt) ∧
      (s.lastOk = false → s.session = none ∨ s.session = some r.jwt) := fun hne =>
    hlate hstored r hmem (by rw [hr]; rfl) (Ne.symm hne)
  have hrstored : r.stage.isStored = false := hstored r hmem
  rcases resolve_cases s i r with ⟨-, hok, hother, jwt, hjwt, heq⟩ | ⟨hne, hnone, heq⟩ |
      ⟨hseen, hsession, heq⟩
  · have hne : jwt ≠ r.jwt := by
      intro hsame
      rw [hsame] at hjwt
      by_cases hseen : s.generation = r.seen
      · exact hother hseen hjwt
      · exact (hlater hseen).1 (hok hseen) hjwt
    rw [heq]
    refine ⟨h.goOn hi rfl (by rw [hr]; rfl) ?_ nofun nofun nofun, hlate.turn hi nofun ?_⟩
    · exact ⟨by simp [hfits], hne, .inr hjwt⟩
    · simp [hrstored]
  · rw [heq]
    refine ⟨h.goOn hi rfl (by rw [hr]; rfl) ⟨.inl hfits, ?_⟩ nofun nofun nofun,
      hlate.turn hi nofun ?_⟩
    · cases hok : s.lastOk with
      | true => exact .inl (hnone hok)
      | false => exact ((hlater hne).2 hok).imp_right fun hsame => by rw [hsame, hfits]; rfl
    · simp [hrstored]
  · rw [heq]
    refine ⟨h.turn hi rfl (by simp [Stage.holds]) (fun j hj => ?_) ⟨hfits, hsession⟩ nofun nofun
      (fun hleft => absurd (hleaving.symm.trans hleft) Bool.false_ne_true) (fun _ _ => rfl),
      hlate.turn hi nofun ?_⟩
    · simp [hgate, Ne.symm hj]
    · simp [hrstored]

theorem Inv.begun (h : Inv s) (hlate : Late s) (hgate : s.gate = none) (hminting : s.minting = 0)
    (hnewest : ∀ r ∈ s.requests, r.stage.early → s.stored.getLast? = some r.jwt) :
    Inv { s with logouts := s.logouts ++ [[.googleRefresh, .sessionJwt, .deviceToken]] } ∧
      Late { s with logouts := s.logouts ++ [[.googleRefresh, .sessionJwt, .deviceToken]] } := by
  refine ⟨{ h with gone := fun _ => hnewest, leaving := fun _ => ⟨hgate, hminting⟩, left := ?_ }, hlate⟩
  intro left hleft hne
  rcases List.mem_append.mp hleft with hleft | hleft
  · exact h.left left hleft hne
  · exact .inr (.inr (List.mem_singleton.mp hleft))

theorem Request.Fits.logout {jwt : Option Token} (h : r.Fits jwt) (hholds : r.stage.holds = false) :
    r.Fits none := by
  obtain ⟨_, _, _ | _ | _ | _ | _ | _ | _ | _ | _ | _, _⟩ := r <;>
    first | exact h | exact Bool.noConfusion hholds | exact ⟨h.1, h.2.1, .inl rfl⟩

theorem Inv.erased (h : Inv s) (hleaving : s.leaving) {t : State} (hrequests : t.requests = s.requests)
    (hgate : t.gate = s.gate) (hminting : t.minting = s.minting) (hstored : t.stored = s.stored)
    (hsession : t.session = s.session ∨ t.session = none) (hleft : ∀ left ∈ t.logouts, left ≠ [] →
      left = [.deviceToken] ∧ t.session = none ∧ t.google = none ∨
        left = [.sessionJwt, .deviceToken] ∧ t.google = none ∨
        left = [.googleRefresh, .sessionJwt, .deviceToken])
    (hout : t.loggedOut → t.google = none ∧ t.session = none ∧ t.device = none) : Inv t := by
  obtain ⟨hnone, hzero⟩ := h.leaving hleaving
  have hholds : ∀ x ∈ t.requests, x.stage.holds = false := fun x hx =>
    h.none_holds hnone (hrequests ▸ hx)
  exact {
    gate := by
      rw [hrequests, hgate]
      exact h.gate
    bound := by
      rw [hrequests, hgate]
      exact h.bound
    fits := fun x hx => by
      have hfits := h.fits x (hrequests ▸ hx)
      rcases hsession with hsame | hnone
      · exact hsame ▸ hfits
      · exact hnone ▸ hfits.logout (hholds x hx)
    known := by
      rw [hrequests, hstored]
      exact h.known
    newest := fun jwt hjwt => by
      rcases hsession with hsame | hnone
      · exact hstored ▸ h.newest jwt (hsame.symm.trans hjwt)
      · cases hnone.symm.trans hjwt
    renewed := fun x hx hxstored => by
      have hx := hholds x hx
      rw [holds_of_isStored hxstored] at hx
      cases hx
    gone := fun _ => by
      rw [hrequests, hstored]
      exact h.gone (.inr hleaving)
    leaving := fun _ => ⟨hgate.trans hnone, hminting.trans hzero⟩
    left := hleft
    out := fun hloggedOut => by
      obtain ⟨hgoogle, hsession, hdevice⟩ := hout hloggedOut
      refine ⟨hgoogle, hsession, hdevice, hminting.trans hzero, fun x hx hxholds => ?_⟩
      exact absurd ((hholds x hx).symm.trans hxholds) Bool.false_ne_true }

theorem Inv.deleted (h : Inv s) (hlate : Late s) {j : ℕ} {entry : Entry} {left : List Entry}
    (hj : s.logouts[j]? = some (entry :: left)) :
    Inv ({ s with logouts := s.logouts.set j left, loggedOut := s.loggedOut || left = [] }.delete
      entry) ∧
    Late ({ s with logouts := s.logouts.set j left, loggedOut := s.loggedOut || left = [] }.delete
      entry) := by
  have hmem := List.mem_of_getElem? hj
  have hleaving : s.leaving := List.any_eq_true.mpr ⟨_, hmem, by simp⟩
  have hold : ∀ x ∈ s.logouts.set j left, x = left ∨ x ∈ s.logouts := fun x hx =>
    (List.mem_or_eq_of_mem_set hx).symm
  have hnever : ∀ jwt, (none : Option Token) ≠ some jwt := nofun
  rcases h.left _ hmem (List.cons_ne_nil _ _) with ⟨heq, hsession, hgoogle⟩ | ⟨heq, hgoogle⟩ | heq
  · obtain ⟨rfl, rfl⟩ := List.cons.inj heq
    refine ⟨h.erased hleaving rfl rfl rfl rfl (.inl rfl) (fun x hx hne => ?_)
      fun _ => ⟨hgoogle, hsession, rfl⟩, hlate⟩
    rcases hold x hx with rfl | hx
    · exact absurd rfl hne
    · exact h.left x hx hne
  · obtain ⟨rfl, rfl⟩ := List.cons.inj heq
    refine ⟨h.erased hleaving rfl rfl rfl rfl (.inr rfl) (fun x hx hne => ?_) fun hout => ?_,
      fun _ x _ _ _ => ⟨fun _ => hnever _, fun _ => .inl rfl⟩⟩
    · rcases hold x hx with rfl | hx
      · exact .inl ⟨rfl, rfl, hgoogle⟩
      · exact (h.left x hx hne).imp_left fun hx => ⟨hx.1, rfl, hx.2.2⟩
    · have hout : (s.loggedOut || decide ([Entry.deviceToken] = [])) = true := hout
      obtain ⟨-, -, hdevice, -⟩ := h.out (by simpa using hout)
      exact ⟨hgoogle, rfl, hdevice⟩
  · obtain ⟨rfl, rfl⟩ := List.cons.inj heq
    refine ⟨h.erased hleaving rfl rfl rfl rfl (.inl rfl) (fun x hx hne => ?_) fun hout => ?_, hlate⟩
    · rcases hold x hx with rfl | hx
      · exact .inr (.inl ⟨rfl, rfl⟩)
      · exact (h.left x hx hne).imp (fun hx => ⟨hx.1, hx.2.1, rfl⟩)
          (Or.imp_left fun hx => ⟨hx.1, rfl⟩)
    · have hout : (s.loggedOut || decide ([Entry.sessionJwt, .deviceToken] = [])) = true := hout
      obtain ⟨-, hsession, hdevice, -⟩ := h.out (by simpa using hout)
      exact ⟨rfl, hsession, hdevice⟩

theorem Inv.minted (h : Inv s) (hidle : ¬ (s.leaving ∨ s.loggedOut)) (n : ℕ) (device : Option Token) :
    Inv { s with minting := n, device } :=
  { h with
    leaving := fun hleaving => absurd (.inl hleaving) hidle
    out := fun hout => absurd (.inr hout) hidle }

theorem Inv.idle_of_minting (h : Inv s) (hpos : 0 < s.minting) : ¬ (s.leaving ∨ s.loggedOut) := by
  rintro (hleaving | hout)
  · have hzero := (h.leaving hleaving).2
    omega
  · have hzero := (h.out hout).2.2.2.1
    omega

theorem left_nil (hleaving : s.leaving = false) {left : List Entry} (hleft : left ∈ s.logouts) :
    left = [] := by
  simpa using List.any_eq_false.mp hleaving left hleft

theorem inv_step (h : Inv s) (hlate : Late s) {a : Action} (hapart : Apart s a)
    (hstep : step s a = some s') : Inv s' ∧ Late s' := by
  cases a with
  | request =>
    obtain ⟨jwt, hjwt, rfl⟩ := Option.map_eq_some_iff.mp hstep
    refine ⟨h.append hjwt hapart, fun hnone x hx hwaits => ?_⟩
    rcases List.mem_append.mp hx with hx | hx
    · exact hlate hapart x hx hwaits
    · obtain rfl := List.mem_singleton.mp hx
      cases hwaits
  | send i =>
    simp only [step] at hstep
    split at hstep
    · next jwt seen sent hi =>
      cases hstep
      have hfits := h.fits _ (List.mem_of_getElem? hi)
      exact ⟨h.goOn hi rfl rfl (by simpa [Request.Fits] using hfits) (fun _ => rfl) nofun nofun,
        hlate.turn hi (fun _ => .inr rfl) nofun⟩
    · cases hstep
  | answer i unauthorized =>
    simp only [step] at hstep
    split at hstep
    · next jwt seen sent hi =>
      cases hstep
      have hfits := h.fits _ (List.mem_of_getElem? hi)
      cases unauthorized with
      | true =>
        exact ⟨h.goOn hi rfl rfl hfits (fun _ => rfl) nofun nofun,
          hlate.turn hi (fun _ => .inl ⟨rfl, rfl, rfl⟩) nofun⟩
      | false =>
        exact ⟨h.goOn hi rfl rfl (.inl hfits) nofun nofun nofun, hlate.turn hi nofun nofun⟩
    · cases hstep
  | resolve i =>
    simp only [step] at hstep
    split at hstep
    · next jwt seen sent hi =>
      obtain ⟨hgate, hresolve⟩ := Option.ite_none_right_eq_some.mp hstep
      cases hresolve
      exact h.resolved hlate hi rfl hgate hapart
    · cases hstep
  | readGoogle i =>
    simp only [step] at hstep
    split at hstep
    · next jwt seen sent hi =>
      obtain ⟨refresh, hgoogle, rfl⟩ := Option.map_eq_some_iff.mp hstep
      have hfits := h.fits _ (List.mem_of_getElem? hi)
      refine ⟨h.goOn hi rfl rfl hfits nofun nofun fun hout _ => ?_, hlate.turn hi nofun nofun⟩
      rw [(h.out hout).1] at hgoogle
      cases hgoogle
    · cases hstep
  | fail i =>
    have hfailed : ∀ r, s.requests[i]? = some r → r.stage.holds → r.sent = [r.jwt] →
        (s.session = none ∨ s.session = some r.jwt) →
        Inv ((s.setRequest i { r with stage := .refused s.session }).finish false) ∧
          Late ((s.setRequest i { r with stage := .refused s.session }).finish false) := by
      intro r hi hholds hsent hsession
      refine ⟨h.giveBack (q := { r with stage := .refused s.session }) hi rfl hholds rfl
        ⟨.inl hsent, hsession.imp_right fun hsame => ?_⟩ nofun false, ?_⟩
      · rw [hsame, hsent]
        rfl
      · intro _ x hx hwaits _
        rcases mem_set hx with rfl | hx
        · cases hwaits
        · exact ⟨nofun, fun _ => hapart x hx hwaits⟩
    simp only [step] at hstep
    split at hstep
    · next jwt seen sent hi =>
      cases hstep
      obtain ⟨hsent, hsession⟩ := h.fits _ (List.mem_of_getElem? hi)
      exact hfailed _ hi rfl hsent hsession
    · next jwt seen sent hi =>
      cases hstep
      obtain ⟨hsent, hsession⟩ := h.fits _ (List.mem_of_getElem? hi)
      exact hfailed _ hi rfl hsent hsession
    · cases hstep
  | store i token =>
    simp only [step] at hstep
    split at hstep
    · next jwt seen sent hi =>
      cases hstep
      have hmem := List.mem_of_getElem? hi
      have hlt := (List.getElem?_eq_some_iff.mp hi).1
      have hgate := (h.gate i _ hi).mp rfl
      have hleaving : s.leaving = false := Bool.eq_false_iff.mpr fun hleaving => by
        cases hgate.symm.trans (h.leaving hleaving).1
      have hout : s.loggedOut = false := Bool.eq_false_iff.mpr fun hout => by
        cases (h.out hout).2.2.2.2 _ hmem rfl
      refine ⟨h.store hapart.1 hleaving (fun x hx => ?_) (h.gate_set (by simp [Stage.holds, hgate])
        fun j _ => Iff.rfl) List.length_set hout, late_of_stored (List.mem_set hlt _) rfl⟩
      obtain ⟨j, hj⟩ := List.mem_iff_getElem?.mp hx
      rw [List.getElem?_set] at hj
      split at hj
      · obtain rfl : x = ⟨jwt, seen, .stored, sent⟩ := by simpa [hlt, eq_comm] using hj
        exact .inr ⟨rfl, (h.fits _ hmem).1, h.known ⟨jwt, seen, .renewing, sent⟩ hmem⟩
      · next hne =>
        have hx := List.mem_of_getElem? hj
        refine .inl ⟨hx, Bool.eq_false_iff.mpr fun hholds => hne ?_, hapart.2 x hx⟩
        exact Option.some.inj (hgate.symm.trans ((h.gate j x hj).mp hholds))
    · cases hstep
  | readBack i =>
    simp only [step] at hstep
    split at hstep
    · next jwt seen sent hi =>
      cases hstep
      obtain ⟨hsent, token, htoken, hne⟩ := h.fits _ (List.mem_of_getElem? hi)
      refine ⟨h.goOn hi rfl rfl ⟨hsent, token, htoken, htoken, hne⟩ nofun (fun _ => rfl)
        fun hout _ => ?_, hlate.turn hi nofun fun _ => rfl⟩
      rw [(h.out hout).2.1] at htoken
      cases htoken
    · cases hstep
  | release i =>
    simp only [step] at hstep
    split at hstep
    · next jwt seen token sent hi =>
      cases hstep
      obtain ⟨hsent, token', htoken, houtcome, hne⟩ := h.fits _ (List.mem_of_getElem? hi)
      cases houtcome
      refine ⟨h.giveBack (q := ⟨jwt, seen, .retrying token, sent ++ [token]⟩) hi rfl rfl rfl
        ⟨congrArg (· ++ [token]) hsent, hne, .inr htoken⟩ nofun true, ?_⟩
      intro _ x hx hwaits _
      rcases mem_set hx with rfl | hx
      · cases hwaits
      · exact ⟨fun _ => h.renewed _ (List.mem_of_getElem? hi) rfl x hx (by simp [Stage.early, hwaits]),
          nofun⟩
    · next jwt seen sent hi =>
      obtain ⟨-, token, -, houtcome, -⟩ := h.fits _ (List.mem_of_getElem? hi)
      cases houtcome
    · cases hstep
  | retried i unauthorized =>
    simp only [step] at hstep
    split at hstep
    · next jwt seen token sent hi =>
      cases hstep
      obtain ⟨hsent, hne, hsession⟩ := h.fits _ (List.mem_of_getElem? hi)
      cases unauthorized with
      | true =>
        refine ⟨h.goOn hi rfl rfl ⟨.inr ⟨token, hne, hsent⟩, hsession.imp_right fun hsame => ?_⟩
          nofun nofun nofun, hlate.turn hi nofun nofun⟩
        rw [hsame, show sent = [jwt, token] from hsent]
        rfl
      | false =>
        exact ⟨h.goOn hi rfl rfl (.inr ⟨token, hne, hsent⟩) nofun nofun nofun,
          hlate.turn hi nofun nofun⟩
    · cases hstep
  | loginGoogle refresh =>
    cases hstep
    exact ⟨{ h with
      left := fun left hleft hne => absurd (left_nil hapart hleft) hne
      out := nofun }, hlate⟩
  | loginSession jwt =>
    cases hstep
    obtain ⟨hfresh, hleaving, hgate, hretrying, hseen⟩ := hapart
    refine ⟨h.store hfresh hleaving (fun x hx => .inl ⟨hx, h.none_holds hgate hx, hretrying x hx⟩)
      h.gate rfl rfl, fun _ x hx hwaits hne => ⟨fun _ heq => ?_, fun hok => ?_⟩⟩
    · exact hfresh (Option.some.inj heq ▸ h.known x hx)
    · rcases hseen with hlast | hseen
      · exact absurd (hok.symm.trans hlast) Bool.false_ne_true
      · exact absurd (hseen x hx hwaits) hne
  | mint =>
    obtain ⟨⟨hdevice, hsession⟩, hmint⟩ := Option.ite_none_right_eq_some.mp hstep
    cases hmint
    refine ⟨h.minted ?_ _ _, hlate⟩
    rintro (hleaving | hout)
    · exact absurd (hapart.symm.trans hleaving) Bool.false_ne_true
    · exact hsession (h.out hout).2.1
  | mintStored device | mintFailed =>
    obtain ⟨hpos, hmint⟩ := Option.ite_none_right_eq_some.mp hstep
    cases hmint
    exact ⟨h.minted (h.idle_of_minting hpos) _ _, hlate⟩
  | logout =>
    cases hstep
    exact h.begun hlate hapart.1 hapart.2.1 hapart.2.2
  | delete j ok =>
    obtain rfl : ok = true := hapart
    simp only [step] at hstep
    split at hstep
    · next entry left hj =>
      cases hstep
      exact h.deleted hlate hj
    · cases hstep

/-- What the keychain holds before the first request. -/
def init (google session device : Option Token) : State := { google, session, device }

theorem inv_init (google session device : Option Token) : Inv (init google session device) where
  gate i r hi := by cases hi
  bound i hi := by cases hi
  fits r hr := by cases hr
  known r hr := by cases hr
  newest jwt hjwt := by
    rw [show session = some jwt from hjwt, init]
    simp
  renewed r hr := by cases hr
  gone _ r hr := by cases hr
  leaving hleaving := by cases hleaving
  left left hleft := by cases hleft
  out hout := by cases hout

theorem Inv.newest_of_refresh (h : Inv s) (hsession : s.session = none ∨ s.session = some r.jwt)
    (hr : r ∈ s.requests) (hstage : r.stage = .unauthorized) : s.stored.getLast? = some r.jwt :=
  hsession.elim (fun hnone => h.gone (.inl hnone) r hr (by rw [hstage]; rfl)) (h.newest r.jwt)

theorem Request.Fits.twice {jwt : Option Token} (h : r.Fits jwt) :
    r.sent = [] ∨ r.sent = [r.jwt] ∨ ∃ jwt, jwt ≠ r.jwt ∧ r.sent = [r.jwt, jwt] := by
  obtain ⟨_, _, _ | _ | _ | _ | _ | _ | _ | _ | _ | _, _⟩ := r
  · exact .inl h
  · exact .inr (.inl h)
  · exact .inr (.inl h)
  · exact .inr (.inl h.1)
  · exact .inr (.inl h.1)
  · exact .inr (.inl h.1)
  · exact .inr (.inl h.1)
  · exact .inr (.inr ⟨_, h.2.1, h.1⟩)
  · exact .inr h.1
  · exact .inr h

/-- One refresh at a time for an expired token, no 401 past a newer one, and no token after a logout,
as long as what no lock keeps apart is kept apart. -/
theorem one_refresh_and_final_logout (google session device : Option Token) {acts : List Action}
    {s : State} (run : Run step Apart (init google session device) acts s) :
    (∀ (i j : ℕ) (r r' : Request), s.requests[i]? = some r → s.requests[j]? = some r' →
        r.stage.holds → r'.stage.holds → i = j) ∧
      (∀ (i : ℕ) (r : Request) (s' : State), s.requests[i]? = some r → step s (.resolve i) = some s' →
        s'.gate ≠ none → s.stored.getLast? = some r.jwt) ∧
      (∀ r ∈ s.requests, r.sent = [] ∨ r.sent = [r.jwt] ∨
        ∃ jwt, jwt ≠ r.jwt ∧ r.sent = [r.jwt, jwt]) ∧
      (∀ r ∈ s.requests, ∀ stored, r.stage = .refused stored →
        stored = none ∨ stored = r.sent.getLast?) ∧
      (s.loggedOut → s.session = none ∧ s.device = none) := by
  obtain ⟨h, -⟩ := run.inv (fun s => Inv s ∧ Late s)
    ⟨inv_init google session device, fun _ r hr => by cases hr⟩
    fun s a s' hinv hapart hstep => inv_step hinv.1 hinv.2 hapart hstep
  refine ⟨fun i j r r' hi hj hr hr' => ?_, fun i r s' hi hstep hgate => ?_,
    fun r hr => (h.fits r hr).twice, fun r hr stored hstage => ?_, fun hout => ?_⟩
  · exact Option.some.inj (((h.gate i r hi).mp hr).symm.trans ((h.gate j r' hj).mp hr'))
  · simp only [step, hi] at hstep
    split at hstep
    · next jwt seen sent heq =>
      cases heq
      obtain ⟨hfree, hresolve⟩ := Option.ite_none_right_eq_some.mp hstep
      cases hresolve
      rcases resolve_cases s i ⟨jwt, seen, .unauthorized, sent⟩ with
        ⟨-, -, -, _, -, heq⟩ | ⟨-, -, heq⟩ | ⟨-, hsession, -⟩
      · exact absurd (heq ▸ hfree) hgate
      · exact absurd (heq ▸ hfree) hgate
      · exact h.newest_of_refresh hsession (List.mem_of_getElem? hi) rfl
    · cases hstep
  · have hfits := h.fits r hr
    simp only [Request.Fits, hstage] at hfits
    exact hfits.2
  · exact ⟨(h.out hout).2.1, (h.out hout).2.2.1⟩

/-- Two requests get a 401 together, one refreshes for both, and the user logs out at the end. -/
def refreshedTogether : List Action :=
  [.request, .request, .send 0, .send 1, .answer 0 true, .answer 1 true, .resolve 0, .readGoogle 0,
    .store 0 "new", .readBack 0, .release 0, .resolve 1, .retried 0 false, .retried 1 true, .logout,
    .delete 0 true, .delete 0 true, .delete 0 true]

/-- The user logs out while a refresh waits for the servers. -/
def loggedOutInRefresh : List Action :=
  [.request, .send 0, .answer 0 true, .resolve 0, .readGoogle 0, .logout, .delete 0 true,
    .delete 0 true, .delete 0 true, .store 0 "new"]

theorem one_refresh_and_final_logout_together : ∃ s,
    Run step Apart (init (some "refresh") (some "old") (some "device")) refreshedTogether s ∧
      s.requests.map (·.sent) = [["old", "new"], ["old", "new"]] ∧
      s.session = none ∧ s.device = none := by
  obtain ⟨s, hs⟩ := Option.isSome_iff_exists.mp (show (exec step
    (init (some "refresh") (some "old") (some "device")) refreshedTogether).isSome from by decide)
  have run : Run step Apart (init (some "refresh") (some "old") (some "device")) refreshedTogether s :=
    Run.of_exec hs (by decide)
  have hend : (exec step (init (some "refresh") (some "old") (some "device"))
      refreshedTogether).map (fun s => (s.requests.map (·.sent), s.loggedOut)) =
        some ([["old", "new"], ["old", "new"]], true) := by decide
  rw [hs, Option.map_some, Option.some.injEq, Prod.mk.injEq] at hend
  obtain ⟨-, -, -, -, hfinal⟩ := one_refresh_and_final_logout _ _ _ run
  exact ⟨s, run, hend.1, hfinal hend.2⟩

theorem refresh_outlives_logout : ∃ s,
    Run step (fun _ _ => True) (init (some "refresh") (some "old") none) loggedOutInRefresh s ∧
      s.loggedOut = true ∧ s.session = some "new" := by
  obtain ⟨s, hs⟩ := Option.isSome_iff_exists.mp (show (exec step
    (init (some "refresh") (some "old") none) loggedOutInRefresh).isSome from by decide)
  have hend : (exec step (init (some "refresh") (some "old") none) loggedOutInRefresh).map
      (fun s => (s.loggedOut, s.session)) = some (true, some "new") := by decide
  rw [hs, Option.map_some, Option.some.injEq, Prod.mk.injEq] at hend
  exact ⟨s, Run.of_exec_eq_some hs, hend.1, hend.2⟩

end Portuni.Desktop.Refresh
