import Mathlib.Data.List.Nodup
import Mathlib.Data.List.Pairwise
import Portuni.Library.RelyGuarantee

/-!
The `users` table with its constraints, and the statements of a login and of an invitation.
-/

namespace Portuni.Accounts

open Library.Interleaving

structure UserRow where
  id : String
  email : String
  name : String
  googleSub : Option String := none
  avatarUrl : Option String := none

/-- The primary key, the unique e-mail and the unique index on `google_sub`. -/
def Constraints (rows : List UserRow) : Prop :=
  (rows.map UserRow.id).Nodup ∧ (rows.map UserRow.email).Nodup ∧
    (rows.filterMap UserRow.googleSub).Nodup

instance (rows : List UserRow) : Decidable (Constraints rows) :=
  inferInstanceAs (Decidable (_ ∧ _))

structure Users where
  rows : List UserRow
  constraints : Constraints rows

inductive Statement where
  | select
  | updateProfile (id : String) (email : Option String) (name : String) (avatarUrl : Option String)
  | bindSub (id sub name : String) (avatarUrl : Option String)
  | insert (row : UserRow)

def updateRow (rows : List UserRow) (id : String) (f : UserRow → UserRow) : List UserRow :=
  rows.map fun row => if row.id = id then f row else row

/-- The rows that a statement writes, before the constraints are checked. -/
def Statement.rows (rows : List UserRow) : Statement → List UserRow
  | .select => rows
  | .updateProfile id email name avatarUrl => updateRow rows id fun row =>
    { row with
      email := email.getD row.email
      name := name
      avatarUrl := avatarUrl.or row.avatarUrl }
  | .bindSub id sub name avatarUrl => updateRow rows id fun row =>
    { row with
      googleSub := some sub
      name := name
      avatarUrl := avatarUrl.or row.avatarUrl }
  | .insert row => rows ++ [row]

namespace Users

variable (users : Users)

def Violates (s : Statement) : Prop := ¬ Constraints (s.rows users.rows)

instance (s : Statement) : Decidable (users.Violates s) := inferInstanceAs (Decidable (¬ _))

def bySub (sub : String) : Option UserRow := users.rows.find? (·.googleSub = some sub)

def byEmail (email : String) : Option UserRow := users.rows.find? (·.email = email)

def emailOwned (email id : String) : Prop := ∃ row ∈ users.rows, row.email = email ∧ row.id ≠ id

instance (email id : String) : Decidable (users.emailOwned email id) :=
  inferInstanceAs (Decidable (∃ row ∈ users.rows, _))

end Users

def perform (s : Statement) (users : Users) : Users :=
  if h : Constraints (s.rows users.rows) then ⟨_, h⟩ else users

structure Identity where
  sub : String
  email : String
  name : String

inductive Outcome where
  | user (id : String)
  | exists
  | failed

abbrev Request := Program Statement Users Outcome

/-- A statement that writes, and what follows its success or its violation. -/
def write (s : Statement) (success violation : Outcome) : Request :=
  .statement s fun users => .done (if users.Violates s then violation else success)

def upsertUserFromIdentity (identity : Identity) (avatarUrl : Option String) (ulid : String) :
    Request :=
  .statement .select fun users =>
    match users.bySub identity.sub with
    | some row =>
      .statement .select fun users =>
        if users.emailOwned identity.email row.id then
          write (.updateProfile row.id none identity.name avatarUrl) (.user row.id) .failed
        else
          write (.updateProfile row.id (some identity.email) identity.name avatarUrl)
            (.user row.id) .failed
    | none =>
      .statement .select fun users =>
        match users.byEmail identity.email with
        | some row =>
          write (.bindSub row.id identity.sub identity.name avatarUrl) (.user row.id) .failed
        | none =>
          write (.insert {
            id := ulid, email := identity.email, name := identity.name,
            googleSub := some identity.sub, avatarUrl := avatarUrl }) (.user ulid) .failed

/-- `normalize` is `email.trim().toLowerCase()`. -/
def inviteUser (normalize : String → String) (email ulid : String) : Request :=
  .statement .select fun users =>
    if (users.byEmail (normalize email)).isSome then .done .exists
    else
      write (.insert {
        id := ulid, email := normalize email,
        name := ((normalize email).splitOn "@").headD "" }) (.user ulid) .exists

inductive Call where
  | login (identity : Identity) (avatarUrl : Option String) (ulid : String)
  | invite (email ulid : String)

def request (normalize : String → String) (c : Call) : Program Statement Users (Call × Outcome) :=
  (match c with
    | .login identity avatarUrl ulid => upsertUserFromIdentity identity avatarUrl ulid
    | .invite email ulid => inviteUser normalize email ulid).bind fun outcome => .done (c, outcome)

abbrev step (normalize : String → String) :
    Pool Statement Users (Call × Outcome) → Action Call (Call × Outcome) →
      Option (Pool Statement Users (Call × Outcome)) :=
  Library.Interleaving.step perform (request normalize)

open Library.RelyGuarantee Library.Runs

variable {users users' : Users} {row : UserRow} {s : Statement} {id sub : String}

def Permanent (users users' : Users) : Prop :=
  ∀ row ∈ users.rows, ∃ row' ∈ users'.rows, row'.id = row.id ∧
    ∀ sub, row.googleSub = some sub → row'.googleSub = some sub

def Users.HasSub (users : Users) (id sub : String) : Prop :=
  ∃ row ∈ users.rows, row.id = id ∧ row.googleSub = some sub

/-- No constraint is violated, and a subject is bound to a row that has none or the same. -/
def Undisturbed (users : Users) (s : Statement) : Prop :=
  ¬ users.Violates s ∧
    match s with
    | .bindSub id sub _ _ => ∀ row ∈ users.rows, row.id = id →
        row.googleSub = none ∨ row.googleSub = some sub
    | _ => True

instance (users : Users) (s : Statement) : Decidable (Undisturbed users s) :=
  match s with
  | .bindSub id sub _ _ => inferInstanceAs (Decidable (_ ∧ ∀ row ∈ users.rows, row.id = id →
      row.googleSub = none ∨ row.googleSub = some sub))
  | .select | .updateProfile .. | .insert _ => inferInstanceAs (Decidable (_ ∧ True))

theorem Permanent.refl (users : Users) : Permanent users users :=
  fun row hrow => ⟨row, hrow, rfl, fun _ h => h⟩

theorem Permanent.trans {users'' : Users} (h : Permanent users users')
    (h' : Permanent users' users'') : Permanent users users'' := by
  intro row hrow
  obtain ⟨row', hrow', hid, hsub⟩ := h row hrow
  obtain ⟨row'', hrow'', hid', hsub'⟩ := h' row' hrow'
  exact ⟨row'', hrow'', hid'.trans hid, fun sub hs => hsub' sub (hsub sub hs)⟩

theorem Users.HasSub.later (h : users.HasSub id sub) (hchange : Permanent users users') :
    users'.HasSub id sub := by
  obtain ⟨row, hrow, hid, hsub⟩ := h
  obtain ⟨row', hrow', hid', hsub'⟩ := hchange row hrow
  exact ⟨row', hrow', hid'.trans hid, hsub' sub hsub⟩

theorem rows_perform (h : ¬ users.Violates s) : (perform s users).rows = s.rows users.rows := by
  unfold perform
  rw [dif_pos (not_not.mp h)]

theorem permanent_updateRow {f : UserRow → UserRow}
    (h : users'.rows = updateRow users.rows id f) (hid : ∀ row, (f row).id = row.id)
    (hsub : ∀ row ∈ users.rows, row.id = id → ∀ sub, row.googleSub = some sub →
      (f row).googleSub = some sub) : Permanent users users' := by
  intro row hrow
  refine ⟨if row.id = id then f row else row, ?_, ?_, ?_⟩
  · rw [h]
    exact List.mem_map.mpr ⟨row, hrow, rfl⟩
  · split
    · exact hid row
    · rfl
  · intro sub hs
    split
    · rename_i heq
      exact hsub row hrow heq sub hs
    · exact hs

theorem permanent_perform (h : Undisturbed users s) : Permanent users (perform s users) := by
  obtain ⟨hok, hbind⟩ := h
  have hrows := rows_perform hok
  cases s with
  | select => exact fun row hrow => ⟨row, by rw [hrows]; exact hrow, rfl, fun _ h => h⟩
  | updateProfile id email name avatarUrl =>
    exact permanent_updateRow hrows (fun _ => rfl) fun _ _ _ _ h => h
  | bindSub id sub name avatarUrl =>
    refine permanent_updateRow hrows (fun _ => rfl) ?_
    intro row hrow hid sub' hs
    rcases hbind row hrow hid with hnone | hsame
    · rw [hnone] at hs
      cases hs
    · exact hsame.symm.trans hs
  | insert new =>
    refine fun row hrow => ⟨row, ?_, rfl, fun _ h => h⟩
    rw [hrows]
    exact List.mem_append_left _ hrow

theorem hasSub_of_bySub (h : users.bySub sub = some row) : users.HasSub row.id sub :=
  ⟨row, List.mem_of_find?_eq_some h, rfl, by simpa using List.find?_some h⟩

theorem hasSub_bindSub {name : String} {avatarUrl : Option String}
    (hok : ¬ users.Violates (.bindSub id sub name avatarUrl))
    (hrow : ∃ row ∈ users.rows, row.id = id) :
    (perform (.bindSub id sub name avatarUrl) users).HasSub id sub := by
  obtain ⟨row, hmem, rfl⟩ := hrow
  unfold Users.HasSub
  rw [rows_perform hok]
  exact ⟨_, List.mem_map_of_mem hmem, by rw [if_pos rfl], by rw [if_pos rfl]⟩

theorem hasSub_insert {new : UserRow} (hok : ¬ users.Violates (.insert new))
    (hsub : new.googleSub = some sub) : (perform (.insert new) users).HasSub new.id sub := by
  refine ⟨new, ?_, rfl, hsub⟩
  rw [rows_perform hok]
  exact List.mem_append_right _ (List.mem_singleton_self new)

theorem eq_of_nodup_filterMap {α β : Type*} {f : α → Option β} {l : List α} {a b : α}
    {x : β} (h : (l.filterMap f).Nodup) (ha : a ∈ l) (hb : b ∈ l) (hfa : f a = some x)
    (hfb : f b = some x) : a = b := by
  by_contra hne
  have hpair := List.pairwise_filterMap.mp h
  have hsymm : Std.Symm fun a b => ∀ x, f a = some x → ∀ y, f b = some y → x ≠ y :=
    ⟨fun _ _ hab y hy x hx => (hab x hx y hy).symm⟩
  exact hpair.forall ha hb hne x hfa x hfb rfl

theorem Users.HasSub.sub_eq_iff {id' sub' : String} (h : users.HasSub id sub)
    (h' : users.HasSub id' sub') : sub = sub' ↔ id = id' := by
  obtain ⟨row, hrow, rfl, hsub⟩ := h
  obtain ⟨row', hrow', rfl, hsub'⟩ := h'
  obtain ⟨ids, -, subs⟩ := users.constraints
  constructor
  · rintro rfl
    exact congrArg UserRow.id (eq_of_nodup_filterMap subs hrow hrow' hsub hsub')
  · intro heq
    obtain rfl := List.inj_on_of_nodup_map ids hrow hrow' heq
    rw [hsub] at hsub'
    exact Option.some.inj hsub'

/-- What a finished request leaves behind: the row of the subject that logged in. -/
def Answered (users : Users) : Call × Outcome → Prop
  | (.login identity _ _, .user id) => users.HasSub id identity.sub
  | (.login _ _ _, _) => False
  | (.invite _ _, outcome) => outcome ≠ .failed

theorem stable_answered : Stable Permanent Answered where
  refl := Permanent.refl
  trans := Permanent.trans
  post := by
    rintro users users' ⟨c, outcome⟩ hchange h
    cases c with
    | invite => exact h
    | login =>
      cases outcome with
      | user id => exact h.later hchange
      | _ => exact h.elim

abbrev SoundRequest (users : Users) (p : Program Statement Users (Call × Outcome)) : Prop :=
  Sound perform (fun _ => True) Undisturbed Permanent Answered p users

theorem sound_select {next : Users → Program Statement Users (Call × Outcome)}
    (h : ∀ later, Permanent users later → SoundRequest later (next later)) :
    SoundRequest users (.statement .select next) := by
  refine Sound.read stable_answered (fun state => ?_) fun later hlater _ => h later hlater
  unfold perform
  split <;> rfl

theorem sound_write {success violation : Outcome} {c : Call}
    (h : ∀ later, Permanent users later → Undisturbed later s →
      Answered (perform s later) (c, success)) :
    SoundRequest users ((write s success violation).bind fun outcome => .done (c, outcome)) := by
  intro later hlater _ hok
  refine ⟨trivial, permanent_perform hok, ?_⟩
  have hdone := h later hlater hok
  simp only [Program.bind]
  rw [if_neg hok.1]
  exact hdone

theorem sound_login (identity : Identity) (avatarUrl : Option String) (ulid : String)
    (normalize : String → String) :
    SoundRequest users (request normalize (.login identity avatarUrl ulid)) := by
  unfold request upsertUserFromIdentity
  simp only [Program.bind]
  refine sound_select fun users₁ _ => ?_
  cases hsub : users₁.bySub identity.sub with
  | some row =>
    have bound := hasSub_of_bySub hsub
    simp only [Program.bind]
    refine sound_select fun users₂ hchange₂ => ?_
    split
    · refine sound_write fun users₃ hchange₃ hok => ?_
      exact ((bound.later hchange₂).later hchange₃).later (permanent_perform hok)
    · refine sound_write fun users₃ hchange₃ hok => ?_
      exact ((bound.later hchange₂).later hchange₃).later (permanent_perform hok)
  | none =>
    simp only [Program.bind]
    refine sound_select fun users₂ _ => ?_
    cases hemail : users₂.byEmail identity.email with
    | some row =>
      refine sound_write fun users₃ hchange₃ hok => ?_
      obtain ⟨row', hrow', hid, -⟩ := hchange₃ row (List.mem_of_find?_eq_some hemail)
      exact hasSub_bindSub hok.1 ⟨row', hrow', hid⟩
    | none =>
      refine sound_write fun users₃ _ hok => ?_
      exact hasSub_insert hok.1 rfl

theorem sound_invite (email ulid : String) (normalize : String → String) :
    SoundRequest users (request normalize (.invite email ulid)) := by
  unfold request inviteUser
  simp only [Program.bind]
  refine sound_select fun users₁ _ => ?_
  split
  · exact fun h => by cases h
  · refine sound_write fun users₂ _ _ => ?_
    exact fun h => by cases h

theorem sound_request (normalize : String → String) (c : Call) (users : Users) (_ : True) :
    SoundRequest users (request normalize c) := by
  cases c with
  | login identity avatarUrl ulid => exact sound_login identity avatarUrl ulid normalize
  | invite email ulid => exact sound_invite email ulid normalize

def startOf (users : Users) : Pool Statement Users (Call × Outcome) := ⟨users, []⟩

/-- Logins and invitations, one statement after another, in any order. -/
abbrev Logins (normalize : String → String) (pool : Pool Statement Users (Call × Outcome)) :=
  Run (step normalize) (Completes Undisturbed) pool

/-- An account that is bound stays bound to its subject, no login fails, and two finished logins
have the same account exactly if they have the same subject. -/
theorem bindings_permanent {normalize : String → String}
    {pool pool' : Pool Statement Users (Call × Outcome)} {acts acts' : List _}
    (run : Logins normalize (startOf users) acts pool) (run' : Logins normalize pool acts' pool') :
    (∀ id sub, pool.state.HasSub id sub → pool'.state.HasSub id sub) ∧
      (∀ id sub id' sub', pool'.state.HasSub id sub → pool'.state.HasSub id' sub' →
        (sub = sub' ↔ id = id')) ∧
        ∀ identity avatarUrl ulid outcome,
          .done (.login identity avatarUrl ulid, outcome) ∈ pool'.programs →
            ∃ id, outcome = .user id ∧ pool'.state.HasSub id identity.sub := by
  have calls := sound_request normalize
  have start : SoundPool perform (fun _ => True) Undisturbed Permanent Answered (startOf users) :=
    SoundPool.start trivial
  have sound := (start.run stable_answered calls run).1
  obtain ⟨sound', hchange⟩ := sound.run stable_answered calls run'
  refine ⟨fun id sub h => h.later hchange, fun id sub id' sub' h h' => h.sub_eq_iff h', ?_⟩
  intro identity avatarUrl ulid outcome hdone
  have answered : Answered pool'.state (.login identity avatarUrl ulid, outcome) :=
    sound'.programs _ hdone
  cases outcome with
  | user id => exact ⟨id, rfl, answered⟩
  | _ => exact answered.elim

instance (users : Users) (id sub : String) : Decidable (users.HasSub id sub) :=
  inferInstanceAs (Decidable (∃ row ∈ users.rows, _))

def sampleUsers : Users where
  rows := [
    { id := "u1", email := "a@x.com", name := "A", googleSub := some "s1" },
    { id := "u2", email := "b@x.com", name := "b" }]
  constraints := by decide +kernel

/-- The first person comes back under a new e-mail, the invited one follows, and the old e-mail
goes to a third. -/
def renamedLogins : List (Action Call (Call × Outcome)) :=
  [.call (.login ⟨"s1", "c@x.com", "A"⟩ none "u3"),
    .call (.login ⟨"s2", "b@x.com", "B"⟩ none "u4"),
    .next 0, .next 1, .next 0, .next 1, .next 1, .next 0,
    .call (.login ⟨"s3", "a@x.com", "C"⟩ none "u5"), .next 2, .next 2, .next 2]

theorem bindings_permanent_renamed :
    ∃ pool, exec (step fun email => email) (startOf sampleUsers) renamedLogins = some pool ∧
      pool.state.rows.map (fun row => (row.id, row.email, row.googleSub)) =
        [("u1", "c@x.com", some "s1"), ("u2", "b@x.com", some "s2"), ("u5", "a@x.com", some "s3")] ∧
        ∀ id sub, sampleUsers.HasSub id sub → pool.state.HasSub id sub := by
  have hfinal : (exec (step fun email => email) (startOf sampleUsers) renamedLogins).map
      (fun pool => pool.state.rows.map fun row => (row.id, row.email, row.googleSub)) =
      some [("u1", "c@x.com", some "s1"), ("u2", "b@x.com", some "s2"),
        ("u5", "a@x.com", some "s3")] := by
    decide +kernel
  obtain ⟨pool, hpool, hrows⟩ := Option.map_eq_some_iff.mp hfinal
  exact ⟨pool, hpool, hrows, (bindings_permanent .nil (Run.of_exec hpool (by decide +kernel))).1⟩

/-- A person leaves, and the e-mail goes to another one, who logs in with it. -/
def recycledLogin : List (Action Call (Call × Outcome)) :=
  [.call (.login ⟨"s2", "a@x.com", "B"⟩ none "u3"), .next 0, .next 0, .next 0]

/-- The account of the first subject goes over to the second. -/
theorem recycledLogin_rebinds :
    ∃ pool, Run (step fun email => email) (Completes fun _ _ => True) (startOf sampleUsers)
        recycledLogin pool ∧
      sampleUsers.HasSub "u1" "s1" ∧ ¬ pool.state.HasSub "u1" "s1" ∧
        pool.state.HasSub "u1" "s2" := by
  have hfinal : (exec (step fun email => email) (startOf sampleUsers) recycledLogin).any
      (fun pool => !decide (pool.state.HasSub "u1" "s1") &&
        decide (pool.state.HasSub "u1" "s2")) = true := by
    decide +kernel
  obtain ⟨pool, hpool, hsubs⟩ := (Option.any_eq_true _ _).mp hfinal
  refine ⟨pool, Run.of_exec hpool (by decide +kernel), by decide +kernel, ?_⟩
  simpa using hsubs

end Portuni.Accounts
