import Mathlib.Logic.Function.Basic
import Portuni.Library.Runs

/-!
The move of a flat installation to named workspaces: the database files, the accounts of the secret
store and the configuration, changed one after another by attempts that may stop at any step.
-/

namespace Portuni.Desktop.Migration

open Library.Runs

section

/-- `config.json`; the flat one as far as the migration asks for its fields, a `turso_auth_token` that
is not a string as an empty one. -/
inductive Config where
  | missing
  | v1 (tursoAuthToken : Option String)
  | v2 (activeWorkspace : String)
deriving DecidableEq

inductive Op where
  | createDir
  | move (name : String)
  | storeToken
  | stripToken
  | copy (base : String)
  | delete (base : String)
  | save
deriving DecidableEq

/-- The files by name and the secrets by account, each flat and by workspace; an empty secret is none. -/
structure State (Bytes : Type) where
  flatFile : String → Option Bytes
  file : String → String → Option Bytes
  flatSecret : String → Option String
  secret : String → String → Option String
  config : Config
  /-- The id that the attempt under way was given, and what it has left to do. -/
  attempt : Option (String × List Op) := none

/-- What succeeds: the read of the flat account, the read of `config.json` or of the workspace's own
account, and the write. -/
structure Outcome where
  read : Bool
  readOther : Bool
  done : Bool

inductive Action where
  | migrate (id : String)
  | next (o : Outcome)
  | crash

def isValidWorkspaceId (id : String) : Bool :=
  id.utf8ByteSize ≤ 32 && id.toList.head?.any Char.isLower &&
    id.toList.all fun c => c.isLower || c.isDigit || c = '-'

def databaseFiles : List String :=
  ["portuni.db", "portuni.db-wal", "portuni.db-shm", "portuni.db-journal"]

def turso : String := "turso_auth_token"

def bases : List String :=
  [turso, "mcp_auth_token", "google_refresh_token", "portuni_session_jwt", "portuni_device_token"]

def program : List Op :=
  .createDir :: (databaseFiles.map .move ++ (.storeToken :: (bases.map .copy ++ [.save])))

variable {Bytes : Type}

namespace State

variable (s : State Bytes)

def keep (id : String) (ops : List Op) : State Bytes := { s with attempt := some (id, ops) }

def stop : State Bytes := { s with attempt := none }

def moveFile (id name : String) (bytes : Bytes) : State Bytes :=
  { s with
    flatFile := Function.update s.flatFile name none
    file := Function.update s.file id (Function.update (s.file id) name (some bytes)) }

def setSecret (base id value : String) : State Bytes :=
  { s with
    secret := Function.update s.secret base (Function.update (s.secret base) id (some value)) }

end State

/-- One step of the attempt; the step of `move` is a file of `apply_migration_files`, those of
`storeToken` and `stripToken` are `migrate_turso_token_to_keychain`. -/
def perform (s : State Bytes) (id : String) (rest : List Op) (o : Outcome) : Op → State Bytes
  | .createDir => if o.done then s.keep id rest else s.stop
  | .move name =>
    match s.flatFile name with
    | none => s.keep id rest
    | some bytes =>
      if s.file id name = none ∧ o.done then (s.moveFile id name bytes).keep id rest else s.stop
  | .storeToken =>
    match if o.readOther then s.config else .missing with
    | .v1 (some token) =>
      if token = "" ∨ o.read ∧ s.flatSecret turso ≠ none then s.keep id (.stripToken :: rest)
      else if o.done then
        { s with flatSecret := Function.update s.flatSecret turso (some token) }.keep id
          (.stripToken :: rest)
      else s.keep id rest
    | _ => s.keep id rest
  | .stripToken => (if o.done then { s with config := .v1 none } else s).keep id rest
  | .copy base =>
    match if o.read then s.flatSecret base else none with
    | none => s.keep id rest
    | some value =>
      if o.readOther ∧ s.secret base id ≠ none then s.keep id (.delete base :: rest)
      else if o.done then (s.setSecret base id value).keep id (.delete base :: rest)
      else s.stop
  | .delete base =>
    (if o.done then { s with flatSecret := Function.update s.flatSecret base none } else s).keep
      id rest
  | .save => (if o.done then { s with config := .v2 id } else s).stop

def step (s : State Bytes) : Action → Option (State Bytes)
  | .migrate id =>
    match s.attempt, s.config with
    | some _, _ => none
    | none, .v2 _ => some s
    | none, _ => if isValidWorkspaceId id then some (s.keep id program) else none
  | .next o =>
    match s.attempt with
    | some (id, op :: rest) => some (perform s id rest o op)
    | _ => none
  | .crash => some s.stop

/-- Every attempt is given the same id, what is there can be read, and the secret store takes the token
that is in plaintext. -/
def Steady (id : String) (s : State Bytes) : Action → Prop
  | .migrate id' => id' = id
  | .next o => o.read = true ∧ o.readOther = true ∧
      ∀ attempt ∈ s.attempt, attempt.2.head? = some .storeToken → o.done = true
  | .crash => True

end

section

variable {Bytes : Type} {s₀ s s' : State Bytes} {id base name : String} {op : Op} {ops rest : List Op}

/-- The secret of an account: the flat one, or the token that stands in plaintext. -/
def wanted (s₀ : State Bytes) (base : String) : Option String :=
  (s₀.flatSecret base).or
    (match s₀.config with
    | .v1 (some token) => if base = turso ∧ token ≠ "" then some token else none
    | _ => none)

/-- The secret has not been copied yet, or it has. -/
def Held (s₀ s : State Bytes) (id base : String) : Prop :=
  s.flatSecret base = wanted s₀ base ∧ s.secret base id = none ∨
    s.secret base id = wanted s₀ base ∧ wanted s₀ base ≠ none

structure Data (s₀ : State Bytes) (id : String) (s : State Bytes) : Prop where
  config : s.config = s₀.config ∨ s.config = .v1 none ∨ s.config = .v2 id
  files : ∀ name, s.flatFile name = s₀.flatFile name ∧ s.file id name = s₀.file id name ∨
    ∃ bytes, s₀.flatFile name = some bytes ∧ s.flatFile name = none ∧
      s₀.file id name = none ∧ s.file id name = some bytes
  others : ∀ id', id' ≠ id → s.file id' = s₀.file id' ∧
    ∀ base, s.secret base id' = s₀.secret base id'
  secrets : ∀ base, Held s₀ s id base ∨ base = turso ∧ s.config = s₀.config ∧
    s₀.flatSecret base = none ∧ s.flatSecret base = none ∧ s.secret base id = none

/-- What an attempt has done that has `ops` left. -/
structure Progress (s₀ : State Bytes) (id : String) (s : State Bytes) (ops : List Op) : Prop where
  moved : ∀ name ∈ databaseFiles, .move name ∉ ops → s.flatFile name = none
  stored : .storeToken ∉ ops ∨ .stripToken ∈ ops → Held s₀ s id turso
  copied : ∀ base, base ∈ bases ∧ .copy base ∉ ops ∨ .delete base ∈ ops →
    s.secret base id = wanted s₀ base

def rank : Op → ℕ
  | .createDir => 0
  | .move _ => 1
  | .storeToken | .stripToken => 2
  | .copy _ | .delete _ => 3
  | .save => 4

structure Inv (s₀ : State Bytes) (id : String) (s : State Bytes) : Prop where
  data : Data s₀ id s
  attempt : ∀ id' ops, s.attempt = some (id', ops) → id' = id ∧ (∀ id', s.config ≠ .v2 id') ∧
    ops.Pairwise (fun op op' => rank op ≤ rank op') ∧ Progress s₀ id s ops
  finished : ∀ id', s.config = .v2 id' → id' = id ∧ Progress s₀ id s []

theorem Progress.tail (h : Progress s₀ id s (op :: rest))
    (hmoved : ∀ name ∈ databaseFiles, op = .move name → s.flatFile name = none)
    (hstored : op = .storeToken → Held s₀ s id turso)
    (hcopied : ∀ base ∈ bases, op = .copy base → s.secret base id = wanted s₀ base) :
    Progress s₀ id s rest where
  moved name hname hrest := by
    by_cases hop : op = .move name
    · exact hmoved name hname hop
    · exact h.moved name hname fun hmem => (List.mem_cons.mp hmem).elim (fun heq => hop heq.symm) hrest
  stored hrest := by
    by_cases hop : op = .storeToken
    · exact hstored hop
    · refine h.stored (hrest.imp (fun hrest hmem => ?_) (List.mem_cons_of_mem op))
      exact (List.mem_cons.mp hmem).elim (fun heq => hop heq.symm) hrest
  copied base hrest := by
    rcases hrest with ⟨hbase, hrest⟩ | hrest
    · by_cases hop : op = .copy base
      · exact hcopied base hbase hop
      · refine h.copied base (.inl ⟨hbase, fun hmem => ?_⟩)
        exact (List.mem_cons.mp hmem).elim (fun heq => hop heq.symm) hrest
    · exact h.copied base (.inr (List.mem_cons_of_mem op hrest))

theorem Data.keep (h : Data s₀ id s) (hconfig : ∀ id', s.config ≠ .v2 id')
    (hrank : rest.Pairwise fun op op' => rank op ≤ rank op') (hprogress : Progress s₀ id s rest) :
    Inv s₀ id (s.keep id rest) where
  data := ⟨h.config, h.files, h.others, h.secrets⟩
  attempt id' ops hops := by
    cases hops
    exact ⟨rfl, hconfig, hrank, hprogress.moved, hprogress.stored, hprogress.copied⟩
  finished id' hid := absurd hid (hconfig id')

theorem Data.stop (h : Data s₀ id s)
    (hfinished : ∀ id', s.config = .v2 id' → id' = id ∧ Progress s₀ id s []) :
    Inv s₀ id s.stop where
  data := ⟨h.config, h.files, h.others, h.secrets⟩
  attempt id' ops hops := by cases hops
  finished id' hid := by
    obtain ⟨rfl, hprogress⟩ := hfinished id' hid
    exact ⟨rfl, hprogress.moved, hprogress.stored, hprogress.copied⟩

theorem Held.own (h : Held s₀ s id base) (hflat : s.flatSecret base = none) :
    s.secret base id = wanted s₀ base := by
  rcases h with ⟨hwanted, hnone⟩ | ⟨hown, -⟩
  · rw [hnone, ← hwanted, hflat]
  · exact hown

theorem Data.moveFile (h : Data s₀ id s) {bytes : Bytes} (hflat : s.flatFile name = some bytes)
    (hown : s.file id name = none) : Data s₀ id (s.moveFile id name bytes) where
  config := h.config
  files name' := by
    by_cases hname : name' = name
    · subst hname
      rcases h.files name' with ⟨hsame, hsame'⟩ | ⟨bytes', -, hnone, -⟩
      · exact .inr ⟨bytes, hsame ▸ hflat, by simp [State.moveFile], hsame' ▸ hown,
          by simp [State.moveFile]⟩
      · cases hnone.symm.trans hflat
    · simpa [State.moveFile, hname] using h.files name'
  others id' hid := by simpa [State.moveFile, hid] using h.others id' hid
  secrets := h.secrets

theorem Progress.moveFile (h : Progress s₀ id s ops) (bytes : Bytes) :
    Progress s₀ id (s.moveFile id name bytes) ops where
  moved name' hname hops := by
    by_cases hsame : name' = name
    · simp [State.moveFile, hsame]
    · simpa [State.moveFile, hsame] using h.moved name' hname hops
  stored := h.stored
  copied := h.copied

theorem Data.setSecrets (h : Data s₀ id s) {flat : String → Option String}
    {own : String → String → Option String} (hheld : ∀ base,
      (flat base = s.flatSecret base ∧ own base id = s.secret base id) ∨
        Held s₀ { s with flatSecret := flat, secret := own } id base)
    (hothers : ∀ id', id' ≠ id → ∀ base, own base id' = s.secret base id') :
    Data s₀ id { s with flatSecret := flat, secret := own } where
  config := h.config
  files := h.files
  others id' hid := ⟨(h.others id' hid).1, fun base =>
    (hothers id' hid base).trans ((h.others id' hid).2 base)⟩
  secrets base := by
    rcases hheld base with ⟨hflat, hown⟩ | hheld
    · simpa [Held, hflat, hown] using h.secrets base
    · exact .inl hheld

theorem wanted_plaintext {token : String} (hconfig : s₀.config = .v1 (some token)) (htoken : token ≠ "")
    (hflat : s₀.flatSecret turso = none) : wanted s₀ turso = some token := by
  simp [wanted, hconfig, htoken, hflat]

theorem rank_tail (h : (op :: rest).Pairwise fun op op' => rank op ≤ rank op') {op' : Op}
    (hop : rank op' < rank op) : op' ∉ rest := by
  intro hmem
  have hle := List.rel_of_pairwise_cons h hmem
  omega

theorem Progress.push (h : Progress s₀ id s rest) (hstored : op = .stripToken → Held s₀ s id turso)
    (hcopied : ∀ base, op = .delete base → s.secret base id = wanted s₀ base) :
    Progress s₀ id s (op :: rest) where
  moved name hname hops := h.moved name hname fun hmem => hops (List.mem_cons_of_mem op hmem)
  stored hops := by
    rcases hops with hops | hops
    · exact h.stored (.inl fun hmem => hops (List.mem_cons_of_mem op hmem))
    · exact (List.mem_cons.mp hops).elim (fun heq => hstored heq.symm) fun hmem => h.stored (.inr hmem)
  copied base hbase := by
    rcases hbase with ⟨hbase, hops⟩ | hops
    · exact h.copied base (.inl ⟨hbase, fun hmem => hops (List.mem_cons_of_mem op hmem)⟩)
    · exact (List.mem_cons.mp hops).elim (fun heq => hcopied base heq.symm) fun hmem =>
        h.copied base (.inr hmem)

theorem pairwise_push {op' : Op} (h : (op :: rest).Pairwise fun op op' => rank op ≤ rank op')
    (hrank : rank op' = rank op) : (op' :: rest).Pairwise fun op op' => rank op ≤ rank op' :=
  List.pairwise_cons.mpr
    ⟨fun _ hmem => hrank ▸ List.rel_of_pairwise_cons h hmem, (List.pairwise_cons.mp h).2⟩

theorem Data.held_turso (h : Data s₀ id s)
    (hconfig : ∀ token, s.config = .v1 (some token) → token = "" ∨ s.flatSecret turso ≠ none) :
    Held s₀ s id turso := by
  rcases h.secrets turso with hheld | ⟨-, hsame, hflat₀, hflat, hown⟩
  · exact hheld
  · refine .inl ⟨?_, hown⟩
    rw [hflat, wanted, hflat₀, ← hsame, Option.none_or]
    split
    · next token htoken =>
      rcases hconfig token htoken with hempty | hne
      · simp [hempty]
      · exact absurd hflat hne
    · rfl

variable {o : Outcome}

theorem Inv.storeToken (h : Inv s₀ id s) (hattempt : s.attempt = some (id, .storeToken :: rest))
    (hread : o.read = true) (hother : o.readOther = true) (hdone : o.done = true) :
    Inv s₀ id (perform s id rest o .storeToken) := by
  obtain ⟨-, hconfig, hrank, hprogress⟩ := h.attempt _ _ hattempt
  have hkept : Held s₀ s id turso → Progress s₀ id s rest := fun hheld =>
    hprogress.tail (fun _ _ => nofun) (fun _ => hheld) fun _ _ => nofun
  simp only [perform, hother, if_true, hread, true_and]
  split
  · next token htoken =>
    split
    · next hsuperseded =>
      have hheld : Held s₀ s id turso := h.data.held_turso fun token' htoken' => by
        obtain rfl := Option.some.inj (Config.v1.inj (htoken.symm.trans htoken'))
        exact hsuperseded
      exact h.data.keep hconfig (pairwise_push hrank rfl)
        ((hkept hheld).push (fun _ => hheld) fun _ => nofun)
    · next hnew =>
      obtain ⟨hsome, hflat⟩ := not_or.mp hnew
      have hflat := not_not.mp hflat
      have hconfig₀ : s₀.config = .v1 (some token) := by
        rcases h.data.config with hsame | hnone | hdone
        · exact hsame ▸ htoken
        · cases htoken.symm.trans hnone
        · exact absurd hdone (hconfig id)
      have hheld : Held s₀ { s with flatSecret := Function.update s.flatSecret turso (some token) }
          id turso := by
        rcases h.data.secrets turso with (⟨hwanted, -⟩ | hown) | ⟨-, -, hflat₀, -, hown⟩
        · rw [hflat, wanted, hconfig₀] at hwanted
          simp [hsome] at hwanted
        · exact .inr hown
        · exact .inl ⟨by simp [wanted_plaintext hconfig₀ hsome hflat₀], hown⟩
      have hprogress' : Progress s₀ id
          { s with flatSecret := Function.update s.flatSecret turso (some token) }
          (.storeToken :: rest) := ⟨hprogress.moved, fun _ => hheld, hprogress.copied⟩
      refine Data.keep (h.data.setSecrets (fun base => ?_) fun _ _ _ => rfl) hconfig
        (pairwise_push hrank rfl) ((hprogress'.tail (fun _ _ => nofun) (fun _ => hheld)
          fun _ _ => nofun).push (fun _ => hheld) fun _ => nofun)
      by_cases hbase : base = turso
      · exact .inr (hbase ▸ hheld)
      · exact .inl ⟨by simp [hbase], rfl⟩
  · next hnone =>
    exact h.data.keep hconfig (List.pairwise_cons.mp hrank).2
      (hkept (h.data.held_turso fun token htoken => absurd htoken (hnone token)))

theorem Inv.copy (h : Inv s₀ id s) (hattempt : s.attempt = some (id, .copy base :: rest))
    (hread : o.read = true) (hother : o.readOther = true) :
    Inv s₀ id (perform s id rest o (.copy base)) := by
  obtain ⟨-, hconfig, hrank, hprogress⟩ := h.attempt _ _ hattempt
  have hturso : Held s₀ s id turso := hprogress.stored (.inl fun hmem =>
    (List.mem_cons.mp hmem).elim nofun (rank_tail hrank (show 2 < 3 by decide)))
  have hheld : ∀ base, Held s₀ s id base := fun base => (h.data.secrets base).elim (fun hheld => hheld)
    fun hpending => hpending.1 ▸ hturso
  have hdrop : ∀ {t : State Bytes}, Progress s₀ id t (.copy base :: rest) →
      t.secret base id = wanted s₀ base → Progress s₀ id t rest := fun hprogress hown =>
    hprogress.tail (fun _ _ => nofun) nofun fun base' _ heq => by
      obtain rfl := Op.copy.inj heq
      exact hown
  simp only [perform, hread, hother, if_true, true_and]
  split
  · next hnone =>
    exact h.data.keep hconfig (List.pairwise_cons.mp hrank).2 (hdrop hprogress ((hheld base).own hnone))
  · next value hvalue =>
    have hpush : ∀ {t : State Bytes}, Progress s₀ id t (.copy base :: rest) →
        t.secret base id = wanted s₀ base → Progress s₀ id t (.delete base :: rest) :=
      fun hprogress hown => (hdrop hprogress hown).push nofun fun base' heq => by
        obtain rfl := Op.delete.inj heq
        exact hown
    split
    · next hown =>
      refine h.data.keep hconfig (pairwise_push hrank rfl) (hpush hprogress ?_)
      exact (hheld base).elim (fun hleft => absurd hleft.2 hown) fun hright => hright.1
    · next hown =>
      have hown := not_not.mp hown
      have hwanted : some value = wanted s₀ base := by
        rcases hheld base with ⟨hflat, -⟩ | ⟨hright, hne⟩
        · exact hvalue.symm.trans hflat
        · exact absurd (hright.symm.trans hown) hne
      split
      · have hown' : (s.setSecret base id value).secret base id = wanted s₀ base := by
          simp [State.setSecret, hwanted]
        have hheld' : Held s₀ (s.setSecret base id value) id base :=
          .inr ⟨hown', hwanted ▸ Option.some_ne_none value⟩
        have hsecret : ∀ base', (s.setSecret base id value).secret base' id = s.secret base' id ∨
            base' = base := fun base' => by
          by_cases hbase : base' = base
          · exact .inr hbase
          · exact .inl (by simp [State.setSecret, hbase])
        have hprogress' : Progress s₀ id (s.setSecret base id value) (.copy base :: rest) := by
          refine ⟨hprogress.moved, fun _ => ?_, fun base' hbase' => ?_⟩
          · rcases hsecret turso with hsame | hbase
            · exact hturso.imp (fun hleft => ⟨hleft.1, hsame.trans hleft.2⟩)
                fun hright => ⟨hsame.trans hright.1, hright.2⟩
            · exact hbase ▸ hheld'
          · rcases hsecret base' with hsame | rfl
            · exact hsame.trans (hprogress.copied base' hbase')
            · exact hown'
        refine Data.keep (h.data.setSecrets (fun base' => ?_) fun id' hid base' => ?_) hconfig
          (pairwise_push hrank rfl) (hpush hprogress' hown')
        · rcases hsecret base' with hsame | rfl
          · exact .inl ⟨rfl, hsame⟩
          · exact .inr hheld'
        · by_cases hbase : base' = base
          · subst hbase
            simp [hid]
          · simp [hbase]
      · exact h.data.stop fun id' hid => absurd hid (hconfig id')

theorem Inv.performed (h : Inv s₀ id s) (hattempt : s.attempt = some (id, op :: rest)) {o : Outcome}
    (hread : o.read = true) (hother : o.readOther = true) (hdone : op = .storeToken → o.done = true) :
    Inv s₀ id (perform s id rest o op) := by
  obtain ⟨-, hconfig, hrank, hprogress⟩ := h.attempt _ _ hattempt
  have hstopped : Inv s₀ id s.stop := h.data.stop fun id' hid => absurd hid (hconfig id')
  have hrest := (List.pairwise_cons.mp hrank).2
  cases op with
  | createDir =>
    simp only [perform]
    split
    · exact h.data.keep hconfig hrest (hprogress.tail (fun _ _ => nofun) nofun fun _ _ => nofun)
    · exact hstopped
  | move name =>
    simp only [perform]
    split
    · next hflat =>
      refine h.data.keep hconfig hrest (hprogress.tail (fun name' _ heq => ?_) nofun fun _ _ => nofun)
      obtain rfl := Op.move.inj heq
      exact hflat
    · next bytes hflat =>
      split
      · next hown =>
        refine (h.data.moveFile hflat hown.1).keep hconfig hrest ((hprogress.moveFile bytes).tail
          (fun name' _ heq => ?_) nofun fun _ _ => nofun)
        obtain rfl := Op.move.inj heq
        simp [State.moveFile]
      · exact hstopped
  | storeToken => exact h.storeToken hattempt hread hother (hdone rfl)
  | stripToken =>
    have hheld : Held s₀ s id turso := hprogress.stored (.inr List.mem_cons_self)
    have htail : Progress s₀ id s rest :=
      hprogress.tail (fun _ _ => nofun) nofun fun _ _ => nofun
    simp only [perform]
    split
    · refine Data.keep ⟨.inr (.inl rfl), h.data.files, h.data.others, fun base => .inl ?_⟩
        (fun _ => nofun) hrest ⟨htail.moved, htail.stored, htail.copied⟩
      exact (h.data.secrets base).elim (fun hheld => hheld) fun hpending => hpending.1 ▸ hheld
    · exact h.data.keep hconfig hrest htail
  | copy base => exact h.copy hattempt hread hother
  | delete base =>
    have hown := hprogress.copied base (.inr List.mem_cons_self)
    have htail : Progress s₀ id s rest :=
      hprogress.tail (fun _ _ => nofun) nofun fun _ _ => nofun
    simp only [perform]
    split
    · have hheld : Held s₀ { s with flatSecret := Function.update s.flatSecret base none } id base := by
        cases hwanted : wanted s₀ base with
        | none => exact .inl ⟨by simp [hwanted], hown.trans hwanted⟩
        | some value => exact .inr ⟨hown, by simp [hwanted]⟩
      have hother : ∀ base', base' ≠ base →
          Function.update s.flatSecret base none base' = s.flatSecret base' := fun base' hbase => by
        simp [hbase]
      refine Data.keep (h.data.setSecrets (fun base' => ?_) fun _ _ _ => rfl) hconfig hrest
        ⟨htail.moved, fun hops => ?_, htail.copied⟩
      · by_cases hbase : base' = base
        · exact .inr (hbase ▸ hheld)
        · exact .inl ⟨hother base' hbase, rfl⟩
      · by_cases hbase : turso = base
        · exact hbase ▸ hheld
        · simpa [Held, hother turso hbase] using htail.stored hops
    · exact h.data.keep hconfig hrest htail
  | save =>
    have hpast : ∀ op', rank op' < 4 → op' ∉ Op.save :: rest := fun op' hop' hmem =>
      (List.mem_cons.mp hmem).elim (fun heq => by subst heq; revert hop'; decide) (rank_tail hrank hop')
    have hheld : Held s₀ s id turso := hprogress.stored (.inl (hpast _ (by decide)))
    simp only [perform]
    split
    · refine Data.stop ⟨.inr (.inr rfl), h.data.files, h.data.others, fun base => .inl ?_⟩
        fun id' hid => ⟨(Config.v2.inj hid).symm, ?_⟩
      · exact (h.data.secrets base).elim (fun hheld => hheld) fun hpending => hpending.1 ▸ hheld
      · exact ⟨fun name hname _ => hprogress.moved name hname (hpast _ (by simp [rank])), fun _ => hheld,
          fun base hbase => hprogress.copied base (.inl ⟨(hbase.resolve_right nofun).1,
            hpast _ (by simp [rank])⟩)⟩
    · exact hstopped

theorem progress_program (s₀ s : State Bytes) (id : String) : Progress s₀ id s program where
  moved name hname hops := absurd (by simp [program, hname]) hops
  stored hops := hops.elim (absurd (by decide)) (absurd · (by decide))
  copied base hbase := by
    rcases hbase with ⟨hbase, hops⟩ | hops
    · exact absurd (by simp [program, hbase]) hops
    · simp [program] at hops

theorem inv_step (h : Inv s₀ id s) {a : Action} (hsteady : Steady id s a)
    (hstep : step s a = some s') : Inv s₀ id s' := by
  cases a with
  | migrate id' =>
    obtain rfl : id' = id := hsteady
    simp only [step] at hstep
    split at hstep
    · cases hstep
    · cases hstep
      exact h
    · next hconfig =>
      obtain ⟨-, hkeep⟩ := Option.ite_none_right_eq_some.mp hstep
      cases hkeep
      exact h.data.keep hconfig (by decide) (progress_program s₀ s id')
  | next o =>
    simp only [step] at hstep
    split at hstep
    · next id' op rest hattempt =>
      cases hstep
      obtain ⟨rfl, -⟩ := h.attempt _ _ hattempt
      refine h.performed hattempt hsteady.1 hsteady.2.1 fun hop => ?_
      exact hsteady.2.2 _ hattempt (congrArg some hop)
    · cases hstep
  | crash =>
    cases hstep
    exact h.data.stop h.finished

theorem inv_start (hconfig : ∀ id', s₀.config ≠ .v2 id') (hattempt : s₀.attempt = none)
    (hfresh : ∀ base, s₀.secret base id = none) : Inv s₀ id s₀ where
  data := by
    refine ⟨.inl rfl, fun name => .inl ⟨rfl, rfl⟩, fun _ _ => ⟨rfl, fun _ => rfl⟩, fun base => ?_⟩
    cases hflat : s₀.flatSecret base with
    | some value => exact .inl (.inl ⟨by simp [wanted, hflat], hfresh base⟩)
    | none =>
      by_cases hbase : base = turso
      · exact .inr ⟨hbase, rfl, rfl, rfl, hfresh base⟩
      · refine .inl (.inl ⟨?_, hfresh base⟩)
        rw [wanted, hflat, Option.none_or]
        split <;> simp [hbase]
  attempt id' ops hops := by cases hattempt.symm.trans hops
  finished id' hid := absurd hid (hconfig id')

/-- The move to named workspaces loses no database file and no secret, whatever fails and wherever it
stops, as long as every attempt is given the same id and the secret store can be read and takes the
token that is in plaintext. -/
theorem migration_keeps_files_and_secrets (id : String) (s₀ : State Bytes)
    (hconfig : ∀ id', s₀.config ≠ .v2 id') (hattempt : s₀.attempt = none)
    (hfresh : ∀ base, s₀.secret base id = none) {acts : List Action} {s : State Bytes}
    (run : Run step (Steady id) s₀ acts s) : (∀ id', s.config = .v2 id' → id' = id ∧
        (∀ name ∈ databaseFiles, ∀ bytes, s₀.flatFile name = some bytes →
          s.file id' name = some bytes) ∧
        ∀ base ∈ bases, s.secret base id' = wanted s₀ base) ∧
      (∀ id' name bytes, s₀.file id' name = some bytes → s.file id' name = some bytes) ∧
      (∀ base id' value, s₀.secret base id' = some value → s.secret base id' = some value) ∧
      (s.config ≠ s₀.config → s.flatSecret turso = wanted s₀ turso ∨
        s.secret turso id = wanted s₀ turso) := by
  have h := run.inv (Inv s₀ id) (inv_start hconfig hattempt hfresh)
    fun _ _ _ h hsteady hstep => inv_step h hsteady hstep
  refine ⟨fun id' hid => ?_, fun id' name bytes hfile => ?_, fun base id' value hsecret => ?_,
    fun hchanged => ?_⟩
  · obtain ⟨rfl, hprogress⟩ := h.finished id' hid
    refine ⟨rfl, fun name hname bytes hfile => ?_, fun base hbase =>
      hprogress.copied base (.inl ⟨hbase, List.not_mem_nil⟩)⟩
    rcases h.data.files name with ⟨hflat, -⟩ | ⟨bytes', hfile', -, -, hown⟩
    · rw [hprogress.moved name hname List.not_mem_nil, hfile] at hflat
      cases hflat
    · exact hown.trans (hfile'.symm.trans hfile)
  · by_cases hid : id' = id
    · subst hid
      rcases h.data.files name with ⟨-, hown⟩ | ⟨-, -, -, hnone, -⟩
      · exact hown.trans hfile
      · cases hnone.symm.trans hfile
    · exact (congrFun (h.data.others id' hid).1 name).trans hfile
  · by_cases hid : id' = id
    · subst hid
      cases (hfresh base).symm.trans hsecret
    · exact ((h.data.others id' hid).2 base).trans hsecret
  · rcases h.data.secrets turso with (⟨hflat, -⟩ | ⟨hown, -⟩) | ⟨-, hsame, -⟩
    · exact .inl hflat
    · exact .inr hown
    · exact absurd hsame hchanged

end

def flatStart : State ℕ where
  flatFile name := if name = "portuni.db" then some 1 else none
  file _ _ := none
  flatSecret base := if base = "mcp_auth_token" then some "bearer" else none
  secret _ _ := none
  config := .v1 (some "plain")

def fine : Action := .next ⟨true, true, true⟩

instance (id : String) (s : State ℕ) (a : Action) : Decidable (Steady id s a) := by
  cases a <;> dsimp only [Steady] <;> infer_instance

/-- An attempt that stops behind the token, and the one that completes. -/
def attempts : List Action :=
  .migrate "a" :: List.replicate 8 fine ++ .crash :: .migrate "a" :: List.replicate 14 fine

theorem migration_keeps_files_and_secrets_twice :
    ∃ s, exec step flatStart attempts = some s ∧ s.config = .v2 "a" ∧
      s.file "a" "portuni.db" = some 1 ∧ s.secret turso "a" = some "plain" ∧
      s.secret "mcp_auth_token" "a" = some "bearer" := by
  obtain ⟨s, hs⟩ := Option.isSome_iff_exists.mp
    (show (exec step flatStart attempts).isSome = true by decide)
  have hconfig : s.config = .v2 "a" := by
    have h : (exec step flatStart attempts).map State.config = some (.v2 "a") := by decide
    rw [hs] at h
    exact Option.some.inj h
  obtain ⟨-, hfiles, hsecrets⟩ := (migration_keeps_files_and_secrets "a" flatStart (fun _ => nofun) rfl
    (fun _ => rfl) (Run.of_exec hs (by decide))).1 "a" hconfig
  exact ⟨s, hs, hconfig, hfiles "portuni.db" (by decide) 1 rfl, hsecrets turso (by decide),
    hsecrets "mcp_auth_token" (by decide)⟩

def anotherId : List Action :=
  .migrate "a" :: List.replicate 2 fine ++ .crash :: .migrate "b" :: List.replicate 15 fine

/-- The second attempt is given another id: the database stays with the first. -/
theorem another_id_loses_the_database :
    ∃ s, exec step flatStart anotherId = some s ∧ s.config = .v2 "b" ∧
      flatStart.flatFile "portuni.db" = some 1 ∧ s.flatFile "portuni.db" = none ∧
      s.file "b" "portuni.db" = none := by
  have hend : (exec step flatStart anotherId).map
      (fun s => (s.config, s.flatFile "portuni.db", s.file "b" "portuni.db")) =
      some (.v2 "b", none, none) := by
    decide
  obtain ⟨s, hs, hend⟩ := Option.map_eq_some_iff.mp hend
  exact ⟨s, hs, congrArg Prod.fst hend, rfl, congrArg (fun e => e.2.1) hend,
    congrArg (fun e => e.2.2) hend⟩

end Portuni.Desktop.Migration
