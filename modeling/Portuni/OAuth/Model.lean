import Mathlib.Data.List.Nodup
import Portuni.Library.RelyGuarantee

/-!
Authorization codes and grants in the database, and the statements of the requests that
exchange, verify and revoke them.
-/

namespace Portuni.OAuth

open Library.Interleaving

structure AuthCode where
  id : String
  codeHash : String
  userId : String
  clientId : String
  redirectUri : String
  codeChallenge : String
  resource : String
  scope : String
  expiresAt : ℕ
  usedAt : Option ℕ := none
  grantId : Option String := none
  /-- The grant that the redeeming request is going to mint; no statement reads it. -/
  redeemer : Option String := none

structure Grant where
  id : String
  userId : String
  clientId : String
  clientName : String
  accessTokenHash : String
  accessExpiresAt : ℕ
  refreshTokenHash : String
  prevRefreshTokenHash : Option String := none
  refreshExpiresAt : ℕ
  resource : String
  scope : String
  rotatedAt : Option ℕ := none
  revokedAt : Option ℕ := none
  lastUsedAt : Option ℕ := none
deriving DecidableEq

inductive Source where
  | code (codeId : String)
  | refresh (hash : String)
deriving DecidableEq

structure Issue where
  grantId : String
  source : Source
  accessTokenHash : String
  refreshTokenHash : String
  storedAt : ℕ

structure Db where
  now : ℕ := 0
  codes : List AuthCode := []
  grants : List Grant := []
  /-- The token pairs that were stored, in order; no statement reads them. -/
  issues : List Issue := []

def codeTtl : ℕ := 60

def accessTtl : ℕ := 60 * 60

def refreshTtl : ℕ := 180 * 24 * 60 * 60

inductive Statement where
  /-- A SELECT, or a look at the clock. -/
  | read
  | insertCode (code : AuthCode)
  | stampCode (codeId redeemer : String)
  | attachGrant (codeId grantId : String)
  | insertGrant (grant : Grant) (codeId : String)
  | rotate (grantId hash accessTokenHash : String) (accessExpiresAt : ℕ) (refreshTokenHash : String)
  | revoke (grantId : String)
  | revokeOwned (grantId userId : String)
  | touch (grantId : String)
  | wait (seconds : ℕ)

namespace Db

variable (db : Db)

def codeByHash (hash : String) : Option AuthCode := db.codes.find? (·.codeHash = hash)

def codeById (id : String) : Option AuthCode := db.codes.find? (·.id = id)

def stampable (codeId : String) : Prop := ∃ code ∈ db.codes, code.id = codeId ∧ code.usedAt = none

instance (codeId : String) : Decidable (db.stampable codeId) :=
  inferInstanceAs (Decidable (∃ code ∈ db.codes, _))

def byAccessToken (hash : String) : Option Grant :=
  db.grants.find? fun g =>
    g.accessTokenHash = hash ∧ g.revokedAt = none ∧ db.now < g.accessExpiresAt

def byPrevRefreshToken (hash : String) : Option Grant :=
  db.grants.find? fun g => g.prevRefreshTokenHash = some hash ∧ g.revokedAt = none

def byRefreshToken (hash : String) : Option Grant :=
  db.grants.find? fun g =>
    g.refreshTokenHash = hash ∧ g.revokedAt = none ∧ db.now < g.refreshExpiresAt

def rotatable (grantId hash : String) : Prop :=
  ∃ g ∈ db.grants, g.id = grantId ∧ g.refreshTokenHash = hash

instance (grantId hash : String) : Decidable (db.rotatable grantId hash) :=
  inferInstanceAs (Decidable (∃ g ∈ db.grants, _))

def owned (grantId userId : String) : Prop :=
  ∃ g ∈ db.grants, g.id = grantId ∧ g.userId = userId ∧ g.revokedAt = none

instance (grantId userId : String) : Decidable (db.owned grantId userId) :=
  inferInstanceAs (Decidable (∃ g ∈ db.grants, _))

def updateCodes (P : AuthCode → Prop) [DecidablePred P] (f : AuthCode → AuthCode) : Db :=
  { db with codes := db.codes.map fun code => if P code then f code else code }

def updateGrants (P : Grant → Prop) [DecidablePred P] (f : Grant → Grant) : Db :=
  { db with grants := db.grants.map fun g => if P g then f g else g }

end Db

/-- Ids and hashes are unique in their tables; a statement that repeats one fails, which the
freshness of all draws rules out. -/
def perform (s : Statement) (db : Db) : Db :=
  match s with
  | .read => db
  | .insertCode code => { db with codes := db.codes ++ [code] }
  | .stampCode codeId redeemer =>
    db.updateCodes (fun code => code.id = codeId ∧ code.usedAt = none) fun code =>
      { code with usedAt := some db.now, redeemer := some redeemer }
  | .attachGrant codeId grantId =>
    db.updateCodes (fun code => code.id = codeId) fun code =>
      { code with grantId := some grantId }
  | .insertGrant grant codeId =>
    { db with
      grants := db.grants ++ [grant]
      issues := db.issues ++
        [⟨grant.id, .code codeId, grant.accessTokenHash, grant.refreshTokenHash, db.now⟩] }
  | .rotate grantId hash accessTokenHash accessExpiresAt refreshTokenHash =>
    if db.rotatable grantId hash then
      { db.updateGrants (fun g => g.id = grantId ∧ g.refreshTokenHash = hash) fun g =>
          { g with
            accessTokenHash := accessTokenHash
            accessExpiresAt := accessExpiresAt
            prevRefreshTokenHash := some g.refreshTokenHash
            refreshTokenHash := refreshTokenHash
            rotatedAt := some db.now } with
        issues := db.issues ++
          [⟨grantId, .refresh hash, accessTokenHash, refreshTokenHash, db.now⟩] }
    else db
  | .revoke grantId =>
    db.updateGrants (fun g => g.id = grantId) fun g => { g with revokedAt := some db.now }
  | .revokeOwned grantId userId =>
    db.updateGrants (fun g => g.id = grantId ∧ g.userId = userId ∧ g.revokedAt = none) fun g =>
      { g with revokedAt := some db.now }
  | .touch grantId =>
    db.updateGrants (fun g => g.id = grantId) fun g => { g with lastUsedAt := some db.now }
  | .wait seconds => { db with now := db.now + seconds }

structure OAuthGrantHit where
  grantId : String
  userId : String
  resource : String
  scope : String
deriving DecidableEq

inductive Outcome where
  | redirected (code : String)
  | tokens (accessToken refreshToken scope : String)
  | invalidRequest
  | invalidGrant
  | verified (hit : Option OAuthGrantHit)
  | revoked (ok : Bool)
  | waited
deriving DecidableEq

/-- What the consent page was opened with, and the id and code that are drawn. -/
structure MintCodeInput where
  userId : String
  clientId : String
  redirectUri : String
  codeChallenge : String
  resource : String
  scope : String
  id : String
  code : String
deriving DecidableEq

/-- The form of an `authorization_code` request, the name in the client's metadata, and the id
and tokens that are drawn. -/
structure CodeForm where
  code : String
  redirectUri : String
  clientId : String
  codeVerifier : String
  clientName : String
  grantId : String
  accessToken : String
  refreshToken : String
deriving DecidableEq

structure RefreshForm where
  refreshToken : String
  newAccessToken : String
  newRefreshToken : String
deriving DecidableEq

inductive Call where
  | consent (input : MintCodeInput)
  | code (form : CodeForm)
  | refresh (form : RefreshForm)
  | verify (token : String)
  | revoke (userId grantId : String)
  | wait (seconds : ℕ)
deriving DecidableEq

-- The SHA-256 of a token or code, and of a PKCE verifier in its own encoding.
variable (hash challenge : String → String)

def mintAuthorizationCode (input : MintCodeInput) : Program Statement Db Outcome :=
  .statement .read fun db =>
    .statement (.insertCode {
      id := input.id, codeHash := hash input.code, userId := input.userId,
      clientId := input.clientId, redirectUri := input.redirectUri,
      codeChallenge := input.codeChallenge, resource := input.resource, scope := input.scope,
      expiresAt := db.now + codeTtl }) fun _ => .done (.redirected input.code)

/-- A replay of a redeemed code revokes the grant that is attached to it, if any. -/
def replayed (grantId : Option String) : Program Statement Db (Option AuthCode) :=
  match grantId with
  | some g => .statement (.revoke g) fun _ => .done none
  | none => .done none

def redeemAuthorizationCode (code redeemer : String) : Program Statement Db (Option AuthCode) :=
  .statement .read fun db =>
    match db.codeByHash (hash code) with
    | none => .done none
    | some row =>
      if row.usedAt.isSome then replayed row.grantId
      else if row.expiresAt ≤ db.now then .done none
      else
        .statement (.stampCode row.id redeemer) fun db =>
          if db.stampable row.id then .done (some row)
          else .statement .read fun db => replayed ((db.codeById row.id).bind AuthCode.grantId)

def mintGrant (form : CodeForm) (row : AuthCode) : Program Statement Db Outcome :=
  .statement .read fun db =>
    .statement (.insertGrant {
      id := form.grantId, userId := row.userId, clientId := row.clientId,
      clientName := form.clientName, accessTokenHash := hash form.accessToken,
      accessExpiresAt := db.now + accessTtl, refreshTokenHash := hash form.refreshToken,
      refreshExpiresAt := db.now + refreshTtl, resource := row.resource, scope := row.scope }
      row.id) fun _ =>
        .statement (.attachGrant row.id form.grantId) fun _ =>
          .done (.tokens form.accessToken form.refreshToken row.scope)

def handleCode (form : CodeForm) : Program Statement Db Outcome :=
  if form.code = "" ∨ form.redirectUri = "" ∨ form.clientId = "" ∨ form.codeVerifier = "" then
    .done .invalidRequest
  else
    (redeemAuthorizationCode hash form.code form.grantId).bind fun redeemed =>
      match redeemed with
      | none => .done .invalidGrant
      | some row =>
        if row.clientId ≠ form.clientId ∨ row.redirectUri ≠ form.redirectUri then
          .done .invalidGrant
        else if challenge form.codeVerifier ≠ row.codeChallenge then .done .invalidGrant
        else mintGrant hash form row

def rotateRefreshToken (form : RefreshForm) : Program Statement Db Outcome :=
  .statement .read fun db =>
    match db.byPrevRefreshToken (hash form.refreshToken) with
    | some g => .statement (.revoke g.id) fun _ => .done .invalidGrant
    | none =>
      .statement .read fun db =>
        match db.byRefreshToken (hash form.refreshToken) with
        | none => .done .invalidGrant
        | some g =>
          .statement .read fun db =>
            .statement (.rotate g.id (hash form.refreshToken) (hash form.newAccessToken)
              (db.now + accessTtl) (hash form.newRefreshToken)) fun db =>
                .done (if db.rotatable g.id (hash form.refreshToken) then
                  .tokens form.newAccessToken form.newRefreshToken g.scope
                else .invalidGrant)

def handleRefresh (form : RefreshForm) : Program Statement Db Outcome :=
  if form.refreshToken = "" then .done .invalidRequest else rotateRefreshToken hash form

def verifyAccessToken (token : String) : Program Statement Db Outcome :=
  .statement .read fun db =>
    match db.byAccessToken (hash token) with
    | none => .done (.verified none)
    | some g =>
      .statement (.touch g.id) fun _ =>
        .done (.verified (some ⟨g.id, g.userId, g.resource, g.scope⟩))

def revokeGrant (userId grantId : String) : Program Statement Db Outcome :=
  .statement (.revokeOwned grantId userId) fun db => .done (.revoked (db.owned grantId userId))

def handle : Call → Program Statement Db Outcome
  | .consent input => mintAuthorizationCode hash input
  | .code form => handleCode hash challenge form
  | .refresh form => handleRefresh hash form
  | .verify token => verifyAccessToken hash token
  | .revoke userId grantId => revokeGrant userId grantId
  | .wait seconds => .statement (.wait seconds) fun _ => .done .waited

def request (c : Call) : Program Statement Db (Call × Outcome) :=
  (handle hash challenge c).bind fun outcome => .done (c, outcome)

abbrev step : Pool Statement Db (Call × Outcome) → Action Call (Call × Outcome) →
    Option (Pool Statement Db (Call × Outcome)) :=
  Library.Interleaving.step perform (request hash challenge)

open Library.RelyGuarantee

def Grant.tokens (g : Grant) : String × ℕ × String × Option String :=
  (g.accessTokenHash, g.accessExpiresAt, g.refreshTokenHash, g.prevRefreshTokenHash)

def Db.sources (db : Db) : List Source := db.issues.map Issue.source

def IssuedAs (g : Grant) (i : Issue) : Prop :=
  i.grantId = g.id ∧ i.accessTokenHash = g.accessTokenHash ∧
    i.refreshTokenHash = g.refreshTokenHash ∧ g.accessExpiresAt ≤ i.storedAt + accessTtl

structure Invariant (db : Db) : Prop where
  grantIds : (db.grants.map Grant.id).Nodup
  codeIds : (db.codes.map AuthCode.id).Nodup
  codeHashes : (db.codes.map AuthCode.codeHash).Nodup
  accessHashes : (db.issues.map Issue.accessTokenHash).Nodup
  refreshHashes : (db.issues.map Issue.refreshTokenHash).Nodup
  sources : db.sources.Nodup
  issued : ∀ g ∈ db.grants, ∃ i ∈ db.issues, IssuedAs g i
  current : ∀ g ∈ db.grants, .refresh g.refreshTokenHash ∉ db.sources
  superseded : ∀ g ∈ db.grants, ∀ h ∈ g.prevRefreshTokenHash, .refresh h ∈ db.sources ∧
    ∃ i ∈ db.issues, i.grantId = g.id ∧ i.refreshTokenHash = h
  exchanged : ∀ h, .refresh h ∈ db.sources → h ∈ db.issues.map Issue.refreshTokenHash
  minted : ∀ i ∈ db.issues, ∀ c, i.source = .code c →
    ∃ code ∈ db.codes, code.id = c ∧ code.redeemer = some i.grantId
  unused : ∀ code ∈ db.codes, code.usedAt = none → code.redeemer = none
  attached : ∀ code ∈ db.codes, ∀ g ∈ code.grantId,
    code.redeemer = some g ∧ ∃ grant ∈ db.grants, grant.id = g
  settled : ∀ i ∈ db.issues, ∃ g ∈ db.grants, g.id = i.grantId ∧
    (g.refreshTokenHash = i.refreshTokenHash ∨ .refresh i.refreshTokenHash ∈ db.sources)

structure Guarantee (db db' : Db) : Prop where
  now : db.now ≤ db'.now
  issues : db.issues ⊆ db'.issues
  codes : ∀ code ∈ db.codes, ∃ code' ∈ db'.codes, code'.id = code.id ∧
    code'.codeHash = code.codeHash ∧ (∀ r ∈ code.redeemer, code'.redeemer = some r) ∧
      ∀ g ∈ code.grantId, code'.grantId = some g
  grants : ∀ g ∈ db.grants, ∃ g' ∈ db'.grants, g'.id = g.id ∧
    g'.refreshExpiresAt = g.refreshExpiresAt ∧ (g.revokedAt.isSome → g'.revokedAt.isSome) ∧
      (g'.tokens = g.tokens ∨ ∃ i ∈ db'.issues, i ∉ db.issues ∧ i.grantId = g.id)

def Fresh (db : Db) : Statement → Prop
  | .insertCode code => code.id ∉ db.codes.map AuthCode.id ∧
      code.codeHash ∉ db.codes.map AuthCode.codeHash
  | .insertGrant g _ => g.id ∉ db.grants.map Grant.id ∧ g.id ∉ db.issues.map Issue.grantId ∧
      g.accessTokenHash ∉ db.issues.map Issue.accessTokenHash ∧
        g.refreshTokenHash ∉ db.issues.map Issue.refreshTokenHash
  | .rotate _ _ access _ refresh => access ∉ db.issues.map Issue.accessTokenHash ∧
      refresh ∉ db.issues.map Issue.refreshTokenHash
  | _ => True

instance (db : Db) (s : Statement) : Decidable (Fresh db s) := by
  cases s <;> unfold Fresh <;> infer_instance

variable {db db' db'' : Db} {g g' : Grant} {i i' : Issue} {code code' : AuthCode} {s : Statement}

theorem Guarantee.refl (db : Db) : Guarantee db db where
  now := Nat.le_refl _
  issues := fun _ h => h
  codes := fun code h => ⟨code, h, rfl, rfl, fun _ hr => hr, fun _ hg => hg⟩
  grants := fun g h => ⟨g, h, rfl, rfl, fun hr => hr, .inl rfl⟩

theorem Guarantee.trans (h : Guarantee db db') (h' : Guarantee db' db'') :
    Guarantee db db'' where
  now := Nat.le_trans h.now h'.now
  issues := List.Subset.trans h.issues h'.issues
  codes := by
    intro code hcode
    obtain ⟨code', hcode', hid, hhash, hredeemer, hgrant⟩ := h.codes code hcode
    obtain ⟨code'', hcode'', hid', hhash', hredeemer', hgrant'⟩ := h'.codes code' hcode'
    exact ⟨code'', hcode'', hid'.trans hid, hhash'.trans hhash,
      fun r hr => hredeemer' r (hredeemer r hr), fun g hg => hgrant' g (hgrant g hg)⟩
  grants := by
    intro g hg
    obtain ⟨g', hg', hid, hexpires, hrevoked, htokens⟩ := h.grants g hg
    obtain ⟨g'', hg'', hid', hexpires', hrevoked', htokens'⟩ := h'.grants g' hg'
    refine ⟨g'', hg'', hid'.trans hid, hexpires'.trans hexpires,
      fun hr => hrevoked' (hrevoked hr), ?_⟩
    rcases htokens' with hsame' | ⟨i, hi, hnew, hgrant⟩
    · rcases htokens with hsame | ⟨i, hi, hnew, hgrant⟩
      · exact .inl (hsame'.trans hsame)
      · exact .inr ⟨i, h'.issues hi, hnew, hgrant⟩
    · exact .inr ⟨i, hi, fun hold => hnew (h.issues hold), hgrant.trans hid⟩

variable (inv : Invariant db)

include inv

theorem Invariant.grant_eq (hg : g ∈ db.grants) (hg' : g' ∈ db.grants) (h : g.id = g'.id) :
    g = g' :=
  List.inj_on_of_nodup_map inv.grantIds hg hg' h

theorem Invariant.code_eq (hcode : code ∈ db.codes) (hcode' : code' ∈ db.codes)
    (h : code.id = code'.id) : code = code' :=
  List.inj_on_of_nodup_map inv.codeIds hcode hcode' h

theorem Invariant.grant_of_access (hg : g ∈ db.grants) (hi : i ∈ db.issues)
    (h : g.accessTokenHash = i.accessTokenHash) :
    g.id = i.grantId ∧ g.accessExpiresAt ≤ i.storedAt + accessTtl := by
  obtain ⟨i', hi', hid, haccess, -, hexpires⟩ := inv.issued g hg
  obtain rfl := List.inj_on_of_nodup_map inv.accessHashes hi' hi (haccess.trans h)
  exact ⟨hid.symm, hexpires⟩

theorem Invariant.grant_of_refresh (hg : g ∈ db.grants) (hi : i ∈ db.issues)
    (h : g.refreshTokenHash = i.refreshTokenHash) : g.id = i.grantId := by
  obtain ⟨i', hi', hid, -, hrefresh, -⟩ := inv.issued g hg
  obtain rfl := List.inj_on_of_nodup_map inv.refreshHashes hi' hi (hrefresh.trans h)
  exact hid.symm

end Portuni.OAuth
