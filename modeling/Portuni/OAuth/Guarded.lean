import Portuni.OAuth.Requests

namespace Portuni.OAuth

/-!
The requests of the token endpoint, of the verification and of the revocation keep the tokens
guarded, whatever the others do between their statements.
-/

section

open Library.Interleaving Library.RelyGuarantee Library.Runs

variable {hash challenge : String → String} {db₀ db : Db} {g : Grant} {i : Issue}
  {Result : Type} {Post : Db → Result → Prop}

abbrev SoundIn (Post : Db → Result → Prop) (p : Program Statement Db Result) (db : Db) : Prop :=
  Sound perform Invariant Fresh Guarantee Post p db

variable {next : Db → Program Statement Db Result}

theorem sound_read
    (h : ∀ later, Guarantee db later → Invariant later → SoundIn Post (next later) later) :
    SoundIn Post (.statement .read next) db :=
  fun later hchange hinv _ => ⟨hinv, Guarantee.refl later, h later hchange hinv⟩

theorem sound_updateGrants {s : Statement} {next : Db → Program Statement Db Result}
    {P : Db → Grant → Prop} [∀ db, DecidablePred (P db)] {f : Db → Grant → Grant}
    (hs : ∀ db, perform s db = db.updateGrants (P db) (f db)) (keeps : ∀ db, Keeps (f db))
    (h : ∀ later, Guarantee db later →
      SoundIn Post (next later) (later.updateGrants (P later) (f later))) :
    SoundIn Post (.statement s next) db := by
  intro later hchange hinv _
  rw [hs]
  exact ⟨invariant_updateGrants (keeps later) hinv, guarantee_updateGrants (keeps later),
    h later hchange⟩

theorem sound_revoke {id : String} {next : Db → Program Statement Db Result}
    (h : ∀ later later', Guarantee db later → Guarantee later later' →
      ((∃ g ∈ db.grants, g.id = id) → later'.Revoked id) → SoundIn Post (next later) later') :
    SoundIn Post (.statement (.revoke id) next) db := by
  refine sound_updateGrants (P := fun _ g => g.id = id) (fun _ => rfl)
    (fun db => keeps_revoke db.now) fun later hchange => ?_
  refine h later _ hchange (guarantee_updateGrants (keeps_revoke later.now)) ?_
  rintro ⟨g, hg, rfl⟩
  obtain ⟨g', hg', hid, -⟩ := hchange.grants g hg
  refine ⟨_, List.mem_map_of_mem hg', ?_⟩
  rw [if_pos hid]
  exact ⟨hid, rfl⟩

theorem Db.find?_none_of_mem {P : Grant → Prop} [DecidablePred P]
    (h : db.grants.find? (fun g => decide (P g)) = none) (hg : g ∈ db.grants) : ¬ P g := by
  simpa using List.find?_eq_none.mp h g hg

variable {h : String}

theorem of_byAccessToken (hfound : db.byAccessToken h = some g) :
    g ∈ db.grants ∧ g.accessTokenHash = h ∧ g.revokedAt = none ∧ db.now < g.accessExpiresAt :=
  ⟨List.mem_of_find?_eq_some hfound, by simpa using List.find?_some hfound⟩

theorem of_byRefreshToken (hfound : db.byRefreshToken h = some g) :
    g ∈ db.grants ∧ g.refreshTokenHash = h ∧ g.revokedAt = none ∧ db.now < g.refreshExpiresAt :=
  ⟨List.mem_of_find?_eq_some hfound, by simpa using List.find?_some hfound⟩

theorem of_byPrevRefreshToken (hfound : db.byPrevRefreshToken h = some g) :
    g ∈ db.grants ∧ g.prevRefreshTokenHash = some h ∧ g.revokedAt = none :=
  ⟨List.mem_of_find?_eq_some hfound, by simpa using List.find?_some hfound⟩

theorem not_revoked_of_mem (inv : Invariant db) (hg : g ∈ db.grants) (h : g.revokedAt = none) :
    ¬ db.Revoked g.id := by
  rintro ⟨g', hg', hid, hr⟩
  rw [inv.grant_eq hg' hg hid, h] at hr
  cases hr

theorem not_closed_of_mem (inv : Invariant db) (hg : g ∈ db.grants) (h : g.revokedAt = none)
    (hopen : db.now < g.refreshExpiresAt) : ¬ db.Closed g.id := by
  rintro ⟨g', hg', hid, hclosed⟩
  rw [inv.grant_eq hg' hg hid, h] at hclosed
  rcases hclosed with hr | hle
  · cases hr
  · exact Nat.not_lt_of_le hle hopen

theorem sound_verify (token : String) (db₀ : Db) :
    SoundIn (fun db o => Judged hash db₀ db (.verify token) o) (verifyAccessToken hash token)
      db₀ := by
  unfold verifyAccessToken
  refine sound_read fun db₁ hchange₁ inv₁ => ?_
  split
  · exact fun _ _ _ _ => rfl
  rename_i g hfound
  obtain ⟨hg, haccess, hlive, hopen⟩ := of_byAccessToken hfound
  refine sound_updateGrants (P := fun _ g' => g'.id = g.id) (fun _ => rfl)
    (fun db => keeps_touch db.now) fun _ _ => ?_
  intro i hi hhash hrefused
  obtain ⟨hid, hexpires⟩ := inv₁.grant_of_access hg (hchange₁.issues hi) (haccess.trans hhash.symm)
  rcases hrefused with hrevoked | hold
  · exact absurd (hid ▸ hrevoked.later hchange₁) (not_revoked_of_mem inv₁ hg hlive)
  · have hnow := hchange₁.now
    omega

theorem superseded_cases (hchange : Guarantee db₀ db) (hg : g ∈ db₀.grants)
    (hprev : h ∈ g.prevRefreshTokenHash) :
    (∃ g' ∈ db.grants, g'.id = g.id ∧ h ∈ g'.prevRefreshTokenHash) ∨
      ∃ i ∈ db.issues, i ∉ db₀.issues ∧ i.grantId = g.id := by
  obtain ⟨g', hg', hid, -, -, htokens⟩ := hchange.grants g hg
  refine htokens.imp_left fun hsame => ⟨g', hg', hid, ?_⟩
  simp only [Grant.tokens, Prod.mk.injEq] at hsame
  rw [hsame.2.2.2]
  exact hprev

theorem judged_replay {form : RefreshForm} {db₁ later : Db} (hchange : Guarantee db₀ db₁)
    (inv : Invariant db₁) (hfound : db₁.byPrevRefreshToken (hash form.refreshToken) = some g)
    (hlater : Guarantee db₁ later) (hrevoked : later.Revoked g.id) :
    RefreshJudged hash db₀ later form .invalidGrant where
  rotated := by simp [Outcome.isTokens]
  spent := by
    intro _ i hi hhash
    obtain ⟨hg, hprev, -⟩ := of_byPrevRefreshToken hfound
    exact .inr (sources_later hlater (inv.superseded g hg _ hprev).1)
  closed := by simp [Outcome.isTokens]
  superseded := by
    intro g₀ hg₀ hprev₀
    refine ⟨by simp [Outcome.isTokens], fun _ => ?_⟩
    rcases superseded_cases hchange hg₀ hprev₀ with ⟨g', hg', hid, hprev'⟩ | ⟨i, hi, hnew, hgrant⟩
    · obtain ⟨hg, hprev, -⟩ := of_byPrevRefreshToken hfound
      obtain ⟨i, hi, hissue, hhash⟩ := (inv.superseded g hg _ hprev).2
      obtain ⟨i', hi', hissue', hhash'⟩ := (inv.superseded g' hg' _ hprev').2
      obtain rfl := List.inj_on_of_nodup_map inv.refreshHashes hi hi' (hhash.trans hhash'.symm)
      rw [← hid, ← hissue', hissue]
      exact .inl hrevoked
    · exact .inr ⟨i, hlater.issues hi, hnew, hgrant⟩

theorem judged_unmatched {form : RefreshForm} {db₁ later : Db} (hchange : Guarantee db₀ db₁)
    (hnone : db₁.byPrevRefreshToken (hash form.refreshToken) = none)
    (hlater : Guarantee db₁ later) :
    ∀ g ∈ db₀.grants, hash form.refreshToken ∈ g.prevRefreshTokenHash →
      later.Revoked g.id ∨ ∃ i ∈ later.issues, i ∉ db₀.issues ∧ i.grantId = g.id := by
  intro g hg hprev
  rcases superseded_cases hchange hg hprev with ⟨g', hg', hid, hprev'⟩ | ⟨i, hi, hnew, hgrant⟩
  · left
    have hnot := Db.find?_none_of_mem hnone hg'
    refine Db.Revoked.later ⟨g', hg', hid, ?_⟩ hlater
    cases hr : g'.revokedAt with
    | some revokedAt => rfl
    | none => exact absurd ⟨hprev', hr⟩ hnot
  · exact .inr ⟨i, hlater.issues hi, hnew, hgrant⟩

theorem spent_of_none (inv : Invariant db) (hi : i ∈ db.issues) (hhash : i.refreshTokenHash = h)
    (hnone : db.byRefreshToken h = none) : db.Closed i.grantId ∨ .refresh h ∈ db.sources := by
  obtain ⟨g, hg, hid, hsettled⟩ := inv.settled i hi
  subst hhash
  refine hsettled.imp_left fun hcurrent => ⟨g, hg, hid, ?_⟩
  have hnot := Db.find?_none_of_mem hnone hg
  cases hr : g.revokedAt with
  | some revokedAt => exact .inl rfl
  | none => exact .inr (Nat.le_of_not_lt fun hopen => hnot ⟨hcurrent, hr, hopen⟩)

theorem sound_refresh (form : RefreshForm) (inv₀ : Invariant db₀) :
    SoundIn (fun db o => Judged hash db₀ db (.refresh form) o) (handleRefresh hash form) db₀ := by
  unfold handleRefresh
  split
  · rename_i hempty
    exact ⟨by simp [Outcome.isTokens], fun hne => absurd hempty hne, by simp [Outcome.isTokens],
      fun g _ _ => ⟨by simp [Outcome.isTokens], fun hne => absurd hempty hne⟩⟩
  unfold rotateRefreshToken
  refine sound_read fun db₁ hchange₁ inv₁ => ?_
  split
  · rename_i g hfound
    refine sound_revoke fun db₂ db₃ hchange₂ hchange₃ hrevoked => ?_
    obtain ⟨hg, -, -⟩ := of_byPrevRefreshToken hfound
    exact judged_replay hchange₁ inv₁ hfound (hchange₂.trans hchange₃) (hrevoked ⟨g, hg, rfl⟩)
  rename_i hunmatched
  refine sound_read fun db₂ hchange₂ inv₂ => ?_
  split
  · rename_i hnone
    refine ⟨by simp [Outcome.isTokens], ?_, by simp [Outcome.isTokens], ?_⟩
    · intro _ i hi hhash
      exact spent_of_none inv₂ ((hchange₁.trans hchange₂).issues hi) hhash hnone
    · exact fun g hg hprev => ⟨by simp [Outcome.isTokens],
        fun _ => judged_unmatched hchange₁ hunmatched hchange₂ g hg hprev⟩
  rename_i g hfound
  obtain ⟨hg, hcurrent, hlive, hopen⟩ := of_byRefreshToken hfound
  refine sound_read fun db₃ hchange₃ inv₃ => ?_
  intro db₄ hchange₄ inv₄ hfresh
  obtain ⟨inv₅, hchange₅⟩ := keeps_rotate inv₄ hfresh (Nat.add_le_add_right hchange₄.now accessTtl)
  refine ⟨inv₅, hchange₅, ?_⟩
  have hfrom₂ := hchange₃.trans hchange₄
  have hunmatched' := fun g hg hprev => judged_unmatched hchange₁ hunmatched
    ((hchange₂.trans hfrom₂).trans hchange₅) g hg hprev
  change RefreshJudged hash db₀ _ form (if _ then _ else _)
  split
  · rename_i hrotatable
    have hperform : (⟨g.id, .refresh (hash form.refreshToken), hash form.newAccessToken,
        hash form.newRefreshToken, db₄.now⟩ : Issue) ∈
        (perform (.rotate g.id (hash form.refreshToken) (hash form.newAccessToken)
          (db₃.now + accessTtl) (hash form.newRefreshToken)) db₄).issues := by
      unfold perform
      dsimp only
      rw [if_pos hrotatable]
      exact List.mem_append_right _ (List.mem_singleton_self _)
    refine ⟨fun _ => ⟨_, hperform, rfl, rfl⟩, ?_, ?_, ?_⟩
    · exact fun _ _ _ _ => .inr (List.mem_map.mpr ⟨_, hperform, rfl⟩)
    · intro i hi hhash hclosed
      have hchange := hchange₁.trans hchange₂
      have hid := inv₂.grant_of_refresh hg (hchange.issues hi) (hcurrent.trans hhash.symm)
      exact absurd (hid ▸ hclosed.later hchange) (not_closed_of_mem inv₂ hg hlive hopen)
    · intro g₀ hg₀ hprev₀
      have hspent := sources_later (hchange₁.trans hchange₂) (inv₀.superseded g₀ hg₀ _ hprev₀).1
      exact absurd (hcurrent ▸ hspent) (inv₂.current g hg)
  · rename_i hunrotatable
    refine ⟨by simp [Outcome.isTokens], ?_, by simp [Outcome.isTokens],
      fun g hg hprev => ⟨by simp [Outcome.isTokens], fun _ => hunmatched' g hg hprev⟩⟩
    intro _ i hi hhash
    right
    have hi₂ := (hchange₁.trans hchange₂).issues hi
    have hid := inv₂.grant_of_refresh hg hi₂ (hcurrent.trans hhash.symm)
    obtain ⟨g', hg', hid', hsettled⟩ := inv₄.settled i (hfrom₂.issues hi₂)
    rcases hsettled with hcurrent' | hmem
    · exact absurd ⟨g', hg', hid'.trans hid.symm, hcurrent'.trans hhash⟩ hunrotatable
    · exact sources_later hchange₅ (hhash ▸ hmem)

theorem sound_replayed {grantId : Option String} {Post : Db → Option AuthCode → Prop}
    (h : ∀ later, Guarantee db later →
      (∀ g ∈ grantId, (∃ grant ∈ db.grants, grant.id = g) → later.Revoked g) → Post later none) :
    SoundIn Post (replayed grantId) db := by
  cases grantId with
  | none => exact h db (Guarantee.refl db) (by simp)
  | some g =>
    refine sound_revoke fun later later' hchange hchange' hrevoked => ?_
    refine h later' (hchange.trans hchange') ?_
    intro g' hg'
    cases hg'
    exact hrevoked

def Redeemed (hash : String → String) (db₀ : Db) (form : CodeForm) (db : Db) :
    Option AuthCode → Prop
  | none => ∀ code ∈ db₀.codes, code.codeHash = hash form.code → ∀ g ∈ code.grantId, db.Revoked g
  | some row => (∃ code ∈ db.codes, code.id = row.id ∧ code.codeHash = hash form.code ∧
      code.redeemer = some form.grantId) ∧
        ∀ code ∈ db₀.codes, code.codeHash = hash form.code → code.grantId = none

theorem stable_redeemed (hash : String → String) (db₀ : Db) (form : CodeForm) :
    Stable Guarantee (Redeemed hash db₀ form) where
  refl := Guarantee.refl
  trans := Guarantee.trans
  post := by
    intro db db' redeemed hchange h
    cases redeemed with
    | none => exact fun code hcode hhash g hg => (h code hcode hhash g hg).later hchange
    | some row =>
      obtain ⟨⟨code, hcode, hid, hhash, hr⟩, hnone⟩ := h
      obtain ⟨code', hcode', hid', hhash', hr', -⟩ := hchange.codes code hcode
      exact ⟨⟨code', hcode', hid'.trans hid, hhash'.trans hhash, hr' _ hr⟩, hnone⟩

theorem eq_of_codeByHash {row code : AuthCode} (hchange : Guarantee db₀ db) (inv : Invariant db)
    (hfound : db.codeByHash h = some row) (hcode : code ∈ db₀.codes) (hhash : code.codeHash = h) :
    ∀ g ∈ code.grantId, row.grantId = some g := by
  intro g hg
  obtain ⟨code', hcode', -, hhash', -, hgrant⟩ := hchange.codes code hcode
  have hrow : row.codeHash = h := by simpa using List.find?_some hfound
  obtain rfl := List.inj_on_of_nodup_map inv.codeHashes hcode' (List.mem_of_find?_eq_some hfound)
    (hhash'.trans (hhash.trans hrow.symm))
  exact hgrant g hg

theorem sound_redeem (form : CodeForm) (db₀ : Db) :
    SoundIn (Redeemed hash db₀ form) (redeemAuthorizationCode hash form.code form.grantId) db₀ := by
  unfold redeemAuthorizationCode
  refine sound_read fun db₁ hchange₁ inv₁ => ?_
  split
  · rename_i hnone
    intro code hcode hhash
    obtain ⟨code', hcode', -, hhash', -⟩ := hchange₁.codes code hcode
    exact absurd (hhash'.trans hhash) (by simpa using List.find?_eq_none.mp hnone code' hcode')
  rename_i row hfound
  have hrow := List.mem_of_find?_eq_some hfound
  have hrowHash : row.codeHash = hash form.code := by simpa using List.find?_some hfound
  have hsame := fun code (hcode : code ∈ db₀.codes) hhash =>
    eq_of_codeByHash hchange₁ inv₁ hfound hcode hhash
  split
  · refine sound_replayed fun db₂ hchange₂ hrevoked => ?_
    intro code hcode hhash g hg
    have hgrant := hsame code hcode hhash g hg
    exact hrevoked g hgrant (inv₁.attached row hrow g hgrant).2
  rename_i hused
  have hunused : row.usedAt = none := by simpa using hused
  have hfree : ∀ code ∈ db₀.codes, code.codeHash = hash form.code → code.grantId = none := by
    intro code hcode hhash
    cases hg : code.grantId with
    | none => rfl
    | some g =>
      have hr := (inv₁.attached row hrow g (hsame code hcode hhash g hg)).1
      rw [inv₁.unused row hrow hunused] at hr
      cases hr
  have hvacuous : ∀ db, Redeemed hash db₀ form db none := by
    intro db code hcode hhash g hg
    rw [hfree code hcode hhash] at hg
    cases hg
  split
  · exact hvacuous _
  intro db₂ hchange₂ inv₂ _
  obtain ⟨inv₃, hchange₃⟩ := keeps_stampCode inv₂ row.id form.grantId
  refine ⟨inv₃, hchange₃, ?_⟩
  change SoundIn (Redeemed hash db₀ form) (if _ then _ else _) _
  split
  · rename_i hstampable
    obtain ⟨code, hcode, hid, hcodeUnused⟩ := hstampable
    obtain ⟨code', hcode', hid', hhash', -⟩ := hchange₂.codes row hrow
    obtain rfl := inv₂.code_eq hcode hcode' (hid.trans hid'.symm)
    refine ⟨⟨_, List.mem_map_of_mem hcode, ?_⟩, hfree⟩
    rw [if_pos ⟨hid, hcodeUnused⟩]
    exact ⟨hid, hhash'.trans hrowHash, rfl⟩
  · refine sound_read fun db₄ _ _ => ?_
    exact sound_replayed fun db₅ _ _ => hvacuous db₅

theorem sound_mintGrant {form : CodeForm} {row : AuthCode}
    (h : Redeemed hash db₀ form db (some row)) :
    SoundIn (fun later o => CodeJudged hash db₀ later form o) (mintGrant hash form row) db := by
  have stable := stable_redeemed hash db₀ form
  unfold mintGrant
  refine sound_read fun db₁ hchange₁ inv₁ => ?_
  intro db₂ hchange₂ inv₂ hfresh
  have h₂ := stable.post (hchange₁.trans hchange₂) h
  obtain ⟨⟨code, hcode, hid, -, hr⟩, hfree⟩ := h₂
  obtain ⟨inv₃, hchange₃⟩ := keeps_insertGrant inv₂ hfresh ⟨code, hcode, hid, hr⟩
    (Nat.add_le_add_right hchange₂.now accessTtl) rfl
  refine ⟨inv₃, hchange₃, ?_⟩
  intro db₄ hchange₄ inv₄ _
  have hlater := (hchange₁.trans hchange₂).trans (hchange₃.trans hchange₄)
  obtain ⟨⟨code', hcode', hid', -, hr'⟩, -⟩ := stable.post hlater h
  have hminted : ∃ g ∈ db₄.grants, g.id = form.grantId := by
    obtain ⟨g, hg, hgid, -⟩ := hchange₄.grants _
      (List.mem_append_right _ (List.mem_singleton_self _))
    exact ⟨g, hg, hgid⟩
  obtain ⟨inv₅, hchange₅⟩ := keeps_attachGrant inv₄ ⟨code', hcode', hid', hr'⟩ hminted
  refine ⟨inv₅, hchange₅, fun _ => ?_, ?_⟩
  · obtain ⟨⟨code'', hcode'', -, hhash'', hr''⟩, -⟩ := stable.post (hlater.trans hchange₅) h
    exact ⟨code'', hcode'', hhash'', hr''⟩
  · intro code hcode hhash g hg
    rw [hfree code hcode hhash] at hg
    cases hg

theorem sound_code (form : CodeForm) (db₀ : Db) :
    SoundIn (fun db o => Judged hash db₀ db (.code form) o) (handleCode hash challenge form)
      db₀ := by
  unfold handleCode
  split
  · exact ⟨by simp [Outcome.isTokens], fun _ _ _ _ _ => .inl rfl⟩
  refine Sound.bind (sound_redeem form db₀) fun db redeemed h => ?_
  cases redeemed with
  | none =>
    exact ⟨by simp [Outcome.isTokens], fun code hcode hhash g hg =>
      .inr ⟨rfl, h code hcode hhash g hg⟩⟩
  | some row =>
    have hrefused : CodeJudged hash db₀ db form .invalidGrant := by
      refine ⟨by simp [Outcome.isTokens], fun code hcode hhash g hg => ?_⟩
      rw [h.2 code hcode hhash] at hg
      cases hg
    dsimp only
    split
    · exact hrefused
    split
    · exact hrefused
    exact sound_mintGrant h

theorem sound_handle (c : Call) (inv₀ : Invariant db₀) :
    SoundIn (fun db o => Judged hash db₀ db c o) (handle hash challenge c) db₀ := by
  cases c with
  | consent input =>
    refine sound_read fun db₁ _ _ => ?_
    intro db₂ _ inv₂ hfresh
    obtain ⟨inv₃, hchange₃⟩ := keeps_insertCode inv₂ hfresh rfl rfl
    exact ⟨inv₃, hchange₃, trivial⟩
  | code form => exact sound_code form db₀
  | refresh form => exact sound_refresh form inv₀
  | verify token => exact sound_verify token db₀
  | revoke userId grantId =>
    refine sound_updateGrants
      (P := fun _ g => g.id = grantId ∧ g.userId = userId ∧ g.revokedAt = none)
      (fun _ => rfl) (fun db => keeps_revoke db.now) fun _ _ => trivial
  | wait seconds =>
    intro db₁ _ inv₁ _
    refine ⟨?_, ⟨Nat.le_add_right _ _, fun _ h => h, ?_, ?_⟩, trivial⟩
    · obtain ⟨grantIds, codeIds, codeHashes, accessHashes, refreshHashes, sources, issued,
        current, superseded, exchanged, minted, unused, attached, settled⟩ := inv₁
      exact ⟨grantIds, codeIds, codeHashes, accessHashes, refreshHashes, sources, issued,
        current, superseded, exchanged, minted, unused, attached, settled⟩
    · exact fun code hcode => ⟨code, hcode, rfl, rfl, fun _ hr => hr, fun _ hg => hg⟩
    · exact fun g hg => ⟨g, hg, rfl, rfl, fun hr => hr, .inl rfl⟩

end

open Library.Interleaving Library.RelyGuarantee Library.Runs

variable {hash challenge : String → String} {db : Db}
  {pool pool' : Pool Statement Db (Call × Outcome)}
  {acts acts' : List (Action Call (Call × Outcome))}

def startOf : Pool Statement Db (Call × Outcome) := ⟨{}, []⟩

theorem invariant_start : Invariant {} := by
  constructor <;> simp [Db.sources]

def Answered (hash : String → String) (db : Db) : Call × Outcome → Prop
  | (.code form, outcome) => outcome.isTokens → ∃ code ∈ db.codes,
      code.codeHash = hash form.code ∧ code.redeemer = some form.grantId
  | (.refresh form, outcome) => outcome.isTokens → ∃ i ∈ db.issues,
      i.source = .refresh (hash form.refreshToken) ∧ i.refreshTokenHash = hash form.newRefreshToken
  | _ => True

theorem Judged.answered {db₀ : Db} {c : Call} {outcome : Outcome}
    (h : Judged hash db₀ db c outcome) : Answered hash db (c, outcome) := by
  cases c with
  | code form => exact CodeJudged.minted h
  | refresh form => exact RefreshJudged.rotated h
  | _ => trivial

theorem stable_answered (hash : String → String) : Stable Guarantee (Answered hash) where
  refl := Guarantee.refl
  trans := Guarantee.trans
  post := by
    rintro db db' ⟨c, outcome⟩ hchange h
    cases c with
    | code form =>
      intro htokens
      obtain ⟨code, hcode, hhash, hr⟩ := h htokens
      obtain ⟨code', hcode', -, hhash', hr', -⟩ := hchange.codes code hcode
      exact ⟨code', hcode', hhash'.trans hhash, hr' _ hr⟩
    | refresh form =>
      intro htokens
      obtain ⟨i, hi, hrest⟩ := h htokens
      exact ⟨i, hchange.issues hi, hrest⟩
    | _ => trivial

theorem sound_answered (c : Call) (db : Db) (inv : Invariant db) :
    SoundIn (Answered hash) (request hash challenge c) db :=
  Sound.bind (sound_handle c inv) fun _ _ h => Judged.answered h

theorem sound_judged (c : Call) {db₀ : Db} (inv : Invariant db₀) :
    SoundIn (fun db (r : Call × Outcome) => Judged hash db₀ db r.1 r.2) (request hash challenge c)
      db₀ :=
  Sound.bind (sound_handle c inv) fun _ _ h => h

/-- What holds of the tokens at the end of a run that goes on from `pool`. -/
structure Guarded (hash challenge : String → String)
    (pool pool' : Pool Statement Db (Call × Outcome)) : Prop where
  /-- Every code and every refresh token is exchanged at most once. -/
  once : pool'.state.sources.Nodup
  access : ∀ token token' g g', pool'.state.byAccessToken (hash token) = some g →
    pool'.state.byAccessToken (hash token') = some g' → g.id = g'.id → hash token = hash token'
  refresh : ∀ token token' g g', pool'.state.byRefreshToken (hash token) = some g →
    pool'.state.byRefreshToken (hash token') = some g' → g.id = g'.id → hash token = hash token'
  /-- Of the requests that present one code, only one is answered with tokens. -/
  minted : ∀ form outcome form' outcome', (.code form, outcome) ∈ pool'.results →
    (.code form', outcome') ∈ pool'.results → outcome.isTokens → outcome'.isTokens →
      hash form.code = hash form'.code → form.grantId = form'.grantId
  /-- Of the requests that present one refresh token, only one gets a pair. -/
  rotated : ∀ form outcome form' outcome', (.refresh form, outcome) ∈ pool'.results →
    (.refresh form', outcome') ∈ pool'.results → outcome.isTokens → outcome'.isTokens →
      hash form.refreshToken = hash form'.refreshToken →
        hash form.newRefreshToken = hash form'.newRefreshToken
  /-- The requests that begin in `pool`. -/
  judged : ∀ (i : ℕ) (c c' : Call) (outcome : Outcome),
    pool.programs[i]? = some (request hash challenge c) →
    pool'.programs[i]? = some (Program.done (c', outcome)) →
      Judged hash pool.state pool'.state c' outcome

variable {outcome outcome' : Outcome}

theorem one_grant {form form' : CodeForm} (inv : Invariant db)
    (h : Answered hash db (.code form, outcome)) (h' : Answered hash db (.code form', outcome'))
    (htokens : outcome.isTokens) (htokens' : outcome'.isTokens)
    (heq : hash form.code = hash form'.code) : form.grantId = form'.grantId := by
  obtain ⟨code, hcode, hhash, hr⟩ := h htokens
  obtain ⟨code', hcode', hhash', hr'⟩ := h' htokens'
  obtain rfl := List.inj_on_of_nodup_map inv.codeHashes hcode hcode'
    (hhash.trans (heq.trans hhash'.symm))
  exact Option.some.inj (hr.symm.trans hr')

theorem one_pair {form form' : RefreshForm} (inv : Invariant db)
    (h : Answered hash db (.refresh form, outcome))
    (h' : Answered hash db (.refresh form', outcome')) (htokens : outcome.isTokens)
    (htokens' : outcome'.isTokens) (heq : hash form.refreshToken = hash form'.refreshToken) :
    hash form.newRefreshToken = hash form'.newRefreshToken := by
  obtain ⟨i, hi, hsource, hnew⟩ := h htokens
  obtain ⟨i', hi', hsource', hnew'⟩ := h' htokens'
  obtain rfl := List.inj_on_of_nodup_map inv.sources hi hi' (hsource.trans (heq ▸ hsource'.symm))
  exact hnew.symm.trans hnew'

/-- Over any interleaving of the requests, with all ids and tokens drawn anew. -/
theorem oauth_tokens_guarded (run : Run (step hash challenge) (Completes Fresh) startOf acts pool)
    (run' : Run (step hash challenge) (Completes Fresh) pool acts' pool') :
    Guarded hash challenge pool pool' := by
  have stable := stable_answered hash
  have calls := @sound_answered hash challenge
  have start : SoundPool perform Invariant Fresh Guarantee (Answered hash) startOf :=
    SoundPool.start invariant_start
  have sound := (start.run stable calls run).1
  have sound' := (sound.run stable calls run').1
  have inv := sound'.state
  have answered : ∀ r ∈ pool'.results, Answered hash pool'.state r :=
    fun r hr => sound'.programs _ (Pool.mem_results_iff.mp hr)
  refine ⟨inv.sources, ?_, ?_, ?_, ?_, ?_⟩
  · intro token token' g g' h h' hid
    obtain ⟨hg, hhash, -⟩ := of_byAccessToken h
    obtain ⟨hg', hhash', -⟩ := of_byAccessToken h'
    rw [← hhash, ← hhash', inv.grant_eq hg hg' hid]
  · intro token token' g g' h h' hid
    obtain ⟨hg, hhash, -⟩ := of_byRefreshToken h
    obtain ⟨hg', hhash', -⟩ := of_byRefreshToken h'
    rw [← hhash, ← hhash', inv.grant_eq hg hg' hid]
  · exact fun form outcome form' outcome' h h' htokens htokens' heq =>
      one_grant inv (answered _ h) (answered _ h') htokens htokens' heq
  · exact fun form outcome form' outcome' h h' htokens htokens' heq =>
      one_pair inv (answered _ h) (answered _ h') htokens htokens' heq
  · intro i c c' outcome hbegins hdone
    obtain ⟨p, hp, hsound⟩ := sound.follow stable (stable_judged hash pool.state) calls run'
      hbegins (sound_judged c sound.state)
    rw [hdone] at hp
    cases hp
    exact hsound

def sampleHash (token : String) : String := "#" ++ token

def sampleInput : MintCodeInput where
  userId := "u"
  clientId := "client"
  redirectUri := "uri"
  codeChallenge := "#verifier"
  resource := "mcp"
  scope := "portuni"
  id := "c"
  code := "code"

def sampleForm (grantId : String) : CodeForm where
  code := "code"
  redirectUri := "uri"
  clientId := "client"
  codeVerifier := "verifier"
  clientName := "Client"
  grantId := grantId
  accessToken := "a0"
  refreshToken := "r0"

/-- The code is exchanged, its refresh token is presented twice at the same time, and the code
is presented again. -/
def replayedCode : List (Action Call (Call × Outcome)) :=
  [.call (.consent sampleInput), .next 0, .next 0, .call (.code (sampleForm "g"))] ++
    List.replicate 5 (.next 1) ++
    [.call (.refresh ⟨"r0", "a1", "r1"⟩), .call (.refresh ⟨"r0", "a2", "r2"⟩),
      .next 2, .next 3, .next 2, .next 3, .next 2, .next 3, .next 2, .next 3,
      .call (.code (sampleForm "g'")), .next 4, .next 4,
      .call (.verify "a1"), .next 5]

theorem oauth_tokens_guarded_replayed :
    ∃ pool, exec (step sampleHash sampleHash) startOf replayedCode = some pool ∧
      pool.results.map (fun r => r.2) =
        [.redirected "code", .tokens "a0" "r0" "portuni", .tokens "a1" "r1" "portuni",
          .invalidGrant, .invalidGrant, .verified none] ∧
        pool.state.sources = [.code "c", .refresh "#r0"] ∧
          Guarded sampleHash sampleHash startOf pool := by
  have hfinal : (exec (step sampleHash sampleHash) startOf replayedCode).map
      (fun pool => (pool.results.map (fun r => r.2), pool.state.sources)) =
      some ([.redirected "code", .tokens "a0" "r0" "portuni", .tokens "a1" "r1" "portuni",
        .invalidGrant, .invalidGrant, .verified none], [.code "c", .refresh "#r0"]) := by
    decide +kernel
  obtain ⟨pool, hpool, hfacts⟩ := Option.map_eq_some_iff.mp hfinal
  simp only [Prod.mk.injEq] at hfacts
  exact ⟨pool, hpool, hfacts.1, hfacts.2,
    oauth_tokens_guarded .nil (Run.of_exec hpool (by decide +kernel))⟩

/-- The refresh token is presented in the last second of its 180 days, and the access token that
it brings two seconds later. -/
def lateRefresh : List (Action Call (Call × Outcome)) :=
  [.call (.consent sampleInput), .next 0, .next 0, .call (.code (sampleForm "g"))] ++
    List.replicate 5 (.next 1) ++
    [.call (.wait (refreshTtl - 1)), .next 2, .call (.refresh ⟨"r0", "a1", "r1"⟩)] ++
    List.replicate 4 (.next 3) ++
    [.call (.wait 2), .next 4, .call (.verify "a1"), .next 5, .next 5]

theorem lateRefresh_outlives_grant :
    ∃ pool, Run (step sampleHash sampleHash) (Completes Fresh) startOf lateRefresh pool ∧
      (.verify "a1", .verified (some ⟨"g", "u", "mcp", "portuni"⟩)) ∈ pool.results ∧
        ∃ g ∈ pool.state.grants, g.id = "g" ∧ g.refreshExpiresAt < pool.state.now := by
  have hfinal : (exec (step sampleHash sampleHash) startOf lateRefresh).any (fun pool =>
      decide ((.verify "a1", .verified (some ⟨"g", "u", "mcp", "portuni"⟩)) ∈ pool.results) &&
        decide (∃ g ∈ pool.state.grants, g.id = "g" ∧ g.refreshExpiresAt < pool.state.now)) =
          true := by
    decide +kernel
  obtain ⟨pool, hpool, hfacts⟩ := (Option.any_eq_true _ _).mp hfinal
  rw [Bool.and_eq_true, decide_eq_true_eq, decide_eq_true_eq] at hfacts
  exact ⟨pool, Run.of_exec hpool (by decide +kernel), hfacts.1, hfacts.2⟩

end Portuni.OAuth
