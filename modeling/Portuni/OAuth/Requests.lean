import Portuni.OAuth.Model

/-!
The statements that hand out a token pair: the insertion of a grant and its rotation.
-/

namespace Portuni.OAuth

variable {db db' db'' : Db} {g g' : Grant} {i i' : Issue} {code code' : AuthCode} {s : Statement}

theorem nodup_map_append {α β : Type*} {f : α → β} {l : List α} {a : α} (h : (l.map f).Nodup)
    (ha : f a ∉ l.map f) : ((l ++ [a]).map f).Nodup := by
  rw [List.map_append, List.map_singleton]
  exact List.nodup_append.mpr ⟨h, List.nodup_singleton _, fun b hb c hc heq => ha (by
    rw [List.mem_singleton.mp hc] at heq
    exact heq ▸ hb)⟩

theorem sources_append (db : Db) (i : Issue) :
    (db.issues ++ [i]).map Issue.source = db.sources ++ [i.source] := by
  rw [List.map_append, List.map_singleton]
  rfl

theorem keeps_insertGrant (inv : Invariant db) {codeId : String}
    (hfresh : Fresh db (.insertGrant g codeId))
    (hcode : ∃ code ∈ db.codes, code.id = codeId ∧ code.redeemer = some g.id)
    (hexpires : g.accessExpiresAt ≤ db.now + accessTtl) (hprev : g.prevRefreshTokenHash = none) :
    Invariant (perform (.insertGrant g codeId) db) ∧
      Guarantee db (perform (.insertGrant g codeId) db) := by
  obtain ⟨hid, hunissued, haccess, hrefresh⟩ := hfresh
  let new : Issue := ⟨g.id, .code codeId, g.accessTokenHash, g.refreshTokenHash, db.now⟩
  have hperform : perform (.insertGrant g codeId) db =
      { db with grants := db.grants ++ [g], issues := db.issues ++ [new] } := rfl
  have hsource : (.code codeId) ∉ db.sources := by
    intro hmem
    obtain ⟨i, hi, hcodeId⟩ := List.mem_map.mp hmem
    obtain ⟨code, hmemCode, rfl, hr⟩ := inv.minted i hi codeId hcodeId
    obtain ⟨code', hcode', hidCode, hr'⟩ := hcode
    rw [inv.code_eq hmemCode hcode' hidCode.symm, hr'] at hr
    exact hunissued (List.mem_map.mpr ⟨i, hi, (Option.some.inj hr).symm⟩)
  have hcases : ∀ {g'}, g' ∈ db.grants ++ [g] → g' ∈ db.grants ∨ g' = g := by
    intro g' h
    simpa using h
  have hsources : ∀ h, .refresh h ∈ db.sources ++ [new.source] ↔ .refresh h ∈ db.sources := by
    intro h
    simp [new]
  rw [hperform]
  refine ⟨⟨nodup_map_append inv.grantIds hid, inv.codeIds, inv.codeHashes,
    nodup_map_append inv.accessHashes haccess, nodup_map_append inv.refreshHashes hrefresh,
    nodup_map_append inv.sources hsource, ?_, ?_, ?_, ?_, ?_, inv.unused, ?_, ?_⟩,
    ⟨Nat.le_refl _, List.subset_append_left _ _, ?_, ?_⟩⟩
  · intro g' hg'
    rcases hcases hg' with hold | rfl
    · obtain ⟨i, hi, hissued⟩ := inv.issued g' hold
      exact ⟨i, List.mem_append_left _ hi, hissued⟩
    · exact ⟨new, List.mem_append_right _ (List.mem_singleton_self _), rfl, rfl, rfl, hexpires⟩
  · intro g' hg'
    rw [Db.sources, sources_append, hsources]
    rcases hcases hg' with hold | rfl
    · exact inv.current g' hold
    · exact fun hmem => hrefresh (inv.exchanged _ hmem)
  · intro g' hg' h hh
    rw [Db.sources, sources_append, hsources]
    rcases hcases hg' with hold | rfl
    · obtain ⟨hmem, i, hi, hissue⟩ := inv.superseded g' hold h hh
      exact ⟨hmem, i, List.mem_append_left _ hi, hissue⟩
    · rw [hprev] at hh
      cases hh
  · intro h hh
    rw [Db.sources, sources_append, hsources] at hh
    rw [List.map_append]
    exact List.mem_append_left _ (inv.exchanged h hh)
  · intro i hi c hc
    rcases List.mem_append.mp hi with hold | hnew
    · exact inv.minted i hold c hc
    · obtain rfl := List.mem_singleton.mp hnew
      obtain rfl : codeId = c := Source.code.inj hc
      exact hcode
  · intro code hmem grantId hgrantId
    obtain ⟨hr, grant, hgrant, hidGrant⟩ := inv.attached code hmem grantId hgrantId
    exact ⟨hr, grant, List.mem_append_left _ hgrant, hidGrant⟩
  · intro i hi
    rcases List.mem_append.mp hi with hold | hnew
    · obtain ⟨g', hg', hidGrant, hsettled⟩ := inv.settled i hold
      refine ⟨g', List.mem_append_left _ hg', hidGrant, hsettled.imp_right fun hmem => ?_⟩
      rw [Db.sources, sources_append, hsources]
      exact hmem
    · obtain rfl := List.mem_singleton.mp hnew
      exact ⟨g, List.mem_append_right _ (List.mem_singleton_self _), rfl, .inl rfl⟩
  · exact fun code hmem => ⟨code, hmem, rfl, rfl, fun _ hr => hr, fun _ hg => hg⟩
  · exact fun g' hg' => ⟨g', List.mem_append_left _ hg', rfl, rfl, fun hr => hr, .inl rfl⟩

def Grant.rotated (g : Grant) (access : String) (expires : ℕ) (refresh : String) (now : ℕ) :
    Grant :=
  { g with
    accessTokenHash := access
    accessExpiresAt := expires
    prevRefreshTokenHash := some g.refreshTokenHash
    refreshTokenHash := refresh
    rotatedAt := some now }

theorem keeps_rotate (inv : Invariant db) {grantId hash access refresh : String} {expires : ℕ}
    (hfresh : Fresh db (.rotate grantId hash access expires refresh))
    (hexpires : expires ≤ db.now + accessTtl) :
    Invariant (perform (.rotate grantId hash access expires refresh) db) ∧
      Guarantee db (perform (.rotate grantId hash access expires refresh) db) := by
  unfold perform
  dsimp only
  split
  swap
  · exact ⟨inv, Guarantee.refl db⟩
  rename_i hrotatable
  obtain ⟨g, hg, rfl, rfl⟩ := hrotatable
  obtain ⟨haccess, hrefresh⟩ := hfresh
  let new : Issue := ⟨g.id, .refresh g.refreshTokenHash, access, refresh, db.now⟩
  let f : Grant → Grant := fun g' =>
    if g'.id = g.id ∧ g'.refreshTokenHash = g.refreshTokenHash then
      g'.rotated access expires refresh db.now
    else g'
  have hf : ∀ g' ∈ db.grants, g' = g ∧ f g' = g.rotated access expires refresh db.now ∨
      g' ≠ g ∧ f g' = g' := by
    intro g' hg'
    by_cases heq : g' = g
    · subst heq
      exact .inl ⟨rfl, if_pos ⟨rfl, rfl⟩⟩
    · exact .inr ⟨heq, if_neg fun h => heq (inv.grant_eq hg' hg h.1)⟩
  have hid : ∀ g', (f g').id = g'.id := by
    intro g'
    simp only [f]
    split <;> rfl
  have hcurrent : ∀ g' ∈ db.grants, g' ≠ g → g'.refreshTokenHash ≠ g.refreshTokenHash := by
    intro g' hg' hne heq
    obtain ⟨i, hi, hidIssue, -, hhash, -⟩ := inv.issued g hg
    have hgrant := inv.grant_of_refresh hg' hi (heq.trans hhash.symm)
    exact hne (inv.grant_eq hg' hg (hgrant.trans hidIssue))
  have hnewSource : (.refresh refresh) ∉ db.sources ++ [new.source] := by
    intro hmem
    rcases List.mem_append.mp hmem with hold | hsame
    · exact hrefresh (inv.exchanged _ hold)
    · have heq : refresh = g.refreshTokenHash := by simpa [new] using hsame
      obtain ⟨i, hi, -, -, hhash, -⟩ := inv.issued g hg
      exact hrefresh (List.mem_map.mpr ⟨i, hi, hhash.trans heq.symm⟩)
  refine ⟨⟨?_, inv.codeIds, inv.codeHashes, nodup_map_append inv.accessHashes haccess,
    nodup_map_append inv.refreshHashes hrefresh,
    nodup_map_append inv.sources (inv.current g hg), ?_, ?_, ?_, ?_, ?_, inv.unused, ?_, ?_⟩,
    ⟨Nat.le_refl _, List.subset_append_left _ _, ?_, ?_⟩⟩
  · have hids : (db.grants.map f).map Grant.id = db.grants.map Grant.id := by
      rw [List.map_map]
      exact List.map_congr_left fun g' _ => hid g'
    exact hids ▸ inv.grantIds
  · intro g' hg'
    obtain ⟨g₀, hg₀, rfl⟩ := List.mem_map.mp hg'
    rcases hf g₀ hg₀ with ⟨rfl, hrot⟩ | ⟨-, hsame⟩
    · refine ⟨new, List.mem_append_right _ (List.mem_singleton_self _), ?_⟩
      show IssuedAs (f g₀) new
      rw [hrot]
      exact ⟨rfl, rfl, rfl, hexpires⟩
    · obtain ⟨i, hi, hissued⟩ := inv.issued g₀ hg₀
      refine ⟨i, List.mem_append_left _ hi, ?_⟩
      show IssuedAs (f g₀) i
      rw [hsame]
      exact hissued
  · intro g' hg'
    obtain ⟨g₀, hg₀, rfl⟩ := List.mem_map.mp hg'
    show Source.refresh (f g₀).refreshTokenHash ∉ (db.issues ++ [new]).map Issue.source
    rw [sources_append]
    rcases hf g₀ hg₀ with ⟨rfl, hrot⟩ | ⟨hne, hsame⟩
    · rw [hrot]
      exact hnewSource
    · rw [hsame]
      simpa [new] using ⟨inv.current g₀ hg₀, hcurrent g₀ hg₀ hne⟩
  · intro g' hg' h hh
    obtain ⟨g₀, hg₀, rfl⟩ := List.mem_map.mp hg'
    replace hh : h ∈ (f g₀).prevRefreshTokenHash := hh
    show Source.refresh h ∈ (db.issues ++ [new]).map Issue.source ∧
      ∃ i ∈ db.issues ++ [new], i.grantId = (f g₀).id ∧ i.refreshTokenHash = h
    rw [sources_append, hid]
    rcases hf g₀ hg₀ with ⟨rfl, hrot⟩ | ⟨-, hsame⟩
    · rw [hrot] at hh
      obtain rfl : g₀.refreshTokenHash = h := Option.some.inj hh
      obtain ⟨i, hi, hgrant, -, hhash, -⟩ := inv.issued g₀ hg₀
      exact ⟨List.mem_append_right _ (List.mem_singleton_self _), i,
        List.mem_append_left _ hi, hgrant, hhash⟩
    · rw [hsame] at hh
      obtain ⟨hmem, i, hi, hissue⟩ := inv.superseded g₀ hg₀ h hh
      exact ⟨List.mem_append_left _ hmem, i, List.mem_append_left _ hi, hissue⟩
  · intro h hh
    replace hh : Source.refresh h ∈ (db.issues ++ [new]).map Issue.source := hh
    rw [sources_append] at hh
    rw [List.map_append]
    refine List.mem_append_left _ ?_
    rcases List.mem_append.mp hh with hold | hsame
    · exact inv.exchanged h hold
    · obtain rfl : h = g.refreshTokenHash := by simpa [new] using hsame
      obtain ⟨i, hi, -, -, hhash, -⟩ := inv.issued g hg
      exact List.mem_map.mpr ⟨i, hi, hhash⟩
  · intro i hi c hc
    rcases List.mem_append.mp hi with hold | hnew
    · exact inv.minted i hold c hc
    · obtain rfl := List.mem_singleton.mp hnew
      cases hc
  · intro code hmem grantId hgrantId
    obtain ⟨hr, grant, hgrant, hidGrant⟩ := inv.attached code hmem grantId hgrantId
    exact ⟨hr, f grant, List.mem_map_of_mem hgrant, (hid grant).trans hidGrant⟩
  · intro i hi
    show ∃ g' ∈ db.grants.map f, g'.id = i.grantId ∧ (g'.refreshTokenHash = i.refreshTokenHash ∨
      Source.refresh i.refreshTokenHash ∈ (db.issues ++ [new]).map Issue.source)
    rw [sources_append]
    rcases List.mem_append.mp hi with hold | hnew
    · obtain ⟨g₀, hg₀, hidGrant, hsettled⟩ := inv.settled i hold
      refine ⟨f g₀, List.mem_map_of_mem hg₀, (hid g₀).trans hidGrant, ?_⟩
      rcases hf g₀ hg₀ with ⟨rfl, hrot⟩ | ⟨-, hsame⟩
      · rcases hsettled with heq | hmem
        · rw [← heq]
          exact .inr (List.mem_append_right _ (List.mem_singleton_self _))
        · exact .inr (List.mem_append_left _ hmem)
      · rw [hsame]
        exact hsettled.imp_right (List.mem_append_left _)
    · obtain rfl := List.mem_singleton.mp hnew
      refine ⟨f g, List.mem_map_of_mem hg, hid g, .inl ?_⟩
      rcases hf g hg with ⟨-, hrot⟩ | ⟨hne, -⟩
      · rw [hrot]
        rfl
      · exact absurd rfl hne
  · exact fun code hmem => ⟨code, hmem, rfl, rfl, fun _ hr => hr, fun _ hg => hg⟩
  · intro g' hg'
    refine ⟨f g', List.mem_map_of_mem hg', hid g', ?_⟩
    rcases hf g' hg' with ⟨rfl, hrot⟩ | ⟨-, hsame⟩
    · rw [hrot]
      refine ⟨rfl, fun hr => hr, .inr ⟨new, ?_, ?_, rfl⟩⟩
      · exact List.mem_append_right _ (List.mem_singleton_self _)
      · exact fun hold => haccess (List.mem_map.mpr ⟨new, hold, rfl⟩)
    · rw [hsame]
      exact ⟨rfl, fun hr => hr, .inl rfl⟩

end Portuni.OAuth

namespace Portuni.OAuth

variable {db db' db'' : Db} {g g' : Grant} {i i' : Issue} {code code' : AuthCode} {s : Statement}

/-- A change of grants that leaves their tokens alone and revokes for good. -/
structure Keeps (f : Grant → Grant) : Prop where
  id : ∀ g, (f g).id = g.id
  refreshExpiresAt : ∀ g, (f g).refreshExpiresAt = g.refreshExpiresAt
  tokens : ∀ g, (f g).tokens = g.tokens
  revoked : ∀ g, g.revokedAt.isSome → (f g).revokedAt.isSome

variable {P : Grant → Prop} {f : Grant → Grant}

theorem Keeps.ite [DecidablePred P] (keeps : Keeps f) : Keeps fun g => if P g then f g else g := by
  refine ⟨fun g => ?_, fun g => ?_, fun g => ?_, fun g hr => ?_⟩ <;> split
  · exact keeps.id g
  · rfl
  · exact keeps.refreshExpiresAt g
  · rfl
  · exact keeps.tokens g
  · rfl
  · exact keeps.revoked g hr
  · exact hr

theorem issuedAs_of_tokens (hid : g'.id = g.id) (h : g'.tokens = g.tokens) (hi : IssuedAs g i) :
    IssuedAs g' i := by
  simp only [Grant.tokens, Prod.mk.injEq] at h
  obtain ⟨haccess, hexpires, hrefresh, -⟩ := h
  exact ⟨hi.1.trans hid.symm, hi.2.1.trans haccess.symm, hi.2.2.1.trans hrefresh.symm,
    hexpires ▸ hi.2.2.2⟩

theorem guarantee_updateGrants [DecidablePred P] (keeps : Keeps f) :
    Guarantee db (db.updateGrants P f) where
  now := Nat.le_refl _
  issues := fun _ h => h
  codes := fun code h => ⟨code, h, rfl, rfl, fun _ hr => hr, fun _ hg => hg⟩
  grants := fun g h => ⟨_, List.mem_map_of_mem h, keeps.ite.id g, keeps.ite.refreshExpiresAt g,
    keeps.ite.revoked g, .inl (keeps.ite.tokens g)⟩

theorem invariant_updateGrants [DecidablePred P] (keeps : Keeps f) (inv : Invariant db) :
    Invariant (db.updateGrants P f) := by
  have hkeeps : Keeps fun g => if P g then f g else g := keeps.ite
  have htokens : ∀ g' ∈ (db.updateGrants P f).grants, ∃ g ∈ db.grants, g'.id = g.id ∧
      g'.tokens = g.tokens := by
    intro g' hg'
    obtain ⟨g, hg, rfl⟩ := List.mem_map.mp hg'
    exact ⟨g, hg, hkeeps.id g, hkeeps.tokens g⟩
  refine ⟨?_, inv.codeIds, inv.codeHashes, inv.accessHashes, inv.refreshHashes, inv.sources,
    ?_, ?_, ?_, inv.exchanged, inv.minted, inv.unused, ?_, ?_⟩
  · have hids : (db.updateGrants P f).grants.map Grant.id = db.grants.map Grant.id := by
      unfold Db.updateGrants
      rw [List.map_map]
      exact List.map_congr_left fun g _ => hkeeps.id g
    rw [hids]
    exact inv.grantIds
  · intro g' hg'
    obtain ⟨g, hg, hid, hsame⟩ := htokens g' hg'
    obtain ⟨i, hi, hissued⟩ := inv.issued g hg
    exact ⟨i, hi, issuedAs_of_tokens hid hsame hissued⟩
  · intro g' hg'
    obtain ⟨g, hg, -, hsame⟩ := htokens g' hg'
    simp only [Grant.tokens, Prod.mk.injEq] at hsame
    rw [hsame.2.2.1]
    exact inv.current g hg
  · intro g' hg'
    obtain ⟨g, hg, hid, hsame⟩ := htokens g' hg'
    simp only [Grant.tokens, Prod.mk.injEq] at hsame
    rw [hsame.2.2.2, hid]
    exact inv.superseded g hg
  · intro code hcode g hg
    obtain ⟨hredeemer, grant, hgrant, hid⟩ := inv.attached code hcode g hg
    exact ⟨hredeemer, _, List.mem_map_of_mem hgrant, (hkeeps.id grant).trans hid⟩
  · intro i hi
    obtain ⟨g, hg, hid, hsettled⟩ := inv.settled i hi
    refine ⟨_, List.mem_map_of_mem hg, (hkeeps.id g).trans hid, hsettled.imp_left fun heq => ?_⟩
    have hsame := hkeeps.tokens g
    simp only [Grant.tokens, Prod.mk.injEq] at hsame
    exact hsame.2.2.1.trans heq

theorem keeps_revoke (now : ℕ) : Keeps fun g => { g with revokedAt := some now } :=
  ⟨fun _ => rfl, fun _ => rfl, fun _ => rfl, fun _ _ => rfl⟩

theorem keeps_touch (now : ℕ) : Keeps fun g => { g with lastUsedAt := some now } :=
  ⟨fun _ => rfl, fun _ => rfl, fun _ => rfl, fun _ h => h⟩

variable {P : AuthCode → Prop} {f : AuthCode → AuthCode}

theorem guarantee_updateCodes [DecidablePred P] (hid : ∀ code, (f code).id = code.id)
    (hhash : ∀ code, (f code).codeHash = code.codeHash)
    (hredeemer : ∀ code ∈ db.codes, P code → ∀ r ∈ code.redeemer, (f code).redeemer = some r)
    (hgrant : ∀ code ∈ db.codes, P code → ∀ g ∈ code.grantId, (f code).grantId = some g) :
    Guarantee db (db.updateCodes P f) where
  now := Nat.le_refl _
  issues := fun _ h => h
  codes := by
    intro code hcode
    refine ⟨_, List.mem_map_of_mem hcode, ?_⟩
    split
    · rename_i hP
      exact ⟨hid code, hhash code, hredeemer code hcode hP, hgrant code hcode hP⟩
    · exact ⟨rfl, rfl, fun _ hr => hr, fun _ hg => hg⟩
  grants := fun g h => ⟨g, h, rfl, rfl, fun hr => hr, .inl rfl⟩

variable (inv : Invariant db)

include inv

theorem invariant_updateCodes {P : AuthCode → Prop} [DecidablePred P] {f : AuthCode → AuthCode}
    (hid : ∀ code, (f code).id = code.id) (hhash : ∀ code, (f code).codeHash = code.codeHash)
    (hredeemer : ∀ code ∈ db.codes, P code → ∀ r ∈ code.redeemer, (f code).redeemer = some r)
    (hunused : ∀ code ∈ db.codes, P code → (f code).usedAt = none → (f code).redeemer = none)
    (hattached : ∀ code ∈ db.codes, P code → ∀ g ∈ (f code).grantId, (f code).redeemer = some g ∧ ∃
      grant ∈ db.grants, grant.id = g) : Invariant (db.updateCodes P f) := by
  have hfrom : ∀ code' ∈ (db.updateCodes P f).codes, ∃ code ∈ db.codes,
      code' = if P code then f code else code := by
    intro code' hcode'
    obtain ⟨code, hcode, rfl⟩ := List.mem_map.mp hcode'
    exact ⟨code, hcode, rfl⟩
  refine ⟨inv.grantIds, ?_, ?_, inv.accessHashes, inv.refreshHashes, inv.sources, inv.issued,
    inv.current, inv.superseded, inv.exchanged, ?_, ?_, ?_, inv.settled⟩
  · have hids : (db.updateCodes P f).codes.map AuthCode.id = db.codes.map AuthCode.id := by
      unfold Db.updateCodes
      rw [List.map_map]
      refine List.map_congr_left fun code _ => ?_
      simp only [Function.comp_apply]
      split
      · exact hid code
      · rfl
    rw [hids]
    exact inv.codeIds
  · have hhashes : (db.updateCodes P f).codes.map AuthCode.codeHash =
        db.codes.map AuthCode.codeHash := by
      unfold Db.updateCodes
      rw [List.map_map]
      refine List.map_congr_left fun code _ => ?_
      simp only [Function.comp_apply]
      split
      · exact hhash code
      · rfl
    rw [hhashes]
    exact inv.codeHashes
  · intro i hi c hc
    obtain ⟨code, hcode, rfl, hr⟩ := inv.minted i hi c hc
    refine ⟨_, List.mem_map_of_mem hcode, ?_⟩
    split
    · rename_i hP
      exact ⟨hid code, hredeemer code hcode hP _ hr⟩
    · exact ⟨rfl, hr⟩
  · intro code' hcode'
    obtain ⟨code, hcode, rfl⟩ := hfrom code' hcode'
    split
    · rename_i hP
      exact hunused code hcode hP
    · exact inv.unused code hcode
  · intro code' hcode'
    obtain ⟨code, hcode, rfl⟩ := hfrom code' hcode'
    split
    · rename_i hP
      exact hattached code hcode hP
    · exact inv.attached code hcode

theorem keeps_stampCode (codeId redeemer : String) :
    Invariant (perform (.stampCode codeId redeemer) db) ∧
      Guarantee db (perform (.stampCode codeId redeemer) db) := by
  have hredeemer : ∀ code ∈ db.codes, code.id = codeId ∧ code.usedAt = none →
      ∀ r ∈ code.redeemer, some redeemer = some r := by
    rintro code hcode ⟨-, hunused⟩ r hr
    rw [inv.unused code hcode hunused] at hr
    cases hr
  refine ⟨invariant_updateCodes inv (fun _ => rfl) (fun _ => rfl) hredeemer ?_ ?_,
    guarantee_updateCodes (fun _ => rfl) (fun _ => rfl) hredeemer fun _ _ _ _ hg => hg⟩
  · intro code _ _ hused
    cases hused
  · rintro code hcode ⟨-, hunused⟩ g hg
    have hr := (inv.attached code hcode g hg).1
    rw [inv.unused code hcode hunused] at hr
    cases hr

theorem keeps_attachGrant {codeId grantId : String}
    (hcode : ∃ code ∈ db.codes, code.id = codeId ∧ code.redeemer = some grantId)
    (hgrant : ∃ g ∈ db.grants, g.id = grantId) :
    Invariant (perform (.attachGrant codeId grantId) db) ∧
      Guarantee db (perform (.attachGrant codeId grantId) db) := by
  have hredeemer : ∀ code ∈ db.codes, code.id = codeId → code.redeemer = some grantId := by
    intro code hmem hid
    obtain ⟨code', hcode', hid', hr⟩ := hcode
    rw [inv.code_eq hmem hcode' (hid.trans hid'.symm)]
    exact hr
  refine ⟨invariant_updateCodes inv (fun _ => rfl) (fun _ => rfl) (fun _ _ _ _ hr => hr) ?_ ?_,
    guarantee_updateCodes (fun _ => rfl) (fun _ => rfl) (fun _ _ _ _ hr => hr) ?_⟩
  · exact fun code hmem _ hused => inv.unused code hmem hused
  · intro code hmem hid g hg
    cases hg
    exact ⟨hredeemer code hmem hid, hgrant⟩
  · intro code hmem hid g hg
    have hr := (inv.attached code hmem g hg).1
    rw [hredeemer code hmem hid] at hr
    exact hr

theorem keeps_insertCode (hfresh : Fresh db (.insertCode code)) (hused : code.redeemer = none)
    (hgrant : code.grantId = none) :
    Invariant (perform (.insertCode code) db) ∧ Guarantee db (perform (.insertCode code) db) := by
  obtain ⟨hid, hhash⟩ := hfresh
  have old : ∀ {code'}, code' ∈ db.codes → code' ∈ db.codes ++ [code] :=
    fun h => List.mem_append_left _ h
  have hcases : ∀ {code'}, code' ∈ db.codes ++ [code] → code' ∈ db.codes ∨ code' = code := by
    intro code' h
    simpa using h
  refine ⟨⟨inv.grantIds, ?_, ?_, inv.accessHashes, inv.refreshHashes, inv.sources, inv.issued,
    inv.current, inv.superseded, inv.exchanged, ?_, ?_, ?_, inv.settled⟩,
    ⟨Nat.le_refl _, fun _ h => h, ?_, ?_⟩⟩
  · simpa [perform, List.nodup_append] using ⟨inv.codeIds, by simpa using hid⟩
  · simpa [perform, List.nodup_append] using ⟨inv.codeHashes, by simpa using hhash⟩
  · intro i hi c hc
    obtain ⟨code', hcode', hrest⟩ := inv.minted i hi c hc
    exact ⟨code', old hcode', hrest⟩
  · intro code' hcode' hnone
    rcases hcases hcode' with hold | rfl
    · exact inv.unused code' hold hnone
    · exact hused
  · intro code' hcode' g hg
    rcases hcases hcode' with hold | rfl
    · exact inv.attached code' hold g hg
    · rw [hgrant] at hg
      cases hg
  · exact fun code' hcode' =>
      ⟨code', old hcode', rfl, rfl, fun _ hr => hr, fun _ hg => hg⟩
  · exact fun g hg => ⟨g, hg, rfl, rfl, fun hr => hr, .inl rfl⟩

end Portuni.OAuth

namespace Portuni.OAuth

open Library.Interleaving Library.RelyGuarantee

namespace Db

def Revoked (db : Db) (id : String) : Prop := ∃ g ∈ db.grants, g.id = id ∧ g.revokedAt.isSome

def Closed (db : Db) (id : String) : Prop :=
  ∃ g ∈ db.grants, g.id = id ∧ (g.revokedAt.isSome ∨ g.refreshExpiresAt ≤ db.now)

end Db

def Outcome.isTokens : Outcome → Bool
  | .tokens .. => true
  | _ => false

variable (hash challenge : String → String)

structure CodeJudged (db₀ db : Db) (form : CodeForm) (outcome : Outcome) : Prop where
  minted : outcome.isTokens → ∃ code ∈ db.codes, code.codeHash = hash form.code ∧
    code.redeemer = some form.grantId
  replayed : ∀ code ∈ db₀.codes, code.codeHash = hash form.code → ∀ g ∈ code.grantId,
    outcome = .invalidRequest ∨ outcome = .invalidGrant ∧ db.Revoked g

structure RefreshJudged (db₀ db : Db) (form : RefreshForm) (outcome : Outcome) : Prop where
  rotated : outcome.isTokens → ∃ i ∈ db.issues, i.source = .refresh (hash form.refreshToken) ∧
    i.refreshTokenHash = hash form.newRefreshToken
  spent : form.refreshToken ≠ "" → ∀ i ∈ db₀.issues,
    i.refreshTokenHash = hash form.refreshToken →
      db.Closed i.grantId ∨ .refresh (hash form.refreshToken) ∈ db.sources
  closed : ∀ i ∈ db₀.issues, i.refreshTokenHash = hash form.refreshToken →
    db₀.Closed i.grantId → ¬ outcome.isTokens
  superseded : ∀ g ∈ db₀.grants, hash form.refreshToken ∈ g.prevRefreshTokenHash →
    ¬ outcome.isTokens ∧ (form.refreshToken ≠ "" →
      db.Revoked g.id ∨ ∃ i ∈ db.issues, i ∉ db₀.issues ∧ i.grantId = g.id)

/-- An access token of a revoked grant, or one that is an hour old, is not accepted. -/
def VerifyJudged (db₀ : Db) (token : String) (outcome : Outcome) : Prop :=
  ∀ i ∈ db₀.issues, i.accessTokenHash = hash token →
    db₀.Revoked i.grantId ∨ i.storedAt + accessTtl ≤ db₀.now → outcome = .verified none

/-- `db₀` is the state that the request begins in. -/
def Judged (db₀ db : Db) : Call → Outcome → Prop
  | .code form, outcome => CodeJudged hash db₀ db form outcome
  | .refresh form, outcome => RefreshJudged hash db₀ db form outcome
  | .verify token, outcome => VerifyJudged hash db₀ token outcome
  | _, _ => True

variable {hash challenge} {db₀ db db' : Db} {g : Grant} {i : Issue} {id : String}

theorem Db.Revoked.later (h : db.Revoked id) (hchange : Guarantee db db') : db'.Revoked id := by
  obtain ⟨g, hg, hid, hr⟩ := h
  obtain ⟨g', hg', hid', -, hrevoked, -⟩ := hchange.grants g hg
  exact ⟨g', hg', hid'.trans hid, hrevoked hr⟩

theorem Db.Closed.later (h : db.Closed id) (hchange : Guarantee db db') : db'.Closed id := by
  obtain ⟨g, hg, hid, hclosed⟩ := h
  obtain ⟨g', hg', hid', hexpires, hrevoked, -⟩ := hchange.grants g hg
  refine ⟨g', hg', hid'.trans hid, hclosed.imp hrevoked fun hle => ?_⟩
  rw [hexpires]
  exact Nat.le_trans hle hchange.now

theorem sources_later (hchange : Guarantee db db') {source : Source} (h : source ∈ db.sources) :
    source ∈ db'.sources := by
  obtain ⟨i, hi, hsource⟩ := List.mem_map.mp h
  exact List.mem_map.mpr ⟨i, hchange.issues hi, hsource⟩

variable {outcome : Outcome}

theorem CodeJudged.later {form : CodeForm} (h : CodeJudged hash db₀ db form outcome)
    (hchange : Guarantee db db') : CodeJudged hash db₀ db' form outcome where
  minted := by
    intro htokens
    obtain ⟨code, hcode, hhash, hr⟩ := h.minted htokens
    obtain ⟨code', hcode', -, hhash', hr', -⟩ := hchange.codes code hcode
    exact ⟨code', hcode', hhash'.trans hhash, hr' _ hr⟩
  replayed := fun code hcode hhash g hg =>
    (h.replayed code hcode hhash g hg).imp_right fun hr => ⟨hr.1, hr.2.later hchange⟩

theorem RefreshJudged.later {form : RefreshForm} (h : RefreshJudged hash db₀ db form outcome)
    (hchange : Guarantee db db') : RefreshJudged hash db₀ db' form outcome where
  rotated := by
    intro htokens
    obtain ⟨i, hi, hrest⟩ := h.rotated htokens
    exact ⟨i, hchange.issues hi, hrest⟩
  spent := fun hne i hi hhash =>
    (h.spent hne i hi hhash).imp (·.later hchange) (sources_later hchange)
  closed := h.closed
  superseded := by
    intro g hg hprev
    obtain ⟨hrefused, hrest⟩ := h.superseded g hg hprev
    refine ⟨hrefused, fun hne => (hrest hne).imp (·.later hchange) ?_⟩
    rintro ⟨i, hi, hnew, hgrant⟩
    exact ⟨i, hchange.issues hi, hnew, hgrant⟩

theorem Judged.later {c : Call} (h : Judged hash db₀ db c outcome) (hchange : Guarantee db db') :
    Judged hash db₀ db' c outcome := by
  cases c with
  | code form => exact CodeJudged.later h hchange
  | refresh form => exact RefreshJudged.later h hchange
  | verify token => exact h
  | _ => trivial

theorem stable_judged (hash : String → String) (db₀ : Db) :
    Stable Guarantee fun db (r : Call × Outcome) => Judged hash db₀ db r.1 r.2 where
  refl := Guarantee.refl
  trans := Guarantee.trans
  post := fun hchange h => h.later hchange

end Portuni.OAuth
