import Portuni.AccessRequests.Effects

/-!
Resolving access requests is monotone and consistent in runs in which no decision commits a grant
that has become stale, and no update of a node's visibility meets access rows.
-/

namespace Portuni.AccessRequests

open Access Library.Interleaving Library.RelyGuarantee Library.Runs

variable {toLowerCase : String → String} {s s' : State} {statement : Statement}
  {requestId nodeId : String} {grant : Option Grant} {decision : Decision} {r : AccessRequest}
  {pool pool' : Pool Statement State Outcome} {acts : List (Action Call Outcome)}
  {a : Action Call Outcome}

/-- When a decision commits, the chain that it has read still has the same source, which owns
access rows, and no denial has come in between; an update of the visibility meets no rows. -/
def Careful (s : State) : Statement → Prop
  | .resolve requestId (some grant) _ => ∃ r ∈ s.requests, r.id = requestId ∧ r.status ≠ .denied ∧
      (resolveAccessChain s.db r.nodeId).sourceNodeId = some grant.grantedOn ∧
      (resolveAccessChain s.db r.nodeId).implicitPrivate = false
  | .resolve requestId none .approve => ∀ r ∈ s.requests, r.id = requestId → r.status = .pending →
      (resolveAccessChain s.db r.nodeId).entries = none
  | .updateNode nodeId (some _) => s.db.entriesOf nodeId = []
  | .resolve _ none .deny | .updateNode _ none | .setAccess .. | .read => True

instance (s : State) (statement : Statement) : Decidable (Careful s statement) :=
  match statement with
  | .resolve _ (some _) _ => inferInstanceAs (Decidable (∃ r ∈ s.requests, _))
  | .resolve _ none .approve => inferInstanceAs (Decidable (∀ r ∈ s.requests, _ → _))
  | .updateNode nodeId (some _) => inferInstanceAs (Decidable (s.db.entriesOf nodeId = []))
  | .resolve _ none .deny | .updateNode _ none | .setAccess .. | .read =>
    inferInstanceAs (Decidable True)

structure Invariant (s : State) : Prop where
  wellFormed : s.db.WellFormed
  rowsIffGroup : RowsIffGroup s.db
  ids : (s.requests.map AccessRequest.id).Nodup
  granted : ∀ r ∈ s.requests, r.id ∈ s.grants → r.status = .approved
  inForce : ∀ stamp ∈ s.stamps, stamp.inForce = true

def Kept (s s' : State) : Prop :=
  ∀ r ∈ s.requests, ∃ r' ∈ s'.requests, r'.id = r.id ∧ r'.nodeId = r.nodeId ∧ r'.userId = r.userId

theorem Kept.refl (s : State) : Kept s s := fun r hr => ⟨r, hr, rfl, rfl, rfl⟩

theorem Kept.trans {s'' : State} (h : Kept s s') (h' : Kept s' s'') : Kept s s'' := by
  intro r hr
  obtain ⟨r', hr', hid, hnode, huser⟩ := h r hr
  obtain ⟨r'', hr'', hid', hnode', huser'⟩ := h' r' hr'
  exact ⟨r'', hr'', hid'.trans hid, hnode'.trans hnode, huser'.trans huser⟩

theorem Kept.of_requests (h : s'.requests = s.requests) : Kept s s' :=
  fun r hr => ⟨r, h ▸ hr, rfl, rfl, rfl⟩

theorem stable_kept : Stable Kept fun (_ : State) (_ : Outcome) => True where
  refl := Kept.refl
  trans := Kept.trans
  post := fun _ _ => trivial

section

theorem resolveStatus_key : (resolveStatus requestId decision r).id = r.id ∧
      (resolveStatus requestId decision r).nodeId = r.nodeId ∧
      (resolveStatus requestId decision r).userId = r.userId := by
  unfold resolveStatus
  split <;> exact ⟨rfl, rfl, rfl⟩

theorem kept_resolve : Kept s (resolve s requestId grant decision) :=
  fun _ hr => ⟨_, List.mem_map_of_mem hr, resolveStatus_key⟩

theorem resolveStatus_of_ne (h : r.status ≠ .pending) : resolveStatus requestId decision r = r := by
  simp [resolveStatus, h]

variable (h : Invariant s)

include h

theorem Invariant.eq_of_id {r' : AccessRequest} (hr : r ∈ s.requests) (hr' : r' ∈ s.requests)
    (hid : r.id = r'.id) : r = r' :=
  List.inj_on_of_nodup_map h.ids hr hr' hid

theorem granting_of_careful {g : Grant}
    (hcareful : Careful s (.resolve requestId (some g) decision)) :
    Granting s.db g ∧ ∃ r ∈ s.requests, r.id = requestId ∧ r.status ≠ .denied ∧
      Library.Walks.first s.db.restricts s.db.parent? maxChain r.nodeId = some g.grantedOn := by
  obtain ⟨r, hr, hid, hstatus, hsource, hown⟩ := hcareful
  obtain ⟨hfirst, hrows⟩ := first_of_sourceNodeId h.wellFormed h.rowsIffGroup hsource hown
  exact ⟨⟨h.wellFormed, h.rowsIffGroup, hrows⟩, r, hr, hid, hstatus, hfirst⟩

theorem inForce_resolve (hcareful : Careful s (.resolve requestId grant .approve))
    (huser : ∀ g, grant = some g → ∃ r ∈ s.requests, r.id = requestId ∧ g.userId = r.userId)
    (hr : r ∈ s.requests) (hid : r.id = requestId) (hpending : r.status = .pending) :
    inForce (resolve s requestId grant .approve).db r.userId r.nodeId = true := by
  cases grant with
  | none => exact inForce_of_unrestricted (hcareful r hr hid hpending)
  | some g =>
    obtain ⟨hgranting, r', hr', hid', -, hfirst⟩ := granting_of_careful h hcareful
    obtain rfl := h.eq_of_id hr hr' (hid.trans hid'.symm)
    obtain ⟨r'', hr'', hid'', huser⟩ := huser g rfl
    obtain rfl := h.eq_of_id hr hr'' (hid.trans hid''.symm)
    exact huser ▸ hgranting.inForce_insertGrant hfirst

theorem granted_resolve (hcareful : Careful s (.resolve requestId grant decision))
    (hdeny : decision = .deny → grant = none) (hr : r ∈ s.requests)
    (hgranted : r.id ∈ (resolve s requestId grant decision).grants) :
    (resolveStatus requestId decision r).status = .approved := by
  have hold : r.id ∈ s.grants → (resolveStatus requestId decision r).status = .approved := by
    intro hmem
    have happroved := h.granted r hr hmem
    rw [resolveStatus_of_ne (by rw [happroved]; decide)]
    exact happroved
  cases grant with
  | none =>
    have hgrants : (resolve s requestId none decision).grants = s.grants := if_pos rfl
    exact hold (hgrants ▸ hgranted)
  | some g =>
    obtain ⟨-, r', hr', hid', hdenied, -⟩ := granting_of_careful h hcareful
    have hmem : r.id ∈ s.grants ∨ r.id = requestId := by
      simp only [resolve] at hgranted
      split at hgranted
      · exact .inl hgranted
      · simpa using hgranted
    obtain hmem | hid := hmem
    · exact hold hmem
    obtain rfl := h.eq_of_id hr hr' (hid.trans hid'.symm)
    cases hstatus : r.status with
    | denied => exact absurd hstatus hdenied
    | approved =>
      rw [resolveStatus_of_ne (by rw [hstatus]; decide)]
      exact hstatus
    | pending =>
      cases decision with
      | approve => simp [resolveStatus, hid, hstatus, Decision.status]
      | deny => cases hdeny rfl

theorem invariant_resolve (hcareful : Careful s (.resolve requestId grant decision))
    (huser : ∀ g, grant = some g → ∃ r ∈ s.requests, r.id = requestId ∧ g.userId = r.userId)
    (hdeny : decision = .deny → grant = none) : Invariant (resolve s requestId grant decision) where
  wellFormed := by
    cases grant with
    | none => exact h.wellFormed
    | some g => exact wellFormed_insertGrant h.wellFormed
  rowsIffGroup := by
    cases grant with
    | none => exact h.rowsIffGroup
    | some g => exact rowsIffGroup_insertGrant h.rowsIffGroup
  ids := by
    have hids : (s.requests.map (resolveStatus requestId decision)).map AccessRequest.id =
        s.requests.map AccessRequest.id := by
      rw [List.map_map]
      exact List.map_congr_left fun r _ => resolveStatus_key.1
    exact hids ▸ h.ids
  granted := by
    intro r' hr' hgranted
    obtain ⟨r, hr, rfl⟩ := List.mem_map.mp hr'
    rw [resolveStatus_key.1] at hgranted
    exact granted_resolve h hcareful hdeny hr hgranted
  inForce := by
    intro stamp hstamp
    obtain hstamp | hstamp := List.mem_append.mp hstamp
    · exact h.inForce stamp hstamp
    obtain ⟨r, hmem, rfl⟩ := List.mem_map.mp hstamp
    obtain ⟨hr, hnew⟩ := List.mem_filter.mp hmem
    obtain ⟨hid, hpending, rfl⟩ := of_decide_eq_true hnew
    exact inForce_resolve h hcareful huser hr hid hpending

end

section

abbrev SoundRequest (p : Request) (s : State) : Prop :=
  Sound perform Invariant Careful Kept (fun _ _ => True) p s

theorem sound_read {next : State → Request}
    (h : ∀ later, Kept s later → Invariant later → SoundRequest (next later) later) :
    SoundRequest (.statement .read next) s :=
  Sound.read stable_kept (fun _ => rfl) h

theorem sound_write {outcome : Outcome}
    (h : ∀ later, Kept s later → Invariant later → Careful later statement →
      Invariant (perform statement later) ∧ Kept later (perform statement later)) :
    SoundRequest (write statement outcome) s := by
  intro later hkept inv hcareful
  obtain ⟨hinv, hkept'⟩ := h later hkept inv hcareful
  exact ⟨hinv, hkept', trivial⟩

theorem userId_of_grantOf {chain : ResolvedChain} {userId : String} {g : Grant}
    (h : grantOf chain userId = some g) : g.userId = userId := by
  unfold grantOf at h
  split at h
  · split at h
    · cases h
    · cases h
      rfl
  · cases h

theorem sound_resolve (identity : GroupIdentityView) (requestId : String) (decision : Decision) :
    SoundRequest (resolveAccessRequest toLowerCase identity requestId decision) s := by
  unfold resolveAccessRequest
  refine sound_read fun s₁ _ _ => ?_
  split
  · trivial
  rename_i r hfind
  refine sound_read fun s₂ hkept₂ _ => ?_
  split
  · trivial
  split
  · trivial
  split
  · refine sound_read fun s₃ hkept₃ _ => sound_write fun s₄ hkept₄ inv₄ hcareful => ?_
    refine ⟨invariant_resolve inv₄ hcareful (fun g hg => ?_) (fun h => nomatch h), kept_resolve⟩
    obtain ⟨r', hr', hid', -, huser'⟩ := ((hkept₂.trans hkept₃).trans hkept₄) r
      (List.mem_of_find?_eq_some hfind)
    have hid : r.id = requestId := by simpa using List.find?_some hfind
    exact ⟨r', hr', hid'.trans hid, (userId_of_grantOf hg).trans huser'.symm⟩
  · refine sound_write fun s₃ _ inv₃ hcareful => ?_
    exact ⟨invariant_resolve inv₃ hcareful (fun _ h => nomatch h) fun _ => rfl, kept_resolve⟩

variable {access : AccessState}

theorem entries_of_effectiveAccess {body : PutAccessBody} {old : Visibility}
    (h : effectiveAccess body old = some access) :
    access.entries ≠ [] ↔ access.visibility = .group := by
  unfold effectiveAccess at h
  split at h
  · split at h
    · cases h
    · rename_i hentries
      cases h
      simpa using hentries
  · cases h
    simp
  · cases h
    simp
  · split at h
    · cases h
      cases old <;> simp
    · rename_i hentries
      cases h
      simpa using hentries

theorem invariant_setAccess (h : Invariant s)
    (hfits : access.entries ≠ [] ↔ access.visibility = .group) :
    Invariant (perform (.setAccess nodeId access.entries access.visibility access.accessMode) s) where
  wellFormed := wellFormed_of_ids h.wellFormed (ids_updateRow fun _ => rfl) rfl
  rowsIffGroup := rowsIffGroup_setAccess h.rowsIffGroup hfits
  ids := h.ids
  granted := h.granted
  inForce := h.inForce

theorem sound_setAccess {outcome : Outcome}
    (hfits : access.entries ≠ [] ↔ access.visibility = .group) :
    SoundRequest
      (write (.setAccess nodeId access.entries access.visibility access.accessMode) outcome) s :=
  sound_write fun _ _ inv _ => ⟨invariant_setAccess inv hfits, .of_requests rfl⟩

theorem sound_putAccess (identity : GroupIdentityView) (nodeId : String) (mayWrite : Bool)
    (body : PutAccessBody) :
    SoundRequest (putNodeAccess toLowerCase identity nodeId mayWrite body) s := by
  unfold putNodeAccess
  refine sound_read fun s₁ _ _ => ?_
  split
  · trivial
  refine sound_read fun s₂ _ _ => ?_
  split
  · trivial
  split
  · trivial
  split
  · trivial
  rename_i access haccess
  have hfits := entries_of_effectiveAccess haccess
  split
  · trivial
  split
  · exact sound_setAccess hfits
  refine sound_read fun s₃ _ _ => ?_
  split
  · exact sound_setAccess hfits
  · trivial

theorem sound_update {visibility : Option Visibility} {fits : Bool}
    (hgroup : visibility ≠ some .group) :
    SoundRequest (.statement .read fun s =>
      match s.db.node? nodeId with
      | none => .done .refused
      | some _ =>
        if fits then write (.updateNode nodeId visibility) .written else .done .refused) s := by
  refine sound_read fun s₁ _ _ => ?_
  split
  · trivial
  split
  · refine sound_write fun s₂ _ inv hcareful => ⟨?_, .of_requests rfl⟩
    cases visibility with
    | none => exact inv
    | some v =>
      exact {
        wellFormed := wellFormed_of_ids inv.wellFormed (ids_updateRow fun _ => rfl) rfl
        rowsIffGroup := rowsIffGroup_setVisibility inv.rowsIffGroup
          (entriesOf_eq_nil_iff.mp hcareful) fun hv => hgroup (congrArg some hv)
        ids := inv.ids
        granted := inv.granted
        inForce := inv.inForce }
  · trivial

theorem sound_updateNode (nodeId : String) (visibility : Option Visibility) (fits : Bool) :
    SoundRequest (updateNodeInternal nodeId visibility fits) s := by
  unfold updateNodeInternal
  dsimp only
  split
  · trivial
  · rename_i hgroup
    refine sound_read fun s₁ _ _ => ?_
    split
    · trivial
    · exact sound_update fun h => hgroup (Option.some.inj h)
  · exact sound_update fun h => nomatch h

theorem sound_request (c : Call) : SoundRequest (request toLowerCase c) s := by
  cases c with
  | resolve identity requestId decision => exact sound_resolve identity requestId decision
  | putAccess identity nodeId mayWrite body => exact sound_putAccess identity nodeId mayWrite body
  | updateNode nodeId visibility fits => exact sound_updateNode nodeId visibility fits

end

structure Initial (s : State) : Prop where
  wellFormed : s.db.WellFormed
  rowsIffGroup : RowsIffGroup s.db
  ids : (s.requests.map AccessRequest.id).Nodup
  grants : s.grants = []
  stamps : s.stamps = []

theorem Initial.invariant (h : Initial s) : Invariant s where
  wellFormed := h.wellFormed
  rowsIffGroup := h.rowsIffGroup
  ids := h.ids
  granted r _ hmem := by simp [h.grants] at hmem
  inForce stamp hmem := by simp [h.stamps] at hmem

/-- What a step leaves visible: everything, where it commits an approval, and to the user of a
request that it marks approved also the node of the request. -/
structure Monotone (toLowerCase : String → String) (pool pool' : Pool Statement State Outcome)
    (a : Action Call Outcome) : Prop where
  visible : ∀ i requestId grant, a = .next i →
    nextStatement pool i = some (.resolve requestId grant .approve) → ∀ identity nodeId,
      nodeVisibleTo toLowerCase pool.state.db identity nodeId = true →
        nodeVisibleTo toLowerCase pool'.state.db identity nodeId = true
  requester : ∀ r ∈ pool.state.requests, ∀ r' ∈ pool'.state.requests, r'.id = r.id →
    r.status = .pending → r'.status = .approved → ∀ identity, identity.userId = r.userId →
      nodeVisibleTo toLowerCase pool'.state.db identity r.nodeId = true

theorem nodeVisibleTo_resolve (h : Invariant s)
    (hcareful : Careful s (.resolve requestId grant .approve)) {identity : GroupIdentityView}
    (hvisible : nodeVisibleTo toLowerCase s.db identity nodeId = true) :
    nodeVisibleTo toLowerCase (resolve s requestId grant .approve).db identity nodeId = true := by
  cases grant with
  | none => exact hvisible
  | some g => exact (granting_of_careful h hcareful).1.nodeVisibleTo_insertGrant hvisible

theorem eq_of_requests_eq (h : Invariant s) (heq : s'.requests = s.requests)
    (hr : r ∈ s.requests) {r' : AccessRequest} (hr' : r' ∈ s'.requests) (hid : r'.id = r.id) :
    r' = r :=
  h.eq_of_id (heq ▸ hr') hr hid

theorem requester_perform (h : Invariant s) (h' : Invariant (perform statement s))
    (hr : r ∈ s.requests) {r' : AccessRequest} (hr' : r' ∈ (perform statement s).requests)
    (hid : r'.id = r.id) (hpending : r.status = .pending) (happroved : r'.status = .approved) :
    inForce (perform statement s).db r.userId r.nodeId = true := by
  have hchanged : ¬(perform statement s).requests = s.requests := by
    intro heq
    rw [eq_of_requests_eq h heq hr hr' hid, hpending] at happroved
    contradiction
  cases statement with
  | read | setAccess nodeId entries visibility accessMode | updateNode nodeId visibility =>
    exact absurd rfl hchanged
  | resolve requestId grant decision =>
    obtain ⟨r₀, hr₀, rfl⟩ := List.mem_map.mp hr'
    rw [resolveStatus_key.1] at hid
    obtain rfl := h.eq_of_id hr₀ hr hid
    unfold resolveStatus at happroved
    split at happroved
    · rename_i hcond
      cases decision with
      | deny => cases happroved
      | approve =>
        refine h'.inForce ⟨r₀.id, _⟩ (List.mem_append_right _ ?_)
        refine List.mem_map.mpr ⟨r₀, List.mem_filter.mpr ⟨hr, ?_⟩, rfl⟩
        simpa using hcond
    · rw [hpending] at happroved
      contradiction

theorem monotone_step (sound : SoundPool perform Invariant Careful Kept (fun _ _ => True) pool)
    (hcareful : Completes Careful pool a) (hstep : step toLowerCase pool a = some pool') :
    Monotone toLowerCase pool pool' a := by
  have sound' := (sound.step stable_kept (fun c _ _ => sound_request c) hcareful hstep).1
  cases a with
  | call c =>
    cases hstep
    refine ⟨fun i _ _ h => (nomatch h), fun r hr r' hr' hid hpending happroved => ?_⟩
    rw [eq_of_requests_eq sound.state rfl hr hr' hid, hpending] at happroved
    contradiction
  | stop i result => exact hcareful.elim
  | next i =>
    simp only [step, Library.Interleaving.step] at hstep
    split at hstep
    · rename_i statement next hprogram
      cases hstep
      have hnext : nextStatement pool i = some statement := by simp [nextStatement, hprogram]
      refine ⟨fun j requestId grant hj happrove identity nodeId hvisible => ?_,
        fun r hr r' hr' hid hpending happroved identity huser => ?_⟩
      · obtain rfl := Action.next.inj hj
        obtain rfl := Option.some.inj (hnext.symm.trans happrove)
        exact nodeVisibleTo_resolve sound.state (hcareful _ hnext) hvisible
      · exact nodeVisibleTo_of_inForce
          (requester_perform sound.state sound'.state hr hr' hid hpending happroved) huser
    · cases hstep

/-- In every run whose decisions commit grants that are still current, and whose updates of a
visibility meet no rows: rows and visibility agree after every statement, a denied request has
granted nothing, whoever was approved had the grant in force at that moment, and no approval
hides a node. -/
theorem access_requests_consistent {start : State} (hstart : Initial start)
    (run : Run (step toLowerCase) (Completes Careful) ⟨start, []⟩ acts pool) :
    RowsIffGroup pool.state.db ∧
      (∀ r ∈ pool.state.requests, r.status = .denied → r.id ∉ pool.state.grants) ∧
      (∀ stamp ∈ pool.state.stamps, stamp.inForce = true) ∧
      ∀ a pool', Completes Careful pool a → step toLowerCase pool a = some pool' →
        Monotone toLowerCase pool pool' a := by
  obtain ⟨sound, -⟩ := (SoundPool.start hstart.invariant).run stable_kept
    (fun c _ _ => sound_request c) run
  refine ⟨sound.state.rowsIffGroup, fun r hr hdenied hgranted => ?_, sound.state.inForce,
    fun a pool' hcareful hstep => monotone_step sound hcareful hstep⟩
  rw [sound.state.granted r hr hgranted] at hdenied
  contradiction

/-- A request on a project below a restricted organization, approved by an administrator. -/
theorem access_requests_consistent_approved :
    ∃ start acts pool, Run (step fun s => s) (Completes Careful) ⟨start, []⟩ acts pool ∧
      pool.state.requests = [⟨"r", "n", "bob", .approved⟩] ∧
      pool.state.grants = ["r"] ∧ RowsIffGroup pool.state.db := by
  let start : State := {
    db := {
      nodes := [⟨"o", .group, .request, "alice"⟩, ⟨"n", .team, .private_, "alice"⟩]
      edges := [⟨"n", "o"⟩]
      access := [⟨"o", ⟨.user, "alice"⟩⟩] }
    requests := [⟨"r", "n", "bob", .pending⟩]
    users := ["alice", "bob"] }
  let acts : List (Action Call Outcome) :=
    [.call (.resolve ⟨true, [], [], "root"⟩ "r" .approve), .next 0, .next 0, .next 0, .next 0]
  have hstart : Initial start := by
    refine ⟨⟨by decide, by decide⟩, ?_, by decide, rfl, rfl⟩
    intro n hn
    rw [← not_iff_not, ← entriesOf_eq_nil_iff]
    revert n
    decide
  have hexec : (exec (step fun s => s) ⟨start, []⟩ acts).any (fun pool =>
      pool.state.requests = [⟨"r", "n", "bob", .approved⟩] ∧ pool.state.grants = ["r"]) = true := by
    decide +kernel
  obtain ⟨pool, hpool, hstate⟩ := (Option.any_eq_true _ _).mp hexec
  rw [decide_eq_true_eq] at hstate
  have run : Run (step fun s => s) (Completes Careful) ⟨start, []⟩ acts pool :=
    Run.of_exec hpool (by decide +kernel)
  exact ⟨start, acts, pool, run, hstate.1, hstate.2, (access_requests_consistent hstart run).1⟩

/-- A node that has become private since the request: the approval takes it from its creator. -/
theorem creator_loses_sight :
    ¬∀ (toLowerCase : String → String) (start : State) (acts : List (Action Call Outcome))
      (pool pool' : Pool Statement State Outcome) (a : Action Call Outcome), Initial start →
      Run (step toLowerCase) (fun _ _ => True) ⟨start, []⟩ acts pool →
        step toLowerCase pool a = some pool' → Monotone toLowerCase pool pool' a := by
  intro hall
  let start : State := {
    db := { nodes := [⟨"n", .private_, .private_, "alice"⟩] }
    requests := [⟨"r", "n", "bob", .pending⟩]
    users := ["alice", "bob"] }
  let alice : GroupIdentityView := ⟨false, [], [], "alice"⟩
  have hstart : Initial start := by
    refine ⟨⟨by decide, by decide⟩, ?_, by decide, rfl, rfl⟩
    intro n hn
    rw [← not_iff_not, ← entriesOf_eq_nil_iff]
    revert n
    decide
  have hexec : (exec (step fun s => s) ⟨start, []⟩ [
      .call (.resolve ⟨true, [], [], "root"⟩ "r" .approve), .next 0, .next 0, .next 0]).any
        (fun pool =>
          nextStatement pool 0 = some (.resolve "r" (some ⟨"n", "bob"⟩) .approve) ∧
          nodeVisibleTo (fun s => s) pool.state.db alice "n" = true ∧
          (step (fun s => s) pool (.next 0)).any (fun pool' =>
            nodeVisibleTo (fun s => s) pool'.state.db alice "n" = false) = true) = true := by
    decide +kernel
  obtain ⟨pool, hpool, hstate⟩ := (Option.any_eq_true _ _).mp hexec
  obtain ⟨hnext, hbefore, hafter⟩ := of_decide_eq_true hstate
  obtain ⟨pool', hpool', hhidden⟩ := (Option.any_eq_true _ _).mp hafter
  have hvisible := (hall (fun s => s) start _ pool pool' (.next 0) hstart
    (Run.of_exec_eq_some hpool) hpool').visible 0 "r" _ rfl hnext alice "n" hbefore
  rw [of_decide_eq_true hhidden] at hvisible
  exact Bool.false_ne_true hvisible

end Portuni.AccessRequests
