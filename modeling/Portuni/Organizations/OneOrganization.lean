import Portuni.Organizations.Invariant

/-!
Every node that is no organization belongs to exactly one, over any interleaving of the operations
in which no organization is purged while it has a child.
-/

namespace Portuni.Organizations

open Library.Interleaving Library.RelyGuarantee Library.Runs

variable {db db' : Db} {pool pool' : Pool Statement Db Outcome} {acts : List (Action Call Outcome)}

abbrev SoundRequest (p : Request) (db : Db) : Prop :=
  Sound perform Invariant Orderly Guarantee (fun _ _ => True) p db

theorem stable_true : Stable Guarantee fun (_ : Db) (_ : Outcome) => True :=
  stable fun _ => trivial

variable {next : Db → Request}

theorem sound_read
    (h : ∀ later, Guarantee db later → Invariant later → SoundRequest (next later) later) :
    SoundRequest (.statement .read next) db :=
  Sound.read stable_true (fun _ => rfl) h

theorem sound_check {P : Db → Bool} {next : Request}
    (h : ∀ later, Guarantee db later → Invariant later → P later = true →
      SoundRequest next later) : SoundRequest (check P next) db := by
  refine sound_read fun later hchange inv => ?_
  split
  · rename_i hP
    exact h later hchange inv hP
  · trivial

theorem sound_write {s : Statement}
    (h : ∀ later, Guarantee db later → Invariant later → Orderly later s →
      Invariant (perform s later) ∧ Guarantee later (perform s later)) :
    SoundRequest (write s) db := by
  intro later hchange inv horderly
  obtain ⟨hinv, hguarantee⟩ := h later hchange inv horderly
  exact ⟨hinv, hguarantee, trivial⟩

theorem sound_create (type : NodeType) (organizationId : Option String) (fits : Bool)
    (id edgeId : String) :
    SoundRequest (createNodeInternal type organizationId fits id edgeId) db := by
  unfold createNodeInternal
  split
  · rename_i htype
    split
    · refine sound_write fun later _ inv hfresh => ?_
      exact keeps_createNode inv hfresh (.inl ⟨htype, rfl⟩)
    · trivial
  rename_i htype
  cases organizationId with
  | none => trivial
  | some organizationId =>
    refine sound_check fun db₁ _ inv₁ horg => ?_
    split
    · refine sound_write fun db₂ hchange₂ inv₂ hfresh => ?_
      exact keeps_createNode inv₂ hfresh (.inr ⟨htype, _, rfl, rfl, rfl,
        hchange₂.drawn (drawn_of_isOrganization inv₁ horg)⟩)
    · trivial

theorem sound_connect (source target : String) (relation : EdgeRelation) (allowed : Bool)
    (id : String) : SoundRequest (connect source target relation allowed id) db := by
  unfold connect
  refine sound_read fun _ _ _ => ?_
  split
  · trivial
  refine sound_read fun _ _ _ => ?_
  split
  · trivial
  split
  · trivial
  refine sound_read fun _ _ _ => ?_
  split
  · trivial
  split
  · trivial
  refine sound_read fun _ _ _ => ?_
  split
  · trivial
  exact sound_write fun _ _ inv hfresh => keeps_insertEdge inv hfresh

theorem sound_disconnect (edgeId : String) : SoundRequest (disconnectEdgeById edgeId) db := by
  unfold disconnectEdgeById
  refine sound_read fun _ _ _ => ?_
  split
  · trivial
  split
  · exact sound_check fun _ _ _ _ => sound_write fun _ _ inv _ => keeps_deleteEdge inv edgeId
  · exact sound_write fun _ _ inv _ => keeps_deleteEdge inv edgeId

theorem sound_move (nodeId newOrgId : String) (sameRemote : Bool) :
    SoundRequest (moveNodeToOrganization nodeId newOrgId sameRemote) db := by
  unfold moveNodeToOrganization
  refine sound_check fun db₁ _ inv₁ hnon => ?_
  refine sound_check fun db₂ hchange₂ inv₂ horg => ?_
  refine sound_read fun db₃ hchange₃ inv₃ => ?_
  split
  · trivial
  rename_i e rest hmemberships
  split
  · trivial
  split
  · trivial
  refine sound_write fun db₄ hchange₄ inv₄ _ => ?_
  have hdrawn := hchange₄.drawn (hchange₃.drawn (drawn_of_isOrganization inv₂ horg))
  refine keeps_moveEdge inv₄ (hchange₄.memberships ?_) hdrawn
  obtain ⟨hedge, hsource, hrelation, htarget⟩ :=
    mem_membershipsOf.mp (hmemberships ▸ List.mem_cons_self : e ∈ db₃.membershipsOf nodeId)
  refine (inv₃.member e hedge).mpr ⟨hrelation, ?_, htarget⟩
  -- the node has kept the type that the first check saw
  obtain ⟨n, hn, rfl, hne⟩ := mem_of_nonOrganization inv₁ hnon
  have htype := typeOf_of_drawn inv₃ (hchange₃.drawn (hchange₂.drawn (inv₁.drawn hn)))
    (hsource ▸ (inv₃.keys e hedge).1)
  rw [Db.nonOrganization, hsource, htype]
  simpa using hne

theorem sound_purge (nodeId : String) (allowed : Bool) :
    SoundRequest (purgeNode nodeId allowed) db := by
  unfold purgeNode
  refine sound_read fun _ _ _ => ?_
  split
  · trivial
  split
  · trivial
  split
  · exact sound_check fun _ _ _ _ => sound_write fun _ _ inv horderly => keeps_purge inv horderly
  · exact sound_write fun _ _ inv horderly => keeps_purge inv horderly

theorem sound_request (c : Call) (db : Db) (_ : Invariant db) : SoundRequest (request c) db := by
  cases c with
  | create type organizationId fits id edgeId => exact sound_create type organizationId fits id edgeId
  | connect source target relation allowed id => exact sound_connect source target relation allowed id
  | disconnect edgeId => exact sound_disconnect edgeId
  | move nodeId newOrgId sameRemote => exact sound_move nodeId newOrgId sameRemote
  | purge nodeId allowed => exact sound_purge nodeId allowed

/-- A statement that changes nodes or edges is the last one, and ends with success. -/
def Clean : Request → Prop
  | .done _ => True
  | .statement s next => ∀ db,
      (perform s db = db ∧ Clean (next db)) ∨ next db = .done .succeeded

theorem clean_write (s : Statement) : Clean (write s) := by
  intro db
  unfold perform
  cases hattempt : attempt s db with
  | none => exact .inl ⟨rfl, trivial⟩
  | some db' => exact .inr (by simp [hattempt])

theorem clean_read (h : ∀ db, Clean (next db)) : Clean (.statement .read next) :=
  fun db => .inl ⟨rfl, h db⟩

theorem clean_check {P : Db → Bool} {next : Request} (h : Clean next) : Clean (check P next) := by
  refine clean_read fun db => ?_
  split
  · exact h
  · trivial

theorem clean_request (c : Call) : Clean (request c) := by
  cases c with
  | create type organizationId fits id edgeId =>
    change Clean (createNodeInternal type organizationId fits id edgeId)
    unfold createNodeInternal
    split
    · split
      · exact clean_write _
      · trivial
    cases organizationId with
    | none => trivial
    | some organizationId =>
      refine clean_check ?_
      split
      · exact clean_write _
      · trivial
  | connect source target relation allowed id =>
    change Clean (connect source target relation allowed id)
    unfold connect
    refine clean_read fun _ => ?_
    split
    · trivial
    refine clean_read fun _ => ?_
    split
    · trivial
    split
    · trivial
    refine clean_read fun _ => ?_
    split
    · trivial
    split
    · trivial
    refine clean_read fun _ => ?_
    split
    · trivial
    exact clean_write _
  | disconnect edgeId =>
    change Clean (disconnectEdgeById edgeId)
    unfold disconnectEdgeById
    refine clean_read fun _ => ?_
    split
    · trivial
    split
    · exact clean_check (clean_write _)
    · exact clean_write _
  | move nodeId newOrgId sameRemote =>
    change Clean (moveNodeToOrganization nodeId newOrgId sameRemote)
    unfold moveNodeToOrganization
    refine clean_check (clean_check (clean_read fun _ => ?_))
    split
    · trivial
    split
    · trivial
    split
    · trivial
    exact clean_write _
  | purge nodeId allowed =>
    change Clean (purgeNode nodeId allowed)
    unfold purgeNode
    refine clean_read fun _ => ?_
    split
    · trivial
    split
    · trivial
    split
    · exact clean_check (clean_write _)
    · exact clean_write _

theorem clean_pool {start : Pool Statement Db Outcome} (hstart : ∀ p ∈ start.programs, Clean p)
    (run : Run step (Completes Orderly) start acts pool) : ∀ p ∈ pool.programs, Clean p := by
  refine run.inv (fun pool => ∀ p ∈ pool.programs, Clean p) hstart ?_
  intro s a t hclean hcompletes hstep p hp
  cases a with
  | call c =>
    cases hstep
    rcases List.mem_append.mp hp with hold | hnew
    · exact hclean p hold
    · rw [List.mem_singleton.mp hnew]
      exact clean_request c
  | stop i result => exact hcompletes.elim
  | next i =>
    simp only [Library.Interleaving.step] at hstep
    split at hstep <;> cases hstep
    rename_i statement next hprogram
    rcases List.mem_or_eq_of_mem_set hp with hold | rfl
    · exact hclean p hold
    · rcases hclean _ (List.mem_of_getElem? hprogram) s.state with ⟨-, hnext⟩ | hdone
      · exact hnext
      · rw [hdone]
        trivial

/-- In every state of a run from tables that satisfy the invariant, each node that is no
organization belongs to exactly one, and only a request that succeeds changes nodes or edges. -/
theorem one_organization (start : Invariant db)
    (run : Run step (Completes Orderly) ⟨db, []⟩ acts pool) :
    OneOrganization pool.state ∧ ∀ i pool', step pool (.next i) = some pool' →
      pool'.state = pool.state ∨ pool'.programs[i]? = some (.done .succeeded) := by
  have sound := ((SoundPool.start start).run stable_true sound_request run).1
  refine ⟨sound.state.one, fun i pool' hstep => ?_⟩
  have hclean := clean_pool (by simp) run
  simp only [Library.Interleaving.step] at hstep
  split at hstep <;> cases hstep
  rename_i statement next hprogram
  obtain ⟨hlt, -⟩ := List.getElem?_eq_some_iff.mp hprogram
  rcases hclean _ (List.mem_of_getElem? hprogram) pool.state with ⟨hsame, -⟩ | hdone
  · exact .inl hsame
  · exact .inr (by rw [← hdone]; exact List.getElem?_set_self hlt)

theorem invariant_empty : Invariant {} := by
  constructor <;> simp [OneOrganization]

/-- Two organizations; two projects of the first, of which one moves to the second while the
first organization is up for a purge. -/
def movedProject : List (Action Call Outcome) :=
  [.call (.create .organization none true "a" ""), .next 0,
    .call (.create .organization none true "b" ""), .next 1,
    .call (.create .project (some "a") true "p" "pa"), .next 2, .next 2,
    .call (.create .project (some "a") true "q" "qa"), .next 3, .next 3,
    .call (.move "p" "b" true), .call (.purge "a" true), .next 4, .next 5, .next 4, .next 5,
    .next 4, .next 4]

theorem one_organization_moved :
    ∃ pool, exec step ⟨{}, []⟩ movedProject = some pool ∧
      pool.state.edges = [⟨"pa", "p", "b", .belongsTo⟩, ⟨"qa", "q", "a", .belongsTo⟩] ∧
        pool.results.length = 6 ∧ OneOrganization pool.state := by
  have hfinal : (exec step ⟨{}, []⟩ movedProject).map
      (fun pool => (pool.state.edges, pool.results.length)) =
      some ([⟨"pa", "p", "b", .belongsTo⟩, ⟨"qa", "q", "a", .belongsTo⟩], 6) := by
    decide +kernel
  obtain ⟨pool, hpool, hfacts⟩ := Option.map_eq_some_iff.mp hfinal
  simp only [Prod.mk.injEq] at hfacts
  exact ⟨pool, hpool, hfacts.1, hfacts.2,
    (one_organization invariant_empty (Run.of_exec hpool (by decide +kernel))).1⟩

/-- An organization is purged; a project is created in it between the look at its children and
the batch. -/
def purgedUnderneath : List (Action Call Outcome) :=
  [.call (.create .organization none true "a" ""), .next 0,
    .call (.purge "a" true), .next 1, .next 1,
    .call (.create .project (some "a") true "p" "pa"), .next 2, .next 2, .next 1]

theorem purgedUnderneath_orphans :
    ∃ pool, Run step (Completes fun _ _ => True) ⟨{}, []⟩ purgedUnderneath pool ∧
      pool.results = [.succeeded, .succeeded, .succeeded] ∧ ¬ OneOrganization pool.state := by
  have hfinal : (exec step ⟨{}, []⟩ purgedUnderneath).map
      (fun pool => (pool.results, pool.state.nodes, pool.state.membershipsOf "p")) =
      some ([.succeeded, .succeeded, .succeeded], [⟨"p", .project⟩], []) := by
    decide +kernel
  obtain ⟨pool, hpool, hfacts⟩ := Option.map_eq_some_iff.mp hfinal
  simp only [Prod.mk.injEq] at hfacts
  obtain ⟨hresults, hnodes, hmemberships⟩ := hfacts
  refine ⟨pool, Run.of_exec hpool (by decide +kernel), hresults, fun one => ?_⟩
  obtain ⟨e, he⟩ := one ⟨"p", .project⟩ (by rw [hnodes]; exact List.mem_singleton_self _) (by simp)
  rw [hmemberships] at he
  cases he

end Portuni.Organizations
