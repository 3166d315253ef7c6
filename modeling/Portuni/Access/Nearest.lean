import Portuni.Access.Resolve

/-!
What the restrictions of a graph say about a node, whatever the order of the rows: the nearest
restricted node along the scoping edges decides.
-/

namespace Portuni.Access

open Library.Walks

variable {toLowerCase : String → String} {db db' : Db} {id : String} {n : NodeRow}
  {identity : GroupIdentityView} {chain : ResolvedChain}

structure Answer where
  visible : Bool
  restricted : Bool
  label : NodeVisibility

def Answer.unrestricted : Answer := ⟨true, false, .visible⟩

namespace Db

def ParentOf (db : Db) (id parent : String) : Prop := ⟨id, parent⟩ ∈ db.edges

def HasRows (db : Db) (id : String) : Prop := ∃ row ∈ db.access, row.nodeId = id

/-- The node has access rows, or is marked for a group or as private. -/
def restricted (db : Db) (id : String) : Bool :=
  db.nodes.any fun n => n.id = id && (n.visibility ≠ .team || db.access.any (·.nodeId = id))

end Db

/-- The principal of an access row is the user, or one of the user's groups. -/
def Grants (toLowerCase : String → String) (identity : GroupIdentityView) (e : AccessEntry) :
    Prop :=
  match e.kind with
  | .user => e.principal = identity.userId
  | .group => e.principal ∈ identity.groupIds ∨
      ∃ g ∈ identity.groups, toLowerCase g = toLowerCase e.principal

/-- An access row grants, or the node has none and is private to the user who created it. -/
def Admits (toLowerCase : String → String) (db : Db) (id : String) (identity : GroupIdentityView) :
    Prop :=
  (∃ row ∈ db.access, row.nodeId = id ∧ Grants toLowerCase identity row.entry) ∨
    (¬db.HasRows id ∧
      ∃ n ∈ db.nodes, n.id = id ∧ n.visibility = .private_ ∧ n.createdBy = identity.userId)

/-- Whoever is not admitted may ask: not at a node that only its creator sees. -/
def Asks (db : Db) (id : String) : Prop :=
  ∃ n ∈ db.nodes, n.id = id ∧ n.accessMode = .request ∧ (n.visibility ≠ .private_ ∨ db.HasRows id)

open Classical in
/-- The decision of a restricted node, by its own rows and never by those of another. -/
noncomputable def answerAt (toLowerCase : String → String) (db : Db) (id : String)
    (identity : GroupIdentityView) : Answer :=
  if identity.admin ∨ Admits toLowerCase db id identity then ⟨true, true, .visible⟩
  else if Asks db id then ⟨false, true, .request⟩
  else ⟨false, true, .hidden⟩

@[simp]
theorem answerAt_restricted : (answerAt toLowerCase db id identity).restricted = true := by
  unfold answerAt
  split
  · rfl
  · split <;> rfl

structure Db.WellFormed (db : Db) : Prop where
  nodup : (db.nodes.map NodeRow.id).Nodup
  source : ∀ e ∈ db.edges, ∃ n ∈ db.nodes, n.id = e.source

structure Shuffled (db db' : Db) : Prop where
  nodes : db.nodes.Perm db'.nodes
  edges : db.edges.Perm db'.edges
  access : db.access.Perm db'.access

namespace Shuffled

variable (h : Shuffled db db')

include h

theorem wellFormed (hdb : db.WellFormed) : db'.WellFormed where
  nodup := (h.nodes.map NodeRow.id).nodup_iff.mp hdb.nodup
  source e he := by
    obtain ⟨n, hn, hid⟩ := hdb.source e (h.edges.mem_iff.mpr he)
    exact ⟨n, h.nodes.mem_iff.mp hn, hid⟩

theorem parentOf : db'.ParentOf = db.ParentOf := by
  funext id parent
  exact propext h.edges.mem_iff.symm

theorem hasRows : db'.HasRows = db.HasRows := by
  funext id
  simp only [Db.HasRows, h.access.mem_iff]

theorem restricted : db'.restricted = db.restricted := by
  funext id
  have haccess : db'.access.any (·.nodeId = id) = db.access.any (·.nodeId = id) :=
    h.access.symm.any_eq
  simp only [Db.restricted, haccess]
  exact h.nodes.symm.any_eq

theorem answerAt : answerAt toLowerCase db' = answerAt toLowerCase db := by
  have hadmits : Admits toLowerCase db' = Admits toLowerCase db := by
    funext id identity
    simp only [Admits, h.hasRows, h.access.mem_iff, h.nodes.mem_iff]
  have hasks : Asks db' = Asks db := by
    funext id
    simp only [Asks, h.hasRows, h.nodes.mem_iff]
  funext id identity
  unfold Access.answerAt
  rw [hadmits, hasks]

end Shuffled

theorem mem_entriesOf {e : AccessEntry} :
    e ∈ db.entriesOf id ↔ ∃ row ∈ db.access, row.nodeId = id ∧ row.entry = e := by
  simp [Db.entriesOf, and_assoc]

theorem entriesOf_eq_nil_iff : db.entriesOf id = [] ↔ ¬db.HasRows id := by
  simp [Db.entriesOf, Db.HasRows]

theorem Db.WellFormed.node?_eq_some_iff (hdb : db.WellFormed) :
    db.node? id = some n ↔ n ∈ db.nodes ∧ n.id = id := by
  constructor
  · intro h
    exact ⟨List.mem_of_find?_eq_some h, by simpa using List.find?_some h⟩
  · rintro ⟨hn, rfl⟩
    obtain ⟨m, hm⟩ : ∃ m, db.node? n.id = some m := by
      rw [← Option.isSome_iff_exists, Db.node?, List.find?_isSome]
      exact ⟨n, hn, by simp⟩
    have hmid : m.id = n.id := by simpa using List.find?_some hm
    rw [hm, List.inj_on_of_nodup_map hdb.nodup (List.mem_of_find?_eq_some hm) hn hmid]

theorem Db.WellFormed.parent?_eq_none (hdb : db.WellFormed) (h : db.node? id = none) :
    db.parent? id = none := by
  rw [Db.parent?, Option.map_eq_none_iff, List.find?_eq_none]
  intro e he hsource
  obtain ⟨n, hn, hid⟩ := hdb.source e he
  rw [hdb.node?_eq_some_iff.mpr ⟨hn, hid.trans (by simpa using hsource)⟩] at h
  contradiction

theorem level?_of_none (h : db.node? id = none) : db.level? id = none := by
  simp [Db.level?, Db.levelRows, h, authoritative]

theorem level?_of_rows (hnode : db.node? id = some n) (hrows : db.HasRows id) :
    db.level? id = some ⟨some id, some (db.entriesOf id), some n.accessMode, false⟩ := by
  have hentries : db.entriesOf id ≠ [] := fun h => entriesOf_eq_nil_iff.mp h hrows
  obtain ⟨e, rest, heq⟩ := List.exists_cons_of_ne_nil hentries
  simp [Db.level?, Db.levelRows, hnode, heq, authoritative, List.filterMap_map]

theorem level?_of_not_rows (hnode : db.node? id = some n) (hrows : ¬db.HasRows id) :
    db.level? id = match n.visibility with
      | .group => some ⟨some id, some [], some n.accessMode, false⟩
      | .private_ => some ⟨some id, some [⟨.user, n.createdBy⟩], none, true⟩
      | .team => none := by
  have hentries : db.entriesOf id = [] := entriesOf_eq_nil_iff.mpr hrows
  cases hvisibility : n.visibility <;>
    simp [Db.level?, Db.levelRows, hnode, hentries, authoritative, hvisibility]

theorem Db.WellFormed.restricted_iff (hdb : db.WellFormed) :
    db.restricted id = true ↔
      ∃ n, db.node? id = some n ∧ (n.visibility ≠ .team ∨ db.HasRows id) := by
  simp only [Db.restricted, List.any_eq_true, Bool.and_eq_true, Bool.or_eq_true,
    decide_eq_true_eq, hdb.node?_eq_some_iff, and_assoc]
  rfl

theorem Db.WellFormed.restricts_eq (hdb : db.WellFormed) : db.restricts = db.restricted := by
  funext id
  rw [Bool.eq_iff_iff, hdb.restricted_iff, Db.restricts]
  cases hnode : db.node? id with
  | none => simp [level?_of_none hnode]
  | some n =>
    by_cases hrows : db.HasRows id
    · simp [level?_of_rows hnode hrows, hrows]
    · rw [level?_of_not_rows hnode hrows]
      cases hvisibility : n.visibility <;> simp [hrows, hvisibility]

def answerOf (toLowerCase : String → String) (chain : ResolvedChain) (identity : GroupIdentityView) :
    Answer where
  visible := canSeeNode toLowerCase identity chain.entries
  restricted := chain.entries.isSome
  label :=
    if canSeeNode toLowerCase identity chain.entries then .visible
    else if chain.mode = some .request then .request
    else .hidden

variable {entries : List AccessEntry}

theorem canSeeNode_some_iff :
    canSeeNode toLowerCase identity (some entries) = true ↔
      identity.admin ∨ ∃ e ∈ entries, Grants toLowerCase identity e := by
  simp only [canSeeNode, Bool.or_eq_true, List.any_eq_true]
  refine or_congr Iff.rfl (exists_congr fun e => and_congr Iff.rfl ?_)
  unfold Grants
  cases e.kind <;> simp

theorem answerOf_eq {P Q : Prop} [Decidable P] [Decidable Q]
    (hentries : chain.entries = some entries)
    (hsee : canSeeNode toLowerCase identity (some entries) = true ↔ P)
    (hasks : chain.mode = some .request ↔ Q) :
    answerOf toLowerCase chain identity =
      if P then ⟨true, true, .visible⟩ else if Q then ⟨false, true, .request⟩
      else ⟨false, true, .hidden⟩ := by
  simp only [answerOf, hentries, Option.isSome_some, hsee, hasks]
  by_cases hP : P
  · simp [hP, hsee.mpr hP]
  · have hsee := Bool.eq_false_iff.mpr fun h => hP (hsee.mp h)
    by_cases hQ : Q <;> simp [hP, hQ, hsee]

theorem Db.WellFormed.answerOf_level? (hdb : db.WellFormed) (h : db.level? id = some chain) :
    answerOf toLowerCase chain = answerAt toLowerCase db id := by
  classical
  funext identity
  obtain ⟨n, hnode⟩ : ∃ n, db.node? id = some n := by
    cases hnode : db.node? id with
    | none => simp [level?_of_none hnode] at h
    | some n => exact ⟨n, rfl⟩
  have hunique : ∀ {P : NodeRow → Prop}, (∃ m ∈ db.nodes, m.id = id ∧ P m) ↔ P n := by
    intro P
    constructor
    · rintro ⟨m, hm, hid, hP⟩
      have := hdb.node?_eq_some_iff.mpr ⟨hm, hid⟩
      rw [hnode, Option.some.injEq] at this
      exact this ▸ hP
    · intro hP
      obtain ⟨hn, hid⟩ := hdb.node?_eq_some_iff.mp hnode
      exact ⟨n, hn, hid, hP⟩
  by_cases hrows : db.HasRows id
  · rw [level?_of_rows hnode hrows, Option.some.injEq] at h
    subst h
    refine answerOf_eq rfl ?_ ?_
    · rw [canSeeNode_some_iff]
      simp [Admits, hrows, mem_entriesOf, and_assoc]
    · simp [Asks, hunique, hrows]
  · rw [level?_of_not_rows hnode hrows] at h
    have hnot : ∀ {P : AccessEntry → Prop},
        ¬∃ row ∈ db.access, row.nodeId = id ∧ P row.entry := by
      rintro P ⟨row, hrow, hid, -⟩
      exact hrows ⟨row, hrow, hid⟩
    cases hvisibility : n.visibility with
    | team => simp [hvisibility] at h
    | group =>
      simp only [hvisibility, Option.some.injEq] at h
      subst h
      refine answerOf_eq rfl ?_ ?_
      · rw [canSeeNode_some_iff]
        simp [Admits, hnot, hunique, hvisibility]
      · simp [Asks, hunique, hvisibility]
    | private_ =>
      simp only [hvisibility, Option.some.injEq] at h
      subst h
      refine answerOf_eq rfl ?_ ?_
      · rw [canSeeNode_some_iff]
        simp only [Admits, hnot, hrows, not_false_iff, hunique, hvisibility, true_and, false_or]
        simp [Grants]
      · simp [Asks, hunique, hvisibility, hrows]

variable {toLowerCase : String → String} {db db' : Db} {id : String} {nodeIds : List String}
  {identity : GroupIdentityView} {answer : Answer}

/-- The four functions, asked about a list, give this answer for one of its nodes. -/
structure Says (toLowerCase : String → String) (db : Db) (identity : GroupIdentityView)
    (nodeIds : List String) (id : String) (answer : Answer) : Prop where
  chain : canSeeNode toLowerCase identity (resolveAccessChain db id).entries = answer.visible
  filter : id ∈ filterVisibleNodeIds toLowerCase db identity nodeIds ↔ answer.visible = true
  restriction : ∀ r, (id, r) ∈ visibilityWithRestriction toLowerCase db identity nodeIds ↔
    r = ⟨answer.visible, answer.restricted⟩
  classification : ∀ c, (id, c) ∈ classifyNodeVisibility toLowerCase db identity nodeIds ↔
    c = answer.label

theorem mem_resolveAccessChains (hid : id ∈ nodeIds) {chain : ResolvedChain} :
    (id, chain) ∈ resolveAccessChains db nodeIds ↔ chain = resolveAccessChain db id := by
  have heq : resolveChainRows (loadChains db nodeIds id) = resolveAccessChain db id := by
    rw [resolveAccessChain, loadChains_eq hid, loadChains_eq (List.mem_singleton_self id)]
  simp [resolveAccessChains, List.mem_map, List.mem_eraseDups, hid, heq, eq_comm]

theorem mem_map_resolveAccessChains (hid : id ∈ nodeIds) {β : Type} {f : ResolvedChain → β}
    {b : β} : (id, b) ∈ (resolveAccessChains db nodeIds).map (fun p => (p.1, f p.2)) ↔
      b = f (resolveAccessChain db id) := by
  rw [List.mem_map]
  constructor
  · rintro ⟨⟨id', chain⟩, hmem, heq⟩
    obtain ⟨rfl, rfl⟩ := Prod.mk.injEq .. ▸ heq
    rw [(mem_resolveAccessChains hid).mp hmem]
  · rintro rfl
    exact ⟨(id, _), (mem_resolveAccessChains hid).mpr rfl, rfl⟩

theorem canSeeNode_of_admin (hadmin : identity.admin = true) (entries : Option (List AccessEntry)) :
    canSeeNode toLowerCase identity entries = true := by
  cases entries <;> simp [canSeeNode, hadmin]

theorem says_iff (hid : id ∈ nodeIds) :
    Says toLowerCase db identity nodeIds id answer ↔
      answerOf toLowerCase (resolveAccessChain db id) identity = answer := by
  have hfilter : id ∈ filterVisibleNodeIds toLowerCase db identity nodeIds ↔
      canSeeNode toLowerCase identity (resolveAccessChain db id).entries = true := by
    unfold filterVisibleNodeIds
    split
    · rename_i hadmin
      simp [canSeeNode_of_admin hadmin, hid]
    · rw [List.mem_map]
      constructor
      · rintro ⟨⟨id', chain⟩, hmem, rfl⟩
        obtain ⟨hmem, hsee⟩ := List.mem_filter.mp hmem
        rwa [(mem_resolveAccessChains hid).mp hmem] at hsee
      · intro hsee
        exact ⟨(id, _), List.mem_filter.mpr ⟨(mem_resolveAccessChains hid).mpr rfl, hsee⟩, rfl⟩
  have hrestriction : ∀ r, (id, r) ∈ visibilityWithRestriction toLowerCase db identity nodeIds ↔
      r = ⟨canSeeNode toLowerCase identity (resolveAccessChain db id).entries,
        (resolveAccessChain db id).entries.isSome⟩ := by
    intro r
    have hvisible : (identity.admin ||
        canSeeNode toLowerCase identity (resolveAccessChain db id).entries) =
          canSeeNode toLowerCase identity (resolveAccessChain db id).entries := by
      cases hadmin : identity.admin with
      | true => simp [canSeeNode_of_admin hadmin]
      | false => rfl
    rw [visibilityWithRestriction, mem_map_resolveAccessChains hid (f := fun chain =>
      (⟨identity.admin || canSeeNode toLowerCase identity chain.entries,
        chain.entries.isSome⟩ : Restriction)), hvisible]
  have hclass : ∀ c, (id, c) ∈ classifyNodeVisibility toLowerCase db identity nodeIds ↔
      c = (answerOf toLowerCase (resolveAccessChain db id) identity).label := by
    intro c
    unfold classifyNodeVisibility
    split
    · rename_i hadmin
      simp [answerOf, canSeeNode_of_admin hadmin, hid, eq_comm]
    · exact mem_map_resolveAccessChains hid
        (f := fun chain => (answerOf toLowerCase chain identity).label)
  constructor
  · rintro ⟨hchain, -, hr, hc⟩
    obtain ⟨visible, restricted, label⟩ := answer
    have hboth := (hr _).mp ((hrestriction _).mpr rfl)
    have hlabel := (hc _).mp ((hclass _).mpr rfl)
    rw [Restriction.mk.injEq] at hboth
    rw [Answer.mk.injEq]
    exact ⟨hboth.1, hboth.2, hlabel⟩
  · rintro rfl
    exact ⟨rfl, hfilter, hrestriction, hclass⟩

/-- For every order of the rows, every identity and every list, the four functions give the
answer of the nearest restricted node, and say that a node is unrestricted only if there is
none. -/
def Faithful (toLowerCase : String → String) (db : Db) (id : String) : Prop :=
  ∃ answer : Option (GroupIdentityView → Answer),
    Decided db.ParentOf db.restricted (answerAt toLowerCase db) id answer ∧
      ∀ db' identity nodeIds, Shuffled db db' → id ∈ nodeIds →
        Says toLowerCase db' identity nodeIds id
          ((answer.map fun f => f identity).getD .unrestricted)

/-- Nothing restricts the node at any distance, or every way up along its scoping edges ends in
time at a restricted node, and all the restricted nodes that are met first decide alike. -/
def Db.Settled (toLowerCase : String → String) (db : Db) (id : String) : Prop :=
  Library.Walks.Settled db.ParentOf db.restricted (answerAt toLowerCase db) maxChain id

def OrderOf (db : Db) (next : String → Option String) : Prop :=
  ∃ db', Shuffled db db' ∧ next = db'.parent?

theorem chooses_of_orderOf {next : String → Option String} (h : OrderOf db next) :
    Chooses db.ParentOf next := by
  obtain ⟨db', hshuffled, rfl⟩ := h
  rw [← hshuffled.parentOf]
  refine ⟨fun x y hnext => ?_, fun x y hedge => ?_⟩
  · obtain ⟨e, he, rfl⟩ := Option.map_eq_some_iff.mp hnext
    have hsource : e.source = x := by simpa using List.find?_some he
    exact hsource ▸ List.mem_of_find?_eq_some he
  · have hsome : (db'.edges.find? (·.source = x)).isSome = true :=
      List.find?_isSome.mpr ⟨_, hedge, by simp⟩
    obtain ⟨e, he⟩ := Option.isSome_iff_exists.mp hsome
    exact ⟨e.target, by simp [Db.parent?, he]⟩

theorem exists_orderOf_minimal {κ : Type} [LinearOrder κ] (rank : String → κ) :
    ∃ next, OrderOf db next ∧ Minimal db.ParentOf rank next := by
  obtain ⟨edges, hperm, hmin⟩ :=
    exists_perm_find?_minimal ParentEdge.source (fun e => rank e.target) db.edges
  refine ⟨_, ⟨{ db with edges := edges }, ⟨.rfl, hperm.symm, .rfl⟩, rfl⟩, fun x y hedge => ?_⟩
  obtain ⟨e, he, hrank⟩ := hmin _ hedge
  exact ⟨e.target, by simpa [Db.parent?] using ⟨e, he, rfl⟩, hrank⟩

theorem answerOf_resolveAccessChain (hdb : db.WellFormed) (hshuffled : Shuffled db db') :
    answerOf toLowerCase (resolveAccessChain db' id) identity =
      (((first db.restricted db'.parent? maxChain id).map (answerAt toLowerCase db)).map
        fun f => f identity).getD .unrestricted := by
  have hdb' := hshuffled.wellFormed hdb
  rw [resolveAccessChain, loadChains_eq (List.mem_singleton_self id),
    resolveChainRows_chainRows hdb'.parent?_eq_none, hdb'.restricts_eq, hshuffled.restricted]
  cases hfirst : first db.restricted db'.parent? maxChain id with
  | none => simp [answerOf, canSeeNode, Answer.unrestricted]
  | some z =>
    obtain ⟨hz, -⟩ := nearest_of_first (chooses_of_orderOf ⟨db', hshuffled, rfl⟩) hfirst
    rw [← hshuffled.restricted, ← hdb'.restricts_eq, Db.restricts] at hz
    obtain ⟨chain, hchain⟩ := Option.isSome_iff_exists.mp hz
    simp [hchain, hdb'.answerOf_level? hchain, hshuffled.answerAt]

theorem eq_of_getD_eq {a b : Option (GroupIdentityView → Answer)}
    (ha : ∀ f, a = some f → ∀ identity, (f identity).restricted = true)
    (hb : ∀ f, b = some f → ∀ identity, (f identity).restricted = true)
    (h : ∀ identity, (a.map fun f => f identity).getD .unrestricted =
      (b.map fun f => f identity).getD .unrestricted) : a = b := by
  have hne : ∀ {f : GroupIdentityView → Answer}, (∀ identity, (f identity).restricted = true) →
      ∀ identity, f identity ≠ .unrestricted := by
    intro f hf identity heq
    simpa [heq, Answer.unrestricted] using hf identity
  cases a with
  | none =>
    cases b with
    | none => rfl
    | some g => exact absurd (h ⟨false, [], [], ""⟩).symm (hne (hb g rfl) _)
  | some f =>
    cases b with
    | none => exact absurd (h ⟨false, [], [], ""⟩) (hne (ha f rfl) _)
    | some g => exact congrArg some (funext h)

variable {f : GroupIdentityView → Answer}

theorem restricted_of_map {a : Option String} (h : a.map (answerAt toLowerCase db) = some f) :
    (f identity).restricted = true := by
  obtain ⟨z, -, rfl⟩ := Option.map_eq_some_iff.mp h
  exact answerAt_restricted

theorem restricted_of_decided
    (h : Decided db.ParentOf db.restricted (answerAt toLowerCase db) id (some f)) :
    (f identity).restricted = true := by
  obtain ⟨z, -, rfl⟩ := h
  exact answerAt_restricted

theorem faithful_iff_settled (hdb : db.WellFormed) :
    Faithful toLowerCase db id ↔ db.Settled toLowerCase id := by
  have hsettled := @settled_iff _ _ db.ParentOf db.restricted id maxChain (OrderOf db)
    (answerAt toLowerCase db) (fun _ h => chooses_of_orderOf h)
    (fun rank => exists_orderOf_minimal rank)
  rw [Db.Settled, ← hsettled]
  refine exists_congr fun a => and_congr_right fun hdecided => ?_
  constructor
  · rintro hanswer next ⟨db', hshuffled, rfl⟩
    refine eq_of_getD_eq (fun f hf identity => restricted_of_map hf)
      (fun f hf identity => restricted_of_decided (hf ▸ hdecided)) fun identity => ?_
    rw [← answerOf_resolveAccessChain hdb hshuffled]
    exact (says_iff (List.mem_singleton_self id)).mp
      (hanswer db' identity [id] hshuffled (List.mem_singleton_self id))
  · intro hfirst db' identity nodeIds hshuffled hid
    rw [says_iff hid, answerOf_resolveAccessChain hdb hshuffled,
      hfirst db'.parent? ⟨db', hshuffled, rfl⟩]

end Portuni.Access
