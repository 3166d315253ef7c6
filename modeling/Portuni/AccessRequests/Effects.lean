import Portuni.Access.Nearest
import Portuni.Library.RelyGuarantee

/-!
Access requests over the access rows, and the statements of the three writers: a decision on a
request, the replacement of a node's access rows, and the update of a node.
-/

namespace Portuni.AccessRequests

open Access Library.Interleaving

inductive Status where
  | pending
  | approved
  | denied
deriving DecidableEq

structure AccessRequest where
  id : String
  nodeId : String
  userId : String
  status : Status
deriving DecidableEq

inductive Decision where
  | approve
  | deny
deriving DecidableEq

def Decision.status : Decision → Status
  | .approve => .approved
  | .deny => .denied

/-- A request was marked approved, with its grant in force or none needed. -/
structure Stamp where
  requestId : String
  inForce : Bool

structure State where
  db : Db
  requests : List AccessRequest
  users : List String
  /-- The requests whose decision has changed access; no statement reads them. -/
  grants : List String := []
  /-- No statement reads these either. -/
  stamps : List Stamp := []

/-- The user row that an approval inserts, and the node that it lands on. -/
structure Grant where
  grantedOn : String
  userId : String
deriving DecidableEq

inductive Statement where
  | read
  | resolve (requestId : String) (grant : Option Grant) (decision : Decision)
  | setAccess (nodeId : String) (entries : List AccessEntry) (visibility : Visibility)
      (accessMode : AccessMode)
  | updateNode (nodeId : String) (visibility : Option Visibility)
deriving DecidableEq

def updateRow (rows : List NodeRow) (id : String) (f : NodeRow → NodeRow) : List NodeRow :=
  rows.map fun row => if row.id = id then f row else row

def insertGrant (db : Db) (grant : Grant) : Db where
  nodes := updateRow db.nodes grant.grantedOn fun row => { row with visibility := .group }
  edges := db.edges
  access :=
    if ⟨grant.grantedOn, ⟨.user, grant.userId⟩⟩ ∈ db.access then db.access
    else db.access ++ [⟨grant.grantedOn, ⟨.user, grant.userId⟩⟩]

def setAccess (db : Db) (nodeId : String) (entries : List AccessEntry) (visibility : Visibility)
    (accessMode : AccessMode) : Db where
  nodes := updateRow db.nodes nodeId fun row =>
    { row with visibility := visibility, accessMode := accessMode }
  edges := db.edges
  access := db.access.filter (·.nodeId ≠ nodeId) ++ entries.map fun e => ⟨nodeId, e⟩

def setVisibility (db : Db) (nodeId : String) (visibility : Visibility) : Db :=
  { db with nodes := updateRow db.nodes nodeId fun row => { row with visibility := visibility } }

def inForce (db : Db) (userId nodeId : String) : Bool :=
  match (resolveAccessChain db nodeId).entries with
  | none => true
  | some entries => entries.contains ⟨.user, userId⟩

def resolveStatus (requestId : String) (decision : Decision) (r : AccessRequest) : AccessRequest :=
  if r.id = requestId ∧ r.status = .pending then { r with status := decision.status } else r

def resolve (s : State) (requestId : String) (grant : Option Grant) (decision : Decision) : State :=
  let db := (grant.map (insertGrant s.db)).getD s.db
  { s with
    db := db
    requests := s.requests.map (resolveStatus requestId decision)
    grants := if db = s.db then s.grants else s.grants ++ [requestId]
    stamps := s.stamps ++ (s.requests.filter fun r =>
      r.id = requestId ∧ r.status = .pending ∧ decision = .approve).map fun r =>
        ⟨r.id, inForce db r.userId r.nodeId⟩ }

def perform (statement : Statement) (s : State) : State :=
  match statement with
  | .read => s
  | .resolve requestId grant decision => resolve s requestId grant decision
  | .setAccess nodeId entries visibility accessMode =>
    { s with db := setAccess s.db nodeId entries visibility accessMode }
  | .updateNode nodeId visibility =>
    { s with db := (visibility.map (setVisibility s.db nodeId)).getD s.db }

inductive Outcome where
  | notFound
  | alreadyResolved (status : Status)
  | resolved
  | refused
  | written

abbrev Request := Program Statement State Outcome

def write (s : Statement) (outcome : Outcome) : Request := .statement s fun _ => .done outcome

variable (toLowerCase : String → String)

def grantOf (chain : ResolvedChain) (userId : String) : Option Grant :=
  match chain.entries, chain.sourceNodeId with
  | some _, some source => if source = "" then none else some ⟨source, userId⟩
  | _, _ => none

def resolveAccessRequest (identity : GroupIdentityView) (requestId : String) (decision : Decision) :
    Request :=
  .statement .read fun s =>
    match s.requests.find? (·.id = requestId) with
    | none => .done .notFound
    | some request =>
      .statement .read fun s =>
        if !nodeVisibleTo toLowerCase s.db identity request.nodeId then .done .notFound
        else if request.status ≠ .pending then .done (.alreadyResolved request.status)
        else
          match decision with
          | .approve =>
            .statement .read fun s =>
              write (.resolve requestId
                (grantOf (resolveAccessChain s.db request.nodeId) request.userId) .approve)
                .resolved
          | .deny => write (.resolve requestId none .deny) .resolved

structure PutAccessBody where
  entries : List AccessEntry
  mode : Option AccessMode
  visibility : Option Visibility

structure AccessState where
  entries : List AccessEntry
  visibility : Visibility
  accessMode : AccessMode

def effectiveAccess (body : PutAccessBody) (oldVisibility : Visibility) : Option AccessState :=
  match body.visibility with
  | some .group =>
    if body.entries = [] then none
    else some ⟨body.entries, .group, body.mode.getD .private_⟩
  | some .team => some ⟨[], .team, .private_⟩
  | some .private_ => some ⟨[], .private_, .private_⟩
  | none =>
    if body.entries = [] then
      some ⟨[], if oldVisibility = .group then .team else oldVisibility, .private_⟩
    else some ⟨body.entries, .group, body.mode.getD .private_⟩

def userIds (entries : List AccessEntry) : List String :=
  (entries.filter (·.kind = .user)).map AccessEntry.principal

/-- `mayWrite` is the answer of `guardRestNodeWrite`. -/
def putNodeAccess (identity : GroupIdentityView) (nodeId : String) (mayWrite : Bool)
    (body : PutAccessBody) : Request :=
  .statement .read fun s =>
    match s.db.node? nodeId with
    | none => .done .notFound
    | some nodeRow =>
      .statement .read fun s =>
        if !nodeVisibleTo toLowerCase s.db identity nodeId then .done .notFound
        else if !mayWrite then .done .refused
        else
          match effectiveAccess body nodeRow.visibility with
          | none => .done .refused
          | some access =>
            if ¬access.entries.Nodup then .done .refused
            else if userIds access.entries = [] then
              write (.setAccess nodeId access.entries access.visibility access.accessMode) .written
            else
              .statement .read fun s =>
                if (userIds access.entries).all s.users.contains then
                  write (.setAccess nodeId access.entries access.visibility access.accessMode)
                    .written
                else .done .refused

/-- `fits` stands for the checks of lifecycle state and health. -/
def updateNodeInternal (nodeId : String) (visibility : Option Visibility) (fits : Bool) : Request :=
  let update : Request :=
    .statement .read fun s =>
      match s.db.node? nodeId with
      | none => .done .refused
      | some _ => if fits then write (.updateNode nodeId visibility) .written else .done .refused
  match visibility with
  | some .group => .done .refused
  | some _ =>
    .statement .read fun s =>
      if s.db.entriesOf nodeId ≠ [] then .done .refused else update
  | none => update

inductive Call where
  | resolve (identity : GroupIdentityView) (requestId : String) (decision : Decision)
  | putAccess (identity : GroupIdentityView) (nodeId : String) (mayWrite : Bool)
      (body : PutAccessBody)
  | updateNode (nodeId : String) (visibility : Option Visibility) (fits : Bool)

def request : Call → Request
  | .resolve identity requestId decision =>
    resolveAccessRequest toLowerCase identity requestId decision
  | .putAccess identity nodeId mayWrite body =>
    putNodeAccess toLowerCase identity nodeId mayWrite body
  | .updateNode nodeId visibility fits => updateNodeInternal nodeId visibility fits

abbrev step :
    Pool Statement State Outcome → Action Call Outcome → Option (Pool Statement State Outcome) :=
  Library.Interleaving.step perform (request toLowerCase)

open Library.Walks

variable {toLowerCase : String → String} {db db' : Db} {id nodeId source userId : String}
  {n : NodeRow} {identity : GroupIdentityView} {entries : List AccessEntry}
  {visibility : Visibility} {accessMode : AccessMode}

/-- A node has access rows if and only if its visibility is `group`. -/
def RowsIffGroup (db : Db) : Prop := ∀ n ∈ db.nodes, db.HasRows n.id ↔ n.visibility = .group

section

variable {rows : List NodeRow} {f : NodeRow → NodeRow}

theorem mem_updateRow : n ∈ updateRow rows id f ↔
    ∃ m ∈ rows, (if m.id = id then f m else m) = n :=
  List.mem_map

theorem ids_updateRow (hf : ∀ m, (f m).id = m.id) :
    (updateRow rows id f).map NodeRow.id = rows.map NodeRow.id := by
  rw [updateRow, List.map_map]
  refine List.map_congr_left fun m _ => ?_
  simp only [Function.comp_apply]
  split
  · exact hf m
  · rfl

theorem wellFormed_of_ids (hdb : db.WellFormed)
    (hids : db'.nodes.map NodeRow.id = db.nodes.map NodeRow.id) (hedges : db'.edges = db.edges) :
    db'.WellFormed where
  nodup := hids ▸ hdb.nodup
  source e he := by
    have hsource := hdb.source e (hedges ▸ he)
    rw [← List.mem_map, ← hids, List.mem_map] at hsource
    exact hsource

theorem rowsIffGroup_updateRow (h : RowsIffGroup db)
    (hnodes : db'.nodes = updateRow db.nodes nodeId f) (hf : ∀ m, (f m).id = m.id)
    (hother : ∀ id, id ≠ nodeId → (db'.HasRows id ↔ db.HasRows id))
    (hself : ∀ m ∈ db.nodes, m.id = nodeId → (db'.HasRows nodeId ↔ (f m).visibility = .group)) :
    RowsIffGroup db' := by
  intro n hn
  rw [hnodes, mem_updateRow] at hn
  obtain ⟨m, hm, rfl⟩ := hn
  split
  · rename_i hid
    rw [hf, hid]
    exact hself m hm hid
  · rename_i hid
    rw [hother m.id hid]
    exact h m hm

end

theorem hasRows_setAccess_self :
    (setAccess db nodeId entries visibility accessMode).HasRows nodeId ↔ entries ≠ [] := by
  constructor
  · rintro ⟨row, hrow, hid⟩ rfl
    rw [setAccess, List.map_nil, List.append_nil, List.mem_filter, decide_eq_true_eq] at hrow
    exact hrow.2 hid
  · intro hentries
    obtain ⟨e, he⟩ := List.exists_mem_of_ne_nil entries hentries
    exact ⟨⟨nodeId, e⟩, List.mem_append_right _ (List.mem_map_of_mem he), rfl⟩

theorem hasRows_setAccess_of_ne (hid : id ≠ nodeId) :
    (setAccess db nodeId entries visibility accessMode).HasRows id ↔ db.HasRows id := by
  constructor
  · rintro ⟨row, hrow, rfl⟩
    obtain hrow | hrow := List.mem_append.mp hrow
    · exact ⟨row, (List.mem_filter.mp hrow).1, rfl⟩
    · obtain ⟨e, -, rfl⟩ := List.mem_map.mp hrow
      exact absurd rfl hid
  · rintro ⟨row, hrow, rfl⟩
    exact ⟨row, List.mem_append_left _ (List.mem_filter.mpr ⟨hrow, by simpa using hid⟩), rfl⟩

theorem rowsIffGroup_setAccess (h : RowsIffGroup db) (hfits : entries ≠ [] ↔ visibility = .group) :
    RowsIffGroup (setAccess db nodeId entries visibility accessMode) :=
  rowsIffGroup_updateRow h rfl (fun _ => rfl) (fun _ hid => hasRows_setAccess_of_ne hid)
    fun _ _ _ => hasRows_setAccess_self.trans hfits

theorem rowsIffGroup_setVisibility (h : RowsIffGroup db) (hrows : ¬db.HasRows nodeId)
    (hvisibility : visibility ≠ .group) : RowsIffGroup (setVisibility db nodeId visibility) :=
  rowsIffGroup_updateRow h rfl (fun _ => rfl) (fun _ _ => Iff.rfl)
    fun _ _ _ => ⟨fun hnew => absurd hnew hrows, fun hgroup => absurd hgroup hvisibility⟩

section

variable {grant : Grant}

theorem mem_access_insertGrant {row : AccessRow} :
    row ∈ (insertGrant db grant).access ↔
      row ∈ db.access ∨ row = ⟨grant.grantedOn, ⟨.user, grant.userId⟩⟩ := by
  rw [insertGrant]
  split
  · rename_i hmem
    constructor
    · exact .inl
    · rintro (h | rfl)
      · exact h
      · exact hmem
  · rw [List.mem_append, List.mem_singleton]

theorem hasRows_insertGrant_self : (insertGrant db grant).HasRows grant.grantedOn :=
  ⟨_, mem_access_insertGrant.mpr (.inr rfl), rfl⟩

theorem hasRows_insertGrant_of_ne (hid : id ≠ grant.grantedOn) :
    (insertGrant db grant).HasRows id ↔ db.HasRows id := by
  constructor
  · rintro ⟨row, hrow, rfl⟩
    obtain hrow | rfl := mem_access_insertGrant.mp hrow
    · exact ⟨row, hrow, rfl⟩
    · exact absurd rfl hid
  · rintro ⟨row, hrow, hrowid⟩
    exact ⟨row, mem_access_insertGrant.mpr (.inl hrow), hrowid⟩

theorem rowsIffGroup_insertGrant (h : RowsIffGroup db) : RowsIffGroup (insertGrant db grant) :=
  rowsIffGroup_updateRow h rfl (fun _ => rfl) (fun _ hid => hasRows_insertGrant_of_ne hid)
    fun _ _ _ => ⟨fun _ => rfl, fun _ => hasRows_insertGrant_self⟩

theorem wellFormed_insertGrant (hdb : db.WellFormed) : (insertGrant db grant).WellFormed :=
  wellFormed_of_ids hdb (ids_updateRow fun _ => rfl) rfl

theorem nodes_insertGrant (h : RowsIffGroup db) (hrows : db.HasRows grant.grantedOn) :
    (insertGrant db grant).nodes = db.nodes := by
  have hsame : ∀ m ∈ db.nodes,
      (if m.id = grant.grantedOn then { m with visibility := .group } else m) = m := by
    intro m hm
    split
    · rename_i hid
      rw [← (h m hm).mp (hid ▸ hrows)]
    · rfl
  exact (List.map_congr_left hsame).trans (List.map_id _)

theorem mem_entriesOf_insertGrant {e : AccessEntry} :
    e ∈ (insertGrant db grant).entriesOf id ↔
      e ∈ db.entriesOf id ∨ (id = grant.grantedOn ∧ e = ⟨.user, grant.userId⟩) := by
  rw [mem_entriesOf, mem_entriesOf]
  constructor
  · rintro ⟨row, hrow, rfl, rfl⟩
    obtain hrow | rfl := mem_access_insertGrant.mp hrow
    · exact .inl ⟨row, hrow, rfl, rfl⟩
    · exact .inr ⟨rfl, rfl⟩
  · rintro (⟨row, hrow, hid, he⟩ | ⟨rfl, rfl⟩)
    · exact ⟨row, mem_access_insertGrant.mpr (.inl hrow), hid, he⟩
    · exact ⟨_, mem_access_insertGrant.mpr (.inr rfl), rfl, rfl⟩

theorem entriesOf_insertGrant_of_ne (hid : id ≠ grant.grantedOn) :
    (insertGrant db grant).entriesOf id = db.entriesOf id := by
  rw [Db.entriesOf, Db.entriesOf, insertGrant]
  split
  · rfl
  · rw [List.filter_append, List.filter_cons_of_neg (by simpa using Ne.symm hid), List.filter_nil,
      List.append_nil]

end

theorem resolveAccessChain_eq (hdb : db.WellFormed) :
    resolveAccessChain db id =
      ((first db.restricts db.parent? maxChain id).bind db.level?).getD {} := by
  rw [resolveAccessChain, loadChains_eq (List.mem_singleton_self id),
    resolveChainRows_chainRows hdb.parent?_eq_none]

theorem first_of_sourceNodeId (hdb : db.WellFormed) (h : RowsIffGroup db)
    (hsource : (resolveAccessChain db id).sourceNodeId = some source)
    (hown : (resolveAccessChain db id).implicitPrivate = false) :
    first db.restricts db.parent? maxChain id = some source ∧ db.HasRows source := by
  rw [resolveAccessChain_eq hdb] at hsource hown
  cases hfirst : first db.restricts db.parent? maxChain id with
  | none => simp [hfirst] at hsource
  | some z =>
    cases hnode : db.node? z with
    | none => simp [hfirst, level?_of_none hnode] at hsource
    | some n =>
      obtain ⟨hn, rfl⟩ := hdb.node?_eq_some_iff.mp hnode
      by_cases hrows : db.HasRows n.id
      · simp only [hfirst, Option.bind_some, level?_of_rows hnode hrows, Option.getD_some,
          Option.some.injEq] at hsource
        exact ⟨congrArg some hsource, hsource ▸ hrows⟩
      · have hgroup : n.visibility ≠ .group := fun hgroup => hrows ((h n hn).mpr hgroup)
        rw [hfirst, Option.bind_some, level?_of_not_rows hnode hrows] at hsource hown
        cases hvisibility : n.visibility with
        | group => exact absurd hvisibility hgroup
        | team => simp [hvisibility] at hsource
        | private_ => simp [hvisibility] at hown

theorem inForce_of_unrestricted (h : (resolveAccessChain db id).entries = none) :
    inForce db userId id = true := by
  simp [inForce, h]

theorem nodeVisibleTo_of_inForce (h : inForce db userId id = true)
    (huser : identity.userId = userId) : nodeVisibleTo toLowerCase db identity id = true := by
  unfold inForce at h
  rw [nodeVisibleTo]
  split at h
  · rename_i hnone
    rw [hnone]
    rfl
  · rename_i entries hentries
    rw [hentries, canSeeNode_some_iff]
    exact .inr ⟨_, List.contains_iff_mem.mp h, huser.symm⟩

structure Granting (db : Db) (grant : Grant) : Prop where
  wellFormed : db.WellFormed
  rowsIffGroup : RowsIffGroup db
  rows : db.HasRows grant.grantedOn

namespace Granting

variable {grant : Grant}

variable (h : Granting db grant)

include h

theorem node?_eq : (insertGrant db grant).node? id = db.node? id := by
  rw [Db.node?, nodes_insertGrant h.rowsIffGroup h.rows, Db.node?]

theorem level?_of_ne (hid : id ≠ grant.grantedOn) :
    (insertGrant db grant).level? id = db.level? id := by
  simp only [Db.level?, Db.levelRows, h.node?_eq, entriesOf_insertGrant_of_ne hid]

theorem restricts_eq : (insertGrant db grant).restricts = db.restricts := by
  funext id
  by_cases hid : id = grant.grantedOn
  · subst hid
    cases hnode : db.node? grant.grantedOn with
    | none =>
      rw [Db.restricts, Db.restricts, level?_of_none hnode, level?_of_none (h.node?_eq.trans hnode)]
    | some n =>
      rw [Db.restricts, Db.restricts, level?_of_rows hnode h.rows,
        level?_of_rows (h.node?_eq.trans hnode) hasRows_insertGrant_self]
      rfl
  · rw [Db.restricts, Db.restricts, h.level?_of_ne hid]

theorem first_eq :
    first (insertGrant db grant).restricts (insertGrant db grant).parent? =
      first db.restricts db.parent? := by
  rw [h.restricts_eq]
  rfl

theorem insertGrant : Granting (insertGrant db grant) grant where
  wellFormed := wellFormed_insertGrant h.wellFormed
  rowsIffGroup := rowsIffGroup_insertGrant h.rowsIffGroup
  rows := hasRows_insertGrant_self

theorem chain_eq_of_ne (hfirst : first db.restricts db.parent? maxChain id ≠ some grant.grantedOn) :
    resolveAccessChain (AccessRequests.insertGrant db grant) id = resolveAccessChain db id := by
  rw [resolveAccessChain_eq h.wellFormed, resolveAccessChain_eq h.insertGrant.wellFormed,
    h.first_eq]
  cases hz : first db.restricts db.parent? maxChain id with
  | none => rfl
  | some z =>
    have hne : z ≠ grant.grantedOn := fun heq => hfirst (heq ▸ hz)
    simp only [Option.bind_some, h.level?_of_ne hne]

theorem entries_of_first (hfirst : first db.restricts db.parent? maxChain id = some
      grant.grantedOn) :
    (resolveAccessChain db id).entries = some (db.entriesOf grant.grantedOn) := by
  have hstops := stops_of_first hfirst
  rw [resolveAccessChain_eq h.wellFormed, hfirst, Option.bind_some]
  cases hnode : db.node? grant.grantedOn with
  | none => simp [Db.restricts, level?_of_none hnode] at hstops
  | some n =>
    rw [level?_of_rows hnode h.rows]
    rfl

theorem nodeVisibleTo_insertGrant (hvisible : nodeVisibleTo toLowerCase db identity id = true) :
    nodeVisibleTo toLowerCase (AccessRequests.insertGrant db grant) identity id = true := by
  by_cases hfirst : first db.restricts db.parent? maxChain id = some grant.grantedOn
  · rw [nodeVisibleTo, h.entries_of_first hfirst, canSeeNode_some_iff] at hvisible
    rw [nodeVisibleTo, h.insertGrant.entries_of_first (h.first_eq ▸ hfirst), canSeeNode_some_iff]
    obtain hadmin | ⟨e, he, hgrants⟩ := hvisible
    · exact .inl hadmin
    · exact .inr ⟨e, mem_entriesOf_insertGrant.mpr (.inl he), hgrants⟩
  · rwa [nodeVisibleTo, h.chain_eq_of_ne hfirst]

theorem inForce_insertGrant
    (hfirst : first db.restricts db.parent? maxChain id = some grant.grantedOn) :
    inForce (AccessRequests.insertGrant db grant) grant.userId id = true := by
  rw [inForce, h.insertGrant.entries_of_first (h.first_eq ▸ hfirst)]
  exact List.contains_iff_mem.mpr (mem_entriesOf_insertGrant.mpr (.inr ⟨rfl, rfl⟩))

end Granting

end Portuni.AccessRequests
