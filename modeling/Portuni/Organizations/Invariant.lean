import Mathlib.Data.List.Nodup
import Portuni.Library.RelyGuarantee

/-!
Nodes and edges with the organization triggers and the foreign keys, and the statements of the
operations that create, connect, disconnect, move and purge.
-/

namespace Portuni.Organizations

open Library.Interleaving

inductive NodeType where
  | organization
  | project
  | process
  | area
  | principle
deriving DecidableEq

inductive EdgeRelation where
  | relatedTo
  | belongsTo
  | applies
  | informedBy
deriving DecidableEq

structure Node where
  id : String
  type : NodeType
deriving DecidableEq

structure Edge where
  id : String
  source : String
  target : String
  relation : EdgeRelation
deriving DecidableEq

structure Db where
  nodes : List Node := []
  edges : List Edge := []
  /-- The nodes that were ever inserted; no statement reads them. -/
  drawn : List Node := []
  memberships : List String := []

inductive Statement where
  | read
  | createNode (node : Node) (edge : Option Edge)
  | insertEdge (edge : Edge)
  | deleteEdge (id : String)
  | moveEdge (id target : String)
  | purge (id : String)

namespace Db

variable (db : Db)

def typeOf (id : String) : Option NodeType := (db.nodes.find? (·.id = id)).map Node.type

def nonOrganization (id : String) : Bool := (db.typeOf id).any (· ≠ .organization)

def isOrganization (id : String) : Bool := db.typeOf id = some .organization

def membershipsOf (source : String) : List Edge :=
  db.edges.filter fun e => e.source = source ∧ e.relation = .belongsTo ∧ db.isOrganization e.target

def sameEdge (source target : String) (relation : EdgeRelation) : Option Edge :=
  db.edges.find? fun e => e.source = source ∧ e.target = target ∧ e.relation = relation

def preventMultiParentOrg (new : Edge) : Bool :=
  new.relation = .belongsTo ∧ db.nonOrganization new.source ∧ db.isOrganization new.target ∧
    db.membershipsOf new.source ≠ []

def preventOrphanOnEdgeDelete (old : Edge) : Bool :=
  old.relation = .belongsTo ∧ db.nonOrganization old.source ∧ db.isOrganization old.target ∧
    (db.membershipsOf old.source).length ≤ 1

/-- The foreign keys of an edge, its check, and its unique index beside the edges that stay. -/
def edgeFits (e : Edge) : Bool :=
  (db.typeOf e.source).isSome ∧ (db.typeOf e.target).isSome ∧ e.source ≠ e.target ∧
    ∀ e' ∈ db.edges, e'.id ≠ e.id →
      (e'.source, e'.target, e'.relation) ≠ (e.source, e.target, e.relation)

def insertEdge (e : Edge) : Option Db :=
  if db.preventMultiParentOrg e || !db.edgeFits e then none
  else
    some { db with
      edges := db.edges ++ [e]
      memberships :=
        if e.relation = .belongsTo ∧ db.nonOrganization e.source ∧ db.isOrganization e.target then
          db.memberships ++ [e.id]
        else db.memberships }

def insertNode (node : Node) : Db :=
  { db with nodes := db.nodes ++ [node], drawn := db.drawn ++ [node] }

/-- The edges of a node that is gone are gone: the trigger finds no type and stays quiet. -/
def purge (id : String) : Db :=
  { db with
    nodes := db.nodes.filter (·.id ≠ id)
    edges := db.edges.filter fun e => e.source ≠ id ∧ e.target ≠ id }

def moveEdge (id target : String) : Option Db :=
  match db.edges.find? (·.id = id) with
  | none => some db
  | some e =>
    if db.edgeFits { e with target := target } then
      some { db with
        edges := db.edges.map fun e => if e.id = id then { e with target := target } else e }
    else none

def deleteEdge (id : String) : Option Db :=
  if db.edges.any fun e => e.id = id && db.preventOrphanOnEdgeDelete e then none
  else some { db with edges := db.edges.filter (·.id ≠ id) }

end Db

/-- `none` when a statement, or the batch, is aborted. -/
def attempt (s : Statement) (db : Db) : Option Db :=
  match s with
  | .read => some db
  | .createNode node none => some (db.insertNode node)
  | .createNode node (some edge) => (db.insertNode node).insertEdge edge
  | .insertEdge edge => db.insertEdge edge
  | .deleteEdge id => db.deleteEdge id
  | .moveEdge id target => db.moveEdge id target
  | .purge id => some (db.purge id)

def perform (s : Statement) (db : Db) : Db := (attempt s db).getD db

inductive Outcome where
  | succeeded
  | refused
deriving DecidableEq

abbrev Request := Program Statement Db Outcome

/-- A statement that writes; the request fails when it is aborted. -/
def write (s : Statement) : Request :=
  .statement s fun db => .done (if (attempt s db).isSome then .succeeded else .refused)

def check (P : Db → Bool) (next : Request) : Request :=
  .statement .read fun db => if P db then next else .done .refused

/-- `fits` stands for the checks of visibility, lifecycle state and health. -/
def createNodeInternal (type : NodeType) (organizationId : Option String) (fits : Bool)
    (id edgeId : String) : Request :=
  if type = .organization then
    if fits then write (.createNode ⟨id, type⟩ none) else .done .refused
  else
    match organizationId with
    | none => .done .refused
    | some organizationId =>
      check (·.isOrganization organizationId) <|
        if fits then
          write (.createNode ⟨id, type⟩ (some ⟨edgeId, id, organizationId, .belongsTo⟩))
        else .done .refused

/-- `allowed` stands for the guards of visibility and write scope. -/
def connect (source target : String) (relation : EdgeRelation) (allowed : Bool) (id : String) :
    Request :=
  .statement .read fun db =>
    match db.typeOf source with
    | none => .done .refused
    | some sourceType =>
      .statement .read fun db =>
        match db.typeOf target with
        | none => .done .refused
        | some targetType =>
          if !allowed then .done .refused
          else
            .statement .read fun db =>
              if relation = .belongsTo ∧ targetType = .organization ∧
                  sourceType ≠ .organization ∧ db.membershipsOf source ≠ [] then
                .done .refused
              else if source = target then .done .refused
              else
                .statement .read fun db =>
                  if (db.sameEdge source target relation).isSome then .done .succeeded
                  else write (.insertEdge ⟨id, source, target, relation⟩)

def disconnectEdgeById (edgeId : String) : Request :=
  .statement .read fun db =>
    match db.edges.find? (·.id = edgeId) with
    | none => .done .refused
    | some e =>
      if e.relation = .belongsTo ∧ db.nonOrganization e.source ∧ db.isOrganization e.target then
        check (fun db => decide (1 < (db.membershipsOf e.source).length))
          (write (.deleteEdge edgeId))
      else write (.deleteEdge edgeId)

/-- `sameRemote`: the files of the node stay on the remote that they are on. -/
def moveNodeToOrganization (nodeId newOrgId : String) (sameRemote : Bool) : Request :=
  check (·.nonOrganization nodeId) <|
    check (·.isOrganization newOrgId) <|
      .statement .read fun db =>
        match db.membershipsOf nodeId with
        | [] => .done .refused
        | e :: _ =>
          if e.target = newOrgId then .done .succeeded
          else if !sameRemote then .done .refused
          else write (.moveEdge e.id newOrgId)

def Db.hasChild (db : Db) (id : String) : Bool :=
  db.edges.any fun e => e.target = id && e.relation = .belongsTo && db.nonOrganization e.source

/-- The purge mode of `portuni_delete_node`. -/
def purgeNode (nodeId : String) (allowed : Bool) : Request :=
  .statement .read fun db =>
    match db.typeOf nodeId with
    | none => .done .refused
    | some type =>
      if !allowed then .done .refused
      else if type = .organization then
        check (fun db => !db.hasChild nodeId) (write (.purge nodeId))
      else write (.purge nodeId)

inductive Call where
  | create (type : NodeType) (organizationId : Option String) (fits : Bool) (id edgeId : String)
  | connect (source target : String) (relation : EdgeRelation) (allowed : Bool) (id : String)
  | disconnect (edgeId : String)
  | move (nodeId newOrgId : String) (sameRemote : Bool)
  | purge (nodeId : String) (allowed : Bool)

def request : Call → Request
  | .create type organizationId fits id edgeId =>
    createNodeInternal type organizationId fits id edgeId
  | .connect source target relation allowed id => connect source target relation allowed id
  | .disconnect edgeId => disconnectEdgeById edgeId
  | .move nodeId newOrgId sameRemote => moveNodeToOrganization nodeId newOrgId sameRemote
  | .purge nodeId allowed => purgeNode nodeId allowed

abbrev step : Pool Statement Db Outcome → Action Call Outcome → Option (Pool Statement Db Outcome) :=
  Library.Interleaving.step perform request

open Library.RelyGuarantee

namespace Db

def IsMember (db : Db) (e : Edge) : Prop :=
  e.relation = .belongsTo ∧ db.nonOrganization e.source = true ∧ db.isOrganization e.target = true

instance (db : Db) (e : Edge) : Decidable (db.IsMember e) := inferInstanceAs (Decidable (_ ∧ _))

end Db

def OneOrganization (db : Db) : Prop :=
  ∀ n ∈ db.nodes, n.type ≠ .organization → ∃ e, db.membershipsOf n.id = [e]

structure Invariant (db : Db) : Prop where
  nodeIds : (db.nodes.map Node.id).Nodup
  edgeIds : (db.edges.map Edge.id).Nodup
  drawnIds : (db.drawn.map Node.id).Nodup
  drawn : db.nodes ⊆ db.drawn
  keys : ∀ e ∈ db.edges, (db.typeOf e.source).isSome ∧ (db.typeOf e.target).isSome
  member : ∀ e ∈ db.edges, e.id ∈ db.memberships ↔ db.IsMember e
  one : OneOrganization db

structure Guarantee (db db' : Db) : Prop where
  drawn : db.drawn ⊆ db'.drawn
  memberships : db.memberships ⊆ db'.memberships

def FreshEdge (db : Db) (e : Edge) : Prop := e.id ∉ db.edges.map Edge.id ∧ e.id ∉ db.memberships

instance (db : Db) (e : Edge) : Decidable (FreshEdge db e) := inferInstanceAs (Decidable (_ ∧ _))

/-- The ids that are drawn have not been seen before, and an organization that is purged has no
child at that moment. -/
def Orderly (db : Db) : Statement → Prop
  | .createNode node edge => node.id ∉ db.drawn.map Node.id ∧ ∀ e ∈ edge, FreshEdge db e
  | .insertEdge e => FreshEdge db e
  | .purge id => db.isOrganization id = true → db.hasChild id = false
  | _ => True

instance (db : Db) (s : Statement) : Decidable (Orderly db s) := by
  cases s <;> unfold Orderly <;> infer_instance

variable {db db' : Db} {n : Node} {e e' : Edge} {id : String} {type : NodeType}

theorem stable {Post : Db → Outcome → Prop} (h : ∀ {db db' o}, Post db o → Post db' o) :
    Stable Guarantee Post where
  refl := fun _ => ⟨fun _ h => h, fun _ h => h⟩
  trans := fun h h' => ⟨List.Subset.trans h.drawn h'.drawn,
    List.Subset.trans h.memberships h'.memberships⟩
  post := fun _ hpost => h hpost

theorem typeOf_eq_some_iff (inv : Invariant db) :
    db.typeOf id = some type ↔ ⟨id, type⟩ ∈ db.nodes := by
  unfold Db.typeOf
  rw [Option.map_eq_some_iff]
  constructor
  · rintro ⟨n, hn, rfl⟩
    have hid : n.id = id := by simpa using List.find?_some hn
    subst hid
    exact List.mem_of_find?_eq_some hn
  · intro hmem
    cases hfind : db.nodes.find? fun n => decide (n.id = id) with
    | none => simpa using List.find?_eq_none.mp hfind _ hmem
    | some n =>
      have hid : n.id = id := by simpa using List.find?_some hfind
      refine ⟨n, rfl, ?_⟩
      rw [List.inj_on_of_nodup_map inv.nodeIds (List.mem_of_find?_eq_some hfind) hmem hid]

theorem drawn_of_isOrganization (inv : Invariant db) (h : db.isOrganization id = true) :
    ⟨id, .organization⟩ ∈ db.drawn :=
  inv.drawn ((typeOf_eq_some_iff inv).mp (by simpa [Db.isOrganization] using h))

theorem typeOf_of_drawn (inv : Invariant db) (hdrawn : ⟨id, type⟩ ∈ db.drawn)
    (h : (db.typeOf id).isSome) : db.typeOf id = some type := by
  obtain ⟨type', htype'⟩ := Option.isSome_iff_exists.mp h
  have hmem := inv.drawn ((typeOf_eq_some_iff inv).mp htype')
  have heq := List.inj_on_of_nodup_map inv.drawnIds hmem hdrawn rfl
  rw [htype', (Node.mk.inj heq).2]

theorem mem_membershipsOf {source : String} : e ∈ db.membershipsOf source ↔
    e ∈ db.edges ∧ e.source = source ∧ e.relation = .belongsTo ∧
      db.isOrganization e.target = true := by
  simp [Db.membershipsOf]

theorem nonOrganization_of_mem (inv : Invariant db) (hn : n ∈ db.nodes)
    (h : n.type ≠ .organization) : db.nonOrganization n.id = true := by
  rw [Db.nonOrganization, (typeOf_eq_some_iff inv).mpr hn]
  simpa using h

theorem mem_of_nonOrganization (inv : Invariant db) (h : db.nonOrganization id = true) :
    ∃ n ∈ db.nodes, n.id = id ∧ n.type ≠ .organization := by
  obtain ⟨type, htype, hne⟩ := (Option.any_eq_true _ _).mp h
  exact ⟨_, (typeOf_eq_some_iff inv).mp htype, rfl, by simpa using hne⟩

theorem membershipsOf_congr (hedges : db'.edges = db.edges)
    (htypes : ∀ e ∈ db.edges, db'.isOrganization e.target = db.isOrganization e.target)
    (source : String) : db'.membershipsOf source = db.membershipsOf source := by
  unfold Db.membershipsOf
  rw [hedges]
  refine List.filter_congr fun e he => ?_
  rw [htypes e he]

variable {db db' : Db} {n : Node} {e e' : Edge} {id : String} {type : NodeType}

theorem of_insertEdge (h : db.insertEdge e = some db') : db.preventMultiParentOrg e = false ∧
    db.edgeFits e = true ∧ db'.drawn = db.drawn ∧ db.memberships ⊆ db'.memberships := by
  unfold Db.insertEdge at h
  split at h <;> cases h
  rename_i hpass
  rw [Bool.or_eq_true, Bool.not_eq_true', not_or, Bool.not_eq_true, Bool.not_eq_false] at hpass
  refine ⟨hpass.1, hpass.2, rfl, ?_⟩
  dsimp only
  split
  · exact List.subset_append_left _ _
  · exact fun _ h => h

theorem invariant_insertEdge {db₀ : Db} (hfits : db₀.insertEdge e = some db')
    (nodeIds : (db₀.nodes.map Node.id).Nodup) (edgeIds : (db₀.edges.map Edge.id).Nodup)
    (drawnIds : (db₀.drawn.map Node.id).Nodup) (drawn : db₀.nodes ⊆ db₀.drawn)
    (keys : ∀ e ∈ db₀.edges, (db₀.typeOf e.source).isSome ∧ (db₀.typeOf e.target).isSome)
    (member : ∀ e ∈ db₀.edges, e.id ∈ db₀.memberships ↔ db₀.IsMember e) (hfresh : FreshEdge db₀ e)
    (one : ∀ n ∈ db₀.nodes, n.type ≠ .organization → ∃ e', (db₀.membershipsOf n.id ++
      if e.source = n.id ∧ e.relation = .belongsTo ∧ db₀.isOrganization e.target = true then [e]
      else []) = [e']) : Invariant db' := by
  have hfit := (of_insertEdge hfits).2.1
  simp only [Db.edgeFits, decide_eq_true_eq] at hfit
  unfold Db.insertEdge at hfits
  split at hfits <;> cases hfits
  refine ⟨nodeIds, ?_, drawnIds, drawn, ?_, ?_, ?_⟩
  · rw [List.map_append, List.map_singleton]
    refine List.nodup_append.mpr ⟨edgeIds, List.nodup_singleton _, ?_⟩
    intro id hid id' hid' heq
    rw [List.mem_singleton.mp hid'] at heq
    exact hfresh.1 (heq ▸ hid)
  · intro e' he'
    rcases List.mem_append.mp he' with hold | hnew
    · exact keys e' hold
    · obtain rfl := List.mem_singleton.mp hnew
      exact ⟨hfit.1, hfit.2.1⟩
  · intro e' he'
    change e'.id ∈ (if db₀.IsMember e then db₀.memberships ++ [e.id] else db₀.memberships) ↔
      db₀.IsMember e'
    rcases List.mem_append.mp he' with hold | hnew
    · have hne : e'.id ≠ e.id := fun heq => hfresh.1 (List.mem_map.mpr ⟨e', hold, heq⟩)
      rw [← member e' hold]
      split
      · simp [hne]
      · rfl
    · obtain rfl := List.mem_singleton.mp hnew
      split
      · rename_i hmember
        simp [hmember]
      · rename_i hmember
        simp [hmember, hfresh.2]
  · intro n hn hne
    obtain ⟨e', he'⟩ := one n hn hne
    refine ⟨e', Eq.trans ?_ he'⟩
    simp only [Db.membershipsOf, List.filter_append, List.filter_cons, List.filter_nil]
    congr 1
    simp [Db.isOrganization, Db.typeOf]

theorem keeps_insertEdge (inv : Invariant db) (hfresh : FreshEdge db e) :
    Invariant (perform (.insertEdge e) db) ∧ Guarantee db (perform (.insertEdge e) db) := by
  unfold perform attempt
  dsimp only
  cases hattempt : db.insertEdge e with
  | none => exact ⟨inv, fun _ h => h, fun _ h => h⟩
  | some db' =>
    refine ⟨invariant_insertEdge hattempt inv.nodeIds inv.edgeIds inv.drawnIds inv.drawn
      inv.keys inv.member hfresh ?_, ?_⟩
    · intro n hn hne
      obtain ⟨e', he'⟩ := inv.one n hn hne
      refine ⟨e', ?_⟩
      rw [he', if_neg, List.append_nil]
      rintro ⟨hsource, hrelation, htarget⟩
      have hblocked : db.preventMultiParentOrg e = true := by
        have hnon := nonOrganization_of_mem inv hn hne
        simp [Db.preventMultiParentOrg, hsource, hrelation, htarget, hnon, he']
      rw [(of_insertEdge hattempt).1] at hblocked
      cases hblocked
    · obtain ⟨-, -, hdrawn, hmemberships⟩ := of_insertEdge hattempt
      exact ⟨hdrawn ▸ fun _ h => h, hmemberships⟩

theorem typeOf_insertNode (h : (db.typeOf id).isSome) :
    (db.insertNode n).typeOf id = db.typeOf id := by
  unfold Db.typeOf at h ⊢
  rw [Option.isSome_map] at h
  simp only [Db.insertNode, List.find?_append]
  rw [Option.or_of_isSome h]

theorem isMember_insertNode (inv : Invariant db) (he : e ∈ db.edges) :
    (db.insertNode n).IsMember e ↔ db.IsMember e := by
  obtain ⟨hsource, htarget⟩ := inv.keys e he
  simp only [Db.IsMember, Db.nonOrganization, Db.isOrganization, typeOf_insertNode hsource,
    typeOf_insertNode htarget]

theorem membershipsOf_insertNode (inv : Invariant db) (source : String) :
    (db.insertNode n).membershipsOf source = db.membershipsOf source := by
  refine @membershipsOf_congr db (db.insertNode n) rfl (fun e he => ?_) source
  rw [Db.isOrganization, Db.isOrganization, typeOf_insertNode (inv.keys e he).2]

theorem keeps_createNode (inv : Invariant db) {edge : Option Edge}
    (hfresh : Orderly db (.createNode n edge))
    (hedge : n.type = .organization ∧ edge = none ∨ n.type ≠ .organization ∧ ∃ e,
      edge = some e ∧ e.source = n.id ∧ e.relation = .belongsTo ∧
        ⟨e.target, .organization⟩ ∈ db.drawn) :
    Invariant (perform (.createNode n edge) db) ∧
      Guarantee db (perform (.createNode n edge) db) := by
  obtain ⟨hid, hfreshEdge⟩ := hfresh
  have hnew : n.id ∉ db.nodes.map Node.id := fun hmem => by
    obtain ⟨n', hn', heq⟩ := List.mem_map.mp hmem
    exact hid (List.mem_map.mpr ⟨n', inv.drawn hn', heq⟩)
  have nodeIds : ((db.insertNode n).nodes.map Node.id).Nodup := by
    simpa [Db.insertNode, List.nodup_append] using ⟨inv.nodeIds, by simpa using hnew⟩
  have drawnIds : ((db.insertNode n).drawn.map Node.id).Nodup := by
    simpa [Db.insertNode, List.nodup_append] using ⟨inv.drawnIds, by simpa using hid⟩
  have drawn : (db.insertNode n).nodes ⊆ (db.insertNode n).drawn := by
    intro n' hn'
    rcases List.mem_append.mp hn' with hold | hself
    · exact List.mem_append_left _ (inv.drawn hold)
    · exact List.mem_append_right _ hself
  have keys : ∀ e ∈ db.edges, ((db.insertNode n).typeOf e.source).isSome ∧
      ((db.insertNode n).typeOf e.target).isSome := by
    intro e he
    obtain ⟨hsource, htarget⟩ := inv.keys e he
    rw [typeOf_insertNode hsource, typeOf_insertNode htarget]
    exact ⟨hsource, htarget⟩
  have member : ∀ e ∈ db.edges, e.id ∈ db.memberships ↔ (db.insertNode n).IsMember e :=
    fun e he => (inv.member e he).trans (isMember_insertNode inv he).symm
  have hguarantee : Guarantee db (db.insertNode n) :=
    ⟨List.subset_append_left _ _, fun _ h => h⟩
  have hmem : ∀ n' ∈ (db.insertNode n).nodes, n' ∈ db.nodes ∨ n' = n := by
    intro n' hn'
    simpa [Db.insertNode] using hn'
  rcases hedge with ⟨htype, rfl⟩ | ⟨htype, e, rfl, hsource, hrelation, htarget⟩
  · refine ⟨⟨nodeIds, inv.edgeIds, drawnIds, drawn, keys, member, ?_⟩, hguarantee⟩
    intro n' hn' hne
    rcases hmem n' hn' with hold | rfl
    · obtain ⟨e, he⟩ := inv.one n' hold hne
      exact ⟨e, (membershipsOf_insertNode inv n'.id).trans he⟩
    · exact absurd htype hne
  · unfold perform attempt
    dsimp only
    cases hattempt : (db.insertNode n).insertEdge e with
    | none => exact ⟨inv, fun _ h => h, fun _ h => h⟩
    | some db' =>
      refine ⟨invariant_insertEdge hattempt nodeIds inv.edgeIds drawnIds drawn keys member
        (hfreshEdge e rfl) ?_, ?_⟩
      · intro n' hn' hne
        rw [membershipsOf_insertNode inv]
        rcases hmem n' hn' with hold | rfl
        · obtain ⟨e', he'⟩ := inv.one n' hold hne
          refine ⟨e', ?_⟩
          rw [he', if_neg, List.append_nil]
          rintro ⟨heq, -⟩
          exact hnew (List.mem_map.mpr ⟨n', hold, heq.symm.trans hsource⟩)
        · refine ⟨e, ?_⟩
          have hnone : db.membershipsOf n'.id = [] := by
            refine List.eq_nil_iff_forall_not_mem.mpr fun e' he' => ?_
            obtain ⟨hedge', hsource', -⟩ := mem_membershipsOf.mp he'
            obtain ⟨type, htype'⟩ := Option.isSome_iff_exists.mp (inv.keys e' hedge').1
            rw [hsource', typeOf_eq_some_iff inv] at htype'
            exact hnew (List.mem_map.mpr ⟨_, htype', rfl⟩)
          have hfit := (of_insertEdge hattempt).2.1
          simp only [Db.edgeFits, decide_eq_true_eq] at hfit
          have horg : (db.insertNode n').isOrganization e.target = true := by
            have hmemTarget : ⟨e.target, .organization⟩ ∈ (db.insertNode n').drawn :=
              List.mem_append_left _ htarget
            obtain ⟨type, hfound⟩ := Option.isSome_iff_exists.mp hfit.2.1
            have hnode : (⟨e.target, type⟩ : Node) ∈ (db.insertNode n').nodes := by
              unfold Db.typeOf at hfound
              obtain ⟨found, hfind, rfl⟩ := Option.map_eq_some_iff.mp hfound
              have hfoundId : found.id = e.target := by simpa using List.find?_some hfind
              rw [← hfoundId]
              exact List.mem_of_find?_eq_some hfind
            have heq := List.inj_on_of_nodup_map drawnIds (drawn hnode) hmemTarget rfl
            rw [Db.isOrganization, hfound, (Node.mk.inj heq).2]
            simp
          rw [hnone, if_pos ⟨hsource, hrelation, horg⟩, List.nil_append]
      · obtain ⟨-, -, hdrawn, hmemberships⟩ := of_insertEdge hattempt
        refine ⟨?_, hmemberships⟩
        rw [Option.getD_some, hdrawn]
        exact hguarantee.drawn

variable {db db' : Db} {n : Node} {e e' : Edge} {id : String} {type : NodeType}

theorem eq_of_id (inv : Invariant db) (he : e ∈ db.edges) (he' : e' ∈ db.edges)
    (h : e.id = e'.id) : e = e' :=
  List.inj_on_of_nodup_map inv.edgeIds he he' h

theorem keeps_deleteEdge (inv : Invariant db) (edgeId : String) :
    Invariant (perform (.deleteEdge edgeId) db) ∧
      Guarantee db (perform (.deleteEdge edgeId) db) := by
  unfold perform attempt Db.deleteEdge
  dsimp only
  split
  · exact ⟨inv, fun _ h => h, fun _ h => h⟩
  rename_i hpass
  simp only [List.any_eq_true, Bool.and_eq_true, decide_eq_true_eq, not_exists, not_and] at hpass
  refine ⟨⟨inv.nodeIds, ?_, inv.drawnIds, inv.drawn, ?_, ?_, ?_⟩, fun _ h => h, fun _ h => h⟩
  · exact inv.edgeIds.sublist (List.Sublist.map _ List.filter_sublist)
  · exact fun e he => inv.keys e (List.mem_of_mem_filter he)
  · exact fun e he => inv.member e (List.mem_of_mem_filter he)
  · intro n hn hne
    obtain ⟨e, he⟩ := inv.one n hn hne
    obtain ⟨hedge, hsource, hrelation, htarget⟩ :=
      mem_membershipsOf.mp (he ▸ List.mem_singleton_self e : e ∈ db.membershipsOf n.id)
    have hkeep : e.id ≠ edgeId := by
      intro heq
      refine hpass e hedge heq ?_
      have hnon := nonOrganization_of_mem inv hn hne
      simp [Db.preventOrphanOnEdgeDelete, hrelation, hsource, hnon, htarget, he]
    refine ⟨e, Eq.trans ?_ (List.filter_eq_self.mpr fun a ha => ?_ :
      [e].filter (fun e' => e'.id ≠ edgeId) = [e])⟩
    · rw [← he]
      change List.filter _ (List.filter _ db.edges) = List.filter _ (List.filter _ db.edges)
      rw [List.filter_filter, List.filter_filter]
      exact List.filter_congr fun e' _ => Bool.and_comm _ _
    · rw [List.mem_singleton.mp ha]
      simpa using hkeep

theorem keeps_moveEdge (inv : Invariant db) {edgeId target : String}
    (hedge : edgeId ∈ db.memberships) (htarget : ⟨target, .organization⟩ ∈ db.drawn) :
    Invariant (perform (.moveEdge edgeId target) db) ∧
      Guarantee db (perform (.moveEdge edgeId target) db) := by
  unfold perform attempt Db.moveEdge
  dsimp only
  split
  · exact ⟨inv, fun _ h => h, fun _ h => h⟩
  rename_i e hfind
  split
  swap
  · exact ⟨inv, fun _ h => h, fun _ h => h⟩
  rename_i hfit
  have hid : e.id = edgeId := by simpa using List.find?_some hfind
  have he := List.mem_of_find?_eq_some hfind
  subst hid
  simp only [Db.edgeFits, decide_eq_true_eq] at hfit
  have hmember := (inv.member e he).mp hedge
  have horg : db.isOrganization target = true := by
    rw [Db.isOrganization, typeOf_of_drawn inv htarget hfit.2.1]
    simp
  let move : Edge → Edge := fun e' => if e'.id = e.id then { e' with target := target } else e'
  have hmove : ∀ e' ∈ db.edges, move e' = e' ∧ e'.id ≠ e.id ∨
      e' = e ∧ move e' = { e with target := target } := by
    intro e' he'
    by_cases heq : e'.id = e.id
    · obtain rfl := eq_of_id inv he' he heq
      exact .inr ⟨rfl, if_pos rfl⟩
    · exact .inl ⟨if_neg heq, heq⟩
  have hids : ∀ e', (move e').id = e'.id := by
    intro e'
    simp only [move]
    split <;> rfl
  refine ⟨⟨inv.nodeIds, ?_, inv.drawnIds, inv.drawn, ?_, ?_, ?_⟩, fun _ h => h, fun _ h => h⟩
  · have hsame : (db.edges.map move).map Edge.id = db.edges.map Edge.id := by
      rw [List.map_map]
      exact List.map_congr_left fun e' _ => hids e'
    exact hsame ▸ inv.edgeIds
  · intro e' he'
    obtain ⟨old, hold, rfl⟩ := List.mem_map.mp he'
    change (db.typeOf (move old).source).isSome ∧ (db.typeOf (move old).target).isSome
    rcases hmove old hold with ⟨hsame, -⟩ | ⟨-, hmoved⟩
    · rw [hsame]
      exact inv.keys old hold
    · rw [hmoved]
      exact ⟨hfit.1, hfit.2.1⟩
  · intro e' he'
    obtain ⟨old, hold, rfl⟩ := List.mem_map.mp he'
    change (move old).id ∈ db.memberships ↔ db.IsMember (move old)
    rcases hmove old hold with ⟨hsame, -⟩ | ⟨-, hmoved⟩
    · rw [hsame]
      exact inv.member old hold
    · rw [hmoved]
      exact iff_of_true hedge ⟨hmember.1, hmember.2.1, horg⟩
  · intro n hn hne
    obtain ⟨e', he'⟩ := inv.one n hn hne
    refine ⟨move e', ?_⟩
    change List.filter (fun e => decide (e.source = n.id ∧ e.relation = .belongsTo ∧
      db.isOrganization e.target = true)) (db.edges.map move) = [move e']
    rw [List.filter_map, ← List.map_singleton, ← he']
    congr 1
    refine List.filter_congr fun old hold => ?_
    rcases hmove old hold with ⟨hsame, -⟩ | ⟨rfl, hmoved⟩
    · rw [Function.comp_apply, hsame]
    · rw [Function.comp_apply, hmoved]
      simp [horg, hmember.2.2]

theorem typeOf_purge {purged : String} (h : id ≠ purged) :
    (db.purge purged).typeOf id = db.typeOf id := by
  unfold Db.typeOf Db.purge
  rw [List.find?_filter]
  congr 2
  funext n
  by_cases hid : n.id = id
  · simp [hid, h]
  · simp [hid]

theorem keeps_purge (inv : Invariant db) {purged : String}
    (horderly : db.isOrganization purged = true → db.hasChild purged = false) :
    Invariant (perform (.purge purged) db) ∧ Guarantee db (perform (.purge purged) db) := by
  have hstay : ∀ {e}, e ∈ (db.purge purged).edges → e ∈ db.edges ∧ e.source ≠ purged ∧
      e.target ≠ purged := by
    intro e he
    simpa [Db.purge] using he
  refine ⟨⟨?_, ?_, inv.drawnIds, ?_, ?_, ?_, ?_⟩, fun _ h => h, fun _ h => h⟩
  · exact inv.nodeIds.sublist (List.Sublist.map _ List.filter_sublist)
  · exact inv.edgeIds.sublist (List.Sublist.map _ List.filter_sublist)
  · exact fun n hn => inv.drawn (List.mem_of_mem_filter hn)
  · intro e he
    obtain ⟨hold, hsource, htarget⟩ := hstay he
    change ((db.purge purged).typeOf e.source).isSome ∧ ((db.purge purged).typeOf e.target).isSome
    rw [typeOf_purge hsource, typeOf_purge htarget]
    exact inv.keys e hold
  · intro e he
    obtain ⟨hold, hsource, htarget⟩ := hstay he
    change e.id ∈ db.memberships ↔ (db.purge purged).IsMember e
    rw [inv.member e hold]
    simp only [Db.IsMember, Db.nonOrganization, Db.isOrganization, typeOf_purge hsource,
      typeOf_purge htarget]
  · intro n hn hne
    have hnId : n.id ≠ purged := by simpa using List.of_mem_filter hn
    have hnOld := List.mem_of_mem_filter hn
    obtain ⟨e, he⟩ := inv.one n hnOld hne
    obtain ⟨hedge, hsource, hrelation, htarget⟩ :=
      mem_membershipsOf.mp (he ▸ List.mem_singleton_self e : e ∈ db.membershipsOf n.id)
    have hkeep : e.target ≠ purged := by
      rintro rfl
      have hchild := horderly htarget
      rw [Db.hasChild, List.any_eq_false] at hchild
      refine hchild e hedge ?_
      simp [hrelation, hsource, nonOrganization_of_mem inv hnOld hne]
    refine ⟨e, ?_⟩
    have hstays : [e].filter (fun e' => e'.source ≠ purged ∧ e'.target ≠ purged) = [e] := by
      simp [hsource, hnId, hkeep]
    rw [← hstays, ← he]
    change List.filter _ (List.filter _ db.edges) = List.filter _ (List.filter _ db.edges)
    rw [List.filter_filter, List.filter_filter]
    refine List.filter_congr fun e' _ => ?_
    by_cases hpurged : e'.source ≠ purged ∧ e'.target ≠ purged
    · simp [hpurged, Db.isOrganization, show (perform (.purge purged) db).typeOf e'.target =
        db.typeOf e'.target from typeOf_purge hpurged.2]
    · simp [hpurged]

end Portuni.Organizations
