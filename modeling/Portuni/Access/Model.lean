import Mathlib.Data.List.Sort

/-!
Access rows and scoping edges of nodes, the chain query over them, and the four decisions that
are made from a resolved chain.
-/

namespace Portuni.Access

inductive Visibility where
  | team
  | group
  | private_
deriving DecidableEq

inductive AccessMode where
  | private_
  | request
deriving DecidableEq

inductive Kind where
  | group
  | user
deriving DecidableEq

structure AccessEntry where
  kind : Kind
  principal : String
deriving DecidableEq

structure NodeRow where
  id : String
  visibility : Visibility
  accessMode : AccessMode
  createdBy : String
deriving DecidableEq

structure ParentEdge where
  source : String
  target : String
deriving DecidableEq

structure AccessRow where
  nodeId : String
  entry : AccessEntry
deriving DecidableEq

structure Db where
  nodes : List NodeRow := []
  edges : List ParentEdge := []
  access : List AccessRow := []
deriving DecidableEq

structure GroupIdentityView where
  admin : Bool
  groups : List String
  groupIds : List String
  userId : String

def maxChain : ℕ := 50

structure ChainRow where
  nodeId : String
  depth : ℕ
  visibility : Visibility
  accessMode : AccessMode
  createdBy : String
  entry : Option AccessEntry

namespace Db

variable (db : Db)

def node? (id : String) : Option NodeRow := db.nodes.find? (·.id = id)

def parent? (id : String) : Option String :=
  (db.edges.find? (·.source = id)).map ParentEdge.target

def entriesOf (id : String) : List AccessEntry :=
  (db.access.filter (·.nodeId = id)).map AccessRow.entry

def levelRows (depth : ℕ) (id : String) : List ChainRow :=
  match db.node? id with
  | none => []
  | some n =>
    match db.entriesOf id with
    | [] => [⟨id, depth, n.visibility, n.accessMode, n.createdBy, none⟩]
    | entries => entries.map fun e =>
      ⟨id, depth, n.visibility, n.accessMode, n.createdBy, some e⟩

def chainRows : ℕ → ℕ → String → List ChainRow
  | 0, depth, id => db.levelRows depth id
  | steps + 1, depth, id =>
    db.levelRows depth id ++
      match db.parent? id with
      | none => []
      | some parent => chainRows steps (depth + 1) parent

def chainQuery (batch : List String) : List (String × ChainRow) :=
  (batch.insertionSort (· ≤ ·)).flatMap fun root =>
    (db.chainRows maxChain 0 root).map fun row => (root, row)

end Db

def chainBatch : ℕ := 500

/-- Batches of at most `size`, in order; `fuel` bounds their number. -/
def batches {α : Type} (size : ℕ) : ℕ → List α → List (List α)
  | 0, _ => []
  | fuel + 1, xs => if xs.isEmpty then [] else xs.take size :: batches size fuel (xs.drop size)

def loadChains (db : Db) (nodeIds : List String) (id : String) : List ChainRow :=
  ((batches chainBatch nodeIds.length nodeIds.eraseDups).flatMap db.chainQuery).filterMap
    fun p => if p.1 = id then some p.2 else none

structure ResolvedChain where
  sourceNodeId : Option String := none
  entries : Option (List AccessEntry) := none
  mode : Option AccessMode := none
  implicitPrivate : Bool := false

def authoritative (bucket : List ChainRow) : Option ResolvedChain :=
  match bucket with
  | [] => none
  | row :: _ =>
    if bucket.filterMap ChainRow.entry ≠ [] then
      some ⟨some row.nodeId, some (bucket.filterMap ChainRow.entry), some row.accessMode, false⟩
    else
      match row.visibility with
      | .group => some ⟨some row.nodeId, some [], some row.accessMode, false⟩
      | .private_ => some ⟨some row.nodeId, some [⟨.user, row.createdBy⟩], none, true⟩
      | .team => none

def depths (rows : List ChainRow) : List ℕ :=
  (List.range ((rows.map ChainRow.depth).foldl max 0 + 1)).filter fun depth =>
    rows.any (·.depth = depth)

def resolveChainRows (rows : List ChainRow) : ResolvedChain :=
  match rows with
  | [] => {}
  | row :: _ =>
    if row.depth ≠ 0 then {}
    else
      ((depths rows).findSome? fun depth => authoritative (rows.filter (·.depth = depth))).getD {}

/-- The map of the distinct ids, in the order of their first occurrence. -/
def resolveAccessChains (db : Db) (nodeIds : List String) : List (String × ResolvedChain) :=
  nodeIds.eraseDups.map fun id => (id, resolveChainRows (loadChains db nodeIds id))

def resolveAccessChain (db : Db) (nodeId : String) : ResolvedChain :=
  resolveChainRows (loadChains db [nodeId] nodeId)

-- `String.prototype.toLowerCase`
variable (toLowerCase : String → String)

def canSeeNode (identity : GroupIdentityView) (entries : Option (List AccessEntry)) : Bool :=
  match entries with
  | none => true
  | some entries =>
    identity.admin || entries.any fun e =>
      match e.kind with
      | .user => e.principal = identity.userId
      | .group => identity.groupIds.contains e.principal ||
          identity.groups.any fun g => toLowerCase g = toLowerCase e.principal

def nodeVisibleTo (db : Db) (identity : GroupIdentityView) (nodeId : String) : Bool :=
  canSeeNode toLowerCase identity (resolveAccessChain db nodeId).entries

def filterVisibleNodeIds (db : Db) (identity : GroupIdentityView) (nodeIds : List String) :
    List String :=
  if identity.admin then nodeIds.eraseDups
  else
    ((resolveAccessChains db nodeIds).filter fun p =>
      canSeeNode toLowerCase identity p.2.entries).map Prod.fst

structure Restriction where
  visible : Bool
  restricted : Bool
deriving DecidableEq

def visibilityWithRestriction (db : Db) (identity : GroupIdentityView) (nodeIds : List String) :
    List (String × Restriction) :=
  (resolveAccessChains db nodeIds).map fun p =>
    (p.1, {
      visible := identity.admin || canSeeNode toLowerCase identity p.2.entries
      restricted := p.2.entries.isSome })

inductive NodeVisibility where
  | visible
  | request
  | hidden
deriving DecidableEq

def classifyNodeVisibility (db : Db) (identity : GroupIdentityView) (nodeIds : List String) :
    List (String × NodeVisibility) :=
  if identity.admin then nodeIds.eraseDups.map fun id => (id, .visible)
  else
    (resolveAccessChains db nodeIds).map fun p =>
      (p.1,
        if canSeeNode toLowerCase identity p.2.entries then .visible
        else if p.2.mode = some .request then .request
        else .hidden)

end Portuni.Access
