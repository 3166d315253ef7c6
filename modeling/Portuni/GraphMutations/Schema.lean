import Portuni.Library.Refusals
import Portuni.Organizations.Invariant
import Portuni.Sessions.Transitions

/-!
The tables that the mutations of the graph write, the statements on them, and what the declared
keys, checks, indexes and triggers refuse.
-/

namespace Portuni.GraphMutations

open Organizations (NodeType EdgeRelation)

/-- A JSON value; a number as it is printed. -/
inductive Json where
  | null
  | bool (b : Bool)
  | number (text : String)
  | string (text : String)
  | array (items : List Json)
  | object (fields : List (String × Json))

def escaped (c : Char) : String :=
  if c.toNat = 34 then "\\\""
  else if c.toNat = 92 then "\\\\"
  else if c.toNat = 8 then "\\b"
  else if c.toNat = 9 then "\\t"
  else if c.toNat = 10 then "\\n"
  else if c.toNat = 12 then "\\f"
  else if c.toNat = 13 then "\\r"
  else if c.toNat < 16 then "\\u000" ++ String.ofList (Nat.toDigits 16 c.toNat)
  else if c.toNat < 32 then "\\u00" ++ String.ofList (Nat.toDigits 16 c.toNat)
  else String.singleton c

def quoted (text : String) : String :=
  "\"" ++ String.join (text.toList.map escaped) ++ "\""

mutual

def stringify : Json → String
  | .null => "null"
  | .bool b => if b then "true" else "false"
  | .number text => text
  | .string text => quoted text
  | .array items => "[" ++ String.intercalate "," (stringifyItems items) ++ "]"
  | .object fields => "\x7b" ++ String.intercalate "," (stringifyFields fields) ++ "\x7d"

def stringifyItems : List Json → List String
  | [] => []
  | item :: items => stringify item :: stringifyItems items

def stringifyFields : List (String × Json) → List String
  | [] => []
  | field :: fields => stringifyField field :: stringifyFields fields

def stringifyField : String × Json → String
  | (name, value) => quoted name ++ ":" ++ stringify value

end

inductive NodeStatus where
  | active
  | completed
  | archived
deriving DecidableEq

inductive NodeVisibility where
  | team
  | privateOnly
  | group
deriving DecidableEq

inductive HealthState where
  | onTrack
  | atRisk
  | offTrack
deriving DecidableEq

inductive ActorType where
  | person
  | automation
deriving DecidableEq

structure Node where
  id : String
  type : NodeType
  name : String
  description : Option String
  metaJson : Option String
  status : NodeStatus
  visibility : NodeVisibility
  ownerId : Option String
  lifecycleState : Option String
  health : HealthState
  goal : Option String
  syncKey : String
  createdBy : String
  createdAt : String
  updatedAt : String
deriving DecidableEq

structure Edge where
  id : String
  sourceId : String
  targetId : String
  relation : EdgeRelation
  createdBy : String
  createdAt : String
deriving DecidableEq

structure Actor where
  id : String
  type : ActorType
  name : String
  isPlaceholder : Bool
  userId : Option String
  notes : Option String
  externalId : Option String
  createdAt : String
  updatedAt : String
deriving DecidableEq

structure Responsibility where
  id : String
  nodeId : String
  title : String
  description : Option String
  sortOrder : Int
  createdAt : String
  updatedAt : String
deriving DecidableEq

structure Assignment where
  responsibilityId : String
  actorId : String
  createdAt : String
deriving DecidableEq

structure Event where
  id : String
  nodeId : String
  type : String
  content : String
  metaJson : Option String
  status : String
  refs : Option String
  taskRef : Option String
  createdBy : String
  createdAt : String
  loggedAt : String
deriving DecidableEq

structure Audit where
  userId : String
  action : String
  targetType : String
  targetId : String
  detail : String
deriving DecidableEq

structure Db where
  users : List String := []
  nodes : List Node := []
  /-- The node of every row of `node_access`. -/
  nodeAccess : List String := []
  edges : List Edge := []
  actors : List Actor := []
  responsibilities : List Responsibility := []
  assignments : List Assignment := []
  events : List Event := []
  auditLog : List Audit := []
deriving DecidableEq

structure NodeSet where
  name : Option String := none
  description : Option (Option String) := none
  status : Option NodeStatus := none
  visibility : Option NodeVisibility := none
  metaJson : Option String := none
  goal : Option (Option String) := none
  ownerId : Option (Option String) := none
  health : Option HealthState := none
  lifecycleState : Option (Option String) := none
  updatedAt : Option String := none
deriving DecidableEq

def statusFromLifecycle (state : String) : NodeStatus :=
  if state = "done" then .completed
  else if state ∈ ["archived", "retired", "cancelled", "inactive"] then .archived
  else .active

def NodeSet.apply (set : NodeSet) (n : Node) : Node :=
  { n with
    name := set.name.getD n.name
    description := set.description.getD n.description
    status :=
      match set.lifecycleState with
      | some (some state) => statusFromLifecycle state
      | _ => set.status.getD n.status
    visibility := set.visibility.getD n.visibility
    metaJson := set.metaJson.or n.metaJson
    goal := set.goal.getD n.goal
    ownerId := set.ownerId.getD n.ownerId
    health := set.health.getD n.health
    lifecycleState := set.lifecycleState.getD n.lifecycleState
    updatedAt := set.updatedAt.getD n.updatedAt }

structure ResponsibilitySet where
  title : Option String := none
  description : Option (Option String) := none
  sortOrder : Option Int := none
  updatedAt : String

def ResponsibilitySet.apply (set : ResponsibilitySet) (r : Responsibility) : Responsibility :=
  { r with
    title := set.title.getD r.title
    description := set.description.getD r.description
    sortOrder := set.sortOrder.getD r.sortOrder
    updatedAt := set.updatedAt }

structure ActorSet where
  name : Option String := none
  isPlaceholder : Option Bool := none
  userId : Option (Option String) := none
  notes : Option (Option String) := none
  externalId : Option String := none
  updatedAt : String

def ActorSet.apply (set : ActorSet) (a : Actor) : Actor :=
  { a with
    name := set.name.getD a.name
    isPlaceholder := set.isPlaceholder.getD a.isPlaceholder
    userId := set.userId.getD a.userId
    notes := set.notes.getD a.notes
    externalId := set.externalId.or a.externalId
    updatedAt := set.updatedAt }

structure EventSet where
  content : Option String := none
  type : Option String := none
  status : Option String := none
  createdAt : Option String := none
  metaJson : Option (Option String) := none
  refs : Option (Option String) := none
  taskRef : Option (Option String) := none
deriving DecidableEq

def EventSet.apply (set : EventSet) (e : Event) : Event :=
  { e with
    content := set.content.getD e.content
    type := set.type.getD e.type
    status := set.status.getD e.status
    createdAt := set.createdAt.getD e.createdAt
    metaJson := set.metaJson.getD e.metaJson
    refs := set.refs.getD e.refs
    taskRef := set.taskRef.getD e.taskRef }

inductive Write where
  | insertNode (row : Node)
  | insertEdge (row : Edge)
  | updateNode (id : String) (set : NodeSet)
  | insertActor (row : Actor)
  | updateActor (id : String) (set : ActorSet)
  | insertResponsibility (row : Responsibility)
  | updateResponsibility (id : String) (set : ResponsibilitySet)
  | insertAssignment (row : Assignment)
  | insertEvent (row : Event)
  | updateEvent (id : String) (set : EventSet)
  | insertAudit (row : Audit)

def eventTypes : List String :=
  ["decision", "discovery", "blocker", "reference", "milestone", "note", "change"]

def eventStatuses : List String := ["active", "resolved", "superseded", "archived"]

def validLifecycleState : NodeType → String → Bool
  | .organization, state => state ∈ ["active", "inactive", "archived"]
  | .area, state => state ∈ ["active", "needs_attention", "inactive", "archived"]
  | .process, state =>
    state ∈ ["not_implemented", "implementing", "operating", "at_risk", "broken", "retired"]
  | .project, state =>
    state ∈ ["backlog", "planned", "in_progress", "on_hold", "done", "cancelled"]
  | .principle, state => state ∈ ["active", "archived"]

structure Platform where
  /-- The database takes the values of a write: in the range of their columns, as text that it can
  encode, and the detail of an audit entry as JSON that it can read. -/
  takes : Write → Bool
  /-- `nodes.owner_id` has its foreign key, as a database that was migrated to it has. -/
  ownerReferences : Bool
  slugifyForSyncKey : String → String
  /-- `new Date(text).toISOString()`, of a text that is a date. -/
  toISOString : String → Option String
  isJson : String → Bool

namespace Db

variable (p : Platform) (db : Db)

def typeOf (id : String) : Option NodeType := (db.nodes.find? (·.id = id)).map Node.type

def hasNode (id : String) : Bool := db.nodes.any (·.id = id)

def hasActor (id : String) : Bool := db.actors.any (·.id = id)

def hasResponsibility (id : String) : Bool := db.responsibilities.any (·.id = id)

def preventMultiParentOrg (new : Edge) : Bool :=
  new.relation = .belongsTo && (db.typeOf new.sourceId).any (· ≠ .organization) &&
    db.typeOf new.targetId = some .organization &&
    db.edges.any fun e => e.sourceId = new.sourceId && e.relation = .belongsTo &&
      db.typeOf e.targetId = some .organization

def refusesActor (a : Actor) : Bool :=
  (a.type = .automation && (a.isPlaceholder || a.userId.isSome)) ||
    a.userId.any (· ∉ db.users) ||
    db.actors.any fun a' => a'.id ≠ a.id && a.externalId.isSome && a'.externalId = a.externalId

def refusesNodeSet (set : NodeSet) (n : Node) : Bool :=
  (set.lifecycleState.join.any fun state => !validLifecycleState n.type state) ||
    (set.updatedAt.any fun updatedAt => updatedAt < n.createdAt) ||
    (p.ownerReferences && set.ownerId.join.any fun owner => !db.hasActor owner)

def refuses : Write → Bool
  | .insertNode row =>
    row.id.length ≠ 26 || db.hasNode row.id || row.syncKey = "" ||
      db.nodes.any (·.syncKey = row.syncKey) || row.updatedAt < row.createdAt
  | .insertEdge row =>
    row.id.length ≠ 26 || db.edges.any (·.id = row.id) || !db.hasNode row.sourceId ||
      !db.hasNode row.targetId || row.createdBy ∉ db.users || row.sourceId = row.targetId ||
      (db.edges.any fun e =>
        (e.sourceId, e.targetId, e.relation) = (row.sourceId, row.targetId, row.relation)) ||
      db.preventMultiParentOrg row
  | .updateNode id set => db.nodes.any fun n => n.id = id && db.refusesNodeSet p set n
  | .insertActor row =>
    row.id.length ≠ 26 || db.hasActor row.id || db.refusesActor row
  | .updateActor id set => db.actors.any fun a => a.id = id && db.refusesActor (set.apply a)
  | .insertResponsibility row =>
    row.id.length ≠ 26 || db.hasResponsibility row.id ||
      (db.typeOf row.nodeId).all fun type => type ∉ [.project, .process, .area]
  | .updateResponsibility _ _ => false
  | .insertAssignment row => !db.hasResponsibility row.responsibilityId || !db.hasActor row.actorId
  | .insertEvent row =>
    db.events.any (·.id = row.id) || !db.hasNode row.nodeId || row.createdBy ∉ db.users ||
      row.type ∉ eventTypes || row.status ∉ eventStatuses
  | .updateEvent _ set =>
    set.type.any (· ∉ eventTypes) || set.status.any (· ∉ eventStatuses)
  | .insertAudit row => row.userId ∉ db.users

def write : Write → Db
  | .insertNode row => { db with nodes := db.nodes ++ [row] }
  | .insertEdge row => { db with edges := db.edges ++ [row] }
  | .updateNode id set =>
    { db with nodes := db.nodes.map fun n => if n.id = id then set.apply n else n }
  | .insertActor row => { db with actors := db.actors ++ [row] }
  | .updateActor id set =>
    { db with actors := db.actors.map fun a => if a.id = id then set.apply a else a }
  | .insertResponsibility row => { db with responsibilities := db.responsibilities ++ [row] }
  | .updateResponsibility id set =>
    { db with
      responsibilities := db.responsibilities.map fun r => if r.id = id then set.apply r else r }
  | .insertAssignment row =>
    if db.assignments.any fun a =>
        a.responsibilityId = row.responsibilityId && a.actorId = row.actorId then db
    else { db with assignments := db.assignments ++ [row] }
  | .insertEvent row => { db with events := db.events ++ [row] }
  | .updateEvent id set =>
    { db with events := db.events.map fun e => if e.id = id then set.apply e else e }
  | .insertAudit row => { db with auditLog := db.auditLog ++ [row] }

end Db

def attempt (p : Platform) : List Write → Db → Option Db
  | [], db => some db
  | w :: writes, db =>
    if p.takes w && !db.refuses p w then attempt p writes (db.write w) else none

inductive Row where
  | actor (id : String)
  | responsibility (id : String)

inductive Statement where
  | read
  | reload (row : Row)
  | batch (writes : List Write)

def perform (p : Platform) (s : Statement) (db : Db) : Db :=
  match s with
  | .read | .reload _ => db
  | .batch writes => (attempt p writes db).getD db

end Portuni.GraphMutations
