import Portuni.GraphMutations.Schema

/-!
The mutations of nodes, responsibilities, events and actors, one statement after another.
-/

namespace Portuni.GraphMutations

open Library.Interleaving
open Organizations (NodeType)

inductive Returned where
  | none
  | node (id : String)
  | actor (row : Actor)
  | responsibility (row : Responsibility)
  | updated (count : ℕ)
  | superseded (newId supersededId nodeId : String)
  | event (row : Event) (updatedFields : List String)

inductive Outcome where
  | returned (result : Returned)
  /-- A check of the code throws. -/
  | refused (message : String)
  /-- The database throws: a constraint, a trigger, or a value that it does not take. -/
  | aborted
  /-- The code runs into a value that it does not expect. -/
  | crashed

def Outcome.isRefusal : Outcome → Bool
  | .refused _ | .aborted => true
  | _ => false

abbrev Mutation := Program Statement Db Outcome

section

variable (p : Platform)

def refuse (message : String) : Mutation := .done (.refused message)

def check (ok : Bool) (message : String) (next : Mutation) : Mutation :=
  if ok then next else refuse message

def read (next : Db → Mutation) : Mutation := .statement .read next

/-- One statement, or a batch; it throws when it is aborted. -/
def execute (writes : List Write) (next : Db → Mutation) : Mutation :=
  .statement (.batch writes) fun db =>
    match attempt p writes db with
    | none => .done .aborted
    | some _ => next db

def writeAudit (userId action targetType targetId : String) (detail : List (String × Json))
    (next : Mutation) : Mutation :=
  execute p [.insertAudit ⟨userId, action, targetType, targetId, stringify (.object detail)⟩]
    fun _ => next

end

def nodeTypeText : NodeType → String
  | .organization => "organization"
  | .project => "project"
  | .process => "process"
  | .area => "area"
  | .principle => "principle"

def statusText : NodeStatus → String
  | .active => "active"
  | .completed => "completed"
  | .archived => "archived"

def visibilityText : NodeVisibility → String
  | .team => "team"
  | .privateOnly => "private"
  | .group => "group"

def healthText : HealthState → String
  | .onTrack => "on_track"
  | .atRisk => "at_risk"
  | .offTrack => "off_track"

def actorTypeText : ActorType → String
  | .person => "person"
  | .automation => "automation"

def nullable : Option String → Json
  | none => .null
  | some text => .string text

def field {α : Type} (name : String) (value : Option α) (json : α → Json) : List (String × Json) :=
  (value.map fun a => (name, json a)).toList

def fromTo (source target : Json) : Json := .object [("from", source), ("to", target)]

def bit (b : Bool) : Json := .number (if b then "1" else "0")

def integer (n : Int) : Json := .number (toString n)

section

def getLifecycleStatesForType : NodeType → List String
  | .organization => ["active", "inactive", "archived"]
  | .area => ["active", "needs_attention", "inactive", "archived"]
  | .process => ["not_implemented", "implementing", "operating", "at_risk", "broken", "retired"]
  | .project => ["backlog", "planned", "in_progress", "on_hold", "done", "cancelled"]
  | .principle => ["active", "archived"]

structure UpdateNodeInput where
  nodeId : String
  name : Option String := none
  description : Option (Option String) := none
  status : Option NodeStatus := none
  visibility : Option NodeVisibility := none
  metaJson : Option (List (String × Json)) := none
  goal : Option (Option String) := none
  lifecycleState : Option (Option String) := none
  ownerId : Option (Option String) := none
  health : Option HealthState := none

def UpdateNodeInput.json (args : UpdateNodeInput) : Json :=
  .object <| [("node_id", .string args.nodeId)] ++ field "name" args.name .string ++
    field "description" args.description nullable ++
    field "status" args.status (.string <| statusText ·) ++
    field "visibility" args.visibility (.string <| visibilityText ·) ++
    field "meta" args.metaJson .object ++ field "goal" args.goal nullable ++
    field "lifecycle_state" args.lifecycleState nullable ++
    field "owner_id" args.ownerId nullable ++ field "health" args.health (.string <| healthText ·)

/-- The columns of the first UPDATE, but for `updated_at`. -/
def UpdateNodeInput.sets (args : UpdateNodeInput) : NodeSet where
  name := args.name
  description := args.description
  status := args.status
  visibility := args.visibility
  metaJson := args.metaJson.map fun fields => stringify (.object fields)
  goal := args.goal
  ownerId := args.ownerId
  health := args.health

variable (p : Platform)

def managed : String :=
  "visibility 'group' is managed via the sharing ACL (PUT /nodes/:id/access) and cannot be set " ++
    "directly"

def managedWhileShared : String :=
  "visibility is managed via the sharing ACL while access entries exist " ++
    "(PUT /nodes/:id/access) and cannot be set directly"

def checkStates (type : NodeType) (lifecycleState : Option String) (health : Option HealthState)
    (next : Mutation) : Mutation :=
  check (lifecycleState.all (· ∈ getLifecycleStatesForType type))
    ("invalid lifecycle_state '" ++ lifecycleState.getD "" ++ "' for node type '" ++
      nodeTypeText type ++ "'. Valid: " ++ String.intercalate ", " (getLifecycleStatesForType type))
    (check (health.isNone || type = .project)
      ("health is only meaningful for type 'project' (got type '" ++ nodeTypeText type ++ "')")
      next)

def updateFields (now : String) (args : UpdateNodeInput) (next : Mutation) : Mutation :=
  if args.sets = {} then next
  else
    execute p [.updateNode args.nodeId { args.sets with updatedAt := some now }] fun _ => next

def updateLifecycle (args : UpdateNodeInput) (next : Mutation) : Mutation :=
  match args.lifecycleState with
  | none => next
  | some state =>
    execute p [.updateNode args.nodeId { lifecycleState := some state }] fun _ => next

def checkShared (args : UpdateNodeInput) (next : Mutation) : Mutation :=
  if args.visibility.isNone then next
  else read fun db => check (args.nodeId ∉ db.nodeAccess) managedWhileShared next

def updateChecked (updatedBy now : String) (args : UpdateNodeInput) : Mutation :=
  read fun db =>
    match db.typeOf args.nodeId with
    | none => refuse ("node " ++ args.nodeId ++ " not found")
    | some type =>
      checkStates type args.lifecycleState.join args.health <|
        updateFields p now args <|
          updateLifecycle p args <|
            writeAudit p updatedBy "update_node" "node" args.nodeId [("input", args.json)]
              (.done (.returned .none))

def updateNodeInternal (updatedBy now : String) (args : UpdateNodeInput) : Mutation :=
  check (args.visibility ≠ some .group) managed <|
    checkShared args <| updateChecked p updatedBy now args

structure CreateNodeInput where
  type : NodeType
  name : String
  description : Option String := none
  organizationId : Option String := none
  metaJson : Option (List (String × Json)) := none
  status : Option NodeStatus := none
  visibility : Option NodeVisibility := none
  goal : Option String := none
  lifecycleState : Option String := none
  health : Option HealthState := none

/-- What a call draws: its ids, and the suffixes of a sync key that is taken. -/
structure Drawn where
  id : String
  edgeId : String
  suffix : String
  shortSuffix : String

def syncKeyTaken (db : Db) (key : String) : Bool := db.nodes.any (·.syncKey = key)

def generateSyncKey (name : String) (drawn : Drawn) (next : String → Mutation) : Mutation :=
  let base := p.slugifyForSyncKey name
  let candidate := if base ≠ "" then base ++ "-" ++ drawn.suffix else drawn.suffix
  let suffixed := read fun db =>
    if syncKeyTaken db candidate then next (candidate ++ "-" ++ drawn.shortSuffix)
    else next candidate
  if base ≠ "" then read fun db => if syncKeyTaken db base then suffixed else next base
  else suffixed

def checkOrganization (args : CreateNodeInput) (next : Mutation) : Mutation :=
  if args.type = .organization then next
  else
    match args.organizationId.filter (· ≠ "") with
    | none =>
      refuse ("organization_id is required for type=" ++ nodeTypeText args.type ++
        ". Every non-organization node must belong to exactly one organization.")
    | some organizationId =>
      read fun db =>
        match db.typeOf organizationId with
        | none => refuse ("organization_id " ++ organizationId ++ " not found")
        | some type =>
          check (type = .organization)
            (organizationId ++ " is a " ++ nodeTypeText type ++ ", not an organization") next

def newNode (createdBy now syncKey : String) (drawn : Drawn) (args : CreateNodeInput) : Node where
  id := drawn.id
  type := args.type
  name := args.name
  description := args.description
  metaJson := args.metaJson.map fun fields => stringify (.object fields)
  status := args.status.getD .active
  visibility := args.visibility.getD .team
  ownerId := none
  lifecycleState := none
  health := args.health.getD .onTrack
  goal := none
  syncKey := syncKey
  createdBy := createdBy
  createdAt := now
  updatedAt := now

def membership (createdBy now : String) (drawn : Drawn) (args : CreateNodeInput) : List Write :=
  if args.type = .organization then []
  else
    ((args.organizationId.filter (· ≠ "")).map fun organizationId =>
      .insertEdge ⟨drawn.edgeId, drawn.id, organizationId, .belongsTo, createdBy, now⟩).toList

def persistStates (id : String) (args : CreateNodeInput) (next : Mutation) : Mutation :=
  match args.lifecycleState, args.goal with
  | some state, goal =>
    execute p [.updateNode id { lifecycleState := some (some state), goal := some goal }]
      fun _ => next
  | none, some goal => execute p [.updateNode id { goal := some (some goal) }] fun _ => next
  | none, none => next

def createNodeInternal (createdBy now : String) (drawn : Drawn) (args : CreateNodeInput) :
    Mutation :=
  check (args.visibility ≠ some .group) managed <|
    checkOrganization args <|
      checkStates args.type args.lifecycleState args.health <|
        generateSyncKey p args.name drawn fun syncKey =>
          execute p
            (.insertNode (newNode createdBy now syncKey drawn args) ::
              membership createdBy now drawn args)
            fun _ =>
              persistStates p drawn.id args <|
                writeAudit p createdBy "create_node" "node" drawn.id
                  ([("type", .string (nodeTypeText args.type)), ("name", .string args.name)] ++
                    field "organization_id" (args.organizationId.filter (· ≠ "")) .string ++
                    field "goal" args.goal .string ++
                    field "lifecycle_state" args.lifecycleState .string ++
                    field "health" args.health (.string <| healthText ·))
                  (.done (.returned (.node drawn.id)))

end

section

variable (p : Platform)

def loadResponsibility (db : Db) (id : String) : Option Responsibility :=
  db.responsibilities.find? (·.id = id)

def reloadResponsibility (id message : String) : Mutation :=
  .statement (.reload (.responsibility id)) fun db =>
    match loadResponsibility db id with
    | none => refuse message
    | some row => .done (.returned (.responsibility row))

structure CreateResponsibilityInput where
  nodeId : String
  title : String
  description : Option String := none
  sortOrder : Option Int := none
  assignees : Option (List String) := none

def assignAll (id now : String) : List String → Mutation → Mutation
  | [], next => next
  | actorId :: assignees, next =>
    execute p [.insertAssignment ⟨id, actorId, now⟩] fun _ => assignAll id now assignees next

def createResponsibility (createdBy now id : String) (args : CreateResponsibilityInput) :
    Mutation :=
  execute p
    [.insertResponsibility ⟨id, args.nodeId, args.title, args.description, args.sortOrder.getD 0,
      now, now⟩]
    fun _ =>
      assignAll p id now (args.assignees.getD []) <|
        writeAudit p createdBy "create_responsibility" "responsibility" id
          [("node_id", .string args.nodeId), ("title", .string args.title),
            ("assignees", .array ((args.assignees.getD []).map .string))]
          (reloadResponsibility id ("createResponsibility: inserted row " ++ id ++ " not found"))

abbrev Orders := List (String × List (String × Int))

def Orders.add (orders : Orders) (nodeId : String) (update : String × Int) : Orders :=
  if orders.any (·.1 = nodeId) then
    orders.map fun o => if o.1 = nodeId then (o.1, o.2 ++ [update]) else o
  else orders ++ [(nodeId, [update])]

def loadOrders : List (String × Int) → Orders → (Orders → Mutation) → Mutation
  | [], orders, next => next orders
  | update :: updates, orders, next =>
    read fun db =>
      match loadResponsibility db update.1 with
      | none => refuse ("reorderResponsibilities: " ++ update.1 ++ " not found")
      | some existing => loadOrders updates (orders.add existing.nodeId update) next

def writeOrders (updatedBy now : String) : Orders → ℕ → Mutation
  | [], updated => .done (.returned (.updated updated))
  | (nodeId, order) :: orders, updated =>
    execute p
      (order.map fun u => .updateResponsibility u.1 { sortOrder := some u.2, updatedAt := now })
      fun _ =>
        writeAudit p updatedBy "reorder_responsibilities" "node" nodeId
          [("node_id", .string nodeId),
            ("order", .array (order.map fun u =>
              .object [("id", .string u.1), ("sort_order", integer u.2)]))]
          (writeOrders updatedBy now orders (updated + order.length))

def reorderResponsibilities (updatedBy now : String) (updates : List (String × Int)) : Mutation :=
  loadOrders updates [] fun orders => writeOrders p updatedBy now orders 0

structure UpdateResponsibilityInput where
  responsibilityId : String
  title : Option String := none
  description : Option (Option String) := none
  sortOrder : Option Int := none

def updateResponsibility (updatedBy now : String) (args : UpdateResponsibilityInput) : Mutation :=
  read fun db =>
    match loadResponsibility db args.responsibilityId with
    | none => refuse ("updateResponsibility: " ++ args.responsibilityId ++ " not found")
    | some existing =>
      if args.title.isNone && args.description.isNone && args.sortOrder.isNone then
        .done (.returned (.responsibility existing))
      else
        execute p
          [.updateResponsibility args.responsibilityId
            { title := args.title, description := args.description, sortOrder := args.sortOrder
              updatedAt := now }]
          fun _ =>
            writeAudit p updatedBy "update_responsibility" "responsibility" args.responsibilityId
              [("changes", .object
                  (field "title" args.title (fromTo (.string existing.title) <| .string ·) ++
                    field "description" args.description
                      (fromTo (nullable existing.description) <| nullable ·) ++
                    field "sort_order" args.sortOrder
                      (fromTo (integer existing.sortOrder) <| integer ·))),
                ("node_id", .string existing.nodeId)]
              (reloadResponsibility args.responsibilityId
                ("updateResponsibility: row " ++ args.responsibilityId ++
                  " disappeared after UPDATE"))

def assignResponsibility (assignedBy now responsibilityId actorId : String) : Mutation :=
  execute p [.insertAssignment ⟨responsibilityId, actorId, now⟩] fun _ =>
    read fun db =>
      writeAudit p assignedBy "assign_responsibility" "responsibility_assignment"
        (responsibilityId ++ ":" ++ actorId)
        ([("responsibility_id", .string responsibilityId), ("actor_id", .string actorId)] ++
          field "node_id" ((loadResponsibility db responsibilityId).map (·.nodeId)) .string)
        (.done (.returned .none))

end

section

variable (p : Platform)

def loadEvent (db : Db) (id : String) : Option Event := db.events.find? (·.id = id)

def supersedeEventInternal (userId now newId eventId newContent : String)
    (metaJson : Option (List (String × Json))) : Mutation :=
  read fun db =>
    match loadEvent db eventId with
    | none => refuse ("event " ++ eventId ++ " not found")
    | some oldRow =>
      execute p
        [.updateEvent eventId { status := some "superseded" },
          .insertEvent
            { id := newId
              nodeId := oldRow.nodeId
              type := oldRow.type
              content := newContent
              metaJson :=
                (metaJson.map fun fields => stringify (.object fields)).or oldRow.metaJson
              status := "active"
              refs := some (stringify (.array [.string eventId]))
              taskRef := oldRow.taskRef
              createdBy := userId
              createdAt := oldRow.createdAt
              loggedAt := now }]
        fun _ =>
          writeAudit p userId "supersede_event" "event" newId
            [("superseded_id", .string eventId), ("node_id", .string oldRow.nodeId)]
            (.done (.returned (.superseded newId eventId oldRow.nodeId)))

structure UpdateEventFields where
  content : Option String := none
  type : Option String := none
  status : Option String := none
  createdAt : Option String := none
  metaJson : Option (Option (List (String × Json))) := none
  refs : Option (Option (List String)) := none
  taskRef : Option (Option String) := none

def UpdateEventFields.sets (fields : UpdateEventFields) : Except String EventSet :=
  let content := fields.content.map Sessions.trim
  if content = some "" then .error "content must not be empty"
  else if fields.type.any (· ∉ eventTypes) then
    .error ("invalid type; must be one of " ++ String.intercalate ", " eventTypes)
  else if fields.status.any (· ∉ eventStatuses) then
    .error ("invalid status; must be one of " ++ String.intercalate ", " eventStatuses)
  else if fields.createdAt.any fun text => (p.toISOString text).isNone then
    .error "invalid created_at; expected ISO datetime (e.g. 2024-01-15 or 2024-01-15T10:30:00Z)"
  else
    let set : EventSet :=
      { content := content
        type := fields.type
        status := fields.status
        createdAt := fields.createdAt.bind p.toISOString
        metaJson := fields.metaJson.map fun value => value.map fun fields =>
          stringify (.object fields)
        refs := fields.refs.map fun refs => refs.map fun refs =>
          stringify (.array (refs.map .string))
        taskRef := fields.taskRef }
    if set = {} then .error "no fields to update" else .ok set

def EventSet.columns (set : EventSet) : List String :=
  (set.content.map fun _ => "content").toList ++ (set.type.map fun _ => "type").toList ++
    (set.status.map fun _ => "status").toList ++ (set.createdAt.map fun _ => "created_at").toList ++
    (set.metaJson.map fun _ => "meta").toList ++ (set.refs.map fun _ => "refs").toList ++
    (set.taskRef.map fun _ => "task_ref").toList

def answerUpdatedEvent (userId eventId : String) (set : EventSet) : Mutation :=
  read fun db =>
    match loadEvent db eventId with
    | none => .done .crashed
    | some row =>
      writeAudit p userId "update_event" "event" eventId
        [("fields", .array (set.columns.map .string)), ("node_id", .string row.nodeId)]
        (if row.metaJson.all p.isJson && row.refs.all p.isJson then
          .done (.returned (.event row set.columns))
        else .done .crashed)

def updateEventInternal (userId eventId : String) (fields : UpdateEventFields) : Mutation :=
  match fields.sets p with
  | .error message => refuse message
  | .ok set =>
    execute p [.updateEvent eventId set] fun db =>
      if db.events.any (·.id = eventId) then answerUpdatedEvent p userId eventId set
      else refuse ("event " ++ eventId ++ " not found")

end

section

variable (p : Platform)

def loadActor (db : Db) (id : String) : Option Actor := db.actors.find? (·.id = id)

def reloadActor (id message : String) : Mutation :=
  .statement (.reload (.actor id)) fun db =>
    match loadActor db id with
    | none => refuse message
    | some row => .done (.returned (.actor row))

def checkAutomation (type : ActorType) (isPlaceholder : Bool) (userId : Option String)
    (next : Mutation) : Mutation :=
  check (type = .person || !isPlaceholder)
    "automation actors cannot be placeholders (is_placeholder must be false)"
    (check (type = .person || userId.isNone) "automation actors cannot have a user_id" next)

structure CreateActorInput where
  type : ActorType
  name : String
  isPlaceholder : Option Bool := none
  userId : Option String := none
  notes : Option String := none
  externalId : Option String := none

def createActor (createdBy now id : String) (args : CreateActorInput) : Mutation :=
  checkAutomation args.type (args.isPlaceholder.getD false) args.userId <|
    execute p
      [.insertActor ⟨id, args.type, args.name, args.isPlaceholder.getD false, args.userId,
        args.notes, args.externalId, now, now⟩]
      fun _ =>
        writeAudit p createdBy "create_actor" "actor" id
          [("type", .string (actorTypeText args.type)), ("name", .string args.name)]
          (reloadActor id ("createActor: inserted row " ++ id ++ " not found"))

structure UpdateActorInput where
  actorId : String
  name : Option String := none
  isPlaceholder : Option Bool := none
  userId : Option (Option String) := none
  notes : Option (Option String) := none
  externalId : Option String := none

def updateActor (updatedBy now : String) (args : UpdateActorInput) : Mutation :=
  read fun db =>
    match loadActor db args.actorId with
    | none => refuse ("updateActor: actor " ++ args.actorId ++ " not found")
    | some existing =>
      checkAutomation existing.type (args.isPlaceholder.getD existing.isPlaceholder)
        (args.userId.getD existing.userId) <|
        if args.name.isNone && args.isPlaceholder.isNone && args.userId.isNone &&
            args.notes.isNone && args.externalId.isNone then
          .done (.returned (.actor existing))
        else
          execute p
            [.updateActor args.actorId
              { name := args.name, isPlaceholder := args.isPlaceholder, userId := args.userId
                notes := args.notes, externalId := args.externalId, updatedAt := now }]
            fun _ =>
              writeAudit p updatedBy "update_actor" "actor" args.actorId
                [("changes", .object
                  (field "name" args.name (fromTo (.string existing.name) <| .string ·) ++
                    field "is_placeholder" args.isPlaceholder
                      (fromTo (bit existing.isPlaceholder) <| bit ·) ++
                    field "user_id" args.userId (fromTo (nullable existing.userId) <| nullable ·) ++
                    field "notes" args.notes (fromTo (nullable existing.notes) <| nullable ·) ++
                    field "external_id" args.externalId
                      (fromTo (nullable existing.externalId) <| .string ·)))]
                (reloadActor args.actorId
                  ("updateActor: row " ++ args.actorId ++ " disappeared after UPDATE"))

end

inductive Call where
  | createNode (createdBy now : String) (drawn : Drawn) (args : CreateNodeInput)
  | updateNode (updatedBy now : String) (args : UpdateNodeInput)
  | createResponsibility (createdBy now id : String) (args : CreateResponsibilityInput)
  | updateResponsibility (updatedBy now : String) (args : UpdateResponsibilityInput)
  | reorderResponsibilities (updatedBy now : String) (updates : List (String × Int))
  | assignResponsibility (assignedBy now responsibilityId actorId : String)
  | supersedeEvent (userId now newId eventId newContent : String)
      (metaJson : Option (List (String × Json)))
  | updateEvent (userId eventId : String) (fields : UpdateEventFields)
  | createActor (createdBy now id : String) (args : CreateActorInput)
  | updateActor (updatedBy now : String) (args : UpdateActorInput)

def mutation (p : Platform) : Call → Mutation
  | .createNode createdBy now drawn args => createNodeInternal p createdBy now drawn args
  | .updateNode updatedBy now args => updateNodeInternal p updatedBy now args
  | .createResponsibility createdBy now id args => createResponsibility p createdBy now id args
  | .updateResponsibility updatedBy now args => updateResponsibility p updatedBy now args
  | .reorderResponsibilities updatedBy now updates =>
    reorderResponsibilities p updatedBy now updates
  | .assignResponsibility assignedBy now responsibilityId actorId =>
    assignResponsibility p assignedBy now responsibilityId actorId
  | .supersedeEvent userId now newId eventId newContent metaJson =>
    supersedeEventInternal p userId now newId eventId newContent metaJson
  | .updateEvent userId eventId fields => updateEventInternal p userId eventId fields
  | .createActor createdBy now id args => createActor p createdBy now id args
  | .updateActor updatedBy now args => updateActor p updatedBy now args

end Portuni.GraphMutations
