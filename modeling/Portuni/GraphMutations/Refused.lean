import Portuni.GraphMutations.Mutations

namespace Portuni.GraphMutations

/-!
What a statement needs in order not to be refused, and the rules for mutations whose first change is
one after which nothing is refused.
-/

section

open Library.Refusals Library.Runs
open Organizations (NodeType)

/-- A node has the type of its id: no statement changes a type, and no id is drawn twice. -/
def Db.Typed (typeOf : String → NodeType) (db : Db) : Prop :=
  ∀ n ∈ db.nodes, n.type = typeOf n.id

def Write.Supported (db : Db) : Write → Prop
  | .insertAssignment row =>
    db.hasResponsibility row.responsibilityId = true ∧ db.hasActor row.actorId = true
  | .insertAudit row => row.userId ∈ db.users
  | _ => True

/-- A statement finds what it needs: a database that takes its values, the rows that it refers to,
and the row that it reads back. -/
def Statement.Met (p : Platform) (db : Db) : Statement → Prop
  | .read => True
  | .reload (.actor id) => db.hasActor id = true
  | .reload (.responsibility id) => db.hasResponsibility id = true
  | .batch writes => ∀ w ∈ writes, p.takes w = true ∧ w.Supported db

def Call.Typed (typeOf : String → NodeType) : Call → Prop
  | .createNode _ _ drawn args => args.type = typeOf drawn.id
  | _ => True

def Write.Typed (typeOf : String → NodeType) : Write → Prop
  | .insertNode row => row.type = typeOf row.id
  | _ => True

variable {p : Platform} {typeOf : String → NodeType} {db db' : Db} {writes : List Write}
  {next : Db → Mutation} {rest : Mutation}

theorem typed_write {w : Write} (h : db.Typed typeOf) (hw : w.Typed typeOf) :
    (db.write w).Typed typeOf := by
  cases w with
  | insertNode row =>
    intro n hn
    rcases List.mem_append.mp hn with hn | hn
    · exact h n hn
    · obtain rfl := List.mem_singleton.mp hn
      exact hw
  | updateNode id set =>
    intro n' hn'
    obtain ⟨n, hn, rfl⟩ := List.mem_map.mp hn'
    split
    · exact h n hn
    · exact h n hn
  | insertAssignment row =>
    simp only [Db.write]
    split
    · exact h
    · exact h
  | _ => exact h

theorem typed_attempt (h : db.Typed typeOf) (hwrites : ∀ w ∈ writes, w.Typed typeOf)
    (hattempt : attempt p writes db = some db') : db'.Typed typeOf := by
  induction writes generalizing db with
  | nil =>
    cases hattempt
    exact h
  | cons w writes ih =>
    unfold attempt at hattempt
    split at hattempt
    · exact ih (typed_write h (hwrites w List.mem_cons_self))
        (fun w' hw' => hwrites w' (List.mem_cons_of_mem _ hw')) hattempt
    · cases hattempt

theorem typed_perform (h : db.Typed typeOf) (hwrites : ∀ w ∈ writes, w.Typed typeOf) :
    (perform p (.batch writes) db).Typed typeOf := by
  show ((attempt p writes db).getD db).Typed typeOf
  cases hattempt : attempt p writes db with
  | none => exact h
  | some db' => exact typed_attempt h hwrites hattempt

theorem attempt_isSome (htakes : ∀ w ∈ writes, p.takes w = true)
    (hfree : ∀ w ∈ writes, ∀ db : Db, db.refuses p w = false) :
    (attempt p writes db).isSome = true := by
  induction writes generalizing db with
  | nil => rfl
  | cons w writes ih =>
    unfold attempt
    rw [htakes w List.mem_cons_self, hfree w List.mem_cons_self]
    exact ih (fun w' hw' => htakes w' (List.mem_cons_of_mem _ hw'))
      fun w' hw' => hfree w' (List.mem_cons_of_mem _ hw')

theorem attempt_single_isSome {w : Write} (htakes : p.takes w = true)
    (hfree : db.refuses p w = false) : (attempt p [w] db).isSome = true := by
  unfold attempt
  rw [htakes, hfree]
  rfl

variable (p typeOf)

/-- A mutation whose first change is one after which nothing is refused. -/
abbrev Whole (m : Mutation) : Prop :=
  AllOrNothing (perform p) (Db.Typed typeOf) (fun db s => s.Met p db)
    (fun o : Outcome => o.isRefusal = true) m

/-- The same, and after an earlier change nothing is refused at all. -/
structure Sure (m : Mutation) : Prop where
  whole : Whole p typeOf m
  settled : Settled (perform p) (Db.Typed typeOf) (fun db s => s.Met p db)
    (fun o : Outcome => o.isRefusal = true) m

variable {p typeOf}

theorem whole_refuse (message : String) : Whole p typeOf (refuse message) := trivial

theorem whole_check {ok : Bool} {message : String} (h : ok = true → Whole p typeOf rest) :
    Whole p typeOf (check ok message rest) := by
  unfold check
  split
  next hok => exact h hok
  next => exact whole_refuse message

theorem whole_read (h : ∀ db, db.Typed typeOf → Whole p typeOf (next db)) :
    Whole p typeOf (read next) :=
  AllOrNothing.read (fun _ => rfl) h

theorem sure_done {outcome : Outcome} (h : outcome.isRefusal = false) :
    Sure p typeOf (.done outcome) :=
  ⟨trivial, by rw [Settled, h]; exact Bool.false_ne_true⟩

theorem sure_read (h : ∀ db, Sure p typeOf (next db)) : Sure p typeOf (read next) :=
  ⟨AllOrNothing.read (fun _ => rfl) fun db _ => (h db).whole,
    Settled.read (fun _ => rfl) fun db _ _ => (h db).settled⟩

theorem whole_execute (hwrites : ∀ w ∈ writes, w.Typed typeOf)
    (hnext : ∀ db, db.Typed typeOf → Sure p typeOf (next db)) :
    Whole p typeOf (execute p writes next) := by
  intro db hdb
  refine ⟨typed_perform hdb hwrites, ?_⟩
  cases hattempt : attempt p writes db with
  | none =>
    have hsame : perform p (.batch writes) db = db := by
      simp only [perform, hattempt, Option.getD_none]
    simp only [hattempt]
    exact ⟨fun _ => trivial, fun hchange => absurd hsame hchange⟩
  | some db' =>
    simp only [hattempt]
    exact ⟨fun _ => (hnext db hdb).whole, fun _ => (hnext db hdb).settled⟩

theorem sure_execute (hwrites : ∀ w ∈ writes, w.Typed typeOf)
    (hsome : ∀ db, db.Typed typeOf → (Statement.batch writes).Met p db →
      (attempt p writes db).isSome = true)
    (hnext : ∀ db, Sure p typeOf (next db)) : Sure p typeOf (execute p writes next) := by
  refine ⟨whole_execute hwrites fun db _ => hnext db, fun db hdb hmet => ?_⟩
  refine ⟨typed_perform hdb hwrites, ?_⟩
  obtain ⟨db', hattempt⟩ := Option.isSome_iff_exists.mp (hsome db hdb hmet)
  simp only [hattempt]
  exact (hnext db).settled

theorem sure_writeAudit {userId action targetType targetId : String}
    {detail : List (String × Json)} (h : Sure p typeOf rest) :
    Sure p typeOf (writeAudit p userId action targetType targetId detail rest) := by
  refine sure_execute (fun w hw => ?_) (fun db _ hmet => ?_) fun _ => h
  · rw [List.mem_singleton.mp hw]
    trivial
  · obtain ⟨htakes, huser⟩ := hmet _ (List.mem_singleton_self _)
    have huser' : userId ∈ db.users := huser
    refine attempt_single_isSome htakes ?_
    simp only [Db.refuses, huser', not_true_eq_false, decide_false]

theorem sure_reloadResponsibility (id message : String) :
    Sure p typeOf (reloadResponsibility id message) := by
  constructor
  · refine AllOrNothing.read (fun _ => rfl) fun db _ => ?_
    cases hrow : loadResponsibility db id with
    | none => trivial
    | some row => trivial
  · refine Settled.read (fun _ => rfl) fun db _ hmet => ?_
    cases hrow : loadResponsibility db id with
    | none =>
      obtain ⟨r, hr, hid⟩ := List.any_eq_true.mp hmet
      exact absurd hid (List.find?_eq_none.mp hrow r hr)
    | some row => exact (sure_done rfl).settled

theorem sure_reloadActor (id message : String) : Sure p typeOf (reloadActor id message) := by
  constructor
  · refine AllOrNothing.read (fun _ => rfl) fun db _ => ?_
    cases hrow : loadActor db id with
    | none => trivial
    | some row => trivial
  · refine Settled.read (fun _ => rfl) fun db _ hmet => ?_
    cases hrow : loadActor db id with
    | none =>
      obtain ⟨a, ha, hid⟩ := List.any_eq_true.mp hmet
      exact absurd hid (List.find?_eq_none.mp hrow a ha)
    | some row => exact (sure_done rfl).settled

end

open Library.Refusals Library.Runs
open Organizations (NodeType)

variable {p : Platform} {typeOf : String → NodeType} {db db' : Db} {writes : List Write}
  {next : Db → Mutation} {rest : Mutation}

section

theorem validLifecycleState_eq (type : NodeType) (state : String) :
    validLifecycleState type state = decide (state ∈ getLifecycleStatesForType type) := by
  cases type <;> rfl

theorem sure_lifecycle {id : String} {set : NodeSet}
    (hstate : set.lifecycleState.join.all (· ∈ getLifecycleStatesForType (typeOf id)) = true)
    (hupdated : set.updatedAt = none) (howner : set.ownerId = none) (h : Sure p typeOf rest) :
    Sure p typeOf (execute p [.updateNode id set] fun _ => rest) := by
  refine sure_execute (fun w hw => ?_) (fun db hdb hmet => ?_) fun _ => h
  · rw [List.mem_singleton.mp hw]
    trivial
  · refine attempt_single_isSome (hmet _ (List.mem_singleton_self _)).1 ?_
    refine List.any_eq_false.mpr fun n hn => ?_
    rw [Bool.not_eq_true, Bool.and_eq_false_imp]
    intro hid
    have hvalid : set.lifecycleState.join.any (fun state => !validLifecycleState n.type state) =
        false := by
      rw [hdb n hn, of_decide_eq_true hid]
      cases hset : set.lifecycleState.join with
      | none => rfl
      | some state =>
        rw [hset] at hstate
        rw [Option.any_some, validLifecycleState_eq]
        simpa using hstate
    simp [Db.refusesNodeSet, hvalid, hupdated, howner]

theorem whole_checkStates {type : NodeType} {lifecycleState : Option String}
    {health : Option HealthState}
    (h : lifecycleState.all (· ∈ getLifecycleStatesForType type) = true → Whole p typeOf rest) :
    Whole p typeOf (checkStates type lifecycleState health rest) :=
  whole_check fun hstate => whole_check fun _ => h hstate

theorem whole_updateChecked (updatedBy now : String) (args : UpdateNodeInput) :
    Whole p typeOf (updateChecked p updatedBy now args) := by
  refine whole_read fun db hdb => ?_
  cases htype : db.typeOf args.nodeId with
  | none => exact whole_refuse _
  | some type =>
    obtain ⟨n, hn, rfl⟩ := Option.map_eq_some_iff.mp htype
    have hid : n.id = args.nodeId :=
      of_decide_eq_true (List.find?_some (p := fun m : Node => m.id = args.nodeId) hn)
    have hnode : n.type = typeOf args.nodeId := by
      rw [hdb n (List.mem_of_find?_eq_some hn), hid]
    rw [hnode]
    refine whole_checkStates fun hstate => ?_
    have hlast : Sure p typeOf (updateLifecycle p args
        (writeAudit p updatedBy "update_node" "node" args.nodeId [("input", args.json)]
          (.done (.returned .none)))) := by
      unfold updateLifecycle
      split
      next => exact sure_writeAudit (sure_done rfl)
      next state hset =>
        rw [hset] at hstate
        exact sure_lifecycle hstate rfl rfl (sure_writeAudit (sure_done rfl))
    unfold updateFields
    split
    next => exact hlast.whole
    next =>
      refine whole_execute (fun w hw => ?_) fun _ _ => hlast
      rw [List.mem_singleton.mp hw]
      trivial

theorem whole_updateNodeInternal (updatedBy now : String) (args : UpdateNodeInput) :
    Whole p typeOf (updateNodeInternal p updatedBy now args) := by
  refine whole_check fun _ => ?_
  unfold checkShared
  split
  next => exact whole_updateChecked updatedBy now args
  next => exact whole_read fun _ _ => whole_check fun _ => whole_updateChecked updatedBy now args

variable {drawn : Drawn}

theorem whole_generateSyncKey {name : String} {next : String → Mutation}
    (h : ∀ key, Whole p typeOf (next key)) :
    Whole p typeOf (generateSyncKey p name drawn next) := by
  have hsuffixed (candidate : String) : Whole p typeOf (read fun db =>
      if syncKeyTaken db candidate then next (candidate ++ "-" ++ drawn.shortSuffix)
      else next candidate) := by
    refine whole_read fun db _ => ?_
    split
    · exact h _
    · exact h _
  unfold generateSyncKey
  dsimp only
  split
  · refine whole_read fun db _ => ?_
    split
    · exact hsuffixed _
    · exact h _
  · exact hsuffixed _

variable {args : CreateNodeInput}

theorem whole_checkOrganization (h : Whole p typeOf rest) :
    Whole p typeOf (checkOrganization args rest) := by
  unfold checkOrganization
  split
  · exact h
  · split
    · exact whole_refuse _
    · refine whole_read fun db _ => ?_
      split
      · exact whole_refuse _
      · exact whole_check fun _ => h

theorem sure_persistStates {id : String}
    (hstate : args.lifecycleState.all (· ∈ getLifecycleStatesForType (typeOf id)) = true)
    (h : Sure p typeOf rest) : Sure p typeOf (persistStates p id args rest) := by
  unfold persistStates
  cases hset : args.lifecycleState with
  | some state =>
    rw [hset] at hstate
    exact sure_lifecycle hstate rfl rfl h
  | none =>
    cases args.goal with
    | some goal => exact sure_lifecycle rfl rfl rfl h
    | none => exact h

theorem typed_membership {createdBy now : String} :
    ∀ w ∈ membership createdBy now drawn args, w.Typed typeOf := by
  intro w hw
  unfold membership at hw
  split at hw
  · cases hw
  · obtain ⟨organizationId, -, rfl⟩ := Option.map_eq_some_iff.mp (Option.mem_toList.mp hw)
    trivial

theorem whole_createNodeInternal (createdBy now : String) (htype : args.type = typeOf drawn.id) :
    Whole p typeOf (createNodeInternal p createdBy now drawn args) := by
  unfold createNodeInternal
  refine whole_check fun _ => whole_checkOrganization ?_
  refine whole_checkStates fun hstate => whole_generateSyncKey fun syncKey => ?_
  rw [htype] at hstate
  refine whole_execute (fun w hw => ?_) fun _ _ =>
    sure_persistStates hstate (sure_writeAudit (sure_done rfl))
  rcases List.mem_cons.mp hw with rfl | hw
  · exact htype
  · exact typed_membership w hw

end

section

theorem sure_assignAll {id now : String} {assignees : List String} (h : Sure p typeOf rest) :
    Sure p typeOf (assignAll p id now assignees rest) := by
  induction assignees with
  | nil => exact h
  | cons actorId assignees ih =>
    refine sure_execute (fun w hw => ?_) (fun db _ hmet => ?_) fun _ => ih
    · rw [List.mem_singleton.mp hw]
      trivial
    · obtain ⟨htakes, hresponsibility, hactor⟩ := hmet _ (List.mem_singleton_self _)
      refine attempt_single_isSome htakes ?_
      simp only [Db.refuses, hresponsibility, hactor, Bool.not_true, Bool.or_self]

theorem whole_createResponsibility (createdBy now id : String) (args : CreateResponsibilityInput) :
    Whole p typeOf (createResponsibility p createdBy now id args) := by
  refine whole_execute (fun w hw => ?_) fun _ _ =>
    sure_assignAll (sure_writeAudit (sure_reloadResponsibility id _))
  rw [List.mem_singleton.mp hw]
  trivial

variable (updatedBy now : String)

theorem sure_writeOrders (orders : Orders) (updated : ℕ) :
    Sure p typeOf (writeOrders p updatedBy now orders updated) := by
  induction orders generalizing updated with
  | nil => exact sure_done rfl
  | cons order orders ih =>
    refine sure_execute (fun w hw => ?_) (fun db _ hmet => ?_) fun _ => sure_writeAudit (ih _)
    · obtain ⟨u, -, rfl⟩ := List.mem_map.mp hw
      trivial
    · refine attempt_isSome (fun w hw => (hmet w hw).1) fun w hw db => ?_
      obtain ⟨u, -, rfl⟩ := List.mem_map.mp hw
      rfl

theorem whole_loadOrders {updates : List (String × Int)} {orders : Orders}
    {next : Orders → Mutation} (h : ∀ orders, Whole p typeOf (next orders)) :
    Whole p typeOf (loadOrders updates orders next) := by
  induction updates generalizing orders with
  | nil => exact h orders
  | cons update updates ih =>
    refine whole_read fun db _ => ?_
    split
    · exact whole_refuse _
    · exact ih

theorem whole_reorderResponsibilities (updates : List (String × Int)) :
    Whole p typeOf (reorderResponsibilities p updatedBy now updates) :=
  whole_loadOrders fun orders => (sure_writeOrders updatedBy now orders 0).whole

theorem whole_updateResponsibility (args : UpdateResponsibilityInput) :
    Whole p typeOf (updateResponsibility p updatedBy now args) := by
  refine whole_read fun db _ => ?_
  split
  · exact whole_refuse _
  · split
    · trivial
    · refine whole_execute (fun w hw => ?_) fun _ _ =>
        sure_writeAudit (sure_reloadResponsibility _ _)
      rw [List.mem_singleton.mp hw]
      trivial

theorem whole_assignResponsibility (assignedBy now responsibilityId actorId : String) :
    Whole p typeOf (assignResponsibility p assignedBy now responsibilityId actorId) := by
  refine whole_execute (fun w hw => ?_) fun _ _ =>
    sure_read fun _ => sure_writeAudit (sure_done rfl)
  rw [List.mem_singleton.mp hw]
  trivial

end

theorem whole_supersedeEventInternal (userId now newId eventId newContent : String)
    (metaJson : Option (List (String × Json))) :
    Whole p typeOf (supersedeEventInternal p userId now newId eventId newContent metaJson) := by
  refine whole_read fun db _ => ?_
  split
  · exact whole_refuse _
  · refine whole_execute (fun w hw => ?_) fun _ _ => sure_writeAudit (sure_done rfl)
    rcases List.mem_cons.mp hw with rfl | hw
    · trivial
    · rw [List.mem_singleton.mp hw]
      trivial

theorem perform_updateEvent {eventId : String} {set : EventSet}
    (habsent : db.events.any (·.id = eventId) = false) :
    perform p (.batch [.updateEvent eventId set]) db = db := by
  have hsame : db.events.map (fun e => if e.id = eventId then set.apply e else e) = db.events := by
    refine (List.map_congr_left fun e he => ?_).trans (List.map_id _)
    have hid := List.any_eq_false.mp habsent e he
    rw [decide_eq_true_eq] at hid
    exact if_neg hid
  simp only [perform, attempt, Db.write, hsame]
  split
  · rfl
  · rfl

theorem sure_answerUpdatedEvent (userId eventId : String) (set : EventSet) :
    Sure p typeOf (answerUpdatedEvent p userId eventId set) := by
  refine sure_read fun db => ?_
  split
  · exact sure_done rfl
  · refine sure_writeAudit ?_
    split
    · exact sure_done rfl
    · exact sure_done rfl

theorem whole_updateEventInternal (userId eventId : String) (fields : UpdateEventFields) :
    Whole p typeOf (updateEventInternal p userId eventId fields) := by
  unfold updateEventInternal
  split
  · exact whole_refuse _
  next set _ =>
    have hanswer : Sure p typeOf (answerUpdatedEvent p userId eventId set) :=
      sure_answerUpdatedEvent userId eventId set
    intro db hdb
    refine ⟨typed_perform hdb fun w hw => ?_, ?_⟩
    · rw [List.mem_singleton.mp hw]
      trivial
    · cases hattempt : attempt p [.updateEvent eventId set] db with
      | none =>
        have hsame : perform p (.batch [.updateEvent eventId set]) db = db := by
          simp only [perform, hattempt, Option.getD_none]
        simp only [hattempt]
        exact ⟨fun _ => trivial, fun hchange => absurd hsame hchange⟩
      | some db' =>
        simp only [hattempt]
        cases hexists : db.events.any (·.id = eventId) with
        | true => exact ⟨fun _ => hanswer.whole, fun _ => hanswer.settled⟩
        | false =>
          exact ⟨fun _ => whole_refuse _, fun hchange =>
            absurd (perform_updateEvent hexists) hchange⟩

theorem whole_createActor (createdBy now id : String) (args : CreateActorInput) :
    Whole p typeOf (createActor p createdBy now id args) := by
  refine whole_check fun _ => whole_check fun _ => whole_execute (fun w hw => ?_) fun _ _ =>
    sure_writeAudit (sure_reloadActor id _)
  rw [List.mem_singleton.mp hw]
  trivial

theorem whole_updateActor (updatedBy now : String) (args : UpdateActorInput) :
    Whole p typeOf (updateActor p updatedBy now args) := by
  refine whole_read fun db _ => ?_
  split
  · exact whole_refuse _
  · refine whole_check fun _ => whole_check fun _ => ?_
    split
    · trivial
    · refine whole_execute (fun w hw => ?_) fun _ _ => sure_writeAudit (sure_reloadActor _ _)
      rw [List.mem_singleton.mp hw]
      trivial

theorem whole_mutation {call : Call} (hcall : call.Typed typeOf) :
    Whole p typeOf (mutation p call) := by
  cases call with
  | createNode createdBy now drawn args => exact whole_createNodeInternal createdBy now hcall
  | updateNode updatedBy now args => exact whole_updateNodeInternal updatedBy now args
  | createResponsibility createdBy now id args =>
    exact whole_createResponsibility createdBy now id args
  | updateResponsibility updatedBy now args => exact whole_updateResponsibility updatedBy now args
  | reorderResponsibilities updatedBy now updates =>
    exact whole_reorderResponsibilities updatedBy now updates
  | assignResponsibility assignedBy now responsibilityId actorId =>
    exact whole_assignResponsibility assignedBy now responsibilityId actorId
  | supersedeEvent userId now newId eventId newContent metaJson =>
    exact whole_supersedeEventInternal userId now newId eventId newContent metaJson
  | updateEvent userId eventId fields => exact whole_updateEventInternal userId eventId fields
  | createActor createdBy now id args => exact whole_createActor createdBy now id args
  | updateActor updatedBy now args => exact whole_updateActor updatedBy now args

/-- A mutation that throws because a check or a constraint refuses something has changed nothing, if
what comes after its first change is met; others change what they like in between. -/
theorem refused_changes_nothing {call : Call} {acts : List (Action Db)}
    {ended : Underway Statement Db Outcome} {outcome : Outcome} (hcall : call.Typed typeOf)
    (hdb : db.Typed typeOf)
    (run : Run (step (perform p)) (Allowed (Db.Typed typeOf) fun db s => s.Met p db)
      ⟨db, mutation p call, []⟩ acts ended)
    (hdone : ended.rest = .done outcome) (hrefused : outcome.isRefusal = true) :
    ended.Untouched :=
  untouched_of_refused (whole_mutation hcall) hdb run hdone hrefused

def lenient : Platform where
  takes _ := true
  ownerReferences := true
  slugifyForSyncKey name := name
  toISOString text := some text
  isJson _ := true

def node (id : String) (type : NodeType) : Node where
  id := id
  type := type
  name := "Launch"
  description := none
  metaJson := none
  status := .active
  visibility := .team
  ownerId := none
  lifecycleState := none
  health := .onTrack
  goal := none
  syncKey := id
  createdBy := "ana"
  createdAt := "2026-01-01T00:00:00Z"
  updatedAt := "2026-01-01T00:00:00Z"

def launch : Db where
  users := ["ana"]
  nodes := [node "launch" .project, node "honesty" .principle]

def unassigned : Call :=
  .createResponsibility "ana" "2026-01-02T00:00:00Z" "01ARZ3NDEKTSV4RRFFQ69G5FAV"
    { nodeId := "launch", title := "Budget", assignees := some ["nobody"] }

theorem refused_after_insert :
    ∃ ended, Run (step (perform lenient)) (fun _ _ => True) ⟨launch, mutation lenient unassigned, []⟩
        [.next, .next] ended ∧
      ended.rest = .done .aborted ∧ ended.state.auditLog = [] ∧ ¬ended.Untouched := by
  let start : Underway Statement Db Outcome := ⟨launch, mutation lenient unassigned, []⟩
  let ended := (exec (step (perform lenient)) start [.next, .next]).getD start
  have run : Run (step (perform lenient)) (fun _ _ => True) start [.next, .next] ended :=
    Run.of_exec_eq_some rfl
  refine ⟨ended, run, rfl, rfl, fun untouched => ?_⟩
  have hfirst := untouched (launch, perform lenient (.batch [.insertResponsibility
    ⟨"01ARZ3NDEKTSV4RRFFQ69G5FAV", "launch", "Budget", none, 0, "2026-01-02T00:00:00Z",
      "2026-01-02T00:00:00Z"⟩]) launch) List.mem_cons_self
  revert hfirst
  decide +kernel

def misplaced : Call :=
  .createResponsibility "ana" "2026-01-02T00:00:00Z" "01ARZ3NDEKTSV4RRFFQ69G5FAV"
    { nodeId := "honesty", title := "Budget", assignees := some ["nobody"] }

def typeOfSample (id : String) : NodeType := if id = "launch" then .project else .principle

theorem refused_changes_nothing_on_principle :
    ∃ ended, Run (step (perform lenient))
        (Allowed (Db.Typed typeOfSample) fun db s => s.Met lenient db)
        ⟨launch, mutation lenient misplaced, []⟩ [.others launch, .next] ended ∧
      ended.rest = .done .aborted ∧ ended.Untouched := by
  have hlaunch : launch.Typed typeOfSample := by
    show ∀ n ∈ launch.nodes, n.type = typeOfSample n.id
    decide +kernel
  let start : Underway Statement Db Outcome := ⟨launch, mutation lenient misplaced, []⟩
  let ended := (exec (step (perform lenient)) start [.next]).getD start
  have before : Run (step (perform lenient))
      (Allowed (Db.Typed typeOfSample) fun db s => s.Met lenient db) start [.others launch] start :=
    Run.snoc (Action.others launch) Run.nil hlaunch rfl
  have huntouched : start.Untouched := fun effect he => by cases he
  have run : Run (step (perform lenient))
      (Allowed (Db.Typed typeOfSample) fun db s => s.Met lenient db) start
      [.others launch, .next] ended :=
    Run.snoc Action.next before (Or.inl huntouched) rfl
  have hcall : misplaced.Typed typeOfSample := trivial
  exact ⟨ended, run, rfl, refused_changes_nothing hcall hlaunch run rfl rfl⟩

end Portuni.GraphMutations
