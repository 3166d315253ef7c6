import Portuni.Transcript.Rows

/-!
The transcript accounts for every event of the log, and its rows keep their keys and places while
the log grows.
-/

namespace Portuni.Transcript

open EventStream (ChatEvent)

def IsParent (events : List Item) (id parent : String) : Prop :=
  ∃ x call, latestEvent events id = some x ∧ callOf x = some call ∧
    call.parentToolUseId = some parent

/-- The later events name no other parent for a call that has events already. -/
def KeepsParents (events more : List Item) : Prop :=
  ∀ id x y, latestEvent events id = some x → latestEvent (events ++ more) id = some y →
    (callOf y).bind ToolCall.parentToolUseId = (callOf x).bind ToolCall.parentToolUseId

/-- The rows show every event once: by a row, by an item, or, a tool call, by the latest of its
events, as an item or below the item of its parent. -/
structure Accounted (events : List Item) (rows : List TranscriptRow) : Prop where
  plainRows : rows.filterMap TranscriptRow.plainRow = events.filterMap shownAs
  items : (rows.flatMap TranscriptRow.items).flatMap ActivityItem.plain =
    events.filterMap plainItemOf
  calls : ∀ id, ((rows.flatMap TranscriptRow.items).flatMap ActivityItem.toolEvents).filter
    (fun e => toolIdOf e = some id) = (latestEvent events id).toList
  nested : ∀ item ∈ rows.flatMap TranscriptRow.items, item.Nested
  /-- An item's place is that of its first event. -/
  groups : ∀ row ∈ rows, ∀ x ∈ row.items, ∀ y ∈ row.items, ∀ b ∈ events, isBoundary b = true →
    x.keySeq (firstToolSeq events) < b.seq → y.keySeq (firstToolSeq events) < b.seq
  keys : (rows.map TranscriptRow.key).Nodup

section

variable {events more : List Item} {x : Item}

theorem placeOf_eq_startOf (events : List Item) (x : Item) :
    placeOf (firstToolSeq events) x = startOf events x := by
  unfold placeOf startOf
  cases hx : callOf x with
  | some call =>
    rw [itemOf_toolCall (exists_call hx), toolIdOf, hx]
    rfl
  | none =>
    rw [toolIdOf, hx]
    unfold itemOf
    unfold callOf at hx
    cases hevent : x.event <;> simp [hevent] at hx ⊢ <;> rfl

def derived (events : List Item) : Derivation :=
  (collapseToolCalls events).foldl (Derivation.step (firstToolSeq events)) {}

theorem deriveTranscriptRows_eq (events : List Item) (liveRunId : Option String) :
    ∃ mark : ActivityRow → Bool, deriveTranscriptRows events liveRunId =
      (derived events).rows ++ (((derived events).open_.map fun group =>
        markLive (mark group) group).map TranscriptRow.activity).toList :=
  ⟨_, rfl⟩

theorem map_deriveTranscriptRows {α : Type*} (f : TranscriptRow → α)
    (hf : ∀ live group, f (.activity (markLive live group)) = f (.activity group))
    (events : List Item) (liveRunId : Option String) :
    (deriveTranscriptRows events liveRunId).map f = (derived events).allRows.map f := by
  obtain ⟨mark, heq⟩ := deriveTranscriptRows_eq events liveRunId
  rw [heq, Derivation.allRows, List.map_append, List.map_append]
  congr 1
  cases (derived events).open_ with
  | none => rfl
  | some group => simp [hf]

theorem keys_deriveTranscriptRows (events : List Item) (liveRunId : Option String) :
    (deriveTranscriptRows events liveRunId).map TranscriptRow.key =
      (((collapseToolCalls events).map (shapeOf (firstToolSeq events))).foldl
        Skeleton.step {}).keys := by
  rw [map_deriveTranscriptRows TranscriptRow.key (fun _ _ => rfl), derived]
  exact congrArg Skeleton.keys (skeleton_foldl (firstToolSeq events) (collapseToolCalls events) {})

theorem places_sorted (h : Sorted events) :
    ((collapseToolCalls events).map (placeOf (firstToolSeq events))).Pairwise (· < ·) := by
  rw [List.map_congr_left fun x _ => placeOf_eq_startOf events x]
  exact starts_sorted h

theorem lone_collapse (events : List Item) (id : String) :
    ((collapseToolCalls events).filter fun x => toolIdOf x = some id).length ≤ 1 := by
  rw [filter_collapse]
  cases latestEvent events id <;> simp

theorem latestEvent_of_mem {id : String} (h : x ∈ collapseToolCalls events)
    (hx : toolIdOf x = some id) : latestEvent events id = some x := by
  have hmem : x ∈ (collapseToolCalls events).filter fun x => toolIdOf x = some id :=
    List.mem_filter.mpr ⟨h, decide_eq_true hx⟩
  rwa [filter_collapse, Option.mem_toList] at hmem

theorem plainRows_foldl (first : String → Option ℕ) (events : List Item) :
    (events.foldl (Derivation.step first) {}).allRows.filterMap TranscriptRow.plainRow =
      events.filterMap shownAs := by
  induction events using List.reverseRecOn with
  | nil => rfl
  | append_singleton events e ih =>
    rw [List.foldl_append, List.foldl_cons, List.foldl_nil, plainRows_step, ih,
      List.filterMap_append]
    congr 1

theorem shownAs_call (x : Item) (h : (toolIdOf x).isSome) : shownAs x = none := by
  obtain ⟨call, hcall⟩ := Option.isSome_iff_exists.mp (Option.isSome_map ▸ h)
  exact shownAs_toolCall (exists_call hcall)

theorem plainItemOf_call (x : Item) (h : (toolIdOf x).isSome) : plainItemOf x = none := by
  rw [plainItemOf, if_pos h]

theorem isBoundary_call (h : isBoundary x = true) : toolIdOf x = none := by
  cases hcall : callOf x with
  | none => rw [toolIdOf, hcall, Option.map_none]
  | some call =>
    rw [isBoundary_toolCall (exists_call hcall)] at h
    cases h

theorem mem_collapse_of_other (h : x ∈ events) (hx : toolIdOf x = none) :
    x ∈ collapseToolCalls events := by
  have hkept := filterMap_collapse (fun x => if (toolIdOf x).isSome then none else some x)
    (fun x hx => if_pos hx) events
  have hmem : x ∈ (collapseToolCalls events).filterMap
      fun x => if (toolIdOf x).isSome then none else some x := by
    rw [hkept]
    exact List.mem_filterMap.mpr ⟨x, h, by simp [hx]⟩
  obtain ⟨y, hy, heq⟩ := List.mem_filterMap.mp hmem
  split at heq
  · cases heq
  · exact Option.some.inj heq ▸ hy

theorem accounted (hsorted : Sorted events) (hself : ∀ id, ¬IsParent events id id)
    (liveRunId : Option String) : Accounted events (deriveTranscriptRows events liveRunId) := by
  have hplaces := places_sorted hsorted
  have haccounts := accounts_foldl (firstToolSeq events) (collapseToolCalls events)
    (lone_collapse events) fun x hx call hcall hown => hself call.toolUseId
      ⟨x, call, latestEvent_of_mem hx (toolIdOf_toolCall hcall), callOf_toolCall hcall, hown⟩
  have hsegments := segments_foldl (collapseToolCalls events) hplaces
  have hrows := map_deriveTranscriptRows TranscriptRow.items (fun _ _ => rfl) events liveRunId
  have hitems : (deriveTranscriptRows events liveRunId).flatMap TranscriptRow.items =
      (derived events).items := by
    rw [List.flatMap_def, hrows]
    rfl
  refine ⟨?_, ?_, fun id => ?_, ?_, fun row hrow x hx y hy b hb hboundary hlt => ?_, ?_⟩
  · have hplain := map_deriveTranscriptRows TranscriptRow.plainRow (fun _ _ => rfl) events liveRunId
    have hkept : ∀ rows : List TranscriptRow, rows.filterMap TranscriptRow.plainRow =
        (rows.map TranscriptRow.plainRow).filterMap id := fun rows => by
      rw [List.filterMap_map, Function.id_comp]
    rw [hkept, hplain, ← hkept]
    exact (plainRows_foldl _ _).trans (filterMap_collapse shownAs shownAs_call events)
  · rw [hitems]
    exact haccounts.plain.trans (filterMap_collapse plainItemOf plainItemOf_call events)
  · rw [hitems]
    exact (haccounts.calls id).trans (filter_collapse events id)
  · rw [hitems]
    exact haccounts.nested
  · have hmem : row.items ∈ (derived events).allRows.map TranscriptRow.items :=
      hrows ▸ List.mem_map_of_mem hrow
    obtain ⟨row₀, hrow₀, heq⟩ := List.mem_map.mp hmem
    rw [← heq] at hx hy
    exact hsegments.groups row₀ hrow₀ x hx y hy b
      (mem_collapse_of_other hb (isBoundary_call hboundary)) hboundary hlt
  · rw [keys_deriveTranscriptRows]
    exact (nodup_rowKeys hplaces).sublist (keys_sublist _ _)

end

section

variable {events more : List Item} {x : Item}

theorem parent_refresh (h : KeepsParents events more) (hx : x ∈ collapseToolCalls events) :
    (callOf (refresh (events ++ more) x)).bind ToolCall.parentToolUseId =
      (callOf x).bind ToolCall.parentToolUseId := by
  unfold refresh
  cases hid : toolIdOf x with
  | none => rfl
  | some id =>
    rw [Option.bind_some]
    cases hlatest : latestEvent (events ++ more) id with
    | none => rfl
    | some y => exact h id x y (latestEvent_of_mem hx hid) hlatest

theorem refresh_of_other (h : toolIdOf x = none) (events : List Item) : refresh events x = x := by
  rw [refresh, h]
  rfl

theorem shapeOf_refresh (h : KeepsParents events more) (hx : x ∈ collapseToolCalls events) :
    shapeOf (firstToolSeq (events ++ more)) (refresh (events ++ more) x) =
      shapeOf (firstToolSeq events) x := by
  have hplace : placeOf (firstToolSeq (events ++ more)) (refresh (events ++ more) x) =
      placeOf (firstToolSeq events) x := by
    rw [placeOf_eq_startOf, placeOf_eq_startOf]
    have hstart := startOf_append (mem_of_mem_collapse hx) more
    cases hid : toolIdOf x with
    | none => rw [refresh_of_other hid, hstart]
    | some id =>
      rw [← hstart]
      exact startOf_of_call ((toolIdOf_refresh _ x).trans hid) hid
        (List.mem_append_left _ (mem_of_mem_collapse hx))
  have hid := toolIdOf_refresh (events ++ more) x
  have hparent := parent_refresh h hx
  cases hcall : callOf x with
  | none =>
    have hnone : toolIdOf x = none := by rw [toolIdOf, hcall, Option.map_none]
    rw [refresh_of_other hnone] at hplace ⊢
    rw [shapeOf, shapeOf, hcall, hplace]
  | some call =>
    rw [toolIdOf, toolIdOf, hcall] at hid
    obtain ⟨call', hcall', hsame⟩ := Option.map_eq_some_iff.mp hid
    rw [hcall, hcall', Option.bind_some, Option.bind_some] at hparent
    rw [shapeOf, shapeOf, hcall, hcall', hplace]
    simp only [hsame, hparent]

theorem keys_growing (h : KeepsParents events more) (live live' : Option String) :
    (deriveTranscriptRows events live).map TranscriptRow.key <+:
      (deriveTranscriptRows (events ++ more) live').map TranscriptRow.key := by
  obtain ⟨rest, hrest⟩ := collapse_append events more
  have hshapes : ((collapseToolCalls events).map (refresh (events ++ more))).map
      (shapeOf (firstToolSeq (events ++ more))) =
        (collapseToolCalls events).map (shapeOf (firstToolSeq events)) := by
    rw [List.map_map]
    exact List.map_congr_left fun x hx => shapeOf_refresh h hx
  rw [keys_deriveTranscriptRows, keys_deriveTranscriptRows, hrest, List.map_append, hshapes,
    List.foldl_append]
  exact keys_foldl _ _

end

variable {events : List Item}

theorem transcript_accounts (hsorted : Sorted events)
    (hancestors : ∀ id, ¬Relation.TransGen (IsParent events) id id) (live : Option String) :
    Accounted events (deriveTranscriptRows events live) ∧
      ∀ more live', KeepsParents events more →
        (deriveTranscriptRows events live).map TranscriptRow.key <+:
          (deriveTranscriptRows (events ++ more) live').map TranscriptRow.key :=
  ⟨accounted hsorted (fun id h => hancestors id (.single h)) live,
    fun _ live' h => keys_growing h live live'⟩

def toolEvent (seq : ℕ) (id : String) (parent : Option String) (status : ToolCallStatus) :
    Item where
  seq := seq
  event := .toolCall {
    toolUseId := id, tool := "Bash", category := .command, title := id, inputSummary := ""
    status := status, outputExcerpt := none, truncated := false, outputCode := none
    outputParams := none, parentToolUseId := parent }

theorem mem_of_isParent {id parent : String} (h : IsParent events id parent) :
    ∃ x ∈ events, toolIdOf x = some id ∧
      (callOf x).bind ToolCall.parentToolUseId = some parent := by
  obtain ⟨x, call, hlatest, hcall, hparent⟩ := h
  refine ⟨x, (List.mem_filter.mp (List.mem_of_getLast? hlatest)).1,
    toolIdOf_latestEvent hlatest, ?_⟩
  rw [hcall, Option.bind_some, hparent]

theorem acyclic_of_root (root : String) (h : ∀ x ∈ events,
    (callOf x).bind ToolCall.parentToolUseId = none ∨
      (callOf x).bind ToolCall.parentToolUseId = some root ∧ toolIdOf x ≠ some root)
    (id : String) : ¬Relation.TransGen (IsParent events) id id := by
  have hparents : ∀ x ∈ events, ∀ parent,
      (callOf x).bind ToolCall.parentToolUseId = some parent →
        parent = root ∧ toolIdOf x ≠ some root := by
    intro x hx parent hparent
    rcases h x hx with hnone | ⟨hroot, hne⟩
    · rw [hnone] at hparent
      cases hparent
    · exact ⟨Option.some.inj (hparent.symm.trans hroot), hne⟩
  intro hcycle
  obtain ⟨parent, hfirst, -⟩ := Relation.TransGen.head'_iff.mp hcycle
  obtain ⟨child, -, hlast⟩ := Relation.TransGen.tail'_iff.mp hcycle
  obtain ⟨x, hx, hid, hparent⟩ := mem_of_isParent hfirst
  obtain ⟨y, hy, -, hroot⟩ := mem_of_isParent hlast
  obtain rfl := (hparents y hy _ hroot).1
  exact (hparents x hx _ hparent).2 hid

theorem keepsParents_singleton {e : Item} (h : ∀ x ∈ events, toolIdOf x = toolIdOf e →
    (callOf e).bind ToolCall.parentToolUseId = (callOf x).bind ToolCall.parentToolUseId) :
    KeepsParents events [e] := by
  intro id x y hx hy
  rw [latestEvent_concat] at hy
  split at hy
  · next he =>
    cases hy
    exact h x (List.mem_filter.mp (List.mem_of_getLast? hx)).1
      ((toolIdOf_latestEvent hx).trans he.symm)
  · rw [Option.some.inj (hx.symm.trans hy)]

def subagentLog : List Item :=
  [⟨1, .userMessage "go"⟩, toolEvent 2 "task" none .started,
    toolEvent 3 "sub" (some "task") .started, ⟨4, .assistantMessage "underway"⟩]

def subagentDone : Item := toolEvent 5 "sub" (some "task") .completed

theorem transcript_accounts_subagent :
    Accounted subagentLog (deriveTranscriptRows subagentLog none) ∧
      (deriveTranscriptRows subagentLog none).map TranscriptRow.key <+:
        (deriveTranscriptRows (subagentLog ++ [subagentDone]) none).map TranscriptRow.key := by
  have hroot : ∀ id, ¬Relation.TransGen (IsParent subagentLog) id id :=
    acyclic_of_root "task" (by decide)
  have hsorted : Sorted subagentLog := by decide
  have h := transcript_accounts hsorted hroot none
  exact ⟨h.1, h.2 [subagentDone] none (keepsParents_singleton (by decide))⟩

def movedLog : List Item :=
  [toolEvent 1 "task" none .started, ⟨2, .assistantMessage "underway"⟩,
    toolEvent 3 "sub" none .started]

def movedUnder : Item := toolEvent 4 "sub" (some "task") .completed

theorem rows_lost_under_late_parent :
    ¬∀ (events more : List Item) (live live' : Option String), Sorted (events ++ more) →
      (∀ id, ¬Relation.TransGen (IsParent events) id id) →
      (∀ id, ¬Relation.TransGen (IsParent (events ++ more)) id id) →
        (deriveTranscriptRows events live).map TranscriptRow.key <+:
          (deriveTranscriptRows (events ++ more) live').map TranscriptRow.key := by
  intro hclaim
  have h := hclaim movedLog [movedUnder] none none (by decide)
    (acyclic_of_root "task" (by decide)) (acyclic_of_root "task" (by decide))
  have hlength := h.length_le
  revert hlength
  decide

end Portuni.Transcript
