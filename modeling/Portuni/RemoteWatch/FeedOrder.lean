import Portuni.Library.InsertionOrder
import Portuni.RemoteWatch.Batch

/-!
What the reducer makes of a batch: one fate for each change, the last change of
each path in the place of its first, and what that order of replay costs.
-/

namespace Portuni.RemoteWatch

open Files Library.InsertionOrder

structure Owner (nodes : List WatchedNode) (path : RemotePath) (node : WatchedNode) : Prop where
  mem : node ∈ nodes
  below : (below node.nodeRoot path).isSome
  longest : ∀ other ∈ nodes, (Files.below other.nodeRoot path).isSome →
    other.nodeRoot.length ≤ node.nodeRoot.length

inductive Fate where
  | dropped (path : Option RemotePath) (reason : DropReason)
  | swept (nodeId : String)
  | planned (c : PlannedChange)

def Fate.dropped? : Fate → Option (Option RemotePath × DropReason)
  | .dropped path reason => some (path, reason)
  | _ => none

def Fate.planned? : Fate → Option PlannedChange
  | .planned c => some c
  | _ => none

/-- The section that the first segment below the root of a node names. -/
def sectionUnder (node : WatchedNode) (path : RemotePath) : Option FileSection :=
  (path.drop node.nodeRoot.length).head?.bind FileSection.ofSegment

inductive OfFile (path : RemotePath) : RemoteChange → (WatchedNode → PlannedChange) → Prop where
  | upsert (hash fileId : Option String) :
      OfFile path (.upsert path hash false fileId) fun node => .upsert node path hash fileId
  | remove (fileId : Option String) :
      OfFile path (.remove (some path) fileId) fun node => .remove node path fileId

inductive RightFate (nodes : List WatchedNode) : RemoteChange → Fate → Prop where
  | noPath : RightFate nodes (.remove none none) (.dropped none .noPath)
  | byId (x : String) : RightFate nodes (.remove none (some x)) (.planned (.removeById x))
  | swept {path : RemotePath} {hash fileId : Option String} {node : WatchedNode}
      (owner : Owner nodes path node) (tracked : (sectionUnder node path).isSome) :
      RightFate nodes (.upsert path hash true fileId) (.swept node.nodeId)
  | folder {path : RemotePath} {hash fileId : Option String}
      (outside : ∀ node, Owner nodes path node → sectionUnder node path = none) :
      RightFate nodes (.upsert path hash true fileId) (.dropped (some path) .folder)
  | outOfRoot {path : RemotePath} {c : RemoteChange} {change : WatchedNode → PlannedChange}
      (file : OfFile path c change) (outside : ∀ node ∈ nodes, below node.nodeRoot path = none) :
      RightFate nodes c (.dropped (some path) .outOfRoot)
  | outOfSection {path : RemotePath} {c : RemoteChange} {change : WatchedNode → PlannedChange}
      {node : WatchedNode} (file : OfFile path c change) (owner : Owner nodes path node)
      (outside : adoptableSection node.nodeRoot path = none) :
      RightFate nodes c (.dropped (some path) .outOfSection)
  | planned {path : RemotePath} {c : RemoteChange} {change : WatchedNode → PlannedChange}
      {node : WatchedNode} (file : OfFile path c change) (owner : Owner nodes path node)
      (tracked : (adoptableSection node.nodeRoot path).isSome) :
      RightFate nodes c (.planned (change node))

def fileFate (nodes : List WatchedNode) (path : RemotePath)
    (change : WatchedNode → PlannedChange) : Fate :=
  match nodeFor nodes path with
  | none => .dropped (some path) .outOfRoot
  | some node =>
    if (adoptableSection node.nodeRoot path).isNone then .dropped (some path) .outOfSection
    else .planned (change node)

def fate (nodes : List WatchedNode) : RemoteChange → Fate
  | .upsert path hash isFolder fileId =>
    if isFolder then
      match nodeFor nodes path with
      | some node =>
        if (sectionUnder node path).isSome then .swept node.nodeId
        else .dropped (some path) .folder
      | none => .dropped (some path) .folder
    else fileFate nodes path fun node => .upsert node path hash fileId
  | .remove none fileId =>
    match fileId with
    | some x => .planned (.removeById x)
    | none => .dropped none .noPath
  | .remove (some path) fileId => fileFate nodes path fun node => .remove node path fileId

def RemoteChangePlan.add (plan : RemoteChangePlan) : Fate → RemoteChangePlan
  | .dropped path reason => plan.drop path reason
  | .swept nodeId => { plan with sweepNodeIds := plan.sweepNodeIds.insert nodeId }
  | .planned c => { plan with planned := setPlanned plan.planned c }

def fileChanges (nodes : List WatchedNode) (changes : List RemoteChange) : List PlannedChange :=
  changes.filterMap fun c => (fate nodes c).planned?

variable {nodes : List WatchedNode} {path q : RemotePath} {changes : List RemoteChange}

theorem owner_of_nodeFor {node : WatchedNode} (h : nodeFor nodes path = some node) :
    Owner nodes path node := by
  obtain ⟨hbelow, front, rest, hsplit, hfront⟩ := List.find?_eq_some_iff_append.mp h
  have hmem : ∀ other, other ∈ nodes ↔ other ∈ front ++ node :: rest := fun other => by
    rw [← hsplit, List.mem_mergeSort]
  have hsorted : (front ++ node :: rest).Pairwise
      fun a b => decide (b.nodeRoot.length ≤ a.nodeRoot.length) = true := by
    rw [← hsplit]
    apply List.pairwise_mergeSort
    · intro a b c hab hbc
      simp only [decide_eq_true_eq] at hab hbc ⊢
      omega
    · intro a b
      simp only [Bool.or_eq_true, decide_eq_true_eq]
      omega
  refine ⟨(hmem node).mpr (by simp), hbelow, fun other hother hother' => ?_⟩
  rcases List.mem_append.mp ((hmem other).mp hother) with hother | hother
  · have := hfront other hother
    simp [hother'] at this
  · rcases List.mem_cons.mp hother with rfl | hother
    · exact le_refl _
    · have hrest := (List.pairwise_append.mp hsorted).2.1
      exact of_decide_eq_true (List.rel_of_pairwise_cons hrest hother)

theorem Owner.sectionUnder_eq {node other : WatchedNode} (h : Owner nodes path node)
    (h' : Owner nodes path other) : sectionUnder node path = sectionUnder other path := by
  have hle := h.longest other h'.mem h'.below
  have hge := h'.longest node h.mem h.below
  have hlength : node.nodeRoot.length = other.nodeRoot.length := by omega
  rw [sectionUnder, sectionUnder, hlength]

theorem outside_of_nodeFor (h : nodeFor nodes path = none) :
    ∀ node ∈ nodes, below node.nodeRoot path = none := by
  intro node hnode
  have := List.find?_eq_none.mp h node (List.mem_mergeSort.mpr hnode)
  simpa using this

variable {change : WatchedNode → PlannedChange}

theorem rightFate_fileFate {c : RemoteChange} (file : OfFile path c change) :
    RightFate nodes c (fileFate nodes path change) := by
  unfold fileFate
  split
  next h => exact .outOfRoot file (outside_of_nodeFor h)
  next node h =>
    split
    next hnone => exact .outOfSection file (owner_of_nodeFor h) (by simpa using hnone)
    next hsome =>
      exact .planned file (owner_of_nodeFor h) (by simpa [Option.isSome_iff_ne_none] using hsome)

theorem rightFate_fate (nodes : List WatchedNode) (c : RemoteChange) :
    RightFate nodes c (fate nodes c) := by
  cases c with
  | upsert path hash isFolder fileId =>
    cases isFolder with
    | false => exact rightFate_fileFate (.upsert hash fileId)
    | true =>
      simp only [fate, if_true]
      split
      next node h =>
        split
        next hsome => exact .swept (owner_of_nodeFor h) hsome
        next hnone =>
          refine .folder fun other hother => ?_
          rw [hother.sectionUnder_eq (owner_of_nodeFor h)]
          simpa using hnone
      next h =>
        refine .folder fun node hnode => ?_
        have hbelow := hnode.below
        rw [outside_of_nodeFor h node hnode.mem] at hbelow
        cases hbelow
  | remove path fileId =>
    cases path with
    | some path => exact rightFate_fileFate (.remove fileId)
    | none =>
      cases fileId with
      | none => exact .noPath
      | some x => exact .byId x

variable {plan : RemoteChangePlan}

theorem take_eq_add : plan.take nodes path change = plan.add (fileFate nodes path change) := by
  unfold RemoteChangePlan.take fileFate
  cases nodeFor nodes path with
  | none => rfl
  | some node =>
    show (if (adoptableSection node.nodeRoot path).isNone then _ else _) =
      plan.add (if (adoptableSection node.nodeRoot path).isNone then _ else _)
    split
    · rfl
    · rfl

theorem planChange_eq_add {c : RemoteChange} :
    planChange nodes plan c = plan.add (fate nodes c) := by
  cases c with
  | upsert path hash isFolder fileId =>
    cases isFolder with
    | false => exact take_eq_add
    | true =>
      simp only [planChange, fate, if_true]
      cases nodeFor nodes path with
      | none => rfl
      | some node =>
        show (if (sectionUnder node path).isSome then _ else _) =
          plan.add (if (sectionUnder node path).isSome then _ else _)
        split
        · rfl
        · rfl
  | remove path fileId =>
    cases path with
    | some path => exact take_eq_add
    | none => cases fileId <;> rfl

theorem planRemoteChanges_append_singleton {c : RemoteChange} :
    planRemoteChanges (changes ++ [c]) nodes =
      (planRemoteChanges changes nodes).add (fate nodes c) := by
  rw [planRemoteChanges, List.foldl_append]
  exact planChange_eq_add

theorem dropped_planRemoteChanges : (planRemoteChanges changes nodes).dropped =
    changes.filterMap fun c => (fate nodes c).dropped? := by
  induction changes using List.reverseRecOn with
  | nil => rfl
  | append_singleton changes c ih =>
    rw [planRemoteChanges_append_singleton, List.filterMap_append, ← ih]
    cases h : fate nodes c with
    | dropped path reason => simp [RemoteChangePlan.add, RemoteChangePlan.drop, h, Fate.dropped?]
    | swept nodeId | planned d => simp [RemoteChangePlan.add, h, Fate.dropped?]

theorem mem_sweepNodeIds {nodeId : String} :
    nodeId ∈ (planRemoteChanges changes nodes).sweepNodeIds ↔
      ∃ c ∈ changes, fate nodes c = .swept nodeId := by
  induction changes using List.reverseRecOn with
  | nil => simp [planRemoteChanges]
  | append_singleton changes c ih =>
    rw [planRemoteChanges_append_singleton]
    cases h : fate nodes c with
    | dropped path reason => simp [RemoteChangePlan.add, RemoteChangePlan.drop, h, ih]
    | swept other => simp [RemoteChangePlan.add, h, ih, or_comm, eq_comm]
    | planned d => simp [RemoteChangePlan.add, h, ih]

theorem nodup_sweepNodeIds : (planRemoteChanges changes nodes).sweepNodeIds.Nodup := by
  induction changes using List.reverseRecOn with
  | nil => exact List.nodup_nil
  | append_singleton changes c ih =>
    rw [planRemoteChanges_append_singleton]
    cases fate nodes c with
    | dropped path reason => exact ih
    | swept nodeId => exact List.Nodup.insert ih
    | planned d => exact ih

theorem planned_planRemoteChanges : (planRemoteChanges changes nodes).planned =
    collect PlannedChange.key (fileChanges nodes changes) := by
  induction changes using List.reverseRecOn with
  | nil => rfl
  | append_singleton changes c ih =>
    have happend : fileChanges nodes (changes ++ [c]) =
        fileChanges nodes changes ++ (fate nodes c).planned?.toList := by
      rw [fileChanges, List.filterMap_append, fileChanges]
      cases h : (fate nodes c).planned? <;> simp [h]
    rw [planRemoteChanges_append_singleton, happend]
    cases fate nodes c with
    | dropped path reason => simpa [Fate.planned?, RemoteChangePlan.add, RemoteChangePlan.drop]
    | swept nodeId => simpa [Fate.planned?, RemoteChangePlan.add]
    | planned d =>
      have hset : collect PlannedChange.key (fileChanges nodes changes ++ [d]) =
          setPlanned (collect PlannedChange.key (fileChanges nodes changes)) d :=
        collect_append_singleton
      exact (congrArg (setPlanned · d) ih).trans hset.symm

/-- What a path of the remote holds: the object, where the backend names it, and its hash. -/
structure Held where
  object : Option String
  hash : Option String
deriving DecidableEq

abbrev RemoteTree := RemotePath → Option Held

def Held.namedBy (held : Held) (c : PlannedChange) : Bool :=
  held.object.isSome && decide (c.object? = held.object)

def PlannedChange.held : PlannedChange → Option Held
  | .upsert _ _ hash fileId => some ⟨fileId, hash⟩
  | _ => none

/-- A change says what its path holds. The object that it names is nowhere else. -/
def settle (tree : RemoteTree) (c : PlannedChange) : RemoteTree := fun path =>
  if c.key = .path path then c.held else (tree path).filter fun held => !held.namedBy c

def replay (changes : List PlannedChange) (tree : RemoteTree) : RemoteTree :=
  changes.foldl settle tree

/-- What is left of what a path holds when the changes name other paths. -/
def surviving (changes : List PlannedChange) (held : Option Held) : Option Held :=
  held.filter fun held => !changes.any held.namedBy

@[simp]
theorem surviving_none (changes : List PlannedChange) : surviving changes none = none :=
  rfl

theorem surviving_some (changes : List PlannedChange) (held : Held) :
    surviving changes (some held) = if changes.any held.namedBy then none else some held := by
  unfold surviving
  cases hany : changes.any held.namedBy <;> simp [Option.filter, hany]

@[simp]
theorem surviving_unnamed (changes : List PlannedChange) (hash : Option String) :
    surviving changes (some ⟨none, hash⟩) = some ⟨none, hash⟩ := by
  rw [surviving_some, if_neg]
  simp [Held.namedBy]

variable {planned before after : List PlannedChange} {tree : RemoteTree} {c : PlannedChange}

theorem replay_elsewhere (h : ∀ c ∈ planned, c.key ≠ .path q) :
    replay planned tree q = surviving planned (tree q) := by
  induction planned generalizing tree with
  | nil =>
    show tree q = surviving [] (tree q)
    cases tree q with
    | none => rfl
    | some held => rfl
  | cons c rest ih =>
    obtain ⟨hc, hrest⟩ := List.forall_mem_cons.mp h
    have hsettle : settle tree c q = (tree q).filter fun held => !held.namedBy c := if_neg hc
    have hreplay : replay (c :: rest) tree = replay rest (settle tree c) := rfl
    rw [hreplay, ih hrest, hsettle]
    cases tree q with
    | none => rfl
    | some held =>
      rw [surviving_some, List.any_cons]
      cases hnamed : held.namedBy c with
      | true => simp [Option.filter, hnamed]
      | false => simp [Option.filter, hnamed, surviving_some]

theorem replay_last (hkey : c.key = .path q) (hlast : ∀ d ∈ after, d.key ≠ c.key) :
    replay (before ++ c :: after) tree q = surviving after c.held := by
  have hreplay : replay (before ++ c :: after) tree =
      replay after (settle (replay before tree) c) := by
    rw [replay, List.foldl_append]
    rfl
  have hsettle : settle (replay before tree) c q = c.held := if_pos hkey
  rw [hreplay, replay_elsewhere fun d hd => hkey ▸ hlast d hd, hsettle]

theorem surviving_eq_iff {planned' : List PlannedChange} {x : String} {hash : Option String} :
    surviving planned (some ⟨some x, hash⟩) = surviving planned' (some ⟨some x, hash⟩) ↔
      ((∃ c ∈ planned, c.object? = some x) ↔ ∃ c ∈ planned', c.object? = some x) := by
  have hany : ∀ planned : List PlannedChange,
      planned.any (Held.namedBy ⟨some x, hash⟩) = true ↔ ∃ c ∈ planned, c.object? = some x := by
    intro planned
    simp [List.any_eq_true, Held.namedBy]
  rw [← hany planned, ← hany planned', surviving_some, surviving_some]
  cases planned.any (Held.namedBy ⟨some x, hash⟩) <;>
    cases planned'.any (Held.namedBy ⟨some x, hash⟩) <;> simp

/-- The order of the plan is that of the feed as far as it matters: an object is still named
by what is planned, and after the last upsert of a path it is named by a later change of the
feed exactly if it is by the last change of a path, or an id, that the feed takes up later. -/
structure InFeedOrder (planned : List PlannedChange) : Prop where
  named : ∀ c ∈ planned, ∀ x, c.object? = some x →
    ∃ d, IsLast PlannedChange.key planned d ∧ d.object? = some x
  moved : ∀ node path hash x before after,
    planned = before ++ .upsert node path hash (some x) :: after →
      (∀ d ∈ after, d.key ≠ .path path) →
        ((∃ d ∈ after, d.object? = some x) ↔
          ∃ d, IsLast PlannedChange.key planned d ∧ d.object? = some x ∧
            FirstBefore PlannedChange.key planned (.path path) d.key)

theorem exists_fresh_path (planned : List PlannedChange) :
    ∃ q : RemotePath, ∀ c ∈ planned, c.key ≠ .path q := by
  have hbound : ∃ n : ℕ, ∀ c ∈ planned, ∀ q : RemotePath, c.key = .path q → q.length < n := by
    induction planned with
    | nil => exact ⟨0, fun c hc => by cases hc⟩
    | cons c rest ih =>
      obtain ⟨n, hn⟩ := ih
      cases hkey : c.key with
      | path p =>
        refine ⟨max n (p.length + 1), List.forall_mem_cons.mpr ⟨fun q hq => ?_, ?_⟩⟩
        · obtain rfl := PlanKey.path.inj (hkey.symm.trans hq)
          omega
        · intro d hd q hq
          have := hn d hd q hq
          omega
      | id x =>
        refine ⟨n, List.forall_mem_cons.mpr ⟨fun q hq => ?_, hn⟩⟩
        rw [hkey] at hq
        cases hq
  obtain ⟨n, hn⟩ := hbound
  refine ⟨List.replicate n "", fun c hc hkey => ?_⟩
  have := hn c hc _ hkey
  simp at this

theorem moved_iff (horder : InFeedOrder planned) {front rest : List PlannedChange}
    (hplanned : planned = before ++ c :: after) (hlast : ∀ d ∈ after, d.key ≠ c.key)
    (hcollect : collect PlannedChange.key planned = front ++ c :: rest) (hkey : c.key = .path q) :
    surviving rest c.held = surviving after c.held := by
  cases c with
  | removeById x => cases hkey
  | remove node path fileId => rfl
  | upsert node path hash fileId =>
    cases fileId with
    | none => simp [PlannedChange.held]
    | some x =>
      refine surviving_eq_iff.mpr ((horder.moved node path hash x before after hplanned
        hlast).trans ⟨?_, ?_⟩).symm
      · rintro ⟨d, hd, hobject, hfirst⟩
        exact ⟨d, (mem_behind hcollect).mpr ⟨hd, hfirst⟩, hobject⟩
      · rintro ⟨d, hd, hobject⟩
        obtain ⟨hd, hfirst⟩ := (mem_behind hcollect).mp hd
        exact ⟨d, hd, hobject, hfirst⟩

theorem replay_collect (horder : InFeedOrder planned) (tree : RemoteTree) :
    replay (collect PlannedChange.key planned) tree = replay planned tree := by
  funext q
  by_cases hq : PlanKey.path q ∈ planned.map PlannedChange.key
  · obtain ⟨c, hc, hkey⟩ := List.mem_map.mp (mem_keys_collect.mpr hq)
    obtain ⟨before, after, hplanned, hlast⟩ := mem_collect.mp hc
    obtain ⟨front, rest, hcollect⟩ := List.append_of_mem hc
    have hrest : ∀ d ∈ rest, d.key ≠ c.key := fun d hd heq =>
      ((mem_behind hcollect).mp hd).2.1 heq.symm
    have hmoved := moved_iff horder hplanned hlast hcollect hkey
    calc replay (collect PlannedChange.key planned) tree q
        = surviving rest c.held := by rw [hcollect]; exact replay_last hkey hrest
      _ = surviving after c.held := hmoved
      _ = replay planned tree q := by rw [hplanned]; exact (replay_last hkey hlast).symm
  · have helse : ∀ c ∈ planned, c.key ≠ .path q := fun c hc hkey =>
      hq (List.mem_map.mpr ⟨c, hc, hkey⟩)
    have helse' : ∀ c ∈ collect PlannedChange.key planned, c.key ≠ .path q := fun c hc =>
      helse c (mem_of_mem_collect hc)
    rw [replay_elsewhere helse, replay_elsewhere helse']
    rcases tree q with _ | ⟨_ | x, hash⟩
    · rfl
    · rw [surviving_unnamed, surviving_unnamed]
    · refine surviving_eq_iff.mpr ⟨?_, ?_⟩
      · rintro ⟨c, hc, hobject⟩
        exact ⟨c, mem_of_mem_collect hc, hobject⟩
      · rintro ⟨c, hc, hobject⟩
        obtain ⟨d, hd, hobject⟩ := horder.named c hc x hobject
        exact ⟨d, mem_collect.mpr hd, hobject⟩

def treeOf (q : RemotePath) (x : String) : RemoteTree := fun path =>
  if path = q then some ⟨some x, none⟩ else none

theorem inFeedOrder_of_replay
    (h : ∀ tree, replay (collect PlannedChange.key planned) tree = replay planned tree) :
    InFeedOrder planned where
  named c hc x hobject := by
    obtain ⟨q, hq⟩ := exists_fresh_path planned
    have hq' : ∀ c ∈ collect PlannedChange.key planned, c.key ≠ .path q := fun c hc =>
      hq c (mem_of_mem_collect hc)
    have hsame := congrFun (h (treeOf q x)) q
    have hhere : treeOf q x q = some ⟨some x, none⟩ := if_pos rfl
    rw [replay_elsewhere hq, replay_elsewhere hq', hhere] at hsame
    obtain ⟨d, hd, hobject⟩ := (surviving_eq_iff.mp hsame).mpr ⟨c, hc, hobject⟩
    exact ⟨d, mem_collect.mp hd, hobject⟩
  moved node path hash x before after hplanned hlast := by
    have hc := mem_collect.mpr ⟨before, after, hplanned, hlast⟩
    obtain ⟨front, rest, hcollect⟩ := List.append_of_mem hc
    have hrest : ∀ d ∈ rest, d.key ≠ .path path := fun d hd heq =>
      ((mem_behind hcollect).mp hd).2.1 heq.symm
    have hsame := congrFun (h fun _ => none) path
    have hfeed : replay planned (fun _ => none) path =
        surviving after (some ⟨some x, hash⟩) := by
      rw [hplanned]
      exact replay_last rfl hlast
    have hplan : replay (collect PlannedChange.key planned) (fun _ => none) path =
        surviving rest (some ⟨some x, hash⟩) := by
      rw [hcollect]
      exact replay_last rfl hrest
    rw [hfeed, hplan] at hsame
    rw [← surviving_eq_iff.mp hsame]
    constructor
    · rintro ⟨d, hd, hobject⟩
      obtain ⟨hd, hfirst⟩ := (mem_behind hcollect).mp hd
      exact ⟨d, hd, hobject, hfirst⟩
    · rintro ⟨d, hd, hobject, hfirst⟩
      exact ⟨d, (mem_behind hcollect).mpr ⟨hd, hfirst⟩, hobject⟩

/-- The reducer does what it is for: every change has the fate it should have, each path and
each bare id is planned once, with its last change, and the plan comes to what the changes
come to in feed order. -/
structure PlanCorrect (changes : List RemoteChange) (nodes : List WatchedNode) : Prop where
  fates : ∀ c ∈ changes, RightFate nodes c (fate nodes c)
  dropped : (planRemoteChanges changes nodes).dropped =
    changes.filterMap fun c => (fate nodes c).dropped?
  swept : (planRemoteChanges changes nodes).sweepNodeIds.Nodup ∧
    ∀ nodeId, nodeId ∈ (planRemoteChanges changes nodes).sweepNodeIds ↔
      ∃ c ∈ changes, fate nodes c = .swept nodeId
  planned : ((planRemoteChanges changes nodes).planned.map PlannedChange.key).Nodup ∧
    ∀ c, c ∈ (planRemoteChanges changes nodes).planned ↔
      IsLast PlannedChange.key (fileChanges nodes changes) c
  replayed : ∀ tree, replay (planRemoteChanges changes nodes).planned tree =
    replay (fileChanges nodes changes) tree

theorem planCorrect_iff (changes : List RemoteChange) (nodes : List WatchedNode) :
    PlanCorrect changes nodes ↔ InFeedOrder (fileChanges nodes changes) := by
  constructor
  · intro h
    have hreplayed := h.replayed
    rw [planned_planRemoteChanges] at hreplayed
    exact inFeedOrder_of_replay hreplayed
  · intro h
    refine ⟨fun c _ => rightFate_fate nodes c, dropped_planRemoteChanges,
      ⟨nodup_sweepNodeIds, fun _ => mem_sweepNodeIds⟩, ?_, fun tree => ?_⟩
    · rw [planned_planRemoteChanges]
      exact ⟨nodup_collect, fun _ => mem_collect⟩
    · rw [planned_planRemoteChanges]
      exact replay_collect h tree

/-- A file is trashed between two pages of the feed, and another is renamed to its path. -/
def takenOver : List RemoteChange :=
  [.upsert ["org", "projects", "key", "wip", "notes.md"] (some "1") false (some "notes"),
    .upsert ["org", "projects", "key", "wip", "draft.md"] (some "2") false (some "draft"),
    .remove (some ["org", "projects", "key", "wip", "notes.md"]) (some "notes"),
    .upsert ["org", "projects", "key", "wip", "notes.md"] (some "2") false (some "draft")]

def keyNode : List WatchedNode := [⟨"node", ["org", "projects", "key"]⟩]

/-- The plan puts the renamed file back to the path that it has left. -/
theorem takenOver_misplaced : ¬ PlanCorrect takenOver keyNode := by
  intro h
  have hsame := congrFun (h.replayed fun _ => none) ["org", "projects", "key", "wip", "draft.md"]
  revert hsame
  decide +kernel

end Portuni.RemoteWatch
