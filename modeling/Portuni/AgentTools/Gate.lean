import Portuni.AgentTools.Model
import Portuni.MirrorOwners.Owned

namespace Portuni.AgentTools

/-!
What a handler changes: the harness configuration of any mirror, and else the node that its
arguments are bound to or its file is found under.
-/

section

open Library.Changes Library.PosixPath MirrorOwners

variable {cwd : WorkingDirectory} {nfc : String → String} {driver : Driver} {w : World}
  {args : Args} {nodeId : String} {P : Change → Prop}

theorem only_orThrow {α : Type} (message : String) (o : Option α) : Only P (orThrow message o) := by
  cases o with
  | none => exact Only.throw message
  | some a => exact Only.pure a

theorem only_check (message : String) (ok : Bool) : Only P (check message ok) := by
  cases ok with
  | false => exact Only.throw message
  | true => exact Only.pure ()

theorem only_lift {α : Type} (e : Except String α) : Only P (lift e) := by
  cases e with
  | error message => exact Only.throw message
  | ok a => exact Only.pure a

theorem only_lift_bind {α β : Type} {e : Except String α} {f : α → Tool β}
    (hf : ∀ a, e = .ok a → Only P (f a)) : Only P (lift e >>= f) := by
  cases e with
  | error message => exact Only.throw message
  | ok a =>
    rw [show lift (.ok a) >>= f = f a from pure_bind a f]
    exact hf a rfl

theorem only_orThrow_bind {α β : Type} {message : String} {o : Option α} {f : α → Tool β}
    (hf : ∀ a, o = some a → Only P (f a)) : Only P (orThrow message o >>= f) := by
  cases o with
  | none => exact Only.throw message
  | some a =>
    rw [show orThrow message (some a) >>= f = f a from pure_bind a f]
    exact hf a rfl

theorem only_syncInfo (nodeId : String) : Only P (syncInfo w nodeId) := only_orThrow _ _

theorem boundMirror_string (nodeId : String) :
    boundMirror driver w (some (.string nodeId)) = pure (nodeId, getMirrorPath w.mirrors nodeId) := by
  unfold boundMirror
  rw [driver.string]
  rfl

/-- A change of the node, or of the configuration that every mirror gets. -/
def About (nodeId : String) (c : Change) : Prop := c.isScopeConfig = true ∨ c.nodeId = nodeId

theorem only_registerLocalFileCentral (localPath : String) :
    Only (About nodeId)
      (registerLocalFileCentral cwd nfc driver w (some (.string nodeId)) localPath) := by
  unfold registerLocalFileCentral
  rw [boundMirror_string]
  refine Only.bind (Only.pure _) fun _ => Only.bind (only_orThrow _ _) fun _ =>
    Only.bind (only_orThrow _ _) fun _ => Only.bind (only_orThrow _ _) fun _ =>
      Only.bind (Only.change (.inr rfl)) fun _ => Only.pure _

theorem only_copyIn (localPath dest : String) :
    Only (About nodeId) (copyIn w nodeId localPath dest) := by
  unfold copyIn
  refine Only.bind (only_check _ _) fun _ => Only.bind (only_check _ _) fun _ => ?_
  split
  · exact Only.pure _
  · exact Only.bind (only_check _ _) fun _ => Only.change (.inr rfl)

theorem only_resolveMirrorDestination (mirrorRoot : String) (a : StoreArgs) :
    Only (About nodeId) (resolveMirrorDestination cwd nfc w nodeId mirrorRoot a) := by
  unfold resolveMirrorDestination
  refine Only.bind (only_orThrow _ _) fun localPath => Only.bind (only_lift _) fun parts =>
    Only.bind (only_lift _) fun dest => ?_
  split
  · exact Only.pure _
  · exact Only.bind (only_copyIn _ _) fun _ => Only.pure _

theorem only_storeFileCentral (a : StoreArgs) (hnode : a.nodeId = some (.string nodeId)) :
    Only (About nodeId) (storeFileCentral cwd nfc driver w a) := by
  unfold storeFileCentral
  rw [hnode, boundMirror_string, pure_bind]
  refine Only.bind (only_orThrow _ _) fun _ =>
    Only.bind (only_resolveMirrorDestination _ _) fun _ => Only.bind (only_orThrow _ _) fun _ =>
      Only.bind (only_registerLocalFileCentral _) fun _ => Only.bind (only_check _ _) fun _ =>
        Only.bind (only_check _ _) fun _ => Only.bind (only_check _ _) fun _ =>
          Only.change (.inr rfl)

theorem only_pullFileCentral (entry : StatusFileEntry) (force : Bool) :
    Only (About nodeId) (pullFileCentral cwd nfc w nodeId entry force) := by
  unfold pullFileCentral
  refine Only.bind (only_syncInfo _) fun _ => Only.bind (only_lift _) fun _ =>
    Only.bind (only_orThrow _ _) fun _ => Only.bind (only_orThrow _ _) fun _ =>
      Only.bind (only_lift _) fun _ => Only.bind (only_orThrow _ _) fun _ =>
        Only.bind (only_check _ _) fun _ => Only.bind (only_check _ _) fun _ =>
          Only.bind (only_check _ _) fun _ => Only.bind (only_check _ _) fun _ =>
            Only.change (.inr rfl)

theorem only_materializeAndRegenCentral (mirrors : List LocalMirror) :
    Only (About nodeId) (materializeAndRegenCentral w mirrors) := by
  unfold materializeAndRegenCentral
  split
  · exact Only.pure _
  · exact Only.forM fun _ _ => Only.change (.inl rfl)

theorem only_createMirrorForNodeCentral (hnode : args "node_id" = some (.string nodeId)) :
    Only (About nodeId) (createMirrorForNodeCentral cwd driver w args) := by
  unfold createMirrorForNodeCentral
  dsimp only
  rw [hnode, boundMirror_string]
  refine Only.bind (only_syncInfo _) fun si => ?_
  rw [pure_bind]
  dsimp only
  split
  · exact Only.pure _
  · refine Only.bind (only_check _ _) fun _ => Only.bind (only_lift _) fun _ =>
      Only.bind (only_lift _) fun _ => Only.bind (only_check _ _) fun _ =>
        Only.bind (only_check _ _) fun _ => Only.bind (Only.change (.inr rfl)) fun _ =>
          only_materializeAndRegenCentral _

theorem only_portuniAdoptFiles (hnode : args "node_id" = some (.string nodeId)) :
    Only (About nodeId) (portuniAdoptFiles cwd nfc driver w args) := by
  unfold portuniAdoptFiles
  dsimp only
  rw [hnode, boundMirror_string]
  refine Only.bind (only_syncInfo _) fun _ => Only.bind (Only.pure _) fun _ =>
    Only.forM fun _ _ => Only.attempt ?_
  exact Only.bind (only_registerLocalFileCentral _) fun _ => Only.pure _

theorem only_portuniStatus : Only P (portuniStatus w args) := by
  unfold portuniStatus
  split
  · exact Only.bind (only_syncInfo _) fun _ => Only.pure _
  · exact Only.forM fun _ _ => Only.bind (only_syncInfo _) fun _ => Only.pure _

theorem only_portuniPull
    (hfound : ∀ found, findEntryByFileId cwd w ((args "file_id").getD .null) = .ok (some found) →
      ∀ c, About found.1 c → P c) : Only P (portuniPull cwd nfc w args) := by
  unfold portuniPull
  refine Only.bind (only_check _ _) fun _ => ?_
  split
  · refine only_lift_bind fun found hlookup => only_orThrow_bind fun entry hentry => ?_
    subst hentry
    exact Only.mono (only_pullFileCentral _ _) (hfound entry hlookup)
  · exact Only.bind (only_syncInfo _) fun _ => Only.pure _

end

open Library.Changes Library.PosixPath Library.Runs McpScope MirrorOwners

variable {cwd : WorkingDirectory} {nfc : String → String} {driver : Driver} {w : World}

section

variable (cwd)

/-- The gate reads the arguments as the handler does: a node id is a string, and a file is found
under one node at both moments. -/
def Call.Agrees (c : Call) : Prop :=
  (c.name ∈ ["portuni_mirror", "portuni_store", "portuni_adopt_files"] →
    ∃ nodeId, c.args "node_id" = some (.string nodeId)) ∧
  (c.name = "portuni_pull" → ∀ fileId, c.args "file_id" = some (.string fileId) →
    ∀ found, findEntryByFileId cwd c.after (.string fileId) = .ok (some found) →
      ∃ entry, findEntryByFileId cwd c.before (.string fileId) = .ok (some (found.1, entry)))

end

section

variable {dialog : String → ElicitOutcome} {session : Session} {targets : List String}

theorem gate_accepted_mono :
    ∀ nodeId ∈ session.accepted, nodeId ∈ (gate dialog session targets).session.accepted := by
  induction targets generalizing session with
  | nil => exact fun _ h => h
  | cons target targets ih =>
    intro nodeId h
    unfold gate
    split
    next => exact ih nodeId h
    next => exact h
    next =>
      split
      next => exact ih nodeId (List.mem_cons_of_mem _ h)
      next => exact h

theorem gate_covers (h : (gate dialog session targets).refusal = none) :
    ∀ nodeId ∈ targets, nodeId ∈ (gate dialog session targets).allowed ∨
      nodeId ∈ (gate dialog session targets).session.accepted := by
  induction targets generalizing session with
  | nil => simp
  | cons target targets ih =>
    intro nodeId hmem
    unfold gate at h ⊢
    split at h
    next =>
      rcases List.mem_cons.mp hmem with rfl | hmem
      · exact .inl List.mem_cons_self
      · exact (ih h nodeId hmem).imp_left (List.mem_cons_of_mem _)
    next => cases h
    next =>
      split at h
      next hdialog =>
        rw [if_pos hdialog]
        rcases List.mem_cons.mp hmem with rfl | hmem
        · exact .inr (gate_accepted_mono nodeId List.mem_cons_self)
        · exact ih h nodeId hmem
      next => cases h

structure Session.Extends (before after : Session) : Prop where
  sessionType : after.ctx.sessionType = before.ctx.sessionType
  homeNodeId : after.ctx.homeNodeId = before.ctx.homeNodeId
  headless : before.ctx.sessionType = .headless → after = before

theorem gate_extends : session.Extends (gate dialog session targets).session := by
  induction targets generalizing session with
  | nil => exact ⟨rfl, rfl, fun _ => rfl⟩
  | cons target targets ih =>
    unfold gate
    split
    next => exact ih
    next => exact ⟨rfl, rfl, fun _ => rfl⟩
    next hint hguard =>
      split
      next =>
        have hrest : Session.Extends
            { ctx := { session.ctx with writableNodes := target :: session.ctx.writableNodes }
              accepted := target :: session.accepted } (gate dialog _ targets).session := ih
        refine ⟨hrest.sessionType, hrest.homeNodeId, fun hheadless => ?_⟩
        unfold guardWrite at hguard
        simp only [hheadless] at hguard
        split_ifs at hguard
      next => exact ⟨rfl, rfl, fun _ => rfl⟩

theorem gate_headless (hheadless : session.ctx.sessionType = .headless)
    (hwritable : session.ctx.writableNodes = [])
    (h : (gate dialog session targets).refusal = none) :
    ∀ nodeId ∈ targets, session.ctx.homeNodeId = some nodeId := by
  induction targets with
  | nil => simp
  | cons target targets ih =>
    intro nodeId hmem
    unfold gate at h
    split at h
    next hguard =>
      rcases List.mem_cons.mp hmem with rfl | hmem
      · rcases guardWrite_eq_allow_iff.mp hguard with henv | hhome | hwritten
        · rw [hheadless] at henv
          cases henv
        · exact hhome
        · rw [hwritable] at hwritten
          cases hwritten
      · exact ih h nodeId hmem
    next => cases h
    next hint hguard =>
      unfold guardWrite at hguard
      simp only [hheadless] at hguard
      split_ifs at hguard

end

section

variable {c : Call} {session : Session}

theorem string_of_found {value : Json} {found : String × StatusFileEntry}
    (h : findEntryByFileId cwd w value = .ok (some found)) : ∃ fileId, value = .string fileId := by
  unfold findEntryByFileId at h
  split at h
  · cases h
  · split at h
    · cases h
    · obtain ⟨info, -, hinfo⟩ := List.exists_of_findSome?_eq_some (Except.ok.inj h)
      obtain ⟨file, hfile, -⟩ := Option.map_eq_some_iff.mp hinfo
      have hid := of_decide_eq_true
        (List.find?_some (p := fun f : SyncInfoFile => value.string? = some f.id) hfile)
      cases value with
      | string text => exact ⟨text, rfl⟩
      | _ => cases hid

theorem changes_of_targets (hagrees : c.Agrees cwd) {targets : List String}
    (htargets : localToolWriteTargets cwd c.before c.name c.args = .ok targets) :
    Only (fun change => change.isScopeConfig = true ∨ change.nodeId ∈ targets)
      (callLocalTool cwd nfc driver c.after c.name c.args) := by
  have hnamed : ∀ nodeId, c.args "node_id" = some (.string nodeId) →
      c.name ∈ ["portuni_mirror", "portuni_store", "portuni_adopt_files"] → nodeId ∈ targets := by
    intro nodeId hnode hname
    have hread : localToolWriteTargets cwd c.before c.name c.args = .ok [nodeId] := by
      unfold localToolWriteTargets
      rcases List.mem_cons.mp hname with hname | hname
      · simp [hname, hnode, Json.string?]
      · rcases List.mem_cons.mp hname with hname | hname
        · simp [hname, hnode, Json.string?]
        · simp [List.mem_singleton.mp hname, hnode, Json.string?]
    rw [Except.ok.inj (htargets.symm.trans hread)]
    exact List.mem_singleton_self nodeId
  have habout : ∀ nodeId ∈ targets, ∀ change, About nodeId change →
      change.isScopeConfig = true ∨ change.nodeId ∈ targets := by
    rintro nodeId hmem change (hconfig | rfl)
    · exact .inl hconfig
    · exact .inr hmem
  unfold callLocalTool
  split
  next hname =>
    obtain ⟨nodeId, hnode⟩ := hagrees.1 (by simp [hname])
    have hmem := hnamed nodeId hnode (by simp [hname])
    exact (only_createMirrorForNodeCentral hnode).mono (habout nodeId hmem)
  next => exact only_portuniStatus
  next hname =>
    obtain ⟨nodeId, hnode⟩ := hagrees.1 (by simp [hname])
    have hmem := hnamed nodeId hnode (by simp [hname])
    exact (only_storeFileCentral _ hnode).mono (habout nodeId hmem)
  next hname =>
    refine only_portuniPull fun found hfound => habout found.1 ?_
    obtain ⟨fileId, hvalue⟩ := string_of_found hfound
    have hfile : c.args "file_id" = some (.string fileId) := by
      cases hargs : c.args "file_id" with
      | none => simp [hargs] at hvalue
      | some value => rw [hargs, Option.getD_some] at hvalue; rw [hvalue]
    rw [hvalue] at hfound
    obtain ⟨entry, hbefore⟩ := hagrees.2 hname fileId hfile found hfound
    have hread : localToolWriteTargets cwd c.before c.name c.args = .ok [found.1] := by
      unfold localToolWriteTargets
      simp [hname, hfile, Json.string?, hbefore, Except.map]
    rw [Except.ok.inj (htargets.symm.trans hread)]
    exact List.mem_singleton_self _
  next hname =>
    obtain ⟨nodeId, hnode⟩ := hagrees.1 (by simp [hname])
    have hmem := hnamed nodeId hnode (by simp [hname])
    exact (only_portuniAdoptFiles hnode).mono (habout nodeId hmem)
  next => exact Only.throw _

structure Session.Kept (type : SessionType) (anchor : Option String) (session : Session) : Prop where
  sessionType : session.ctx.sessionType = type
  homeNodeId : session.ctx.homeNodeId = anchor
  headless : type = .headless → session.ctx.writableNodes = []

variable {type : SessionType} {anchor : Option String}

theorem callTool_extends : session.Extends (callTool cwd nfc driver session c).session := by
  unfold callTool
  split
  next => exact ⟨rfl, rfl, fun _ => rfl⟩
  next =>
    dsimp only
    split
    next => exact gate_extends
    next => exact gate_extends

theorem kept_step {session' : Session} (h : session.Kept type anchor)
    (hstep : step cwd nfc driver session c = some session') : session'.Kept type anchor := by
  cases hstep
  have hextends := @callTool_extends cwd nfc driver c session
  refine ⟨hextends.sessionType.trans h.sessionType, hextends.homeNodeId.trans h.homeNodeId,
    fun hheadless => ?_⟩
  rw [hextends.headless (h.sessionType.trans hheadless)]
  exact h.headless hheadless

/-- What a session may start with: no node is writable but its anchor. -/
def opened (type : SessionType) (anchor : Option String) : Session :=
  { ctx := ⟨type, anchor, []⟩ }

variable (cwd nfc driver) in
/-- A call changes what it may: each change was allowed in this call or the user has accepted it in
the session, and a headless session changes its anchor. -/
def Session.Gated (session : Session) (c : Call) (change : Change) : Prop :=
  let handled := callTool cwd nfc driver session c
  (change.nodeId ∈ handled.allowed ∨ change.nodeId ∈ handled.session.accepted) ∧
    (session.ctx.sessionType = .headless → session.ctx.homeNodeId = some change.nodeId)

theorem callTool_cases (session : Session) (c : Call) :
    (callTool cwd nfc driver session c).changes = [] ∨
      ∃ targets, localToolWriteTargets cwd c.before c.name c.args = .ok targets ∧
        (gate c.dialog session targets).refusal = none ∧
        callTool cwd nfc driver session c =
          ⟨(gate c.dialog session targets).session, (gate c.dialog session targets).allowed,
            changes (callLocalTool cwd nfc driver c.after c.name c.args)⟩ := by
  unfold callTool
  split
  next => exact .inl rfl
  next targets htargets =>
    dsimp only
    split
    next => exact .inl rfl
    next hrefusal => exact .inr ⟨targets, htargets, hrefusal, rfl⟩

theorem gate_covers_changes {calls : List Call}
    (run : Run (step cwd nfc driver) (fun _ _ => True) (opened type anchor) calls session)
    (hagrees : c.Agrees cwd) :
    ∀ change ∈ (callTool cwd nfc driver session c).changes, change.isScopeConfig = false →
      session.Gated cwd nfc driver c change := by
  have kept : session.Kept type anchor := run.inv (Session.Kept type anchor) ⟨rfl, rfl, fun _ => rfl⟩
    fun _ _ _ h _ hstep => kept_step h hstep
  intro change hchange hconfig
  rcases @callTool_cases cwd nfc driver session c with hnone | ⟨targets, htargets, hrefusal, hcall⟩
  · rw [hnone] at hchange
    cases hchange
  · unfold Session.Gated
    rw [hcall] at hchange ⊢
    rcases (changes_of_targets hagrees htargets).changes change hchange with hscope | hmem
    · rw [hconfig] at hscope
      cases hscope
    · refine ⟨gate_covers hrefusal _ hmem, fun hheadless => ?_⟩
      exact gate_headless hheadless (kept.headless (kept.sessionType.symm.trans hheadless))
        hrefusal _ hmem

end

def strings : Driver := ⟨fun value => value.bind Json.string?, fun _ => rfl⟩

def acmeInfo (files : List SyncInfoFile) : NodeSyncInfo :=
  ⟨acme, some "drive", files⟩

def ready (mirrors : List LocalMirror) (central : String → Option NodeSyncInfo) : World where
  mirrors := mirrors
  workspaceRoot := "/ws"
  central := some central
  registerFile _ _ := some ⟨"f", some "drive"⟩
  putFileRaw _ _ := true
  getFileRaw _ _ := true
  fileExists _ := false
  sameFile _ _ := false
  copyFile _ _ := true
  readFile _ := true
  writeFile _ := true
  mkdir _ := true
  dirty _ _ := false
  untracked _ _ := []
  portuniRoot _ := some "/opt/portuni"

def given (name value : String) : Args := fun field =>
  if field = name then some (.string value) else none

def mirroring : Call where
  name := "portuni_mirror"
  args := given "node_id" "a"
  before := ready [⟨"b", "/ws/beta"⟩] fun _ => some (acmeInfo [])
  after := ready [⟨"b", "/ws/beta"⟩] fun _ => some (acmeInfo [])
  dialog _ := .decline

def plan : SyncInfoFile := ⟨"f", "plan.md", some "acme/wip/plan.md"⟩

/-- The record of a file goes to another node between the gate and the download. -/
def moving : Call where
  name := "portuni_pull"
  args := given "file_id" "f"
  before := ready [⟨"a", "/ws/acme"⟩, ⟨"b", "/ws/beta"⟩] fun nodeId =>
    some (acmeInfo (if nodeId = "a" then [plan] else []))
  after := ready [⟨"a", "/ws/acme"⟩, ⟨"b", "/ws/beta"⟩] fun nodeId =>
    some (acmeInfo (if nodeId = "b" then [plan] else []))
  dialog _ := .decline

theorem changed_beside_gate :
    (∃ change ∈ (callTool desktop id strings (opened .headless (some "a")) mirroring).changes,
      ¬(opened .headless (some "a")).Gated desktop id strings mirroring change) ∧
    ∃ change ∈ (callTool desktop id strings (opened .headless (some "a")) moving).changes,
      ¬(opened .headless (some "a")).Gated desktop id strings moving change := by
  constructor
  · have hchanges : (callTool desktop id strings (opened .headless (some "a")) mirroring).changes =
        [.mirrorCreated "a" "/ws/acme", .scopeConfig "a" "/ws/acme",
          .scopeConfig "b" "/ws/beta"] := by
      decide +kernel
    refine ⟨.scopeConfig "b" "/ws/beta", by simp [hchanges], fun gated => ?_⟩
    have hanchor := gated.2 rfl
    revert hanchor
    decide
  · have hchanges : (callTool desktop id strings (opened .headless (some "a")) moving).changes =
        [.mirrorFile "b" "/ws/beta/wip/plan.md"] := by
      decide +kernel
    refine ⟨.mirrorFile "b" "/ws/beta/wip/plan.md", by simp [hchanges], fun gated => ?_⟩
    have hanchor := gated.2 rfl
    revert hanchor
    decide

/-- The user accepts a mirror for another node, then a file of the anchor is downloaded. -/
theorem gate_covers_changes_download :
    let accepting : Call := { mirroring with args := given "node_id" "b", dialog := fun _ => .accept }
    let download : Call := { moving with after := moving.before }
    let session := (callTool desktop id strings (opened .interactiveTask (some "a")) accepting).session
    Change.mirrorFile "a" "/ws/acme/wip/plan.md" ∈
        (callTool desktop id strings session download).changes ∧
      ∀ change ∈ (callTool desktop id strings session download).changes,
        change.isScopeConfig = false → session.Gated desktop id strings download change := by
  intro accepting download session
  have run : Run (step desktop id strings) (fun _ _ => True) (opened .interactiveTask (some "a"))
      [accepting] session := Run.of_exec_eq_some rfl
  refine ⟨by decide +kernel, gate_covers_changes run ⟨fun hname => absurd hname (by decide), ?_⟩⟩
  exact fun _ _ _ found hfound => ⟨found.2, hfound⟩

end Portuni.AgentTools
