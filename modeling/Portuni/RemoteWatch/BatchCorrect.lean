import Portuni.RemoteWatch.BatchRun
import Portuni.RemoteWatch.Replay

/-! When a tick leaves one record for each object of its batch. -/

namespace Portuni.RemoteWatch

open Content Files Files.Database RemoteSweep

universe u

variable {Bytes : Type u} {call : Call Bytes} {nodes : List WatchedNode}
  {remote : List RemoteObject} {db : Database} {plan : List PlannedChange} {x : String}

theorem runClean_of_errors (undisturbed : UndisturbedRun call remote db plan)
    (watched : ∀ d ∈ plan, d.Watched nodes)
    (herrors : (applyRemoteChanges call db plan).2.errors = []) :
    RunClean call nodes remote db plan := by
  induction plan generalizing db with
  | nil => trivial
  | cons c rest ih =>
    obtain ⟨hc, hrest⟩ := List.forall_mem_cons.mp watched
    obtain ⟨hfirst, hlater⟩ := List.append_eq_nil_iff.mp herrors
    exact ⟨⟨undisturbed.1, hc, hfirst⟩, ih undisturbed.2 hrest hlater⟩

theorem exists_lastPlanned {d : PlannedChange} (h : lastPlanned x plan = some d) :
    ∃ before after, plan = before ++ d :: after ∧ d.object? = some x ∧
      ∀ e ∈ after, e.object? ≠ some x := by
  obtain ⟨hd, later, earlier, hplan, hlater⟩ := List.find?_eq_some_iff_append.mp h
  refine ⟨earlier.reverse, later.reverse, ?_, by simpa using hd, fun e he => ?_⟩
  · rw [← List.reverse_reverse plan, hplan]
    simp
  · simpa using hlater e (List.mem_reverse.mp he)

theorem objectCorrect_of_upsert (shows : Shows call remote) (one : OneEach call remote db)
    (clean : RunClean call nodes remote db plan) {obj : RemoteObject} (hobj : obj ∈ remote)
    {node : WatchedNode}
    (hlast : lastPlanned obj.id plan = some (.upsert node obj.path obj.hash (some obj.id)))
    (hupserts : ∀ d ∈ plan, d.object? = some obj.id → d.isUpsert) :
    ObjectCorrect call nodes remote db (plan.foldl (applyChange call) db) obj.id := by
  obtain ⟨before, after, hplan, -, hafter⟩ := exists_lastPlanned hlast
  rw [hplan] at clean
  obtain ⟨hbefore, hstep, hrest⟩ := runClean_append.mp clean
  have one' := hbefore.oneEach shows one
  obtain ⟨y, _, path, hash, o, hd, brings⟩ := hstep.brings shows one' rfl
  cases hd
  obtain ⟨r, rfl⟩ : ∃ r, o = some r := Option.ne_none_iff_exists'.mp (brings.adopts ⟨obj, hobj, rfl⟩)
  have hmem : r ∈ (plan.foldl (applyChange call) db).files := by
    rw [hplan, List.foldl_append, List.foldl_cons,
      hrest.mem_iff shows (hstep.oneEach shows one') hafter (brings.replaced.object r rfl)]
    exact (brings.replaced.mem r).mpr (Or.inr rfl)
  have hone : OneEach call remote (plan.foldl (applyChange call) db) := by
    rw [hplan]
    exact clean.oneEach shows one
  have hx := brings.replaced.object r rfl
  have hthe : ∀ r' ∈ (plan.foldl (applyChange call) db).files, call.ofObject obj.id r' → r' = r :=
    fun r' hr' hx' => hone.unique obj.id r' hr' r hmem hx' hx
  have hobject : ∀ o ∈ remote, o.id = obj.id → o = obj := fun o ho hid =>
    List.inj_on_of_nodup_map shows.ids ho hobj hid
  refine ⟨?_, ?_, ?_, ?_⟩
  · intro o ho hid _
    obtain rfl := hobject o ho hid
    exact ⟨r, hmem, ⟨hx, brings.atPath r rfl, brings.current o ho rfl rfl r rfl⟩, hthe⟩
  · intro hgone
    exact absurd rfl (hgone obj hobj)
  · intro r' hr' hx'
    rw [hthe r' hr' hx']
    exact ⟨obj, hobj, rfl, brings.atPath r rfl⟩
  · intro r₀ hr₀ hx₀ r' hr' hx'
    rw [hplan] at hupserts hr'
    obtain ⟨r'', hr'', hx'', hid⟩ := clean.keepsId shows one hupserts hr₀ hx₀
    rw [← hplan] at hr' hr''
    rw [hthe r' hr' hx', ← hthe r'' hr'' hx'', hid]

theorem objectCorrect_of_unclaimed {db' : Database} (hunclaimed : Unclaimed call db' x)
    (hunwatched : ∀ o ∈ remote, o.id = x → watchedNode nodes o.path = none) :
    ObjectCorrect call nodes remote db db' x := by
  have hnone : ∀ r ∈ db'.files, ¬ call.ofObject x r := fun r hr hx => by
    rw [hunclaimed r hr] at hx
    cases hx
  refine ⟨fun o ho hid hwatched => ?_, fun _ => hunclaimed, fun r hr hx => absurd hx (hnone r hr),
    fun _ _ _ r hr hx => absurd hx (hnone r hr)⟩
  rw [hunwatched o ho hid] at hwatched
  cases hwatched

variable {c : RemoteChange}

theorem objectCorrect_of_keepsLast (shows : Shows call remote) (one : OneEach call remote db)
    (clean : RunClean call nodes remote db plan) (watched : ∀ d ∈ plan, d.Watched nodes)
    (hreports : c.Reports remote x) (hkeeps : KeepsLast call nodes db plan x c) :
    ObjectCorrect call nodes remote db (plan.foldl (applyChange call) db) x := by
  cases c with
  | upsert path hash isFolder fileId =>
    obtain ⟨obj, hobj, rfl, rfl, rfl⟩ := hreports
    cases hwatched : watchedNode nodes obj.path with
    | some node =>
      obtain ⟨hlast, hupserts⟩ := hkeeps.1 node hwatched
      exact objectCorrect_of_upsert shows one clean hobj hlast hupserts
    | none =>
      have hobject : ∀ o ∈ remote, o.id = obj.id → o = obj := fun o ho hid =>
        List.inj_on_of_nodup_map shows.ids ho hobj hid
      refine objectCorrect_of_unclaimed ?_ fun o ho hid => by rw [hobject o ho hid, hwatched]
      refine clean.unclaimed shows one (hkeeps.2 hwatched) fun node path hash hmem o ho hpath => ?_
      have hundisturbed := clean.objects_at hmem o ho hpath
      rw [hobject o ho hundisturbed] at hpath
      have hnode : watchedNode nodes path = some node := watched _ hmem
      rw [← hpath, hwatched] at hnode
      cases hnode
  | remove path fileId =>
    refine objectCorrect_of_unclaimed ?_ fun o ho hid => absurd hid (hreports o ho)
    rcases hkeeps with ⟨d, hlast, hremoval⟩ | hunclaimed
    · obtain ⟨before, after, hplan, hd, hafter⟩ := exists_lastPlanned hlast
      rw [hplan] at clean ⊢
      obtain ⟨hbefore, hstep, hrest⟩ := runClean_append.mp clean
      have one' := hbefore.oneEach shows one
      obtain ⟨y, hy, replaced⟩ := hstep.removes shows one' hremoval
      obtain rfl := Option.some.inj (hy.symm.trans hd)
      rw [List.foldl_append, List.foldl_cons]
      exact hrest.unclaimed shows (hstep.oneEach shows one') replaced.unclaimed
        fun node path hash hmem => absurd rfl (hafter _ hmem)
    · refine clean.unclaimed shows one hunclaimed fun node path hash hmem o ho hpath => ?_
      exact absurd (clean.objects_at hmem o ho hpath) (hreports o ho)

variable {sweep : List String → Database → Database} {cursor : String} {answer : RemoteChanges}

theorem tick_objectLevel (call : Call Bytes) (hreset : answer.reset = false)
    (objectLevel : ∀ c ∈ answer.changes, c.isFolder = false) (hsome : answer.changes ≠ []) :
    let plan := (planRemoteChanges answer.changes nodes).planned
    (runRemoteWatchTick call sweep nodes db (some cursor) answer).1 =
        plan.foldl (applyChange call) db ∧
      (runRemoteWatchTick call sweep nodes db (some cursor) answer).2.2.applied =
        (applyRemoteChanges call db plan).2 := by
  refine ⟨?_, ?_⟩
  · simp [runRemoteWatchTick, hreset, hsome, sweepNodeIds_planRemoteChanges objectLevel,
      applyRemoteChanges_fst]
  · simp [runRemoteWatchTick, hreset, hsome, sweepNodeIds_planRemoteChanges objectLevel]

def showing (remote : List RemoteObject) : Call Bool :=
  { sampleCall with
    adapter :=
      { stat := fun path => .ok ((objectAt remote path).map RemoteObject.ref)
        get := fun _ => .error "not found" } }

def liveObject (id filename : String) : RemoteObject where
  id := id
  path := ["org", "wip", filename]
  hash := some (sampleHashing.md5Buffer true)
  isNativeFormat := false

/-- `A` has moved from `old.md` to `other.md`, from where `B` has moved to `new.md`. -/
def chainRemote : List RemoteObject :=
  [liveObject "A" "other.md", liveObject "B" "new.md"]

def feedUpsert (obj : RemoteObject) : RemoteChange :=
  .upsert obj.path obj.hash false (some obj.id)

def chainAnswer : RemoteChanges where
  cursor := "2"
  changes := [feedUpsert (liveObject "B" "new.md"), feedUpsert (liveObject "A" "other.md")]
  reset := false

/-- The same chain, with an edit of `B` before it. -/
def editedChainAnswer : RemoteChanges :=
  { chainAnswer with changes := feedUpsert (liveObject "B" "other.md") :: chainAnswer.changes }

def chainNodes : List WatchedNode := [⟨"node", ["org"]⟩]

theorem showing_chainRemote : Shows (showing chainRemote) chainRemote where
  ids := by decide
  paths := by decide
  hashes := by decide
  stat path answer h := (Except.ok.inj h).symm

theorem carriesObjects_twoRecords :
    CarriesObjects (showing chainRemote) twoRecords chainRemote where
  carries := by decide
  unique := by
    have hids : ∀ r ∈ twoRecords.files, ∀ r' ∈ twoRecords.files,
        r.remoteFileId = r'.remoteFileId → r = r' := by decide
    intro x r hr r' hr' hx hx'
    exact hids r hr r' hr' ((ofObject_iff.mp hx).2.trans (ofObject_iff.mp hx').2.symm)
  native := by decide

theorem mem_of_lastChange {changes : List RemoteChange} (h : lastChange x changes = some c) :
    c ∈ changes ∧ c.object? = some x :=
  ⟨List.mem_reverse.mp (List.mem_of_find?_eq_some h), by simpa using List.find?_some h⟩

theorem feeds_chainAnswer : ∀ c ∈ chainAnswer.changes, ∃ obj ∈ chainRemote, c = feedUpsert obj := by
  decide

theorem reports_feedUpsert {obj : RemoteObject} (hobj : obj ∈ remote)
    (hx : (feedUpsert obj).object? = some x) : (feedUpsert obj).Reports remote x :=
  ⟨obj, hobj, Option.some.inj hx, rfl, rfl⟩

theorem reports_chainAnswer : Reports chainAnswer.changes chainRemote := by
  intro x c hlast
  obtain ⟨hc, hx⟩ := mem_of_lastChange hlast
  obtain ⟨obj, hobj, rfl⟩ := feeds_chainAnswer c hc
  exact reports_feedUpsert hobj hx

theorem reports_editedChainAnswer : Reports editedChainAnswer.changes chainRemote := by
  intro x c hlast
  obtain ⟨hc, hx⟩ := mem_of_lastChange hlast
  rcases List.mem_cons.mp hc with rfl | hc
  · obtain rfl : "B" = x := Option.some.inj hx
    exact absurd (Option.some.inj hlast) (by decide)
  · obtain ⟨obj, hobj, rfl⟩ := feeds_chainAnswer c hc
    exact reports_feedUpsert hobj hx

def plannedUpsert (obj : RemoteObject) : PlannedChange :=
  .upsert ⟨"node", ["org"]⟩ obj.path obj.hash (some obj.id)

theorem planned_chainAnswer : (planRemoteChanges chainAnswer.changes chainNodes).planned =
    [plannedUpsert (liveObject "B" "new.md"), plannedUpsert (liveObject "A" "other.md")] := by
  decide +kernel

theorem undisturbedRun_chainAnswer : UndisturbedRun (showing chainRemote) chainRemote twoRecords
    [plannedUpsert (liveObject "B" "new.md"), plannedUpsert (liveObject "A" "other.md")] := by
  refine ⟨⟨"B", rfl, ?_, ?_, ?_⟩, ⟨"A", rfl, ?_, ?_, ?_⟩, trivial⟩
  all_goals decide

theorem keepsLast_chainAnswer (hlast : lastChange x chainAnswer.changes = some c) :
    KeepsLast (showing chainRemote) chainNodes twoRecords
      (planRemoteChanges chainAnswer.changes chainNodes).planned x c := by
  have hnode : ∀ obj ∈ chainRemote, watchedNode chainNodes obj.path = some ⟨"node", ["org"]⟩ := by
    decide +kernel
  have hplanned : ∀ obj ∈ chainRemote, lastPlanned obj.id
      [plannedUpsert (liveObject "B" "new.md"), plannedUpsert (liveObject "A" "other.md")] =
        some (plannedUpsert obj) := by decide
  obtain ⟨hc, hx⟩ := mem_of_lastChange hlast
  obtain ⟨obj, hobj, rfl⟩ := feeds_chainAnswer c hc
  obtain rfl : obj.id = x := Option.some.inj hx
  rw [planned_chainAnswer]
  refine ⟨fun node hwatched => ?_, fun hnone => ?_⟩
  · obtain rfl := Option.some.inj ((hnode obj hobj).symm.trans hwatched)
    refine ⟨hplanned obj hobj, ?_⟩
    simp [plannedUpsert, PlannedChange.isUpsert]
  · cases (hnode obj hobj).symm.trans hnone

end Portuni.RemoteWatch
