import Portuni.MirrorOwners.Paths

namespace Portuni.MirrorOwners

/-!
The files that the walk of a node lists, and those that reconciling a path registers, lie in a
section of the node's mirror.
-/

section

open Library.PosixPath RemotePaths

variable {cwd : WorkingDirectory} {device : Device} {mirrors : List LocalMirror}
  {root nodeId absPath : String}

theorem getMirrorPath_eq_some (h : getMirrorPath mirrors nodeId = some root) :
    ∃ m ∈ mirrors, m.nodeId = nodeId ∧ m.localPath = root := by
  obtain ⟨own, hfind, hown⟩ := Option.map_eq_some_iff.mp h
  have hnode := List.find?_some (p := fun m : LocalMirror => m.nodeId = nodeId) hfind
  exact ⟨own, List.mem_of_find?_eq_some hfind, of_decide_eq_true hnode, hown⟩

theorem mirrorPath_of_get (hpaths : ∀ m ∈ mirrors, MirrorPath m.localPath)
    (h : getMirrorPath mirrors nodeId = some root) : MirrorPath root := by
  obtain ⟨m, hm, -, rfl⟩ := getMirrorPath_eq_some h
  exact hpaths m hm

def Below (path below : String) : Prop :=
  ∃ names, names ≠ [] ∧ (∀ s ∈ names, IsName s) ∧ below = path ++ "/" ++ joined names

theorem Below.child {dir below : String} {name : Name} (h : Below (dir ++ "/" ++ name) below) :
    Below dir below := by
  obtain ⟨names, hne, hnames, rfl⟩ := h
  refine ⟨name :: names, List.cons_ne_nil _ _, ?_, ?_⟩
  · intro s hs
    rcases List.mem_cons.mp hs with rfl | hs
    · exact name.2
    · exact hnames s hs
  · rw [joined_cons hne]
    simp only [String.append_assoc]

theorem join_name {dir : String} (h : Normal dir) (name : Name) :
    join [dir, name] = dir ++ "/" ++ name ∧ Normal (dir ++ "/" ++ name) := by
  have hne : [name.1] ≠ [] := List.cons_ne_nil _ _
  have hnames : ∀ s ∈ [name.1], IsName s := by simpa using name.2
  have hjoin := h.join hne hnames
  have hbelow := h.below hne hnames
  rw [joined_singleton] at hjoin hbelow
  exact ⟨hjoin, hbelow⟩

mutual

theorem below_of_mem_filesOf {isIgnored : String → Bool} {dir : String} (hdir : Normal dir)
    (item : Item) (h : absPath ∈ filesOf isIgnored dir item) : Below dir absPath := by
  cases item with
  | file name =>
    rw [filesOf, (join_name hdir name).1] at h
    split at h
    next => cases h
    next =>
      obtain rfl := List.mem_singleton.mp h
      exact ⟨[name.1], List.cons_ne_nil _ _, by simpa using name.2, by rw [joined_singleton]⟩
  | directory name items =>
    rw [filesOf, (join_name hdir name).1] at h
    split at h
    next => cases h
    next => exact (below_of_mem_filesBelow (join_name hdir name).2 items h).child
  | other name =>
    rw [filesOf] at h
    cases h

theorem below_of_mem_filesBelow {isIgnored : String → Bool} {dir : String} (hdir : Normal dir)
    (items : List Item) (h : absPath ∈ filesBelow isIgnored dir items) : Below dir absPath := by
  cases items with
  | nil =>
    rw [filesBelow] at h
    cases h
  | cons item items =>
    rw [filesBelow] at h
    rcases List.mem_append.mp h with h | h
    · exact below_of_mem_filesOf hdir item h
    · exact below_of_mem_filesBelow hdir items h

end

theorem below_of_mem_walk {isIgnored : String → Bool} {dir : String} (hdir : Normal dir)
    (h : absPath ∈ device.walk cwd isIgnored dir) : Below dir absPath := by
  unfold Device.walk at h
  split at h
  next items _ => exact below_of_mem_filesBelow hdir items h
  next => cases h

/-- A path that stands for a file of the mirror: in a section of it and under it by its text. -/
structure InMirror (cwd : WorkingDirectory) (mirrorRoot absPath : String) : Prop where
  normal : Normal absPath
  contains : contains mirrorRoot absPath = true
  sub : (subpathFromMirror cwd mirrorRoot absPath).isSome = true

theorem inMirror_of_listed (hpaths : ∀ m ∈ mirrors, MirrorPath m.localPath)
    (h : absPath ∈ listUntrackedLocal cwd device mirrors nodeId) :
    ∃ mirrorRoot, getMirrorPath mirrors nodeId = some mirrorRoot ∧
      InMirror cwd mirrorRoot absPath := by
  unfold listUntrackedLocal at h
  split at h
  next => cases h
  next mirrorRoot hroot =>
    split at h
    next => cases h
    next =>
      obtain ⟨fileSection, hsection, hmem⟩ := List.mem_flatMap.mp h
      obtain ⟨hwalked, hkept⟩ := List.mem_filter.mp hmem
      have hname : IsName fileSection := by
        simp only [sections, List.mem_cons, List.not_mem_nil, or_false] at hsection
        rcases hsection with rfl | rfl | rfl
        all_goals exact ⟨by decide, by decide, by decide, by decide⟩
      have hpath := mirrorPath_of_get hpaths hroot
      have hstart := join_below hpath (List.cons_ne_nil fileSection []) (by simpa using hname)
      rw [joined_singleton] at hstart
      obtain ⟨names, hne, hnames, rfl⟩ := below_of_mem_walk hstart.1 hwalked
      exact ⟨mirrorRoot, hroot, hstart.1.below hne hnames, contains_below hpath hstart.2,
        (Bool.and_eq_true_iff.mp hkept).2⟩

theorem sub_of_unregistered (h : unregistered cwd device root nodeId absPath = true) :
    (subpathFromMirror cwd root absPath).isSome = true := by
  unfold unregistered at h
  cases hsub : subpathFromMirror cwd root absPath with
  | none => simp [hsub] at h
  | some sub => rfl

theorem inMirror_of_reconciled (hpaths : ∀ m ∈ mirrors, MirrorPath m.localPath) {event : String}
    (hevent : Normal event)
    (hcontains : ∀ mirrorRoot, getMirrorPath mirrors nodeId = some mirrorRoot →
      contains mirrorRoot event = true)
    (h : absPath ∈ reconcilePath cwd device mirrors nodeId event) :
    ∃ mirrorRoot, getMirrorPath mirrors nodeId = some mirrorRoot ∧
      InMirror cwd mirrorRoot absPath := by
  unfold reconcilePath at h
  split at h
  next => cases h
  next mirrorRoot hroot =>
    have hon := hcontains mirrorRoot hroot
    have hpath := mirrorPath_of_get hpaths hroot
    split at h
    next hfresh =>
      split at h
      next =>
        obtain rfl := List.mem_singleton.mp h
        exact ⟨mirrorRoot, hroot, hevent, hon, sub_of_unregistered hfresh⟩
      next items _ =>
        obtain ⟨hwalked, hfresh⟩ := List.mem_filter.mp h
        obtain ⟨names, hne, hnames, rfl⟩ := below_of_mem_filesBelow hevent items hwalked
        exact ⟨mirrorRoot, hroot, hevent.below hne hnames, contains_below hpath hon,
          sub_of_unregistered hfresh⟩
      all_goals cases h
    next => cases h

end

/-!
One file on disk belongs to one node, over every run of the registry. The check that a path is free
is over before the path is registered, and it compares nothing but whole paths: a mirror may also
lie in a section of another.
-/

open Library.PosixPath Library.Runs RemotePaths

variable {cwd : WorkingDirectory} {device : Device} {mirrors : List LocalMirror}
  {root workspaceRoot nodeId absPath : String} {w w' : World} {acts : List Action}

section

variable (cwd device)

/-- The paths that are reconciled under a node: the watcher's events are given to the owner of
their path, and the backfill goes through what the walk lists. -/
def Reconciles (mirrors : List LocalMirror) (nodeId event : String) : Prop :=
  (∃ m ∈ mirrors, ∃ names, names ≠ [] ∧ (∀ s ∈ names, IsName s) ∧
    event = join [m.localPath, joined names] ∧ ownerNodeForPath mirrors event = some nodeId) ∨
  event ∈ listUntrackedLocal cwd device mirrors nodeId

/-- No file is listed for, or registered under, a node that is not its owner. -/
def AdoptedByOwner (mirrors : List LocalMirror) : Prop :=
  ∀ nodeId absPath,
    absPath ∈ listUntrackedLocal cwd device mirrors nodeId ∨
      (∃ event, Reconciles cwd device mirrors nodeId event ∧
        absPath ∈ reconcilePath cwd device mirrors nodeId event) →
    ownerNodeForPath mirrors absPath = some nodeId

def OwnDirectories (mirrors : List LocalMirror) : Prop :=
  ∀ m ∈ mirrors, ∀ m' ∈ mirrors, m.nodeId ≠ m'.nodeId →
    resolvedSegments cwd [m.localPath] ≠ resolvedSegments cwd [m'.localPath]

/-- A registration that comes to a place which is free: no other mirror is there, in a section of
it, or around it with the place in a section. -/
def World.Admits (w : World) : Action → Prop
  | .register index => ∀ call ∈ w.calls[index]?, ∀ m ∈ w.mirrors, m.nodeId ≠ call.nodeId →
      Apart cwd call.localPath m.localPath
  | _ => True

structure World.Settled (w : World) : Prop where
  keyed : ∀ m ∈ w.mirrors, ∀ m' ∈ w.mirrors, m.nodeId = m'.nodeId → m = m'
  paths : ∀ m ∈ w.mirrors, MirrorPath m.localPath
  calls : ∀ call ∈ w.calls, MirrorPath call.localPath
  apart : ∀ m ∈ w.mirrors, ∀ m' ∈ w.mirrors, m.nodeId ≠ m'.nodeId →
    Apart cwd m.localPath m'.localPath

end

section

theorem settled_register (h : w.Settled cwd) {localPath : String} (hpath : MirrorPath localPath)
    (hapart : ∀ m ∈ w.mirrors, m.nodeId ≠ nodeId → Apart cwd localPath m.localPath)
    {calls : List Call} (hcalls : ∀ call ∈ calls, call ∈ w.calls) :
    World.Settled cwd ⟨registerMirror w.mirrors nodeId localPath, calls⟩ where
  keyed m hm m' hm' heq := by
    rcases List.mem_cons.mp hm with rfl | hm
    · rcases List.mem_cons.mp hm' with rfl | hm'
      · rfl
      · exact absurd heq.symm (of_decide_eq_true (List.mem_filter.mp hm').2)
    · rcases List.mem_cons.mp hm' with rfl | hm'
      · exact absurd heq (of_decide_eq_true (List.mem_filter.mp hm).2)
      · exact h.keyed m (List.mem_filter.mp hm).1 m' (List.mem_filter.mp hm').1 heq
  paths m hm := by
    rcases List.mem_cons.mp hm with rfl | hm
    · exact hpath
    · exact h.paths m (List.mem_filter.mp hm).1
  calls call hcall := h.calls call (hcalls call hcall)
  apart m hm m' hm' hne := by
    rcases List.mem_cons.mp hm with rfl | hm
    · rcases List.mem_cons.mp hm' with rfl | hm'
      · exact absurd rfl hne
      · exact hapart m' (List.mem_filter.mp hm').1 hne.symm
    · rcases List.mem_cons.mp hm' with rfl | hm'
      · exact (hapart m (List.mem_filter.mp hm).1 hne).symm
      · exact h.apart m (List.mem_filter.mp hm).1 m' (List.mem_filter.mp hm').1 hne

theorem settled_of_subset (h : w.Settled cwd) (hmirrors : ∀ m ∈ w'.mirrors, m ∈ w.mirrors)
    (hcalls : ∀ call ∈ w'.calls, MirrorPath call.localPath) : w'.Settled cwd where
  keyed m hm m' hm' := h.keyed m (hmirrors m hm) m' (hmirrors m' hm')
  paths m hm := h.paths m (hmirrors m hm)
  calls := hcalls
  apart m hm m' hm' := h.apart m (hmirrors m hm) m' (hmirrors m' hm')

theorem settled_step {a : Action} (h : w.Settled cwd) (hadmits : w.Admits cwd a)
    (hstep : step cwd workspaceRoot w a = some w') : w'.Settled cwd := by
  cases a with
  | resolve nodeId row customPath =>
    simp only [step] at hstep
    split at hstep
    next => exact Option.some.inj hstep ▸ h
    next row =>
      split at hstep
      next => exact Option.some.inj hstep ▸ h
      next =>
        split at hstep
        next => exact Option.some.inj hstep ▸ h
        next hroot =>
          split at hstep
          next => exact Option.some.inj hstep ▸ h
          next localPath hlocal =>
            refine Option.some.inj hstep ▸ settled_of_subset h (fun _ hm => hm) ?_
            intro call hcall
            rcases List.mem_append.mp hcall with hcall | hcall
            · exact h.calls call hcall
            · obtain rfl := List.mem_singleton.mp hcall
              exact mirrorPath_resolveMirrorPath hroot hlocal
  | check index =>
    simp only [step] at hstep
    split at hstep
    next nodeId localPath hcall =>
      have hpath := h.calls _ (List.mem_of_getElem? hcall)
      split at hstep
      next =>
        exact Option.some.inj hstep ▸ settled_of_subset h (fun _ hm => hm) fun call hmem =>
          h.calls call (List.mem_of_mem_eraseIdx hmem)
      next =>
        refine Option.some.inj hstep ▸ settled_of_subset h (fun _ hm => hm) fun call hmem => ?_
        rcases List.mem_or_eq_of_mem_set hmem with hmem | rfl
        · exact h.calls call hmem
        · exact hpath
    next => cases hstep
  | register index =>
    simp only [step] at hstep
    split at hstep
    next nodeId localPath hcall =>
      exact Option.some.inj hstep ▸ settled_register h (h.calls _ (List.mem_of_getElem? hcall))
        (hadmits _ hcall) fun call hmem => List.mem_of_mem_eraseIdx hmem
    next => cases hstep
  | unregister nodeId =>
    exact Option.some.inj hstep ▸ settled_of_subset h (fun m hm => (List.mem_filter.mp hm).1)
      h.calls

theorem settled_start : World.Settled cwd {} := by
  constructor <;> simp

variable (h : w.Settled cwd)

include h

theorem ownDirectories : OwnDirectories cwd w.mirrors :=
  fun m hm m' hm' hne => (h.apart m hm m' hm' hne).ne

theorem owner_of_inMirror (hroot : getMirrorPath w.mirrors nodeId = some root)
    (hin : InMirror cwd root absPath) : ownerNodeForPath w.mirrors absPath = some nodeId := by
  obtain ⟨own, hown, rfl, rfl⟩ := getMirrorPath_eq_some hroot
  exact owner_of_section h.paths hroot (fun m hm hne => h.apart own hown m hm hne.symm)
    hin.normal hin.contains hin.sub

theorem contains_of_owner (howner : ownerNodeForPath w.mirrors absPath = some nodeId)
    (hroot : getMirrorPath w.mirrors nodeId = some root) : contains root absPath = true := by
  obtain ⟨deepest, hdeepest, hnode⟩ := Option.map_eq_some_iff.mp howner
  obtain ⟨hmem, hcontains⟩ := List.mem_filter.mp (List.argmax_mem hdeepest)
  obtain ⟨own, hown, hsame, rfl⟩ := getMirrorPath_eq_some hroot
  obtain rfl := h.keyed own hown deepest hmem (hsame.trans hnode.symm)
  exact hcontains

theorem adoptedByOwner (device : Device) : AdoptedByOwner cwd device w.mirrors := by
  rintro nodeId absPath (hlisted | ⟨event, hreconciles, hfile⟩)
  · obtain ⟨mirrorRoot, hroot, hin⟩ := inMirror_of_listed h.paths hlisted
    exact owner_of_inMirror h hroot hin
  · have hevent : Normal event ∧ ∀ mirrorRoot, getMirrorPath w.mirrors nodeId = some mirrorRoot →
        contains mirrorRoot event = true := by
      rcases hreconciles with ⟨m, hm, names, hne, hnames, rfl, howner⟩ | hlisted
      · exact ⟨(join_below (h.paths m hm) hne hnames).1, fun mirrorRoot hroot =>
          contains_of_owner h howner hroot⟩
      · obtain ⟨mirrorRoot, hroot, hin⟩ := inMirror_of_listed h.paths hlisted
        refine ⟨hin.normal, fun other hother => ?_⟩
        obtain rfl := Option.some.inj (hroot.symm.trans hother)
        exact hin.contains
    obtain ⟨mirrorRoot, hroot, hin⟩ := inMirror_of_reconciled h.paths hevent.1 hevent.2 hfile
    exact owner_of_inMirror h hroot hin

end

/-- In every state of a run whose registrations come to free places, no two nodes have one
directory, and whatever the disk holds, a file is found by its owner alone. -/
theorem one_node_per_file (run : Run (step cwd workspaceRoot) (World.Admits cwd) {} acts w) :
    OwnDirectories cwd w.mirrors ∧ ∀ device, AdoptedByOwner cwd device w.mirrors := by
  have settled : w.Settled cwd := run.inv (World.Settled cwd) settled_start
    fun _ _ _ h hadmits hstep => settled_step h hadmits hstep
  exact ⟨ownDirectories settled, adoptedByOwner settled⟩

def desktop : WorkingDirectory := ⟨"/home/ana", by decide⟩

def acme : NodeRow := ⟨.organization, ⟨"acme", by decide, by decide, by decide, by decide⟩, none⟩

/-- Two calls for one free directory look before either has registered it. -/
def raced : List Action :=
  [.resolve "a" (some acme) (some "/ws/shared"), .resolve "b" (some acme) (some "/ws/shared"),
    .check 0, .check 1, .register 0, .register 0]

def nested : List Action :=
  [.resolve "a" (some acme) none, .check 0, .register 0,
    .resolve "b" (some acme) (some "/ws/acme/wip/b"), .check 0, .register 0]

def draft : Device where
  disk := [.directory ⟨"ws", by decide, by decide, by decide, by decide⟩
    [.directory ⟨"acme", by decide, by decide, by decide, by decide⟩
      [.directory ⟨"wip", by decide, by decide, by decide, by decide⟩
        [.directory ⟨"b", by decide, by decide, by decide, by decide⟩
          [.directory ⟨"wip", by decide, by decide, by decide, by decide⟩
            [.file ⟨"plan.md", by decide, by decide, by decide, by decide⟩]]]]]]
  isIgnored _ _ := false
  nodeInfo _ := some ⟨some "acme", "organization", "acme"⟩
  files _ := []
  nfc text := text

theorem two_nodes_one_file : (∃ w, Run (step desktop "/ws") (fun _ _ => True) {} raced w ∧
      ¬OwnDirectories desktop w.mirrors) ∧
    ∃ w, Run (step desktop "/ws") (fun _ _ => True) {} nested w ∧
      ¬AdoptedByOwner desktop draft w.mirrors := by
  constructor
  · have hexec : exec (step desktop "/ws") {} raced =
        some ⟨[⟨"b", "/ws/shared"⟩, ⟨"a", "/ws/shared"⟩], []⟩ := by decide +kernel
    refine ⟨_, Run.of_exec_eq_some hexec, fun own => ?_⟩
    exact own ⟨"a", "/ws/shared"⟩ (by simp) ⟨"b", "/ws/shared"⟩ (by simp) (by decide) rfl
  · have hexec : exec (step desktop "/ws") {} nested =
        some ⟨[⟨"b", "/ws/acme/wip/b"⟩, ⟨"a", "/ws/acme"⟩], []⟩ := by decide +kernel
    refine ⟨_, Run.of_exec_eq_some hexec, fun adopted => ?_⟩
    have howner := adopted "a" "/ws/acme/wip/b/wip/plan.md" (.inl (by decide +kernel))
    revert howner
    decide +kernel

instance (a b : String) : Decidable (Apart cwd a b) :=
  decidable_of_iff (resolvedSegments cwd [a] ≠ resolvedSegments cwd [b] ∧
      (∀ s ∈ sections, ¬resolvedSegments cwd [a] ++ [s] <+: resolvedSegments cwd [b]) ∧
      ∀ s ∈ sections, ¬resolvedSegments cwd [b] ++ [s] <+: resolvedSegments cwd [a])
    ⟨fun ⟨hne, hbelow, habove⟩ => ⟨hne, hbelow, habove⟩,
      fun ⟨hne, hbelow, habove⟩ => ⟨hne, hbelow, habove⟩⟩

instance (w : World) (a : Action) : Decidable (w.Admits cwd a) :=
  match a with
  | .register index =>
    inferInstanceAs (Decidable (∀ call ∈ w.calls[index]?, ∀ m ∈ w.mirrors,
      m.nodeId ≠ call.nodeId → Apart cwd call.localPath m.localPath))
  | .resolve _ _ _ | .check _ | .unregister _ => inferInstanceAs (Decidable True)

/-- A project's mirror under that of its organization, but in no section of it. -/
def underOrganization : List Action :=
  [.resolve "a" (some acme) none, .check 0, .register 0,
    .resolve "b" (some ⟨.project, ⟨"site", by decide, by decide, by decide, by decide⟩,
      some acme.syncKey⟩) none, .check 0, .register 0]

theorem one_node_per_file_under_organization :
    ∃ w, Run (step desktop "/ws") (World.Admits desktop) {} underOrganization w ∧
      w.mirrors = [⟨"b", "/ws/acme/projects/site"⟩, ⟨"a", "/ws/acme"⟩] ∧
      OwnDirectories desktop w.mirrors ∧ ∀ device, AdoptedByOwner desktop device w.mirrors := by
  have hexec : exec (step desktop "/ws") {} underOrganization =
      some ⟨[⟨"b", "/ws/acme/projects/site"⟩, ⟨"a", "/ws/acme"⟩], []⟩ := by decide +kernel
  have hallowed : allowedAlong (step desktop "/ws") (World.Admits desktop) {} underOrganization =
      true := by decide +kernel
  have run := Run.of_exec hexec hallowed
  exact ⟨_, run, rfl, one_node_per_file run⟩

end Portuni.MirrorOwners
