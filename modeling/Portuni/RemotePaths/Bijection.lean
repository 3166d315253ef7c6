import Portuni.RemotePaths.RoundTrip

/-!
Which files of which nodes share a remote path. The folder of a node type is the
second segment below an organization and the first one below no organization, so
a node without an organization can meet one whose organization is named like a folder.
-/

namespace Portuni.RemotePaths

open Files (NodeInfo FileSection)
open Library.PosixPath

def nodeTypes : List String :=
  ["organization", "project", "process", "area", "principle"]

def typeFolders : List String :=
  ["projects", "processes", "areas", "principles"]

structure Resolved (n : NodeInfo) : Prop where
  nodeType : n.nodeType ∈ nodeTypes
  organization : n.nodeType = "organization" → n.orgSyncKey = some n.nodeSyncKey

def rootNames (n : NodeInfo) : List String :=
  if n.nodeType = "organization" then [n.orgSyncKey.getD n.nodeSyncKey]
  else n.orgSyncKey.toList ++ [Files.typePlural n.nodeType, n.nodeSyncKey]

theorem typePlural_mem {nodeType : String} (h : nodeType ∈ nodeTypes)
    (horg : nodeType ≠ "organization") : Files.typePlural nodeType ∈ typeFolders := by
  simp only [nodeTypes, List.mem_cons, List.not_mem_nil, or_false] at h
  rcases h with rfl | rfl | rfl | rfl | rfl
  · exact absurd rfl horg
  all_goals decide +kernel

theorem typeFolder_safe {folder : String} (h : folder ∈ typeFolders) : SafeSegment folder := by
  apply (@assertSafeSegment_ok_iff "" folder).mp
  simp only [typeFolders, List.mem_cons, List.not_mem_nil, or_false] at h
  rcases h with rfl | rfl | rfl | rfl
  all_goals decide +kernel

theorem section_not_folder {fileSection : String}
    (h : FileSection.ofSegment fileSection ≠ none) : fileSection ∉ typeFolders := by
  obtain ⟨s, hs⟩ := Option.ne_none_iff_exists'.mp h
  obtain rfl := ofSegment_eq_some hs
  cases s
  all_goals decide +kernel

variable {n : NodeInfo}

theorem rootNames_safe {root : String} (htype : n.nodeType ∈ nodeTypes)
    (h : buildNodeRoot n = .ok root) : ∀ s ∈ rootNames n, SafeSegment s := by
  obtain ⟨horg, hkey, -⟩ := buildNodeRoot_ok h
  intro s hs
  unfold rootNames at hs
  split_ifs at hs with hcase
  · obtain rfl := List.mem_singleton.mp hs
    cases hval : n.orgSyncKey with
    | none => exact hkey
    | some key => exact horg key (by simp [hval])
  · rcases List.mem_append.mp hs with hs | hs
    · exact horg s (Option.mem_toList.mp hs)
    · rcases List.mem_cons.mp hs with rfl | hs
      · exact typeFolder_safe (typePlural_mem htype hcase)
      · obtain rfl := List.mem_singleton.mp hs
        exact hkey

theorem rootNames_ne_nil (n : NodeInfo) : rootNames n ≠ [] := by
  unfold rootNames
  split_ifs <;> simp

theorem buildNodeRoot_joined {root : String} (htype : n.nodeType ∈ nodeTypes)
    (h : buildNodeRoot n = .ok root) : root = joined (rootNames n) := by
  have hsafe := rootNames_safe htype h
  obtain ⟨-, -, rfl⟩ := buildNodeRoot_ok h
  have hne := rootNames_ne_nil n
  unfold rootNames at hsafe hne ⊢
  split_ifs at hsafe hne ⊢ with hcase
  · exact (joined_singleton _).symm
  · rw [join_eq_normalize hne fun s hs => (hsafe s hs).ne_empty,
      normalize_names hne (isName_of_safe hsafe)]

theorem segments_buildRemotePath {a : BuildRemotePathArgs} {path : String}
    (htype : a.nodeType ∈ nodeTypes) (h : buildRemotePath a = .ok path) :
    segments path = rootNames a.toNodeInfo ++ a.names := by
  obtain ⟨haccepted, root, hroot, rfl⟩ := buildRemotePath_below h
  have hsafe := rootNames_safe htype hroot
  rw [segments_append_slash, buildNodeRoot_joined htype hroot,
    segments_joined_names (rootNames_ne_nil _) (isName_of_safe hsafe),
    segments_joined_names (by simp [BuildRemotePathArgs.names]) (isName_of_safe haccepted.safe)]

/-- Two nodes whose files cannot meet because of a node without an organization: both have
one or both have none, or no organization in question is named like a type folder. -/
def Comparable (m n : NodeInfo) : Prop :=
  m.orgSyncKey.isSome = n.orgSyncKey.isSome ∨
    ∀ key, key ∈ m.orgSyncKey ∨ key ∈ n.orgSyncKey → key ∉ typeFolders

variable {m n : NodeInfo}

theorem Comparable.symm (h : Comparable m n) : Comparable n m := by
  rcases h with h | h
  · exact .inl h.symm
  · exact .inr fun key hkey => h key hkey.symm

theorem Resolved.cases (h : Resolved n) :
    (n.orgSyncKey = some n.nodeSyncKey ∧ rootNames n = [n.nodeSyncKey]) ∨
    (∃ org folder, n.orgSyncKey = some org ∧ folder ∈ typeFolders ∧
      rootNames n = [org, folder, n.nodeSyncKey]) ∨
    (∃ folder, n.orgSyncKey = none ∧ folder ∈ typeFolders ∧
      rootNames n = [folder, n.nodeSyncKey]) := by
  unfold rootNames
  by_cases htype : n.nodeType = "organization"
  · have horg := h.organization htype
    exact .inl ⟨horg, by simp [htype, horg]⟩
  · have hfolder := typePlural_mem h.nodeType htype
    cases horg : n.orgSyncKey with
    | none => exact .inr (.inr ⟨_, rfl, hfolder, by simp [htype]⟩)
    | some org => exact .inr (.inl ⟨org, _, rfl, hfolder, by simp [htype]⟩)

theorem Comparable.not_folder (h : Comparable m n) {key : String} (hm : m.orgSyncKey = some key)
    (hn : n.orgSyncKey = none) : key ∉ typeFolders := by
  rcases h with h | h
  · rw [hm, hn] at h
    cases h
  · exact h key (.inl hm)

theorem rootNames_apart (hm : Resolved m) (hn : Resolved n) (hkey : m.nodeSyncKey ≠ n.nodeSyncKey)
    (hcomparable : Comparable m n) {first second : String} {rest others : List String}
    (hfirst : first ∉ typeFolders) (hsecond : second ∉ typeFolders) :
    rootNames m ++ first :: rest ≠ rootNames n ++ second :: others := by
  intro heq
  rcases hm.cases with ⟨hmOrg, hmRoot⟩ | ⟨mOrg, mFolder, hmOrg, hmFolder, hmRoot⟩ |
      ⟨mFolder, hmOrg, hmFolder, hmRoot⟩ <;>
    rcases hn.cases with ⟨hnOrg, hnRoot⟩ | ⟨nOrg, nFolder, hnOrg, hnFolder, hnRoot⟩ |
      ⟨nFolder, hnOrg, hnFolder, hnRoot⟩ <;>
    simp only [hmRoot, hnRoot, List.cons_append, List.nil_append, List.cons.injEq] at heq
  · exact hkey heq.1
  · exact hfirst (heq.2.1 ▸ hnFolder)
  · exact hcomparable.not_folder hmOrg hnOrg (heq.1 ▸ hnFolder)
  · exact hsecond (heq.2.1 ▸ hmFolder)
  · exact hkey heq.2.2.1
  · exact hcomparable.not_folder hmOrg hnOrg (heq.1 ▸ hnFolder)
  · exact hcomparable.symm.not_folder hnOrg hmOrg (heq.1 ▸ hmFolder)
  · exact hcomparable.symm.not_folder hnOrg hmOrg (heq.1 ▸ hmFolder)
  · exact hkey heq.2.1

variable {a b : BuildRemotePathArgs}

theorem names_injective (hnode : a.toNodeInfo = b.toNodeInfo) (h : a.names = b.names) : a = b := by
  obtain ⟨aNode, aSection, aSub, aName⟩ := a
  obtain ⟨bNode, bSection, bSub, bName⟩ := b
  simp only [BuildRemotePathArgs.names] at h hnode ⊢
  subst hnode
  obtain ⟨hcons, hname⟩ := List.append_inj' h rfl
  obtain ⟨rfl, hsub⟩ := List.cons.inj hcons
  obtain rfl : aName = bName := by simpa using hname
  have hsame : aSub = bSub := by
    cases aSub with
    | none =>
      cases bSub with
      | none => rfl
      | some sub => exact absurd hsub.symm (segments_ne_nil sub)
    | some sub =>
      cases bSub with
      | none => exact absurd hsub (segments_ne_nil sub)
      | some other => exact congrArg some (segments_injective hsub)
  rw [hsame]

theorem buildRemotePath_injective {a b : BuildRemotePathArgs} {path : String}
    (ha : Resolved a.toNodeInfo) (hb : Resolved b.toNodeInfo)
    (hnodes : a.toNodeInfo = b.toNodeInfo ∨
      a.nodeSyncKey ≠ b.nodeSyncKey ∧ Comparable a.toNodeInfo b.toNodeInfo)
    (haPath : buildRemotePath a = .ok path) (hbPath : buildRemotePath b = .ok path) : a = b := by
  have haSegs := segments_buildRemotePath ha.nodeType haPath
  have hbSegs := segments_buildRemotePath hb.nodeType hbPath
  have heq : rootNames a.toNodeInfo ++ a.names = rootNames b.toNodeInfo ++ b.names := by
    rw [← haSegs, hbSegs]
  rcases hnodes with hnode | ⟨hkey, hcomparable⟩
  · rw [hnode] at heq
    exact names_injective hnode (List.append_cancel_left heq)
  · obtain ⟨haAccepted, -⟩ := buildRemotePath_below haPath
    obtain ⟨hbAccepted, -⟩ := buildRemotePath_below hbPath
    exact absurd heq (rootNames_apart ha hb hkey hcomparable
      (section_not_folder haAccepted.fileSection) (section_not_folder hbAccepted.fileSection))

/-- Remote paths and local paths name the same files, and no local path leaves its mirror. -/
theorem remotePaths_bijective (cwd : WorkingDirectory) (mirrorRoot : String) :
    (∀ a path, resolve cwd [mirrorRoot] ≠ "/" → buildRemotePath a = .ok path →
      ∃ nodeRoot localPath, buildNodeRoot a.toNodeInfo = .ok nodeRoot ∧
        deriveLocalPath cwd mirrorRoot nodeRoot path = .ok localPath ∧
        safeMirrorJoin cwd mirrorRoot (a.fileSection :: a.subpath.toList ++ [a.filename]) =
          .ok localPath ∧
        StrictlyUnder (resolve cwd [mirrorRoot]) localPath ∧
        subpathFromMirror cwd mirrorRoot localPath = some ⟨a.fileSection, a.subpath, a.filename⟩ ∧
        parseRelPath (relative cwd mirrorRoot localPath) =
          .ok ⟨a.fileSection, a.subpath, a.filename⟩) ∧ (∀ nodeRoot remotePath localPath,
      deriveLocalPath cwd mirrorRoot nodeRoot remotePath = .ok localPath →
      StrictlyUnder (resolve cwd [mirrorRoot]) localPath) ∧
    ∀ a b path, Resolved a.toNodeInfo → Resolved b.toNodeInfo → (a.toNodeInfo = b.toNodeInfo ∨
        a.nodeSyncKey ≠ b.nodeSyncKey ∧ Comparable a.toNodeInfo b.toNodeInfo) →
      buildRemotePath a = .ok path → buildRemotePath b = .ok path → a = b := by
  refine ⟨?_, ?_, ?_⟩
  · intro a path hroot h
    exact roundTrip hroot h
  · intro nodeRoot remotePath localPath h
    exact deriveLocalPath_strictlyUnder h
  · intro a b path ha hb hnodes haPath hbPath
    exact buildRemotePath_injective ha hb hnodes haPath hbPath

def serverRoot : WorkingDirectory := ⟨"/", rfl⟩

def draftOfSite : BuildRemotePathArgs :=
  ⟨⟨some "acme", "project", "site"⟩, "wip", some "drafts/2024", "plan.md"⟩

def draftOfShop : BuildRemotePathArgs :=
  ⟨⟨some "acme", "project", "shop"⟩, "wip", some "drafts/2024", "plan.md"⟩

theorem remotePaths_bijective_site : (∃ localPath,
      deriveLocalPath serverRoot "/home/ana/site" "acme/projects/site"
        "acme/projects/site/wip/drafts/2024/plan.md" = .ok localPath ∧
      StrictlyUnder (resolve serverRoot ["/home/ana/site"]) localPath) ∧
    buildRemotePath draftOfShop ≠ .ok "acme/projects/site/wip/drafts/2024/plan.md" := by
  have hsite : buildRemotePath draftOfSite = .ok "acme/projects/site/wip/drafts/2024/plan.md" := by
    decide +kernel
  refine ⟨?_, ?_⟩
  · obtain ⟨nodeRoot, localPath, hnode, hderive, -⟩ :=
      (remotePaths_bijective serverRoot "/home/ana/site").1 draftOfSite _ (by decide +kernel) hsite
    have hroot : buildNodeRoot draftOfSite.toNodeInfo = .ok "acme/projects/site" := by
      decide +kernel
    obtain rfl : "acme/projects/site" = nodeRoot := Except.ok.inj (hroot.symm.trans hnode)
    exact ⟨localPath, hderive,
      (remotePaths_bijective serverRoot "/home/ana/site").2.1 _ _ _ hderive⟩
  · intro hshop
    have hresolved : Resolved draftOfSite.toNodeInfo ∧ Resolved draftOfShop.toNodeInfo :=
      ⟨⟨by decide, by decide⟩, ⟨by decide, by decide⟩⟩
    have hsame := (remotePaths_bijective serverRoot "/").2.2 draftOfSite draftOfShop _
      hresolved.1 hresolved.2 (.inr ⟨by decide, .inl rfl⟩) hsite hshop
    exact absurd hsame (by decide)

def fileOfOrganization : BuildRemotePathArgs :=
  ⟨⟨some "projects", "organization", "projects"⟩, "wip", some "outputs", "plan.md"⟩

def fileOfHub : BuildRemotePathArgs :=
  ⟨⟨none, "project", "wip"⟩, "outputs", none, "plan.md"⟩

/-- An organization and a project without one, whose keys differ, build one remote path. With
the root of the filesystem as mirror root, an accepted path has no local counterpart. -/
theorem remotePaths_collide :
    (Resolved fileOfOrganization.toNodeInfo ∧ Resolved fileOfHub.toNodeInfo ∧
      fileOfOrganization.nodeSyncKey ≠ fileOfHub.nodeSyncKey ∧
      buildRemotePath fileOfOrganization = .ok "projects/wip/outputs/plan.md" ∧
      buildRemotePath fileOfHub = .ok "projects/wip/outputs/plan.md") ∧
    buildRemotePath draftOfSite = .ok "acme/projects/site/wip/drafts/2024/plan.md" ∧
    deriveLocalPath serverRoot "/" "acme/projects/site"
        "acme/projects/site/wip/drafts/2024/plan.md" =
      .error ("deriveLocalPath: composed path escapes mirror root (/): " ++
        "acme/projects/site/wip/drafts/2024/plan.md") := by
  refine ⟨⟨⟨by decide, by intro _; rfl⟩, ⟨by decide, by decide⟩, by decide, ?_, ?_⟩, ?_, ?_⟩
  all_goals decide +kernel

end Portuni.RemotePaths
