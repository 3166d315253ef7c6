import Mathlib.Data.List.Nodup
import Mathlib.Logic.Function.Basic
import Portuni.Library.PosixPath

/-! The tree of the Files tab: `buildFileTree` puts the virtual folders and then the files into one
map of names at each level. -/

namespace Portuni.FilesTab

open Library.PosixPath

/-- A file that has no id is untracked. -/
structure TreeFile where
  relativePath : String
  filename : String
  mimeType : Option String := none
  fileId : Option String := none
  localPath : Option String := none
  plannedFrom : Option String := none
deriving DecidableEq

inductive TreeNode where
  | node (name path : String) (children : Option (String → Option TreeNode))
    (file : Option TreeFile)

namespace TreeNode

def children : TreeNode → Option (String → Option TreeNode)
  | node _ _ children _ => children

def emptyFolder (name path : String) : TreeNode := node name path (some fun _ => none) none

/-- `cur.children!.set(seg, child)`. -/
def set : TreeNode → String → TreeNode → Option TreeNode
  | node _ _ none _, _, _ => none
  | node name path (some children) file, seg, child =>
    some (node name path (some (Function.update children seg (some child))) file)

end TreeNode

/-- `path.split("/").filter((p) => p.length > 0)`. -/
def parts (path : String) : List String := (segments path).filter (· ≠ "")

/-- Below `cur`, whose own segments are `above`; `none` is the `TypeError` of a missing map. -/
def addFolder (above : List String) : List String → TreeNode → Option TreeNode
  | [], cur => some cur
  | seg :: rest, cur => do
    let children ← cur.children
    let child := ((children seg).filter fun child => child.children.isSome).getD
      (.emptyFolder seg (joined (above ++ [seg])))
    cur.set seg (← addFolder (above ++ [seg]) rest child)

def addFile (f : TreeFile) (above : List String) : List String → TreeNode → Option TreeNode
  | [], cur => some cur
  | [leafName], cur => cur.set leafName (.node leafName f.relativePath none (some f))
  | seg :: next :: rest, cur => do
    let children ← cur.children
    let child := (children seg).getD (.emptyFolder seg (joined (above ++ [seg])))
    cur.set seg (← addFile f (above ++ [seg]) (next :: rest) child)

def buildFileTree (files : List TreeFile) (folders : List String) : Option TreeNode := do
  let root ← folders.foldlM (fun root path => addFolder [] (parts path) root) (.emptyFolder "" "")
  files.foldlM (fun root f => addFile f [] (parts f.relativePath) root) root

/-- What stands at a place of the tree. -/
inductive Kind where
  | folder
  | leaf (file : Option TreeFile)
deriving DecidableEq

def TreeNode.kind : TreeNode → Kind
  | node _ _ (some _) _ => .folder
  | node _ _ none file => .leaf file

/-- What is found by following the segments. -/
def TreeNode.find : List String → TreeNode → Option Kind
  | [], cur => some cur.kind
  | seg :: rest, cur => do
    let child ← (← cur.children) seg
    child.find rest

/-- Every file is found by its own segments and nowhere else, every virtual folder by its own. -/
def ShowsAll (files : List TreeFile) (folders : List String) : Prop :=
  ∃ root, buildFileTree files folders = some root ∧
    (∀ f ∈ files, ∀ path, root.find path = some (.leaf (some f)) ↔ path = parts f.relativePath) ∧
    ∀ folder ∈ folders, root.find (parts folder) = some .folder

variable {cur cur' : TreeNode} {f : TreeFile} {above path : List String}

theorem find_emptyFolder {name at_ : String} :
    (TreeNode.emptyFolder name at_).find path = if path = [] then some .folder else none := by
  cases path <;> rfl

theorem exists_set (h : ∀ file, cur.find [] ≠ some (.leaf file)) :
    ∃ children, cur.children = some children ∧ ∀ seg child, ∃ cur',
      cur.set seg child = some cur' ∧ ∀ path, cur'.find path =
        if path = [] then some .folder
        else if path.head? = some seg then child.find path.tail else cur.find path := by
  obtain ⟨name, at_, _ | children, file⟩ := cur
  · exact absurd rfl (h file)
  · refine ⟨children, rfl, fun seg child => ⟨_, rfl, fun path => ?_⟩⟩
    cases path with
    | nil => rfl
    | cons s rest =>
      by_cases hs : s = seg
      · subst hs
        simp [TreeNode.find, TreeNode.children]
      · simp [TreeNode.find, TreeNode.children, hs]

variable {children : String → Option TreeNode}

theorem find_child (h : cur.children = some children) (seg : String) (path : List String) :
    cur.find (seg :: path) = (children seg).bind (TreeNode.find path) := by
  simp [TreeNode.find, h]

theorem find_getD (h : cur.children = some children) (seg at_ : String) (path : List String) :
    ((children seg).getD (.emptyFolder seg at_)).find path =
      if path = [] ∧ children seg = none then some .folder else cur.find (seg :: path) := by
  rw [find_child h]
  cases children seg with
  | none => simp [find_emptyFolder]
  | some child => simp

theorem exists_addFile (f : TreeFile) {ps : List String} (hne : ps ≠ []) (above : List String)
    (hfree : ∀ path, path <+: ps → path ≠ ps → ∀ file, cur.find path ≠ some (.leaf file)) :
    ∃ cur', addFile f above ps cur = some cur' ∧ ∀ path, cur'.find path =
      if path = ps then some (.leaf (some f)) else if path <+: ps then some .folder
      else if ps <+: path then none else cur.find path := by
  induction ps generalizing cur above with
  | nil => exact absurd rfl hne
  | cons seg rest ih =>
    obtain ⟨children, hchildren, hset⟩ :=
      exists_set (hfree [] (List.nil_prefix) (List.cons_ne_nil _ _).symm)
    cases rest with
    | nil =>
      obtain ⟨cur', hcur', hfind⟩ := hset seg (.node seg f.relativePath none (some f))
      refine ⟨cur', hcur', fun path => (hfind path).trans ?_⟩
      cases path with
      | nil => simp
      | cons s tail =>
        by_cases hs : s = seg
        · subst hs
          cases tail <;> simp [TreeNode.find, TreeNode.children, TreeNode.kind]
        · simp [hs, Ne.symm hs]
    | cons next rest =>
      have hchild := find_getD hchildren seg (joined (above ++ [seg]))
      obtain ⟨child', hadd, hfindChild⟩ := ih (List.cons_ne_nil _ _) (above ++ [seg])
        fun path hpath hproper file => by
          rw [hchild]
          split
          · simp
          · exact hfree (seg :: path) (List.cons_prefix_cons.mpr ⟨rfl, hpath⟩)
              (by simpa using hproper) file
      obtain ⟨cur', hcur', hfind⟩ := hset seg child'
      refine ⟨cur', ?_, fun path => (hfind path).trans ?_⟩
      · simp only [addFile, hchildren, Option.bind_eq_bind, Option.bind_some, hadd, hcur']
      · cases path with
        | nil => simp
        | cons s tail =>
          by_cases hs : s = seg
          · subst hs
            have hnil : ¬ tail <+: next :: rest → tail ≠ [] := by
              rintro hnot rfl
              exact hnot List.nil_prefix
            simp only [reduceCtorEq, if_false, List.head?_cons, if_true, List.tail_cons, hfindChild,
              hchild, List.cons.injEq, true_and, List.cons_prefix_cons]
            split_ifs <;> simp_all
          · simp [hs, Ne.symm hs]

theorem exists_addFolder (ps above : List String)
    (hfree : ∀ path file, cur.find path ≠ some (.leaf file)) :
    ∃ cur', addFolder above ps cur = some cur' ∧ ∀ path, cur'.find path =
      if path <+: ps then some .folder else cur.find path := by
  induction ps generalizing cur above with
  | nil =>
    obtain ⟨name, at_, _ | children, file⟩ := cur
    · exact absurd rfl (hfree [] file)
    · refine ⟨_, rfl, fun path => ?_⟩
      cases path <;> simp [TreeNode.find, TreeNode.kind]
  | cons seg rest ih =>
    obtain ⟨children, hchildren, hset⟩ := exists_set (hfree [])
    have hfilter : (children seg).filter (fun child => child.children.isSome) = children seg := by
      cases hseg : children seg with
      | none => rfl
      | some child =>
        obtain ⟨name, at_, _ | children', file⟩ := child
        · exact absurd (by rw [find_child hchildren, hseg]; rfl) (hfree [seg] file)
        · rfl
    have hchild := find_getD hchildren seg (joined (above ++ [seg]))
    obtain ⟨child', hadd, hfindChild⟩ := ih (above ++ [seg]) (fun path file => by
      rw [hchild]
      split
      · simp
      · exact hfree (seg :: path) file)
    obtain ⟨cur', hcur', hfind⟩ := hset seg child'
    refine ⟨cur', ?_, fun path => (hfind path).trans ?_⟩
    · simp only [addFolder, hchildren, Option.bind_eq_bind, Option.bind_some, hfilter, hadd, hcur']
    · cases path with
      | nil => simp
      | cons s tail =>
        by_cases hs : s = seg
        · subst hs
          have hnil : ¬ tail <+: rest → tail ≠ [] := by
            rintro hnot rfl
            exact hnot List.nil_prefix
          simp only [reduceCtorEq, if_false, List.head?_cons, if_true, List.tail_cons, hfindChild,
            hchild, List.cons_prefix_cons, true_and]
          split_ifs <;> simp_all
        · simp [hs]

theorem exists_folders (folders : List String)
    (hfree : ∀ path file, cur.find path ≠ some (.leaf file)) :
    ∃ root, folders.foldlM (fun root path => addFolder [] (parts path) root) cur = some root ∧
      ∀ path, root.find path =
        if ∃ folder ∈ folders, path <+: parts folder then some .folder else cur.find path := by
  induction folders generalizing cur with
  | nil => exact ⟨cur, rfl, by simp⟩
  | cons folder folders ih =>
    obtain ⟨cur', hadd, hfind⟩ := exists_addFolder (parts folder) [] hfree
    have hfree' : ∀ path file, cur'.find path ≠ some (.leaf file) := fun path file => by
      rw [hfind]
      split
      · simp
      · exact hfree path file
    obtain ⟨root, hrest, hroot⟩ := ih hfree'
    refine ⟨root, by simp [List.foldlM_cons, hadd, hrest], fun path => ?_⟩
    rw [hroot, hfind]
    by_cases hpath : path <+: parts folder <;> simp [hpath]

/-- The leaves are the files put in so far. -/
structure Holds (done : List TreeFile) (folders : List String) (root : TreeNode) : Prop where
  leaf : ∀ path file, root.find path = some (.leaf file) ↔
    ∃ g ∈ done, parts g.relativePath = path ∧ file = some g
  folder : ∀ folder ∈ folders, root.find (parts folder) = some .folder

/-- No file's path is another one's or a virtual folder's, or leads to one. -/
def Apart (files : List TreeFile) (folders : List String) : Prop :=
  ∀ f ∈ files, (∀ g ∈ files, parts f.relativePath <+: parts g.relativePath → g = f) ∧
    ∀ folder ∈ folders, ¬ parts f.relativePath <+: parts folder

variable {folders : List String}

theorem Holds.add {done : List TreeFile} {root : TreeNode} (h : Holds done folders root)
    (hne : parts f.relativePath ≠ [])
    (hbefore : ∀ g ∈ done, ¬ parts g.relativePath <+: parts f.relativePath)
    (hafter : ∀ g ∈ done, ¬ parts f.relativePath <+: parts g.relativePath)
    (hfolder : ∀ folder ∈ folders, ¬ parts f.relativePath <+: parts folder) :
    ∃ root', addFile f [] (parts f.relativePath) root = some root' ∧
      Holds (done ++ [f]) folders root' := by
  obtain ⟨root', hadd, hfind⟩ := @exists_addFile root f _ hne [] fun path hpath _ file hleaf => by
    obtain ⟨g, hg, rfl, -⟩ := (h.leaf path file).mp hleaf
    exact hbefore g hg hpath
  refine ⟨root', hadd, fun path file => ?_, fun folder hmem => ?_⟩
  · simp only [List.mem_append, List.mem_singleton, or_and_right, exists_or, exists_eq_left]
    rw [hfind]
    split_ifs with hself habove hbelow
    · subst hself
      have hnone : ¬ ∃ g ∈ done, parts g.relativePath = parts f.relativePath ∧ file = some g := by
        rintro ⟨g, hg, heq, -⟩
        exact hbefore g hg (heq ▸ List.prefix_rfl)
      rw [or_iff_right hnone]
      simp [eq_comm]
    · have hnone : ¬ ∃ g ∈ done, parts g.relativePath = path ∧ file = some g := by
        rintro ⟨g, hg, rfl, -⟩
        exact hbefore g hg habove
      rw [or_iff_right hnone]
      simp [Ne.symm hself]
    · have hnone : ¬ ∃ g ∈ done, parts g.relativePath = path ∧ file = some g := by
        rintro ⟨g, hg, rfl, -⟩
        exact hafter g hg hbelow
      rw [or_iff_right hnone]
      simp [Ne.symm hself]
    · rw [h.leaf]
      simp [Ne.symm hself]
  · have hnot := hfolder folder hmem
    have hother : parts folder ≠ parts f.relativePath := fun heq => hnot (heq ▸ List.prefix_rfl)
    rw [hfind, if_neg hother, if_neg hnot]
    split
    · rfl
    · exact h.folder folder hmem

theorem Holds.addAll {done todo : List TreeFile} {root : TreeNode} (h : Holds done folders root)
    (hne : ∀ f ∈ todo, parts f.relativePath ≠ []) (apart : Apart (done ++ todo) folders)
    (hnodup : (done ++ todo).Nodup) :
    ∃ root', todo.foldlM (fun root f => addFile f [] (parts f.relativePath) root) root =
      some root' ∧ Holds (done ++ todo) folders root' := by
  induction todo generalizing done root with
  | nil => exact ⟨root, rfl, by simpa using h⟩
  | cons f todo ih =>
    have hf : f ∈ done ++ f :: todo := by simp
    have hother : ∀ g ∈ done, g ≠ f ∧ g ∈ done ++ f :: todo := fun g hg =>
      ⟨(List.nodup_append.mp hnodup).2.2 g hg f List.mem_cons_self, by simp [hg]⟩
    obtain ⟨root', hadd, h'⟩ := h.add (hne f List.mem_cons_self)
      (fun g hg hpath => (hother g hg).1 ((apart g (hother g hg).2).1 f hf hpath).symm)
      (fun g hg hpath => (hother g hg).1 ((apart f hf).1 g (hother g hg).2 hpath))
      (apart f hf).2
    rw [List.append_cons] at apart hnodup
    obtain ⟨root'', hrest, h''⟩ := ih h' (fun g hg => hne g (List.mem_cons_of_mem f hg)) apart hnodup
    exact ⟨root'', by simp [List.foldlM_cons, hadd, hrest], by rwa [List.append_cons]⟩

theorem find_below_leaf {file : Option TreeFile} (hleaf : cur.find path = some (.leaf file))
    {rest : List String} (hne : rest ≠ []) : cur.find (path ++ rest) = none := by
  induction path generalizing cur with
  | nil =>
    obtain ⟨name, at_, _ | children, file'⟩ := cur
    · cases rest with
      | nil => exact absurd rfl hne
      | cons s rest => rfl
    · simp [TreeNode.find, TreeNode.kind] at hleaf
  | cons s path ih =>
    obtain ⟨children, hchildren, hleaf⟩ := Option.bind_eq_some_iff.mp hleaf
    obtain ⟨child, hchild, hleaf⟩ := Option.bind_eq_some_iff.mp hleaf
    simp [find_child hchildren, hchild, ih hleaf]

/-- Every file and every virtual folder is shown exactly when no file stands where another file or a
virtual folder needs a folder. -/
theorem showsAll_iff {files : List TreeFile} (hne : ∀ f ∈ files, parts f.relativePath ≠ [])
    (hnodup : (files.map fun f => parts f.relativePath).Nodup) :
    ShowsAll files folders ↔ Apart files folders := by
  constructor
  · rintro ⟨root, -, hfiles, hfolders⟩ f hf
    have hleaf := (hfiles f hf _).mpr rfl
    have hbelow : ∀ {path kind}, root.find path = some kind → parts f.relativePath <+: path →
        path = parts f.relativePath := by
      rintro _ kind hpath ⟨rest, rfl⟩
      by_contra hproper
      rw [find_below_leaf hleaf (by rintro rfl; simp at hproper)] at hpath
      cases hpath
    refine ⟨fun g hg hpath => ?_, fun folder hmem hpath => ?_⟩
    · exact List.inj_on_of_nodup_map hnodup hg hf (hbelow ((hfiles g hg _).mpr rfl) hpath)
    · have hfolder := hfolders folder hmem
      rw [hbelow hfolder hpath, hleaf] at hfolder
      cases hfolder
  · intro apart
    obtain ⟨root, hroot, hfind⟩ := @exists_folders (.emptyFolder "" "") folders (by
      simp [find_emptyFolder])
    have hstart : Holds [] folders root := by
      refine ⟨fun path file => ?_, fun folder hmem => ?_⟩
      · rw [hfind, find_emptyFolder]
        split_ifs <;> simp
      · rw [hfind, if_pos ⟨folder, hmem, List.prefix_rfl⟩]
    obtain ⟨root', hadd, h⟩ := hstart.addAll hne apart hnodup.of_map
    refine ⟨root', by simp [buildFileTree, hroot, hadd], fun f hf path => ?_, h.folder⟩
    rw [h.leaf]
    constructor
    · rintro ⟨g, -, rfl, hgf⟩
      cases hgf
      rfl
    · rintro rfl
      exact ⟨f, hf, rfl, rfl⟩

theorem showsAll_iff_two : ShowsAll [{ relativePath := "wip/a.md", filename := "a.md" }] ["wip/b"] ↔
    Apart [{ relativePath := "wip/a.md", filename := "a.md" }] ["wip/b"] :=
  showsAll_iff (by decide) (by decide)

/-- The untracked file `a` and a file registered below a former folder of that name. -/
theorem buildFileTree_throws : ¬ ∀ (files : List TreeFile) (folders : List String),
    (∀ f ∈ files, parts f.relativePath ≠ []) →
      (files.map fun f => parts f.relativePath).Nodup → ShowsAll files folders := by
  intro h
  obtain ⟨root, hroot, -⟩ := h [{ relativePath := "a", filename := "a" },
    { relativePath := "a/b", filename := "b", fileId := some "1" }] [] (by decide) (by decide)
  have hnone : buildFileTree [{ relativePath := "a", filename := "a" },
    { relativePath := "a/b", filename := "b", fileId := some "1" }] [] = none := by rfl
  rw [hnone] at hroot
  cases hroot

end Portuni.FilesTab
