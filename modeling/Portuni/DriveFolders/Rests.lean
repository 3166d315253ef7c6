import Portuni.DriveFolders.Cache

/-!
Which cached folder another cached folder's path rests on. An entry is consistent when it is what
the nearest entry above it, or the root, gives; a folder whose reported change is still to be
worked in leaves open what rests on it. Dropping entries keeps every entry consistent.
-/

namespace Portuni.DriveFolders

open Function

section

variable {base : String} {name : Name} {names names' : List Name}

theorem length_joinPath (base : String) (name : Name) :
    base.length < (joinPath base name).length := by
  unfold joinPath
  split
  next h =>
    subst h
    exact Nat.pos_of_ne_zero fun h => name.2 (by simpa using h)
  next =>
    simp only [String.length_append]
    have hslash : ("/" : String).length = 1 := rfl
    omega

def joinAll (base : String) (names : List Name) : String :=
  names.foldl (fun path (name : Name) => joinPath path name) base

theorem joinAll_append (base : String) (names names' : List Name) :
    joinAll base (names ++ names') = joinAll (joinAll base names) names' := by
  unfold joinAll
  rw [List.foldl_append]

theorem joinAll_concat (base : String) (names : List Name) (name : Name) :
    joinAll base (names ++ [name]) = joinPath (joinAll base names) name :=
  joinAll_append base names [name]

theorem length_joinAll (base : String) (names : List Name) :
    base.length ≤ (joinAll base names).length := by
  induction names using List.reverseRecOn with
  | nil => exact Nat.le_refl _
  | append_singleton names name ih =>
    rw [joinAll_concat]
    exact Nat.le_trans ih (Nat.le_of_lt (length_joinPath _ _))

theorem AtOrBelow.joinPath {path p : String} (h : AtOrBelow path p) (hp : p ≠ "") (name : Name) :
    AtOrBelow path (DriveFolders.joinPath p name) := by
  refine .inr ?_
  unfold DriveFolders.joinPath
  rw [if_neg hp]
  rcases h with rfl | h
  · unfold RemotePaths.startsWith
    simp [List.isPrefixOf_iff_prefix]
  · unfold RemotePaths.startsWith at h ⊢
    rw [List.isPrefixOf_iff_prefix] at h ⊢
    simp only [String.toList_append, List.append_assoc] at h ⊢
    exact h.trans (List.prefix_append _ _)

theorem AtOrBelow.joinAll {path : String} (h : AtOrBelow path base) (hbase : base ≠ "")
    (names : List Name) : AtOrBelow path (joinAll base names) := by
  induction names using List.reverseRecOn with
  | nil => exact h
  | append_singleton names name ih =>
    rw [joinAll_concat]
    refine ih.joinPath ?_ name
    intro hempty
    have hlength := length_joinAll base names
    rw [hempty] at hlength
    exact hbase (by simpa using hlength)

end

def up (tree : Tree) (id : FileId) : Option (Name × FileId) :=
  (tree id).bind fun info => info.parent.map fun parent => (info.name, parent)

inductive Reaches (driveRoot : FileId) (tree : Tree) : FileId → String → Prop
  | root : Reaches driveRoot tree driveRoot ""
  | step {id parent : FileId} {name : Name} {path : String} :
      id ≠ driveRoot → up tree id = some (name, parent) → Reaches driveRoot tree parent path →
        Reaches driveRoot tree id (joinPath path name)

/-- What the cache's entries are measured by: Drive's folders, and those of them whose reported
change is still to be worked in. -/
structure View where
  tree : Tree
  dirty : FileId → Prop
  entry : Entries

section

variable (driveRoot : FileId) (v : View)

/-- Up the chain, through folders that have no entry and await no change. -/
inductive Climb : FileId → List Name → FileId → Prop
  | refl (id : FileId) : Climb id [] id
  | step {id parent top : FileId} {name : Name} {names : List Name} :
      id ≠ driveRoot → v.entry id = none → ¬v.dirty id → up v.tree id = some (name, parent) →
        Climb parent names top → Climb id (names ++ [name]) top

def Stands (id : FileId) (path : String) : Prop :=
  id = driveRoot ∧ path = "" ∨ id ≠ driveRoot ∧ v.entry id = some (some path)

/-- What the entries above say of the folder is open until its change is worked in. -/
def Open (id : FileId) : Prop := id ≠ driveRoot ∧ v.entry id = none ∧ v.dirty id

def Justified (id : FileId) (path : String) : Prop :=
  ∃ names top, Climb driveRoot v id names top ∧
    ((∃ base, Stands driveRoot v top base ∧ path = joinAll base names) ∨ Open driveRoot v top)

def Blocked (id : FileId) : Prop :=
  ∀ names top, Climb driveRoot v id names top → ∀ base, ¬Stands driveRoot v top base

structure Consistent : Prop where
  path : ∀ id p, id ≠ driveRoot → ¬v.dirty id → v.entry id = some (some p) →
    ∃ name parent base, up v.tree id = some (name, parent) ∧ p = joinPath base name ∧
      Justified driveRoot v parent base
  note : ∀ id, id ≠ driveRoot → ¬v.dirty id → v.entry id = some none →
    ∀ name parent, up v.tree id = some (name, parent) → Blocked driveRoot v parent

end

section

variable {driveRoot id top top' : FileId} {v : View} {names names' : List Name} {e' : Entries}

variable (h : Climb driveRoot v id names top)

include h

theorem Climb.trans (h' : Climb driveRoot v top names' top') :
    Climb driveRoot v id (names' ++ names) top' := by
  induction h with
  | refl id => rwa [List.append_nil]
  | step hroot hnone hclean hup _ ih =>
    rw [← List.append_assoc]
    exact .step hroot hnone hclean hup (ih h')

theorem Climb.stays (hstop : id = driveRoot ∨ v.entry id ≠ none ∨ v.dirty id) :
    names = [] ∧ top = id := by
  cases h with
  | refl => exact ⟨rfl, rfl⟩
  | step hroot hnone hclean _ _ =>
    rcases hstop with h | h | h
    · exact absurd h hroot
    · exact absurd hnone h
    · exact absurd h hclean

theorem Climb.total (h' : Climb driveRoot v id names' top') :
    (∃ more, Climb driveRoot v top more top' ∧ names' = more ++ names) ∨
      ∃ more, Climb driveRoot v top' more top ∧ names = more ++ names' := by
  induction h generalizing names' with
  | refl id => exact .inl ⟨names', h', (List.append_nil _).symm⟩
  | step hroot hnone hclean hup hrest ih =>
    cases h' with
    | refl => exact .inr ⟨_, .step hroot hnone hclean hup hrest, (List.append_nil _).symm⟩
    | step _ _ _ hup' hrest' =>
      rw [hup] at hup'
      cases hup'
      rcases ih hrest' with ⟨more, hmore, rfl⟩ | ⟨more, hmore, rfl⟩
      · exact .inl ⟨more, hmore, List.append_assoc _ _ _⟩
      · exact .inr ⟨more, hmore, List.append_assoc _ _ _⟩

theorem Climb.same_end (h' : Climb driveRoot v id names' top')
    (hstop : top = driveRoot ∨ v.entry top ≠ none ∨ v.dirty top)
    (hstop' : top' = driveRoot ∨ v.entry top' ≠ none ∨ v.dirty top') :
    top = top' ∧ names = names' := by
  rcases h.total h' with ⟨more, hmore, rfl⟩ | ⟨more, hmore, rfl⟩
  · obtain ⟨rfl, rfl⟩ := hmore.stays hstop
    exact ⟨rfl, rfl⟩
  · obtain ⟨rfl, rfl⟩ := hmore.stays hstop'
    exact ⟨rfl, rfl⟩

omit h

theorem Stands.stop {base : String} (h : Stands driveRoot v top base) :
    top = driveRoot ∨ v.entry top ≠ none ∨ v.dirty top := by
  rcases h with ⟨h, -⟩ | ⟨-, h⟩
  · exact .inl h
  · exact .inr (.inl (by simp [h]))

theorem Open.stop (h : Open driveRoot v top) :
    top = driveRoot ∨ v.entry top ≠ none ∨ v.dirty top := .inr (.inr h.2.2)

theorem Stands.unique {base base' : String} (h : Stands driveRoot v top base)
    (h' : Stands driveRoot v top base') : base = base' := by
  rcases h with ⟨hroot, rfl⟩ | ⟨hroot, hentry⟩
  · rcases h' with ⟨-, rfl⟩ | ⟨hroot', -⟩
    · rfl
    · exact absurd hroot hroot'
  · rcases h' with ⟨hroot', -⟩ | ⟨-, hentry'⟩
    · exact absurd hroot' hroot
    · rw [hentry] at hentry'
      exact Option.some.inj (Option.some.inj hentry')

theorem Climb.fewer (h : Climb driveRoot v id names top) (hfewer : Fewer e' v.entry) :
    Climb driveRoot { v with entry := e' } id names top := by
  induction h with
  | refl id => exact .refl id
  | step hroot hnone hclean hup _ ih => exact .step hroot (hfewer.of_none hnone) hclean hup ih

end

variable {driveRoot id : FileId} {v : View} {e' : Entries} {path : String}

theorem Blocked.fewer (h : Blocked driveRoot v id) (hv : Consistent driveRoot v)
    (hfewer : Fewer e' v.entry) : Blocked driveRoot { v with entry := e' } id := by
  intro names top hclimb base hstands
  induction hclimb with
  | refl id =>
    refine h [] id (.refl id) base ?_
    exact hstands.imp_right fun ⟨hroot, hentry⟩ => ⟨hroot, hfewer.of_some hentry⟩
  | @step id parent top name names hroot hnone hclean hup hrest ih =>
    refine ih ?_ hstands
    cases hentry : v.entry id with
    | none =>
      intro names' top' hclimb'
      exact h _ top' (.step hroot hentry hclean hup hclimb')
    | some cached =>
      cases cached with
      | none => exact hv.note id hroot hclean hentry name parent hup
      | some p => exact absurd (.inr ⟨hroot, hentry⟩) (h [] id (.refl id) p)

theorem Justified.fewer (h : Justified driveRoot v id path) (hv : Consistent driveRoot v)
    (hfewer : Fewer e' v.entry) : Justified driveRoot { v with entry := e' } id path := by
  induction hn : path.length using Nat.strong_induction_on generalizing id path with
  | _ n ih =>
    obtain ⟨names, top, hclimb, ⟨base, hstands, rfl⟩ | ⟨hroot, hnone, hdirty⟩⟩ := h
    · have hclimb' := hclimb.fewer hfewer
      rcases hstands with ⟨rfl, rfl⟩ | ⟨hroot, hentry⟩
      · exact ⟨names, top, hclimb', .inl ⟨"", .inl ⟨rfl, rfl⟩, rfl⟩⟩
      · rcases hfewer top with hsame | hgone
        · exact ⟨names, top, hclimb', .inl ⟨base, .inr ⟨hroot, hsame.trans hentry⟩, rfl⟩⟩
        · by_cases hdirty : v.dirty top
          · exact ⟨names, top, hclimb', .inr ⟨hroot, hgone, hdirty⟩⟩
          · obtain ⟨name, parent, above, hup, rfl, habove⟩ := hv.path top base hroot hdirty hentry
            have hlonger := length_joinAll (joinPath above name) names
            have hshorter : above.length < n := by
              have := length_joinPath above name
              omega
            obtain ⟨names', top', hclimb'', hend⟩ := ih above.length hshorter habove rfl
            have hgoes : Climb driveRoot { v with entry := e' } top (names' ++ [name]) top' :=
              .step hroot hgone hdirty hup hclimb''
            refine ⟨_, top', hclimb'.trans hgoes, hend.imp_left ?_⟩
            rintro ⟨base', hstands', rfl⟩
            exact ⟨base', hstands', by rw [joinAll_append, joinAll_concat]⟩
    · exact ⟨names, top, hclimb.fewer hfewer, .inr ⟨hroot, hfewer.of_none hnone, hdirty⟩⟩

theorem Consistent.fewer (h : Consistent driveRoot v) (hfewer : Fewer e' v.entry) :
    Consistent driveRoot { v with entry := e' } := by
  constructor
  · intro id p hroot hclean hentry
    obtain ⟨name, parent, base, hup, hp, hbase⟩ := h.path id p hroot hclean (hfewer.of_some hentry)
    exact ⟨name, parent, base, hup, hp, hbase.fewer h hfewer⟩
  · intro id hroot hclean hentry name parent hup
    exact (h.note id hroot hclean (hfewer.of_some hentry) name parent hup).fewer h hfewer

end Portuni.DriveFolders
