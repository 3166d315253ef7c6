import Mathlib.Logic.Relation
import Portuni.DriveFolders.Rests

/-!
What keeps the entries consistent besides dropping some of them: a change at Drive, a new entry,
and a folder whose change has been worked in.
-/

namespace Portuni.DriveFolders

open Function

variable {driveRoot id : FileId} {v : View}

theorem Consistent.edit {tree' : Tree} {dirty' : FileId → Prop} (hv : Consistent driveRoot v)
    (htree : ∀ id, ¬dirty' id → tree' id = v.tree id) (hdirty : ∀ id, v.dirty id → dirty' id) :
    Consistent driveRoot ⟨tree', dirty', v.entry⟩ := by
  have hup : ∀ id, ¬dirty' id → up tree' id = up v.tree id := by
    intro id hclean
    rw [up, htree id hclean, up]
  have hback : ∀ {id names top}, Climb driveRoot ⟨tree', dirty', v.entry⟩ id names top →
      Climb driveRoot v id names top := by
    intro id names top hclimb
    induction hclimb with
    | refl id => exact .refl id
    | step hroot hnone hclean hparent _ ih =>
      exact .step hroot hnone (fun h => hclean (hdirty _ h)) (hup _ hclean ▸ hparent) ih
  have hforth : ∀ {id names top}, Climb driveRoot v id names top →
      Climb driveRoot ⟨tree', dirty', v.entry⟩ id names top ∨
        ∃ names' top', Climb driveRoot ⟨tree', dirty', v.entry⟩ id names' top' ∧
          Open driveRoot ⟨tree', dirty', v.entry⟩ top' := by
    intro id names top hclimb
    induction hclimb with
    | refl id => exact .inl (.refl id)
    | @step id parent top name names hroot hnone hclean hparent _ ih =>
      by_cases hopen : dirty' id
      · exact .inr ⟨[], id, .refl id, hroot, hnone, hopen⟩
      · have hparent' : up tree' id = some (name, parent) := (hup id hopen).trans hparent
        rcases ih with hsame | ⟨names', top', hclimb', hend⟩
        · exact .inl (.step hroot hnone hopen hparent' hsame)
        · exact .inr ⟨_, top', .step hroot hnone hopen hparent' hclimb', hend⟩
  constructor
  · intro id p hroot hclean hentry
    obtain ⟨name, parent, base, hparent, hp, names, top, hclimb, hend⟩ :=
      hv.path id p hroot (fun h => hclean (hdirty id h)) hentry
    refine ⟨name, parent, base, (hup id hclean).trans hparent, hp, ?_⟩
    rcases hforth hclimb with hsame | ⟨names', top', hclimb', hopen⟩
    · refine ⟨names, top, hsame, hend.imp_right ?_⟩
      rintro ⟨hroot', hnone', hdirty'⟩
      exact ⟨hroot', hnone', hdirty top hdirty'⟩
    · exact ⟨names', top', hclimb', .inr hopen⟩
  · intro id hroot hclean hentry name parent hparent names top hclimb base hstands
    exact hv.note id hroot (fun h => hclean (hdirty id h)) hentry name parent
      (hup id hclean ▸ hparent) names top (hback hclimb) base hstands

section

variable {x : FileId} {value : Option String} {dirty' : FileId → Prop}

/-- The view with an entry for `x`, about whose being dirty nothing is said. -/
def assigned (v : View) (dirty' : FileId → Prop) (x : FileId) (value : Option String) : View :=
  ⟨v.tree, dirty', update v.entry x (some value)⟩

def Agrees (driveRoot : FileId) (v : View) (x : FileId) (value : Option String) : Prop :=
  ∀ below name parent names, below ≠ driveRoot → below ≠ x → ¬v.dirty below →
    up v.tree below = some (name, parent) → Climb driveRoot v parent names x →
      (∀ base, v.entry below = some (some (joinPath base name)) → Justified driveRoot v parent base →
        ∃ p, value = some p ∧ base = joinAll p names) ∧
      (v.entry below = some none → value = none)

structure Fits (driveRoot : FileId) (v : View) (x : FileId) (value : Option String) : Prop where
  path : ∀ p, value = some p → ∃ name parent base, up v.tree x = some (name, parent) ∧
    p = joinPath base name ∧ Justified driveRoot v parent base ∧
      ∀ names, ¬Climb driveRoot v parent names x
  note : value = none → ∀ name parent, up v.tree x = some (name, parent) → Blocked driveRoot v parent

variable {top : FileId}

theorem climb_of_assigned (hdirty : ∀ id, id ≠ x → (dirty' id ↔ v.dirty id)) {names : List Name}
    (h : Climb driveRoot (assigned v dirty' x value) id names top) :
    Climb driveRoot v id names top := by
  induction h with
  | refl id => exact .refl id
  | @step id parent top name names hroot hnone hclean hparent _ ih =>
    have hne : id ≠ x := by
      rintro rfl
      simp [assigned] at hnone
    refine .step hroot ?_ (fun h => hclean ((hdirty id hne).mpr h)) hparent ih
    simpa [assigned, update_of_ne hne] using hnone

theorem climb_assigned (hdirty : ∀ id, id ≠ x → (dirty' id ↔ v.dirty id)) {names : List Name}
    (h : Climb driveRoot v id names top) :
    Climb driveRoot (assigned v dirty' x value) id names top ∨
      ∃ names', Climb driveRoot (assigned v dirty' x value) id names' x ∧
        Climb driveRoot v id names' x := by
  induction h with
  | refl id => exact .inl (.refl id)
  | @step id parent top name names hroot hnone hclean hparent _ ih =>
    by_cases hx : id = x
    · subst hx
      exact .inr ⟨[], .refl id, .refl id⟩
    · have hnone' : (assigned v dirty' x value).entry id = none := by
        simpa [assigned, update_of_ne hx] using hnone
      have hclean' : ¬(assigned v dirty' x value).dirty id :=
        fun h => hclean ((hdirty id hx).mp h)
      rcases ih with hsame | ⟨names', hclimb', hclimb⟩
      · exact .inl (.step hroot hnone' hclean' hparent hsame)
      · exact .inr ⟨_, .step hroot hnone' hclean' hparent hclimb',
          .step hroot hnone hclean hparent hclimb⟩

theorem stands_of_assigned {base : String} (hroot : x ≠ driveRoot)
    (h : Stands driveRoot (assigned v dirty' x value) top base) :
    top = x ∧ value = some base ∨ top ≠ x ∧ Stands driveRoot v top base := by
  by_cases hx : top = x
  · subst hx
    rcases h with ⟨htop, -⟩ | ⟨-, hentry⟩
    · exact absurd htop hroot
    · exact .inl ⟨rfl, by simpa [assigned] using hentry⟩
  · refine .inr ⟨hx, h.imp_right ?_⟩
    rintro ⟨htop, hentry⟩
    exact ⟨htop, by simpa [assigned, update_of_ne hx] using hentry⟩

theorem Justified.assigned {path : String} (hroot : x ≠ driveRoot)
    (hdirty : ∀ id, id ≠ x → (dirty' id ↔ v.dirty id)) (h : Justified driveRoot v id path)
    (hrest : ∀ names, Climb driveRoot v id names x → ∃ p, value = some p ∧ path = joinAll p names) :
    Justified driveRoot (assigned v dirty' x value) id path := by
  obtain ⟨names, top, hclimb, hend⟩ := h
  have hon : ∀ names', Climb driveRoot (DriveFolders.assigned v dirty' x value) id names' x →
      Climb driveRoot v id names' x →
        Justified driveRoot (DriveFolders.assigned v dirty' x value) id path := by
    intro names' hclimb' hclimb
    obtain ⟨p, rfl, hp⟩ := hrest names' hclimb
    exact ⟨names', x, hclimb', .inl ⟨p, .inr ⟨hroot, by simp [DriveFolders.assigned]⟩, hp⟩⟩
  have hassigned : Climb driveRoot (DriveFolders.assigned v dirty' x value) id names top ∨
      ∃ names', Climb driveRoot (DriveFolders.assigned v dirty' x value) id names' x ∧
        Climb driveRoot v id names' x := climb_assigned hdirty hclimb
  rcases hassigned with hsame | ⟨names', hclimb', hclimb⟩
  · by_cases hx : top = x
    · subst hx
      exact hon names hsame hclimb
    · have hentry : (DriveFolders.assigned v dirty' x value).entry top = v.entry top := by
        simp [DriveFolders.assigned, update_of_ne hx]
      refine ⟨names, top, hsame, hend.imp ?_ ?_⟩
      · rintro ⟨base, hstands, hpath⟩
        refine ⟨base, hstands.imp_right ?_, hpath⟩
        rintro ⟨htop, hbase⟩
        exact ⟨htop, hentry.trans hbase⟩
      · rintro ⟨htop, hnone, hopen⟩
        exact ⟨htop, hentry.trans hnone, (hdirty top hx).mpr hopen⟩
  · exact hon names' hclimb' hclimb

theorem Consistent.assign (hv : Consistent driveRoot v) (hroot : x ≠ driveRoot)
    (hdirty : ∀ id, id ≠ x → (dirty' id ↔ v.dirty id)) (hrest : Agrees driveRoot v x value)
    (hself : ¬dirty' x → Fits driveRoot v x value) :
    Consistent driveRoot (assigned v dirty' x value) := by
  have hentry : ∀ id, id ≠ x → (assigned v dirty' x value).entry id = v.entry id := by
    intro id hx
    simp [assigned, update_of_ne hx]
  constructor
  · intro id p hid hclean hp
    by_cases hx : id = x
    · subst hx
      have hvalue : value = some p := by simpa [assigned] using hp
      obtain ⟨name, parent, base, hparent, hp, hbase, hnot⟩ := (hself hclean).path p hvalue
      exact ⟨name, parent, base, hparent, hp,
        hbase.assigned hroot hdirty fun names hclimb => absurd hclimb (hnot names)⟩
    · have hclean' : ¬v.dirty id := fun h => hclean ((hdirty id hx).mpr h)
      rw [hentry id hx] at hp
      obtain ⟨name, parent, base, hparent, rfl, hbase⟩ := hv.path id p hid hclean' hp
      exact ⟨name, parent, base, hparent, rfl, hbase.assigned hroot hdirty fun names hclimb =>
        (hrest id name parent names hid hx hclean' hparent hclimb).1 base hp hbase⟩
  · intro id hid hclean hnote name parent hparent names top hclimb base hstands
    have hclimb' := climb_of_assigned hdirty hclimb
    by_cases hx : id = x
    · subst hx
      have hvalue : value = none := by simpa [assigned] using hnote
      rcases stands_of_assigned hroot hstands with ⟨-, hsome⟩ | ⟨-, hstands'⟩
      · rw [hvalue] at hsome
        cases hsome
      · exact (hself hclean).note hvalue name parent hparent names top hclimb' base hstands'
    · have hclean' : ¬v.dirty id := fun h => hclean ((hdirty id hx).mpr h)
      rw [hentry id hx] at hnote
      rcases stands_of_assigned hroot hstands with ⟨rfl, hsome⟩ | ⟨-, hstands'⟩
      · rw [(hrest id name parent names hid hx hclean' hparent hclimb').2 hnote] at hsome
        cases hsome
      · exact hv.note id hid hclean' hnote name parent hparent names top hclimb' base hstands'

end

section

variable {x : FileId} {dirty' : FileId → Prop}

theorem Consistent.forget (hv : Consistent driveRoot v) (hroot : x ≠ driveRoot)
    (hnone : v.entry x = none) (hdirty : ∀ id, id ≠ x → (dirty' id ↔ v.dirty id))
    (hrest : ∀ below name parent names, below ≠ driveRoot → below ≠ x → ¬v.dirty below →
      up v.tree below = some (name, parent) → Climb driveRoot v parent names x →
        (∀ p, v.entry below ≠ some (some p)) ∧ (v.entry below = some none →
          ∀ name' above, up v.tree x = some (name', above) → Blocked driveRoot v above)) :
    Consistent driveRoot ⟨v.tree, dirty', v.entry⟩ := by
  by_cases hstill : dirty' x
  · refine hv.edit (fun _ _ => rfl) fun id hid => ?_
    by_cases hx : id = x
    · rw [hx]
      exact hstill
    · exact (hdirty id hx).mpr hid
  · have hforth : ∀ {id names top}, Climb driveRoot v id names top →
        Climb driveRoot ⟨v.tree, dirty', v.entry⟩ id names top := by
      intro id names top hclimb
      induction hclimb with
      | refl id => exact .refl id
      | @step id parent top name names hid hentry hclean hparent _ ih =>
        refine .step hid hentry ?_ hparent ih
        by_cases hx : id = x
        · rw [hx]
          exact hstill
        · exact fun h => hclean ((hdirty id hx).mp h)
    have hback : ∀ {id names top}, Climb driveRoot ⟨v.tree, dirty', v.entry⟩ id names top →
        Climb driveRoot v id names top ∨ ∃ names', Climb driveRoot v id names' x := by
      intro id names top hclimb
      induction hclimb with
      | refl id => exact .inl (.refl id)
      | @step id parent top name names hid hentry hclean hparent _ ih =>
        by_cases hx : id = x
        · subst hx
          exact .inr ⟨[], .refl id⟩
        · have hclean' : ¬v.dirty id := fun h => hclean ((hdirty id hx).mpr h)
          rcases ih with hsame | ⟨names', hon⟩
          · exact .inl (.step hid hentry hclean' hparent hsame)
          · exact .inr ⟨_, .step hid hentry hclean' hparent hon⟩
    have hblocked : (∀ name' above, up v.tree x = some (name', above) → Blocked driveRoot v above) →
        ∀ {id names top}, Climb driveRoot ⟨v.tree, dirty', v.entry⟩ id names top →
          Blocked driveRoot v id → ∀ base, ¬Stands driveRoot v top base := by
      intro habove id names top hclimb
      induction hclimb with
      | refl id => exact fun hid => hid [] id (.refl id)
      | @step id parent top name names hid hentry hclean hparent _ ih =>
        intro hblocked
        apply ih
        by_cases hx : id = x
        · subst hx
          exact habove name parent hparent
        · have hclean' : ¬v.dirty id := fun h => hclean ((hdirty id hx).mpr h)
          intro names' top' hclimb'
          exact hblocked _ top' (.step hid hentry hclean' hparent hclimb')
    have hclean' : ∀ {id}, id ≠ x → ¬dirty' id → ¬v.dirty id :=
      fun hx hclean h => hclean ((hdirty _ hx).mpr h)
    constructor
    · intro id p hid hclean hp
      have hx : id ≠ x := by
        rintro rfl
        rw [show v.entry id = some (some p) from hp] at hnone
        cases hnone
      obtain ⟨name, parent, base, hparent, rfl, names, top, hclimb, hend⟩ :=
        hv.path id p hid (hclean' hx hclean) hp
      refine ⟨name, parent, base, hparent, rfl, names, top, hforth hclimb, hend.imp_right ?_⟩
      rintro ⟨htop, hentry, hopen⟩
      have htopx : top ≠ x := by
        rintro rfl
        exact (hrest id name parent names hid hx (hclean' hx hclean) hparent hclimb).1 _ hp
      exact ⟨htop, hentry, (hdirty top htopx).mpr hopen⟩
    · intro id hid hclean hnote name parent hparent names top hclimb base hstands
      have hx : id ≠ x := by
        rintro rfl
        rw [show v.entry id = some none from hnote] at hnone
        cases hnone
      have hown := hv.note id hid (hclean' hx hclean) hnote name parent hparent
      rcases hback hclimb with hsame | ⟨names', hon⟩
      · exact hown names top hsame base hstands
      · have habove := (hrest id name parent names' hid hx (hclean' hx hclean) hparent hon).2 hnote
        exact hblocked habove hclimb hown base hstands

end

variable {e' : Entries} {x : FileId} {old path : String} {names : List Name}

theorem not_open_of_climb {names' : List Name} {top : FileId}
    (hopen : Climb driveRoot v id names top) (htop : Open driveRoot v top)
    (hclimb : Climb driveRoot { v with entry := e' } id names' x) (hx : v.entry x ≠ none) : False := by
  induction hopen generalizing names' with
  | refl id =>
    obtain ⟨-, rfl⟩ := hclimb.stays (.inr (.inr htop.2.2))
    exact hx htop.2.1
  | step hroot hnone _ hparent _ ih =>
    cases hclimb with
    | refl => exact hx hnone
    | step _ _ _ hparent' hrest =>
      rw [show up v.tree _ = _ from hparent] at hparent'
      cases hparent'
      exact ih htop hrest

theorem path_of_climb (hv : Consistent driveRoot v) (hroot : x ≠ driveRoot)
    (hold : v.entry x = some (some old))
    (hclimb : Climb driveRoot { v with entry := e' } id names x)
    (hpath : Justified driveRoot v id path) : path = joinAll old names := by
  induction hclimb generalizing path with
  | refl x =>
    obtain ⟨names', top, hclimb', hend⟩ := hpath
    obtain ⟨rfl, rfl⟩ := hclimb'.stays (.inr (.inl (by simp [hold])))
    rcases hend with ⟨base, hstands, rfl⟩ | ⟨-, hnone, -⟩
    · exact hstands.unique (.inr ⟨hroot, hold⟩)
    · rw [hold] at hnone
      cases hnone
  | @step id parent top name names hid hgone hclean hparent hrest ih =>
    cases hentry : v.entry id with
    | none =>
      obtain ⟨names', end', hclimb', hend⟩ := hpath
      cases hclimb' with
      | refl =>
        rcases hend with ⟨base, hstands, -⟩ | ⟨-, -, hopen⟩
        · rcases hstands with ⟨heq, -⟩ | ⟨-, hsome⟩
          · exact absurd heq hid
          · rw [hentry] at hsome
            cases hsome
        · exact absurd hopen hclean
      | step _ _ _ hparent' hrest' =>
        rw [show up v.tree id = some (name, parent) from hparent] at hparent'
        cases hparent'
        rcases hend with ⟨base, hstands, rfl⟩ | hopen
        · rw [joinAll_concat, joinAll_concat,
            ih hroot hold ⟨_, end', hrest', .inl ⟨base, hstands, rfl⟩⟩]
        · exact (not_open_of_climb hrest' hopen hrest (by simp [hold])).elim
    | some cached =>
      obtain ⟨names', end', hclimb', hend⟩ := hpath
      obtain ⟨rfl, rfl⟩ := hclimb'.stays (.inr (.inl (by simp [hentry])))
      rcases hend with ⟨base, hstands, hpath⟩ | ⟨-, hnone, -⟩
      · rcases hstands with ⟨heq, -⟩ | ⟨-, hsome⟩
        · exact absurd heq hid
        · obtain ⟨name', parent', above, hparent', rfl, habove⟩ :=
            hv.path _ base hid hclean hsome
          rw [show up v.tree _ = some (name, parent) from hparent] at hparent'
          cases hparent'
          rw [hpath, ih hroot hold habove, joinAll_concat]
          rfl
      · rw [hentry] at hnone
        cases hnone

theorem nothing_rests (hv : Consistent driveRoot v) (hroot : x ≠ driveRoot)
    (hold : v.entry x = some (some old)) (hne : old ≠ "") (hfewer : Fewer e' v.entry)
    (hgone : ∀ id p, e' id = some (some p) → ¬AtOrBelow old p) {below parent : FileId} {name : Name}
    (hbelow : below ≠ driveRoot) (hclean : ¬v.dirty below)
    (hparent : up v.tree below = some (name, parent))
    (hclimb : Climb driveRoot { v with entry := e' } parent names x) (p : String) :
    e' below ≠ some (some p) := by
  intro hp
  obtain ⟨name', parent', base, hparent', rfl, hbase⟩ :=
    hv.path below p hbelow hclean (hfewer.of_some hp)
  rw [hparent] at hparent'
  cases hparent'
  rw [path_of_climb hv hroot hold hclimb hbase] at hp
  have hat : AtOrBelow old (joinAll old names) := AtOrBelow.joinAll (.inl rfl) hne names
  have hlength := length_joinAll old names
  refine hgone below _ hp (hat.joinPath ?_ name)
  intro hempty
  rw [hempty] at hlength
  exact hne (by simpa using hlength)

end Portuni.DriveFolders
