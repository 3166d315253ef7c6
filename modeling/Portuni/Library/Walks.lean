import Mathlib.Data.List.Sort
import Mathlib.Order.UpperLower.CompleteLattice

/-!
Walks along the edges of a graph up to the first vertex that stops them. A choice of one edge at
every vertex takes one of the walks; where the choice is arbitrary, what it finds is determined
exactly when all the walks end in time at vertices that answer alike.
-/

namespace Portuni.Library.Walks

variable {α β : Type*} {edge : α → α → Prop} {stops : α → Bool} {next : α → Option α}
variable {x y z n : α} {k steps : ℕ}

/-- `z` is reached from `x` by `k` edges, none of them from a vertex that stops. -/
inductive Reaches (edge : α → α → Prop) (stops : α → Bool) : α → α → ℕ → Prop
  | here (x : α) : Reaches edge stops x x 0
  | up {x y z : α} {k : ℕ} : stops x = false → edge x y → Reaches edge stops y z k →
      Reaches edge stops x z (k + 1)

def Nearest (edge : α → α → Prop) (stops : α → Bool) (x z : α) : Prop :=
  stops z = true ∧ ∃ k, Reaches edge stops x z k

/-- The first vertex that stops the walk of a choice, within `steps` edges. -/
def first (stops : α → Bool) (next : α → Option α) : ℕ → α → Option α
  | 0, x => if stops x then some x else none
  | steps + 1, x => if stops x then some x else (next x).bind (first stops next steps)

structure Chooses (edge : α → α → Prop) (next : α → Option α) : Prop where
  edge_of_next : ∀ x y, next x = some y → edge x y
  exists_next : ∀ x y, edge x y → ∃ z, next x = some z

def Minimal {κ : Type*} [LE κ] (edge : α → α → Prop) (rank : α → κ) (next : α → Option α) : Prop :=
  ∀ x y, edge x y → ∃ z, next x = some z ∧ rank z ≤ rank y

/-- No walk goes on for more than `steps` edges, or ends at a vertex that does not stop it. -/
def Bounded (edge : α → α → Prop) (stops : α → Bool) (steps : ℕ) (x : α) : Prop :=
  ∀ n k, Reaches edge stops x n k → stops n = true ∨ (k < steps ∧ ∃ y, edge n y)

/-- Nothing stops any walk, or every walk is stopped in time and all of them by like vertices. -/
def Settled (edge : α → α → Prop) (stops : α → Bool) (answer : α → β) (steps : ℕ) (x : α) : Prop :=
  (∀ z, ¬Nearest edge stops x z) ∨
    (Bounded edge stops steps x ∧
      ∀ z z', Nearest edge stops x z → Nearest edge stops x z' → answer z = answer z')

/-- The answer is that of a nearest vertex that stops, or there is none. -/
def Decided (edge : α → α → Prop) (stops : α → Bool) (answer : α → β) (x : α) : Option β → Prop
  | none => ∀ z, ¬Nearest edge stops x z
  | some b => ∃ z, Nearest edge stops x z ∧ answer z = b

theorem Nearest.up (hx : stops x = false) (hxy : edge x y) (h : Nearest edge stops y z) :
    Nearest edge stops x z := by
  obtain ⟨hz, k, hk⟩ := h
  exact ⟨hz, k + 1, .up hx hxy hk⟩

theorem Reaches.shorter (h : Reaches edge stops x z (k + 1)) :
    ∃ n, Reaches edge stops x n k ∧ stops n = false := by
  induction k generalizing x with
  | zero =>
    obtain _ | ⟨hx, -, -⟩ := h
    exact ⟨x, .here x, hx⟩
  | succ k ih =>
    obtain _ | ⟨hx, hxy, hrest⟩ := h
    obtain ⟨n, hn, hstops⟩ := ih hrest
    exact ⟨n, .up hx hxy hn, hstops⟩

theorem Bounded.le_steps (h : Bounded edge stops steps x) (hk : Reaches edge stops x z k) :
    k ≤ steps := by
  cases k with
  | zero => exact Nat.zero_le _
  | succ k =>
    obtain ⟨n, hn, hstops⟩ := hk.shorter
    obtain htrue | ⟨hlt, -⟩ := h n k hn
    · simp [hstops] at htrue
    · exact hlt

theorem Bounded.up (hx : stops x = false) (hxy : edge x y)
    (h : Bounded edge stops (steps + 1) x) : Bounded edge stops steps y := by
  intro n k hn
  obtain htrue | ⟨hlt, hedge⟩ := h n (k + 1) (.up hx hxy hn)
  · exact .inl htrue
  · exact .inr ⟨by omega, hedge⟩

theorem first_of_stops (hx : stops x = true) : first stops next steps x = some x := by
  cases steps <;> simp [first, hx]

theorem first_zero_of_not_stops (hx : stops x = false) : first stops next 0 x = none := by
  simp [first, hx]

theorem first_succ (hx : stops x = false) (hnext : next x = some y) :
    first stops next (steps + 1) x = first stops next steps y := by
  simp [first, hx, hnext]

theorem stops_of_first (h : first stops next steps x = some z) : stops z = true := by
  induction steps generalizing x with
  | zero =>
    cases hx : stops x with
    | true =>
      rw [first_of_stops hx, Option.some.injEq] at h
      exact h ▸ hx
    | false => simp [first_zero_of_not_stops hx] at h
  | succ steps ih =>
    cases hx : stops x with
    | true =>
      rw [first_of_stops hx, Option.some.injEq] at h
      exact h ▸ hx
    | false =>
      simp only [first, hx, Bool.false_eq_true, if_false, Option.bind_eq_some_iff] at h
      obtain ⟨y, -, hy⟩ := h
      exact ih hy

theorem nearest_of_first (hchooses : Chooses edge next) (h : first stops next steps x = some z) :
    Nearest edge stops x z := by
  induction steps generalizing x with
  | zero =>
    cases hx : stops x with
    | true =>
      rw [first_of_stops hx, Option.some.injEq] at h
      exact h ▸ ⟨hx, 0, .here x⟩
    | false => simp [first_zero_of_not_stops hx] at h
  | succ steps ih =>
    cases hx : stops x with
    | true =>
      rw [first_of_stops hx, Option.some.injEq] at h
      exact h ▸ ⟨hx, 0, .here x⟩
    | false =>
      cases hnext : next x with
      | none => simp [first, hx, hnext] at h
      | some y =>
        rw [first_succ hx hnext] at h
        exact (ih h).up hx (hchooses.edge_of_next x y hnext)

theorem exists_first (hchooses : Chooses edge next) (h : Bounded edge stops steps x) :
    ∃ z, first stops next steps x = some z := by
  induction steps generalizing x with
  | zero =>
    obtain hx | ⟨hlt, -⟩ := h x 0 (.here x)
    · exact ⟨x, first_of_stops hx⟩
    · omega
  | succ steps ih =>
    cases hx : stops x with
    | true => exact ⟨x, first_of_stops hx⟩
    | false =>
      obtain htrue | ⟨-, y, hxy⟩ := h x 0 (.here x)
      · simp [hx] at htrue
      obtain ⟨z, hz⟩ := hchooses.exists_next x y hxy
      rw [first_succ hx hz]
      exact ih (h.up hx (hchooses.edge_of_next x z hz))

def far (edge : α → α → Prop) (stops : α → Bool) (z x : α) : LowerSet ℕ where
  carrier := {k | ∀ j ≤ k, ¬Reaches edge stops x z j}
  lower' := fun _ _ hle h j hj => h j (hj.trans hle)

theorem exists_of_far_le (hle : far edge stops z y ≤ far edge stops z x)
    (h : Reaches edge stops x z k) : ∃ j ≤ k, Reaches edge stops y z j := by
  have hfar : k ∉ far edge stops z y := fun hmem => hle hmem k le_rfl h
  change ¬∀ j ≤ k, ¬Reaches edge stops y z j at hfar
  push Not at hfar
  exact hfar

theorem Reaches.of_le {j : ℕ} (h : Reaches edge stops x z k) (hz : stops z = false) (hle : j ≤ k) :
    ∃ n, Reaches edge stops x n j ∧ stops n = false := by
  induction k, hle using Nat.le_induction generalizing z with
  | base => exact ⟨z, h, hz⟩
  | succ k _ ih =>
    obtain ⟨n, hn, hstops⟩ := h.shorter
    exact ih hn hstops

def long (edge : α → α → Prop) (stops : α → Bool) (x : α) : LowerSet ℕ where
  carrier := {k | ∃ n, Reaches edge stops x n k ∧ stops n = false}
  lower' := by
    rintro k j hle ⟨n, hn, hstops⟩
    exact hn.of_le hstops hle

theorem first_of_minimal_far (hnext : Minimal edge (far edge stops z) next) (hz : stops z = true)
    (h : Reaches edge stops x z k) (hle : k ≤ steps) : first stops next steps x = some z := by
  induction k using Nat.strong_induction_on generalizing x steps with
  | _ k ih =>
    obtain _ | ⟨hx, hxy, hrest⟩ := h
    · exact first_of_stops hz
    · obtain ⟨y', hy', hfar⟩ := hnext _ _ hxy
      obtain ⟨j, hj, hreaches⟩ := exists_of_far_le hfar hrest
      obtain ⟨steps, rfl⟩ : ∃ rest, steps = rest + 1 := ⟨steps - 1, by omega⟩
      rw [first_succ hx hy']
      exact ih j (by omega) hreaches (by omega)

theorem first_of_dead_end (hchooses : Chooses edge next)
    (hnext : Minimal edge (far edge stops z) next) (hz : stops z = false)
    (hend : ∀ y, ¬edge z y) (h : Reaches edge stops x z k) : first stops next steps x = none := by
  induction k using Nat.strong_induction_on generalizing x steps with
  | _ k ih =>
    have hx : stops x = false := by
      obtain _ | ⟨hx, -, -⟩ := h
      exacts [hz, hx]
    cases steps with
    | zero => exact first_zero_of_not_stops hx
    | succ steps =>
      obtain _ | ⟨-, hxy, hrest⟩ := h
      · cases hnone : next z with
        | none => simp [first, hx, hnone]
        | some y => exact absurd (hchooses.edge_of_next z y hnone) (hend y)
      · obtain ⟨y', hy', hfar⟩ := hnext _ _ hxy
        obtain ⟨j, hj, hreaches⟩ := exists_of_far_le hfar hrest
        rw [first_succ hx hy']
        exact ih j (by omega) hreaches

theorem first_of_minimal_long (hnext : Minimal edge (OrderDual.toDual ∘ long edge stops) next)
    (h : steps ∈ long edge stops x) : first stops next steps x = none := by
  induction steps generalizing x with
  | zero =>
    obtain ⟨n, hn, hstops⟩ := h
    cases hn
    exact first_zero_of_not_stops hstops
  | succ steps ih =>
    obtain ⟨n, hn, hstops⟩ := h
    obtain _ | ⟨hx, hxy, hrest⟩ := hn
    obtain ⟨y', hy', hlong⟩ := hnext _ _ hxy
    rw [first_succ hx hy']
    exact ih (OrderDual.toDual_le_toDual.mp hlong ⟨n, hrest, hstops⟩)

section

variable {possible : (α → Option α) → Prop} {answer : α → β} {a : Option β}

theorem bounded_of_found (hchooses : ∀ next, possible next → Chooses edge next)
    (hall : ∀ {κ : Type} [LinearOrder κ] (rank : α → κ), ∃ next, possible next ∧
      Minimal edge rank next)
    (hfound : ∀ next, possible next → ∃ z, first stops next steps x = some z) :
    Bounded edge stops steps x := by
  intro n k hn
  by_contra hcon
  push Not at hcon
  obtain ⟨hstops, hlong⟩ := hcon
  have hstops := Bool.eq_false_iff.mpr hstops
  by_cases hlt : k < steps
  · obtain ⟨next, hpossible, hmin⟩ := hall (far edge stops n)
    obtain ⟨z, hz⟩ := hfound next hpossible
    simp [first_of_dead_end (hchooses next hpossible) hmin hstops (hlong hlt) hn] at hz
  · obtain ⟨next, hpossible, hmin⟩ := hall (OrderDual.toDual ∘ long edge stops)
    obtain ⟨z, hz⟩ := hfound next hpossible
    obtain ⟨m, hm⟩ := hn.of_le hstops (by omega : steps ≤ k)
    simp [first_of_minimal_long hmin ⟨m, hm⟩] at hz

theorem answer_of_nearest
    (hall : ∀ {κ : Type} [LinearOrder κ] (rank : α → κ), ∃ next, possible next ∧
      Minimal edge rank next) (hbounded : Bounded edge stops steps x)
    (hanswer : ∀ next, possible next → (first stops next steps x).map answer = a)
    (hz : Nearest edge stops x z) : a = some (answer z) := by
  obtain ⟨hstops, k, hk⟩ := hz
  obtain ⟨next, hpossible, hmin⟩ := hall (far edge stops z)
  rw [← hanswer next hpossible, first_of_minimal_far hmin hstops hk (hbounded.le_steps hk)]
  rfl

/-- Where every choice of edges is possible, all of them find the answer of the nearest vertex
that stops exactly when the walks from the vertex are settled. -/
theorem settled_iff (hchooses : ∀ next, possible next → Chooses edge next)
    (hall : ∀ {κ : Type} [LinearOrder κ] (rank : α → κ), ∃ next, possible next ∧
      Minimal edge rank next) : (∃ a : Option β, Decided edge stops answer x a ∧
      ∀ next, possible next → (first stops next steps x).map answer = a) ↔
      Settled edge stops answer steps x := by
  constructor
  · rintro ⟨a, hdecided, hanswer⟩
    by_cases hnone : ∀ z, ¬Nearest edge stops x z
    · exact .inl hnone
    right
    have hfound : ∀ next, possible next → ∃ z, first stops next steps x = some z := by
      intro next hpossible
      cases a with
      | none => exact absurd hdecided hnone
      | some b =>
        obtain ⟨z, hz, -⟩ := Option.map_eq_some_iff.mp (hanswer next hpossible)
        exact ⟨z, hz⟩
    have hbounded := bounded_of_found hchooses hall hfound
    refine ⟨hbounded, fun z z' hz hz' => ?_⟩
    have := answer_of_nearest hall hbounded hanswer hz
    rw [answer_of_nearest hall hbounded hanswer hz', Option.some.injEq] at this
    exact this.symm
  · rintro (hnone | ⟨hbounded, halike⟩)
    · refine ⟨none, hnone, fun next hpossible => ?_⟩
      rw [Option.map_eq_none_iff, Option.eq_none_iff_forall_ne_some]
      exact fun z hz => hnone z (nearest_of_first (hchooses next hpossible) hz)
    · obtain ⟨next, hpossible, -⟩ := hall fun _ => (0 : ℕ)
      obtain ⟨z, hz⟩ := exists_first (hchooses next hpossible) hbounded
      have hnearest := nearest_of_first (hchooses next hpossible) hz
      refine ⟨some (answer z), ⟨z, hnearest, rfl⟩, fun next' hpossible' => ?_⟩
      obtain ⟨z', hz'⟩ := exists_first (hchooses next' hpossible') hbounded
      rw [hz', Option.map_some, halike z' z (nearest_of_first (hchooses next' hpossible') hz')
        hnearest]

end

theorem settled_of_unique {answer : α → β} (hunique : ∀ x y y', edge x y → edge x y' → y = y')
    (hz : stops z = true) (h : Reaches edge stops x z k) (hle : k ≤ steps) :
    Settled edge stops answer steps x := by
  have hwalk : Bounded edge stops steps x ∧ ∀ z', Nearest edge stops x z' → z' = z := by
    induction h generalizing steps with
    | here x =>
      refine ⟨fun n k hn => ?_, fun z' hz' => ?_⟩
      · obtain _ | ⟨hx, -, -⟩ := hn
        · exact .inl hz
        · simp [hz] at hx
      · obtain ⟨-, k, hk⟩ := hz'
        obtain _ | ⟨hx, -, -⟩ := hk
        · rfl
        · simp [hz] at hx
    | @up x y z k hx hxy hrest ih =>
      obtain ⟨steps, rfl⟩ : ∃ rest, steps = rest + 1 := ⟨steps - 1, by omega⟩
      have hrestle : k ≤ steps := by omega
      obtain ⟨hbounded, hnearest⟩ := ih hz hrestle
      refine ⟨fun n k hn => ?_, fun z' hz' => ?_⟩
      · obtain _ | ⟨-, hxy', hrest'⟩ := hn
        · exact .inr ⟨Nat.succ_pos steps, y, hxy⟩
        · obtain hstops | ⟨hlt, hedge⟩ := hbounded n _ (hunique x _ _ hxy hxy' ▸ hrest')
          · exact .inl hstops
          · exact .inr ⟨Nat.succ_lt_succ hlt, hedge⟩
      · obtain ⟨hstops, k, hk⟩ := hz'
        obtain _ | ⟨-, hxy', hrest'⟩ := hk
        · simp [hx] at hstops
        · exact hnearest z' ⟨hstops, _, hunique x _ _ hxy hxy' ▸ hrest'⟩
  refine .inr ⟨hwalk.1, fun z₁ z₂ h₁ h₂ => ?_⟩
  rw [hwalk.2 z₁ h₁, hwalk.2 z₂ h₂]

theorem exists_perm_find?_minimal {ι κ : Type*} [DecidableEq α] [LinearOrder κ] (key : ι → α)
    (rank : ι → κ) (l : List ι) :
    ∃ l' : List ι, l'.Perm l ∧
      ∀ i ∈ l, ∃ j, l'.find? (fun j => key j = key i) = some j ∧ rank j ≤ rank i := by
  refine ⟨l.insertionSort fun i j => rank i ≤ rank j, List.perm_insertionSort _ l, fun i hi => ?_⟩
  have total : Std.Total fun i j => rank i ≤ rank j := ⟨fun i j => le_total (rank i) (rank j)⟩
  have trans : IsTrans ι fun i j => rank i ≤ rank j := ⟨fun _ _ _ => le_trans⟩
  have hsorted := List.pairwise_insertionSort (fun i j => rank i ≤ rank j) l
  have hi' : i ∈ l.insertionSort fun i j => rank i ≤ rank j :=
    (List.mem_insertionSort _).mpr hi
  obtain ⟨j, hj⟩ : ∃ j, (l.insertionSort fun i j => rank i ≤ rank j).find?
      (fun j => key j = key i) = some j := by
    rw [← Option.isSome_iff_exists, List.find?_isSome]
    exact ⟨i, hi', by simp⟩
  refine ⟨j, hj, ?_⟩
  obtain ⟨-, before, after, heq, hbefore⟩ := List.find?_eq_some_iff_append.mp hj
  rw [heq] at hi' hsorted
  obtain hmem | hmem := List.mem_append.mp hi'
  · simpa using hbefore i hmem
  · obtain rfl | hmem := List.mem_cons.mp hmem
    · exact le_rfl
    · exact (List.pairwise_cons.mp (List.pairwise_append.mp hsorted).2.1).1 i hmem

end Portuni.Library.Walks
