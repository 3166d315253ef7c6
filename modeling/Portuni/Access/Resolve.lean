import Portuni.Access.Model
import Portuni.Library.Walks

/-!
The batched chain query, regrouped by depth, resolves a node to the first restricted node on the
walk along the edges that the scan finds first.
-/

namespace Portuni.Access

open Library.Walks

variable {db : Db} {id : String} {steps depth k n : ℕ} {row : ChainRow}

section

variable {α β : Type} {size fuel : ℕ} {xs : List α}

theorem flatten_batches (hsize : 0 < size) (hfuel : xs.length ≤ fuel) :
    (batches size fuel xs).flatten = xs := by
  induction fuel generalizing xs with
  | zero =>
    have : xs = [] := List.length_eq_zero_iff.mp (by omega)
    simp [batches, this]
  | succ fuel ih =>
    cases xs with
    | nil => simp [batches]
    | cons x rest =>
      have hrest : ((x :: rest).drop size).length ≤ fuel := by
        simp only [List.length_drop, List.length_cons] at hfuel ⊢
        omega
      simp [batches, ih hrest]

variable [DecidableEq α] {a : α} {rowsOf : α → List β}

theorem nodup_eraseDups (l : List α) : l.eraseDups.Nodup := by
  induction h : l.length using Nat.strong_induction_on generalizing l with
  | _ n ih =>
    cases l with
    | nil => simp
    | cons a rest =>
      have hlength : (rest.filter fun b => !b == a).length < n := by
        have := List.length_filter_le (fun b => !b == a) rest
        simp only [List.length_cons] at h
        omega
      rw [List.eraseDups_cons, List.nodup_cons]
      exact ⟨by simp [List.mem_eraseDups], ih _ hlength _ rfl⟩

theorem length_eraseDups_le (l : List α) : l.eraseDups.length ≤ l.length := by
  have hsubset : l.eraseDups ⊆ l := fun _ h => List.mem_eraseDups.mp h
  exact (List.subperm_of_subset (nodup_eraseDups l) hsubset).length_le

theorem filterMap_rows (hxs : xs.Nodup) :
    ((xs.flatMap fun root => (rowsOf root).map fun row => (root, row)).filterMap fun p =>
      if p.1 = a then some p.2 else none) = if a ∈ xs then rowsOf a else [] := by
  induction xs with
  | nil => simp
  | cons x rest ih =>
    obtain ⟨hx, hrest⟩ := List.nodup_cons.mp hxs
    rw [List.flatMap_cons, List.filterMap_append, ih hrest, List.filterMap_map]
    by_cases hxa : x = a
    · subst hxa
      simp [hx]
    · simp [hxa, Ne.symm hxa]

end

theorem filterMap_chainQuery {batch : List String} (hbatch : batch.Nodup) :
    ((db.chainQuery batch).filterMap fun p => if p.1 = id then some p.2 else none) =
      if id ∈ batch then db.chainRows maxChain 0 id else [] := by
  have hsorted : (batch.insertionSort (· ≤ ·)).Nodup :=
    (List.perm_insertionSort (· ≤ ·) batch).nodup_iff.mpr hbatch
  rw [Db.chainQuery, filterMap_rows hsorted]
  simp only [List.mem_insertionSort]

theorem filterMap_chainQueries {bs : List (List String)} (hbs : bs.flatten.Nodup) :
    ((bs.flatMap db.chainQuery).filterMap fun p => if p.1 = id then some p.2 else none) =
      if id ∈ bs.flatten then db.chainRows maxChain 0 id else [] := by
  induction bs with
  | nil => simp
  | cons batch rest ih =>
    obtain ⟨hbatch, hrest, hdisjoint⟩ := List.nodup_append.mp hbs
    rw [List.flatMap_cons, List.filterMap_append, filterMap_chainQuery hbatch, ih hrest]
    by_cases hid : id ∈ batch
    · have hnot : id ∉ rest.flatten := fun hmem => hdisjoint id hid id hmem rfl
      simp only [hid, if_true, hnot, if_false, List.append_nil, List.flatten_cons,
        List.mem_append, true_or]
    · simp only [hid, if_false, List.nil_append, List.flatten_cons, List.mem_append, false_or]

theorem loadChains_eq {nodeIds : List String} (hid : id ∈ nodeIds) :
    loadChains db nodeIds id = db.chainRows maxChain 0 id := by
  have hflatten : (batches chainBatch nodeIds.length nodeIds.eraseDups).flatten =
      nodeIds.eraseDups :=
    flatten_batches (by decide) (length_eraseDups_le nodeIds)
  have hnodup := nodup_eraseDups nodeIds
  rw [← hflatten] at hnodup
  rw [loadChains, filterMap_chainQueries hnodup, hflatten, if_pos (List.mem_eraseDups.mpr hid)]

theorem findSome?_congr {α β : Type} {f g : α → Option β} {l : List α}
    (h : ∀ a ∈ l, f a = g a) : l.findSome? f = l.findSome? g := by
  induction l with
  | nil => rfl
  | cons a rest ih =>
    rw [List.findSome?_cons, List.findSome?_cons, h a List.mem_cons_self,
      ih fun b hb => h b (List.mem_cons_of_mem a hb)]

def Db.level? (db : Db) (id : String) : Option ResolvedChain := authoritative (db.levelRows 0 id)

def Db.restricts (db : Db) (id : String) : Bool := (db.level? id).isSome

theorem depth_of_mem_levelRows (h : row ∈ db.levelRows depth id) : row.depth = depth := by
  unfold Db.levelRows at h
  split at h
  · simp at h
  split at h
  · rw [List.mem_singleton.mp h]
  · obtain ⟨e, -, rfl⟩ := List.mem_map.mp h
    rfl

theorem authoritative_levelRows : authoritative (db.levelRows depth id) = db.level? id := by
  unfold Db.level? Db.levelRows
  split
  · rfl
  split
  · simp [authoritative]
  · rename_i n _ hentries
    cases h : db.entriesOf id with
    | nil => exact absurd h hentries
    | cons e rest => simp [authoritative, List.filterMap_map]

theorem depth_le_of_mem_chainRows (h : row ∈ db.chainRows steps depth id) : depth ≤ row.depth := by
  induction steps generalizing depth id with
  | zero => exact (depth_of_mem_levelRows h).ge
  | succ steps ih =>
    obtain h | h := List.mem_append.mp h
    · exact (depth_of_mem_levelRows h).ge
    split at h
    · simp at h
    · have := ih h
      omega

def Db.chainTail (db : Db) : ℕ → ℕ → String → List ChainRow
  | 0, _, _ => []
  | steps + 1, depth, id =>
    match db.parent? id with
    | none => []
    | some parent => db.chainRows steps (depth + 1) parent

theorem chainRows_eq : db.chainRows steps depth id =
    db.levelRows depth id ++ db.chainTail steps depth id := by
  cases steps with
  | zero => simp [Db.chainRows, Db.chainTail]
  | succ steps => rfl

theorem lt_depth_of_mem_chainTail (h : row ∈ db.chainTail steps depth id) : depth < row.depth := by
  cases steps with
  | zero => simp [Db.chainTail] at h
  | succ steps =>
    rw [Db.chainTail] at h
    split at h
    · simp at h
    · exact depth_le_of_mem_chainRows h

theorem filter_chainRows_head :
    (db.chainRows steps depth id).filter (·.depth = depth) = db.levelRows depth id := by
  have hlevel : (db.levelRows depth id).filter (·.depth = depth) = db.levelRows depth id :=
    List.filter_eq_self.mpr fun row hrow => decide_eq_true (depth_of_mem_levelRows hrow)
  have htail : (db.chainTail steps depth id).filter (·.depth = depth) = [] :=
    List.filter_eq_nil_iff.mpr fun row hrow => by
      simpa using (lt_depth_of_mem_chainTail hrow).ne'
  rw [chainRows_eq, List.filter_append, hlevel, htail, List.append_nil]

theorem filter_chainRows_tail (hk : depth < k) :
    (db.chainRows steps depth id).filter (·.depth = k) =
      (db.chainTail steps depth id).filter (·.depth = k) := by
  have hlevel : (db.levelRows depth id).filter (·.depth = k) = [] :=
    List.filter_eq_nil_iff.mpr fun row hrow => by
      simpa [depth_of_mem_levelRows hrow] using hk.ne
  rw [chainRows_eq, List.filter_append, hlevel, List.nil_append]

theorem findSome?_chainRows (hn : steps < n) : ((List.range' depth n).findSome? fun k =>
      authoritative ((db.chainRows steps depth id).filter (·.depth = k))) =
      (first db.restricts db.parent? steps id).bind db.level? := by
  induction steps generalizing depth id n with
  | zero =>
    obtain ⟨n, rfl⟩ : ∃ rest, n = rest + 1 := ⟨n - 1, by omega⟩
    have htail : ((List.range' (depth + 1) n).findSome? fun k =>
        authoritative ((db.chainRows 0 depth id).filter (·.depth = k))) = none := by
      rw [List.findSome?_eq_none_iff]
      intro k hk
      rw [filter_chainRows_tail (by have := (List.mem_range'_1.mp hk).1; omega)]
      simp [Db.chainTail, authoritative]
    rw [List.range'_succ, List.findSome?_cons, filter_chainRows_head, authoritative_levelRows]
    cases hlevel : db.level? id <;> simp [first, Db.restricts, hlevel, htail]
  | succ steps ih =>
    obtain ⟨n, rfl⟩ : ∃ rest, n = rest + 1 := ⟨n - 1, by omega⟩
    have htail : ((List.range' (depth + 1) n).findSome? fun k =>
        authoritative ((db.chainRows (steps + 1) depth id).filter (·.depth = k))) =
        (db.parent? id).bind fun parent =>
          (first db.restricts db.parent? steps parent).bind db.level? := by
      have hcongr : ∀ k ∈ List.range' (depth + 1) n,
          authoritative ((db.chainRows (steps + 1) depth id).filter (·.depth = k)) =
            authoritative ((db.chainTail (steps + 1) depth id).filter (·.depth = k)) := by
        intro k hk
        rw [filter_chainRows_tail (by have := (List.mem_range'_1.mp hk).1; omega)]
      rw [findSome?_congr hcongr]
      cases hparent : db.parent? id with
      | none => simp [Db.chainTail, hparent, authoritative]
      | some parent => simpa [Db.chainTail, hparent] using ih (by omega)
    rw [List.range'_succ, List.findSome?_cons, filter_chainRows_head, authoritative_levelRows]
    cases hlevel : db.level? id with
    | some chain => simp [first, Db.restricts, hlevel]
    | none =>
      rw [htail]
      cases hparent : db.parent? id <;> simp [first, Db.restricts, hlevel, hparent]

section

variable {rows : List ChainRow} {m : ℕ}

theorem le_foldl_max {l : List ℕ} : n ≤ l.foldl max n ∧ ∀ k ∈ l, k ≤ l.foldl max n := by
  induction l generalizing n with
  | nil => simp
  | cons a rest ih =>
    obtain ⟨hinit, hrest⟩ := ih (n := max n a)
    rw [List.foldl_cons]
    refine ⟨by omega, fun k hk => ?_⟩
    obtain rfl | hk := List.mem_cons.mp hk
    · omega
    · exact hrest k hk

theorem findSome?_filter_of_none {α β : Type} {f : α → Option β} {p : α → Bool} {l : List α}
    (h : ∀ a, p a = false → f a = none) : (l.filter p).findSome? f = l.findSome? f := by
  induction l with
  | nil => rfl
  | cons a rest ih =>
    cases hp : p a with
    | true => rw [List.filter_cons_of_pos hp, List.findSome?_cons, List.findSome?_cons, ih]
    | false =>
      rw [List.filter_cons_of_neg (by simp [hp]), List.findSome?_cons, h a hp, ih]

theorem authoritative_filter_of_lt {depth : ℕ} (h : (rows.map ChainRow.depth).foldl max 0 < depth) :
    authoritative (rows.filter (·.depth = depth)) = none := by
  have hempty : rows.filter (·.depth = depth) = [] := by
    rw [List.filter_eq_nil_iff]
    intro row hrow
    have := (le_foldl_max (n := 0)).2 row.depth (List.mem_map_of_mem hrow)
    rw [decide_eq_true_iff]
    omega
  rw [hempty]
  rfl

theorem findSome?_depths (hm : (rows.map ChainRow.depth).foldl max 0 < m) :
    ((depths rows).findSome? fun depth => authoritative (rows.filter (·.depth = depth))) =
      (List.range m).findSome? fun depth => authoritative (rows.filter (·.depth = depth)) := by
  have hnone : ∀ depth, (rows.any (·.depth = depth)) = false →
      authoritative (rows.filter (·.depth = depth)) = none := by
    intro depth hdepth
    have hempty : rows.filter (·.depth = depth) = [] :=
      List.filter_eq_nil_iff.mpr (List.any_eq_false.mp hdepth)
    rw [hempty]
    rfl
  rw [depths, findSome?_filter_of_none hnone]
  obtain ⟨rest, rfl⟩ := Nat.exists_eq_add_of_lt hm
  have hsplit : List.range ((rows.map ChainRow.depth).foldl max 0 + rest + 1) =
      List.range ((rows.map ChainRow.depth).foldl max 0 + 1) ++
        (List.range rest).map ((rows.map ChainRow.depth).foldl max 0 + 1 + ·) := by
    rw [Nat.add_right_comm, List.range_add]
  have hrest : ((List.range rest).map ((rows.map ChainRow.depth).foldl max 0 + 1 + ·)).findSome?
      (fun depth => authoritative (rows.filter (·.depth = depth))) = none := by
    rw [List.findSome?_eq_none_iff]
    intro depth hdepth
    obtain ⟨k, -, rfl⟩ := List.mem_map.mp hdepth
    exact authoritative_filter_of_lt (by omega)
  rw [hsplit, List.findSome?_append, hrest, Option.or_none]

end

theorem resolveChainRows_chainRows (hid : db.node? id = none → db.parent? id = none) :
    resolveChainRows (db.chainRows steps 0 id) =
      ((first db.restricts db.parent? steps id).bind db.level?).getD {} := by
  have hfirst : ∀ m, steps < m → ((List.range m).findSome? fun k =>
      authoritative ((db.chainRows steps 0 id).filter (·.depth = k))) =
        (first db.restricts db.parent? steps id).bind db.level? := by
    intro m hm
    rw [List.range_eq_range', findSome?_chainRows hm]
  unfold resolveChainRows
  split
  · rename_i hrows
    rw [← hfirst (steps + 1) (Nat.lt_succ_self steps), hrows]
    have : ((List.range (steps + 1)).findSome? fun k =>
        authoritative (([] : List ChainRow).filter (·.depth = k))) = none := by
      simp [authoritative]
    rw [this]
    rfl
  rename_i row rest hrows
  have hdepth : row.depth = 0 := by
    cases hlevel : db.levelRows 0 id with
    | cons first others =>
      rw [chainRows_eq, hlevel, List.cons_append, List.cons.injEq] at hrows
      exact hrows.1 ▸ depth_of_mem_levelRows (hlevel ▸ List.mem_cons_self)
    | nil =>
      have hnode : db.node? id = none := by
        unfold Db.levelRows at hlevel
        split at hlevel
        · assumption
        split at hlevel
        · simp at hlevel
        · rename_i hentries
          exact absurd (List.map_eq_nil_iff.mp hlevel) hentries
      rw [chainRows_eq, hlevel, List.nil_append] at hrows
      cases steps with
      | zero => simp [Db.chainTail] at hrows
      | succ steps => simp [Db.chainTail, hid hnode] at hrows
  simp only [hdepth, ne_eq, not_true_eq_false, if_false]
  have hmax := Nat.le_max_left ((db.chainRows steps 0 id).map ChainRow.depth |>.foldl max 0) steps
  rw [findSome?_depths (Nat.lt_succ_of_le hmax),
    hfirst _ (Nat.lt_succ_of_le (Nat.le_max_right _ steps))]

end Portuni.Access
