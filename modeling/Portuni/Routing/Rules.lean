import Mathlib.Data.List.Sort

/-!
The rules that route a node to a remote: the query over the table, the loop over a list of
the rules that was read before, and that both answer by the same rule.
-/

namespace Portuni.Routing

universe u

variable {α : Type u}

/-- A row of `remote_routing`. -/
structure RoutingRow where
  id : ℕ
  priority : ℤ
  nodeType : Option String
  orgSlug : Option String
  remoteName : String

structure RoutingRule where
  priority : ℤ
  nodeType : Option String
  orgSlug : Option String
  remoteName : String

def RoutingRow.rule (row : RoutingRow) : RoutingRule :=
  ⟨row.priority, row.nodeType, row.orgSlug, row.remoteName⟩

/-- The table: `id` is its primary key, and `nextId` one that no row has had. -/
structure RoutingTable where
  rows : List RoutingRow
  nextId : ℕ
  keyed : (rows.map RoutingRow.id).Nodup
  fresh : ∀ row ∈ rows, row.id < nextId

namespace RoutingTable

def inserted (table : RoutingTable) (rule : RoutingRule) : RoutingRow :=
  ⟨table.nextId, rule.priority, rule.nodeType, rule.orgSlug, rule.remoteName⟩

def addRule (table : RoutingTable) (rule : RoutingRule) : RoutingTable where
  rows := table.rows ++ [table.inserted rule]
  nextId := table.nextId + 1
  keyed := by
    rw [List.map_append, List.map_singleton, List.nodup_append_comm, List.singleton_append,
      List.nodup_cons]
    refine ⟨fun hmem => ?_, table.keyed⟩
    obtain ⟨row, hrow, hid⟩ := List.mem_map.mp hmem
    exact absurd (table.fresh row hrow) (by simp [hid, inserted])
  fresh := by
    intro row hrow
    rcases List.mem_append.mp hrow with hrow | hrow
    · exact Nat.lt_succ_of_lt (table.fresh row hrow)
    · rw [List.mem_singleton.mp hrow]
      exact Nat.lt_succ_self _

def cleared (table : RoutingTable) : RoutingTable :=
  { table with rows := [], keyed := List.nodup_nil, fresh := by simp }

def replaceRules (table : RoutingTable) (rules : List RoutingRule) : RoutingTable :=
  rules.foldl addRule table.cleared

end RoutingTable

def sqlEq [DecidableEq α] (a b : Option α) : Option Bool :=
  match a, b with
  | some a, some b => some (a = b)
  | _, _ => none

def sqlIsNull (a : Option α) : Option Bool :=
  some a.isNone

def sqlOr : Option Bool → Option Bool → Option Bool
  | some true, _ => some true
  | _, some true => some true
  | some false, some false => some false
  | _, _ => none

def sqlAnd : Option Bool → Option Bool → Option Bool
  | some false, _ => some false
  | _, some false => some false
  | some true, some true => some true
  | _, _ => none

/-- `(node_type = ? OR node_type IS NULL) AND (org_slug = ? OR org_slug IS NULL)` -/
def routeCondition (nodeType : String) (orgSlug : Option String) (row : RoutingRow) :
    Option Bool :=
  sqlAnd (sqlOr (sqlEq row.nodeType (some nodeType)) (sqlIsNull row.nodeType))
    (sqlOr (sqlEq row.orgSlug orgSlug) (sqlIsNull row.orgSlug))

/-- `WHERE` keeps the rows whose condition is true, neither false nor `NULL`. -/
def sqlWhere (condition : α → Option Bool) (rows : List α) : List α :=
  rows.filter fun row => condition row = some true

def RoutingRow.Precedes (row other : RoutingRow) : Prop :=
  row.priority < other.priority ∨ row.priority = other.priority ∧ row.id ≤ other.id

instance : DecidableRel RoutingRow.Precedes := fun _ _ =>
  inferInstanceAs (Decidable (_ ∨ _))

def orderByPriority (rows : List RoutingRow) : List RoutingRow :=
  rows.insertionSort RoutingRow.Precedes

/-- `localWorkspace` is `isLocalWorkspace()`: such a workspace reads as having no rules. -/
def listRules (localWorkspace : Bool) (table : RoutingTable) : List RoutingRule :=
  if localWorkspace then [] else (orderByPriority table.rows).map RoutingRow.rule

def resolveRemoteFromRules :
    List RoutingRule → (nodeType : String) → (orgSlug : Option String) → Option String
  | [], _, _ => none
  | rule :: rules, nodeType, orgSlug =>
    if rule.nodeType ≠ none ∧ rule.nodeType ≠ some nodeType then
      resolveRemoteFromRules rules nodeType orgSlug
    else if rule.orgSlug ≠ none ∧ rule.orgSlug ≠ orgSlug then
      resolveRemoteFromRules rules nodeType orgSlug
    else some rule.remoteName

def resolveRemote (localWorkspace : Bool) (table : RoutingTable) (nodeType : String)
    (orgSlug : Option String) : Option String :=
  if localWorkspace then none
  else
    ((orderByPriority (sqlWhere (routeCondition nodeType orgSlug) table.rows)).head?).map
      RoutingRow.remoteName

/-- A filter of a rule lets the value through: it is a wildcard, or it is the value. -/
def Admits (filter value : Option String) : Prop :=
  filter = none ∨ filter = value

instance (filter value : Option String) : Decidable (Admits filter value) :=
  inferInstanceAs (Decidable (_ ∨ _))

def RoutingRow.Applies (nodeType : String) (orgSlug : Option String) (row : RoutingRow) : Prop :=
  Admits row.nodeType (some nodeType) ∧ Admits row.orgSlug orgSlug

instance (nodeType : String) (orgSlug : Option String) :
    DecidablePred (RoutingRow.Applies nodeType orgSlug) := fun _ =>
  inferInstanceAs (Decidable (_ ∧ _))

/-- No row routes the node, or the one does that comes before all others that apply. -/
def Routes (rows : List RoutingRow) (nodeType : String) (orgSlug : Option String) :
    Option RoutingRow → Prop
  | none => ∀ row ∈ rows, ¬ row.Applies nodeType orgSlug
  | some row => row ∈ rows ∧ row.Applies nodeType orgSlug ∧
      ∀ other ∈ rows, other.Applies nodeType orgSlug → row.Precedes other

variable {table : RoutingTable} {rows : List RoutingRow} {nodeType : String}
  {orgSlug : Option String}

theorem sqlOr_sqlEq_sqlIsNull (filter value : Option String) :
    sqlOr (sqlEq filter value) (sqlIsNull filter) = some true ↔ Admits filter value := by
  cases filter with
  | none => cases value <;> simp [sqlEq, sqlIsNull, sqlOr, Admits]
  | some filter =>
    cases value with
    | none => simp [sqlEq, sqlIsNull, sqlOr, Admits]
    | some value =>
      by_cases heq : filter = value <;> simp [sqlEq, sqlIsNull, sqlOr, Admits, heq]

theorem sqlAnd_eq_some_true (a b : Option Bool) :
    sqlAnd a b = some true ↔ a = some true ∧ b = some true := by
  rcases a with _ | _ | _ <;> rcases b with _ | _ | _ <;> simp [sqlAnd]

theorem routeCondition_iff_applies (row : RoutingRow) :
    routeCondition nodeType orgSlug row = some true ↔ row.Applies nodeType orgSlug := by
  rw [routeCondition, sqlAnd_eq_some_true, sqlOr_sqlEq_sqlIsNull, sqlOr_sqlEq_sqlIsNull]
  rfl

instance : Std.Total RoutingRow.Precedes where
  total row other := by
    unfold RoutingRow.Precedes
    omega

instance : IsTrans RoutingRow RoutingRow.Precedes where
  trans a b c := by
    unfold RoutingRow.Precedes
    omega

theorem mem_orderByPriority {row : RoutingRow} : row ∈ orderByPriority rows ↔ row ∈ rows :=
  List.mem_insertionSort _

theorem pairwise_orderByPriority : (orderByPriority rows).Pairwise RoutingRow.Precedes :=
  List.pairwise_insertionSort _ rows

theorem RoutingTable.eq_of_precedes (table : RoutingTable) {row other : RoutingRow}
    (hrow : row ∈ table.rows) (hother : other ∈ table.rows) (h : row.Precedes other)
    (h' : other.Precedes row) : row = other := by
  have hid : row.id = other.id := by
    unfold RoutingRow.Precedes at h h'
    omega
  exact List.inj_on_of_nodup_map table.keyed hrow hother hid

theorem Routes.eq {answer answer' : Option RoutingRow}
    (h : Routes table.rows nodeType orgSlug answer)
    (h' : Routes table.rows nodeType orgSlug answer') : answer = answer' := by
  cases answer with
  | none =>
    cases answer' with
    | none => rfl
    | some row' => exact absurd h'.2.1 (h row' h'.1)
  | some row =>
    cases answer' with
    | none => exact absurd h.2.1 (h' row h.1)
    | some row' =>
      exact congrArg some (table.eq_of_precedes h.1 h'.1 (h.2.2 row' h'.1 h'.2.1)
        (h'.2.2 row h.1 h.2.1))

theorem routes_query :
    Routes rows nodeType orgSlug
      (orderByPriority (sqlWhere (routeCondition nodeType orgSlug) rows)).head? := by
  have hmem : ∀ row, row ∈ orderByPriority (sqlWhere (routeCondition nodeType orgSlug) rows) ↔
      row ∈ rows ∧ row.Applies nodeType orgSlug := by
    intro row
    rw [mem_orderByPriority, sqlWhere, List.mem_filter, decide_eq_true_eq,
      routeCondition_iff_applies]
  have hsorted := @pairwise_orderByPriority (sqlWhere (routeCondition nodeType orgSlug) rows)
  cases hrows : orderByPriority (sqlWhere (routeCondition nodeType orgSlug) rows) with
  | nil =>
    intro row hrow happlies
    have : row ∈ [] := hrows ▸ (hmem row).mpr ⟨hrow, happlies⟩
    cases this
  | cons first rest =>
    rw [hrows] at hmem hsorted
    obtain ⟨hfirst, happlies⟩ := (hmem first).mp List.mem_cons_self
    refine ⟨hfirst, happlies, fun other hother hothers => ?_⟩
    rcases List.mem_cons.mp ((hmem other).mpr ⟨hother, hothers⟩) with rfl | hrest
    · exact (Std.Total.total other other).elim id id
    · exact (List.pairwise_cons.mp hsorted).1 other hrest

theorem resolveRemoteFromRules_map_rule :
    resolveRemoteFromRules (rows.map RoutingRow.rule) nodeType orgSlug =
      (rows.find? fun row => row.Applies nodeType orgSlug).map RoutingRow.remoteName := by
  induction rows with
  | nil => rfl
  | cons row rows ih =>
    have hiff : row.Applies nodeType orgSlug ↔
        ¬ (row.nodeType ≠ none ∧ row.nodeType ≠ some nodeType) ∧
          ¬ (row.orgSlug ≠ none ∧ row.orgSlug ≠ orgSlug) := by
      unfold RoutingRow.Applies Admits
      tauto
    rw [List.map_cons, resolveRemoteFromRules]
    split
    · rename_i hskip
      rw [List.find?_cons_of_neg (by simpa using fun h => (hiff.mp h).1 hskip), ih]
    · rename_i hnode
      split
      · rename_i hskip
        rw [List.find?_cons_of_neg (by simpa using fun h => (hiff.mp h).2 hskip), ih]
      · rename_i horg
        rw [List.find?_cons_of_pos (by simpa using hiff.mpr ⟨hnode, horg⟩)]
        rfl

theorem routes_find? (hsorted : rows.Pairwise RoutingRow.Precedes) :
    Routes rows nodeType orgSlug (rows.find? fun row => row.Applies nodeType orgSlug) := by
  cases hfind : rows.find? fun row => row.Applies nodeType orgSlug with
  | none =>
    intro row hrow
    simpa using List.find?_eq_none.mp hfind row hrow
  | some row =>
    obtain ⟨happlies, before, after, hsplit, hbefore⟩ := List.find?_eq_some_iff_append.mp hfind
    subst hsplit
    refine ⟨by simp, by simpa using happlies, fun other hother hothers => ?_⟩
    rcases List.mem_append.mp hother with hother | hother
    · exact absurd hothers (by simpa using hbefore other hother)
    · rcases List.mem_cons.mp hother with rfl | hother
      · exact (Std.Total.total other other).elim id id
      · exact (List.pairwise_cons.mp (List.pairwise_append.mp hsorted).2.1).1 other hother

theorem Routes.of_mem_iff {rows' : List RoutingRow} {answer : Option RoutingRow}
    (hmem : ∀ row, row ∈ rows ↔ row ∈ rows') (h : Routes rows nodeType orgSlug answer) :
    Routes rows' nodeType orgSlug answer := by
  cases answer with
  | none => exact fun row hrow => h row ((hmem row).mpr hrow)
  | some row =>
    exact ⟨(hmem row).mp h.1, h.2.1, fun other hother => h.2.2 other ((hmem other).mpr hother)⟩

/-- The loop over the rules that were listed and the query over the table answer the same. -/
theorem resolveRemoteFromRules_listRules (localWorkspace : Bool) (table : RoutingTable)
    (nodeType : String) (orgSlug : Option String) :
    resolveRemoteFromRules (listRules localWorkspace table) nodeType orgSlug =
      resolveRemote localWorkspace table nodeType orgSlug := by
  cases localWorkspace with
  | true => rfl
  | false =>
    have hloop : Routes table.rows nodeType orgSlug
        ((orderByPriority table.rows).find? fun row => row.Applies nodeType orgSlug) :=
      (routes_find? pairwise_orderByPriority).of_mem_iff fun row => mem_orderByPriority
    simp only [listRules, resolveRemote, Bool.false_eq_true, if_false,
      resolveRemoteFromRules_map_rule]
    rw [hloop.eq routes_query]

variable {table : RoutingTable} {rows : List RoutingRow} {rules : List RoutingRule}

/-- Among rows that were inserted later the priority alone decides where a row goes. -/
theorem map_rule_orderedInsert {row : RoutingRow} (h : ∀ other ∈ rows, row.id ≤ other.id) :
    (rows.orderedInsert RoutingRow.Precedes row).map RoutingRow.rule =
      (rows.map RoutingRow.rule).orderedInsert (·.priority ≤ ·.priority) row.rule := by
  induction rows with
  | nil => rfl
  | cons other rows ih =>
    obtain ⟨hother, hrows⟩ := List.forall_mem_cons.mp h
    have hprecedes : row.Precedes other ↔ row.rule.priority ≤ other.rule.priority := by
      simp only [RoutingRow.Precedes, RoutingRow.rule]
      omega
    simp only [List.orderedInsert_cons, List.map_cons, hprecedes]
    split
    · rfl
    · rw [List.map_cons, ih hrows]

theorem map_rule_orderByPriority (h : rows.Pairwise (·.id ≤ ·.id)) :
    (orderByPriority rows).map RoutingRow.rule =
      (rows.map RoutingRow.rule).insertionSort (·.priority ≤ ·.priority) := by
  induction rows with
  | nil => rfl
  | cons row rows ih =>
    obtain ⟨hrow, hrows⟩ := List.pairwise_cons.mp h
    rw [List.map_cons, List.insertionSort_cons, ← ih hrows]
    exact map_rule_orderedInsert fun other hother => hrow other (mem_orderByPriority.mp hother)

theorem rows_foldl_addRule (h : table.rows.Pairwise (·.id ≤ ·.id)) :
    (rules.foldl RoutingTable.addRule table).rows.Pairwise (·.id ≤ ·.id) ∧
      (rules.foldl RoutingTable.addRule table).rows.map RoutingRow.rule =
        table.rows.map RoutingRow.rule ++ rules := by
  induction rules generalizing table with
  | nil => simpa using h
  | cons rule rules ih =>
    have hadded : (table.addRule rule).rows.Pairwise (·.id ≤ ·.id) := by
      refine List.pairwise_append.mpr ⟨h, List.pairwise_singleton _ _, fun row hrow other hother => ?_⟩
      rw [List.mem_singleton.mp hother]
      exact Nat.le_of_lt (table.fresh row hrow)
    simpa [RoutingTable.addRule, RoutingTable.inserted, RoutingRow.rule] using ih hadded

/-- Whatever was in the table: rules that were replaced as a whole are listed by priority, those of
one priority in the order given, and giving the list back changes nothing. -/
theorem listRules_replaceRules (table table' : RoutingTable) (rules : List RoutingRule) :
    listRules false (table.replaceRules rules) = rules.insertionSort (·.priority ≤ ·.priority) ∧
      listRules false (table'.replaceRules (listRules false (table.replaceRules rules))) =
        listRules false (table.replaceRules rules) := by
  have hlist : ∀ (table : RoutingTable) (rules : List RoutingRule),
      listRules false (table.replaceRules rules) =
        rules.insertionSort (·.priority ≤ ·.priority) := by
    intro table rules
    obtain ⟨hids, hrules⟩ := @rows_foldl_addRule table.cleared rules .nil
    exact (map_rule_orderByPriority hids).trans (congrArg _ hrules)
  refine ⟨hlist table rules, ?_⟩
  rw [hlist, hlist, List.Pairwise.insertionSort_eq]
  exact List.pairwise_insertionSort _ _

end Portuni.Routing
