import Portuni.Access.Nearest
import Portuni.Organizations.Invariant

/-!
The graphs that creation, connections, moves, purges and changes of access lead to, with the
organization triggers in force, and where the decisions over them are those of the nearest
restriction.
-/

namespace Portuni.Access

open Library.Runs

/-- The nodes and edges as the triggers see them, and what the decisions read beside them. -/
structure Graph where
  tables : Organizations.Db := {}
  rows : List NodeRow := []
  access : List AccessRow := []

namespace Graph

def db (g : Graph) : Db where
  nodes := g.rows
  edges := (g.tables.edges.filter (·.relation = .belongsTo)).map fun e => ⟨e.source, e.target⟩
  access := g.access

end Graph

inductive Change where
  | create (type : Organizations.NodeType) (row : NodeRow) (edge : Option Organizations.Edge)
  | connect (edge : Organizations.Edge)
  | disconnect (edgeId : String)
  | move (edgeId target : String)
  | purge (nodeId : String)
  | setVisibility (nodeId : String) (visibility : Visibility) (accessMode : AccessMode)
  | grant (row : AccessRow)
  | revoke (row : AccessRow)

/-- `none` when a trigger, a key or a check aborts the write. -/
def Change.apply (g : Graph) : Change → Option Graph
  | .create type row edge =>
    if g.rows.any (·.id = row.id) then none
    else
      (Organizations.attempt (.createNode ⟨row.id, type⟩ edge) g.tables).map fun tables =>
        { g with tables := tables, rows := g.rows ++ [row] }
  | .connect edge =>
    (g.tables.insertEdge edge).map fun tables => { g with tables := tables }
  | .disconnect edgeId =>
    (g.tables.deleteEdge edgeId).map fun tables => { g with tables := tables }
  | .move edgeId target =>
    (g.tables.moveEdge edgeId target).map fun tables => { g with tables := tables }
  | .purge nodeId =>
    some {
      tables := g.tables.purge nodeId
      rows := g.rows.filter (·.id ≠ nodeId)
      access := g.access.filter (·.nodeId ≠ nodeId) }
  | .setVisibility nodeId visibility accessMode =>
    some { g with
      rows := g.rows.map fun row =>
        if row.id = nodeId then { row with visibility := visibility, accessMode := accessMode }
        else row }
  | .grant row =>
    if g.rows.any (·.id = row.nodeId) && !g.access.contains row then
      some { g with access := g.access ++ [row] }
    else none
  | .revoke row => some { g with access := g.access.filter (· ≠ row) }

def Reachable (g : Graph) : Prop := ∃ changes, Run Change.apply (fun _ _ => True) {} changes g

/-- The rows are of the nodes of the tables, each once, and the edges are between such nodes. -/
structure Graph.Invariant (g : Graph) : Prop where
  nodup : (g.rows.map NodeRow.id).Nodup
  ids : ∀ id, id ∈ g.tables.nodes.map Organizations.Node.id ↔ id ∈ g.rows.map NodeRow.id
  sources : ∀ e ∈ g.tables.edges, e.source ∈ g.rows.map NodeRow.id

variable {g g' : Graph} {tables : Organizations.Db}

theorem Graph.Invariant.wellFormed (h : g.Invariant) : g.db.WellFormed where
  nodup := h.nodup
  source := by
    intro e he
    obtain ⟨edge, hedge, rfl⟩ := List.mem_map.mp he
    exact List.mem_map.mp (h.sources edge (List.mem_filter.mp hedge).1)

theorem mem_ids_of_typeOf {id : String} (h : (tables.typeOf id).isSome = true) :
    id ∈ tables.nodes.map Organizations.Node.id := by
  rw [Organizations.Db.typeOf, Option.isSome_map, List.find?_isSome] at h
  obtain ⟨n, hn, hid⟩ := h
  exact List.mem_map.mpr ⟨n, hn, by simpa using hid⟩

theorem insertEdge_cases {edge : Organizations.Edge} {tables' : Organizations.Db}
    (h : tables.insertEdge edge = some tables') :
    edge.source ∈ tables.nodes.map Organizations.Node.id ∧
      tables'.nodes = tables.nodes ∧ tables'.edges = tables.edges ++ [edge] := by
  unfold Organizations.Db.insertEdge at h
  split at h
  · contradiction
  · rename_i hfits
    rw [Option.some.injEq] at h
    subst h
    simp only [Organizations.Db.edgeFits, Bool.or_eq_true, Bool.not_eq_true', not_or,
      Bool.not_eq_false, decide_eq_true_eq] at hfits
    exact ⟨mem_ids_of_typeOf hfits.2.1, rfl, rfl⟩

theorem Graph.Invariant.insertEdge {edge : Organizations.Edge} {tables' : Organizations.Db}
    (hg : g.Invariant) (h : g.tables.insertEdge edge = some tables') :
    ({ g with tables := tables' } : Graph).Invariant := by
  obtain ⟨hsource, hnodes, hedges⟩ := insertEdge_cases h
  refine ⟨hg.nodup, fun id => hnodes ▸ hg.ids id, fun e he => ?_⟩
  rw [hedges, List.mem_append, List.mem_singleton] at he
  obtain he | rfl := he
  · exact hg.sources e he
  · exact (hg.ids _).mp hsource

theorem Graph.Invariant.insertNode {row : NodeRow} (hg : g.Invariant)
    (type : Organizations.NodeType) (hfresh : g.rows.any (·.id = row.id) = false) :
    ({ g with tables := g.tables.insertNode ⟨row.id, type⟩, rows := g.rows ++ [row] } :
      Graph).Invariant := by
  have hnew : row.id ∉ g.rows.map NodeRow.id := by
    rintro hmem
    obtain ⟨other, hother, hid⟩ := List.mem_map.mp hmem
    simpa [hid] using List.any_eq_false.mp hfresh other hother
  refine ⟨?_, fun id => ?_, fun e he => ?_⟩
  · rw [List.map_append, List.nodup_append]
    refine ⟨hg.nodup, by simp, fun a ha b hb hab => hnew ?_⟩
    rw [List.map_singleton, List.mem_singleton] at hb
    exact hb ▸ hab ▸ ha
  · simp only [Organizations.Db.insertNode, List.map_append, List.mem_append, hg.ids id,
      List.map_singleton]
  · rw [List.map_append]
    exact List.mem_append_left _ (hg.sources e he)

theorem invariant_apply {c : Change} (hg : g.Invariant) (h : c.apply g = some g') :
    g'.Invariant := by
  cases c with
  | create type row edge =>
    rw [Change.apply] at h
    split at h
    · contradiction
    · rename_i hfresh
      obtain ⟨tables, htables, rfl⟩ := Option.map_eq_some_iff.mp h
      have hinserted := hg.insertNode type (Bool.eq_false_iff.mpr hfresh)
      cases edge with
      | none =>
        rw [Organizations.attempt, Option.some.injEq] at htables
        exact htables ▸ hinserted
      | some edge => exact hinserted.insertEdge htables
  | connect edge =>
    obtain ⟨tables, htables, rfl⟩ := Option.map_eq_some_iff.mp h
    exact hg.insertEdge htables
  | disconnect edgeId =>
    obtain ⟨tables, htables, rfl⟩ := Option.map_eq_some_iff.mp h
    unfold Organizations.Db.deleteEdge at htables
    split at htables
    · contradiction
    · rw [Option.some.injEq] at htables
      subst htables
      exact ⟨hg.nodup, hg.ids, fun e he => hg.sources e (List.mem_filter.mp he).1⟩
  | move edgeId target =>
    obtain ⟨tables, htables, rfl⟩ := Option.map_eq_some_iff.mp h
    unfold Organizations.Db.moveEdge at htables
    split at htables
    · rw [Option.some.injEq] at htables
      exact htables ▸ hg
    · split at htables
      · rw [Option.some.injEq] at htables
        subst htables
        refine ⟨hg.nodup, hg.ids, fun e he => ?_⟩
        obtain ⟨old, hold, rfl⟩ := List.mem_map.mp he
        have := hg.sources old hold
        split <;> exact this
      · contradiction
  | purge nodeId =>
    rw [Change.apply, Option.some.injEq] at h
    subst h
    have hkept : ∀ id, id ∈ (g.rows.filter (·.id ≠ nodeId)).map NodeRow.id ↔
        id ∈ g.rows.map NodeRow.id ∧ id ≠ nodeId := by
      intro id
      simp only [List.mem_map, List.mem_filter, decide_eq_true_eq]
      constructor
      · rintro ⟨row, ⟨hrow, hne⟩, rfl⟩
        exact ⟨⟨row, hrow, rfl⟩, hne⟩
      · rintro ⟨⟨row, hrow, rfl⟩, hne⟩
        exact ⟨row, ⟨hrow, hne⟩, rfl⟩
    refine ⟨(List.filter_sublist.map _).nodup hg.nodup, fun id => ?_, fun e he => ?_⟩
    · rw [hkept, ← hg.ids]
      simp only [Organizations.Db.purge, List.mem_map, List.mem_filter, decide_eq_true_eq]
      constructor
      · rintro ⟨n, ⟨hn, hne⟩, rfl⟩
        exact ⟨⟨n, hn, rfl⟩, hne⟩
      · rintro ⟨⟨n, hn, rfl⟩, hne⟩
        exact ⟨n, ⟨hn, hne⟩, rfl⟩
    · obtain ⟨hmem, hne⟩ := List.mem_filter.mp he
      rw [decide_eq_true_eq] at hne
      exact (hkept _).mpr ⟨hg.sources e hmem, hne.1⟩
  | setVisibility nodeId visibility accessMode =>
    rw [Change.apply, Option.some.injEq] at h
    subst h
    have hsame : (g.rows.map fun row => if row.id = nodeId then
        { row with visibility := visibility, accessMode := accessMode } else row).map NodeRow.id =
          g.rows.map NodeRow.id := by
      rw [List.map_map]
      refine List.map_congr_left fun row _ => ?_
      simp only [Function.comp_apply]
      split <;> rfl
    exact ⟨hsame ▸ hg.nodup, fun id => hsame ▸ hg.ids id, fun e he => hsame ▸ hg.sources e he⟩
  | grant row =>
    rw [Change.apply] at h
    split at h
    · rw [Option.some.injEq] at h
      subst h
      exact ⟨hg.nodup, hg.ids, hg.sources⟩
    · contradiction
  | revoke row =>
    rw [Change.apply, Option.some.injEq] at h
    subst h
    exact ⟨hg.nodup, hg.ids, hg.sources⟩

theorem Reachable.wellFormed (h : Reachable g) : g.db.WellFormed := by
  obtain ⟨changes, run⟩ := h
  have hstart : ({} : Graph).Invariant := ⟨by simp, by simp, by simp⟩
  exact (run.inv Graph.Invariant hstart fun _ _ _ hg _ happly => invariant_apply hg happly).wellFormed

/-- In every reachable graph the decisions about a node are those of its nearest restriction,
for every identity, list and order of rows, exactly when the ways up from it are settled. -/
theorem nearest_restriction_decides (toLowerCase : String → String) (h : Reachable g)
    (id : String) : Faithful toLowerCase g.db id ↔ g.db.Settled toLowerCase id :=
  faithful_iff_settled h.wellFormed

/-- One scoping parent for every node, and the restriction on the organization. -/
theorem nearest_restriction_decides_below_group :
    ∃ g, Reachable g ∧ g.db.restricted "n" = false ∧ g.db.restricted "o" = true ∧
      Faithful (fun s => s) g.db "n" := by
  have hrun : (exec Change.apply {} [
      .create .organization ⟨"o", .group, .request, "alice"⟩ none,
      .grant ⟨"o", ⟨.group, "staff"⟩⟩,
      .create .project ⟨"n", .team, .private_, "bob"⟩ (some ⟨"e", "n", "o", .belongsTo⟩)]).map
        Graph.db = some {
          nodes := [⟨"o", .group, .request, "alice"⟩, ⟨"n", .team, .private_, "bob"⟩]
          edges := [⟨"n", "o"⟩]
          access := [⟨"o", ⟨.group, "staff"⟩⟩] } := by decide +kernel
  obtain ⟨g, hexec, hdb⟩ := Option.map_eq_some_iff.mp hrun
  have hreachable : Reachable g := ⟨_, Run.of_exec_eq_some hexec⟩
  refine ⟨g, hreachable, by rw [hdb]; decide +kernel, by rw [hdb]; decide +kernel,
    (nearest_restriction_decides (fun s => s) hreachable "n").mpr ?_⟩
  rw [hdb]
  refine Library.Walks.settled_of_unique ?_ (by decide +kernel)
    (.up (y := "o") (by decide +kernel) (List.mem_singleton_self _) (.here "o")) (by decide)
  intro x y y' hy hy'
  have := (List.mem_singleton.mp hy).trans (List.mem_singleton.mp hy').symm
  simpa using this

/-- A second scoping edge to a private project: the scan finds the organization first. -/
theorem private_parent_passed_over :
    ¬∀ (toLowerCase : String → String) (g : Graph), Reachable g →
      ∀ id, Faithful toLowerCase g.db id := by
  intro hall
  have hrun : (exec Change.apply {} [
      .create .organization ⟨"o", .team, .private_, "alice"⟩ none,
      .create .project ⟨"q", .private_, .private_, "alice"⟩ (some ⟨"e", "q", "o", .belongsTo⟩),
      .create .process ⟨"n", .team, .private_, "alice"⟩ (some ⟨"f", "n", "o", .belongsTo⟩),
      .connect ⟨"k", "n", "q", .belongsTo⟩]).map Graph.db = some {
        nodes := [⟨"o", .team, .private_, "alice"⟩, ⟨"q", .private_, .private_, "alice"⟩,
          ⟨"n", .team, .private_, "alice"⟩]
        edges := [⟨"q", "o"⟩, ⟨"n", "o"⟩, ⟨"n", "q"⟩]
        access := [] } := by decide +kernel
  obtain ⟨g, hexec, hdb⟩ := Option.map_eq_some_iff.mp hrun
  obtain ⟨answer, hdecided, hanswer⟩ :=
    hall (fun s => s) g ⟨_, Run.of_exec_eq_some hexec⟩ "n"
  rw [hdb] at hdecided hanswer
  have hanswer := hanswer _ ⟨false, [], [], "bob"⟩ ["n"] ⟨.rfl, .rfl, .rfl⟩ List.mem_cons_self
  have hunrestricted := (hanswer.restriction ⟨true, false⟩).mp (by decide +kernel)
  rw [Restriction.mk.injEq] at hunrestricted
  cases answer with
  | none =>
    refine hdecided "q" ⟨by decide +kernel, 1, .up (by decide +kernel) ?_ (.here "q")⟩
    simp [Db.ParentOf]
  | some f =>
    simp [restricted_of_decided hdecided] at hunrestricted

end Portuni.Access
