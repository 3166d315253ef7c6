import Mathlib.Data.List.Sort
import Portuni.Files.Model

/-!
The two queries that find tombstones in the audit log: the one of the direct
engine, bounded by the paths it asks for, and the one behind sync-info, bounded
by time.
-/

namespace Portuni.Tombstones

open Files

/-- `ORDER BY timestamp DESC`, which leaves the order of equal timestamps open. -/
structure NewestFirst where
  sort : List AuditRow → List AuditRow
  perm : ∀ rows, (sort rows).Perm rows
  sorted : ∀ rows, (sort rows).Pairwise fun a b => b.timestamp ≤ a.timestamp

def localActions : List AuditAction := [.syncDelete, .syncDeleteRemote, .syncMove, .syncRename]

def centralActions : List AuditAction := localActions ++ [.syncRenameRemote]

/-- What both queries filter on: rows about files, by action and node. -/
def reads (actions : List AuditAction) (nodeId : String) (r : AuditRow) : Bool :=
  (r.fileId?).isSome && actions.contains r.action && r.auditNodeId = some nodeId

def chunks {α : Type} (size : ℕ) (xs : List α) : List (List α) :=
  (List.range ((xs.length + size - 1) / size)).map fun i => (xs.drop (i * size)).take size

def tombstoneChunk : ℕ := 300

/-- The rows of the node for the paths asked for, newest first within each chunk. -/
def localTombstoneRows (order : NewestFirst) (db : Database) (nodeId : String)
    (remotePaths : List RemotePath) : List AuditRow :=
  (chunks tombstoneChunk remotePaths.eraseDups).flatMap fun chunk =>
    order.sort (db.auditLog.filter fun r =>
      reads localActions nodeId r && r.auditRemotePath.any chunk.contains)

def dayMs : ℕ := 86400000

def tombstoneWindowDays : ℕ := 180

def tombstoneCutoff (now : ℕ) : ℕ := (now - tombstoneWindowDays * dayMs) / dayMs * dayMs

def tombstoneLimit : ℕ := 20000

def recentTombstones (now : ℕ) (db : Database) (nodeId : String) : List AuditRow :=
  db.auditLog.filter fun r =>
    reads centralActions nodeId r && decide (tombstoneCutoff now ≤ r.timestamp)

/-- The rows that sync-info reads: the newest of the node, up to the limit. -/
def syncInfoRows (order : NewestFirst) (now : ℕ) (db : Database) (nodeId : String) :
    List AuditRow :=
  (order.sort (recentTombstones now db nodeId)).take tombstoneLimit

structure DeletedTombstone where
  fileId : ℕ
  remotePath : RemotePath
  recordAlive : Bool
deriving DecidableEq

def tombstoneOf (alive : List AuditAction) (r : AuditRow) : Option DeletedTombstone :=
  match r.fileId?, r.auditRemotePath with
  | some fileId, some remotePath => some ⟨fileId, remotePath, alive.contains r.action⟩
  | _, _ => none

def dedupeByRemotePath (seen : List (RemotePath × ℕ)) : List DeletedTombstone →
    List DeletedTombstone
  | [] => []
  | t :: rest =>
    if seen.contains (t.remotePath, t.fileId) then dedupeByRemotePath seen rest
    else t :: dedupeByRemotePath ((t.remotePath, t.fileId) :: seen) rest

def syncInfoDeleted (order : NewestFirst) (now : ℕ) (db : Database) (nodeId : String) :
    List DeletedTombstone :=
  dedupeByRemotePath [] ((syncInfoRows order now db nodeId).filterMap
    (tombstoneOf [.syncMove, .syncRename, .syncRenameRemote]))

/-- The tombstones that the direct engine matches for the paths asked for. -/
def localTombstones (order : NewestFirst) (db : Database) (nodeId : String)
    (remotePaths : List RemotePath) : List DeletedTombstone :=
  (localTombstoneRows order db nodeId remotePaths).filterMap (tombstoneOf [.syncMove, .syncRename])

variable {order : NewestFirst} {db : Database} {nodeId : String} {now : ℕ}
  {remotePaths : List RemotePath} {r : AuditRow} {t : DeletedTombstone} {fileId : ℕ}
  {path : RemotePath}

theorem exists_mem_chunks {α : Type} {size : ℕ} {xs : List α} {x : α} (hsize : 0 < size) :
    (∃ chunk ∈ chunks size xs, x ∈ chunk) ↔ x ∈ xs := by
  constructor
  · rintro ⟨chunk, hchunk, hx⟩
    obtain ⟨i, -, rfl⟩ := List.mem_map.mp hchunk
    exact List.mem_of_mem_drop (List.mem_of_mem_take hx)
  · intro hx
    obtain ⟨j, hj, rfl⟩ := List.getElem_of_mem hx
    refine ⟨_, List.mem_map_of_mem (List.mem_range.mpr (show j / size < _ from ?_)), ?_⟩
    · rw [Nat.div_lt_iff_lt_mul hsize]
      have hround := Nat.lt_mul_div_succ (xs.length + size - 1) hsize
      rw [Nat.mul_comm, Nat.add_mul, Nat.one_mul] at hround
      omega
    · have hmod := Nat.mod_lt j hsize
      have hdiv := Nat.div_add_mod' j size
      refine List.mem_iff_getElem.mpr ⟨j % size, ?_, ?_⟩
      · rw [List.length_take, List.length_drop]
        omega
      · simp [hdiv]

theorem mem_localTombstoneRows : r ∈ localTombstoneRows order db nodeId remotePaths ↔
    r ∈ db.auditLog ∧ reads localActions nodeId r ∧ r.auditRemotePath.any remotePaths.contains := by
  have hchunk : ∀ path, (∃ chunk ∈ chunks tombstoneChunk remotePaths.eraseDups, path ∈ chunk) ↔
      path ∈ remotePaths := fun path => by
    rw [exists_mem_chunks (by decide), List.mem_eraseDups]
  simp only [localTombstoneRows, List.mem_flatMap, (order.perm _).mem_iff, List.mem_filter,
    Bool.and_eq_true]
  constructor
  · rintro ⟨chunk, hmem, hr, hreads, hpath⟩
    refine ⟨hr, hreads, ?_⟩
    obtain ⟨path, hsome, hcontains⟩ := Option.any_eq_true _ _ |>.mp hpath
    exact (Option.any_eq_true _ _).mpr
      ⟨path, hsome, by simpa using (hchunk path).mp ⟨chunk, hmem, by simpa using hcontains⟩⟩
  · rintro ⟨hr, hreads, hpath⟩
    obtain ⟨path, hsome, hcontains⟩ := Option.any_eq_true _ _ |>.mp hpath
    obtain ⟨chunk, hmem, hin⟩ := (hchunk path).mpr (by simpa using hcontains)
    exact ⟨chunk, hmem, hr, hreads, (Option.any_eq_true _ _).mpr ⟨path, hsome, by simpa using hin⟩⟩

theorem reads_central_of_local (h : reads localActions nodeId r) : reads centralActions nodeId r := by
  simp only [reads, Bool.and_eq_true] at h ⊢
  refine ⟨⟨h.1.1, ?_⟩, h.2⟩
  have hmem : r.action ∈ localActions := by simpa using h.1.2
  simpa [centralActions] using Or.inl hmem

theorem mem_take_of_newest {rows : List AuditRow} {limit : ℕ}
    (hsorted : rows.Pairwise fun a b => b.timestamp ≤ a.timestamp) (hr : r ∈ rows)
    (hlimit : (rows.filter fun r' => decide (r.timestamp ≤ r'.timestamp)).length ≤ limit) :
    r ∈ rows.take limit := by
  obtain ⟨before, after, rfl⟩ := List.append_of_mem hr
  have hbefore : ∀ r' ∈ before, r.timestamp ≤ r'.timestamp := fun r' hr' =>
    (List.pairwise_append.mp hsorted).2.2 r' hr' r List.mem_cons_self
  have hfilter : before.filter (fun r' => decide (r.timestamp ≤ r'.timestamp)) = before :=
    List.filter_eq_self.mpr fun r' hr' => decide_eq_true (hbefore r' hr')
  have hlength : before.length + 1 ≤ limit := by
    simp only [List.filter_append, hfilter, List.length_append, List.filter_cons, le_refl,
      decide_true, if_true, List.length_cons] at hlimit
    omega
  obtain ⟨rest, hrest⟩ : ∃ rest, limit - before.length = rest + 1 :=
    ⟨limit - before.length - 1, by omega⟩
  rw [List.take_append, hrest, List.take_succ_cons]
  exact List.mem_append_right _ List.mem_cons_self

theorem mem_syncInfoRows (hr : r ∈ recentTombstones now db nodeId)
    (huncrowded : ((recentTombstones now db nodeId).filter fun r' =>
      decide (r.timestamp ≤ r'.timestamp)).length ≤ tombstoneLimit) :
    r ∈ syncInfoRows order now db nodeId := by
  refine mem_take_of_newest (order.sorted _) ((order.perm _).mem_iff.mpr hr) ?_
  rw [((order.perm _).filter _).length_eq]
  exact huncrowded

theorem tombstoneOf_eq_some (alive : List AuditAction) (hfile : r.fileId? = some fileId)
    (hpath : r.auditRemotePath = some path) :
    tombstoneOf alive r = some ⟨fileId, path, alive.contains r.action⟩ := by
  simp [tombstoneOf, hfile, hpath]

theorem exists_mem_dedupeByRemotePath {seen : List (RemotePath × ℕ)}
    {tombstones : List DeletedTombstone} (ht : t ∈ tombstones)
    (hseen : (t.remotePath, t.fileId) ∉ seen) : ∃ t' ∈ dedupeByRemotePath seen tombstones,
      t'.fileId = t.fileId ∧ t'.remotePath = t.remotePath := by
  induction tombstones generalizing seen with
  | nil => cases ht
  | cons t₀ rest ih =>
    by_cases hsame : (t.remotePath, t.fileId) = (t₀.remotePath, t₀.fileId)
    · refine ⟨t₀, ?_, (congrArg Prod.snd hsame).symm, (congrArg Prod.fst hsame).symm⟩
      rw [hsame] at hseen
      simp [dedupeByRemotePath, hseen]
    · have hrest : t ∈ rest := by
        rcases List.mem_cons.mp ht with rfl | ht
        · exact absurd rfl hsame
        · exact ht
      unfold dedupeByRemotePath
      split
      · exact ih hrest hseen
      · obtain ⟨t', ht', h⟩ := ih hrest fun hmem =>
          (List.mem_cons.mp hmem).elim hsame hseen
        exact ⟨t', List.mem_cons_of_mem _ ht', h⟩

end Portuni.Tombstones
