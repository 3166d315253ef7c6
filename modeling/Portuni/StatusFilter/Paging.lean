import Mathlib.Data.List.Flatten
import Mathlib.Data.Int.Basic

/-!
What a caller of the status tool gets of a scan: one class allowlist, one path prefix and one
page of every bucket, with the sizes of all of them.
-/

namespace Portuni.StatusFilter

universe u

variable {α : Type u}

/-- The caller-facing names of the buckets; `deleted_remote` has none. -/
inductive StatusClass where
  | clean
  | push
  | pull
  | conflict
  | remoteMissing
  | remoteError
  | native
  | deletedLocal
  | newLocal
  | newRemote

/-- The keys of a `StatusResult`. -/
inductive Bucket where
  | clean
  | pushCandidates
  | pullCandidates
  | conflicts
  | remoteMissing
  | remoteError
  | native
  | newLocal
  | newRemote
  | deletedLocal
  | deletedRemote
  deriving DecidableEq

def classBucket : StatusClass → Bucket
  | .clean => .clean
  | .push => .pushCandidates
  | .pull => .pullCandidates
  | .conflict => .conflicts
  | .remoteMissing => .remoteMissing
  | .remoteError => .remoteError
  | .native => .native
  | .deletedLocal => .deletedLocal
  | .newLocal => .newLocal
  | .newRemote => .newRemote

/-- A tracked file; the hashes, which no filter reads, are left out. -/
structure StatusFileEntry where
  fileId : String
  localPath : Option String
  remotePath : Option String

structure NewLocalEntry where
  localPath : String
  filename : String

structure NewRemoteEntry where
  remotePath : String
  filename : String

structure DeletedRemoteEntry where
  fileId : String
  localPath : String
  remotePath : String

abbrev Bucket.Entry : Bucket → Type
  | .newLocal => NewLocalEntry
  | .newRemote => NewRemoteEntry
  | .deletedRemote => DeletedRemoteEntry
  | _ => StatusFileEntry

structure StatusResult where
  clean : List StatusFileEntry := []
  pushCandidates : List StatusFileEntry := []
  pullCandidates : List StatusFileEntry := []
  conflicts : List StatusFileEntry := []
  remoteMissing : List StatusFileEntry := []
  remoteError : List StatusFileEntry := []
  native : List StatusFileEntry := []
  newLocal : List NewLocalEntry := []
  newRemote : List NewRemoteEntry := []
  deletedLocal : List StatusFileEntry := []
  deletedRemote : List DeletedRemoteEntry := []

namespace StatusResult

def get (result : StatusResult) : (key : Bucket) → List key.Entry
  | .clean => result.clean
  | .pushCandidates => result.pushCandidates
  | .pullCandidates => result.pullCandidates
  | .conflicts => result.conflicts
  | .remoteMissing => result.remoteMissing
  | .remoteError => result.remoteError
  | .native => result.native
  | .newLocal => result.newLocal
  | .newRemote => result.newRemote
  | .deletedLocal => result.deletedLocal
  | .deletedRemote => result.deletedRemote

def ofBuckets (entries : (key : Bucket) → List key.Entry) : StatusResult where
  clean := entries .clean
  pushCandidates := entries .pushCandidates
  pullCandidates := entries .pullCandidates
  conflicts := entries .conflicts
  remoteMissing := entries .remoteMissing
  remoteError := entries .remoteError
  native := entries .native
  newLocal := entries .newLocal
  newRemote := entries .newRemote
  deletedLocal := entries .deletedLocal
  deletedRemote := entries .deletedRemote

def keys : List Bucket :=
  [.clean, .pushCandidates, .pullCandidates, .conflicts, .remoteMissing, .remoteError, .native,
    .newLocal, .newRemote, .deletedLocal, .deletedRemote]

@[simp] theorem get_ofBuckets (entries : (key : Bucket) → List key.Entry) (key : Bucket) :
    (ofBuckets entries).get key = entries key := by
  cases key <;> rfl

@[simp] theorem mem_keys (key : Bucket) : key ∈ keys := by
  cases key <;> decide

end StatusResult

structure StatusFilterOptions where
  classes : Option (List StatusClass) := none
  pathPrefix : Option String := none
  limit : Option ℤ := none
  offset : Option ℤ := none

structure FilteredStatusResult where
  entries : StatusResult
  counts : Bucket → ℕ
  truncated : Bool

def entryPath : (bucket : Bucket) → bucket.Entry → Option String
  | .newLocal, entry => some (NewLocalEntry.localPath entry)
  | .newRemote, entry => some (NewRemoteEntry.remotePath entry)
  | .deletedRemote, entry => some (DeletedRemoteEntry.localPath entry)
  | .clean, entry | .pushCandidates, entry | .pullCandidates, entry | .conflicts, entry
  | .remoteMissing, entry | .remoteError, entry | .native, entry | .deletedLocal, entry =>
    (StatusFileEntry.remotePath entry).or (StatusFileEntry.localPath entry)

def startsWith (path pathPrefix : String) : Bool :=
  pathPrefix.toList.isPrefixOf path.toList

/-- The position a JavaScript slice takes an index for: a negative one counts from the end. -/
def relativeIndex (length : ℕ) (index : ℤ) : ℕ :=
  if index < 0 then (length + index).toNat else min index.toNat length

def slice (arr : List α) (start finish : ℤ) : List α :=
  (arr.take (relativeIndex arr.length finish)).drop (relativeIndex arr.length start)

def sliceFrom (arr : List α) (start : ℤ) : List α :=
  arr.drop (relativeIndex arr.length start)

namespace StatusFilterOptions

def includes (opts : StatusFilterOptions) (key : Bucket) : Bool :=
  match opts.classes with
  | none | some [] => true
  | some classes => key = .deletedRemote || (classes.map classBucket).contains key

/-- The entries of the bucket whose path starts with the prefix; an empty prefix is none. -/
def withPrefix (opts : StatusFilterOptions) (key : Bucket) (arr : List key.Entry) :
    List key.Entry :=
  match opts.pathPrefix with
  | none => arr
  | some pathPrefix =>
    if pathPrefix.isEmpty then arr
    else arr.filter fun entry =>
      ((entryPath key entry).map (startsWith · pathPrefix)).getD false

def windowed (opts : StatusFilterOptions) (arr : List α) : List α :=
  let offset := max 0 (opts.offset.getD 0)
  match opts.limit with
  | some limit => slice arr offset (offset + limit)
  | none => if offset > 0 then sliceFrom arr offset else arr

end StatusFilterOptions

def filterStatusResult (result : StatusResult) (opts : StatusFilterOptions) :
    FilteredStatusResult where
  entries := .ofBuckets fun key =>
    if opts.includes key then opts.windowed (opts.withPrefix key (result.get key)) else []
  counts key := (result.get key).length
  truncated := StatusResult.keys.any fun key =>
    opts.includes key &&
      (opts.windowed (opts.withPrefix key (result.get key))).length <
        (opts.withPrefix key (result.get key)).length

/-- The filtered entries of a bucket, of which every page shows a part. -/
def filteredEntries (result : StatusResult) (opts : StatusFilterOptions) (key : Bucket) :
    List key.Entry :=
  if opts.includes key then opts.withPrefix key (result.get key) else []

/-- The options of the page of at most `limit` entries that starts `offset` entries in. -/
def StatusFilterOptions.page (opts : StatusFilterOptions) (limit : Option ℕ) (offset : ℕ) :
    StatusFilterOptions :=
  { opts with limit := limit.map Int.ofNat, offset := some offset }

def window (arr : List α) (limit : Option ℕ) (offset : ℕ) : List α :=
  match limit with
  | some limit => (arr.drop offset).take limit
  | none => arr.drop offset

variable {result : StatusResult} {opts : StatusFilterOptions} {limit : Option ℕ} {offset : ℕ}
  {key : Bucket}

theorem filteredEntries_page :
    filteredEntries result (opts.page limit offset) key = filteredEntries result opts key := rfl

theorem relativeIndex_natCast (length index : ℕ) :
    relativeIndex length index = min index length := by
  have hnonneg : ¬ (index : ℤ) < 0 := by omega
  simp [relativeIndex, hnonneg]

variable (arr : List α)

theorem drop_min_length (n : ℕ) : arr.drop (min n arr.length) = arr.drop n := by
  rcases Nat.le_total n arr.length with h | h
  · rw [Nat.min_eq_left h]
  · rw [Nat.min_eq_right h, List.drop_length, List.drop_eq_nil_of_le h]

theorem slice_natCast (offset limit : ℕ) :
    slice arr offset (offset + limit) = (arr.drop offset).take limit := by
  have hsum : (offset : ℤ) + limit = ((offset + limit : ℕ) : ℤ) := by omega
  rw [hsum, slice, relativeIndex_natCast, relativeIndex_natCast, List.take_drop,
    ← List.take_eq_take_min]
  rcases Nat.le_total offset arr.length with h | h
  · rw [Nat.min_eq_left h]
  · have htake : (arr.take (offset + limit)).length ≤ arr.length := List.length_take_le' _ _
    rw [Nat.min_eq_right h, List.drop_eq_nil_of_le htake, List.drop_eq_nil_of_le (by omega)]

theorem windowed_page : (opts.page limit offset).windowed arr = window arr limit offset := by
  have hoffset : max 0 (offset : ℤ) = offset := by omega
  cases limit with
  | some limit =>
    simp only [StatusFilterOptions.windowed, StatusFilterOptions.page, Option.getD_some, hoffset,
      Option.map_some, window]
    exact slice_natCast arr offset limit
  | none =>
    simp only [StatusFilterOptions.windowed, StatusFilterOptions.page, Option.getD_some, hoffset,
      Option.map_none, sliceFrom, relativeIndex_natCast, drop_min_length, window]
    split
    · rfl
    · have hzero : offset = 0 := by omega
      rw [hzero, List.drop_zero]

theorem windowed_nil : opts.windowed ([] : List α) = [] := by
  unfold StatusFilterOptions.windowed
  cases opts.limit <;> simp [slice, sliceFrom]

theorem get_filterStatusResult : (filterStatusResult result opts).entries.get key =
      opts.windowed (filteredEntries result opts key) := by
  simp only [filterStatusResult, StatusResult.get_ofBuckets, filteredEntries]
  split
  · rfl
  · rw [windowed_nil]

theorem truncated_iff_exists_length_lt : (filterStatusResult result opts).truncated = true ↔
      ∃ key, (opts.windowed (filteredEntries result opts key)).length <
        (filteredEntries result opts key).length := by
  simp only [filterStatusResult, List.any_eq_true, Bool.and_eq_true, decide_eq_true_eq]
  constructor
  · rintro ⟨key, -, hincluded, hlt⟩
    refine ⟨key, ?_⟩
    rwa [filteredEntries, if_pos hincluded]
  · rintro ⟨key, hlt⟩
    cases hincluded : opts.includes key with
    | true =>
      rw [filteredEntries, if_pos hincluded] at hlt
      exact ⟨key, StatusResult.mem_keys key, hincluded, hlt⟩
    | false => simp [filteredEntries, hincluded, windowed_nil] at hlt

theorem length_window_lt_iff : (window arr limit offset).length < arr.length ↔
      ∃ index < arr.length, index < offset ∨ ∃ size ∈ limit, offset + size ≤ index := by
  cases limit with
  | none =>
    simp only [window, List.length_drop, Option.not_mem_none, false_and, exists_false, or_false]
    constructor
    · intro hlt
      exact ⟨0, by omega, by omega⟩
    · rintro ⟨index, hindex, hbefore⟩
      omega
  | some size =>
    simp only [window, List.length_take, List.length_drop, Option.mem_some_iff, exists_eq_left']
    constructor
    · intro hlt
      rcases Nat.eq_zero_or_pos offset with rfl | hpos
      · exact ⟨size, by omega, .inr (by omega)⟩
      · exact ⟨0, by omega, .inl hpos⟩
    · rintro ⟨index, hindex, hbefore | hafter⟩ <;> omega

theorem truncated_page_iff : (filterStatusResult result (opts.page limit offset)).truncated = true ↔
      ∃ key, ∃ index < (filteredEntries result opts key).length,
        index < offset ∨ ∃ size ∈ limit, offset + size ≤ index := by
  rw [truncated_iff_exists_length_lt]
  refine exists_congr fun key => ?_
  rw [filteredEntries_page, windowed_page, length_window_lt_iff]

theorem flatMap_windows (size pages : ℕ) :
    (List.range pages).flatMap (fun page => window arr (some size) (page * size)) =
      arr.take (pages * size) := by
  induction pages with
  | zero => simp
  | succ pages ih =>
    rw [List.range_succ, List.flatMap_append, ih, List.flatMap_singleton, Nat.succ_mul,
      List.take_add]
    rfl

def pagesOf (result : StatusResult) (opts : StatusFilterOptions) (size pages : ℕ)
    (key : Bucket) : List key.Entry :=
  (List.range pages).flatMap fun page =>
    (filterStatusResult result (opts.page (some size) (page * size))).entries.get key

theorem pagesOf_eq_take (size pages : ℕ) :
    pagesOf result opts size pages key = (filteredEntries result opts key).take (pages * size) := by
  simp only [pagesOf, get_filterStatusResult, filteredEntries_page, windowed_page]
  exact flatMap_windows _ size pages

theorem exists_pagesOf_eq (result : StatusResult) (opts : StatusFilterOptions) {size : ℕ}
    (hsize : 0 < size) :
    ∃ pages, ∀ key, pagesOf result opts size pages key = filteredEntries result opts key := by
  let lengths := StatusResult.keys.map fun key => (filteredEntries result opts key).length
  refine ⟨lengths.max?.getD 0, fun key => ?_⟩
  have hlongest : (filteredEntries result opts key).length ≤ lengths.max?.getD 0 :=
    List.le_max?_getD_of_mem (List.mem_map_of_mem (StatusResult.mem_keys key))
  have hpages : lengths.max?.getD 0 ≤ lengths.max?.getD 0 * size :=
    Nat.le_mul_of_pos_right _ hsize
  rw [pagesOf_eq_take, List.take_of_length_le (Nat.le_trans hlongest hpages)]

def twoPushed : StatusResult where
  pushCandidates := [⟨"a", none, some "wip/a.md"⟩, ⟨"b", none, some "wip/b.md"⟩]

/-- The pages of consecutive offsets hold the filtered entries of every bucket in their order,
and enough of them hold all; the counts ignore the filters, and a page is marked truncated
when it leaves out a filtered entry, be it before its offset or past its end. -/
theorem status_paging_loses_nothing (result : StatusResult) (opts : StatusFilterOptions) :
    (∀ size pages key, pagesOf result opts size pages key =
      (filteredEntries result opts key).take (pages * size)) ∧ (∀ size, 0 < size → ∃ pages, ∀ key,
      pagesOf result opts size pages key = filteredEntries result opts key) ∧
    (∀ key, (filterStatusResult result (opts.page none 0)).entries.get key =
      filteredEntries result opts key) ∧
    (∀ key, (filterStatusResult result opts).counts key = (result.get key).length) ∧
    ∀ limit offset, (filterStatusResult result (opts.page limit offset)).truncated = true ↔
      ∃ key, ∃ index < (filteredEntries result opts key).length,
        index < offset ∨ ∃ size ∈ limit, offset + size ≤ index := by
  refine ⟨fun size pages key => pagesOf_eq_take size pages, fun size hsize =>
    exists_pagesOf_eq result opts hsize, fun key => ?_, fun key => rfl,
    fun limit offset => truncated_page_iff⟩
  rw [get_filterStatusResult, filteredEntries_page, windowed_page, window, List.drop_zero]

theorem status_paging_loses_nothing_two :
    ∃ pages, ∀ key, pagesOf twoPushed {} 2 pages key = filteredEntries twoPushed {} key :=
  (status_paging_loses_nothing twoPushed {}).2.1 2 (by decide)

/-- The page of the second of two entries is the last one, and is marked truncated. -/
theorem last_page_truncated :
    ¬ ((filterStatusResult twoPushed (({} : StatusFilterOptions).page (some 1) 1)).truncated = true ↔
      ∃ key, ∃ index < (filteredEntries twoPushed {} key).length, 1 + 1 ≤ index) := by
  intro h
  obtain ⟨key, index, hlt, hle⟩ := h.mp (by decide)
  have hlength : (filteredEntries twoPushed {} key).length ≤ 2 := by
    cases key <;> decide
  omega

end Portuni.StatusFilter
