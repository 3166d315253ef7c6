import Mathlib

/-! The rate limiter of the hosted server: per key, the allowed checks of the last minute in six
buckets of ten seconds. -/

namespace Portuni.RateLimit

section

abbrev windowMs : ℕ := 60000

abbrev bucketMs : ℕ := 10000

structure KeyState where
  buckets : Fin 6 → ℕ := fun _ => 0
  bucketTimes : Fin 6 → ℕ := fun _ => 0

structure Answer where
  allowed : Bool
  retryAfterSeconds : ℕ

structure State (Key : Type) where
  keys : Key → Option KeyState := fun _ => none
  lastPruneAt : ℕ := 0

def bucketAlignedTime (nowMs : ℕ) : ℕ := nowMs / bucketMs * bucketMs

def getBucketIndex (nowMs : ℕ) : Fin 6 := Fin.ofNat 6 (nowMs / bucketMs)

variable {Key : Type}

def State.pruneStaleKeys (s : State Key) (nowMs : ℕ) : State Key :=
  if nowMs - s.lastPruneAt < windowMs then s
  else
    { lastPruneAt := nowMs
      keys := fun key => (s.keys key).filter fun ks =>
        ¬ windowMs < nowMs - Finset.univ.sup ks.bucketTimes }

namespace KeyState

def expire (ks : KeyState) (nowMs : ℕ) : KeyState where
  buckets i := if windowMs ≤ nowMs - ks.bucketTimes i then 0 else ks.buckets i
  bucketTimes i := if windowMs ≤ nowMs - ks.bucketTimes i then 0 else ks.bucketTimes i

def oldestActive (ks : KeyState) (nowMs : ℕ) : ℕ :=
  (List.finRange 6).foldl (fun oldest i =>
    if 0 < ks.buckets i ∧ ks.bucketTimes i < oldest then ks.bucketTimes i else oldest) nowMs

def record (ks : KeyState) (nowMs : ℕ) : KeyState :=
  let i := getBucketIndex nowMs
  { buckets := Function.update ks.buckets i
      ((if ks.bucketTimes i = bucketAlignedTime nowMs then ks.buckets i else 0) + 1)
    bucketTimes := Function.update ks.bucketTimes i (bucketAlignedTime nowMs) }

end KeyState

def retryAfter (oldestActive nowMs : ℕ) : ℕ := max 1 ((oldestActive + windowMs - nowMs + 999) / 1000)

variable [DecidableEq Key]

/-- `prunes` is true in the code. -/
def check (prunes : Bool) (limitPerMinute : ℚ) (s : State Key) (key : Key) (nowMs : ℕ) :
    Answer × State Key :=
  if limitPerMinute ≤ 0 then (⟨true, 0⟩, s)
  else
    let s := bif prunes then s.pruneStaleKeys nowMs else s
    let ks := ((s.keys key).getD {}).expire nowMs
    if limitPerMinute ≤ (∑ i, ks.buckets i : ℕ) then
      (⟨false, retryAfter (ks.oldestActive nowMs) nowMs⟩,
        { s with keys := Function.update s.keys key (some ks) })
    else
      (⟨true, 0⟩, { s with keys := Function.update s.keys key (some (ks.record nowMs)) })

/-- The state after some checks, each a key and the clock. -/
def after (prunes : Bool) (limitPerMinute : ℚ) (checks : List (Key × ℕ)) : State Key :=
  checks.foldl (fun s c => (check prunes limitPerMinute s c.1 c.2).2) {}

/-- What the next check is answered. -/
def answer (prunes : Bool) (limitPerMinute : ℚ) (checks : List (Key × ℕ)) (key : Key) (nowMs : ℕ) :
    Answer :=
  (check prunes limitPerMinute (after prunes limitPerMinute checks) key nowMs).1

/-- When a key's checks were allowed. -/
def allowedTimes (prunes : Bool) (limitPerMinute : ℚ) (key : Key) (s : State Key) :
    List (Key × ℕ) → List ℕ
  | [] => []
  | c :: checks =>
    let result := check prunes limitPerMinute s c.1 c.2
    (if c.1 = key ∧ result.1.allowed = true then [c.2] else []) ++
      allowedTimes prunes limitPerMinute key result.2 checks

end

/-- A check of the time `t` still counts. -/
def live (nowMs t : ℕ) : Bool := nowMs < bucketAlignedTime t + windowMs

def oldest (times : List ℕ) (nowMs : ℕ) : ℕ :=
  ((times.filter (live nowMs)).map bucketAlignedTime).foldl min nowMs

/-- The answer by the times at which the key's checks were allowed. -/
def answerOf (limit : ℚ) (times : List ℕ) (nowMs : ℕ) : Answer :=
  if limit ≤ (times.countP (live nowMs) : ℕ) then ⟨false, retryAfter (oldest times nowMs) nowMs⟩
  else ⟨true, 0⟩

/-- The key's state counts what is still live at `since`. -/
structure Follows (ks : KeyState) (times : List ℕ) (since : ℕ) : Prop where
  le : ∀ t ∈ times, t ≤ since
  buckets : ∀ i, ks.buckets i = times.countP fun t => getBucketIndex t = i && live since t
  bucketTimes : ∀ t ∈ times, live since t = true →
    ks.bucketTimes (getBucketIndex t) = bucketAlignedTime t

variable {ks : KeyState} {times : List ℕ} {since nowMs t : ℕ}

theorem live_iff : live nowMs t = true ↔ nowMs < bucketAlignedTime t + windowMs :=
  decide_eq_true_iff

theorem live_self : live nowMs nowMs = true := by
  rw [live_iff]
  change nowMs < nowMs / 10000 * 10000 + 60000
  omega

theorem window_le_iff : windowMs ≤ nowMs - bucketAlignedTime t ↔ live nowMs t = false := by
  have hpos : 0 < windowMs := by decide
  rw [Bool.eq_false_iff, ne_eq, live_iff]
  omega

theorem live_of_le (h : since ≤ nowMs) (hlive : live nowMs t = true) : live since t = true := by
  rw [live_iff] at hlive ⊢
  omega

theorem aligned_eq (hle : t ≤ nowMs) (hlive : live nowMs t = true)
    (hindex : getBucketIndex t = getBucketIndex nowMs) :
    bucketAlignedTime t = bucketAlignedTime nowMs := by
  have hmod : t / 10000 % 6 = nowMs / 10000 % 6 := congrArg Fin.val hindex
  change decide (nowMs < t / 10000 * 10000 + 60000) = true at hlive
  rw [decide_eq_true_eq] at hlive
  change t / 10000 * 10000 = nowMs / 10000 * 10000
  omega

theorem Follows.empty (hle : ∀ t ∈ times, t ≤ nowMs) (hdead : ∀ t ∈ times, live nowMs t = false) :
    Follows {} times nowMs where
  le := hle
  buckets i := by
    refine (List.countP_eq_zero.mpr fun t ht => ?_).symm
    simp [hdead t ht]
  bucketTimes t ht hlive := by simp [hdead t ht] at hlive

theorem Follows.expire (h : Follows ks times since) (hle : since ≤ nowMs) :
    Follows (ks.expire nowMs) times nowMs where
  le t ht := (h.le t ht).trans hle
  buckets i := by
    simp only [KeyState.expire]
    split
    · rename_i hold
      refine (List.countP_eq_zero.mpr fun t ht => ?_).symm
      simp only [Bool.and_eq_true, decide_eq_true_eq, not_and]
      rintro rfl hlive
      rw [h.bucketTimes t ht (live_of_le hle hlive), window_le_iff, hlive] at hold
      cases hold
    · rename_i hnew
      rw [h.buckets]
      refine List.countP_congr fun t ht => ?_
      simp only [Bool.and_eq_true, decide_eq_true_eq, and_congr_right_iff]
      rintro rfl
      refine ⟨fun hlive => ?_, live_of_le hle⟩
      rwa [h.bucketTimes t ht hlive, window_le_iff, Bool.not_eq_false] at hnew
  bucketTimes t ht hlive := by
    simp [KeyState.expire, h.bucketTimes t ht (live_of_le hle hlive), window_le_iff, hlive]

theorem Follows.record (h : Follows ks times nowMs) :
    Follows (ks.record nowMs) (times ++ [nowMs]) nowMs where
  le t ht := by
    obtain ht | rfl := by simpa using ht
    · exact h.le t ht
    · exact Nat.le_refl _
  buckets i := by
    by_cases hi : i = getBucketIndex nowMs
    · subst hi
      simp only [KeyState.record, Function.update_self, List.countP_append, List.countP_singleton,
        live_self, decide_true, Bool.and_self, if_true, Nat.add_right_cancel_iff]
      split
      · exact h.buckets _
      · rename_i hother
        refine (List.countP_eq_zero.mpr fun t ht => ?_).symm
        simp only [Bool.and_eq_true, decide_eq_true_eq, not_and]
        intro hindex hlive
        refine hother ?_
        rw [← hindex, h.bucketTimes t ht hlive, aligned_eq (h.le t ht) hlive hindex]
    · simp [KeyState.record, Function.update_of_ne hi, h.buckets, Ne.symm hi]
  bucketTimes t ht hlive := by
    by_cases hi : getBucketIndex t = getBucketIndex nowMs
    · have hle : t ≤ nowMs := by
        obtain ht | rfl := by simpa using ht
        · exact h.le t ht
        · exact Nat.le_refl _
      rw [hi, aligned_eq hle hlive hi]
      simp [KeyState.record]
    · obtain ht | rfl := by simpa using ht
      · simp only [KeyState.record, Function.update_of_ne hi]
        exact h.bucketTimes t ht hlive
      · exact absurd rfl hi

theorem Follows.pruned (h : Follows ks times since) (hle : since ≤ nowMs)
    (hold : windowMs < nowMs - Finset.univ.sup ks.bucketTimes) : Follows {} times nowMs := by
  refine .empty (fun t ht => (h.le t ht).trans hle) fun t ht => Bool.eq_false_iff.mpr fun hlive => ?_
  have hsup : ks.bucketTimes (getBucketIndex t) ≤ Finset.univ.sup ks.bucketTimes :=
    Finset.le_sup (Finset.mem_univ _)
  rw [h.bucketTimes t ht (live_of_le hle hlive)] at hsup
  rw [live_iff] at hlive
  omega

theorem sum_countP (live : ℕ → Bool) (times : List ℕ) :
    ∑ i, times.countP (fun t => getBucketIndex t = i && live t) = times.countP live := by
  induction times with
  | nil => simp
  | cons t times ih =>
    simp only [List.countP_cons, Finset.sum_add_distrib, ih]
    cases live t <;> simp

theorem le_oldest {x : ℕ} (times : List ℕ) (nowMs : ℕ) : x ≤ oldest times nowMs ↔
    x ≤ nowMs ∧ ∀ t ∈ times, live nowMs t = true → x ≤ bucketAlignedTime t := by
  have hmin : ∀ (l : List ℕ) (a : ℕ), x ≤ l.foldl min a ↔ x ≤ a ∧ ∀ y ∈ l, x ≤ y := by
    intro l
    induction l with
    | nil => simp
    | cons y l ih => simp [ih, and_assoc]
  simp only [oldest, hmin, List.forall_mem_map, List.mem_filter, and_imp]

theorem le_oldestActive {x : ℕ} (ks : KeyState) (nowMs : ℕ) : x ≤ ks.oldestActive nowMs ↔
    x ≤ nowMs ∧ ∀ i, 0 < ks.buckets i → x ≤ ks.bucketTimes i := by
  have hmin : ∀ (l : List (Fin 6)) (a : ℕ), x ≤ l.foldl (fun oldest i =>
      if 0 < ks.buckets i ∧ ks.bucketTimes i < oldest then ks.bucketTimes i else oldest) a ↔
      x ≤ a ∧ ∀ i ∈ l, 0 < ks.buckets i → x ≤ ks.bucketTimes i := by
    intro l
    induction l with
    | nil => simp
    | cons i l ih =>
      intro a
      simp only [List.foldl_cons, ih, List.forall_mem_cons, ← and_assoc, and_congr_left_iff]
      intro _
      split <;> omega
  simp [KeyState.oldestActive, hmin]

theorem Follows.oldestActive (h : Follows ks times nowMs) :
    ks.oldestActive nowMs = oldest times nowMs := by
  refine eq_of_forall_le_iff fun x => ?_
  rw [le_oldestActive, le_oldest, and_congr_right_iff]
  intro _
  constructor
  · intro hall t ht hlive
    rw [← h.bucketTimes t ht hlive]
    refine hall _ ?_
    rw [h.buckets, List.countP_pos_iff]
    exact ⟨t, ht, by simp [hlive]⟩
  · intro hall i hpos
    rw [h.buckets, List.countP_pos_iff] at hpos
    obtain ⟨t, ht, hpos⟩ := hpos
    simp only [Bool.and_eq_true, decide_eq_true_eq] at hpos
    obtain ⟨rfl, hlive⟩ := hpos
    rw [h.bucketTimes t ht hlive]
    exact hall t ht hlive

variable {limit : ℚ}

variable {within : ℕ → Bool}

theorem countP_within
    (stays : ∀ t ∈ times, within t = true → within nowMs = true → t ≤ nowMs → live nowMs t = true)
    (hcount : (times.countP within : ℕ) < limit + 1) (hle : ∀ t ∈ times, t ≤ nowMs)
    (hallowed : (answerOf limit times nowMs).allowed = true) :
    ((times ++ [nowMs]).countP within : ℕ) < limit + 1 := by
  rw [List.countP_append, List.countP_singleton]
  split
  · rename_i hnow
    have hcountP : times.countP within ≤ times.countP (live nowMs) :=
      List.countP_mono_left fun t ht hwithin => stays t ht hwithin hnow (hle t ht)
    have hfree : (times.countP (live nowMs) : ℕ) < limit := by
      by_contra hfull
      simp [answerOf, not_lt.mp hfull] at hallowed
    have hcast : ((times.countP within : ℕ) : ℚ) ≤ (times.countP (live nowMs) : ℕ) := by
      exact_mod_cast hcountP
    push_cast
    exact (add_lt_add_iff_right 1).mpr (hcast.trans_lt hfree)
  · simpa using hcount

theorem allowed_of_waited {later : ℕ} (hpos : 0 < limit) (hle : ∀ t ∈ times, t ≤ nowMs)
    (hcount : (times.countP (live nowMs) : ℕ) < limit + 1)
    (hrefused : (answerOf limit times nowMs).allowed = false)
    (hlater : nowMs + 1000 * (answerOf limit times nowMs).retryAfterSeconds ≤ later) :
    (answerOf limit times later).allowed = true := by
  have hfull : limit ≤ (times.countP (live nowMs) : ℕ) := by
    by_contra hfree
    simp [answerOf, hfree] at hrefused
  have hwait : oldest times nowMs + windowMs ≤ later := by
    simp only [answerOf, if_pos hfull, retryAfter] at hlater
    omega
  have hsome : 0 < times.countP (live nowMs) := by exact_mod_cast hpos.trans_le hfull
  obtain ⟨t, ht, hlive⟩ := List.countP_pos_iff.mp hsome
  have hgone : ∃ x ∈ times, live nowMs x = true ∧ live later x = false := by
    by_contra hnone
    have hstay : ∀ x ∈ times, live nowMs x = true → later + 1 - windowMs ≤ bucketAlignedTime x := by
      intro x hx hlivex
      have hlater : live later x = true :=
        Bool.eq_true_of_not_eq_false fun hdead => hnone ⟨x, hx, hlivex, hdead⟩
      rw [live_iff] at hlater
      omega
    have hself : bucketAlignedTime t ≤ nowMs := (Nat.div_mul_le_self t bucketMs).trans (hle t ht)
    have hnew := (le_oldest times nowMs).mpr ⟨(hstay t ht hlive).trans hself, hstay⟩
    omega
  have hless : times.countP (live later) < times.countP (live nowMs) := by
    obtain ⟨x, hx, hlivex, hdead⟩ := hgone
    have hsame : times.countP (live later) = (times.filter (live nowMs)).countP (live later) := by
      rw [List.countP_filter]
      refine List.countP_congr fun y _ => ?_
      simpa using live_of_le (show nowMs ≤ later by omega)
    rw [hsame, List.countP_eq_length_filter (p := live nowMs)]
    exact List.countP_lt_length_iff.mpr ⟨x, List.mem_filter.mpr ⟨hx, hlivex⟩, hdead⟩
  have hfree : (times.countP (live later) : ℕ) < limit := by
    have hcast : ((times.countP (live later) + 1 : ℕ) : ℚ) ≤ (times.countP (live nowMs) : ℕ) := by
      exact_mod_cast hless
    push_cast at hcast
    exact lt_of_add_lt_add_right (hcast.trans_lt hcount)
  simp [answerOf, not_le.mpr hfree]

variable {Key : Type} [DecidableEq Key] {s : State Key} {prunes : Bool}

/-- The allowed times of a key, by the answers that they determine. -/
def timesOf (limit : ℚ) (key : Key) (checks : List (Key × ℕ)) : List ℕ :=
  checks.foldl (fun times c =>
    if c.1 = key ∧ (answerOf limit times c.2).allowed = true then times ++ [c.2] else times) []

def Tracks (s : State Key) (times : Key → List ℕ) (nowMs : ℕ) : Prop :=
  ∀ key, ∃ since ≤ nowMs, Follows ((s.keys key).getD {}) (times key) since

omit [DecidableEq Key] in
theorem Tracks.congr {times times' : Key → List ℕ} (h : Tracks s times nowMs)
    (heq : ∀ key, times' key = times key) : Tracks s times' nowMs :=
  funext heq ▸ h

theorem Tracks.set {times : Key → List ℕ} {times' : List ℕ} (h : Tracks s times nowMs) (key : Key)
    (hks : Follows ks times' nowMs) :
    Tracks { s with keys := Function.update s.keys key (some ks) }
      (fun k => if key = k then times' else times k) nowMs := by
  intro k
  by_cases hk : key = k
  · subst hk
    exact ⟨nowMs, Nat.le_refl _, by simpa using hks⟩
  · simpa [hk, Function.update_of_ne (Ne.symm hk)] using h k

omit [DecidableEq Key] in
theorem Tracks.prune {times : Key → List ℕ} (h : Tracks s times nowMs) :
    Tracks (s.pruneStaleKeys nowMs) times nowMs := by
  intro key
  obtain ⟨since, hle, h⟩ := h key
  rw [State.pruneStaleKeys]
  split
  · exact ⟨since, hle, h⟩
  · cases hks : s.keys key with
    | none => exact ⟨since, hle, by simpa [hks] using h⟩
    | some ks =>
      rw [hks, Option.getD_some] at h
      by_cases hold : windowMs < nowMs - Finset.univ.sup ks.bucketTimes
      · refine ⟨nowMs, Nat.le_refl _, ?_⟩
        simpa only [hks, Option.filter_some, hold, not_true, decide_false, Bool.false_eq_true,
          if_false, Option.getD_none] using h.pruned hle hold
      · refine ⟨since, hle, ?_⟩
        simpa only [hks, Option.filter_some, hold, not_false_eq_true, decide_true, if_true,
          Option.getD_some] using h

theorem Tracks.check {times : Key → List ℕ} (h : Tracks s times nowMs) (hpos : 0 < limit)
    (key : Key) :
    (check prunes limit s key nowMs).1 = answerOf limit (times key) nowMs ∧
      Tracks (check prunes limit s key nowMs).2 (fun k =>
        if key = k ∧ (answerOf limit (times k) nowMs).allowed = true then times k ++ [nowMs]
        else times k) nowMs := by
  have hs : Tracks (bif prunes then s.pruneStaleKeys nowMs else s) times nowMs := by
    cases prunes
    · exact h
    · exact h.prune
  obtain ⟨since, hle, hks⟩ := hs key
  have hks := hks.expire hle
  have htotal : ∑ i, (((bif prunes then s.pruneStaleKeys nowMs else s).keys key).getD {}
      |>.expire nowMs).buckets i = (times key).countP (live nowMs) := by
    rw [← sum_countP]
    exact Finset.sum_congr rfl fun i _ => hks.buckets i
  simp only [RateLimit.check, if_neg (not_le.mpr hpos), htotal]
  by_cases hfull : limit ≤ ((times key).countP (live nowMs) : ℕ)
  · simp only [if_pos hfull, answerOf, hks.oldestActive, true_and]
    refine (hs.set key hks).congr fun k => ?_
    by_cases hk : key = k
    · subst hk
      simp [hfull]
    · simp [hk]
  · simp only [if_neg hfull, answerOf, true_and]
    refine (hs.set key hks.record).congr fun k => ?_
    by_cases hk : key = k
    · subst hk
      simp [hfull]
    · simp [hk]

omit [DecidableEq Key] in
theorem Tracks.mono {times : Key → List ℕ} {later : ℕ} (h : Tracks s times nowMs)
    (hle : nowMs ≤ later) : Tracks s times later := fun key =>
  let ⟨since, hsince, hks⟩ := h key
  ⟨since, hsince.trans hle, hks⟩

theorem allowedTimes_append (key : Key) (checks more : List (Key × ℕ)) (s : State Key) :
    allowedTimes prunes limit key s (checks ++ more) = allowedTimes prunes limit key s checks ++
      allowedTimes prunes limit key
        (checks.foldl (fun s c => (RateLimit.check prunes limit s c.1 c.2).2) s) more := by
  induction checks generalizing s with
  | nil => rfl
  | cons c checks ih => simp [allowedTimes, ih]

/-- The clock of the checks never goes back. -/
def Timed (checks : List (Key × ℕ)) : Prop := (checks.map Prod.snd).Pairwise (· ≤ ·)

theorem timesOf_concat (key : Key) (checks : List (Key × ℕ)) (c : Key × ℕ) :
    timesOf limit key (checks ++ [c]) =
      if c.1 = key ∧ (answerOf limit (timesOf limit key checks) c.2).allowed = true then
        timesOf limit key checks ++ [c.2]
      else timesOf limit key checks := by
  rw [timesOf, List.foldl_append]
  rfl

variable {checks : List (Key × ℕ)}

theorem after_tracks (hpos : 0 < limit) (timed : Timed checks) :
    (∀ now, (∀ c ∈ checks, c.2 ≤ now) →
      Tracks (after prunes limit checks) (timesOf limit · checks) now) ∧
    ∀ key, allowedTimes prunes limit key {} checks = timesOf limit key checks := by
  induction checks using List.reverseRecOn with
  | nil =>
    exact ⟨fun now _ key => ⟨now, Nat.le_refl _, .empty (by simp [timesOf]) (by simp [timesOf])⟩,
      fun key => rfl⟩
  | append_singleton checks c ih =>
    simp only [Timed, List.map_append, List.pairwise_append] at timed
    have hbefore : ∀ c' ∈ checks, c'.2 ≤ c.2 := fun c' hc' =>
      timed.2.2 _ (List.mem_map_of_mem hc') _ List.mem_cons_self
    obtain ⟨tracks, htimes⟩ := ih timed.1
    obtain ⟨hanswer, hcheck⟩ := @Tracks.check _ _ _ _ _ prunes _ (tracks c.2 hbefore) hpos c.1
    constructor
    · intro now hnow
      rw [after, List.foldl_append]
      exact (hcheck.mono (hnow c (by simp))).congr fun key => timesOf_concat key checks c
    · intro key
      rw [allowedTimes_append, htimes, timesOf_concat]
      change _ ++ ((if c.1 = key ∧ (RateLimit.check prunes limit (after prunes limit checks) c.1
        c.2).1.allowed = true then [c.2] else []) ++ []) = _
      rw [hanswer]
      by_cases hk : c.1 = key
      · subst hk
        split <;> simp
      · simp [hk]

variable {now : ℕ}

theorem answer_eq (hpos : 0 < limit) (timed : Timed checks) (hnow : ∀ c ∈ checks, c.2 ≤ now)
    (key : Key) :
    answer prunes limit checks key now = answerOf limit (timesOf limit key checks) now :=
  (((after_tracks hpos timed).1 now hnow).check hpos key).1

theorem timesOf_le (hnow : ∀ c ∈ checks, c.2 ≤ now) (key : Key) :
    ∀ t ∈ timesOf limit key checks, t ≤ now := by
  induction checks using List.reverseRecOn with
  | nil => simp [timesOf]
  | append_singleton checks c ih =>
    simp only [List.forall_mem_append, List.forall_mem_singleton] at hnow
    rw [timesOf_concat]
    split
    · simpa [or_imp, forall_and] using ⟨ih hnow.1, hnow.2⟩
    · exact ih hnow.1

theorem countP_timesOf (hpos : 0 < limit)
    (stays : ∀ t u, within t = true → within u = true → t ≤ u → u ≤ now → live u t = true)
    (timed : Timed checks) (hnow : ∀ c ∈ checks, c.2 ≤ now) (key : Key) :
    ((timesOf limit key checks).countP within : ℕ) < limit + 1 := by
  induction checks using List.reverseRecOn with
  | nil => simpa [timesOf] using hpos.trans (lt_add_one limit)
  | append_singleton checks c ih =>
    simp only [Timed, List.map_append, List.pairwise_append] at timed
    simp only [List.forall_mem_append, List.forall_mem_singleton] at hnow
    have hbefore : ∀ c' ∈ checks, c'.2 ≤ c.2 := fun c' hc' =>
      timed.2.2 _ (List.mem_map_of_mem hc') _ List.mem_cons_self
    have hcount := ih timed.1 hnow.1
    rw [timesOf_concat]
    split
    · rename_i hallowed
      exact countP_within (fun t ht hwithin hlast hle => stays t c.2 hwithin hlast hle hnow.2) hcount
        (timesOf_le hbefore key) hallowed.2
    · exact hcount

theorem timesOf_filter (key : Key) (checks : List (Key × ℕ)) :
    timesOf limit key (checks.filter fun c => c.1 = key) = timesOf limit key checks := by
  induction checks using List.reverseRecOn with
  | nil => rfl
  | append_singleton checks c ih =>
    by_cases hk : c.1 = key
    · simp [timesOf_concat, List.filter_append, hk, ih]
    · simp [timesOf_concat, List.filter_append, hk, ih]

theorem timesOf_refused {pre : List (Key × ℕ)} {key : Key}
    (hrefused : (answerOf limit (timesOf limit key pre) t).allowed = false) (k : Key)
    (more : List (Key × ℕ)) :
    timesOf limit k (pre ++ (key, t) :: more) = timesOf limit k (pre ++ more) := by
  have hsame : timesOf limit k (pre ++ [(key, t)]) = timesOf limit k pre := by
    rw [timesOf_concat]
    refine if_neg ?_
    rintro ⟨rfl, hallowed⟩
    rw [hrefused] at hallowed
    cases hallowed
  rw [List.append_cons]
  simp only [timesOf, List.foldl_append] at hsame ⊢
  rw [hsame]

omit [DecidableEq Key] in
theorem Timed.sublist {checks checks' : List (Key × ℕ)} (timed : Timed checks)
    (h : checks'.Sublist checks) : Timed checks' :=
  List.Pairwise.sublist (h.map _) timed

/-- Fewer than `limit + 1` checks of a key are allowed in any 50 seconds, and in any minute that
begins with a bucket. A check is allowed when the time is over that a refusal named; a refused check,
the checks of other keys and pruning leave all later answers as they are. -/
theorem check_limited (hpos : 0 < limit) {checks : List (Key × ℕ)} (timed : Timed checks) :
    (∀ key start, ((allowedTimes true limit key {} checks).countP fun t =>
      start ≤ t ∧ t ≤ start + 50000 : ℕ) < limit + 1) ∧
    (∀ key n, ((allowedTimes true limit key {} checks).countP fun t =>
      n * 10000 ≤ t ∧ t < n * 10000 + 60000 : ℕ) < limit + 1) ∧
    ∀ now, (∀ c ∈ checks, c.2 ≤ now) →
      (∀ pre key t more, checks = pre ++ (key, t) :: more →
        (answer true limit pre key t).allowed = false →
          ((∀ c ∈ more, c.1 ≠ key) →
            t + 1000 * (answer true limit pre key t).retryAfterSeconds ≤ now →
              (answer true limit checks key now).allowed = true) ∧
          ∀ k, answer true limit checks k now = answer true limit (pre ++ more) k now) ∧
      ∀ key,
        answer true limit checks key now =
          answer true limit (checks.filter fun c => c.1 = key) key now ∧
        answer true limit checks key now = answer false limit checks key now := by
  have window : ∀ (key : Key) (within : ℕ → Bool), (∀ t u, within t = true → within u = true →
      t ≤ u → u < t / 10000 * 10000 + 60000) →
        ((allowedTimes true limit key {} checks).countP within : ℕ) < limit + 1 := by
    intro key within stays
    rw [(after_tracks hpos timed).2]
    exact countP_timesOf hpos (fun t u ht hu hle _ => decide_eq_true (stays t u ht hu hle)) timed
      (fun c hc => Finset.le_sup (f := Prod.snd) (List.mem_toFinset.mpr hc)) key
  refine ⟨fun key start => window key _ fun t u ht hu _ => ?_,
    fun key n => window key _ fun t u ht hu _ => ?_, fun now hnow => ⟨?_, fun key => ⟨?_, ?_⟩⟩⟩
  · rw [decide_eq_true_eq] at ht hu
    omega
  · rw [decide_eq_true_eq] at ht hu
    omega
  · rintro pre key t more rfl hrefused
    have hpre : Timed pre := timed.sublist (List.sublist_append_left _ _)
    have hbefore : ∀ c ∈ pre, c.2 ≤ t := by
      simp only [Timed, List.map_append, List.pairwise_append] at timed
      exact fun c hc => timed.2.2 _ (List.mem_map_of_mem hc) t (by simp)
    have hle : t ≤ now := hnow (key, t) (by simp)
    have hmore : (pre ++ more).Sublist (pre ++ (key, t) :: more) :=
      (List.Sublist.refl pre).append (List.sublist_cons_self _ more)
    rw [answer_eq hpos hpre hbefore] at hrefused ⊢
    refine ⟨fun hother hwait => ?_, fun k => ?_⟩
    · have hsame : timesOf limit key (pre ++ (key, t) :: more) = timesOf limit key pre := by
        rw [timesOf_refused hrefused, ← timesOf_filter, List.filter_append,
          List.filter_eq_nil_iff (l := more).mpr (by simpa using hother), List.append_nil,
          timesOf_filter]
      rw [answer_eq hpos timed hnow, hsame]
      exact allowed_of_waited hpos (timesOf_le hbefore key)
        (countP_timesOf hpos (fun _ _ hlive _ _ hle => live_of_le hle hlive) hpre hbefore key)
        hrefused hwait
    · rw [answer_eq hpos timed hnow, timesOf_refused hrefused,
        answer_eq hpos (timed.sublist hmore) fun c hc => hnow c (hmore.subset hc)]
  · rw [answer_eq hpos timed hnow, answer_eq hpos (timed.sublist List.filter_sublist) fun c hc =>
      hnow c (List.mem_of_mem_filter hc), timesOf_filter]
  · rw [answer_eq hpos timed hnow, answer_eq hpos timed hnow]

theorem check_limited_two :
    (((allowedTimes true 1 0 {} [(0, 9999), (0, 20000)]).countP fun t =>
      9999 ≤ t ∧ t ≤ 9999 + 50000 : ℕ) : ℚ) < 1 + 1 :=
  (check_limited one_pos (by simp [Timed])).1 0 9999

/-- Two checks that are allowed one bucket and five in between apart. -/
theorem window_exceeded : ¬ ∀ (limit : ℕ) (checks : List (ℕ × ℕ)), 0 < limit → Timed checks →
    ∀ key start, (allowedTimes true limit key {} checks).countP (fun t =>
      start ≤ t ∧ t < start + 60000) ≤ limit := by
  intro h
  have htwo := h 1 [(0, 9999), (0, 60000)] one_pos (by simp [Timed]) 0 9999
  revert htwo
  decide

end Portuni.RateLimit
