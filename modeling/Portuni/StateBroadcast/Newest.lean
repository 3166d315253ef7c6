import Portuni.StateBroadcast.Turns

/-!
Every window ends on the newest row of the session, as long as no snapshot and no failing check
comes behind the newest broadcast.
-/

namespace Portuni.StateBroadcast

open Library.Runs

variable {U : Type*}

/-- A connection that was open at the last event, or that received a frame about the session, has
the row that was read after `n` events last. -/
def Connection.Settled (conn : Connection U) (n : ℕ) : Prop :=
  conn.openedAt < n ∨ conn.received ≠ [] → conn.received.getLast? = some n

instance (conn : Connection U) (n : ℕ) : Decidable (conn.Settled n) :=
  inferInstanceAs (Decidable (_ → _))

/-- The broadcast still comes to the connection `c`, or was given no row. -/
def Broadcast.owes (b : Broadcast U) (c : ℕ) : Bool :=
  match b.stage with
  | .reading | .fetched _ => true
  | .checking _ next => decide (next ≤ c)
  | .returned => !b.succeeded

/-- The newest broadcast owes the connection `c` its row. -/
def State.owes (s : State U) (c : ℕ) : Bool :=
  s.broadcasts.getLast?.any fun b => b.owes c

def Broadcast.Fresh (b : Broadcast U) (n : ℕ) : Prop :=
  match b.stage with
  | .reading => b.succeeded = false
  | .fetched row => b.succeeded = false ∧ ∀ r ∈ row, r = n
  | .checking row _ => b.succeeded = true ∧ row = n
  | .returned => True

structure Inv (permitted : U → Bool) (s : State U) : Prop where
  kept : Kept s
  fresh : ∀ b ∈ s.broadcasts.getLast?, b.Fresh s.events
  settled : ∀ (c : ℕ) conn, s.conns[c]? = some conn → conn.isOpen = true →
    permitted conn.user = true → s.owes c = true ∨ conn.Settled s.events

section

variable {permitted : U → Bool} {s s' : State U} {i c p row : ℕ} {b b' newest : Broadcast U}
  {r : ℕ} {t : Turns} {conn : Connection U}

theorem inv_init : Inv permitted (init : State U) where
  kept := .inl ⟨rfl, fun b hb => by cases hb⟩
  fresh b hb := by cases hb
  settled c conn hc := by simp [init] at hc

theorem owes_of_last (hlast : s.broadcasts.getLast? = some b) (c : ℕ) : s.owes c = b.owes c := by
  simp [State.owes, hlast]

theorem Inv.congr (hs : Inv permitted s) (hkept : Kept s') (hconns : s'.conns = s.conns)
    (hlast : s'.broadcasts.getLast? = s.broadcasts.getLast?) (hevents : s'.events = s.events) :
    Inv permitted s' := by
  refine ⟨hkept, ?_, ?_⟩
  · rw [hlast, hevents]
    exact hs.fresh
  · rw [hconns, hevents]
    have howes : ∀ c, s'.owes c = s.owes c := by
      intro c
      rw [State.owes, State.owes, hlast]
    simp only [howes]
    exact hs.settled

theorem Inv.ofNewest (hkept : Kept s) (hlast : s.broadcasts.getLast? = some b)
    (hfresh : b.Fresh s.events)
    (hsettled : ∀ (c : ℕ) conn, s.conns[c]? = some conn → conn.isOpen = true →
      permitted conn.user = true → b.owes c = true ∨ conn.Settled s.events) :
    Inv permitted s := by
  refine ⟨hkept, ?_, ?_⟩
  · intro b₁ hb₁
    rw [hlast, Option.mem_some] at hb₁
    subst hb₁
    exact hfresh
  · intro c conn hc hopen hpermitted
    rw [owes_of_last hlast]
    exact hsettled c conn hc hopen hpermitted

theorem Inv.ofConns (hs : Inv permitted s) (hturns : s'.turns = s.turns)
    (hrecords : s'.records = s.records) (hbroadcasts : s'.broadcasts = s.broadcasts)
    (hsettled : ∀ (c : ℕ) conn, s'.conns[c]? = some conn → conn.isOpen = true →
      permitted conn.user = true → s.owes c = true ∨ conn.Settled s.events) :
    Inv permitted s' := by
  have hevents : s'.events = s.events := congrArg List.length hbroadcasts
  have howes : ∀ c, s'.owes c = s.owes c := by
    intro c
    rw [State.owes, State.owes, hbroadcasts]
  refine ⟨hs.kept.congr hturns hrecords hbroadcasts, ?_, ?_⟩
  · rw [hbroadcasts, hevents]
    exact hs.fresh
  · simp only [howes, hevents]
    exact hsettled

theorem conns_finish (s : State U) (i : ℕ) (b : Broadcast U) : (s.finish i b).conns = s.conns := by
  unfold State.finish
  dsimp only
  split <;> rfl

theorem broadcasts_finish (s : State U) (i : ℕ) (b : Broadcast U) :
    (s.finish i b).broadcasts = s.broadcasts.set i b.ended := by
  unfold State.finish
  dsimp only
  split <;> rfl

theorem events_finish (s : State U) (i : ℕ) (b : Broadcast U) :
    (s.finish i b).events = s.events := by
  simp [State.events, broadcasts_finish]

theorem getLast?_finish (hb : s.broadcasts[i]? = some b') (b : Broadcast U) :
    (s.finish i b).broadcasts.getLast? =
      if i + 1 = s.events then some b.ended else s.broadcasts.getLast? := by
  rw [broadcasts_finish]
  exact getLast?_set _ (lt_events hb) _

theorem conns_proceed (s : State U) (i : ℕ) (b : Broadcast U) (row p : ℕ) :
    (s.proceed i b row p).conns = s.conns := by
  unfold State.proceed
  split
  · rfl
  · exact conns_finish s i b

theorem events_proceed (s : State U) (i : ℕ) (b : Broadcast U) (row p : ℕ) :
    (s.proceed i b row p).events = s.events := by
  unfold State.proceed
  split
  · exact events_setBroadcast s i _
  · exact events_finish s i b

theorem proceed_setBroadcast (s : State U) (i : ℕ) (b b' : Broadcast U) (row p : ℕ) :
    (s.setBroadcast i b').proceed i b row p = s.proceed i b row p := by
  have hset : ∀ b₁, (s.setBroadcast i b').setBroadcast i b₁ = s.setBroadcast i b₁ := by
    simp [State.setBroadcast]
  have hnext : (s.setBroadcast i b').nextOpen p = s.nextOpen p := rfl
  unfold State.proceed
  rw [hnext]
  split
  · rw [hset]
  · exact finish_setBroadcast s i b b'

theorem kept_proceed (hs : Held s r t newest) (hb : s.broadcasts[i]? = some b)
    (hunderway : b.isUnderway = true)
    (hclaimed : i + 1 = s.events → b.succeeded = true → t.claimed = t.issued) (row p : ℕ) :
    Kept (s.proceed i b row p) := by
  unfold State.proceed
  split
  · exact .inr ⟨r, t, hs.set hb hunderway _ rfl rfl rfl hclaimed⟩
  · exact .finish hs hb hunderway

theorem getLast?_proceed (hb : s.broadcasts[i]? = some b') (hi : i + 1 ≠ s.events)
    (b : Broadcast U) (row p : ℕ) :
    (s.proceed i b row p).broadcasts.getLast? = s.broadcasts.getLast? := by
  unfold State.proceed
  split
  · rw [getLast?_setBroadcast hb, if_neg hi]
  · rw [getLast?_finish hb, if_neg hi]

theorem inv_proceed (permitted : U → Bool) (hs : Held s r t newest) (hb : s.broadcasts[i]? = some b)
    (hunderway : b.isUnderway = true) (hi : i + 1 = s.events) (hsucceeded : b.succeeded = true)
    (hclaimed : t.claimed = t.issued)
    (hbehind : ∀ (c : ℕ) conn, s.conns[c]? = some conn → conn.isOpen = true →
      permitted conn.user = true → c < p → conn.Settled s.events) :
    Inv permitted (s.proceed i b s.events p) := by
  have hkept := kept_proceed hs hb hunderway (fun _ _ => hclaimed) s.events p
  have hconns := conns_proceed s i b s.events p
  have hevents := events_proceed s i b s.events p
  cases hnext : s.nextOpen p with
  | some c =>
    have hproceed : s.proceed i b s.events p =
        s.setBroadcast i { b with stage := .checking s.events c } := by
      simp [State.proceed, hnext]
    obtain ⟨-, hskipped⟩ := nextOpen_eq_some hnext
    have hlast := getLast?_setBroadcast hb { b with stage := .checking s.events c }
    rw [if_pos hi, ← hproceed] at hlast
    refine .ofNewest hkept hlast ?_ fun d conn hd hopen hpermitted => ?_
    · rw [hevents]
      exact ⟨hsucceeded, rfl⟩
    · rw [hconns] at hd
      rw [hevents]
      rcases Nat.lt_or_ge d p with hdp | hdp
      · exact .inr (hbehind d conn hd hopen hpermitted hdp)
      · rcases Nat.lt_or_ge d c with hdc | hcd
        · rw [hskipped d conn hdp hdc hd] at hopen
          cases hopen
        · exact .inl (decide_eq_true hcd)
  | none =>
    have hproceed : s.proceed i b s.events p = s.finish i b := by
      simp [State.proceed, hnext]
    have hlast := getLast?_finish hb b
    rw [if_pos hi, ← hproceed] at hlast
    refine .ofNewest hkept hlast trivial fun d conn hd hopen hpermitted => ?_
    rw [hconns] at hd
    rw [hevents]
    rcases Nat.lt_or_ge d p with hdp | hdp
    · exact .inr (hbehind d conn hd hopen hpermitted hdp)
    · rw [nextOpen_eq_none hnext hdp hd] at hopen
      cases hopen

theorem inv_finish (hs : Inv permitted s) (hb : s.broadcasts[i]? = some b)
    (hunderway : b.isUnderway = true)
    (hsettled : i + 1 = s.events → b.succeeded = true → ∀ (c : ℕ) conn, s.conns[c]? = some conn →
      conn.isOpen = true → permitted conn.user = true → conn.Settled s.events) :
    Inv permitted (s.finish i b) := by
  obtain ⟨r, t, newest, hheld⟩ := hs.kept.held hb hunderway
  have hkept := Kept.finish hheld hb hunderway
  have hlast := getLast?_finish hb b
  by_cases hi : i + 1 = s.events
  · rw [if_pos hi] at hlast
    refine .ofNewest hkept hlast trivial fun c conn hc hopen hpermitted => ?_
    rw [conns_finish] at hc
    rw [events_finish]
    cases hsucceeded : b.succeeded with
    | false => exact .inl (by simp [Broadcast.owes, Broadcast.ended, hsucceeded])
    | true => exact .inr (hsettled hi hsucceeded c conn hc hopen hpermitted)
  · rw [if_neg hi] at hlast
    exact hs.congr hkept (conns_finish s i b) hlast (events_finish s i b)

theorem newest_fresh (hs : Inv permitted s) (hb : s.broadcasts[i]? = some b)
    (hi : i + 1 = s.events) : b.Fresh s.events :=
  hs.fresh b (getLast?_of_newest hb hi)

theorem getElem?_send (s : State U) (c row d : ℕ) :
    (s.send c row).conns[d]? = (s.conns[d]?).map fun conn =>
      if d = c ∧ conn.isOpen = true then { conn with received := conn.received ++ [row] }
      else conn := by
  rw [State.send, List.getElem?_modify]
  cases s.conns[d]? with
  | none => rfl
  | some conn =>
    by_cases heq : c = d
    · simp [heq]
    · simp [heq, Ne.symm heq]

theorem settled_send {n : ℕ} (hconn : (s.send c row).conns[p]? = some conn)
    (hsame : ∀ conn₀, s.conns[p]? = some conn₀ → conn₀.isOpen = conn.isOpen →
      conn₀.user = conn.user → p ≠ c → conn₀.Settled n)
    (hopen : conn.isOpen = true) (hrow : p = c → row = n) : conn.Settled n := by
  rw [getElem?_send] at hconn
  obtain ⟨conn₀, hconn₀, rfl⟩ := Option.map_eq_some_iff.mp hconn
  by_cases heq : p = c
  · by_cases hopen₀ : conn₀.isOpen = true
    · rw [if_pos ⟨heq, hopen₀⟩]
      intro _
      simp [hrow heq]
    · rw [if_neg fun h => hopen₀ h.2] at hopen
      exact absurd hopen hopen₀
  · rw [if_neg fun h => heq h.1] at hsame ⊢
    exact hsame conn₀ hconn₀ rfl rfl heq

variable (hs : Inv permitted s)

include hs

theorem Inv.issue : Inv permitted s.issue := by
  have hlast : ∃ r mine, s.issue.broadcasts.getLast? = some { record := r, mine := mine } := by
    simp [State.issue]
  obtain ⟨r, mine, hlast⟩ := hlast
  exact .ofNewest hs.kept.issue hlast rfl fun c conn _ _ _ => .inl rfl

theorem Inv.resume (hb : s.broadcasts[i]? = some b) {row : Option ℕ}
    (hstage : b.stage = .fetched row) : Inv permitted (s.resume i b row) := by
  have hunderway : b.isUnderway = true := by simp [Broadcast.isUnderway, hstage]
  have hfirst : i + 1 = s.events → b.succeeded = false := by
    intro hi
    have hfresh := newest_fresh hs hb hi
    rw [Broadcast.Fresh, hstage] at hfresh
    exact hfresh.1
  obtain ⟨r, t, newest, hheld⟩ := hs.kept.held hb hunderway
  unfold State.resume
  cases row with
  | none =>
    refine inv_finish hs hb hunderway fun hi hsucceeded => ?_
    rw [hfirst hi] at hsucceeded
    cases hsucceeded
  | some row =>
    dsimp only
    have hclaimedEq : s.claimed { b with succeeded := true } = s.claimed b := rfl
    rw [hclaimedEq]
    split
    · next hlate =>
      -- The newest has the last number: only an older one comes too late.
      have hi : i + 1 ≠ s.events := by
        intro hi
        have hmine := hheld.mine
        have hle := hheld.claimed_le
        rw [hheld.newest_eq hb hi] at hmine
        rw [hheld.claimed_eq hb hunderway] at hlate
        omega
      obtain ⟨newest', hset⟩ := hheld.set hb hunderway { b with succeeded := true } hunderway
        rfl rfl fun h => absurd h hi
      have hget := getElem?_setBroadcast hb { b with succeeded := true } i
      rw [if_pos rfl] at hget
      have hkept := Kept.finish hset hget hunderway
      rw [finish_setBroadcast] at hkept
      refine hs.congr hkept (conns_finish _ _ _) ?_ (events_finish _ _ _)
      rw [getLast?_finish hb, if_neg hi]
    · next hclaims =>
      have hclaim := hheld.claim hb hunderway hclaims hfirst
      have hmine : i + 1 = s.events → b.mine = t.issued := by
        intro hi
        rw [← hheld.newest_eq hb hi]
        exact hheld.mine
      obtain ⟨newest', hset⟩ := hclaim.set hb hunderway { b with succeeded := true } hunderway
        rfl rfl fun hi _ => hmine hi
      have hb₁ : (s.claim b).broadcasts[i]? = some b := hb
      have hget := getElem?_setBroadcast hb₁ { b with succeeded := true } i
      rw [if_pos rfl] at hget
      by_cases hi : i + 1 = s.events
      · have hfresh := newest_fresh hs hb hi
        rw [Broadcast.Fresh, hstage] at hfresh
        obtain rfl := hfresh.2 row rfl
        have hinv := inv_proceed permitted (p := 0) hset hget hunderway
          (by rw [events_setBroadcast]; exact hi) rfl (hmine hi)
          fun c conn _ _ _ h => absurd h (Nat.not_lt_zero c)
        rw [events_setBroadcast, proceed_setBroadcast] at hinv
        exact hinv
      · have hkept := kept_proceed hset hget hunderway (fun h => by
          rw [events_setBroadcast] at h
          exact absurd h hi) row 0
        rw [proceed_setBroadcast] at hkept
        exact hs.congr hkept (conns_proceed _ _ _ _ _) (getLast?_proceed hb₁ hi _ _ _)
          (events_proceed _ _ _ _ _)

theorem Inv.owes (hlast : s.broadcasts.getLast? = some newest) (hnone : newest.succeeded = false)
    (c : ℕ) : s.owes c = true := by
  have hfresh := hs.fresh newest hlast
  rw [owes_of_last hlast]
  unfold Broadcast.owes
  unfold Broadcast.Fresh at hfresh
  cases hstage : newest.stage with
  | reading => rfl
  | fetched row => rfl
  | checking row next =>
    rw [hstage] at hfresh
    rw [hfresh.1] at hnone
    cases hnone
  | returned => simp [hnone]

theorem Inv.checked (hb : s.broadcasts[i]? = some b) (hstage : b.stage = .checking row c)
    (hconn : s.conns[c]? = some conn) :
    Inv permitted (s.checked permitted i b row c conn.user) := by
  have hunderway : b.isUnderway = true := by simp [Broadcast.isUnderway, hstage]
  obtain ⟨r, t, newest, hheld⟩ := hs.kept.held hb hunderway
  have hnewest : i + 1 = s.events → b.succeeded = true ∧ row = s.events ∧ t.claimed = t.issued ∧
      b.mine = t.issued := by
    intro hi
    have hfresh := newest_fresh hs hb hi
    rw [Broadcast.Fresh, hstage] at hfresh
    have hsame := hheld.newest_eq hb hi
    exact ⟨hfresh.1, hfresh.2, hheld.claimed (hsame ▸ hfresh.1), hsame ▸ hheld.mine⟩
  unfold State.checked
  dsimp only
  have hclaimedEq : s.claimed { b with verdicts := b.verdicts ++ [conn.user] } = s.claimed b := rfl
  rw [hclaimedEq, hheld.claimed_eq hb hunderway]
  split
  · next hlate =>
    have hi : i + 1 ≠ s.events := by
      intro hi
      obtain ⟨-, -, hclaimed, hmine⟩ := hnewest hi
      exact hlate (hclaimed.trans hmine.symm)
    obtain ⟨newest', hset⟩ := hheld.set hb hunderway
      { b with verdicts := b.verdicts ++ [conn.user] } hunderway rfl rfl fun h => absurd h hi
    have hget := getElem?_setBroadcast hb { b with verdicts := b.verdicts ++ [conn.user] } i
    rw [if_pos rfl] at hget
    have hkept := Kept.finish hset hget hunderway
    rw [finish_setBroadcast] at hkept
    refine hs.congr hkept (conns_finish _ _ _) ?_ (events_finish _ _ _)
    rw [getLast?_finish hb, if_neg hi]
  · next hnow =>
    have hturn : t.claimed = b.mine := not_not.mp hnow
    generalize hs₁ : (if permitted conn.user = true then s.send c row else s) = s₁
    have hbroadcasts : s₁.broadcasts = s.broadcasts := by
      rw [← hs₁]
      split <;> rfl
    have hrecords : s₁.records = s.records := by
      rw [← hs₁]
      split <;> rfl
    have hturns : s₁.turns = s.turns := by
      rw [← hs₁]
      split <;> rfl
    have hevents : s₁.events = s.events := congrArg List.length hbroadcasts
    have hb₁ : s₁.broadcasts[i]? = some b := by rw [hbroadcasts, hb]
    have hheld₁ := hheld.congr hturns hrecords hbroadcasts
    -- What the frame does to the connections: the one it goes to has its row.
    have hsent : ∀ (d : ℕ) conn', s₁.conns[d]? = some conn' → conn'.isOpen = true →
        permitted conn'.user = true → row = s.events → (d ≠ c → s.owes d = false) →
        conn'.Settled s.events := by
      intro d conn' hd hopen hpermitted hrow hbehind
      rw [← hs₁] at hd
      split at hd
      · refine settled_send hd (fun conn₀ hd₀ hopen₀ huser hne => ?_) hopen fun _ => hrow
        refine (hs.settled d conn₀ hd₀ (hopen₀.trans hopen) (huser ▸ hpermitted)).resolve_left ?_
        rw [hbehind hne]
        exact Bool.false_ne_true
      · next hdenied =>
        refine (hs.settled d conn' hd hopen hpermitted).resolve_left ?_
        rw [hbehind ?_]
        · exact Bool.false_ne_true
        · rintro rfl
          rw [hconn] at hd
          cases hd
          exact hdenied hpermitted
    obtain ⟨newest', hset⟩ := hheld₁.set hb₁ hunderway
      { b with verdicts := b.verdicts ++ [conn.user] } hunderway rfl rfl fun hi _ =>
        (hnewest (hevents ▸ hi)).2.2.1
    have hget := getElem?_setBroadcast hb₁ { b with verdicts := b.verdicts ++ [conn.user] } i
    rw [if_pos rfl] at hget
    by_cases hi : i + 1 = s.events
    · obtain ⟨hsucceeded, hrow, hclaimed, -⟩ := hnewest hi
      have hlast := getLast?_of_newest hb hi
      have hinv := inv_proceed permitted (p := c + 1) hset hget hunderway
        (by rw [events_setBroadcast, hevents]; exact hi) hsucceeded hclaimed
        fun d conn' hd hopen hpermitted hlt => by
          rw [events_setBroadcast, hevents]
          refine hsent d conn' hd hopen hpermitted hrow fun hne => ?_
          rw [owes_of_last hlast, Broadcast.owes, hstage]
          exact decide_eq_false (by omega)
      rw [events_setBroadcast, proceed_setBroadcast, hevents, ← hrow] at hinv
      exact hinv
    · have hnone : newest.succeeded = false := by
        refine hheld.not_succeeded hb hunderway hi ?_
        rw [hheld.claimed_eq hb hunderway, hturn]
        exact Nat.lt_irrefl _
      have howes := hs.owes hheld.last hnone
      have hinv₁ : Inv permitted s₁ :=
        hs.ofConns hturns hrecords hbroadcasts fun d _ _ _ _ => .inl (howes d)
      have hi₁ : i + 1 ≠ s₁.events := by rwa [hevents]
      have hkept := kept_proceed hset hget hunderway (fun h => by
        rw [events_setBroadcast] at h
        exact absurd h hi₁) row (c + 1)
      rw [proceed_setBroadcast] at hkept
      exact hinv₁.congr hkept (conns_proceed _ _ _ _ _) (getLast?_proceed hb₁ hi₁ _ _ _)
        (events_proceed _ _ _ _ _)

theorem Inv.setSnapshot (hc : s.conns[c]? = some conn) (snapshot : Snapshot) :
    Inv permitted { s with conns := s.conns.set c { conn with snapshot := snapshot } } := by
  refine hs.ofConns rfl rfl rfl fun d conn' hd hopen hpermitted => ?_
  rw [List.getElem?_set] at hd
  split at hd
  · next heq =>
    subst heq
    split at hd
    · cases hd
      exact hs.settled c conn hc hopen hpermitted
    · cases hd
  · exact hs.settled d conn' hd hopen hpermitted

theorem Inv.sendSnapshot (hc : s.conns[c]? = some conn)
    (hrow : conn.isOpen = true → permitted conn.user = true → row = s.events ∨ s.owes c = true) :
    Inv permitted (s.send c row) := by
  refine hs.ofConns rfl rfl rfl fun d conn' hd hopen hpermitted => ?_
  by_cases hdc : d = c
  · subst hdc
    have hconn := hd
    rw [getElem?_send, hc, Option.map_some, Option.some.injEq] at hconn
    have huser : conn.user = conn'.user := by
      rw [← hconn]
      split <;> rfl
    have hopen' : conn.isOpen = true := by
      rw [← hconn] at hopen
      revert hopen
      split <;> exact id
    rcases hrow hopen' (huser ▸ hpermitted) with hrow | howes
    · exact .inr (settled_send hd (fun _ _ _ _ hne => absurd rfl hne) hopen fun _ => hrow)
    · exact .inl howes
  · cases howes : s.owes d with
    | true => exact .inl rfl
    | false =>
      refine .inr (settled_send hd (fun conn₀ hd₀ hopen₀ huser _ => ?_) hopen fun h =>
        absurd h hdc)
      refine (hs.settled d conn₀ hd₀ (hopen₀.trans hopen) (huser ▸ hpermitted)).resolve_left ?_
      rw [howes]
      exact Bool.false_ne_true

theorem Inv.setStage (hb : s.broadcasts[i]? = some b) (hstage : b.stage = .reading) {row : Option ℕ}
    (hrow : ∀ r ∈ row, r = s.events) :
    Inv permitted (s.setBroadcast i { b with stage := .fetched row }) := by
  have hunderway : b.isUnderway = true := by simp [Broadcast.isUnderway, hstage]
  have hfirst : i + 1 = s.events → b.succeeded = false := by
    intro hi
    have hfresh := newest_fresh hs hb hi
    rw [Broadcast.Fresh, hstage] at hfresh
    exact hfresh
  obtain ⟨r, t, newest, hheld⟩ := hs.kept.held hb hunderway
  have hkept : Kept (s.setBroadcast i { b with stage := .fetched row }) :=
    .inr ⟨r, t, hheld.set hb hunderway _ rfl rfl rfl fun hi hsucceeded => by
      rw [show b.succeeded = true from hsucceeded] at hfirst
      cases hfirst hi⟩
  have hlast := getLast?_setBroadcast hb { b with stage := .fetched row }
  have hevents := events_setBroadcast s i { b with stage := .fetched row }
  by_cases hi : i + 1 = s.events
  · rw [if_pos hi] at hlast
    refine .ofNewest hkept hlast ?_ fun _ _ _ _ _ => .inl rfl
    rw [hevents]
    exact ⟨hfirst hi, hrow⟩
  · rw [if_neg hi] at hlast
    exact hs.congr hkept rfl hlast hevents

end

variable [DecidableEq U] {permitted : U → Bool} {s s' : State U}

def Snapshot.row : Snapshot → Option ℕ
  | .fetched row => row
  | _ => none

/-- A snapshot brings a row to an open, permitted connection only if it was read after the last
event, or the newest broadcast is still to come; and a check of the newest broadcast throws only
when every such connection has the newest row. -/
def InTime (permitted : U → Bool) (s : State U) : Action U → Prop
  | .sendSnapshot c => ∀ conn ∈ s.conns[c]?, conn.isOpen = true → permitted conn.user = true →
      ∀ row ∈ conn.snapshot.row, row = s.events ∨ s.owes c = true
  | .failCheck i => i + 1 = s.events → ∀ conn ∈ s.conns, conn.isOpen = true →
      permitted conn.user = true → conn.Settled s.events
  | _ => True

instance (s : State U) : (a : Action U) → Decidable (InTime permitted s a)
  | .sendSnapshot c => inferInstanceAs (Decidable (∀ conn ∈ s.conns[c]?, conn.isOpen = true →
      permitted conn.user = true → ∀ row ∈ conn.snapshot.row, row = s.events ∨ s.owes c = true))
  | .failCheck i => inferInstanceAs (Decidable (i + 1 = s.events → ∀ conn ∈ s.conns,
      conn.isOpen = true → permitted conn.user = true → conn.Settled s.events))
  | .event | .connect _ | .disconnect _ | .readSnapshot _ _ | .failSnapshot _ | .read _ _
  | .failRead _ | .resume _ | .check _ => inferInstanceAs (Decidable True)

theorem inv_step {a : Action U} (hs : Inv permitted s) (hallowed : InTime permitted s a)
    (hstep : step permitted s a = some s') : Inv permitted s' := by
  cases a with
  | event =>
    cases hstep
    exact hs.issue
  | connect user =>
    cases hstep
    refine hs.ofConns rfl rfl rfl fun d conn hd hopen hpermitted => ?_
    rw [getElem?_concat] at hd
    split at hd
    · cases hd
      right
      rintro (hlt | hreceived)
      · exact absurd hlt (Nat.lt_irrefl _)
      · exact absurd rfl hreceived
    · exact hs.settled d conn hd hopen hpermitted
  | disconnect c =>
    cases hstep
    refine hs.ofConns rfl rfl rfl fun d conn hd hopen hpermitted => ?_
    rw [List.getElem?_modify] at hd
    obtain ⟨conn₀, hd₀, hconn⟩ := Option.map_eq_some_iff.mp hd
    split at hconn
    · rw [← hconn] at hopen
      cases hopen
    · subst hconn
      exact hs.settled d conn₀ hd₀ hopen hpermitted
  | readSnapshot c listed =>
    simp only [step] at hstep
    split at hstep
    · cases hstep
    next conn hc =>
    split at hstep
    · cases hstep
      exact hs.setSnapshot hc _
    · cases hstep
  | failSnapshot c =>
    simp only [step] at hstep
    split at hstep
    · cases hstep
    next conn hc =>
    split at hstep
    · cases hstep
    · cases hstep
      exact hs.setSnapshot hc _
  | sendSnapshot c =>
    simp only [step] at hstep
    split at hstep
    · cases hstep
    next conn hc =>
    split at hstep
    · next row hsnapshot =>
      have hset := hs.setSnapshot hc .finished
      split at hstep
      · cases hstep
        exact hset
      · next row =>
        cases hstep
        have hlt : c < s.conns.length := (List.getElem?_eq_some_iff.mp hc).1
        have hget : (s.conns.set c { conn with snapshot := .finished })[c]? =
            some { conn with snapshot := .finished } := by
          simp [hlt]
        exact hset.sendSnapshot hget fun hopen hpermitted =>
          hallowed conn hc hopen hpermitted row (by rw [hsnapshot]; rfl)
    · cases hstep
  | read i found =>
    simp only [step] at hstep
    split at hstep
    · cases hstep
    next b hb =>
    split at hstep
    · next hstage =>
      cases hstep
      refine hs.setStage hb hstage fun r hr => ?_
      split at hr
      · exact (Option.some.inj hr).symm
      · cases hr
    · cases hstep
  | failRead i =>
    simp only [step] at hstep
    split at hstep
    · cases hstep
    next b hb =>
    split at hstep
    · next hstage =>
      cases hstep
      refine inv_finish hs hb (by simp [Broadcast.isUnderway, hstage]) fun hi hsucceeded => ?_
      have hfresh := newest_fresh hs hb hi
      rw [Broadcast.Fresh, hstage] at hfresh
      dsimp only at hfresh
      rw [hfresh] at hsucceeded
      cases hsucceeded
    · cases hstep
  | resume i =>
    simp only [step] at hstep
    split at hstep
    · cases hstep
    next b hb =>
    split at hstep
    · next row hstage =>
      cases hstep
      exact hs.resume hb hstage
    · cases hstep
  | check i =>
    simp only [step] at hstep
    split at hstep
    · cases hstep
    next b hb =>
    split at hstep
    · next row c hstage =>
      obtain ⟨conn, hconn, rfl⟩ := Option.map_eq_some_iff.mp hstep
      exact hs.checked hb hstage hconn
    · cases hstep
  | failCheck i =>
    simp only [step] at hstep
    split at hstep
    · cases hstep
    next b hb =>
    split at hstep
    · next row c hstage =>
      split at hstep
      · cases hstep
      split at hstep
      · cases hstep
      · cases hstep
        exact inv_finish hs hb (by simp [Broadcast.isUnderway, hstage]) fun hi _ d conn hd =>
          hallowed hi conn (List.mem_of_getElem? hd)
    · cases hstep

/-- Every window ends on the newest row: with nothing under way and a row from the read that the
last event started, an open, permitted connection that was open at that event, or that received
any frame about the session, has a row last that was read after the event. -/
theorem windows_end_on_newest {acts : List (Action U)}
    (run : Run (step permitted) (InTime permitted) init acts s) (hquiet : s.Quiescent)
    (hread : s.LastReadSucceeded) {conn : Connection U} (hconn : conn ∈ s.conns)
    (hopen : conn.isOpen = true) (hpermitted : permitted conn.user = true)
    (hserved : conn.openedAt < s.events ∨ conn.received ≠ []) :
    conn.received.getLast? = some s.events := by
  have hinv := run.inv (Inv permitted) inv_init fun _ _ _ hs hallowed hstep =>
    inv_step hs hallowed hstep
  obtain ⟨c, hc⟩ := List.mem_iff_getElem?.mp hconn
  refine (hinv.settled c conn hc hopen hpermitted).resolve_left ?_ hserved
  cases hlast : s.broadcasts.getLast? with
  | none => simp [State.owes, hlast]
  | some newest =>
    rw [owes_of_last hlast, Broadcast.owes, hquiet.1 newest (List.mem_of_getLast? hlast)]
    simp [hread newest hlast]

/-- Two events whose reads come back the other way round, on the connection of a window. -/
theorem windows_end_on_newest_overtaken : (exec (step fun _ => true) (init : State ℕ)
      [.connect 0, .readSnapshot 0 true, .sendSnapshot 0, .event, .event, .read 0 true,
        .read 1 true, .resume 1, .check 1, .resume 0]).any
      (fun s => decide ((s.conns.map fun conn => conn.received.getLast?) = [some 2])) = true := by
  obtain ⟨s, hs, hchecks⟩ := (Option.any_eq_true _ _).mp (show (exec (step fun _ => true) (init : State ℕ)
      [.connect 0, .readSnapshot 0 true, .sendSnapshot 0, .event, .event, .read 0 true,
        .read 1 true, .resume 1, .check 1, .resume 0]).any
      (fun s => decide (((∀ b ∈ s.broadcasts, b.stage = .returned) ∧
        ∀ conn ∈ s.conns, conn.isOpen = true → conn.snapshot = .finished) ∧
        (∀ b ∈ s.broadcasts.getLast?, b.succeeded = true) ∧ s.events = 2 ∧
        ∃ conn ∈ s.conns, s.conns = [conn] ∧ conn.isOpen = true ∧ conn.openedAt < 2)) = true by decide)
  rw [decide_eq_true_eq] at hchecks
  obtain ⟨hquiet, hread, hevents, conn, hconn, hconns, hopen, hlt⟩ := hchecks
  have hlast := windows_end_on_newest (Run.of_exec hs (by decide)) hquiet hread hconn hopen rfl
    (.inl (hevents ▸ hlt))
  rw [hs, Option.any_some, decide_eq_true_eq, hconns, List.map_singleton, hlast, hevents]

/-- A snapshot that was read before the event and is sent behind the broadcast of it. -/
theorem late_snapshot_leaves_older_row :
    ¬∀ (permitted : ℕ → Bool) (acts : List (Action ℕ)) (s : State ℕ),
      Run (step permitted) (fun _ _ => True) init acts s → s.Quiescent → s.LastReadSucceeded →
      ∀ conn ∈ s.conns, conn.isOpen = true → permitted conn.user = true →
        ∀ row ∈ conn.received.getLast?, row = s.events := by
  intro h
  obtain ⟨s, hs, hwrong⟩ := (Option.any_eq_true _ _).mp (show (exec (step fun _ => true) (init : State ℕ)
      [.connect 0, .readSnapshot 0 true, .event, .read 0 true, .resume 0, .check 0,
        .sendSnapshot 0]).any
      (fun s => decide (((∀ b ∈ s.broadcasts, b.stage = .returned) ∧
        ∀ conn ∈ s.conns, conn.isOpen = true → conn.snapshot = .finished) ∧
        (∀ b ∈ s.broadcasts.getLast?, b.succeeded = true) ∧ s.events = 1 ∧
        ∃ conn ∈ s.conns, conn.isOpen = true ∧ conn.received = [1, 0])) = true by decide)
  rw [decide_eq_true_eq] at hwrong
  obtain ⟨hquiet, hread, hevents, conn, hconn, hopen, hreceived⟩ := hwrong
  have hnewest := h _ _ s (Run.of_exec_eq_some hs) hquiet hread conn hconn hopen rfl 0
    (by simp [hreceived])
  rw [hevents] at hnewest
  cases hnewest

end Portuni.StateBroadcast
