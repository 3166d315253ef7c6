import Portuni.Desktop.SidecarInvariant

/-!
One sidecar per workspace: every step of a thread, a child or a reader keeps the invariant
while the spawns of a workspace do not overlap and its children end by the host's hand.
-/

namespace Portuni.Desktop.Sidecars

open Function (update)
open Library.Runs

namespace Sound

variable {s : HostState}

theorem sidecars_killChild (wsId w : String) :
    (s.killChild wsId).sidecars w = if w = wsId then none else s.sidecars w := by
  unfold HostState.killChild
  cases hc : s.sidecars wsId with
  | none =>
    by_cases hw : w = wsId
    · simp [hw, hc]
    · simp [hw]
  | some c => exact Function.update_apply _ _ _ _

theorem children_killChild (wsId : String) (c : ℕ) :
    (s.killChild wsId).children c = (s.children c).map fun child =>
      if s.sidecars wsId = some c then { child with killed := true } else child := by
  unfold HostState.killChild
  cases hc : s.sidecars wsId with
  | none => simp
  | some d =>
    by_cases hd : c = d
    · subst hd
      simp
    · have hd' : ¬ d = c := fun heq => hd heq.symm
      simp [hd, hd']

variable {wsId : String}

theorem child_killChild {c : ℕ} (hc : s.sidecars wsId ≠ some c) :
    (s.killChild wsId).children c = s.children c := by
  rw [children_killChild]
  simp [hc]

theorem killChild_rest (wsId : String) :
    (s.killChild wsId).threads = s.threads ∧ (s.killChild wsId).nextThread = s.nextThread ∧
      (s.killChild wsId).nextChild = s.nextChild ∧ (s.killChild wsId).authTokens = s.authTokens ∧
      (s.killChild wsId).proxySecrets = s.proxySecrets ∧
      (s.killChild wsId).backendPorts = s.backendPorts ∧
      (s.killChild wsId).turnedAway = s.turnedAway ∧ (s.killChild wsId).exits = s.exits := by
  unfold HostState.killChild
  split
  · exact ⟨rfl, rfl, rfl, rfl, rfl, rfl, rfl, rfl⟩
  · exact ⟨rfl, rfl, rfl, rfl, rfl, rfl, rfl, rfl⟩

variable {j : ℕ}

variable (h : Sound s)

include h

theorem kill {rotating : Bool} {next : AfterKill}
    (hj : s.threads j = some (wsId, .kill rotating next))
    (hok : s.clear wsId (.kill rotating next) = true) :
    Sound ((s.killChild wsId).goto j wsId (.dropPort next)) := by
  obtain ⟨hthreads, hnext, hnextChild, htokens, hsecrets, hports, hturned, hexits⟩ :=
    killChild_rest (s := s) wsId
  have hj' : (s.killChild wsId).threads j = some (wsId, .kill rotating next) := hthreads ▸ hj
  have keep : ∀ {j' w phase}, s.threads j' = some (w, phase) →
      (wsId, Phase.kill rotating next) ≠ (w, phase) →
      ((s.killChild wsId).goto j wsId (.dropPort next)).threads j' = some (w, phase) :=
    fun hj₂ hne => goto_of_ne hj' (hthreads ▸ hj₂) hne
  have other : ∀ {w c}, w ≠ wsId → s.sidecars w = some c → s.sidecars wsId ≠ some c := by
    intro w c hw hc hc'
    obtain ⟨child, hchild, rfl, -, -⟩ := h.held w c hc
    obtain ⟨child', hchild', hws, -, -⟩ := h.held wsId c hc'
    rw [hchild] at hchild'
    exact hw (Option.some.inj hchild' ▸ hws)
  have token : ∀ w t, (w = wsId → rotating = false) → s.Token w t →
      ((s.killChild wsId).goto j wsId (.dropPort next)).Token w t := by
    intro w t hw ht
    refine ht.imp (fun ht => htokens ▸ ht) ?_
    rintro ⟨j', next', hj₂⟩
    refine ⟨j', next', keep hj₂ ?_⟩
    rintro ⟨⟩
    cases hw rfl
  have calm : rotating = true → ∀ j' phase, s.threads j' = some (wsId, phase) →
      phase.starting = false := by
    rintro rfl j' phase hj₂
    refine Bool.eq_false_iff.mpr fun hs => ?_
    rw [HostState.clear, h.anyThread_of hj₂ hs] at hok
    cases hok
  have quiet : ∀ {j' w phase}, s.threads j' = some (w, phase) → phase.starting = true →
      w = wsId → rotating = false := by
    rintro j' w phase hj₂ hs rfl
    refine Bool.eq_false_iff.mpr fun hrot => ?_
    rw [calm hrot j' phase hj₂] at hs
    cases hs
  exact
    { threadBound := by
        intro j' t hj₂
        rcases threads_goto hj₂ with ⟨rfl, -, -⟩ | ⟨-, hold⟩
        · exact hnext ▸ h.threadBound j' _ hj
        · exact hnext ▸ h.threadBound j' _ (hthreads ▸ hold)
      childBound := by
        intro c child hc
        have hc' : (s.killChild wsId).children c = some child := hc
        rw [children_killChild] at hc'
        obtain ⟨child', hchild', -⟩ := Option.map_eq_some_iff.mp hc'
        exact hnextChild ▸ h.childBound c child' hchild'
      held := by
        intro w c hc
        have hc' : (s.killChild wsId).sidecars w = some c := hc
        rw [sidecars_killChild] at hc'
        split at hc'
        · cases hc'
        · rename_i hw
          obtain ⟨child, hchild, hrest⟩ := h.held w c hc'
          exact ⟨child, (child_killChild (other hw hc')).trans hchild, hrest⟩
      unkilled := by
        intro c child hc hk
        have hc' : (s.killChild wsId).children c = some child := hc
        have hfree : s.sidecars wsId ≠ some c := by
          intro hheld
          rw [children_killChild] at hc'
          obtain ⟨child', -, rfl⟩ := Option.map_eq_some_iff.mp hc'
          simp [hheld] at hk
        rw [child_killChild hfree] at hc'
        rcases h.unkilled c child hc' hk with hheld | ⟨j', t, sec, hj₂⟩
        · refine Or.inl ?_
          show (s.killChild wsId).sidecars child.wsId = some c
          have hw : child.wsId ≠ wsId := fun hw => hfree (hw ▸ hheld)
          rw [sidecars_killChild, if_neg hw]
          exact hheld
        · exact Or.inr ⟨j', t, sec, keep hj₂ (by rintro ⟨⟩)⟩
      alone := by
        intro j' w phase hj₂ hs
        rcases threads_goto hj₂ with ⟨rfl, rfl, rfl⟩ | ⟨-, hold⟩
        · cases hs
        · obtain ⟨hnone, hunique⟩ := h.alone j' w phase (hthreads ▸ hold) hs
          refine ⟨?_, fun j₃ phase₃ hj₃ hs₃ => ?_⟩
          · show (s.killChild wsId).sidecars w = none
            rw [sidecars_killChild, hnone]
            split <;> rfl
          · rcases threads_goto hj₃ with ⟨rfl, rfl, rfl⟩ | ⟨-, hold₃⟩
            · cases hs₃
            · exact hunique j₃ phase₃ (hthreads ▸ hold₃) hs₃
      stored := by
        intro j' w phase hj₂
        rcases threads_goto hj₂ with ⟨rfl, rfl, rfl⟩ | ⟨-, hold⟩
        · trivial
        · have hold' : s.threads j' = some (w, phase) := hthreads ▸ hold
          refine (h.stored j' w phase hold').imp (fun hs t => token w t (quiet hold' hs)) hsecrets
            fun t sec c child hphase hchild hws => ?_
          subst hphase
          refine (child_killChild fun hheld => ?_).trans hchild
          -- a thread that still holds it has put no handle in the map
          obtain ⟨child', hchild', hws', -, -⟩ := h.held wsId c hheld
          rw [hchild] at hchild'
          cases hchild'
          rw [← hws', hws, (h.alone j' w _ hold' rfl).1] at hheld
          cases hheld
      matching := by
        intro w c child hc hchild
        have hc' : (s.killChild wsId).sidecars w = some c := hc
        rw [sidecars_killChild] at hc'
        split at hc'
        · cases hc'
        · rename_i hw
          have hchild' : (s.killChild wsId).children c = some child := hchild
          rw [child_killChild (other hw hc')] at hchild'
          obtain ⟨ht, hsec⟩ := h.matching w c child hc' hchild'
          exact ⟨token w _ (fun heq => absurd heq hw) ht, hsecrets ▸ hsec⟩
      ported := by
        intro w port hport hne
        have here : ((s.killChild wsId).goto j wsId (.dropPort next)).Interrupted wsId :=
          ⟨j, .dropPort next, Function.update_self _ _ _, rfl⟩
        by_cases hw : w = wsId
        · exact Or.inr (hw ▸ here)
        · refine (h.ported w port (hports ▸ hport) hne).imp ?_ ?_
          · rintro ⟨c, child, hc, hchild, hp⟩
            refine ⟨c, child, ?_, (child_killChild (other hw hc)).trans hchild, hp⟩
            show (s.killChild wsId).sidecars w = some c
            rw [sidecars_killChild, if_neg hw]
            exact hc
          · rintro ⟨j', phase, hj₂, hp⟩
            exact ⟨j', phase, keep hj₂ fun heq => hw (congrArg Prod.fst heq).symm, hp⟩
      announced := by
        intro c child port hc hmem
        have hc' : (s.killChild wsId).children c = some child := hc
        rw [children_killChild] at hc'
        obtain ⟨child', hchild', rfl⟩ := Option.map_eq_some_iff.mp hc'
        split at hmem
        · simpa [*] using h.announced c child' port hchild' hmem
        · simpa [*] using h.announced c child' port hchild' hmem
      respawned := hturned ▸ h.respawned
      late := hexits ▸ h.late }

variable {wsId token secret : String}

theorem launch (hj : s.threads j = some (wsId, .launch token secret)) {child : Child}
    (hchild : child = { wsId, token, secret }) :
    Sound { s.goto j wsId (.hold token secret s.nextChild) with
      children := update s.children s.nextChild (some child)
      nextChild := s.nextChild + 1 } := by
  have old : ∀ {c other}, s.children c = some other →
      update s.children s.nextChild (some child) c = some other := by
    intro c other hc
    rw [Function.update_of_ne (Nat.ne_of_lt (h.childBound c other hc))]
    exact hc
  have new : ∀ {c other}, update s.children s.nextChild (some child) c = some other →
      (c = s.nextChild ∧ other = child) ∨ s.children c = some other := by
    intro c other hc
    by_cases hn : c = s.nextChild
    · subst hn
      rw [Function.update_self] at hc
      exact Or.inl ⟨rfl, (Option.some.inj hc).symm⟩
    · rw [Function.update_of_ne hn] at hc
      exact Or.inr hc
  have keep : ∀ {j' w phase}, s.threads j' = some (w, phase) →
      (wsId, Phase.launch token secret) ≠ (w, phase) →
      (s.goto j wsId (.hold token secret s.nextChild)).threads j' = some (w, phase) :=
    fun hj₂ hne => goto_of_ne hj hj₂ hne
  have tokens : ∀ w t, s.Token w t →
      HostState.Token { s.goto j wsId (.hold token secret s.nextChild) with
        children := update s.children s.nextChild (some child)
        nextChild := s.nextChild + 1 } w t := by
    intro w t ht
    refine ht.imp_right ?_
    rintro ⟨j', next, hj₂⟩
    exact ⟨j', next, keep hj₂ (by rintro ⟨⟩)⟩
  exact
    { threadBound := by
        intro j' t hj₂
        rcases threads_goto hj₂ with ⟨rfl, -, -⟩ | ⟨-, hold⟩
        · exact h.threadBound j' _ hj
        · exact h.threadBound j' _ hold
      childBound := by
        intro c other hc
        rcases new hc with ⟨rfl, -⟩ | hc
        · exact Nat.lt_succ_self _
        · exact Nat.lt_succ_of_lt (h.childBound c other hc)
      held := by
        intro w c hc
        obtain ⟨other, hother, hrest⟩ := h.held w c hc
        exact ⟨other, old hother, hrest⟩
      unkilled := by
        intro c other hc hk
        rcases new hc with ⟨rfl, rfl⟩ | hc
        · subst hchild
          exact Or.inr ⟨j, token, secret, Function.update_self _ _ _⟩
        · refine (h.unkilled c other hc hk).imp_right ?_
          rintro ⟨j', t, sec, hj₂⟩
          exact ⟨j', t, sec, keep hj₂ (by rintro ⟨⟩)⟩
      alone := by
        intro j' w phase hj₂ hs
        have mine := h.alone j wsId _ hj rfl
        rcases threads_goto hj₂ with ⟨rfl, rfl, rfl⟩ | ⟨hne, hold⟩
        · refine ⟨mine.1, fun j₃ phase₃ hj₃ hs₃ => ?_⟩
          rcases threads_goto hj₃ with ⟨rfl, -, -⟩ | ⟨-, hold₃⟩
          · rfl
          · exact mine.2 j₃ phase₃ hold₃ hs₃
        · refine ⟨(h.alone j' w phase hold hs).1, fun j₃ phase₃ hj₃ hs₃ => ?_⟩
          rcases threads_goto hj₃ with ⟨rfl, rfl, rfl⟩ | ⟨-, hold₃⟩
          · exact absurd (mine.2 j' phase hold hs) hne
          · exact (h.alone j' w phase hold hs).2 j₃ phase₃ hold₃ hs₃
      stored := by
        intro j' w phase hj₂
        rcases threads_goto hj₂ with ⟨rfl, rfl, rfl⟩ | ⟨-, hold⟩
        · obtain ⟨ht, hsec⟩ := h.stored j' w _ hj
          subst hchild
          exact ⟨tokens w token ht, hsec, _, Function.update_self _ _ _, rfl, rfl, rfl, rfl, rfl⟩
        · exact (h.stored j' w phase hold).imp (fun _ => tokens w) rfl fun _ _ _ _ _ hc _ => old hc
      matching := by
        intro w c other hc hother
        obtain ⟨held, hheld, -⟩ := h.held w c hc
        obtain rfl : held = other := Option.some.inj ((old hheld).symm.trans hother)
        obtain ⟨ht, hsec⟩ := h.matching w c held hc hheld
        exact ⟨tokens w _ ht, hsec⟩
      ported := by
        intro w port hport hne
        refine (h.ported w port hport hne).imp ?_ ?_
        · rintro ⟨c, other, hc, hother, hp⟩
          exact ⟨c, other, hc, old hother, hp⟩
        · rintro ⟨j', phase, hj₂, hp⟩
          refine ⟨j', phase, keep hj₂ ?_, hp⟩
          rintro ⟨⟩
          cases hp
      announced := by
        intro c other port hc hmem
        rcases new hc with ⟨rfl, rfl⟩ | hc
        · subst hchild
          cases hmem
        · exact h.announced c other port hc hmem
      respawned := h.respawned
      late := h.late }

theorem hold {c : ℕ} (hj : s.threads j = some (wsId, .hold token secret c)) :
    Sound ({ s with sidecars := update s.sidecars wsId (some c) }.goto j wsId .done) := by
  obtain ⟨htoken, hsecret, child, hchild, hws, halive, hkilled, rfl, rfl⟩ := h.stored j wsId _ hj
  obtain ⟨hnone, hunique⟩ := h.alone j wsId _ hj rfl
  have keep : ∀ {j' w phase}, s.threads j' = some (w, phase) →
      (wsId, Phase.hold child.token child.secret c) ≠ (w, phase) →
      (s.goto j wsId .done).threads j' = some (w, phase) := fun hj₂ hne => goto_of_ne hj hj₂ hne
  have tokens : ∀ w t, s.Token w t →
      HostState.Token ({ s with sidecars := update s.sidecars wsId (some c) }.goto j wsId .done)
        w t := by
    intro w t ht
    refine ht.imp_right ?_
    rintro ⟨j', next, hj₂⟩
    exact ⟨j', next, keep hj₂ (by rintro ⟨⟩)⟩
  have entry : ∀ {w d}, update s.sidecars wsId (some c) w = some d →
      (w = wsId ∧ d = c) ∨ s.sidecars w = some d := by
    intro w d hd
    by_cases hw : w = wsId
    · subst hw
      rw [Function.update_self] at hd
      exact Or.inl ⟨rfl, (Option.some.inj hd).symm⟩
    · rw [Function.update_of_ne hw] at hd
      exact Or.inr hd
  have other : ∀ {w d}, s.sidecars w = some d → update s.sidecars wsId (some c) w = some d := by
    intro w d hd
    have hw : w ≠ wsId := by
      rintro rfl
      exact absurd (hnone.symm.trans hd) (by simp)
    exact (Function.update_of_ne hw _ _).trans hd
  exact
    { threadBound := by
        intro j' t hj₂
        rcases threads_goto hj₂ with ⟨rfl, -, -⟩ | ⟨-, hold⟩
        · exact h.threadBound j' _ hj
        · exact h.threadBound j' _ hold
      childBound := h.childBound
      held := by
        intro w d hd
        rcases entry hd with ⟨rfl, rfl⟩ | hd
        · exact ⟨child, hchild, hws, halive, hkilled⟩
        · exact h.held w d hd
      unkilled := by
        intro d found hd hk
        rcases h.unkilled d found hd hk with hheld | ⟨j', t, sec, hj₂⟩
        · exact Or.inl (other hheld)
        · by_cases heq : d = c
          · subst heq
            obtain rfl : child = found := Option.some.inj (hchild.symm.trans hd)
            exact Or.inl (hws ▸ Function.update_self _ _ _)
          · exact Or.inr ⟨j', t, sec, keep hj₂ fun hsame => heq (by cases hsame; rfl)⟩
      alone := by
        intro j' w phase hj₂ hs
        rcases threads_goto hj₂ with ⟨rfl, rfl, rfl⟩ | ⟨hne, hold⟩
        · cases hs
        · have hw : w ≠ wsId := by
            rintro rfl
            exact hne (hunique j' phase hold hs)
          obtain ⟨hfree, hother⟩ := h.alone j' w phase hold hs
          refine ⟨(Function.update_of_ne hw _ _).trans hfree, fun j₃ phase₃ hj₃ hs₃ => ?_⟩
          rcases threads_goto hj₃ with ⟨rfl, rfl, rfl⟩ | ⟨-, hold₃⟩
          · cases hs₃
          · exact hother j₃ phase₃ hold₃ hs₃
      stored := by
        intro j' w phase hj₂
        rcases threads_goto hj₂ with ⟨rfl, rfl, rfl⟩ | ⟨-, hold⟩
        · trivial
        · exact (h.stored j' w phase hold).imp (fun _ => tokens w) rfl fun _ _ _ _ _ hc _ => hc
      matching := by
        intro w d found hd hfound
        rcases entry hd with ⟨rfl, rfl⟩ | hd
        · obtain rfl : child = found := Option.some.inj (hchild.symm.trans hfound)
          exact ⟨tokens w _ htoken, hsecret⟩
        · obtain ⟨ht, hsec⟩ := h.matching w d found hd hfound
          exact ⟨tokens w _ ht, hsec⟩
      ported := by
        intro w port hport hne
        refine (h.ported w port hport hne).imp ?_ ?_
        · rintro ⟨d, found, hd, hfound, hp⟩
          exact ⟨d, found, other hd, hfound, hp⟩
        · rintro ⟨j', phase, hj₂, hp⟩
          refine ⟨j', phase, keep hj₂ ?_, hp⟩
          rintro ⟨⟩
          cases hp
      announced := h.announced
      respawned := h.respawned
      late := h.late }

theorem request (wsId : String) (request : Request) :
    Sound { s.goto s.nextThread wsId request.phase with nextThread := s.nextThread + 1 } := by
  have fresh : s.threads s.nextThread = none := by
    refine Option.eq_none_iff_forall_ne_some.mpr fun t ht => ?_
    exact Nat.lt_irrefl _ (h.threadBound _ t ht)
  have idle : request.phase.starting = false := by cases request <;> rfl
  have keep : ∀ {j t}, s.threads j = some t →
      (s.goto s.nextThread wsId request.phase).threads j = some t := by
    intro j t hj
    have hne : j ≠ s.nextThread := Nat.ne_of_lt (h.threadBound j t hj)
    exact (Function.update_of_ne hne _ _).trans hj
  have tokens : ∀ w t, s.Token w t →
      HostState.Token { s.goto s.nextThread wsId request.phase with
        nextThread := s.nextThread + 1 } w t := fun w t ht =>
    ht.imp_right fun ⟨j, next, hj⟩ => ⟨j, next, keep hj⟩
  exact
    { threadBound := by
        intro j t hj
        rcases threads_goto hj with ⟨rfl, -, -⟩ | ⟨-, old⟩
        · exact Nat.lt_succ_self _
        · exact Nat.lt_succ_of_lt (h.threadBound j _ old)
      childBound := h.childBound
      held := h.held
      unkilled := fun c child hc hk =>
        (h.unkilled c child hc hk).imp_right fun ⟨j, t, sec, hj⟩ => ⟨j, t, sec, keep hj⟩
      alone := by
        intro j w phase hj hs
        rcases threads_goto hj with ⟨rfl, rfl, rfl⟩ | ⟨-, old⟩
        · rw [idle] at hs
          cases hs
        · refine ⟨(h.alone j w phase old hs).1, fun j' phase' hj' hs' => ?_⟩
          rcases threads_goto hj' with ⟨rfl, rfl, rfl⟩ | ⟨-, old'⟩
          · rw [idle] at hs'
            cases hs'
          · exact (h.alone j w phase old hs).2 j' phase' old' hs'
      stored := by
        intro j w phase hj
        rcases threads_goto hj with ⟨rfl, rfl, rfl⟩ | ⟨-, old⟩
        · cases request <;> trivial
        · exact (h.stored j w phase old).imp (fun _ => tokens w) rfl fun _ _ _ _ _ hc _ => hc
      matching := fun w c child hc hchild =>
        ⟨tokens w _ (h.matching w c child hc hchild).1, (h.matching w c child hc hchild).2⟩
      ported := fun w port hport hne =>
        (h.ported w port hport hne).imp_right fun ⟨j, phase, hj, hp⟩ => ⟨j, phase, keep hj, hp⟩
      announced := h.announced
      respawned := h.respawned
      late := h.late }

theorem advance {phase : Phase} (choice : Choice) (hj : s.threads j = some (wsId, phase))
    (hok : s.clear wsId phase = true) : Sound (s.advance j wsId choice phase) := by
  cases phase with
  | setEnabled enabled =>
    refine (h.setEnabled (update s.enabled wsId enabled)).goto hj _ ?_ ?_ (by simp) (by simp)
      (by simp [Phase.interrupts])
    · cases enabled <;> simp [Phase.starting]
    · cases enabled <;> trivial
  | cache token =>
    have moved := h.goto hj (.kill true (.spawn (some token))) (by simp [Phase.starting])
      trivial (by simp) (by simp) (by simp [Phase.interrupts])
    exact moved.setToken wsId token (Or.inl ⟨j, _, Function.update_self _ _ _⟩)
  | kill rotating next => exact h.kill hj hok
  | dropPort next =>
    refine (h.setPort wsId none (by simp)).goto hj _ ?_ ?_ (by simp) (by simp)
      (fun _ => Function.update_self _ _ _)
    · cases next <;> simp [AfterKill.phase, Phase.starting]
    · cases next <;> trivial
  | removeWorkspace =>
    exact (h.setEnabled (update s.enabled wsId false)).goto hj .done (by simp [Phase.starting])
      trivial (by simp) (by simp) (by simp [Phase.interrupts])
  | load mcpToken =>
    refine h.goto hj _ ?_ ?_ (by simp) (by simp) (by simp [Phase.interrupts])
    · split <;> simp [Phase.starting]
    · split <;> trivial
  | present mcpToken =>
    simp only [HostState.advance]
    cases hc : s.sidecars wsId with
    | some c =>
      obtain ⟨child, hchild, -, halive, -⟩ := h.held wsId c hc
      have moved := h.goto hj .done (by simp [Phase.starting]) trivial (by simp) (by simp)
        (by simp [Phase.interrupts])
      refine moved.setHistory _ s.exits ?_ h.late
      intro r hr
      rcases List.mem_append.mp hr with hr | hr
      · exact h.respawned r hr
      · obtain rfl := List.mem_singleton.mp hr
        simp [hchild, halive]
    | none =>
      refine h.goto hj _ (fun _ => ⟨hc, fun j' phase' hj' hs => ?_⟩) trivial (by simp)
        (by simp) (by simp [Phase.interrupts])
      -- nobody else is starting a child
      simp [HostState.clear, hc, h.anyThread_of hj' hs] at hok
  | defer mcpToken =>
    have mine := h.alone j wsId _ hj rfl
    simp only [HostState.advance]
    split
    · exact (h.setPort wsId (some 0) (by simp)).goto hj .done
        (by simp [Phase.starting]) trivial (by simp) (by simp) (by simp [Phase.interrupts])
    · exact h.goto hj _ (fun _ => mine) trivial (by simp) (by simp) (by simp [Phase.interrupts])
  | storeToken mcpToken =>
    have mine := h.alone j wsId _ hj rfl
    have wrote := h.setToken wsId (mcpToken.getD choice.token)
      (Or.inr ⟨mine.1, fun j' phase' hj' hs => by
        obtain rfl := mine.2 j' phase' hj' hs
        rw [hj] at hj'
        exact ⟨mcpToken, (congrArg Prod.snd (Option.some.inj hj')).symm⟩⟩)
    exact wrote.goto hj _ (fun _ => mine) (Or.inl (Function.update_self _ _ _)) (by simp)
      (by simp) (by simp [Phase.interrupts])
  | storeSecret token =>
    have mine := h.alone j wsId _ hj rfl
    have wrote := h.setSecret wsId choice.secret mine.1 fun j' phase' hj' hs => by
      obtain rfl := mine.2 j' phase' hj' hs
      rw [hj] at hj'
      exact ⟨token, (congrArg Prod.snd (Option.some.inj hj')).symm⟩
    exact wrote.goto hj _ (fun _ => mine)
      ⟨h.stored j wsId _ hj, Function.update_self _ _ _⟩ (by simp) (by simp)
      (by simp [Phase.interrupts])
  | launch token secret =>
    simp only [HostState.advance]
    split
    · exact h.goto hj .done (by simp [Phase.starting]) trivial (by simp) (by simp)
        (by simp [Phase.interrupts])
    · exact h.launch hj rfl
  | hold token secret c =>
    obtain ⟨-, -, child, hchild, -⟩ := h.stored j wsId _ hj
    have reads : Sound (s.setChild c { child with reading := true }) :=
      h.setChild hchild rfl rfl rfl rfl (fun _ ha => ha) (fun _ hp => hp)
        fun port hmem => h.announced c child port hchild hmem
    have held := reads.hold hj
    simpa [HostState.advance, HostState.setChild, HostState.goto, hchild] using held
  | done => exact h

theorem read {c : ℕ} {child : Child} {event : CommandEvent} {events : List CommandEvent}
    (hc : s.children c = some child) (hevents : child.events = event :: events)
    (hok : s.timely c child child.events = true) :
    Sound ((s.handle c child event).setChild c { child with events }) := by
  have port : ∀ port, .listening port ∈ child.events → child.port = some port := fun port =>
    h.announced c child port hc
  have rest : ∀ port, .listening port ∈ events → child.port = some port := fun p hp =>
    port p (hevents ▸ List.mem_cons_of_mem _ hp)
  rw [hevents] at hok
  cases event with
  | listening p =>
    have published := h.setPort child.wsId (some p) ?_
    · exact published.setChild hc rfl rfl rfl rfl (fun _ ha => ha) (fun _ hp => hp) rest
    · intro q hq _
      cases hq
      rcases Bool.or_eq_true_iff.mp hok with hheld | hbusy
      · exact Or.inl ⟨c, child, by simpa using hheld, hc, port p (hevents ▸ List.mem_cons_self)⟩
      · exact Or.inr (exists_of_anyThread hbusy)
  | backendError => exact h.setChild hc rfl rfl rfl rfl (fun _ ha => ha) (fun _ hp => hp) rest
  | terminated =>
    have dropped := h.setPort child.wsId none (by simp)
    have recorded := dropped.setHistory s.turnedAway
      (s.exits ++ [⟨c, s.newer c child, s.backendPorts child.wsId, true⟩]) h.respawned (by
        intro e he
        rcases List.mem_append.mp he with he | he
        · exact h.late e he
        · obtain rfl := List.mem_singleton.mp he
          simpa [HostState.timely] using hok)
    exact recorded.setChild hc rfl rfl rfl rfl (fun _ ha => ha) (fun _ hp => hp) rest

theorem step {a : Action} {t : HostState} (hok : Undisturbed s a) (hstep : step s a = some t) :
    Sound t := by
  cases a with
  | request wsId request =>
    cases hstep
    exact h.request wsId request
  | advance j choice =>
    obtain ⟨⟨wsId, phase⟩, hj, rfl⟩ := Option.map_eq_some_iff.mp hstep
    exact h.advance choice hj (hok _ hj)
  | announce c port =>
    obtain ⟨child, hc, hstep⟩ := Option.bind_eq_some_iff.mp hstep
    obtain ⟨⟨-, hnone⟩, htaken⟩ := Option.ite_none_right_eq_some.mp hstep
    cases htaken
    refine h.setChild hc rfl rfl rfl rfl (fun _ ha => ha) ?_ ?_
    · intro p hp
      rw [hnone] at hp
      cases hp
    · intro p hp
      rcases List.mem_append.mp hp with hp | hp
      · exact absurd (hnone.symm.trans (h.announced c child p hc hp)) (by simp)
      · simpa using (List.mem_singleton.mp hp).symm
  | fail c =>
    obtain ⟨child, hc, hstep⟩ := Option.bind_eq_some_iff.mp hstep
    obtain ⟨-, htaken⟩ := Option.ite_none_right_eq_some.mp hstep
    cases htaken
    refine h.setChild hc rfl rfl rfl rfl (fun _ ha => ha) (fun _ hp => hp) fun p hp => ?_
    exact h.announced c child p hc (by simpa using hp)
  | exit c =>
    obtain ⟨child, hc, hstep⟩ := Option.bind_eq_some_iff.mp hstep
    obtain ⟨-, htaken⟩ := Option.ite_none_right_eq_some.mp hstep
    cases htaken
    have hkilled : child.killed = true := hok child hc
    refine h.setChild hc rfl rfl rfl rfl ?_ (fun _ hp => hp) fun p hp => ?_
    · intro hk
      rw [hkilled] at hk
      cases hk
    · exact h.announced c child p hc (by simpa using hp)
  | read c =>
    obtain ⟨child, hc, hstep⟩ := Option.bind_eq_some_iff.mp hstep
    split at hstep
    · rename_i event events _ hevents
      cases hstep
      exact h.read hc hevents (hok child hc)
    · cases hstep

end Sound

/-- Whatever spawns, kills, restarts and rotations interleave, as long as every step is
undisturbed. -/
theorem run_oneSidecar {acts : List Action} {t : HostState}
    (run : Run step Undisturbed {} acts t) (wsId : String) : OneSidecar t wsId :=
  (run.inv Sound Sound.init fun _ _ _ h hok hstep => h.step hok hstep).oneSidecar wsId

def firstStart : List Action :=
  .request "w" .enable :: List.replicate 8 (.advance 0 { token := "t", secret := "x" }) ++
    [.announce 0 4011, .read 0]

/-- A rotation, with the old child's exit read before the new child starts. -/
def rotated : List Action :=
  firstStart ++
    [.request "w" (.rotate "u"), .advance 1 {}, .advance 1 {}, .advance 1 {}, .exit 0, .read 0] ++
    List.replicate 7 (.advance 1 { secret := "y" }) ++ [.announce 1 4011, .read 1]

theorem run_oneSidecar_rotated :
    ∃ t, Run step Undisturbed {} rotated t ∧ t.sidecars "w" = some 1 ∧
      t.backendPorts "w" = some 4011 ∧ t.authTokens "w" = some "u" ∧ OneSidecar t "w" := by
  obtain ⟨t, ht⟩ : ∃ t, exec step {} rotated = some t := ⟨_, rfl⟩
  have run : Run step Undisturbed {} rotated t := Run.of_exec ht (by decide)
  cases ht
  exact ⟨_, run, by decide, by decide, by decide, run_oneSidecar run "w"⟩

/-- A spawn after a crash is turned away, two spawns start two children, and the exit event of a
restarted child takes the new one's port and reports an error. -/
theorem crash_blocks_spawn :
    (∃ acts t, Run step (fun _ _ => True) {} acts t ∧ ∃ r ∈ t.turnedAway, r.running = false) ∧
    (∃ acts t, Run step (fun _ _ => True) {} acts t ∧ ∃ child other,
      t.children 0 = some child ∧ t.children 1 = some other ∧ child.wsId = other.wsId ∧
      child.alive = true ∧ other.alive = true ∧ child.killed = false ∧ other.killed = false) ∧
    ∃ acts t, Run step (fun _ _ => True) {} acts t ∧
      ∃ e ∈ t.exits, e.newer = true ∧ e.removed = some 4011 ∧ e.reported = true := by
  refine ⟨?_, ?_, ?_⟩
  · refine ⟨firstStart ++ [.exit 0, .read 0, .request "w" .spawn, .advance 1 {}, .advance 1 {}], _,
      Run.of_exec_eq_some rfl, ⟨"w", false⟩, ?_, rfl⟩
    decide
  · refine ⟨[.request "w" .enable, .advance 0 {}, .request "w" .spawn, .advance 0 {},
      .advance 0 {}, .advance 1 {}, .advance 1 {}] ++ List.replicate 5 (.advance 0 {}) ++
      List.replicate 5 (.advance 1 {}), _, Run.of_exec_eq_some rfl, _, _, rfl, rfl, rfl, rfl,
      rfl, rfl, rfl⟩
  · refine ⟨firstStart ++ [.request "w" .restart] ++ List.replicate 9 (.advance 1 {}) ++
      [.announce 1 4011, .read 1, .exit 0, .read 0], _, Run.of_exec_eq_some rfl,
      ⟨0, true, some 4011, true⟩, ?_, rfl, rfl, rfl⟩
    decide

end Portuni.Desktop.Sidecars
