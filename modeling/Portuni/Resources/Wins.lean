import Portuni.Library.Runs
import Portuni.Resources.Sound

/-!
An invalidation wins over every answer that is on its way, over all runs: the operations keep the
cells sound, a get notes a fair answer, and the loop of an invalidation of all keys leaves no key
out, whatever its listeners call.
-/

namespace Portuni.Resources

open Library.Runs

section

variable {K T E : Type*} {s s' : Store K T E} {k : K} {id : ℕ} {h : List (Event K T E)}
  {e : Event K T E}

def Answered (h : List (Event K T E)) : Prop :=
  ∀ before k answer after, h = before ++ .got k answer :: after → Fair before k answer

def Event.Fills (k : K) : Event K T E → Prop
  | .set k' _ => k' = k
  | .started k' _ => k' = k
  | _ => False

/-- An invalidation of all keys that has returned has invalidated every key that had anything when
it was called. -/
def Swept (h : List (Event K T E)) : Prop :=
  ∀ past since rest, h = past ++ .swept since :: rest → ∀ k e, e ∈ past.take since →
    e.Fills k → .invalidated k ∈ past.drop since

theorem Answered.concat (ha : Answered h) (he : ∀ k answer, e = .got k answer → Fair h k answer) :
    Answered (h ++ [e]) := by
  intro before k answer after heq
  rcases split_concat heq with ⟨rfl, rfl, -⟩ | ⟨rest, -, hrest⟩
  · exact he k answer rfl
  · exact ha before k answer rest hrest

theorem Swept.concat (hs : Swept h) (he : ∀ since, e = .swept since → ∀ k e', e' ∈ h.take since →
    e'.Fills k → .invalidated k ∈ h.drop since) : Swept (h ++ [e]) := by
  intro past since rest heq
  rcases split_concat heq with ⟨rfl, rfl, -⟩ | ⟨more, -, hmore⟩
  · exact he since rfl
  · exact hs past since more hmore

theorem Swept.of_prefix {before after : List (Event K T E)} (hs : Swept (before ++ after)) :
    Swept before := by
  intro past since rest heq
  exact hs past since (rest ++ after) (by rw [heq, List.append_assoc, List.cons_append])

theorem Swept.not_current (hs : Swept h) {past rest : List (Event K T E)} {since : ℕ}
    (hsplit : h = past ++ .swept since :: rest) (hstarted : .started k id ∈ past.take since) :
    ¬ Current h k id := by
  rintro ⟨-, hafter⟩
  have hinvalidated := hs past since rest hsplit k _ hstarted rfl
  obtain ⟨first, second, htake⟩ := List.append_of_mem hstarted
  refine hafter first (second ++ past.drop since ++ .swept since :: rest) ?_ (.invalidated k)
    (by simp [hinvalidated]) rfl
  calc h = past.take since ++ past.drop since ++ .swept since :: rest := by
        rw [List.take_append_drop, hsplit]
    _ = first ++ .started k id :: (second ++ past.drop since ++ .swept since :: rest) := by
        rw [htake]
        simp

structure Frame.Holds (s : Store K T E) (since next : ℕ) : Prop where
  since_le : since ≤ s.history.length
  next_le : next ≤ s.keys.length
  invalidated : ∀ k ∈ s.keys.take next, .invalidated k ∈ s.history.drop since

theorem Frame.Holds.grow {since next : ℕ} (holds : Frame.Holds s since next)
    (hkeys : s.keys <+: s'.keys) (hhistory : s.history <+: s'.history) :
    Frame.Holds s' since next := by
  obtain ⟨newKeys, hkeys⟩ := hkeys
  obtain ⟨more, hmore⟩ := hhistory
  refine ⟨?_, ?_, fun k hk => ?_⟩
  · rw [← hmore, List.length_append]
    exact Nat.le_add_right_of_le holds.since_le
  · rw [← hkeys, List.length_append]
    exact Nat.le_add_right_of_le holds.next_le
  · rw [← hkeys, List.take_append_of_le_length holds.next_le] at hk
    rw [← hmore, List.drop_append_of_le_length holds.since_le]
    exact List.mem_append_left _ (holds.invalidated k hk)

structure Inv (s : Store K T E) : Prop where
  sound : Sound s
  answered : Answered s.history
  swept : Swept s.history
  frames : ∀ since next, .sweep since next ∈ s.stack → Frame.Holds s since next
  known : ∀ k e, e ∈ s.history → e.Fills k → k ∈ s.keys

theorem Inv.restack (inv : Inv s) {stack : List Frame}
    (hstack : ∀ since next, .sweep since next ∈ stack → Frame.Holds s since next) :
    Inv { s with stack := stack } :=
  ⟨inv.sound.restack stack, inv.answered, inv.swept, fun since next hmem =>
    ⟨(hstack since next hmem).1, (hstack since next hmem).2, (hstack since next hmem).3⟩, inv.known⟩

theorem Inv.of_concat (inv : Inv s) (sound : Sound s') (hkeys : s.keys <+: s'.keys)
    (hstack : ∀ since next, .sweep since next ∈ s'.stack → Frame.sweep since next ∈ s.stack)
    (hhistory : s'.history = s.history ++ [e]) (hgot : ∀ k answer, e ≠ .got k answer)
    (hswept : ∀ since, e ≠ .swept since) (hfills : ∀ k, e.Fills k → k ∈ s'.keys) : Inv s' where
  sound := sound
  answered := hhistory ▸ inv.answered.concat fun k answer heq => absurd heq (hgot k answer)
  swept := hhistory ▸ inv.swept.concat fun since heq => absurd heq (hswept since)
  frames since next hmem := by
    have hprefix : s.history <+: s'.history := hhistory ▸ List.prefix_append _ _
    exact (inv.frames since next (hstack since next hmem)).grow hkeys hprefix
  known k e' he' hf := by
    rw [hhistory] at he'
    rcases List.mem_append.mp he' with he' | he'
    · exact hkeys.subset (inv.known k e' he' hf)
    · rw [List.mem_singleton.mp he'] at hf
      exact hfills k hf

end

section

variable {K T E : Type*} [DecidableEq K] {s s' : Store K T E} {k : K} {id : ℕ} {v : T}

theorem Sound.get (h : Sound s) (k : K) : Sound (s.get k) ∧ ∃ past answer,
    (s.get k).history = past ++ [.got k answer] ∧ Fair past k answer ∧
      (past = s.history ∨ ∃ id, past = s.history ++ [.started k id]) := by
  have hr : Sound (s.resourceFor k) := h.resourceFor
  have hnote : ∀ {r : Store K T E} (answer : Answer T), Sound r → Sound (r.note (.got k answer)) :=
    fun answer hr => hr.note (by simp [Event.Touches]) (by simp) (by simp)
  unfold Store.get
  dsimp only
  split
  next v hv =>
    exact ⟨hnote _ hr, _, _, rfl, hr.fair_value hv, .inl history_resourceFor⟩
  next hv =>
    split
    next id hflight =>
      exact ⟨hnote _ hr, _, _, rfl, hr.fair_load hflight, .inl history_resourceFor⟩
    next hflight =>
      have hstart := hr.start mem_keys_resourceFor hv hflight
      refine ⟨hnote _ hstart, _, _, rfl, hstart.fair_load ?_,
        .inr ⟨(s.resourceFor k).loads.length, ?_⟩⟩
      · simp [Store.note, Store.setCell]
      · simp [Store.note, Store.setCell]

theorem Sound.set (h : Sound s) : Sound (s.set k v) := by
  have hr : Sound (s.resourceFor k) := h.resourceFor
  refine (hr.replace mem_keys_resourceFor (fun k' => ?_) (by simp) (by simp) rfl ?_).restack _
  · exact ⟨Eq.symm, Eq.symm⟩
  · intro v' hv
    injection hv with hv
    exact hv ▸ .inl latestSet_concat_self

theorem Sound.invalidate (h : Sound s) : Sound (s.invalidate k) := by
  unfold Store.invalidate
  split
  next hk =>
    refine (h.replace hk (fun k' => ?_) (by simp) (by simp) rfl ?_).restack _
    · exact ⟨Eq.symm, Eq.symm⟩
    · exact fun v hv => nomatch hv
  next hk =>
    refine h.note (fun k' hk' => ?_) (by simp) (by simp)
    exact (show k = k' from hk') ▸ hk

@[simp] theorem history_set : (s.set k v).history = s.history ++ [.set k v] := by
  simp [Store.set, Store.notify, Store.note, Store.setCell, Store.dropFlight]

@[simp] theorem history_invalidate : (s.invalidate k).history = s.history ++ [.invalidated k] := by
  unfold Store.invalidate
  split <;> simp [Store.notify, Store.note, Store.setCell, Store.dropFlight]

variable {outcome : Outcome T E}

@[simp] theorem history_settle {l : Load K} :
    (s.settle id l outcome).history = s.history ++ [.settled id outcome] := by
  unfold Store.settle
  dsimp only
  split
  · simp [Store.note, Store.setCell]
  · split <;> simp [Store.notify, Store.note, Store.setCell]

theorem keys_get : (s.get k).keys = (s.resourceFor k).keys := by
  unfold Store.get
  dsimp only
  split
  next => rfl
  next => split <;> rfl

theorem stack_get : (s.get k).stack = s.stack := by
  unfold Store.get
  dsimp only
  split
  next => exact stack_resourceFor
  next => split <;> exact stack_resourceFor

@[simp] theorem keys_invalidate : (s.invalidate k).keys = s.keys := by
  unfold Store.invalidate
  split <;> rfl

theorem stack_invalidate :
    (s.invalidate k).stack = s.stack ∨ (s.invalidate k).stack = .listeners :: s.stack := by
  unfold Store.invalidate
  split
  · exact .inr rfl
  · exact .inl rfl

@[simp] theorem keys_settle {l : Load K} : (s.settle id l outcome).keys = s.keys := by
  unfold Store.settle
  dsimp only
  split
  · rfl
  · split <;> rfl

theorem stack_settle (l : Load K) (outcome : Outcome T E) :
    (s.settle id l outcome).stack = s.stack ∨
      (s.settle id l outcome).stack = .listeners :: s.stack := by
  unfold Store.settle
  dsimp only
  split
  · exact .inl rfl
  · split <;> exact .inr rfl

end

variable {K T E : Type*} [DecidableEq K] {s s' : Store K T E} {k : K} {id : ℕ} {v : T}
  {e : Event K T E}

theorem Inv.get (inv : Inv s) : Inv (s.get k) := by
  obtain ⟨hsound, past, answer, hhistory, hfair, hpast⟩ := inv.sound.get k
  have hkeys : s.keys <+: (s.get k).keys := by
    rw [keys_get]
    exact keys_resourceFor
  have hprefix : s.history <+: past := by
    rcases hpast with rfl | ⟨id, rfl⟩
    · exact List.prefix_rfl
    · exact List.prefix_append _ _
  have hanswered : Answered past := by
    rcases hpast with rfl | ⟨id, rfl⟩
    · exact inv.answered
    · exact inv.answered.concat fun k answer heq => nomatch heq
  have hswept : Swept past := by
    rcases hpast with rfl | ⟨id, rfl⟩
    · exact inv.swept
    · exact inv.swept.concat fun since heq => nomatch heq
  have hknown : ∀ k' e, e ∈ past → e.Fills k' → k' ∈ (s.get k).keys := by
    intro k' e he hf
    by_cases hold : e ∈ s.history
    · exact hkeys.subset (inv.known k' e hold hf)
    · rcases hpast with rfl | ⟨id, rfl⟩
      · exact absurd he hold
      · have he := (List.mem_append.mp he).resolve_left hold
        rw [List.mem_singleton.mp he] at hf
        have heq : k = k' := hf
        rw [keys_get, ← heq]
        exact mem_keys_resourceFor
  refine ⟨hsound, ?_, ?_, fun since next hmem => ?_, fun k' e he hf => ?_⟩
  · refine hhistory ▸ hanswered.concat fun k' answer' heq => ?_
    injection heq with hk ha
    exact hk ▸ ha ▸ hfair
  · exact hhistory ▸ hswept.concat fun since heq => nomatch heq
  · rw [stack_get] at hmem
    have hgrown : s.history <+: (s.get k).history :=
      hhistory ▸ hprefix.trans (List.prefix_append _ _)
    exact (inv.frames since next hmem).grow hkeys hgrown
  · rw [hhistory] at he
    rcases List.mem_append.mp he with he | he
    · exact hknown k' e he hf
    · rw [List.mem_singleton.mp he] at hf
      exact hf.elim

theorem Inv.set (inv : Inv s) : Inv (s.set k v) := by
  refine inv.of_concat inv.sound.set keys_resourceFor (fun since next hmem => ?_) history_set
    (by simp) (by simp) fun k' hf => ?_
  · simpa [Store.set, Store.notify, Store.note, Store.setCell, Store.dropFlight] using hmem
  · have heq : k = k' := hf
    exact heq ▸ mem_keys_resourceFor

theorem Inv.invalidate (inv : Inv s) : Inv (s.invalidate k) := by
  refine inv.of_concat inv.sound.invalidate ⟨[], by simp⟩
    (fun since next hmem => ?_) history_invalidate (by simp) (by simp) fun k' hf => hf.elim
  rcases @stack_invalidate K T E _ s k with heq | heq
  · exact heq ▸ hmem
  · simpa [heq] using hmem

variable {outcome : Outcome T E}

theorem Inv.settle (inv : Inv s) {l : Load K} (hl : s.loads[id]? = some l)
    (hsettled : l.settled = false) : Inv (s.settle id l outcome) := by
  refine inv.of_concat (inv.sound.settle hl hsettled) ⟨[], by simp⟩
    (fun since next hmem => ?_) history_settle (by simp) (by simp) fun k' hf => hf.elim
  rcases @stack_settle K T E _ s id l outcome with heq | heq
  · exact heq ▸ hmem
  · simpa [heq] using hmem

theorem Inv.step (inv : Inv s) {a : Action K T E} (hstep : s.step a = some s') : Inv s' := by
  cases a with
  | get k =>
    obtain rfl := Option.some.inj (Option.ite_none_right_eq_some.mp hstep).2
    exact inv.get
  | set k v =>
    obtain rfl := Option.some.inj (Option.ite_none_right_eq_some.mp hstep).2
    exact inv.set
  | invalidate k =>
    obtain rfl := Option.some.inj (Option.ite_none_right_eq_some.mp hstep).2
    exact inv.invalidate
  | invalidateAll =>
    obtain rfl := Option.some.inj (Option.ite_none_right_eq_some.mp hstep).2
    refine inv.restack fun since next hmem => ?_
    rcases List.mem_cons.mp hmem with heq | hmem
    · injection heq with hsince hnext
      subst hsince hnext
      exact ⟨Nat.le_refl _, Nat.zero_le _, by simp⟩
    · exact inv.frames since next hmem
  | sweep =>
    simp only [Store.step] at hstep
    split at hstep
    next since next rest hstack =>
      have htop := inv.frames since next (hstack ▸ List.mem_cons_self)
      have hrest : ∀ since next, .sweep since next ∈ rest → Frame.Holds s since next :=
        fun since next hmem => inv.frames since next (hstack ▸ List.mem_cons_of_mem _ hmem)
      split at hstep
      next k hk =>
        cases hstep
        obtain ⟨hlt, hkey⟩ := List.getElem?_eq_some_iff.mp hk
        refine ⟨(inv.sound.restack _).invalidate, ?_, ?_, fun since' next' hmem => ?_, ?_⟩
        · rw [history_invalidate]
          exact inv.answered.concat (by simp)
        · rw [history_invalidate]
          exact inv.swept.concat (by simp)
        · have hgrown : s.history <+: ({ s with
              stack := .sweep since (next + 1) :: rest }.invalidate k).history := by
            rw [history_invalidate]
            exact List.prefix_append _ _
          have hmem : Frame.sweep since' next' ∈ Frame.sweep since (next + 1) :: rest := by
            rcases @stack_invalidate K T E _ { s with
              stack := .sweep since (next + 1) :: rest } k with heq | heq
            · rwa [heq] at hmem
            · simpa [heq] using hmem
          rcases List.mem_cons.mp hmem with heq | hmem
          · injection heq with hsince hnext
            subst hsince hnext
            refine ⟨Nat.le_trans htop.since_le hgrown.length_le, ?_, fun k' hk' => ?_⟩
            · rw [keys_invalidate]
              exact hlt
            · rw [keys_invalidate, List.take_add_one, hk] at hk'
              rw [history_invalidate, List.drop_append_of_le_length htop.since_le]
              rcases List.mem_append.mp hk' with hk' | hk'
              · exact List.mem_append_left _ (htop.invalidated k' hk')
              · have heq : k' = k := by simpa using hk'
                exact heq ▸ List.mem_append_right _ List.mem_cons_self
          · exact (hrest since' next' hmem).grow ⟨[], by simp⟩ hgrown
        · intro k' e he hf
          rw [keys_invalidate]
          rw [history_invalidate] at he
          rcases List.mem_append.mp he with he | he
          · exact inv.known k' e he hf
          · rw [List.mem_singleton.mp he] at hf
            exact hf.elim
      next hnone =>
        cases hstep
        have hlength : s.keys.length ≤ next := List.getElem?_eq_none_iff.mp hnone
        have hrested := inv.restack hrest
        refine ⟨hrested.sound.note (by simp [Event.Touches]) (by simp) (by simp),
          inv.answered.concat (by simp), inv.swept.concat ?_, fun since next hmem => ?_, ?_⟩
        · intro since' heq k e he hf
          injection heq with heq
          subst heq
          refine htop.invalidated k ?_
          rw [List.take_of_length_le hlength]
          exact inv.known k e (List.mem_of_mem_take he) hf
        · exact (hrest since next hmem).grow List.prefix_rfl (List.prefix_append _ _)
        · intro k e he hf
          rcases List.mem_append.mp he with he | he
          · exact inv.known k e he hf
          · rw [List.mem_singleton.mp he] at hf
            exact hf.elim
    next => cases hstep
  | called =>
    simp only [Store.step] at hstep
    split at hstep
    next rest hstack =>
      cases hstep
      exact inv.restack fun since next hmem =>
        inv.frames since next (hstack ▸ List.mem_cons_of_mem _ hmem)
    next => cases hstep
  | thrown =>
    simp only [Store.step] at hstep
    split at hstep
    next rest hstack =>
      cases hstep
      exact inv.restack fun since next hmem =>
        inv.frames since next (hstack ▸ List.mem_cons_of_mem _ (List.mem_cons_of_mem _ hmem))
    next rest _ hstack =>
      cases hstep
      exact inv.restack fun since next hmem =>
        inv.frames since next (hstack ▸ List.mem_cons_of_mem _ hmem)
    next => cases hstep
  | settle id outcome =>
    simp only [Store.step] at hstep
    split at hstep
    next l hstack hl =>
      obtain ⟨hsettled, hstep⟩ := Option.ite_none_left_eq_some.mp hstep
      cases hstep
      exact inv.settle hl (by simpa using hsettled)
    next => cases hstep

theorem Inv.of_run {acts : List (Action K T E)}
    (run : Run Store.step (fun _ _ => True) {} acts s) : Inv s := by
  refine run.inv Inv ?_ fun s a s' inv _ hstep => inv.step hstep
  exact ⟨sound_initial, by simp [Answered], by simp [Swept], by simp, by simp⟩

/-- A load that comes back when its key has been set or invalidated meanwhile changes no cell, and
one that fails leaves its key without a value, so that the next get starts a load. -/
structure Settles (s s' : Store K T E) (k : K) (id : ℕ) (outcome : Outcome T E) : Prop where
  stale : ¬ Current s.history k id → s'.cells = s.cells
  others : ∀ k' ≠ k, s'.cells k' = s.cells k'
  rejected : ∀ e now, outcome = .rejected e now → Current s.history k id →
    s'.peek k = none ∧ ∃ id', (s'.get k).history =
      s'.history ++ [.started k id', .got k (.load id')]

theorem history_get_fresh (hvalue : (s.cells k).value = none) (hflight : (s.cells k).flight = none) :
    (s.get k).history =
      s.history ++ [.started k s.loads.length, .got k (.load s.loads.length)] := by
  simp [Store.get, hvalue, hflight, Store.note, Store.setCell]

theorem Sound.settles (h : Sound s) {l : Load K} (hl : s.loads[id]? = some l)
    (hsettled : l.settled = false) : Settles s (s.settle id l outcome) l.key id outcome := by
  have hcurrent := h.current_iff hl hsettled
  cases hstale : l.stale with
  | true =>
    have hcells : (s.settle id l outcome).cells = s.cells := by
      rw [h.settle_stale hl hstale]
      exact Function.update_eq_self _ _
    refine ⟨fun _ => hcells, fun k' _ => by rw [hcells], fun e now _ hcur => ?_⟩
    have heq := hl.symm.trans (h.flight _ _ (hcurrent.mp hcur)).1
    injection heq with heq
    rw [heq] at hstale
    cases hstale
  | false =>
    obtain ⟨hflight, hsettle⟩ := h.settle_live outcome hl hstale hsettled
    have hcells : (s.settle id l outcome).cells =
        Function.update s.cells l.key (landed (s.cells l.key) outcome) := by
      rw [hsettle]
      rfl
    refine ⟨fun hnot => absurd (hcurrent.mpr hflight) hnot, fun k' hne => ?_, ?_⟩
    · rw [hcells, Function.update_of_ne hne]
    · rintro e now rfl -
      have hvalue : ((s.settle id l (.rejected e now)).cells l.key).value = none := by
        rw [hcells, Function.update_self]
        exact (h.flight _ _ hflight).2.1
      refine ⟨hvalue, _, history_get_fresh hvalue ?_⟩
      rw [hcells, Function.update_self]
      rfl

/-- What a cache that lets every invalidation win keeps, at every moment of its history. -/
structure Wins (s : Store K T E) : Prop where
  stored : ∀ k v, s.peek k = some v → Justified s.history k v
  answered : Answered s.history
  swept : ∀ before k answer after, s.history = before ++ .got k answer :: after →
    ∀ past since rest, before = past ++ .swept since :: rest →
      ∀ id, .started k id ∈ past.take since → ¬ Current before k id
  settles : ∀ id outcome s', s.step (.settle id outcome) = some s' →
    ∃ l, s.loads[id]? = some l ∧ Settles s s' l.key id outcome

/-- A load, an invalidation of all keys in the middle of which a listener asks again, and both
answers, the old one last. -/
def overtaken : List (Action ℕ String Unit) :=
  [.get 0, .invalidateAll, .sweep, .get 0, .called, .sweep, .settle 1 (.resolved "new"), .called,
    .settle 0 (.resolved "old"), .get 0]

end Portuni.Resources
