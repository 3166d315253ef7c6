import Portuni.McpScope.World

/-!
What a scope holds, what is queued and what is under way for the tables, under one account of the
reasons: a predicate for the nodes, for the write set, for the grants on their way to the rows,
and for the entries of the history. A run keeps it where every effect fits.
-/

namespace Portuni.McpScope

/-- The class of a statement is that of an entry that names the node, or the default. -/
def Classed (H : ExpansionRecord → Prop) (n : String) (addedVia : AddedVia) (reason : String) :
    Prop :=
  (addedVia = .seed ∧ reason = "seed") ∨
    ∃ r, H r ∧ n ∈ r.nodeIds ∧ addedVia = r.addedVia.getD .seed ∧ reason = r.reason

variable {n : String}

theorem Classed.mono {H H' : ExpansionRecord → Prop} (le : ∀ r, H r → H' r) {addedVia : AddedVia}
    {reason : String} (h : Classed H n addedVia reason) : Classed H' n addedVia reason := by
  rcases h with h | ⟨r, hr, h⟩
  · exact .inl h
  · exact .inr ⟨r, le r hr, h⟩

def ScopeWrite.Due (K : String) (A P : String → Prop) (H : ExpansionRecord → Prop) :
    ScopeWrite → Prop
  | .upsertRead k n addedVia reason => k = K ∧ A n ∧ Classed H n addedVia reason
  | .setWritable k n => k = K ∧ P n

/-- The reasons: `A` for the nodes, `W` for the write set, `P` for the grants on their way to the
rows of the session `K`, `H` for the entries of the history. -/
structure Justified (K : String) (A W P : String → Prop) (H : ExpansionRecord → Prop)
    (s : SessionScope) : Prop where
  nodes : ∀ n ∈ s.nodes, A n
  writeSet : ∀ n ∈ s.writeSet, A n ∧ W n
  history : ∀ r ∈ s.history, H r
  microtasks : ∀ t ∈ s.microtasks, t.sessionId = K ∧ A t.nodeId ∧ (t.writable = true → P t.nodeId)
  writes : ∀ chain ∈ s.writes, ∀ st ∈ chain, st.Due K A P H
  listeners : ∀ k ∈ s.listeners, k = K ∧ ∀ n, W n → P n
  idle : s.listeners = none → s.microtasks = [] ∧ s.writes = []

def Effect.Fits (A W : String → Prop) (H : ExpansionRecord → Prop) : Effect → Prop
  | .add n => A n
  | .addWritable n => A n ∧ W n
  | .record r => H r
  | _ => True

namespace Justified

variable {K : String} {A A' W W' P P' : String → Prop} {H H' : ExpansionRecord → Prop}
  {s : SessionScope} {effects : List Effect}

theorem mono (h : Justified K A W P H s) (hA : ∀ n, A n → A' n) (hW : ∀ n, W n → W' n)
    (hP : ∀ n, P n → P' n) (hH : ∀ r, H r → H' r)
    (wired : ∀ k ∈ s.listeners, ∀ n, W' n → P' n) : Justified K A' W' P' H' s where
  nodes n hn := hA n (h.nodes n hn)
  writeSet n hn := ⟨hA n (h.writeSet n hn).1, hW n (h.writeSet n hn).2⟩
  history r hr := hH r (h.history r hr)
  microtasks t ht := by
    obtain ⟨hk, ha, hp⟩ := h.microtasks t ht
    exact ⟨hk, hA _ ha, fun hw => hP _ (hp hw)⟩
  writes chain hc st hst := by
    have due := h.writes chain hc st hst
    cases st with
    | upsertRead k n addedVia reason => exact ⟨due.1, hA n due.2.1, due.2.2.mono hH⟩
    | setWritable k n => exact ⟨due.1, hP n due.2⟩
  listeners k hk := ⟨(h.listeners k hk).1, wired k hk⟩
  idle := h.idle

theorem new (sessionType : SessionType) :
    Justified K A W P H { sessionType := sessionType } where
  nodes := by simp
  writeSet := by simp
  history := by simp
  microtasks := by simp
  writes := by simp
  listeners := by simp
  idle := by simp

variable (h : Justified K A W P H s)

include h

theorem classified (n : String) : Classed H n (s.classifyNode n).1 (s.classifyNode n).2 := by
  unfold SessionScope.classifyNode
  split
  next r hr =>
    have hmem : r ∈ s.history := by simpa using List.mem_of_find?_eq_some hr
    have hn : n ∈ r.nodeIds := by simpa using List.find?_some hr
    exact .inr ⟨r, h.history r hmem, hn, rfl, rfl⟩
  next => exact .inl ⟨rfl, rfl⟩

theorem add (hn : A n) : Justified K A W P H (s.add n) := by
  unfold SessionScope.add
  split
  · exact h
  · refine { h with nodes := ?_, microtasks := ?_, idle := ?_ }
    · intro m hm
      rcases List.mem_append.mp hm with hm | hm
      · exact h.nodes m hm
      · rw [List.mem_singleton.mp hm]
        exact hn
    · intro t ht
      rcases List.mem_append.mp ht with ht | ht
      · exact h.microtasks t ht
      · obtain ⟨k, hk, rfl⟩ := List.mem_map.mp ht
        have hk' := h.listeners k (by simpa using hk)
        exact ⟨hk'.1, hn, by simp⟩
    · intro hl
      have hl' : s.listeners = none := hl
      exact ⟨by simp [(h.idle hl').1, hl'], (h.idle hl').2⟩

theorem addWritable (ha : A n) (hw : W n) : Justified K A W P H (s.addWritable n) := by
  have hadd := h.add ha
  unfold SessionScope.addWritable
  split
  · exact hadd
  · refine { hadd with writeSet := ?_, microtasks := ?_, idle := ?_ }
    · intro m hm
      rcases List.mem_append.mp hm with hm | hm
      · exact h.writeSet m hm
      · rw [List.mem_singleton.mp hm]
        exact ⟨ha, hw⟩
    · intro t ht
      rcases List.mem_append.mp ht with ht | ht
      · exact hadd.microtasks t ht
      · obtain ⟨k, hk, rfl⟩ := List.mem_map.mp ht
        have hk' := h.listeners k (by simpa using hk)
        exact ⟨hk'.1, ha, fun _ => hk'.2 n hw⟩
    · intro hl
      have hl' : s.listeners = none := by simpa using hl
      exact ⟨by simp [(hadd.idle (by simpa using hl')).1, hl'], (hadd.idle (by simpa using hl')).2⟩

theorem record {r : ExpansionRecord} (hr : H r) : Justified K A W P H (s.recordExpansion r) := by
  refine { h with history := ?_ }
  intro q hq
  rcases List.mem_append.mp hq with hq | hq
  · exact h.history q hq
  · rw [List.mem_singleton.mp hq]
    exact hr

theorem runMicrotasks : Justified K A W P H s.runMicrotasks := by
  refine { h with microtasks := by simp [SessionScope.runMicrotasks], writes := ?_, idle := ?_ }
  · intro chain hc st hst
    rcases List.mem_append.mp hc with hc | hc
    · exact h.writes chain hc st hst
    · obtain ⟨t, ht, rfl⟩ := List.mem_map.mp hc
      obtain ⟨hk, ha, hp⟩ := h.microtasks t ht
      rcases List.mem_cons.mp hst with rfl | hst
      · exact ⟨hk, ha, h.classified t.nodeId⟩
      · split at hst
        next hw =>
          rw [List.mem_singleton.mp hst]
          exact ⟨hk, hp hw⟩
        next => simp at hst
  · intro hl
    have hl' : s.listeners = none := hl
    simp [SessionScope.runMicrotasks, h.idle hl']

theorem effect {e : Effect} (fits : e.Fits A W H) : Justified K A W P H (s.effect e) := by
  cases e with
  | anchor home => exact { h with }
  | add n => exact h.add fits
  | addWritable n => exact h.addWritable fits.1 fits.2
  | record r => exact h.record fits
  | await => exact h.runMicrotasks

theorem run (fits : ∀ e ∈ effects, e.Fits A W H) : Justified K A W P H (s.run effects) := by
  induction effects generalizing s with
  | nil => exact h
  | cons e effects ih =>
    exact ih (h.effect (fits e List.mem_cons_self)) fun e' he' =>
      fits e' (List.mem_cons_of_mem _ he')

theorem perform (fits : ∀ e ∈ effects, e.Fits A W H) : Justified K A W P H (s.perform effects) :=
  (h.run fits).runMicrotasks

theorem wireOngoingSync (grants : ∀ n, W n → P n) {home : Option String}
    (hhome : ∀ n ∈ home, A n ∧ P n) : Justified K A W P H (s.wireOngoingSync K home) := by
  refine { h with microtasks := ?_, listeners := ?_, idle := by simp [SessionScope.wireOngoingSync] }
  · intro t ht
    simp only [SessionScope.wireOngoingSync, List.mem_append, List.mem_map, Option.mem_toList] at ht
    rcases ht with ((ht | ⟨n, hn, rfl⟩) | ⟨n, hn, rfl⟩) | ⟨n, hn, rfl⟩
    · exact h.microtasks t ht
    · exact ⟨rfl, h.nodes n hn, by simp⟩
    · obtain ⟨ha, hw⟩ := h.writeSet n hn
      exact ⟨rfl, ha, fun _ => grants n hw⟩
    · exact ⟨rfl, (hhome n hn).1, fun _ => (hhome n hn).2⟩
  · intro k hk
    simp only [SessionScope.wireOngoingSync, Option.mem_def, Option.some.injEq] at hk
    exact ⟨hk.symm, grants⟩

end Justified

open World

variable {casing : Casing} {g : Graph} {identity : RequestIdentity} {s : SessionScope}
  {e : Effect} {n nodeId : String}

theorem seeded_effect {reason home : String} (he : e ∈ seeded casing g identity reason home) :
    e = .anchor home ∨ (∃ n ∈ seedIds casing g identity home, e = .add n) ∨ e = .await ∨
      e = .record ⟨seedIds casing g identity home, reason, none⟩ := by
  simp only [seeded, seedScopeFromHome, List.mem_append, List.mem_cons, List.mem_map,
    List.not_mem_nil, or_false] at he
  rcases he with ((he | he | he) | ⟨n, hn, rfl⟩) | he
  · exact .inl he
  · exact .inr (.inl ⟨home, List.mem_cons_self, he⟩)
  · exact .inr (.inr (.inl he))
  · exact .inr (.inl ⟨n, List.mem_cons_of_mem _ hn, rfl⟩)
  · exact .inr (.inr (.inr he))

theorem autoSeedFromHome_effect {home : Option String}
    (he : e ∈ autoSeedFromHome casing g identity s home) :
    ∃ url, home = some url ∧ g.has (s.homeNodeId.getD url) = true ∧
      (s.homeNodeId = none ∨ s.nodes = []) ∧
      e ∈ seeded casing g identity "auto-seed from home_node_id query param"
        (s.homeNodeId.getD url) := by
  unfold autoSeedFromHome at he
  split at he
  next => simp at he
  next url =>
    split at he
    next => simp at he
    next hnot =>
      split at he
      next hhas =>
        refine ⟨url, rfl, hhas, ?_, he⟩
        rw [not_and_or, not_not] at hnot
        exact hnot.imp id fun h => List.eq_nil_of_length_eq_zero (by omega)
      next => simp at he

theorem sessionInit_effect {args : SessionInitArgs}
    (he : e ∈ (sessionInit casing g identity s args).effects) :
    ∃ home, loadNodeIdFromMaybeName casing g args = some home ∧ g.has home = true ∧
      e ∈ seeded casing g identity "session_init seed (home + depth-1)" home := by
  unfold sessionInit at he
  split at he
  next => simp at he
  next home hload =>
    split at he
    next => simp at he
    next n hn => exact ⟨home, hload, by rw [Graph.has_eq_isSome, hn]; rfl, he⟩

section

structure Expandable (casing : Casing) (g : Graph) (identity : RequestIdentity)
    (s : SessionScope) (args : ExpandArgs) (n : String) : Prop where
  named : n ∈ args.nodeIds
  known : g.has n = true
  visible : g.nodeVisibleTo casing identity.view n = true
  floor : g.floored identity.userId n = true →
    s.sessionType ≠ .headless ∧ args.confirmedHardFloor = true

structure LoopSound (casing : Casing) (g : Graph) (identity : RequestIdentity)
    (s : SessionScope) (args : ExpandArgs) (loop : ExpandLoop) : Prop where
  accepted : ∀ n ∈ loop.accepted, Expandable casing g identity s args n
  effects : ∀ e ∈ loop.effects, e = .await ∨ ∃ n ∈ loop.accepted,
    (e = .add n ∧ args.writable = false) ∨
      (e = .addWritable n ∧ args.writable = true ∧ .accepted .write n ∈ loop.events)
  added : ∀ n ∈ loop.accepted, .add n ∈ loop.effects ∨ .addWritable n ∈ loop.effects

variable {args : ExpandArgs} {dialog : ℕ → ElicitOutcome} {loop loop' : ExpandLoop}

theorem LoopSound.await (h : LoopSound casing g identity s args loop)
    (haccepted : loop'.accepted = loop.accepted)
    (heffects : loop'.effects = loop.effects ∨ loop'.effects = loop.effects ++ [.await])
    (hevents : loop'.events = loop.events) : LoopSound casing g identity s args loop' := by
  have hsub : ∀ e ∈ loop.effects, e ∈ loop'.effects := by
    rcases heffects with h | h <;> rw [h] <;> simp +contextual
  refine ⟨haccepted ▸ h.accepted, ?_, ?_⟩
  · intro e he
    rw [haccepted, hevents]
    rcases heffects with h' | h' <;> rw [h'] at he
    · exact h.effects e he
    · rcases List.mem_append.mp he with he | he
      · exact h.effects e he
      · exact .inl (List.mem_singleton.mp he)
  · intro n hn
    rw [haccepted] at hn
    exact (h.added n hn).imp (hsub _) (hsub _)

theorem LoopSound.accept {loop loop' : ExpandLoop} {id : String} {e : Effect}
    (h : LoopSound casing g identity s args loop) (hid : Expandable casing g identity s args id)
    (haccepted : loop'.accepted = loop.accepted ++ [id])
    (heffects : loop'.effects = loop.effects ++ [.await, e])
    (hevents : ∀ x ∈ loop.events, x ∈ loop'.events) (he : (e = .add id ∧ args.writable = false) ∨
      (e = .addWritable id ∧ args.writable = true ∧ .accepted .write id ∈ loop'.events)) :
    LoopSound casing g identity s args loop' := by
  refine ⟨?_, ?_, ?_⟩
  · intro n hn
    rw [haccepted, List.mem_append, List.mem_singleton] at hn
    rcases hn with hn | rfl
    · exact h.accepted n hn
    · exact hid
  · intro e' he'
    rw [heffects, List.mem_append, List.mem_cons, List.mem_singleton] at he'
    rcases he' with he' | rfl | rfl
    · refine (h.effects e' he').imp (fun h => h) ?_
      rintro ⟨n, hn, hcase⟩
      refine ⟨n, by rw [haccepted]; exact List.mem_append_left _ hn, ?_⟩
      exact hcase.imp (fun hc => hc) fun hc => ⟨hc.1, hc.2.1, hevents _ hc.2.2⟩
    · exact .inl rfl
    · exact .inr ⟨id, by simp [haccepted], he⟩
  · intro n hn
    rw [haccepted, List.mem_append, List.mem_singleton] at hn
    rcases hn with hn | rfl
    · rw [heffects]
      exact (h.added n hn).imp (List.mem_append_left _) (List.mem_append_left _)
    · rcases he with ⟨rfl, -⟩ | ⟨rfl, -⟩ <;> simp [heffects]

theorem expandNode_sound {loop : ExpandLoop} {id : String} {outcome : ElicitOutcome}
    (hid : id ∈ args.nodeIds) (h : LoopSound casing g identity s args loop) :
    LoopSound casing g identity s args (expandNode casing g identity s args loop id outcome) := by
  unfold expandNode
  split
  next => exact h.await rfl (.inl rfl) rfl
  next hknown =>
    split
    next => exact h.await rfl (.inr rfl) rfl
    next hvisible =>
      split
      next => exact h.await rfl (.inr rfl) rfl
      next hfloor =>
        have hok : Expandable casing g identity s args id :=
          ⟨hid, by simpa using hknown, by simpa using hvisible, fun hf => by
            simpa [hf] using hfloor⟩
        split
        next hw =>
          split
          next =>
            exact h.accept hok rfl rfl (fun _ => List.mem_append_left _) (.inr ⟨rfl, hw, by simp⟩)
          next => exact h.await rfl (.inr rfl) rfl
        next hw =>
          exact h.accept hok rfl rfl (fun _ hx => hx) (.inl ⟨rfl, by simpa using hw⟩)

theorem expandLoop_sound :
    LoopSound casing g identity s args (expandLoop casing g identity s args dialog) := by
  have fold : ∀ (pairs : List (String × ℕ)) (loop : ExpandLoop),
      (∀ p ∈ pairs, p.1 ∈ args.nodeIds) → LoopSound casing g identity s args loop →
        LoopSound casing g identity s args (pairs.foldl (fun loop p =>
          expandNode casing g identity s args loop p.1 (dialog p.2)) loop) := by
    intro pairs
    induction pairs with
    | nil => exact fun _ _ h => h
    | cons p pairs ih =>
      exact fun loop hp h => ih _ (fun q hq => hp q (List.mem_cons_of_mem _ hq))
        (expandNode_sound (hp p List.mem_cons_self) h)
  exact fold _ _ (fun p hp => List.fst_mem_of_mem_zipIdx hp) ⟨by simp, by simp, by simp⟩

theorem expandScope_effect (he : e ∈ (expandScope casing g identity s args dialog).effects) :
    e = .await ∨ (∃ n, Expandable casing g identity s args n ∧ (e = .add n ∨
        (e = .addWritable n ∧ s.sessionType ≠ .headless ∧
          .accepted .write n ∈ (expandScope casing g identity s args dialog).events))) ∨
      ∃ ids, e = .record ⟨ids, args.reason, none⟩ ∧
        ∀ n ∈ ids, Expandable casing g identity s args n := by
  have sound : LoopSound casing g identity s args (expandLoop casing g identity s args dialog) :=
    expandLoop_sound
  unfold expandScope at he ⊢
  split at he
  next => simp at he
  next hnot =>
    rw [if_neg hnot]
    rcases List.mem_append.mp he with he | he
    · rcases sound.effects e he with h | ⟨n, hn, h | ⟨h, hw, hev⟩⟩
      · exact .inl h
      · exact .inr (.inl ⟨n, sound.accepted n hn, .inl h.1⟩)
      · refine .inr (.inl ⟨n, sound.accepted n hn, .inr ⟨h, ?_, List.mem_append_left _ hev⟩⟩)
        exact fun hty => hnot ⟨hw, hty⟩
    · split at he
      next => simp at he
      next => exact .inr (.inr ⟨_, List.mem_singleton.mp he, sound.accepted⟩)

end

section

variable {outcome : ElicitOutcome}

theorem decideRead_allow_true {row : NodeScopeRow} {userId : String} {reachable : Bool}
    (h : decideRead s nodeId row userId reachable = .allow true) :
    s.has nodeId = false ∧ violatesHardFloor row userId = false := by
  unfold decideRead at h
  grind

theorem decideRead_elicit {row : NodeScopeRow} {userId : String} {reachable : Bool}
    {hint : String} {prompt : Option String}
    (h : decideRead s nodeId row userId reachable = .elicit hint prompt) :
    s.has nodeId = false := by
  unfold decideRead at h
  grind

theorem guardNodeRead_effect (he : e ∈ (guardNodeRead casing g identity s nodeId outcome).effects) :
    g.has nodeId = true ∧ g.nodeVisibleTo casing identity.view nodeId = true ∧
      s.has nodeId = false ∧ (g.floored identity.userId nodeId = true → s.sessionType ≠ .headless ∧
        .accepted .read nodeId ∈ (guardNodeRead casing g identity s nodeId outcome).events) ∧
      (e = .add nodeId ∨ ∃ reason via, e = .record ⟨[nodeId], reason, some via⟩ ∧
        (via = .elicited ∨ via = .edge)) := by
  unfold guardNodeRead at he ⊢
  split at he
  next => simp at he
  next hfound =>
    rw [if_neg hfound]
    split at he
    next => simp at he
    next hvisible =>
      rw [if_neg hvisible]
      have hhas : g.has nodeId = true := by simpa [Graph.loadNodeScopeMeta_found] using hfound
      refine ⟨hhas, by simpa using hvisible, ?_⟩
      split at he
      next => simp at he
      next hint prompt hdecide =>
        split at he
        next haccept =>
          simp only [if_pos haccept]
          refine ⟨decideRead_elicit hdecide, fun _ => ⟨haccept.1, by simp⟩, ?_⟩
          rcases List.mem_cons.mp he with he | he
          · exact .inl he
          · exact .inr ⟨_, _, List.mem_singleton.mp he, .inl rfl⟩
        next => simp at he
      next edge hdecide =>
        split at he
        next hedge =>
          obtain ⟨rfl, -⟩ := hedge
          have hallow := decideRead_allow_true hdecide
          refine ⟨hallow.1, fun hf => ?_, ?_⟩
          · exact absurd hf (by simp [Graph.floored, hallow.2])
          · rcases List.mem_cons.mp he with he | he
            · exact .inl he
            · exact .inr ⟨_, _, List.mem_singleton.mp he, .inr rfl⟩
        next => simp at he

theorem getContext_effect {depth : ℕ}
    (he : e ∈ (getContext casing g identity s nodeId depth outcome).effects) :
    e ∈ (guardNodeRead casing g identity s nodeId outcome).effects ∨ e = .await ∨
      ∃ root, g.node? nodeId = some root ∧ depth < 2 ∧
        (getContext casing g identity s nodeId depth outcome).answer =
          .payload (buildContextPayload casing g identity root depth) ∧
        ((∃ n ∈ buildContextPayload casing g identity root depth, e = .add n.id) ∨
          ∃ ids reason, e = .record ⟨ids, reason, none⟩) := by
  unfold getContext at he ⊢
  simp only at he ⊢
  split at he
  next => simp at he
  next => simp at he
  next => simp at he
  next => simp at he
  next root hallow hroot =>
    simp only [hroot]
    split at he
    next => exact .inl he
    next hdepth =>
      simp only [if_neg hdepth]
      rcases List.mem_append.mp he with he | he
      · exact .inl he
      · rcases List.mem_cons.mp he with he | he
        · exact .inr (.inl he)
        · refine .inr (.inr ⟨root, rfl, by omega, rfl, ?_⟩)
          unfold traversed at he
          rcases List.mem_append.mp he with he | he
          · obtain ⟨n, hn, rfl⟩ := List.mem_map.mp he
            exact .inl ⟨n, hn, rfl⟩
          · split at he
            next => simp at he
            next => exact .inr ⟨_, _, List.mem_singleton.mp he⟩

end

section

variable {args : CreateArgs}

theorem createNode_effect (he : e ∈ (createNode casing g identity args).effects) :
    .created args.node.id ∈ (createNode casing g identity args).events ∧
      (e = .addWritable args.node.id ∨
        e = .record ⟨[args.node.id], "node created by this session", some .created⟩) := by
  unfold createNode at he ⊢
  split at he
  next h => simpa [h] using he
  next => simp at he

end

/-- The grounds on which a call anchors a scope, grants a write or calls a node created. -/
def Backed (casing : Casing) (g : Graph) (s : SessionScope) (call : Call) (events : List Event) :
    Effect → Prop
  | .anchor home => ∃ args, call = .sessionInit args ∧
      loadNodeIdFromMaybeName casing g args = some home ∧ g.has home = true
  | .addWritable n =>
    (s.sessionType ≠ .headless ∧ .accepted .write n ∈ events) ∨ .created n ∈ events
  | .record r => r.addedVia = some .created → ∀ n ∈ r.nodeIds, .created n ∈ events
  | _ => True

theorem respond_backed {c : Connection} {call : Call} (he : e ∈ (respond casing g c call).effects) :
    Backed casing g c.scope call (respond casing g c call).events e := by
  cases call with
  | sessionInit args =>
    obtain ⟨home, hload, hhas, he⟩ := sessionInit_effect he
    rcases seeded_effect he with rfl | ⟨n, -, rfl⟩ | rfl | rfl
    · exact ⟨args, rfl, hload, hhas⟩
    · trivial
    · trivial
    · exact fun h => nomatch h
  | expandScope args dialog =>
    rcases expandScope_effect he with rfl | ⟨n, -, rfl | ⟨rfl, hty, hev⟩⟩ | ⟨ids, rfl, -⟩
    · trivial
    · trivial
    · exact .inl ⟨hty, hev⟩
    · exact fun h => nomatch h
  | read nodeId outcome =>
    obtain ⟨-, -, -, -, rfl | ⟨reason, via, rfl, hvia⟩⟩ := guardNodeRead_effect he
    · trivial
    · rintro ⟨⟩
      rcases hvia with h | h <;> nomatch h
  | getContext nodeId depth outcome =>
    rcases getContext_effect he with he | rfl | ⟨root, -, -, -, ⟨n, -, rfl⟩ | ⟨ids, reason, rfl⟩⟩
    · obtain ⟨-, -, -, -, rfl | ⟨reason, via, rfl, hvia⟩⟩ := guardNodeRead_effect he
      · trivial
      · rintro ⟨⟩
        rcases hvia with h | h <;> nomatch h
    · trivial
    · trivial
    · exact fun h => nomatch h
  | write nodeId outcome =>
    obtain ⟨rfl, hty, hev⟩ := guardNodeWrite_effects he
    exact .inl ⟨hty, hev⟩
  | createNode args =>
    obtain ⟨hev, rfl | rfl⟩ := createNode_effect he
    · exact .inr hev
    · intro _ n hn
      rw [List.mem_singleton.mp hn]
      exact hev

end Portuni.McpScope
