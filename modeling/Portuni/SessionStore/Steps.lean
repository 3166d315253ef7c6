import Portuni.SessionStore.Sound

/-!
Steps of the server and of the channel keep what the window holds sound, and what it still lacks on
its way.
-/

namespace Portuni.SessionStore

open Sessions

universe u

variable {Rest : Type u} {w w' : World Rest} {id nodeId : String} {row : SessionRow Rest}

structure World.Good (w : World Rest) : Prop where
  sound : w.Sound
  converging : w.Converging

theorem good_create (h : w.Good) (hfresh : row.id ∉ w.ids) : World.Good { w with
    ids := w.ids ++ [row.id]
    rows := Function.update w.rows row.id (some row)
    revs := Function.update w.revs row.id 1 } := by
  have hne : ∀ id ∈ w.ids, id ≠ row.id := fun id hid heq => hfresh (heq ▸ hid)
  have advances : w.Advances { w with
      ids := w.ids ++ [row.id]
      rows := Function.update w.rows row.id (some row)
      revs := Function.update w.revs row.id 1 } := by
    refine ⟨fun id hid => List.mem_append_left _ hid, fun id hid => ?_, fun id hid row' hrow' => ?_⟩
    · simp [Function.update_of_ne (hne id hid)]
    · simp only [Function.update_of_ne (hne id hid)] at hrow' ⊢
      exact ⟨row', hrow', rfl, rfl, fun harchived => harchived, fun _ => rfl⟩
  refine ⟨sound_of_advances h.sound advances ?_ ?_ ?_ rfl rfl rfl rfl rfl rfl rfl,
    converging_of_advances h.sound h.converging advances rfl rfl rfl rfl rfl rfl rfl⟩
  · intro id row' hrow'
    rcases eq_or_ne id row.id with rfl | hne
    · obtain rfl : row = row' := by simpa using hrow'
      exact ⟨rfl, by simp⟩
    · have hold := h.sound.rows id row' (by simpa [Function.update_of_ne hne] using hrow')
      exact ⟨hold.1, List.mem_append_left _ hold.2⟩
  · intro id hid
    obtain ⟨hid, hne⟩ := not_or.mp (List.mem_append.not.mp hid)
    have hne : id ≠ row.id := by simpa using hne
    simpa [Function.update_of_ne hne] using h.sound.fresh id hid
  · intro id
    rcases eq_or_ne id row.id with rfl | hne
    · simp [h.sound.fresh _ hfresh]
    · simp [Function.update_of_ne hne]

theorem good_change (h : w.Good) {old : SessionRow Rest} (hold : w.rows row.id = some old)
    (hnode : row.nodeId = old.nodeId) (harchived : old.state = .archived → row.state = .archived) :
    (w.changed row old).Good := by
  have hrevs : ∀ id, w.revs id ≤ (w.changed row old).revs id := by
    intro id
    unfold World.changed
    dsimp only
    split
    next => exact Nat.le_refl _
    next =>
      rcases eq_or_ne id row.id with rfl | hne
      · simp
      · simp [Function.update_of_ne hne]
  have advances : w.Advances (w.changed row old) := by
    refine ⟨fun id hid => hid, fun id _ => hrevs id, fun id _ row' hrow' => ?_⟩
    rcases eq_or_ne id row.id with rfl | hne
    · obtain rfl : row = row' := by simpa [World.changed] using hrow'
      refine ⟨old, hold, (h.sound.rows _ _ hold).1, hnode.symm, harchived, fun hsame => ?_⟩
      unfold World.changed at hsame
      dsimp only at hsame
      split at hsame
      next heq => exact heq.symm
      next => simp at hsame
    · have hrow : w.rows id = some row' := by
        simpa [World.changed, Function.update_of_ne hne] using hrow'
      exact ⟨row', hrow, rfl, rfl, fun harchived => harchived, fun _ => rfl⟩
  refine ⟨sound_of_advances h.sound advances ?_ ?_ hrevs rfl rfl rfl rfl rfl rfl rfl,
    converging_of_advances h.sound h.converging advances rfl rfl rfl rfl rfl rfl rfl⟩
  · intro id row' hrow'
    rcases eq_or_ne id row.id with rfl | hne
    · obtain rfl : row = row' := by simpa [World.changed] using hrow'
      exact ⟨rfl, (h.sound.rows _ _ hold).2⟩
    · exact h.sound.rows id row' (by simpa [World.changed, Function.update_of_ne hne] using hrow')
  · intro id hid
    have hne : id ≠ row.id := fun heq => hid (heq ▸ (h.sound.rows _ _ hold).2)
    have hsame : (w.changed row old).revs id = w.revs id := by
      unfold World.changed
      dsimp only
      split
      next => rfl
      next => rw [Function.update_of_ne hne]
    exact hsame.trans (h.sound.fresh id hid)

theorem good_delete (h : w.Good) (gone : String) :
    World.Good { w with rows := Function.update w.rows gone none } := by
  have hrows : ∀ id row, Function.update w.rows gone none id = some row →
      w.rows id = some row := by
    intro id row hrow
    rcases eq_or_ne id gone with rfl | hne
    · simp at hrow
    · rwa [Function.update_of_ne hne] at hrow
  have advances : w.Advances { w with rows := Function.update w.rows gone none } :=
    ⟨fun id hid => hid, fun id _ => Nat.le_refl _, fun id _ row' hrow' =>
      ⟨row', hrows id row' hrow', rfl, rfl, fun harchived => harchived, fun _ => rfl⟩⟩
  exact ⟨sound_of_advances h.sound advances (fun id row hrow => h.sound.rows id row
      (hrows id row hrow)) h.sound.fresh (fun _ => Nat.le_refl _) rfl rfl rfl rfl rfl rfl rfl,
    converging_of_advances h.sound h.converging advances rfl rfl rfl rfl rfl rfl rfl⟩

theorem messageOf_eq_some {f : Frame} (h : w.messageOf id = some f) :
    ∃ row, w.rows id = some row ∧ f.message.sessionId = row.id ∧ f.message.nodeId = row.nodeId ∧
      f.message.facts = row.facts ∧ f.message.name ≠ none ∧ f.rev = w.revs id := by
  obtain ⟨row, hrow, rfl⟩ := Option.map_eq_some_iff.mp h
  exact ⟨row, hrow, rfl, rfl, rfl, by simp, rfl⟩

theorem knows_current (hw : w.Sound) (hrow : w.rows id = some row) :
    w.Knows id row.nodeId (w.revs id) row.facts where
  known := (hw.rows id row hrow).2
  le := Nat.le_refl _
  row row' hrow' := by
    obtain rfl := Option.some.inj (hrow.symm.trans hrow')
    exact ⟨rfl, fun _ => rfl⟩

theorem World.Knows.of_same {node : Option String} {rev : ℕ} {facts : Facts}
    (h : w.Knows id node rev facts) (hids : w'.ids = w.ids) (hrevs : w'.revs = w.revs)
    (hrows : w'.rows = w.rows) : w'.Knows id node rev facts where
  known := hids ▸ h.known
  le := hrevs ▸ h.le
  row row hrow := hrevs ▸ h.row row (hrows ▸ hrow)

theorem World.Knows.withNode {node node' : Option String} {rev rev' : ℕ} {facts facts' : Facts}
    (h : w.Knows id node rev facts) (hnode : w.Knows id node' rev' facts') :
    w.Knows id node' rev facts where
  __ := h
  row row hrow := ⟨(hnode.row row hrow).1, (h.row row hrow).2⟩

theorem inFlight_iff : w.InFlight id ↔ ∃ f ∈ w.frames.flatten, f.message.sessionId = id := by
  simp only [World.InFlight, List.mem_flatten]
  constructor
  · rintro ⟨batch, hbatch, f, hf, hid⟩
    exact ⟨f, ⟨batch, hbatch, hf⟩, hid⟩
  · rintro ⟨f, ⟨batch, hbatch, hf⟩, hid⟩
    exact ⟨batch, hbatch, f, hf, hid⟩

theorem mem_announced {ids : List String} {f : Frame} (hw : w.Sound)
    (hf : f ∈ ids.filterMap w.messageOf) :
    f.message.sessionId ∈ ids ∧ ∃ row, w.rows f.message.sessionId = some row ∧
      f.message.nodeId = row.nodeId ∧ f.message.facts = row.facts ∧ f.message.name ≠ none ∧
      f.rev = w.revs f.message.sessionId := by
  obtain ⟨id, hid, hmessage⟩ := List.mem_filterMap.mp hf
  obtain ⟨row, hrow, hown, hnode, hfacts, hname, hrev⟩ := messageOf_eq_some hmessage
  have heq : f.message.sessionId = id := hown.trans (hw.rows id row hrow).1
  rw [heq]
  exact ⟨hid, row, hrow, hnode, hfacts, hname, hrev⟩

theorem good_announce (h : w.Good) (ids : List String) : (w.announcing ids).Good := by
  have hsame : ∀ {id node rev facts}, w.Knows id node rev facts →
      (w.announcing ids).Knows id node rev facts := fun hk => hk.of_same rfl rfl rfl
  constructor
  · constructor
    · exact h.sound.rows
    · exact h.sound.fresh
    · intro id
      simp only [World.announcing]
      split
      · exact Nat.le_refl _
      · exact h.sound.announced id
    · intro batch hbatch f hf
      rcases List.mem_append.mp hbatch with hbatch | hbatch
      · obtain ⟨hname, hknows⟩ := h.sound.frames batch hbatch f hf
        exact ⟨hname, hsame hknows⟩
      · obtain rfl := List.mem_singleton.mp hbatch
        obtain ⟨-, row, hrow, hnode, hfacts, hname, hrev⟩ := mem_announced h.sound hf
        rw [hnode, hfacts, hrev]
        exact ⟨hname, hsame (knows_current h.sound hrow)⟩
    · intro id f hf
      have hsplit : ((w.announcing ids).frames.flatten.filter (·.message.sessionId = id)) =
          w.frames.flatten.filter (·.message.sessionId = id) ++
            (ids.filterMap w.messageOf).filter (·.message.sessionId = id) := by
        simp [World.announcing]
      rw [hsplit, List.getLast?_append, Option.or_eq_some_iff] at hf
      rcases hf with hf | ⟨hnone, hf⟩
      · have hmem := List.mem_filter.mp (List.mem_of_getLast? hf)
        have hid : f.message.sessionId = id := by simpa using hmem.2
        obtain ⟨hin, row, hrow, -, -, -, hrev⟩ := mem_announced h.sound hmem.1
        rw [hid] at hin hrow hrev
        simp [World.announcing, hin, hrow, hrev]
      · have hout : ¬(id ∈ ids ∧ (w.rows id).isSome = true) := by
          rintro ⟨hin, hsome⟩
          obtain ⟨row, hrow⟩ := Option.isSome_iff_exists.mp hsome
          have hmem : ⟨⟨row.id, row.nodeId, row.state, row.waitingSince, some row.name⟩,
              w.revs id⟩ ∈ ids.filterMap w.messageOf :=
            List.mem_filterMap.mpr ⟨id, hin, by simp [World.messageOf, hrow]⟩
          have hempty := List.getLast?_eq_none_iff.mp hnone
          have := List.filter_eq_nil_iff.mp hempty _ hmem
          simp [(h.sound.rows id row hrow).1] at this
        simp only [World.announcing, if_neg hout]
        exact h.sound.last id f hf
    · exact fun id r hr => hsame (h.sound.records id r hr)
    · intro nodeId flight rows hflight hread
      obtain ⟨hknows, hnode⟩ := h.sound.flights nodeId flight rows hflight hread
      exact ⟨fun r hr => hsame (hknows r hr), hnode⟩
    · exact fun entry hentry rows hread r hr => hsame (h.sound.lists entry hentry rows hread r hr)
    · exact h.sound.named
  · constructor
    · intro id r row hr hrow
      have hown := (h.sound.rows id row hrow).1
      by_cases hin : id ∈ ids
      · refine .inl (.inr (.inl ?_))
        refine ⟨ids.filterMap w.messageOf, List.mem_append_right _ (List.mem_singleton_self _),
          _, List.mem_filterMap.mpr ⟨id, hin, Option.map_eq_some_iff.mpr ⟨row, hrow, rfl⟩⟩, rfl⟩
      · have hannounced : (w.announcing ids).announced row.id = w.announced row.id := by
          simp [World.announcing, hown, hin]
        rcases h.converging.current id r row hr hrow with hcurrent | hcoming
        · refine .inl ?_
          unfold World.Current World.InFlight
          rw [hannounced]
          rcases hcurrent with hcurrent | ⟨batch, hbatch, hf⟩ | hcurrent
          · exact .inl hcurrent
          · exact .inr (.inl ⟨batch, List.mem_append_left _ hbatch, hf⟩)
          · exact .inr (.inr hcurrent)
        · refine .inr ?_
          unfold World.Coming
          rw [hannounced]
          exact hcoming
    · exact h.converging.completed

theorem mem_nodesToRefetchForFrames {messages : List SessionStateMessage}
    {openNodeIds : List String} {isComplete : String → Bool} {message : SessionStateMessage}
    (hmem : message ∈ messages) (hnode : message.nodeId = some nodeId)
    (hopen : nodeId ∈ openNodeIds) (hcomplete : isComplete message.sessionId = false) :
    nodeId ∈ nodesToRefetchForFrames messages openNodeIds isComplete := by
  unfold nodesToRefetchForFrames
  rw [List.mem_eraseDups]
  refine List.mem_filterMap.mpr ⟨message, hmem, ?_⟩
  simp [hnode, Option.filter, hopen, hcomplete]

theorem World.Coming.of_flights (h : w.Coming row) (hannounced : w'.announced = w.announced)
    (hflights : ∀ nodeId flight, w.flights nodeId = some flight → ∃ flight',
      w'.flights nodeId = some flight' ∧ flight'.request.rows = flight.request.rows ∧
        (flight.trailing = true → flight'.trailing = true)) : w'.Coming row := by
  obtain ⟨nodeId, hnode, flight, hflight, hcomes⟩ := h
  obtain ⟨flight', hflight', hrows, htrailing⟩ := hflights nodeId flight hflight
  refine ⟨nodeId, hnode, flight', hflight', ?_⟩
  rw [hannounced, hrows]
  rcases hcomes with ⟨hlisted, hreads | hreads⟩ | hread
  · exact .inl ⟨hlisted, .inl (htrailing hreads)⟩
  · exact .inl ⟨hlisted, .inr (hrows.trans hreads)⟩
  · exact .inr hread

theorem World.Completing.of_flights (h : w.Completing nodeId id)
    (hflights : ∀ nodeId flight, w.flights nodeId = some flight → ∃ flight',
      w'.flights nodeId = some flight' ∧ flight'.request.rows = flight.request.rows ∧
        (flight.trailing = true → flight'.trailing = true)) : w'.Completing nodeId id := by
  obtain ⟨flight, hflight, hcomes⟩ := h
  obtain ⟨flight', hflight', hrows, htrailing⟩ := hflights nodeId flight hflight
  refine ⟨flight', hflight', ?_⟩
  rw [hrows]
  rcases hcomes with (hreads | hreads) | hread
  · exact .inl (.inl (htrailing hreads))
  · exact .inl (.inr (hrows.trans hreads))
  · exact .inr hread

theorem good_deliver (h : w.Good) {batch : List Frame} {rest : List (List Frame)}
    (hframes : w.frames = batch :: rest) : (w.delivered batch rest).Good := by
  have hbatch : ∀ f ∈ batch, f.message.name ≠ none ∧
      w.Knows f.message.sessionId f.message.nodeId f.rev f.message.facts :=
    h.sound.frames batch (hframes ▸ List.mem_cons_self)
  have hcases := fun id => delivered_cases batch w.records w.seen (fun f hf => (hbatch f hf).1) id
  have hflights : ∀ nodeId flight, w.flights nodeId = some flight → ∃ flight',
      (w.delivered batch rest).flights nodeId = some flight' ∧
        flight'.request.rows = flight.request.rows ∧
        (flight.trailing = true → flight'.trailing = true) := by
    intro nodeId flight hflight
    obtain ⟨flight', hflight', hrequest, htrailing⟩ := foldl_refreshed_keeps
      (nodesToRefetchForFrames (batch.map (·.message)) w.openNodeIds
        (w.records.applyFrames (batch.map (·.message))).holdsComplete) hflight
    exact ⟨flight', hflight', congrArg _ hrequest, htrailing⟩
  have hlast : ∀ id f, (batch.filter (·.message.sessionId = id)).getLast? = some f →
      (∃ f ∈ rest.flatten, f.message.sessionId = id) ∨ f.rev = w.announced id := by
    intro id f hf
    rcases List.eq_nil_or_concat' (rest.flatten.filter (·.message.sessionId = id)) with
      hnone | ⟨init, last, hsome⟩
    · refine .inr (h.sound.last id f ?_)
      rw [hframes, List.flatten_cons, List.filter_append, hnone, List.append_nil, hf]
    · have hmem : last ∈ rest.flatten.filter (·.message.sessionId = id) := by
        rw [hsome]
        exact List.mem_append_right _ (List.mem_singleton_self _)
      exact .inl ⟨last, (List.mem_filter.mp hmem).1, by simpa using (List.mem_filter.mp hmem).2⟩
  constructor
  · constructor
    · exact h.sound.rows
    · exact h.sound.fresh
    · exact h.sound.announced
    · intro other hother f hf
      obtain ⟨hname, hknows⟩ := h.sound.frames other (hframes ▸ List.mem_cons_of_mem _ hother) f hf
      exact ⟨hname, hknows.of_same rfl rfl rfl⟩
    · intro id f hf
      refine h.sound.last id f ?_
      rw [hframes, List.flatten_cons, List.filter_append, List.getLast?_append]
      exact Option.or_eq_some_iff.mpr (.inl hf)
    · intro id r hr
      rcases hcases id with ⟨-, hsame, hseen⟩ | ⟨f, hf, hseen, r', hr', hfacts, hnode⟩
      · have hold := h.sound.records id r (hsame ▸ hr)
        rw [← hseen] at hold
        exact hold.of_same rfl rfl rfl
      · obtain rfl := Option.some.inj (hr'.symm.trans hr)
        have hmem := List.mem_filter.mp (List.mem_of_getLast? hf)
        have hid : f.message.sessionId = id := by simpa using hmem.2
        have hknows := (hbatch f hmem.1).2
        rw [hid] at hknows
        have hgoal : w.Knows id r'.nodeId f.rev f.message.facts := by
          rcases hnode with ⟨f', hf', hid', hnode⟩ | ⟨old, hold, hnode⟩
          · have hother := (hbatch f' hf').2
            rw [hid'] at hother
            exact hnode ▸ hknows.withNode hother
          · exact hnode ▸ hknows.withNode (h.sound.records id old hold)
        rw [← hfacts, ← hseen] at hgoal
        exact hgoal.of_same rfl rfl rfl
    · intro nodeId flight rows hflight hread
      rcases foldl_refreshed_from _ hflight with hnone | ⟨old, hold, hrequest⟩
      · rw [hnone] at hread
        cases hread
      · obtain ⟨hknows, hnode⟩ := h.sound.flights nodeId old rows hold (hrequest ▸ hread)
        exact ⟨fun r hr => (hknows r hr).of_same rfl rfl rfl, hnode⟩
    · exact fun entry hentry rows hread r hr =>
        (h.sound.lists entry hentry rows hread r hr).of_same rfl rfl rfl
    · intro id hname
      rcases Bool.or_eq_true_iff.mp hname with hname | hname
      · exact h.sound.named id hname
      · obtain ⟨message, hmessage, hid⟩ := List.any_eq_true.mp hname
        obtain ⟨f, hf, rfl⟩ := List.mem_map.mp hmessage
        exact of_decide_eq_true hid ▸ (hbatch f hf).2.known
  · constructor
    · intro id r row hr hrow
      have hown := (h.sound.rows id row hrow).1
      rcases hcases id with ⟨hnone, hsame, hseen⟩ | ⟨f, hf, hseen, -⟩
      · rcases h.converging.current id r row (hsame ▸ hr) hrow with hcurrent | hcoming
        · refine .inl ?_
          have hseen' : (w.delivered batch rest).seen id = w.seen id := hseen
          rw [hseen']
          rcases hcurrent with hcurrent | hflying | hcurrent
          · exact .inl hcurrent
          · obtain ⟨f, hf, hid⟩ := inFlight_iff.mp hflying
            rw [hframes, List.flatten_cons] at hf
            rcases List.mem_append.mp hf with hf | hf
            · exact absurd (hid.trans hown) (hnone f hf)
            · exact .inr (.inl (inFlight_iff.mpr ⟨f, hf, hid⟩))
          · exact .inr (.inr hcurrent)
        · exact .inr (hcoming.of_flights rfl hflights)
      · refine .inl ?_
        have hseen' : (w.delivered batch rest).seen id = f.rev := hseen
        rw [hseen']
        rcases hlast id f hf with ⟨later, hlater, hid⟩ | hrev
        · exact .inr (.inl (inFlight_iff.mpr ⟨later, hlater, hid.trans hown.symm⟩))
        · exact .inl (Nat.le_of_eq (hown.symm ▸ hrev.symm))
    · intro id row nodeId hrow hname hnode hopen hlisted
      have hcomplete : (w.delivered batch rest).records.holdsComplete id =
          w.records.holdsComplete id :=
        congrFun (applyFrames_holdsComplete (batch.map Frame.message) w.records) id
      rw [hcomplete]
      rcases Bool.or_eq_true_iff.mp hname with hname | hname
      · exact (h.converging.completed id row nodeId hrow hname hnode hopen hlisted).imp_right
          fun hcompleting => hcompleting.of_flights hflights
      · -- named by this very batch: complete already, or its node is asked for
        obtain ⟨message, hmessage, hid⟩ := List.any_eq_true.mp hname
        have hid := of_decide_eq_true hid
        obtain ⟨f, hf, rfl⟩ := List.mem_map.mp hmessage
        cases hheld : w.records.holdsComplete id with
        | true => exact .inl rfl
        | false =>
          have hknows := (hbatch f hf).2
          rw [hid] at hknows
          have hincomplete : (w.delivered batch rest).records.holdsComplete
              f.message.sessionId = false := by rw [hid, hcomplete, hheld]
          have hasked := mem_nodesToRefetchForFrames hmessage
            ((hknows.row row hrow).1.symm.trans hnode) hopen hincomplete
          obtain ⟨flight, hflight, hreads⟩ := foldl_refreshed_mem w.flights hasked
          exact .inr ⟨flight, hflight, .inl hreads⟩

end Portuni.SessionStore
