import Portuni.SessionStore.Steps

namespace Portuni.SessionStore

/-!
Opening and closing a node, asking for lists and reading them keep it too; an answer keeps it when
it lands as admitted.
-/

section

open Sessions

universe u

variable {Rest : Type u} {w w' : World Rest} {id nodeId : String} {row : SessionRow Rest}

structure World.SameServer (w w' : World Rest) : Prop where
  ids : w'.ids = w.ids
  rows : w'.rows = w.rows
  revs : w'.revs = w.revs
  frames : w'.frames = w.frames
  announced : w'.announced = w.announced
  named : w'.named = w.named

theorem World.SameServer.knows {node : Option String} {rev : ℕ} {facts : Facts}
    (same : w.SameServer w') (h : w.Knows id node rev facts) : w'.Knows id node rev facts :=
  h.of_same same.ids same.revs same.rows

theorem World.SameServer.current {rev : ℕ} (same : w.SameServer w') (h : w.Current row rev) :
    w'.Current row rev := by
  unfold World.Current World.InFlight at h ⊢
  rwa [same.announced, same.frames, same.revs]

theorem World.SameServer.sound (same : w.SameServer w') (h : w.Sound)
    (hrecords : ∀ id r, w'.records id = some r → w.Knows id r.nodeId (w'.seen id) r.facts)
    (hflights : ∀ nodeId flight rows, w'.flights nodeId = some flight →
      flight.request.rows = some rows → w.KnowsAll rows ∧ ∀ r ∈ rows, r.row.nodeId = some nodeId)
    (hlists : ∀ entry ∈ w'.lists, ∀ rows, entry.2.2.rows = some rows → w.KnowsAll rows) :
    w'.Sound where
  rows id row hrow := by
    rw [same.ids]
    exact h.rows id row (same.rows ▸ hrow)
  fresh id hid := by
    rw [same.revs]
    exact h.fresh id (same.ids ▸ hid)
  announced id := by
    rw [same.announced, same.revs]
    exact h.announced id
  frames batch hbatch f hf := by
    obtain ⟨hname, hknows⟩ := h.frames batch (same.frames ▸ hbatch) f hf
    exact ⟨hname, same.knows hknows⟩
  last id f hf := by
    rw [same.announced]
    exact h.last id f (same.frames ▸ hf)
  records id r hr := same.knows (hrecords id r hr)
  flights nodeId flight rows hflight hread := by
    obtain ⟨hknows, hnode⟩ := hflights nodeId flight rows hflight hread
    exact ⟨fun r hr => same.knows (hknows r hr), hnode⟩
  lists entry hentry rows hread r hr := same.knows (hlists entry hentry rows hread r hr)
  named id hname := same.ids ▸ h.named id (same.named ▸ hname)

theorem good_refresh (h : w.Good) (nodeId : String) :
    World.Good { w with flights := refreshed w.flights nodeId } := by
  have same : w.SameServer { w with flights := refreshed w.flights nodeId } :=
    ⟨rfl, rfl, rfl, rfl, rfl, rfl⟩
  have hkept : ∀ other flight, w.flights other = some flight → ∃ flight',
      refreshed w.flights nodeId other = some flight' ∧
        flight'.request.rows = flight.request.rows ∧
        (flight.trailing = true → flight'.trailing = true) := by
    intro other flight hflight
    obtain ⟨flight', hflight', hrequest, htrailing⟩ := refreshed_keeps nodeId hflight
    exact ⟨flight', hflight', congrArg _ hrequest, htrailing⟩
  constructor
  · refine same.sound h.sound h.sound.records (fun other flight rows hflight hread => ?_)
      h.sound.lists
    rcases refreshed_from nodeId hflight with hnone | ⟨old, hold, hrequest⟩
    · rw [hnone] at hread
      cases hread
    · exact h.sound.flights other old rows hold (hrequest ▸ hread)
  · constructor
    · intro id r row hr hrow
      rcases h.converging.current id r row hr hrow with hcurrent | hcoming
      · exact .inl (same.current hcurrent)
      · exact .inr (hcoming.of_flights rfl hkept)
    · intro id row other hrow hname hnode hopen hlisted
      exact (h.converging.completed id row other hrow hname hnode hopen hlisted).imp_right
        fun hcompleting => hcompleting.of_flights hkept

theorem good_openNode (h : w.Good) (nodeId : String) : (w.opened nodeId).Good := by
  unfold World.opened
  split
  next => exact h
  next =>
    have hrefreshed := good_refresh h nodeId
    refine ⟨⟨hrefreshed.sound.rows, hrefreshed.sound.fresh, hrefreshed.sound.announced,
      fun batch hbatch f hf => ?_, hrefreshed.sound.last, fun id r hr => ?_,
      fun other flight rows hflight hread => ?_, fun entry hentry rows hread r hr => ?_,
      hrefreshed.sound.named⟩, ⟨hrefreshed.converging.current, ?_⟩⟩
    · obtain ⟨hname, hknows⟩ := hrefreshed.sound.frames batch hbatch f hf
      exact ⟨hname, hknows.of_same rfl rfl rfl⟩
    · exact (hrefreshed.sound.records id r hr).of_same rfl rfl rfl
    · obtain ⟨hknows, hnode⟩ := hrefreshed.sound.flights other flight rows hflight hread
      exact ⟨fun r hr => (hknows r hr).of_same rfl rfl rfl, hnode⟩
    · exact (hrefreshed.sound.lists entry hentry rows hread r hr).of_same rfl rfl rfl
    · intro id row other hrow hname hnode hopen hlisted
      rcases List.mem_append.mp hopen with hopen | hopen
      · exact hrefreshed.converging.completed id row other hrow hname hnode hopen hlisted
      · obtain rfl := List.mem_singleton.mp hopen
        obtain ⟨flight, hflight, hreads⟩ := refreshed_self w.flights other
        exact .inr ⟨flight, hflight, .inl hreads⟩

theorem removeNode_eq_some {records : Records Rest} {keepId : Option String}
    {r : StoredSession Rest} (h : records.removeNode nodeId keepId id = some r) :
    records id = some r := by
  unfold Records.removeNode at h
  split at h
  next => cases h
  next => exact h

theorem good_closeNode (h : w.Good) (nodeId : String) (keepId : Option String) :
    (w.closed nodeId keepId).Good := by
  have same : w.SameServer (w.closed nodeId keepId) := ⟨rfl, rfl, rfl, rfl, rfl, rfl⟩
  have hkept : ∀ other flight, w.flights other = some flight → ∃ flight',
      (w.closed nodeId keepId).flights other = some flight' ∧
        flight'.request.rows = flight.request.rows ∧
        (flight.trailing = true → flight'.trailing = true) := by
    intro other flight hflight
    exact ⟨_, Option.map_eq_some_iff.mpr ⟨flight, hflight, rfl⟩, rfl, fun htrailing => htrailing⟩
  constructor
  · refine same.sound h.sound (fun id r hr => h.sound.records id r (removeNode_eq_some hr))
      (fun other flight rows hflight hread => ?_) (fun entry hentry rows hread => ?_)
    · obtain ⟨old, hold, rfl⟩ := Option.map_eq_some_iff.mp hflight
      exact h.sound.flights other old rows hold hread
    · obtain ⟨old, hold, rfl⟩ := List.mem_map.mp hentry
      exact h.sound.lists old hold rows hread
  · constructor
    · intro id r row hr hrow
      rcases h.converging.current id r row (removeNode_eq_some hr) hrow with hcurrent | hcoming
      · exact .inl (same.current hcurrent)
      · exact .inr (hcoming.of_flights rfl hkept)
    · intro id row other hrow hname hnode hopen hlisted
      obtain ⟨hopen, hother⟩ := List.mem_filter.mp hopen
      have hother : other ≠ nodeId := of_decide_eq_true hother
      rcases h.converging.completed id row other hrow hname hnode hopen hlisted with
        hcomplete | hcompleting
      · -- the record is the row's own, so it belongs to a node that stays open
        refine .inl ?_
        obtain ⟨r, hr, hcomplete⟩ := (Option.any_eq_true _ _).mp hcomplete
        have hrnode : r.nodeId = some other :=
          (((h.sound.records id r hr).row row hrow).1).symm.trans hnode
        have hstays : w.records.ofNode nodeId keepId id = false := by
          simp [Records.ofNode, hr, hrnode, hother]
        have hsame : (w.closed nodeId keepId).records id = some r := by
          simp [World.closed, Records.removeNode, hstays, hr]
        exact (Option.any_eq_true _ _).mpr ⟨r, hsame, hcomplete⟩
      · exact .inr (hcompleting.of_flights hkept)

theorem mem_listNodeSessions {includeArchived : Bool} {r : Read Rest} (hw : w.Sound)
    (h : r ∈ w.listNodeSessions nodeId includeArchived) :
    w.rows r.row.id = some r.row ∧ r.row.nodeId = some nodeId ∧ r.rev = w.revs r.row.id := by
  obtain ⟨id, -, hr⟩ := List.mem_filterMap.mp h
  obtain ⟨row, hrow, hr⟩ := Option.bind_eq_some_iff.mp hr
  split at hr
  next hcond =>
    cases hr
    obtain rfl := (hw.rows id row hrow).1
    exact ⟨hrow, hcond.1, rfl⟩
  next => cases hr

theorem listed (hw : w.Sound) (hrow : w.rows id = some row) (hnode : row.nodeId = some nodeId)
    (hlisted : row.state ≠ .archived) :
    ∃ r ∈ w.listNodeSessions nodeId false, r.row.id = id := by
  refine ⟨⟨row, w.revs id⟩, List.mem_filterMap.mpr ⟨id, (hw.rows id row hrow).2, ?_⟩,
    (hw.rows id row hrow).1⟩
  simp [hrow, hnode, hlisted]

theorem knowsAll_listNodeSessions (hw : w.Sound) (nodeId : String) (includeArchived : Bool) :
    w.KnowsAll (w.listNodeSessions nodeId includeArchived) := by
  intro r hr
  obtain ⟨hrow, -, hrev⟩ := mem_listNodeSessions hw hr
  rw [hrev]
  exact knows_current hw hrow

theorem good_read (h : w.Good) {flight : Flight Rest} (hflight : w.flights nodeId = some flight)
    (hunread : flight.request.rows = none) :
    World.Good { w with
      flights := Function.update w.flights nodeId
        (some ⟨⟨some (w.listNodeSessions nodeId false), flight.request.removed⟩,
          flight.trailing⟩) } := by
  let flight' : Flight Rest :=
    ⟨⟨some (w.listNodeSessions nodeId false), flight.request.removed⟩, flight.trailing⟩
  let w' : World Rest := { w with flights := Function.update w.flights nodeId (some flight') }
  have same : w.SameServer w' := ⟨rfl, rfl, rfl, rfl, rfl, rfl⟩
  change w'.Good
  constructor
  · refine same.sound h.sound h.sound.records (fun other old rows hold hread => ?_) h.sound.lists
    rcases eq_or_ne other nodeId with rfl | hne
    · have hself : w'.flights other = some flight' := Function.update_self ..
      obtain rfl := Option.some.inj (hself.symm.trans hold)
      cases hread
      exact ⟨knowsAll_listNodeSessions h.sound other false,
        fun r hr => (mem_listNodeSessions h.sound hr).2.1⟩
    · exact h.sound.flights other old rows
        ((Function.update_of_ne hne (some flight') w.flights).symm.trans hold) hread
  · constructor
    · intro id r row hr hrow
      rcases h.converging.current id r row hr hrow with hcurrent | hcoming
      · exact .inl (same.current hcurrent)
      · refine .inr ?_
        obtain ⟨other, hnode, old, hold, hcomes⟩ := hcoming
        rcases eq_or_ne other nodeId with rfl | hne
        · obtain rfl := Option.some.inj (hflight.symm.trans hold)
          have hown := (h.sound.rows id row hrow).1
          refine ⟨other, hnode, flight', Function.update_self .., ?_⟩
          rcases hcomes with ⟨hlisted, -⟩ | ⟨rows, hread, -⟩
          · -- the list has the row as it is now
            refine .inr ⟨_, rfl, hown ▸ listed h.sound hrow hnode hlisted, fun r hr hid => ?_⟩
            obtain ⟨-, -, hrev⟩ := mem_listNodeSessions h.sound hr
            rw [hrev, hid]
            exact h.sound.announced row.id
          · rw [hunread] at hread
            cases hread
        · exact ⟨other, hnode, old, (Function.update_of_ne hne _ _).trans hold, hcomes⟩
    · intro id row other hrow hname hnode hopen hlisted
      refine (h.converging.completed id row other hrow hname hnode hopen hlisted).imp_right ?_
      rintro ⟨old, hold, hcomes⟩
      rcases eq_or_ne other nodeId with rfl | hne
      · exact ⟨flight', Function.update_self .., .inr ⟨_, rfl, listed h.sound hrow hnode hlisted⟩⟩
      · exact ⟨old, (Function.update_of_ne hne _ _).trans hold, hcomes⟩

theorem good_lists (h : w.Good) {lists : List (String × Bool × ListRequest Rest)}
    (hlists : ∀ entry ∈ lists, ∀ rows, entry.2.2.rows = some rows → w.KnowsAll rows) :
    World.Good { w with lists := lists } where
  sound := World.SameServer.sound (w := w) ⟨rfl, rfl, rfl, rfl, rfl, rfl⟩ h.sound h.sound.records
    h.sound.flights hlists
  converging := ⟨h.converging.current, h.converging.completed⟩

section

variable {rows : List (Read Rest)}

theorem filled_knows (h : w.Sound) (hrows : w.KnowsAll rows)
    {r : StoredSession Rest} (hr : (w.filled rows).records id = some r) :
    w.Knows id r.nodeId ((w.filled rows).seen id) r.facts := by
  rcases filled_cases rows w.records w.seen id with
    ⟨-, hsame, hseen⟩ | ⟨read, hread, rfl, hrow, hrev⟩
  · exact (congrArg (w.Knows id r.nodeId · r.facts) hseen).mpr (h.records id r (hsame ▸ hr))
  · obtain rfl := Option.some.inj (hrow.symm.trans hr)
    exact (congrArg (w.Knows read.row.id read.row.nodeId · read.row.facts) hrev).mpr
      (hrows read hread)

theorem filled_holdsComplete {r : Read Rest} (hr : r ∈ rows) :
    (w.filled rows).records.holdsComplete r.row.id = true := by
  rcases filled_cases rows w.records w.seen r.row.id with ⟨hnone, -⟩ | ⟨read, -, -, hrow, -⟩
  · exact absurd rfl (hnone r hr)
  · exact (Option.any_eq_true _ _).mpr ⟨_, hrow, rfl⟩

theorem holdsComplete_filled
    (h : w.records.holdsComplete id = true) : (w.filled rows).records.holdsComplete id = true := by
  rcases filled_cases rows w.records w.seen id with ⟨-, hsame, -⟩ | ⟨read, -, -, hrow, -⟩
  · exact (congrArg (fun r => Option.any StoredSession.isComplete r = true) hsame).mpr h
  · exact (Option.any_eq_true _ _).mpr ⟨_, hrow, rfl⟩

theorem good_land (h : w.Good) {flight : Flight Rest}
    (hflight : w.flights nodeId = some flight) (hread : flight.request.rows = some rows)
    (hadmits : w.Admits (.land nodeId)) :
    World.Good { w.filled rows with
      flights := Function.update w.flights nodeId
        (if flight.trailing then some {} else none) } := by
  obtain ⟨hknows, hnodes⟩ := h.sound.flights nodeId flight rows hflight hread
  let next : Option (Flight Rest) := if flight.trailing then some {} else none
  let w' : World Rest :=
    { w.filled rows with flights := Function.update w.flights nodeId next }
  have same : w.SameServer w' := ⟨rfl, rfl, rfl, rfl, rfl, rfl⟩
  have hnext : flight.trailing = true → w'.flights nodeId = some {} := by
    intro htrailing
    change Function.update w.flights nodeId next nodeId = some {}
    simp [next, htrailing]
  have hothers : ∀ other, other ≠ nodeId → w'.flights other = w.flights other :=
    fun other hne => Function.update_of_ne hne ..
  change w'.Good
  constructor
  · refine same.sound h.sound (fun id r hr => filled_knows h.sound hknows hr)
      (fun other old oldRows hold hread => ?_) h.sound.lists
    rcases eq_or_ne other nodeId with rfl | hne
    · have hold : next = some old := (Function.update_self other next w.flights).symm.trans hold
      simp only [next] at hold
      split at hold
      next =>
        cases hold
        cases hread
      next => cases hold
    · exact h.sound.flights other old oldRows ((hothers other hne).symm.trans hold) hread
  · constructor
    · intro id r row hr hrow
      have hown := (h.sound.rows id row hrow).1
      rcases filled_cases rows w.records w.seen id with
        ⟨hnone, hsame, hseen⟩ | ⟨read, hmem, rfl, -, hrev⟩
      · have hseen' : w'.seen id = w.seen id := hseen
        rw [hseen']
        rcases h.converging.current id r row (hsame ▸ hr) hrow with hcurrent | hcoming
        · exact .inl (same.current hcurrent)
        · refine .inr ?_
          obtain ⟨other, hnode, old, hold, hcomes⟩ := hcoming
          rcases eq_or_ne other nodeId with rfl | hne
          · obtain rfl := Option.some.inj (hflight.symm.trans hold)
            -- the answer that lands has no row of the session, so it is the one behind it
            rcases hcomes with ⟨hlisted, hreads | hunread⟩ | ⟨rows', hrows', ⟨r', hr', hid⟩, -⟩
            · exact ⟨other, hnode, {}, hnext hreads, .inl ⟨hlisted, .inr rfl⟩⟩
            · rw [hread] at hunread
              cases hunread
            · obtain rfl := Option.some.inj (hread.symm.trans hrows')
              exact absurd (hid.trans hown) (hnone r' hr')
          · exact ⟨other, hnode, old, (hothers other hne).trans hold, hcomes⟩
      · have hrev' : w'.seen read.row.id = read.rev := hrev
        rw [hrev']
        rcases (hadmits flight hflight rows hread read hmem).1 row hrow with
          hcurrent | ⟨htrailing, hlisted⟩
        · exact .inl (same.current hcurrent)
        · have hnode : row.nodeId = some nodeId :=
            (((hknows read hmem).row row hrow).1).trans (hnodes read hmem)
          exact .inr ⟨nodeId, hnode, {}, hnext htrailing, .inl ⟨hlisted, .inr rfl⟩⟩
    · intro id row other hrow hname hnode hopen hlisted
      rcases h.converging.completed id row other hrow hname hnode hopen hlisted with
        hcomplete | ⟨old, hold, hcomes⟩
      · exact .inl (holdsComplete_filled hcomplete)
      · rcases eq_or_ne other nodeId with rfl | hne
        · obtain rfl := Option.some.inj (hflight.symm.trans hold)
          rcases hcomes with (hreads | hunread) | ⟨rows', hrows', r', hr', rfl⟩
          · exact .inr ⟨{}, hnext hreads, .inl (.inr rfl)⟩
          · rw [hread] at hunread
            cases hunread
          · obtain rfl := Option.some.inj (hread.symm.trans hrows')
            exact .inl (filled_holdsComplete hr')
        · exact .inr ⟨old, (hothers other hne).trans hold, hcomes⟩

theorem good_landList (h : w.Good) {entry : String × Bool × ListRequest Rest} {index : ℕ}
    (hentry : w.lists[index]? = some entry)
    (hread : entry.2.2.rows = some rows) (hadmits : w.Admits (.landList index)) :
    World.Good { w.filled rows with lists := w.lists.eraseIdx index } := by
  have hknows := h.sound.lists entry (List.mem_of_getElem? hentry) rows hread
  let w' : World Rest := { w.filled rows with lists := w.lists.eraseIdx index }
  have same : w.SameServer w' := ⟨rfl, rfl, rfl, rfl, rfl, rfl⟩
  change w'.Good
  constructor
  · exact same.sound h.sound (fun id r hr => filled_knows h.sound hknows hr) h.sound.flights
      fun other hother => h.sound.lists other ((List.eraseIdx_sublist ..).subset hother)
  · constructor
    · intro id r row hr hrow
      rcases filled_cases rows w.records w.seen id with
        ⟨-, hsame, hseen⟩ | ⟨read, hmem, rfl, -, hrev⟩
      · have hseen' : w'.seen id = w.seen id := hseen
        rw [hseen']
        exact (h.converging.current id r row (hsame ▸ hr) hrow).imp_left same.current
      · have hrev' : w'.seen read.row.id = read.rev := hrev
        rw [hrev']
        exact ((hadmits entry hentry rows hread read hmem).1 row hrow).imp_left same.current
    · intro id row other hrow hname hnode hopen hlisted
      exact (h.converging.completed id row other hrow hname hnode hopen hlisted).imp_left
        holdsComplete_filled

end

theorem good_step {a : Action Rest} (h : w.Good) (hadmits : w.Admits a)
    (hstep : step w a = some w') : w'.Good := by
  cases a with
  | create row =>
    simp only [step] at hstep
    split at hstep
    next => cases hstep
    next hfresh => exact Option.some.inj hstep ▸ good_create h hfresh
  | change row =>
    simp only [step] at hstep
    split at hstep
    next => cases hstep
    next old hold =>
      split at hstep
      next hcond => exact Option.some.inj hstep ▸ good_change h hold hcond.1 hcond.2
      next => cases hstep
  | delete id => exact Option.some.inj hstep ▸ good_delete h id
  | announce ids => exact Option.some.inj hstep ▸ good_announce h ids
  | deliver =>
    simp only [step] at hstep
    split at hstep
    next => cases hstep
    next hframes => exact Option.some.inj hstep ▸ good_deliver h hframes
  | openNode nodeId => exact Option.some.inj hstep ▸ good_openNode h nodeId
  | closeNode nodeId keepId => exact Option.some.inj hstep ▸ good_closeNode h nodeId keepId
  | refresh nodeId => exact Option.some.inj hstep ▸ good_refresh h nodeId
  | read nodeId =>
    simp only [step] at hstep
    split at hstep
    next hflight => exact Option.some.inj hstep ▸ good_read h hflight rfl
    next => cases hstep
  | land nodeId =>
    simp only [step] at hstep
    split at hstep
    next hflight => exact Option.some.inj hstep ▸ good_land h hflight rfl hadmits
    next => cases hstep
  | askList nodeId includeArchived =>
    refine Option.some.inj hstep ▸ good_lists h fun entry hentry rows hread => ?_
    rcases List.mem_append.mp hentry with hentry | hentry
    · exact h.sound.lists entry hentry rows hread
    · obtain rfl := List.mem_singleton.mp hentry
      cases hread
  | readList index =>
    simp only [step] at hstep
    split at hstep
    next nodeId includeArchived removed hlist =>
      refine Option.some.inj hstep ▸ good_lists h fun entry hentry rows hread => ?_
      rcases List.mem_or_eq_of_mem_set hentry with hentry | rfl
      · exact h.sound.lists entry hentry rows hread
      · exact Option.some.inj hread ▸ knowsAll_listNodeSessions h.sound nodeId includeArchived
    next => cases hstep
  | landList index =>
    simp only [step] at hstep
    split at hstep
    next hlist => exact Option.some.inj hstep ▸ good_landList h hlist rfl hadmits
    next => cases hstep

theorem good_empty : World.Good ({} : World Rest) where
  sound := by constructor <;> simp
  converging := by constructor <;> simp

end

open Sessions Library.Runs

universe u

variable {Rest : Type u} {w w' : World Rest} {acts : List (Action Rest)}

structure World.Quiet (w : World Rest) : Prop where
  frames : w.frames = []
  flights : ∀ nodeId, w.flights nodeId = none
  lists : w.lists = []

/-- Every record of a row whose last change was announced shows the row as it is. -/
def World.ShowsAnnounced (w : World Rest) : Prop :=
  ∀ id r row, w.records id = some r → w.rows id = some row → w.announced id = w.revs id →
    r.facts = row.facts

/-- Every thread that an open node lists and a frame has named is a whole record. -/
def World.CompletesNamed (w : World Rest) : Prop :=
  ∀ id row, w.rows id = some row → w.named id = true →
    (∃ nodeId ∈ w.openNodeIds, ∃ r ∈ w.listNodeSessions nodeId false, r.row.id = id) →
      w.records.holdsComplete id = true

def World.landing (w : World Rest) : Action Rest → Option (ListRequest Rest)
  | .land nodeId => (w.flights nodeId).map (·.request)
  | .landList index => w.lists[index]?.map (·.2.2)
  | _ => none

/-- Landing brings back no record that went with its node after the request was sent. -/
def World.KeepsRemoved (w w' : World Rest) (a : Action Rest) : Prop :=
  ∀ request ∈ w.landing a, ∀ id, request.removed id = true → w.records id = none →
    w'.records id = none

theorem showsAnnounced (h : w.Good) (quiet : w.Quiet) : w.ShowsAnnounced := by
  intro id r row hr hrow hannounced
  have hown := (h.sound.rows id row hrow).1
  have hknows := h.sound.records id r hr
  rcases h.converging.current id r row hr hrow with (hcurrent | hflying | hchanged) | hcoming
  · rw [hown, hannounced] at hcurrent
    exact ((hknows.row row hrow).2 (Nat.le_antisymm hknows.le hcurrent)).symm
  · obtain ⟨batch, hbatch, -⟩ := hflying
    rw [quiet.frames] at hbatch
    cases hbatch
  · rw [hown, hannounced] at hchanged
    exact absurd hchanged (Nat.lt_irrefl _)
  · obtain ⟨nodeId, -, flight, hflight, -⟩ := hcoming
    rw [quiet.flights nodeId] at hflight
    cases hflight

theorem completesNamed (h : w.Good) (quiet : w.Quiet) : w.CompletesNamed := by
  rintro id row hrow hname ⟨nodeId, hopen, r, hr, rfl⟩
  obtain ⟨hrow', hnode, -⟩ := mem_listNodeSessions h.sound hr
  obtain rfl := Option.some.inj (hrow.symm.trans hrow')
  have hlisted : r.row.state ≠ .archived := by
    obtain ⟨id, -, hread⟩ := List.mem_filterMap.mp hr
    obtain ⟨row, -, hread⟩ := Option.bind_eq_some_iff.mp hread
    split at hread
    next hcond =>
      cases hread
      simpa using hcond.2
    next => cases hread
  rcases h.converging.completed _ _ nodeId hrow hname hnode hopen hlisted with
    hcomplete | ⟨flight, hflight, -⟩
  · exact hcomplete
  · rw [quiet.flights nodeId] at hflight
    cases hflight

theorem filled_absent {rows : List (Read Rest)} {id : String}
    (hrows : ∀ r ∈ rows, r.row.id = id → w.records id ≠ none) (hgone : w.records id = none) :
    (w.filled rows).records id = none := by
  rcases filled_cases rows w.records w.seen id with ⟨-, hsame, -⟩ | ⟨r, hr, hid, -⟩
  · exact hsame.trans hgone
  · exact absurd hgone (hrows r hr hid)

theorem keepsRemoved {a : Action Rest} (hadmits : w.Admits a) (hstep : step w a = some w') :
    w.KeepsRemoved w' a := by
  intro request hrequest id hremoved hgone
  cases a with
  | land nodeId =>
    obtain ⟨flight, hflight, rfl⟩ := Option.map_eq_some_iff.mp hrequest
    simp only [step] at hstep
    split at hstep
    next rows removed trailing hread =>
      obtain rfl := Option.some.inj (hread.symm.trans hflight)
      cases hstep
      refine filled_absent (fun r hr hid => ?_) hgone
      exact hid ▸ (hadmits _ hflight rows rfl r hr).2 (hid ▸ hremoved)
    next => cases hstep
  | landList index =>
    obtain ⟨entry, hentry, rfl⟩ := Option.map_eq_some_iff.mp hrequest
    simp only [step] at hstep
    split at hstep
    next nodeId includeArchived rows removed hread =>
      obtain rfl := Option.some.inj (hread.symm.trans hentry)
      cases hstep
      refine filled_absent (fun r hr hid => ?_) hgone
      exact hid ▸ (hadmits _ hentry rows rfl r hr).2 (hid ▸ hremoved)
    next => cases hstep
  | _ => cases hrequest

/-- The state that a run reaches shows the server once all is quiet, and so on at every step: no
landing brings back what was removed. -/
theorem records_converge (run : Run step World.Admits ({} : World Rest) acts w) :
    (w.Quiet → w.ShowsAnnounced ∧ w.CompletesNamed) ∧
      ∀ a w', w.Admits a → step w a = some w' → w.KeepsRemoved w' a := by
  have good : w.Good := run.inv World.Good good_empty fun _ _ _ h hadmits hstep =>
    good_step h hadmits hstep
  exact ⟨fun quiet => ⟨showsAnnounced good quiet, completesNamed good quiet⟩,
    fun _ _ hadmits hstep => keepsRemoved hadmits hstep⟩

instance (row : SessionRow Rest) (rev : ℕ) : Decidable (w.Current row rev) :=
  inferInstanceAs (Decidable (_ ∨ (∃ batch ∈ w.frames, ∃ f ∈ batch, _) ∨ _))

instance (flight : Flight Rest) : Decidable flight.Reads :=
  inferInstanceAs (Decidable (_ ∨ _))

instance (row : SessionRow Rest) : Decidable (w.Coming row) :=
  inferInstanceAs (Decidable (∃ nodeId ∈ row.nodeId, ∃ flight ∈ w.flights nodeId,
    (_ ∧ flight.Reads) ∨ ∃ rows ∈ flight.request.rows, (∃ r ∈ rows, _) ∧ ∀ r ∈ rows, _))

instance (a : Action Rest) : Decidable (w.Admits a) :=
  match a with
  | .land nodeId =>
    inferInstanceAs (Decidable (∀ flight ∈ w.flights nodeId, ∀ rows ∈ flight.request.rows,
      ∀ r ∈ rows, (∀ row ∈ w.rows r.row.id, _) ∧ (_ → w.records r.row.id ≠ none)))
  | .landList index =>
    inferInstanceAs (Decidable (∀ entry ∈ w.lists[index]?, ∀ rows ∈ entry.2.2.rows,
      ∀ r ∈ rows, (∀ row ∈ w.rows r.row.id, _) ∧ (_ → w.records r.row.id ≠ none)))
  | .create _ | .change _ | .delete _ | .announce _ | .deliver | .openNode _ | .closeNode _ _
  | .refresh _ | .read _ | .askList _ _ | .readList _ => inferInstanceAs (Decidable True)

def runningRow : SessionRow Unit := ⟨"s", some "n", .running, none, "", ()⟩

def suspendedRow : SessionRow Unit := ⟨"s", some "n", .suspended, none, "", ()⟩

/-- A thread that is suspended between the reading of a list and its landing. -/
def overtaken : List (Action Unit) :=
  [.create runningRow, .openNode "n", .read "n", .land "n", .refresh "n", .read "n",
    .change suspendedRow, .announce ["s"], .deliver, .land "n"]

/-- The frame comes first, and the older answer then takes the record back. -/
theorem overtaken_by_an_answer :
    ∃ w : World Unit, Run step (fun _ _ => True) {} overtaken w ∧ w.Quiet ∧ ¬w.ShowsAnnounced := by
  refine ⟨_, Run.of_exec_eq_some rfl, ⟨rfl, fun nodeId => ?_, rfl⟩, fun shows => ?_⟩
  · rcases eq_or_ne nodeId "n" with rfl | hne
    · rfl
    · repeat refine (Function.update_of_ne hne _ _).trans ?_
      rfl
  · have hstale := shows "s" (.complete runningRow) suspendedRow rfl rfl rfl
    revert hstale
    decide

def inOrder : List (Action Unit) :=
  [.create runningRow, .announce ["s"], .openNode "n", .read "n", .land "n", .deliver,
    .change suspendedRow, .announce ["s"], .deliver]

theorem records_converge_in_order :
    ∃ w : World Unit, Run step World.Admits {} inOrder w ∧ w.Quiet ∧ w.ShowsAnnounced ∧
      w.CompletesNamed := by
  have hallowed : allowedAlong step World.Admits ({} : World Unit) inOrder = true := by
    decide +kernel
  have reached : ∃ w : World Unit, exec step {} inOrder = some w ∧ w.Quiet := by
    refine ⟨_, rfl, rfl, fun nodeId => ?_, rfl⟩
    rcases eq_or_ne nodeId "n" with rfl | hne
    · rfl
    · repeat refine (Function.update_of_ne hne _ _).trans ?_
      rfl
  obtain ⟨w, hexec, quiet⟩ := reached
  have run := Run.of_exec hexec hallowed
  exact ⟨w, run, quiet, (records_converge run).1 quiet⟩

end Portuni.SessionStore
