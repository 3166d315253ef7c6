import Mathlib.Data.List.Induction
import Portuni.SessionStore.Model

namespace Portuni.SessionStore

/-!
What a list answer, a batch of frames and a refetch leave of the store and of the requests.
-/

section

open Sessions

universe u

variable {Rest : Type u} {records : Records Rest} {id : String}

theorem filled_cases (rows : List (Read Rest)) (records : Records Rest) (seen : String → ℕ)
    (id : String) : ((∀ r ∈ rows, r.row.id ≠ id) ∧
      Records.putMany records (rows.map (·.row)) id = records id ∧
      rows.foldl (fun seen r => Function.update seen r.row.id r.rev) seen id = seen id) ∨
    ∃ r ∈ rows, r.row.id = id ∧
      Records.putMany records (rows.map (·.row)) id = some (.complete r.row) ∧
      rows.foldl (fun seen r => Function.update seen r.row.id r.rev) seen id = r.rev := by
  induction rows using List.reverseRecOn with
  | nil => exact .inl ⟨by simp, rfl, rfl⟩
  | append_singleton rows last ih =>
    simp only [Records.putMany, List.map_append, List.map_cons, List.map_nil, List.foldl_append,
      List.foldl_cons, List.foldl_nil] at ih ⊢
    by_cases hlast : last.row.id = id
    · subst hlast
      exact .inr ⟨last, by simp, rfl, by simp [Records.put], by simp⟩
    · have hne : id ≠ last.row.id := fun heq => hlast heq.symm
      rw [Records.put, Function.update_of_ne hne, Function.update_of_ne hne]
      rcases ih with ⟨hnone, hsame⟩ | ⟨r, hr, hrest⟩
      · refine .inl ⟨fun r hr => ?_, hsame⟩
        rcases List.mem_append.mp hr with hr | hr
        · exact hnone r hr
        · rwa [List.mem_singleton.mp hr]
      · exact .inr ⟨r, List.mem_append_left _ hr, hrest⟩

section

theorem fold_isComplete (message : SessionStateMessage) (r : StoredSession Rest) :
    (r.fold message).isComplete = r.isComplete := by
  cases r <;> rfl

theorem fold_nodeId (message : SessionStateMessage) (r : StoredSession Rest) :
    (r.fold message).nodeId = r.nodeId := by
  cases r <;> rfl

variable {message : SessionStateMessage}

theorem fold_facts (h : message.name ≠ none) (r : StoredSession Rest) :
    (r.fold message).facts = message.facts := by
  obtain ⟨name, hname⟩ := Option.ne_none_iff_exists'.mp h
  cases r <;> simp [StoredSession.fold, StoredSession.facts, SessionRow.facts,
    SessionStateMessage.facts, hname]

theorem applyFrame_self (records : Records Rest) (h : message.name ≠ none) :
    ∃ r, records.applyFrame message message.sessionId = some r ∧ r.facts = message.facts ∧
      (r.nodeId = message.nodeId ∨
        ∃ old, records message.sessionId = some old ∧ r.nodeId = old.nodeId) := by
  cases hold : records message.sessionId with
  | none => exact ⟨.stub message, by simp [Records.applyFrame, hold], rfl, .inl rfl⟩
  | some old =>
    exact ⟨old.fold message, by simp [Records.applyFrame, hold], fold_facts h old,
      .inr ⟨old, rfl, fold_nodeId message old⟩⟩

theorem applyFrame_holdsComplete (records : Records Rest) (message : SessionStateMessage) :
    (records.applyFrame message).holdsComplete = records.holdsComplete := by
  funext id
  unfold Records.holdsComplete Records.applyFrame
  rcases eq_or_ne id message.sessionId with rfl | hne
  · rw [Function.update_self]
    cases records message.sessionId with
    | none => rfl
    | some old => exact fold_isComplete message old
  · rw [Function.update_of_ne hne]

theorem applyFrames_holdsComplete (messages : List SessionStateMessage) (records : Records Rest) :
    (records.applyFrames messages).holdsComplete = records.holdsComplete := by
  induction messages generalizing records with
  | nil => rfl
  | cons message messages ih =>
    exact (ih (records.applyFrame message)).trans (applyFrame_holdsComplete records message)

theorem delivered_cases (batch : List Frame) (records : Records Rest) (seen : String → ℕ)
    (hnames : ∀ f ∈ batch, f.message.name ≠ none) (id : String) :
    ((∀ f ∈ batch, f.message.sessionId ≠ id) ∧
      Records.applyFrames records (batch.map (·.message)) id = records id ∧
      seenAfter seen batch id = seen id) ∨
    ∃ f, (batch.filter (·.message.sessionId = id)).getLast? = some f ∧
      seenAfter seen batch id = f.rev ∧
      ∃ r, Records.applyFrames records (batch.map (·.message)) id = some r ∧
        r.facts = f.message.facts ∧
        ((∃ f ∈ batch, f.message.sessionId = id ∧ r.nodeId = f.message.nodeId) ∨
          ∃ old, records id = some old ∧ r.nodeId = old.nodeId) := by
  induction batch using List.reverseRecOn with
  | nil => exact .inl ⟨by simp, rfl, rfl⟩
  | append_singleton batch last ih =>
    have hearlier := ih fun f hf => hnames f (List.mem_append_left _ hf)
    simp only [Records.applyFrames, seenAfter, List.map_append, List.map_cons, List.map_nil,
      List.foldl_append, List.foldl_cons, List.foldl_nil] at hearlier ⊢
    by_cases hlast : last.message.sessionId = id
    · subst hlast
      have hname := hnames last (List.mem_append_right _ (List.mem_singleton_self _))
      obtain ⟨r, hr, hfacts, hnode⟩ := applyFrame_self
        (List.foldl Records.applyFrame records (batch.map (·.message))) hname
      refine .inr ⟨last, by simp, by simp, r, hr, hfacts, ?_⟩
      rcases hnode with hnode | ⟨old, hold, hnode⟩
      · exact .inl ⟨last, by simp, rfl, hnode⟩
      · rcases hearlier with ⟨-, hsame, -⟩ | ⟨f, -, -, r', hr', -, hnode'⟩
        · exact .inr ⟨old, hsame ▸ hold, hnode⟩
        · obtain rfl := Option.some.inj (hold.symm.trans hr')
          rcases hnode' with ⟨f, hf, hid, hnode'⟩ | ⟨older, holder, hnode'⟩
          · exact .inl ⟨f, List.mem_append_left _ hf, hid, hnode.trans hnode'⟩
          · exact .inr ⟨older, holder, hnode.trans hnode'⟩
    · have hne : id ≠ last.message.sessionId := fun heq => hlast heq.symm
      have hfilter : (batch ++ [last]).filter (·.message.sessionId = id) =
          batch.filter (·.message.sessionId = id) := by simp [hlast]
      rw [Records.applyFrame, Function.update_of_ne hne, Function.update_of_ne hne, hfilter]
      rcases hearlier with ⟨hnone, hsame⟩ | ⟨f, hf, hseen, r, hr, hfacts, hnode⟩
      · refine .inl ⟨fun f hf => ?_, hsame⟩
        rcases List.mem_append.mp hf with hf | hf
        · exact hnone f hf
        · rwa [List.mem_singleton.mp hf]
      · refine .inr ⟨f, hf, hseen, r, hr, hfacts, ?_⟩
        rcases hnode with ⟨f, hf, hrest⟩ | hold
        · exact .inl ⟨f, List.mem_append_left _ hf, hrest⟩
        · exact .inr hold

end

variable {flights : String → Option (Flight Rest)} {nodeId : String}

/-- A flight that will still read the list, or has one more request behind it. -/
def Flight.Reads (flight : Flight Rest) : Prop :=
  flight.trailing = true ∨ flight.request.rows = none

theorem refreshed_self (flights : String → Option (Flight Rest)) (nodeId : String) :
    ∃ flight, refreshed flights nodeId nodeId = some flight ∧ flight.Reads := by
  unfold refreshed
  rw [Function.update_self]
  cases flights nodeId with
  | none => exact ⟨{}, rfl, .inr rfl⟩
  | some flight => exact ⟨_, rfl, .inl rfl⟩

variable {flight : Flight Rest}

theorem refreshed_keeps (other : String) (h : flights nodeId = some flight) :
    ∃ flight', refreshed flights other nodeId = some flight' ∧
      flight'.request = flight.request ∧ (flight.trailing = true → flight'.trailing = true) := by
  unfold refreshed
  rcases eq_or_ne nodeId other with rfl | hne
  · rw [Function.update_self, h]
    exact ⟨_, rfl, rfl, fun _ => rfl⟩
  · rw [Function.update_of_ne hne]
    exact ⟨flight, h, rfl, fun htrailing => htrailing⟩

theorem refreshed_from (other : String) (h : refreshed flights other nodeId = some flight) :
    flight.request.rows = none ∨ ∃ old, flights nodeId = some old ∧ flight.request = old.request :=
  by
  unfold refreshed at h
  rcases eq_or_ne nodeId other with rfl | hne
  · rw [Function.update_self] at h
    cases hold : flights nodeId with
    | none =>
      rw [hold] at h
      cases h
      exact .inl rfl
    | some old =>
      rw [hold] at h
      cases h
      exact .inr ⟨old, rfl, rfl⟩
  · rw [Function.update_of_ne hne] at h
    exact .inr ⟨flight, h, rfl⟩

theorem foldl_refreshed_keeps (nodeIds : List String) (h : flights nodeId = some flight) :
    ∃ flight', nodeIds.foldl refreshed flights nodeId = some flight' ∧
      flight'.request = flight.request ∧ (flight.trailing = true → flight'.trailing = true) := by
  induction nodeIds generalizing flights flight with
  | nil => exact ⟨flight, h, rfl, fun htrailing => htrailing⟩
  | cons other nodeIds ih =>
    obtain ⟨next, hnext, hrequest, htrailing⟩ := refreshed_keeps other h
    obtain ⟨last, hlast, hrequest', htrailing'⟩ := ih hnext
    exact ⟨last, hlast, hrequest'.trans hrequest, fun h => htrailing' (htrailing h)⟩

theorem Flight.Reads.of_same {flight flight' : Flight Rest} (h : flight.Reads)
    (hrequest : flight'.request = flight.request)
    (htrailing : flight.trailing = true → flight'.trailing = true) : flight'.Reads := by
  rcases h with h | h
  · exact .inl (htrailing h)
  · exact .inr (by rw [hrequest, h])

theorem foldl_refreshed_mem {nodeIds : List String} (flights : String → Option (Flight Rest))
    (h : nodeId ∈ nodeIds) :
    ∃ flight, nodeIds.foldl refreshed flights nodeId = some flight ∧ flight.Reads := by
  induction nodeIds generalizing flights with
  | nil => simp at h
  | cons other nodeIds ih =>
    rcases List.mem_cons.mp h with rfl | h
    · obtain ⟨next, hnext, hreads⟩ := refreshed_self flights nodeId
      obtain ⟨last, hlast, hrequest, htrailing⟩ := foldl_refreshed_keeps nodeIds hnext
      exact ⟨last, hlast, hreads.of_same hrequest htrailing⟩
    · exact ih (refreshed flights other) h

theorem foldl_refreshed_from (nodeIds : List String)
    (h : nodeIds.foldl refreshed flights nodeId = some flight) :
    flight.request.rows = none ∨ ∃ old, flights nodeId = some old ∧ flight.request = old.request :=
  by
  induction nodeIds generalizing flights with
  | nil => exact .inr ⟨flight, h, rfl⟩
  | cons other nodeIds ih =>
    rcases ih h with hnone | ⟨next, hnext, hrequest⟩
    · exact .inl hnone
    · rcases refreshed_from other hnext with hnone | ⟨old, hold, hsame⟩
      · exact .inl (by rw [hrequest, hnone])
      · exact .inr ⟨old, hold, hrequest.trans hsame⟩

end

open Sessions Library.Runs

universe u

variable {Rest : Type u} {w w' : World Rest} {id nodeId : String} {row : SessionRow Rest}

/-- A value that the row had when it had changed `rev` times. -/
structure World.Knows (w : World Rest) (id : String) (nodeId : Option String) (rev : ℕ)
    (facts : Facts) : Prop where
  known : id ∈ w.ids
  le : rev ≤ w.revs id
  row : ∀ row, w.rows id = some row → row.nodeId = nodeId ∧ (rev = w.revs id → row.facts = facts)

def World.KnowsAll (w : World Rest) (rows : List (Read Rest)) : Prop :=
  ∀ r ∈ rows, w.Knows r.row.id r.row.nodeId r.rev r.row.facts

structure World.Sound (w : World Rest) : Prop where
  rows : ∀ id row, w.rows id = some row → row.id = id ∧ id ∈ w.ids
  fresh : ∀ id, id ∉ w.ids → w.revs id = 0
  announced : ∀ id, w.announced id ≤ w.revs id
  frames : ∀ batch ∈ w.frames, ∀ f ∈ batch, f.message.name ≠ none ∧
    w.Knows f.message.sessionId f.message.nodeId f.rev f.message.facts
  last : ∀ id f, (w.frames.flatten.filter (·.message.sessionId = id)).getLast? = some f →
    f.rev = w.announced id
  records : ∀ id r, w.records id = some r → w.Knows id r.nodeId (w.seen id) r.facts
  flights : ∀ nodeId flight rows, w.flights nodeId = some flight →
    flight.request.rows = some rows → w.KnowsAll rows ∧ ∀ r ∈ rows, r.row.nodeId = some nodeId
  lists : ∀ entry ∈ w.lists, ∀ rows, entry.2.2.rows = some rows → w.KnowsAll rows
  named : ∀ id, w.named id = true → id ∈ w.ids

def World.InFlight (w : World Rest) (id : String) : Prop :=
  ∃ batch ∈ w.frames, ∃ f ∈ batch, f.message.sessionId = id

/-- A refetch of the row's node that will carry what has been announced of it. -/
def World.Coming (w : World Rest) (row : SessionRow Rest) : Prop :=
  ∃ nodeId ∈ row.nodeId, ∃ flight ∈ w.flights nodeId,
    (row.state ≠ .archived ∧ flight.Reads) ∨
      ∃ rows ∈ flight.request.rows, (∃ r ∈ rows, r.row.id = row.id) ∧
        ∀ r ∈ rows, r.row.id = row.id → w.announced row.id ≤ r.rev

/-- As new as the last frame sent about the row, or another frame is on its way or still to come. -/
def World.Current (w : World Rest) (row : SessionRow Rest) (rev : ℕ) : Prop :=
  w.announced row.id ≤ rev ∨ w.InFlight row.id ∨ w.announced row.id < w.revs row.id

def World.Completing (w : World Rest) (nodeId id : String) : Prop :=
  ∃ flight ∈ w.flights nodeId,
    flight.Reads ∨ ∃ rows ∈ flight.request.rows, ∃ r ∈ rows, r.row.id = id

structure World.Converging (w : World Rest) : Prop where
  current : ∀ id r row, w.records id = some r → w.rows id = some row →
    w.Current row (w.seen id) ∨ w.Coming row
  completed : ∀ id row nodeId, w.rows id = some row → w.named id = true →
    row.nodeId = some nodeId → nodeId ∈ w.openNodeIds → row.state ≠ .archived →
      w.records.holdsComplete id = true ∨ w.Completing nodeId id

/-- An answer that may land: each of its rows is as new as the last frame sent about it, or a frame
or a refetch that is newer is still to come; and it brings back no record that has been removed
since it was asked for. -/
def World.Admits (w : World Rest) : Action Rest → Prop
  | .land nodeId => ∀ flight ∈ w.flights nodeId, ∀ rows ∈ flight.request.rows, ∀ r ∈ rows,
      (∀ row ∈ w.rows r.row.id, w.Current row r.rev ∨
        flight.trailing = true ∧ row.state ≠ .archived) ∧
      (flight.request.removed r.row.id = true → w.records r.row.id ≠ none)
  | .landList index => ∀ entry ∈ w.lists[index]?, ∀ rows ∈ entry.2.2.rows, ∀ r ∈ rows,
      (∀ row ∈ w.rows r.row.id, w.Current row r.rev ∨ w.Coming row) ∧
      (entry.2.2.removed r.row.id = true → w.records r.row.id ≠ none)
  | _ => True

/-- A step of the server: rows change or go, but keep their node, and count their changes. -/
structure World.Advances (w w' : World Rest) : Prop where
  ids : ∀ id ∈ w.ids, id ∈ w'.ids
  revs : ∀ id ∈ w.ids, w.revs id ≤ w'.revs id
  rows : ∀ id ∈ w.ids, ∀ row', w'.rows id = some row' → ∃ row, w.rows id = some row ∧
    row.id = row'.id ∧ row.nodeId = row'.nodeId ∧
    (row.state = .archived → row'.state = .archived) ∧
    (w'.revs id = w.revs id → row.facts = row'.facts)

theorem World.Knows.mono {node : Option String} {rev : ℕ} {facts : Facts}
    (advances : w.Advances w') (h : w.Knows id node rev facts) : w'.Knows id node rev facts where
  known := advances.ids id h.known
  le := Nat.le_trans h.le (advances.revs id h.known)
  row row' hrow' := by
    obtain ⟨row, hrow, -, hnode, -, hfacts⟩ := advances.rows id h.known row' hrow'
    obtain ⟨hsame, hcurrent⟩ := h.row row hrow
    refine ⟨hnode ▸ hsame, fun hrev => ?_⟩
    have hle := h.le
    have hgrow := advances.revs id h.known
    rw [← hfacts (by omega)]
    exact hcurrent (by omega)

theorem sound_of_advances (h : w.Sound) (advances : w.Advances w')
    (hrows : ∀ id row, w'.rows id = some row → row.id = id ∧ id ∈ w'.ids)
    (hfresh : ∀ id, id ∉ w'.ids → w'.revs id = 0)
    (hrevs : ∀ id, w.revs id ≤ w'.revs id) (hannounced : w'.announced = w.announced)
    (hframes : w'.frames = w.frames) (hrecords : w'.records = w.records)
    (hseen : w'.seen = w.seen) (hflights : w'.flights = w.flights) (hlists : w'.lists = w.lists)
    (hnamed : w'.named = w.named) : w'.Sound where
  rows := hrows
  fresh := hfresh
  announced id := by
    rw [hannounced]
    exact Nat.le_trans (h.announced id) (hrevs id)
  frames batch hbatch f hf := by
    obtain ⟨hname, hknows⟩ := h.frames batch (hframes ▸ hbatch) f hf
    exact ⟨hname, hknows.mono advances⟩
  last id f hf := by
    rw [hannounced]
    exact h.last id f (hframes ▸ hf)
  records id r hr := by
    rw [hseen]
    exact (h.records id r (hrecords ▸ hr)).mono advances
  flights nodeId flight rows hflight hread := by
    obtain ⟨hknows, hnode⟩ := h.flights nodeId flight rows (hflights ▸ hflight) hread
    exact ⟨fun r hr => (hknows r hr).mono advances, hnode⟩
  lists entry hentry rows hread r hr := (h.lists entry (hlists ▸ hentry) rows hread r hr).mono
    advances
  named id hname := advances.ids id (h.named id (hnamed ▸ hname))

theorem World.Current.of_advances {row' : SessionRow Rest} {rev : ℕ} (h : w.Current row rev)
    (hid : row.id = row'.id) (hrevs : w.revs row.id ≤ w'.revs row.id)
    (hannounced : w'.announced = w.announced) (hframes : w'.frames = w.frames) :
    w'.Current row' rev := by
  unfold World.Current World.InFlight
  rw [hannounced, hframes, ← hid]
  rcases h with h | h | h
  · exact .inl h
  · exact .inr (.inl h)
  · exact .inr (.inr (Nat.lt_of_lt_of_le h hrevs))

theorem converging_of_advances (hw : w.Sound) (h : w.Converging) (advances : w.Advances w')
    (hannounced : w'.announced = w.announced) (hframes : w'.frames = w.frames)
    (hrecords : w'.records = w.records) (hseen : w'.seen = w.seen)
    (hflights : w'.flights = w.flights) (hnamed : w'.named = w.named)
    (hopen : w'.openNodeIds = w.openNodeIds) : w'.Converging where
  current id r row' hr hrow' := by
    have hid := (hw.records id r (hrecords ▸ hr)).known
    obtain ⟨row, hrow, hrowid, hnode, harchived, hfacts⟩ := advances.rows id hid row' hrow'
    have hown : row.id = id := (hw.rows id row hrow).1
    rw [hseen]
    rcases h.current id r row (hrecords ▸ hr) hrow with hcurrent | ⟨nodeId, hn, flight, hf, hcomes⟩
    · exact .inl (hcurrent.of_advances hrowid (hown ▸ advances.revs id hid) hannounced hframes)
    · rcases hcomes with ⟨hlisted, hreads⟩ | ⟨rows, hread, hin, hnew⟩
      · rcases Nat.lt_or_ge (w.revs id) (w'.revs id) with hlt | hge
        · refine .inl (.inr (.inr ?_))
          rw [hannounced, ← hrowid, hown]
          exact Nat.lt_of_le_of_lt (hw.announced id) hlt
        · have hsame : w'.revs id = w.revs id := Nat.le_antisymm hge (advances.revs id hid)
          have hstate : row'.state = row.state := congrArg Prod.fst (hfacts hsame).symm
          exact .inr ⟨nodeId, hnode ▸ hn, flight, hflights ▸ hf, .inl ⟨hstate ▸ hlisted, hreads⟩⟩
      · refine .inr ⟨nodeId, hnode ▸ hn, flight, hflights ▸ hf, .inr ⟨rows, hread, ?_⟩⟩
        rw [hannounced, ← hrowid]
        exact ⟨hin, hnew⟩
  completed id row' nodeId hrow' hname hn hnode' hlisted := by
    obtain ⟨row, hrow, -, hnode, harchived, -⟩ :=
      advances.rows id (hw.named id (hnamed ▸ hname)) row' hrow'
    unfold World.Completing
    rw [hrecords, hflights]
    exact h.completed id row nodeId hrow (hnamed ▸ hname) (hnode.trans hn) (hopen ▸ hnode')
      fun heq => hlisted (harchived heq)

end Portuni.SessionStore
