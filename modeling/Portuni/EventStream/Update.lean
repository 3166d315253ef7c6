import Portuni.EventStream.Model
import Portuni.Library.Runs

/-!
What the chat is owed of the log: every event above its base has been sent to it, or waits in
the replay that answers it, in the buffer of its listener or in front of its publication.
-/

namespace Portuni.EventStream

open Library.SortedByKey

universe u

variable {Event : Type u}

/-- The subscriptions that the connection was asked for, by the views that asked. -/
def ClientFrame.asksFor : ClientFrame → Option ℕ
  | .subscribe _ view _ => some view
  | .unsubscribe => none

def Stage.unstarted : Stage Event → Bool
  | .access | .refused => true
  | _ => false

def Stage.settled : Stage Event → Bool
  | .page _ events => events.length < replayPageSize
  | .live => true
  | _ => false

def Stage.cursor? : Stage Event → Option (Option ℕ)
  | .reading cursor => some cursor
  | .page cursor _ => some cursor
  | _ => none

/-- The chat has every event above its base up to the seq that a subscribe resumes from. -/
def View.Reached (view : View Event) (after : Option ℕ) : Prop :=
  ∀ n, view.base < n → n ≤ after.getD 0 → n ∈ view.events.map ChatEvent.seq

instance (view : View Event) (after : Option ℕ) : Decidable (view.Reached after) :=
  decidable_of_iff (∀ n ≤ after.getD 0, view.base < n → n ∈ view.events.map ChatEvent.seq)
    ⟨fun h n hbase hle => h n hle hbase, fun h n hle hbase => h n hbase hle⟩

namespace Channel

variable (s : Channel Event)

def asked : List ℕ :=
  s.subscriptions.map Subscription.view ++ s.toServer.filterMap ClientFrame.asksFor

def Unstarted (view : ℕ) : Prop :=
  (∃ id after, .subscribe id view after ∈ s.toServer) ∨
    ∃ (i : ℕ) (sub : Subscription Event), s.subscriptions[i]? = some sub ∧ sub.view = view ∧
      sub.stage.unstarted = true

def Outstanding (view : ℕ) : Prop :=
  (∃ id after, .subscribe id view after ∈ s.toServer) ∨
    ∃ (i : ℕ) (sub : Subscription Event), s.subscriptions[i]? = some sub ∧ sub.view = view ∧
      sub.stage.settled = false

def Sent (view : View Event) (e : ChatEvent Event) : Prop :=
  e ∈ view.events ∨ ∃ batch, .events batch ∈ s.toClient ∧ e ∈ batch

/-- The event waits in a replay of the view that has read its last page. -/
def Replayed (view : ℕ) (e : ChatEvent Event) : Prop :=
  ∃ (i : ℕ) (sub : Subscription Event) (cursor : Option ℕ) (page : List (ChatEvent Event)),
    s.subscriptions[i]? = some sub ∧ sub.view = view ∧ sub.stage = .page cursor page ∧
      page.length < replayPageSize ∧ (e ∈ page ∨ e ∈ sub.buffer)

/-- `extra` are the events of a call that is being published. -/
def Owed (extra : List (ChatEvent Event)) (view : View Event) (e : ChatEvent Event) : Prop :=
  s.Sent view e ∨ s.Replayed view.number e ∨ (∃ call ∈ s.unpublished, e ∈ call) ∨ e ∈ extra

end Channel

/-- Everything underway is an event of the log, and requests come in the order of the
views. -/
structure Sound (s : Channel Event) (extra : List (ChatEvent Event)) : Prop where
  toClient : ∀ batch, .events batch ∈ s.toClient → batch ⊆ numbered s.log
  page : ∀ sub ∈ s.subscriptions, ∀ cursor page, sub.stage = .page cursor page →
    page ⊆ numbered s.log ∧ PageClosed cursor page
  buffer : ∀ sub ∈ s.subscriptions, sub.buffer ⊆ numbered s.log
  unpublished : ∀ call ∈ s.unpublished, call ⊆ numbered s.log
  extra : extra ⊆ numbered s.log
  order : s.asked.Pairwise (· ≤ ·)
  asked_le : ∀ n ∈ s.asked, n ≤ s.viewNumber
  asked_lt : s.view = none → ∀ n ∈ s.asked, n < s.viewNumber
  closed : s.isOpen = false → s.toServer = []

structure Served (s : Channel Event) (extra : List (ChatEvent Event)) (view : View Event) :
    Prop where
  number : view.number = s.viewNumber
  events : view.events ⊆ numbered s.log
  sorted : Sorted ChatEvent.seq view.events
  above : ∀ e ∈ view.events, view.base < e.seq
  /-- A subscribe of the chat follows every unsubscribe that is on its way. -/
  followed : ∀ rest, .unsubscribe :: rest <:+ s.toServer →
    ∃ id after, .subscribe id view.number after ∈ rest
  resumes : ∀ id after, .subscribe id view.number after ∈ s.toServer → view.Reached after
  resumed : ∀ sub ∈ s.subscriptions, sub.view = view.number → view.Reached sub.after
  replayed : ∀ sub ∈ s.subscriptions, sub.view = view.number → ∀ cursor,
    sub.stage.cursor? = some cursor → ∀ n, view.base < n → n ≤ cursor.getD 0 →
      ∃ e, s.Sent view e ∧ e.seq = n
  listening : s.isOpen = true → s.Unstarted view.number ∨
    ∃ (h : ℕ) (sub : Subscription Event), s.current = some h ∧
      s.subscriptions[h]? = some sub ∧ sub.view = view.number
  owed : s.isOpen = true → s.Outstanding view.number ∨
    ∀ e ∈ numbered s.log, view.base < e.seq → s.Owed extra view e

structure Invariant (s : Channel Event) (extra : List (ChatEvent Event)) : Prop where
  sound : Sound s extra
  served : ∀ view, s.view = some view → Served s extra view

section

variable {α : Type*} {l : List α} {h i : ℕ} {a b r : α}

theorem getElem?_set_cases (hh : l[h]? = some a) (b : α) (hi : l[i]? = some r) :
    (i = h ∧ r = a ∧ (l.set h b)[h]? = some b) ∨ (i ≠ h ∧ (l.set h b)[i]? = some r) := by
  obtain ⟨hlt, -⟩ := List.getElem?_eq_some_iff.mp hh
  by_cases heq : i = h
  · subst heq
    have hra : r = a := Option.some.inj (hi.symm.trans hh)
    exact .inl ⟨rfl, hra, by rw [List.getElem?_set_self hlt]⟩
  · exact .inr ⟨heq, by rw [List.getElem?_set_ne (Ne.symm heq), hi]⟩

theorem map_set_eq {β : Type*} {f : α → β} (hh : l[h]? = some a) (hf : f b = f a) :
    (l.set h b).map f = l.map f := by
  obtain ⟨hlt, heq⟩ := List.getElem?_eq_some_iff.mp hh
  rw [List.map_set, hf, ← heq, ← List.getElem_map f (h := by simpa using hlt), List.set_getElem_self]

end

variable {s s' : Channel Event} {extra : List (ChatEvent Event)} {view : View Event} {h n : ℕ}
  {sub sub' : Subscription Event} {e : ChatEvent Event}

theorem Channel.Unstarted.set (hu : s.Unstarted n) (hto : s'.toServer = s.toServer)
    (hh : s.subscriptions[h]? = some sub) (hset : s'.subscriptions = s.subscriptions.set h sub')
    (hview : sub'.view = sub.view)
    (hkeep : sub.view = n → sub.stage.unstarted = true → sub'.stage.unstarted = true) :
    s'.Unstarted n := by
  refine hu.imp (fun ⟨id, after, hmem⟩ => ⟨id, after, hto ▸ hmem⟩) ?_
  rintro ⟨i, r, hi, hr, hstage⟩
  rcases getElem?_set_cases hh sub' hi with ⟨rfl, rfl, hnew⟩ | ⟨-, hold⟩
  · exact ⟨i, sub', by rw [hset]; exact hnew, hview.trans hr, hkeep hr hstage⟩
  · exact ⟨i, r, by rw [hset]; exact hold, hr, hstage⟩

theorem Channel.Outstanding.set (ho : s.Outstanding n) (hto : s'.toServer = s.toServer)
    (hh : s.subscriptions[h]? = some sub) (hset : s'.subscriptions = s.subscriptions.set h sub')
    (hview : sub'.view = sub.view)
    (hkeep : sub.view = n → sub.stage.settled = false → sub'.stage.settled = false) :
    s'.Outstanding n := by
  refine ho.imp (fun ⟨id, after, hmem⟩ => ⟨id, after, hto ▸ hmem⟩) ?_
  rintro ⟨i, r, hi, hr, hstage⟩
  rcases getElem?_set_cases hh sub' hi with ⟨rfl, rfl, hnew⟩ | ⟨-, hold⟩
  · exact ⟨i, sub', by rw [hset]; exact hnew, hview.trans hr, hkeep hr hstage⟩
  · exact ⟨i, r, by rw [hset]; exact hold, hr, hstage⟩

theorem Channel.Replayed.set (hr : s.Replayed n e) (hh : s.subscriptions[h]? = some sub)
    (hset : s'.subscriptions = s.subscriptions.set h sub') :
    s'.Replayed n e ∨ ∃ cursor page, sub.view = n ∧ sub.stage = .page cursor page ∧
      page.length < replayPageSize ∧ (e ∈ page ∨ e ∈ sub.buffer) := by
  obtain ⟨i, r, cursor, page, hi, hrest⟩ := hr
  rcases getElem?_set_cases hh sub' hi with ⟨rfl, rfl, -⟩ | ⟨-, hold⟩
  · exact .inr ⟨cursor, page, hrest⟩
  · exact .inl ⟨i, r, cursor, page, by rw [hset]; exact hold, hrest⟩

variable {Event : Type u}

/-- A reopen and a further subscribe of a mounted chat resume from a seq up to which it has
every event; no frame of a dropped subscription brings an event that the chat did not ask
for; and the access checks of a connection pass in the order of its subscribes. -/
def Orderly (s : Channel Event) : Action Event → Prop
  | .opened => ∀ view ∈ s.view, view.Reached s.resumeAfter
  | .subscribe afterSeq =>
    s.isOpen = true → ∀ view ∈ s.view, view.Reached (s.subscribeAfter afterSeq)
  | .deliver => ∀ view ∈ s.view, ∀ batch, s.toClient.head? = some (.events batch) →
      ∀ e ∈ batch, view.base < e.seq
  | .start h => ∀ sub ∈ s.subscriptions.drop (h + 1), sub.stage.unstarted = true
  | _ => True

def Channel.nextBatch (s : Channel Event) : List (ChatEvent Event) :=
  match s.toClient.head? with
  | some (.events batch) => batch
  | _ => []

theorem orderly_deliver_iff (s : Channel Event) : Orderly s .deliver ↔
    ∀ view ∈ s.view, ∀ e ∈ s.nextBatch, view.base < e.seq := by
  unfold Orderly Channel.nextBatch
  cases s.toClient.head? with
  | none => simp
  | some frame => cases frame <;> simp

instance (s : Channel Event) (a : Action Event) : Decidable (Orderly s a) :=
  match a with
  | .opened => inferInstanceAs (Decidable (∀ view ∈ s.view, view.Reached s.resumeAfter))
  | .subscribe afterSeq => inferInstanceAs
      (Decidable (s.isOpen = true → ∀ view ∈ s.view, view.Reached (s.subscribeAfter afterSeq)))
  | .deliver => decidable_of_iff _ (orderly_deliver_iff s).symm
  | .start h => inferInstanceAs
      (Decidable (∀ sub ∈ s.subscriptions.drop (h + 1), sub.stage.unstarted = true))
  | .append _ | .publish _ | .receive | .read _ | .resume _ | .fail _ | .unsubscribe | .drop
  | .timeout _ => isTrue trivial

variable {s s' : Channel Event} {extra extra' : List (ChatEvent Event)} {view : View Event}
  {h : ℕ} {sub sub' : Subscription Event} {e : ChatEvent Event}

theorem Channel.Sent.mono (hsent : s.Sent view e) (frames : List (ServerFrame Event))
    (hto : s'.toClient = s.toClient ++ frames) : s'.Sent view e := by
  refine hsent.imp_right ?_
  rintro ⟨batch, hbatch, he⟩
  exact ⟨batch, hto ▸ List.mem_append_left _ hbatch, he⟩

theorem asked_set (hh : s.subscriptions[h]? = some sub) (hview : sub'.view = sub.view) :
    (s.subscriptions.set h sub').map Subscription.view ++
      s.toServer.filterMap ClientFrame.asksFor = s.asked := by
  rw [map_set_eq hh hview]
  rfl

theorem invariant_update (sub' : Subscription Event) (frames : List (ServerFrame Event))
    (current' : Option ℕ) (inv : Invariant s extra) (hh : s.subscriptions[h]? = some sub)
    (hview : sub'.view = sub.view) (hafter : sub'.after = sub.after) (hextra : extra' ⊆ extra)
    (hframes : ∀ batch, .events batch ∈ frames → batch ⊆ numbered s.log)
    (hpage : ∀ cursor page, sub'.stage = .page cursor page →
      page ⊆ numbered s.log ∧ PageClosed cursor page) (hbuffer : sub'.buffer ⊆ numbered s.log)
    (hs' : s' = { s with
      subscriptions := s.subscriptions.set h sub', toClient := s.toClient ++ frames,
      current := current' })
    (hreplayed : ∀ view, s.view = some view → sub.view = view.number → ∀ cursor,
      sub'.stage.cursor? = some cursor → ∀ n, view.base < n → n ≤ cursor.getD 0 →
        ∃ e, s'.Sent view e ∧ e.seq = n)
    (hlistening : ∀ view, s.view = some view → s.isOpen = true → s'.Unstarted view.number ∨
      ∃ (h : ℕ) (sub : Subscription Event), s'.current = some h ∧
        s'.subscriptions[h]? = some sub ∧ sub.view = view.number)
    (howed : ∀ view, s.view = some view → s.isOpen = true → s'.Outstanding view.number ∨
      ∀ e ∈ numbered s.log, view.base < e.seq → s'.Owed extra' view e) :
    Invariant s' extra' := by
  have memSet : ∀ r ∈ s.subscriptions.set h sub', r ∈ s.subscriptions ∨ r = sub' :=
    fun r hr => List.mem_or_eq_of_mem_set hr
  have hmem : sub ∈ s.subscriptions := List.mem_of_getElem? hh
  subst hs'
  refine ⟨?_, ?_⟩
  · have sound := inv.sound
    have horder := asked_set hh hview
    refine ⟨?_, ?_, ?_, sound.unpublished,
      fun e he => sound.extra (hextra he), ?_, ?_, ?_, sound.closed⟩
    · intro batch hbatch
      rcases List.mem_append.mp hbatch with hold | hnew
      · exact sound.toClient batch hold
      · exact hframes batch hnew
    · intro r hr cursor page hstage
      rcases memSet r hr with hold | rfl
      · exact sound.page r hold cursor page hstage
      · exact hpage cursor page hstage
    · intro r hr
      rcases memSet r hr with hold | rfl
      · exact sound.buffer r hold
      · exact hbuffer
    · rw [Channel.asked, horder]
      exact sound.order
    · rw [Channel.asked, horder]
      exact sound.asked_le
    · rw [Channel.asked, horder]
      exact sound.asked_lt
  · intro view hv
    have served := inv.served view hv
    refine ⟨served.number, served.events, served.sorted, served.above, served.followed,
      served.resumes, ?_, ?_, hlistening view hv, howed view hv⟩
    · intro r hr hrview
      rcases memSet r hr with hold | rfl
      · exact served.resumed r hold hrview
      · rw [hafter]
        exact served.resumed sub hmem (hview.symm.trans hrview)
    · intro r hr hrview cursor hcursor n hbase hle
      rcases memSet r hr with hold | rfl
      · obtain ⟨e, hsent, hseq⟩ := served.replayed r hold hrview cursor hcursor n hbase hle
        exact ⟨e, hsent.mono frames rfl, hseq⟩
      · exact hreplayed view hv (hview.symm.trans hrview) cursor hcursor n hbase hle

theorem listening_set (served : Served s extra view) (hopen : s.isOpen = true)
    (hh : s.subscriptions[h]? = some sub)
    (hset : s'.subscriptions = s.subscriptions.set h sub') (hview : sub'.view = sub.view)
    (hkeep : sub.stage.unstarted = true → sub'.stage.unstarted = true)
    (hto : s'.toServer = s.toServer) (hcurrent : s'.current = s.current) :
    s'.Unstarted view.number ∨ ∃ (h : ℕ) (sub : Subscription Event), s'.current = some h ∧
      s'.subscriptions[h]? = some sub ∧ sub.view = view.number := by
  rcases served.listening hopen with hun | ⟨i, r, hcur, hi, hr⟩
  · exact .inl (hun.set hto hh hset hview fun _ => hkeep)
  · right
    rcases getElem?_set_cases hh sub' hi with ⟨rfl, rfl, hnew⟩ | ⟨-, hold⟩
    · exact ⟨i, sub', hcurrent.trans hcur, by rw [hset]; exact hnew, hview.trans hr⟩
    · exact ⟨i, r, hcurrent.trans hcur, by rw [hset]; exact hold, hr⟩

theorem Channel.Unstarted.outstanding {n : ℕ} (hu : s.Unstarted n) : s.Outstanding n := by
  refine hu.imp_right ?_
  rintro ⟨i, r, hi, hr, hstage⟩
  refine ⟨i, r, hi, hr, ?_⟩
  cases hst : r.stage <;> simp_all [Stage.unstarted, Stage.settled]

theorem Channel.Owed.set (howed : s.Owed extra view e) (frames : List (ServerFrame Event))
    (hh : s.subscriptions[h]? = some sub) (hset : s'.subscriptions = s.subscriptions.set h sub')
    (hto : s'.toClient = s.toClient ++ frames) (hunpublished : s'.unpublished = s.unpublished)
    (hextra : e ∈ extra → s'.Owed extra' view e)
    (hreplay : ∀ cursor page, sub.view = view.number → sub.stage = .page cursor page →
      page.length < replayPageSize → e ∈ page ∨ e ∈ sub.buffer → s'.Owed extra' view e) :
    s'.Owed extra' view e := by
  rcases howed with hsent | hreplayed | hcall | hnow
  · exact .inl (hsent.mono frames hto)
  · rcases hreplayed.set hh hset with hkept | ⟨cursor, page, hview, hstage, hshort, he⟩
    · exact .inr (.inl hkept)
    · exact hreplay cursor page hview hstage hshort he
  · exact .inr (.inr (.inl (hunpublished ▸ hcall)))
  · exact hextra hnow

theorem unstarted_of_stale (inv : Invariant s extra) (hv : s.view = some view)
    (hopen : s.isOpen = true) (hh : s.subscriptions[h]? = some sub)
    (hstale : sub.view ≠ view.number)
    (later : ∀ sub ∈ s.subscriptions.drop (h + 1), sub.stage.unstarted = true) :
    s.Unstarted view.number := by
  have served := inv.served view hv
  rcases served.listening hopen with hun | ⟨i, r, -, hi, hr⟩
  · exact hun
  obtain ⟨hhlt, hheq⟩ := List.getElem?_eq_some_iff.mp hh
  obtain ⟨hilt, hieq⟩ := List.getElem?_eq_some_iff.mp hi
  have hle : sub.view ≤ view.number := by
    rw [served.number]
    refine inv.sound.asked_le _ (List.mem_append_left _ ?_)
    exact List.mem_map.mpr ⟨sub, List.mem_of_getElem? hh, rfl⟩
  have hlt : h < i := by
    by_contra hge
    have horder := (List.pairwise_append.mp inv.sound.order).1
    rw [List.pairwise_map, List.pairwise_iff_getElem] at horder
    rcases Nat.lt_or_eq_of_le (Nat.le_of_not_lt hge) with hbefore | hsame
    · have hviews := horder i h hilt hhlt hbefore
      rw [hieq, hheq, hr] at hviews
      exact hstale (le_antisymm hle hviews)
    · subst hsame
      rw [hh] at hi
      cases hi
      exact hstale hr
  have hdrop : r ∈ s.subscriptions.drop (h + 1) := by
    refine List.mem_iff_getElem?.mpr ⟨i - (h + 1), ?_⟩
    rw [List.getElem?_drop]
    rw [Nat.add_sub_cancel' hlt]
    exact hi
  exact .inr ⟨i, r, hi, hr, later r hdrop⟩

end Portuni.EventStream
