import Portuni.EventStream.Published

namespace Portuni.EventStream

/-!
The steps of the client: subscribing, connecting, and taking the frames of the server.
-/

section

open Library.SortedByKey

universe u

variable {Event : Type u} {s s' : Channel Event} {extra extra' : List (ChatEvent Event)}
  {view : View Event} {h : ℕ} {sub sub' : Subscription Event} {e : ChatEvent Event}
  {after : Option ℕ}

theorem served_of_asked {id : ℕ} {after : Option ℕ} {before : List ClientFrame}
    (hto : s'.toServer = before ++ [.subscribe id view.number after])
    (number : view.number = s'.viewNumber) (events : view.events ⊆ numbered s'.log)
    (sorted : Sorted ChatEvent.seq view.events) (above : ∀ e ∈ view.events, view.base < e.seq)
    (hbefore : ∀ id after, .subscribe id view.number after ∈ before → view.Reached after)
    (hreached : view.Reached after)
    (resumed : ∀ sub ∈ s'.subscriptions, sub.view = view.number → view.Reached sub.after)
    (replayed : ∀ sub ∈ s'.subscriptions, sub.view = view.number → ∀ cursor,
      sub.stage.cursor? = some cursor → ∀ n, view.base < n → n ≤ cursor.getD 0 →
        ∃ e, s'.Sent view e ∧ e.seq = n) :
    Served s' [] view := by
  have hmem : .subscribe id view.number after ∈ s'.toServer := by
    rw [hto]
    exact List.mem_append_right _ (List.mem_singleton_self _)
  refine ⟨number, events, sorted, above, ?_, ?_, resumed, replayed,
    fun _ => .inl (.inl ⟨id, after, hmem⟩), fun _ => .inl (.inl ⟨id, after, hmem⟩)⟩
  · intro rest hrest
    rw [hto] at hrest
    rcases List.suffix_concat_iff.mp hrest with hnil | ⟨front, heq, -⟩
    · cases hnil
    · cases front with
      | nil => simp at heq
      | cons first front =>
        have hfront : rest = front ++ [.subscribe id view.number after] :=
          (List.cons.inj heq).2
        exact ⟨id, after, hfront ▸ List.mem_append_right _ (List.mem_singleton_self _)⟩
  · intro id' after' hask
    rw [hto] at hask
    rcases List.mem_append.mp hask with hold | hnew
    · exact hbefore id' after' hold
    · simp only [List.mem_singleton, ClientFrame.subscribe.injEq] at hnew
      rw [hnew.2.2]
      exact hreached

theorem not_asked_of_unmounted (sound : Sound s extra) (hv : s.view = none) :
    (∀ id after, .subscribe id s.viewNumber after ∉ s.toServer) ∧
      ∀ sub ∈ s.subscriptions, sub.view ≠ s.viewNumber := by
  have hlt := sound.asked_lt hv
  refine ⟨?_, ?_⟩
  · intro id after hmem
    refine absurd (hlt s.viewNumber (List.mem_append_right _ ?_)) (lt_irrefl _)
    exact List.mem_filterMap.mpr ⟨_, hmem, rfl⟩
  · intro sub hsub heq
    refine absurd (hlt sub.view (List.mem_append_left _ ?_)) (by rw [heq]; exact lt_irrefl _)
    exact List.mem_map.mpr ⟨sub, hsub, rfl⟩

theorem order_of_asked {asked : List ℕ} {n : ℕ} (order : asked.Pairwise (· ≤ ·))
    (hle : ∀ m ∈ asked, m ≤ n) : (asked ++ [n]).Pairwise (· ≤ ·) := by
  refine List.pairwise_append.mpr ⟨order, List.pairwise_singleton _ _, ?_⟩
  intro m hm k hk
  rw [List.mem_singleton.mp hk]
  exact hle m hm

theorem sound_asked {n : ℕ} (sound : Sound s []) (hn : n = s.viewNumber)
    (hto : s'.toServer.filterMap ClientFrame.asksFor =
      s.toServer.filterMap ClientFrame.asksFor ++ [n])
    (hsubs : s'.subscriptions = s.subscriptions) (hclient : s'.toClient = s.toClient)
    (hlog : s'.log = s.log) (hunpublished : s'.unpublished = s.unpublished)
    (hnumber : s'.viewNumber = s.viewNumber) (hview : s'.view ≠ none) (hopen : s'.isOpen = true) :
    Sound s' [] := by
  have hasked : s'.asked = s.asked ++ [n] := by
    rw [Channel.asked, hto, hsubs, ← List.append_assoc]
    rfl
  refine ⟨?_, ?_, ?_, ?_, by simp, ?_, ?_, fun hv => absurd hv hview, ?_⟩
  · rw [hclient, hlog]
    exact sound.toClient
  · rw [hsubs, hlog]
    exact sound.page
  · rw [hsubs, hlog]
    exact sound.buffer
  · rw [hunpublished, hlog]
    exact sound.unpublished
  · rw [hasked]
    exact order_of_asked sound.order fun m hm => hn ▸ sound.asked_le m hm
  · rw [hasked, hnumber]
    intro m hm
    rcases List.mem_append.mp hm with hold | hnew
    · exact sound.asked_le m hold
    · exact (List.mem_singleton.mp hnew).trans hn |>.le
  · intro hclosed
    rw [hopen] at hclosed
    cases hclosed

theorem reached_base (hbase : view.base = after.getD 0) : view.Reached after := by
  intro n hlt hle
  omega

theorem invariant_subscribe {afterSeq : Option ℕ} (inv : Invariant s [])
    (allowed : Orderly s (.subscribe afterSeq)) : Invariant (s.subscribe afterSeq) [] := by
  have sound := inv.sound
  unfold Channel.subscribe Channel.mounted
  cases hv : s.view with
  | none =>
    obtain ⟨hserver, hsubs⟩ := not_asked_of_unmounted sound hv
    split
    · rename_i hopen
      refine ⟨sound_asked sound rfl (by simp [ClientFrame.asksFor]) rfl rfl rfl rfl rfl
        (by simp) hopen, ?_⟩
      intro view hview
      cases hview
      exact served_of_asked rfl rfl (by simp) .nil (by simp)
        (fun id after hmem => absurd hmem (hserver id after)) (reached_base rfl)
        (fun sub hsub heq => absurd heq (hsubs sub hsub))
        (fun sub hsub heq => absurd heq (hsubs sub hsub))
    · rename_i hclosed
      have hempty := sound.closed (by simpa using hclosed)
      refine ⟨⟨sound.toClient, sound.page, sound.buffer, sound.unpublished, sound.extra,
        sound.order, sound.asked_le, fun hnone => (by cases hnone), sound.closed⟩, ?_⟩
      intro view hview
      cases hview
      refine ⟨rfl, by simp, .nil, by simp, ?_, fun id after hmem => absurd hmem (hserver id after),
        fun sub hsub heq => absurd heq (hsubs sub hsub),
        fun sub hsub heq => absurd heq (hsubs sub hsub), fun h => absurd h hclosed,
        fun h => absurd h hclosed⟩
      intro rest hrest
      simp [hempty] at hrest
  | some view =>
    have served := inv.served view hv
    split
    · rename_i hopen
      refine ⟨sound_asked sound served.number (by simp [ClientFrame.asksFor]) rfl rfl rfl rfl rfl
        (by simp) hopen, ?_⟩
      intro view' hview
      cases hview
      exact served_of_asked rfl served.number served.events served.sorted served.above
        served.resumes (allowed hopen view hv) served.resumed served.replayed
    · refine ⟨⟨sound.toClient, sound.page, sound.buffer, sound.unpublished, sound.extra,
        sound.order, sound.asked_le, fun hnone => (by cases hnone), sound.closed⟩, ?_⟩
      intro view' hview
      cases hview
      obtain ⟨number, events, sorted, above, followed, resumes, resumed, replayed, listening,
        owed⟩ := served
      exact ⟨number, events, sorted, above, followed, resumes, resumed, replayed, listening, owed⟩

theorem invariant_unsubscribe (inv : Invariant s []) : Invariant s.unsubscribe [] := by
  have sound := inv.sound
  have hasked : s.unsubscribe.asked = s.asked := by
    unfold Channel.asked Channel.unsubscribe
    dsimp only
    split
    · rw [List.filterMap_append]
      simp [ClientFrame.asksFor]
    · rfl
  refine ⟨⟨sound.toClient, sound.page, sound.buffer, sound.unpublished, sound.extra, ?_, ?_, ?_,
    ?_⟩, ?_⟩
  · rw [hasked]
    exact sound.order
  · rw [hasked]
    exact fun n hn => Nat.le_succ_of_le (sound.asked_le n hn)
  · rw [hasked]
    exact fun _ n hn => Nat.lt_succ_of_le (sound.asked_le n hn)
  · intro hclosed
    have hclosed' : s.isOpen = false := hclosed
    simpa [Channel.unsubscribe, hclosed'] using sound.closed hclosed'
  · intro view hv
    cases hv

theorem invariant_lost (inv : Invariant s []) : Invariant s.lost [] := by
  have sound := inv.sound
  refine ⟨⟨?_, ?_, ?_, sound.unpublished, sound.extra, .nil, ?_, ?_, fun _ => rfl⟩, ?_⟩
  · intro batch hbatch
    cases hbatch
  · intro sub hsub
    cases hsub
  · intro sub hsub
    cases hsub
  · intro n hn
    cases hn
  · intro _ n hn
    cases hn
  · intro view hv
    have served := inv.served view hv
    refine ⟨served.number, served.events, served.sorted, served.above, ?_, ?_, ?_, ?_, ?_, ?_⟩
    · intro rest hrest
      simp [Channel.lost] at hrest
    · intro id after hmem
      cases hmem
    · intro sub hsub
      cases hsub
    · intro sub hsub
      cases hsub
    · intro hopen
      cases hopen
    · intro hopen
      cases hopen

theorem resumeAfter_lost : s.lost.resumeAfter = s.resumeAfter := by
  unfold Channel.resumeAfter Channel.lost
  dsimp only
  split
  · cases s.lastSeq <;> cases s.parked <;> rfl
  · rfl

theorem asksFor_queued (n : ℕ) :
    (List.replicate n ClientFrame.unsubscribe).filterMap ClientFrame.asksFor = [] := by
  simp [ClientFrame.asksFor]

theorem invariant_connected (inv : Invariant s []) (hclosed : s.isOpen = false)
    (hreached : ∀ view, s.view = some view → view.Reached s.resumeAfter) :
    Invariant s.connected [] := by
  have sound := inv.sound
  have hempty := sound.closed hclosed
  unfold Channel.connected
  cases hv : s.view with
  | none =>
    have hasked : s.subscriptions.map Subscription.view ++
        (List.replicate s.queued ClientFrame.unsubscribe).filterMap ClientFrame.asksFor =
          s.asked := by
      rw [Channel.asked, hempty, asksFor_queued]
      rfl
    refine ⟨⟨sound.toClient, sound.page, sound.buffer, sound.unpublished, sound.extra, ?_, ?_, ?_,
      fun h => (by cases h)⟩, fun view hview => ?_⟩
    · rw [Channel.asked, hasked]
      exact sound.order
    · rw [Channel.asked, hasked]
      exact sound.asked_le
    · intro _
      rw [Channel.asked, hasked]
      exact sound.asked_lt hv
    · cases hview
  | some view =>
    have served := inv.served view hv
    refine ⟨sound_asked sound served.number ?_ rfl rfl rfl rfl rfl (by simp) rfl, ?_⟩
    · dsimp only
      rw [List.filterMap_append, asksFor_queued, hempty]
      rfl
    · intro view' hview
      cases hview
      refine served_of_asked rfl served.number served.events served.sorted served.above ?_
        (hreached view hv) served.resumed served.replayed
      intro id after hmem
      simp at hmem

theorem invariant_opened (inv : Invariant s []) (allowed : Orderly s .opened)
    (hstep : step s .opened = some s') : Invariant s' [] := by
  cases hstep
  split
  · refine invariant_connected (invariant_lost inv) rfl fun view hv => ?_
    rw [resumeAfter_lost]
    exact allowed view hv
  · rename_i hclosed
    exact invariant_connected inv (by simpa using hclosed) allowed

theorem View.Reached.mono {view' : View Event} (h : view.Reached after)
    (hbase : view'.base = view.base) (hevents : view.events ⊆ view'.events) :
    view'.Reached after := by
  intro n hlt hle
  obtain ⟨e, he, hseq⟩ := List.mem_map.mp (h n (hbase ▸ hlt) hle)
  exact List.mem_map.mpr ⟨e, hevents he, hseq⟩

variable {rest : List (ServerFrame Event)}

theorem invariant_delivered {frame : ServerFrame Event} (inv : Invariant s [])
    (hto : s.toClient = frame :: rest) (hframe : ∀ batch, frame = .events batch → batch = [])
    (pending : List ℕ) : Invariant { s with toClient := rest, pendingReplies := pending } [] := by
  have keep : ∀ {view e}, s.Sent view e → Channel.Sent { s with
      toClient := rest, pendingReplies := pending } view e := by
    rintro view e (hlist | ⟨batch, hbatch, he⟩)
    · exact .inl hlist
    · rw [hto] at hbatch
      rcases List.mem_cons.mp hbatch with heq | hrest
      · rw [hframe batch heq.symm] at he
        cases he
      · exact .inr ⟨batch, hrest, he⟩
  obtain ⟨sound, served⟩ := inv
  refine ⟨⟨fun batch hbatch => sound.toClient batch (hto ▸ List.mem_cons_of_mem _ hbatch),
    sound.page, sound.buffer, sound.unpublished, sound.extra, sound.order, sound.asked_le,
    sound.asked_lt, sound.closed⟩, ?_⟩
  intro view hv
  obtain ⟨number, events, sorted, above, followed, resumes, resumed, replayed, listening,
    owed⟩ := served view hv
  refine ⟨number, events, sorted, above, followed, resumes, resumed, ?_, listening, ?_⟩
  · intro sub hsub hview cursor hcursor n hbase hle
    obtain ⟨e, hsent, hseq⟩ := replayed sub hsub hview cursor hcursor n hbase hle
    exact ⟨e, keep hsent, hseq⟩
  · intro hopen
    refine (owed hopen).imp_right ?_
    intro howed e he hbase
    exact (howed e he hbase).imp_left keep

theorem invariant_inserted {batch : List (ChatEvent Event)} {lastSeq : Option ℕ}
    (inv : Invariant s []) (hto : s.toClient = .events batch :: rest)
    (habove : ∀ view, s.view = some view → ∀ e ∈ batch, view.base < e.seq) :
    Invariant { s with
      toClient := rest
      lastSeq := lastSeq
      view := s.view.map fun view =>
        { view with events := insertManyBySeq view.events batch } } [] := by
  have hbatch : batch ⊆ numbered s.log :=
    inv.sound.toClient batch (hto ▸ List.mem_cons_self)
  obtain ⟨sound, served⟩ := inv
  refine ⟨⟨fun batch hbatch => sound.toClient batch (hto ▸ List.mem_cons_of_mem _ hbatch),
    sound.page, sound.buffer, sound.unpublished, sound.extra, sound.order, sound.asked_le,
    fun hnone => sound.asked_lt (by simpa using hnone), sound.closed⟩, ?_⟩
  intro view' hview'
  obtain ⟨view, hv, rfl⟩ := Option.map_eq_some_iff.mp hview'
  obtain ⟨number, events, sorted, above, followed, resumes, resumed, replayed, listening,
    owed⟩ := served view hv
  have hmem : ∀ {e}, e ∈ insertManyBySeq view.events batch ↔ e ∈ view.events ∨ e ∈ batch := by
    intro e
    refine mem_insertManyBySeq ?_
    intro a ha b hb
    have hlog : view.events ++ batch ⊆ numbered s.log := List.append_subset.mpr ⟨events, hbatch⟩
    exact (sorted_numbered s.log).consistent a (hlog ha) b (hlog hb)
  have grows : view.events ⊆ insertManyBySeq view.events batch := fun e he => hmem.mpr (.inl he)
  have keep : ∀ {e}, s.Sent view e → Channel.Sent { s with
      toClient := rest
      lastSeq := lastSeq
      view := s.view.map fun view =>
        { view with events := insertManyBySeq view.events batch } }
      { view with events := insertManyBySeq view.events batch } e := by
    rintro e (hlist | ⟨batch', hbatch', he⟩)
    · exact .inl (grows hlist)
    · rw [hto] at hbatch'
      rcases List.mem_cons.mp hbatch' with heq | hrest
      · cases heq
        exact .inl (hmem.mpr (.inr he))
      · exact .inr ⟨batch', hrest, he⟩
  refine ⟨number, ?_, sorted_insertManyBySeq sorted batch, ?_, followed, ?_, ?_, ?_, listening, ?_⟩
  · intro e he
    exact (hmem.mp he).elim (fun h => events h) (fun h => hbatch h)
  · intro e he
    exact (hmem.mp he).elim (above e) (habove view hv e)
  · exact fun id after hask => (resumes id after hask).mono rfl grows
  · exact fun sub hsub hview => (resumed sub hsub hview).mono rfl grows
  · intro sub hsub hview cursor hcursor n hbase hle
    obtain ⟨e, hsent, hseq⟩ := replayed sub hsub hview cursor hcursor n hbase hle
    exact ⟨e, keep hsent, hseq⟩
  · intro hopen
    refine (owed hopen).imp_right ?_
    intro howed e he hbase
    exact (howed e he hbase).imp_left keep

theorem invariant_deliver (inv : Invariant s []) (allowed : Orderly s .deliver)
    (hstep : step s .deliver = some s') : Invariant s' [] := by
  unfold step at hstep
  dsimp only at hstep
  split at hstep <;> cases hstep
  rename_i frame rest hto
  unfold Channel.onFrame
  split
  · rename_i batch
    split
    · rename_i hlast
      refine invariant_delivered inv hto ?_ s.pendingReplies
      intro batch' heq
      cases heq
      exact List.getLast?_eq_none_iff.mp hlast
    · exact invariant_inserted (s := s) inv hto fun view hv e he =>
        allowed view hv batch (by rw [hto]; rfl) e he
  · exact invariant_delivered inv hto (by simp) _
  · exact invariant_delivered inv hto (by simp) _

end

open Library.Runs Library.SortedByKey

universe u

variable {Event : Type u} {s s' : Channel Event} {extra extra' : List (ChatEvent Event)}
  {view : View Event} {h : ℕ} {sub sub' : Subscription Event} {e : ChatEvent Event}

theorem invariant_step {a : Action Event} (inv : Invariant s []) (allowed : Orderly s a)
    (hstep : step s a = some s') : Invariant s' [] := by
  cases a with
  | append events => exact invariant_append inv hstep
  | publish k => exact invariant_publish inv hstep
  | receive => exact invariant_receive inv hstep
  | start h => exact invariant_start inv allowed hstep
  | read h => exact invariant_read inv hstep
  | resume h => exact invariant_resume inv hstep
  | fail h => exact invariant_fail inv hstep
  | subscribe afterSeq =>
    cases hstep
    exact invariant_subscribe inv allowed
  | unsubscribe =>
    cases hstep
    exact invariant_unsubscribe inv
  | opened => exact invariant_opened inv allowed hstep
  | drop =>
    unfold step at hstep
    dsimp only at hstep
    split at hstep <;> cases hstep
    exact invariant_lost inv
  | deliver => exact invariant_deliver inv allowed hstep
  | timeout id =>
    cases hstep
    obtain ⟨sound, served⟩ := inv
    refine ⟨⟨sound.toClient, sound.page, sound.buffer, sound.unpublished, sound.extra,
      sound.order, sound.asked_le, sound.asked_lt, sound.closed⟩, ?_⟩
    intro view hv
    obtain ⟨number, events, sorted, above, followed, resumes, resumed, replayed, listening,
      owed⟩ := served view hv
    exact ⟨number, events, sorted, above, followed, resumes, resumed, replayed, listening, owed⟩

/-- The connection is open, no frame and no publication is underway, and every subscribe of
the mounted chat has been answered. -/
structure Quiet (s : Channel Event) (view : View Event) : Prop where
  isOpen : s.isOpen = true
  toServer : s.toServer = []
  toClient : s.toClient = []
  unpublished : s.unpublished = []
  answered : ∀ sub ∈ s.subscriptions, sub.view = view.number → sub.stage.isLive = true

def startOf (log : List Event) : Channel Event := { log := log }

theorem invariant_startOf (log : List Event) : Invariant (startOf log) [] := by
  refine ⟨⟨?_, ?_, ?_, ?_, by simp, .nil, ?_, ?_, fun _ => rfl⟩, fun view hv => ?_⟩
  · intro batch hbatch
    cases hbatch
  · intro sub hsub
    cases hsub
  · intro sub hsub
    cases hsub
  · intro call hcall
    cases hcall
  · intro n hn
    cases hn
  · intro _ n hn
    cases hn
  · cases hv

theorem events_eq_of_quiet (inv : Invariant s []) (hv : s.view = some view) (quiet : Quiet s view) :
    view.events = (numbered s.log).filter fun e => view.base < e.seq := by
  have served := inv.served view hv
  have settled : ∀ {i : ℕ} {sub : Subscription Event}, s.subscriptions[i]? = some sub →
      sub.view = view.number → sub.stage = .live := by
    intro i sub hi hview
    have hlive := quiet.answered sub (List.mem_of_getElem? hi) hview
    cases hstage : sub.stage <;> simp_all [Stage.isLive]
  have hout : ¬ s.Outstanding view.number := by
    rintro (⟨id, after, hmem⟩ | ⟨i, sub, hi, hview, hunsettled⟩)
    · simp [quiet.toServer] at hmem
    · simp [settled hi hview, Stage.settled] at hunsettled
  have howed := (served.owed quiet.isOpen).resolve_left hout
  refine served.sorted.eq_of_mem_iff ((sorted_numbered s.log).filter _) fun e => ?_
  rw [List.mem_filter, decide_eq_true_eq]
  refine ⟨fun he => ⟨served.events he, served.above e he⟩, ?_⟩
  rintro ⟨he, hbase⟩
  rcases howed e he hbase with hsent | ⟨i, sub, cursor, page, hi, hview, hstage, -⟩ |
    ⟨call, hcall, -⟩ | hnow
  · rcases hsent with hlist | ⟨batch, hbatch, -⟩
    · exact hlist
    · simp [quiet.toClient] at hbatch
  · rw [settled hi hview] at hstage
    cases hstage
  · simp [quiet.unpublished] at hcall
  · cases hnow

instance (s : Channel Event) (view : View Event) : Decidable (Quiet s view) :=
  decidable_of_iff (s.isOpen = true ∧ s.toServer = [] ∧ s.toClient.isEmpty = true ∧
      s.unpublished.isEmpty = true ∧
        ∀ sub ∈ s.subscriptions, sub.view = view.number → sub.stage.isLive = true) <| by
    simp only [List.isEmpty_iff]
    constructor
    · rintro ⟨isOpen, toServer, toClient, unpublished, answered⟩
      exact ⟨isOpen, toServer, toClient, unpublished, answered⟩
    · rintro ⟨isOpen, toServer, toClient, unpublished, answered⟩
      exact ⟨isOpen, toServer, toClient, unpublished, answered⟩

/-- A chat is opened while a message is appended, the connection drops behind the next one,
and a last one is appended before it opens again. -/
def resumedRun : List (Action String) :=
  [.append ["a", "b"], .publish 0, .opened, .subscribe (some 0), .receive, .start 0, .read 0,
    .append ["c"], .publish 0, .resume 0, .deliver, .deliver, .deliver,
    .append ["d"], .publish 0, .drop, .append ["e"], .publish 0,
    .opened, .receive, .start 0, .read 0, .resume 0, .deliver, .deliver]

theorem exists_mounted (log : List Event) (acts : List (Action Event))
    (P : Channel Event → View Event → Prop) [∀ s view, Decidable (P s view)]
    (h : (exec step (startOf log) acts).any (fun s => s.view.any fun view => P s view) = true) :
    ∃ s view, exec step (startOf log) acts = some s ∧ s.view = some view ∧ P s view := by
  obtain ⟨s, hs, hany⟩ := (Option.any_eq_true _ _).mp h
  obtain ⟨view, hv, hP⟩ := (Option.any_eq_true _ _).mp hany
  exact ⟨s, view, hs, hv, of_decide_eq_true hP⟩

/-- A chat is left while an event is on its way to it, which the client takes afterwards; the
connection drops, and the chat is opened anew from the start of the log. -/
def lateFrame : List (Action String) :=
  [.opened, .subscribe (some 0), .receive, .start 0, .read 0, .resume 0, .deliver,
    .append ["a"], .publish 0, .unsubscribe, .deliver, .drop,
    .subscribe (some 0), .opened, .receive, .start 0, .read 0, .resume 0, .deliver]

end Portuni.EventStream
