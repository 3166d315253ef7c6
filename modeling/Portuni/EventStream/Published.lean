import Portuni.EventStream.Update

namespace Portuni.EventStream

/-!
Appending to the log, publishing, and the frames that the server takes from the client.
-/

section

open Library.SortedByKey

universe u

variable {Event : Type u} {s s' : Channel Event} {extra extra' : List (ChatEvent Event)}
  {view : View Event} {h : ℕ} {sub sub' : Subscription Event} {e : ChatEvent Event}

theorem invariant_unheard (inv : Invariant s (e :: extra))
    (hunheard : ∀ view, s.view = some view → s.isOpen = true → s.Outstanding view.number) :
    Invariant s extra := by
  obtain ⟨sound, served⟩ := inv
  refine ⟨⟨sound.toClient, sound.page, sound.buffer, sound.unpublished,
    fun e he => sound.extra (List.mem_cons_of_mem _ he), sound.order, sound.asked_le,
    sound.asked_lt, sound.closed⟩, ?_⟩
  intro view hv
  obtain ⟨number, events, sorted, above, followed, resumes, resumed, replayed, listening, owed⟩ :=
    served view hv
  exact ⟨number, events, sorted, above, followed, resumes, resumed, replayed, listening,
    fun hopen => .inl (hunheard view hv hopen)⟩

theorem listener_settled (served : Served s extra view) (hopen : s.isOpen = true)
    (hout : ¬ s.Outstanding view.number) (hcurrent : s.current = some h)
    (hh : s.subscriptions[h]? = some sub) (hlive : ¬ sub.stage.isLive = true) :
    sub.view = view.number ∧ ∃ cursor page, sub.stage = .page cursor page ∧
      page.length < replayPageSize := by
  rcases served.listening hopen with hun | ⟨h', sub', hcur, hsub, hview⟩
  · exact absurd hun.outstanding hout
  rw [hcurrent] at hcur
  cases hcur
  rw [hh] at hsub
  cases hsub
  have hsettled : sub.stage.settled = true := by
    by_contra hnot
    exact hout (.inr ⟨h, sub, hh, hview, by simpa using hnot⟩)
  refine ⟨hview, ?_⟩
  cases hstage : sub.stage with
  | page cursor page =>
    refine ⟨cursor, page, rfl, ?_⟩
    simpa [Stage.settled, hstage] using hsettled
  | live => simp [hstage, Stage.isLive] at hlive
  | _ => simp [Stage.settled, hstage] at hsettled

theorem invariant_publishOne (inv : Invariant s (e :: extra)) :
    Invariant (s.publishOne e) extra := by
  unfold Channel.publishOne
  split
  · rename_i hcurrent
    refine invariant_unheard inv fun view hv hopen => ?_
    rcases (inv.served view hv).listening hopen with hun | ⟨h, sub, hcur, -⟩
    · exact hun.outstanding
    · rw [hcurrent] at hcur
      cases hcur
  rename_i h hcurrent
  split
  · rename_i hnone
    refine invariant_unheard inv fun view hv hopen => ?_
    rcases (inv.served view hv).listening hopen with hun | ⟨h', sub, hcur, hsub, -⟩
    · exact hun.outstanding
    · rw [hcurrent] at hcur
      cases hcur
      rw [hnone] at hsub
      cases hsub
  rename_i sub hh
  have hmem := List.mem_of_getElem? hh
  have hlog : e ∈ numbered s.log := inv.sound.extra List.mem_cons_self
  have hsame : s.subscriptions.set h sub = s.subscriptions := by
    obtain ⟨hlt, rfl⟩ := List.getElem?_eq_some_iff.mp hh
    exact List.set_getElem_self hlt
  split
  · refine invariant_update sub [.events [e]] s.current inv hh rfl rfl
      (fun _ h => List.mem_cons_of_mem _ h) (by simpa using hlog) (inv.sound.page sub hmem)
      (inv.sound.buffer sub hmem) (by rw [hsame]) ?_ ?_ ?_
    · intro view hv hview cursor hcursor n hbase hle
      obtain ⟨e', hsent, hseq⟩ :=
        (inv.served view hv).replayed sub hmem hview cursor hcursor n hbase hle
      exact ⟨e', hsent.mono [.events [e]] rfl, hseq⟩
    · exact fun view hv hopen => (inv.served view hv).listening hopen
    · intro view hv hopen
      refine ((inv.served view hv).owed hopen).imp (fun hout => hout) ?_
      intro howed e' he' hbase
      refine (howed e' he' hbase).set [.events [e]] hh hsame.symm rfl rfl ?_ ?_
      · intro hnow
        rcases List.mem_cons.mp hnow with rfl | hlater
        · exact .inl (.inr ⟨[e'], by simp, List.mem_singleton_self e'⟩)
        · exact .inr (.inr (.inr hlater))
      · intro cursor page hview hstage hshort hwaits
        exact .inr (.inl ⟨h, sub, cursor, page, hh, hview, hstage, hshort, hwaits⟩)
  · rename_i hlive
    refine invariant_update { sub with buffer := sub.buffer ++ [e] } [] s.current inv hh rfl rfl
      (fun _ h => List.mem_cons_of_mem _ h) (by simp) (inv.sound.page sub hmem)
      ?_ (by rw [List.append_nil]) ?_ ?_ ?_
    · intro e' he'
      rcases List.mem_append.mp he' with hold | hnew
      · exact inv.sound.buffer sub hmem hold
      · rwa [List.mem_singleton.mp hnew]
    · exact fun view hv hview cursor hcursor =>
        (inv.served view hv).replayed sub hmem hview cursor hcursor
    · intro view hv hopen
      exact listening_set (inv.served view hv) hopen hh rfl rfl (fun h => h) rfl rfl
    · intro view hv hopen
      have served := inv.served view hv
      obtain ⟨hlt, -⟩ := List.getElem?_eq_some_iff.mp hh
      by_cases hout : s.Outstanding view.number
      · exact .inl (hout.set rfl hh rfl rfl fun _ hsettled => hsettled)
      right
      intro e' he' hbase
      have howed := (served.owed hopen).resolve_left hout e' he' hbase
      refine howed.set [] hh rfl (by rw [List.append_nil]) rfl ?_ ?_
      · intro hnow
        rcases List.mem_cons.mp hnow with rfl | hlater
        · obtain ⟨hview, cursor, page, hstage, hshort⟩ :=
            listener_settled served hopen hout hcurrent hh hlive
          exact .inr (.inl ⟨h, _, cursor, page, List.getElem?_set_self hlt, hview, hstage, hshort,
            .inr (List.mem_append_right _ (List.mem_singleton_self e'))⟩)
        · exact .inr (.inr (.inr hlater))
      · intro cursor page hview hstage hshort hwaits
        exact .inr (.inl ⟨h, _, cursor, page, List.getElem?_set_self hlt, hview, hstage, hshort,
          hwaits.imp_right (List.mem_append_left _)⟩)

theorem invariant_publish {k : ℕ} (inv : Invariant s [])
    (hstep : step s (.publish k) = some s') : Invariant s' [] := by
  unfold step at hstep
  dsimp only at hstep
  split at hstep <;> cases hstep
  rename_i events hcall
  have all : ∀ (events : List (ChatEvent Event)) (t : Channel Event), Invariant t events →
      Invariant (events.foldl Channel.publishOne t) [] := by
    intro events
    induction events with
    | nil => exact fun t ht => ht
    | cons e rest ih => exact fun t ht => ih _ (invariant_publishOne ht)
  refine all events _ ⟨?_, ?_⟩
  · have sound := inv.sound
    exact ⟨sound.toClient, sound.page, sound.buffer,
      fun call hmem => sound.unpublished call (List.mem_of_mem_eraseIdx hmem),
      sound.unpublished events (List.mem_of_getElem? hcall), sound.order, sound.asked_le,
      sound.asked_lt, sound.closed⟩
  · intro view hv
    obtain ⟨number, events', sorted, above, followed, resumes, resumed, replayed, listening,
      owed⟩ := inv.served view hv
    refine ⟨number, events', sorted, above, followed, resumes, resumed, replayed, listening, ?_⟩
    intro hopen
    refine (owed hopen).imp_right ?_
    intro howed e he hbase
    rcases howed e he hbase with hsent | hreplayed | ⟨call, hmem, hin⟩ | hnow
    · exact .inl hsent
    · exact .inr (.inl hreplayed)
    · obtain ⟨j, hj⟩ := List.mem_iff_getElem?.mp hmem
      by_cases hjk : j = k
      · subst hjk
        rw [hcall] at hj
        cases hj
        exact .inr (.inr (.inr hin))
      · exact .inr (.inr (.inl ⟨call, List.mem_eraseIdx_iff_getElem?.mpr ⟨j, hjk, hj⟩, hin⟩))
    · cases hnow

theorem invariant_append {events : List Event} (inv : Invariant s [])
    (hstep : step s (.append events) = some s') : Invariant s' [] := by
  cases hstep
  have grows := numbered_subset s.log events
  have sound := inv.sound
  refine ⟨⟨fun batch hbatch => List.Subset.trans (sound.toClient batch hbatch) grows, ?_,
    fun sub hsub => List.Subset.trans (sound.buffer sub hsub) grows, ?_, by simp, sound.order,
    sound.asked_le, sound.asked_lt, sound.closed⟩, ?_⟩
  · intro sub hsub cursor page hstage
    obtain ⟨hlog, hclosed⟩ := sound.page sub hsub cursor page hstage
    exact ⟨List.Subset.trans hlog grows, hclosed⟩
  · intro call hcall
    rcases List.mem_append.mp hcall with hold | hnew
    · exact List.Subset.trans (sound.unpublished call hold) grows
    · rw [List.mem_singleton.mp hnew]
      exact fun e he => List.mem_of_mem_drop he
  · intro view hv
    obtain ⟨number, events', sorted, above, followed, resumes, resumed, replayed, listening,
      owed⟩ := inv.served view hv
    refine ⟨number, List.Subset.trans events' grows, sorted, above, followed, resumes, resumed,
      replayed, listening, ?_⟩
    intro hopen
    refine (owed hopen).imp_right ?_
    intro howed e he hbase
    rw [numbered_append] at he
    rcases List.mem_append.mp he with hold | hnew
    · rcases howed e hold hbase with hsent | hreplayed | ⟨call, hmem, hin⟩ | hnow
      · exact .inl hsent
      · exact .inr (.inl hreplayed)
      · exact .inr (.inr (.inl ⟨call, List.mem_append_left _ hmem, hin⟩))
      · cases hnow
    · exact .inr (.inr (.inl ⟨_, List.mem_append_right _ (List.mem_singleton_self _), hnew⟩))

variable {rest : List ClientFrame}

theorem invariant_subscribed {id : ℕ} (new : Subscription Event) (inv : Invariant s [])
    (hstage : new.stage = .access) (hbuffer : new.buffer = [])
    (hto : s.toServer = .subscribe id new.view new.after :: rest) :
    Invariant { s with toServer := rest, subscriptions := s.subscriptions ++ [new] } [] := by
  have hasked : (s.subscriptions ++ [new]).map Subscription.view ++
      rest.filterMap ClientFrame.asksFor = s.asked := by
    simp [Channel.asked, hto, ClientFrame.asksFor]
  have appended : ∀ {i : ℕ} {r}, s.subscriptions[i]? = some r →
      (s.subscriptions ++ [new])[i]? = some r := by
    intro i r hi
    obtain ⟨hlt, -⟩ := List.getElem?_eq_some_iff.mp hi
    rw [List.getElem?_append_left hlt, hi]
  have hnew : (s.subscriptions ++ [new])[s.subscriptions.length]? = some new := by simp
  have memAppend : ∀ {r}, r ∈ s.subscriptions ++ [new] → r ∈ s.subscriptions ∨ r = new := by
    intro r hr
    simpa using hr
  have head : ∀ {view id' after'}, .subscribe id' view after' ∈ s.toServer →
      .subscribe id' view after' ∈ rest ∨ new.view = view := by
    intro view id' after' hmem
    rw [hto] at hmem
    rcases List.mem_cons.mp hmem with heq | hrest
    · cases heq
      exact .inr rfl
    · exact .inl hrest
  refine ⟨?_, ?_⟩
  · have sound := inv.sound
    refine ⟨sound.toClient, ?_, ?_, sound.unpublished, sound.extra, ?_, ?_, ?_, ?_⟩
    · intro r hr cursor page hpage
      rcases memAppend hr with hold | rfl
      · exact sound.page r hold cursor page hpage
      · simp [hstage] at hpage
    · intro r hr
      rcases memAppend hr with hold | rfl
      · exact sound.buffer r hold
      · simp [hbuffer]
    · rw [Channel.asked, hasked]
      exact sound.order
    · rw [Channel.asked, hasked]
      exact sound.asked_le
    · rw [Channel.asked, hasked]
      exact sound.asked_lt
    · intro hclosed
      have hempty := sound.closed hclosed
      rw [hto] at hempty
      cases hempty
  · intro view hv
    have served := inv.served view hv
    refine ⟨served.number, served.events, served.sorted, served.above, ?_, ?_, ?_, ?_, ?_, ?_⟩
    · intro post hpost
      exact served.followed post (hto ▸ hpost.trans (List.suffix_cons _ _))
    · intro id' after' hmem
      exact served.resumes id' after' (hto ▸ List.mem_cons_of_mem _ hmem)
    · intro r hr hview
      rcases memAppend hr with hold | rfl
      · exact served.resumed r hold hview
      · exact served.resumes id r.after (by rw [← hview, hto]; exact List.mem_cons_self)
    · intro r hr hview cursor hcursor
      rcases memAppend hr with hold | rfl
      · exact served.replayed r hold hview cursor hcursor
      · simp [hstage, Stage.cursor?] at hcursor
    · intro hopen
      rcases served.listening hopen with (⟨id', after', hmem⟩ | ⟨i, r, hi, hr⟩) | ⟨i, r, hcur, hi, hr⟩
      · rcases head hmem with hrest | hview
        · exact .inl (.inl ⟨id', after', hrest⟩)
        · exact .inl (.inr ⟨_, new, hnew, hview, by rw [hstage]; rfl⟩)
      · exact .inl (.inr ⟨i, r, appended hi, hr⟩)
      · exact .inr ⟨i, r, hcur, appended hi, hr⟩
    · intro hopen
      rcases served.owed hopen with (⟨id', after', hmem⟩ | ⟨i, r, hi, hr⟩) | howed
      · rcases head hmem with hrest | hview
        · exact .inl (.inl ⟨id', after', hrest⟩)
        · exact .inl (.inr ⟨_, new, hnew, hview, by rw [hstage]; rfl⟩)
      · exact .inl (.inr ⟨i, r, appended hi, hr⟩)
      · right
        intro e he hbase
        refine (howed e he hbase).imp_right (.imp_left ?_)
        rintro ⟨i, r, cursor, page, hi, hreplay⟩
        exact ⟨i, r, cursor, page, appended hi, hreplay⟩

theorem invariant_unsubscribed (inv : Invariant s []) (hto : s.toServer = .unsubscribe :: rest) :
    Invariant { s with toServer := rest, current := none } [] := by
  have hasked : s.subscriptions.map Subscription.view ++ rest.filterMap ClientFrame.asksFor =
      s.asked := by
    rw [Channel.asked, hto]
    rfl
  refine ⟨?_, ?_⟩
  · have sound := inv.sound
    refine ⟨sound.toClient, sound.page, sound.buffer, sound.unpublished, sound.extra, ?_, ?_, ?_,
      ?_⟩
    · rw [Channel.asked, hasked]
      exact sound.order
    · rw [Channel.asked, hasked]
      exact sound.asked_le
    · rw [Channel.asked, hasked]
      exact sound.asked_lt
    · intro hclosed
      have hempty := sound.closed hclosed
      rw [hto] at hempty
      cases hempty
  · intro view hv
    have served := inv.served view hv
    obtain ⟨id, after, hmem⟩ := served.followed rest (hto ▸ List.suffix_refl _)
    refine ⟨served.number, served.events, served.sorted, served.above, ?_, ?_, served.resumed,
      served.replayed, fun _ => .inl (.inl ⟨id, after, hmem⟩),
      fun _ => .inl (.inl ⟨id, after, hmem⟩)⟩
    · intro post hpost
      exact served.followed post (hto ▸ hpost.trans (List.suffix_cons _ _))
    · intro id' after' hmem'
      exact served.resumes id' after' (hto ▸ List.mem_cons_of_mem _ hmem')

theorem invariant_receive (inv : Invariant s []) (hstep : step s .receive = some s') :
    Invariant s' [] := by
  unfold step at hstep
  dsimp only at hstep
  split at hstep <;> cases hstep
  · rename_i id asker after rest hto
    exact invariant_subscribed { id := id, view := asker, after := after } inv rfl rfl hto
  · rename_i rest hto
    exact invariant_unsubscribed inv hto

end

open Library.SortedByKey

universe u

variable {Event : Type u} {s s' : Channel Event} {extra extra' : List (ChatEvent Event)}
  {view : View Event} {h : ℕ} {sub sub' : Subscription Event} {e : ChatEvent Event}

theorem invariant_start (inv : Invariant s []) (allowed : Orderly s (.start h))
    (hstep : step s (.start h) = some s') : Invariant s' [] := by
  unfold step at hstep
  dsimp only at hstep
  split at hstep
  · cases hstep
  rename_i sub hh
  split at hstep <;> cases hstep
  rename_i hstage
  refine invariant_update { sub with stage := .reading sub.after } [] (some h) inv hh rfl rfl
    (fun _ h => h) (by simp) (by simp) (inv.sound.buffer sub (List.mem_of_getElem? hh))
    (by rw [List.append_nil]) ?_ ?_ ?_
  · intro view hv hview cursor hcursor n hbase hle
    simp only [Stage.cursor?, Option.some.injEq] at hcursor
    subst hcursor
    have hreached := (inv.served view hv).resumed sub (List.mem_of_getElem? hh) hview n hbase hle
    obtain ⟨e, he, hseq⟩ := List.mem_map.mp hreached
    exact ⟨e, .inl he, hseq⟩
  · intro view hv hopen
    by_cases hview : sub.view = view.number
    · obtain ⟨hlt, -⟩ := List.getElem?_eq_some_iff.mp hh
      exact .inr ⟨h, _, rfl, List.getElem?_set_self hlt, hview⟩
    · exact .inl ((unstarted_of_stale inv hv hopen hh hview allowed).set rfl hh rfl rfl
        fun heq => absurd heq hview)
  · intro view hv hopen
    refine ((inv.served view hv).owed hopen).imp ?_ ?_
    · exact fun hout => hout.set rfl hh rfl rfl fun _ _ => rfl
    · intro howed e he hbase
      refine (howed e he hbase).set [] hh rfl (by rw [List.append_nil]) rfl (by simp) ?_
      intro cursor page _ hpage
      simp [hstage] at hpage

theorem mem_numbered_of_sent (inv : Invariant s extra) (hv : s.view = some view)
    (hsent : s.Sent view e) : e ∈ numbered s.log := by
  rcases hsent with hlist | ⟨batch, hbatch, hmem⟩
  · exact (inv.served view hv).events hlist
  · exact inv.sound.toClient batch hbatch hmem

theorem sent_of_seq (inv : Invariant s extra) (hv : s.view = some view) (he : e ∈ numbered s.log)
    (h : ∃ e', s.Sent view e' ∧ e'.seq = e.seq) : s.Sent view e := by
  obtain ⟨e', hsent, hseq⟩ := h
  have hlog := mem_numbered_of_sent inv hv hsent
  rwa [(sorted_numbered s.log).consistent e' hlog e he hseq] at hsent

theorem invariant_read (inv : Invariant s []) (hstep : step s (.read h) = some s') :
    Invariant s' [] := by
  unfold step at hstep
  dsimp only at hstep
  split at hstep
  · cases hstep
  rename_i sub hh
  split at hstep <;> cases hstep
  rename_i cursor hstage
  have hmem := List.mem_of_getElem? hh
  refine invariant_update
    { sub with stage := .page cursor (listEvents s.log cursor replayPageSize) } [] s.current inv hh
    rfl rfl (fun _ h => h) (by simp) ?_ (inv.sound.buffer sub hmem) (by rw [List.append_nil])
    ?_ ?_ ?_
  · rintro cursor' page hpage
    simp only [Stage.page.injEq] at hpage
    obtain ⟨rfl, rfl⟩ := hpage
    exact ⟨fun e he => (mem_listEvents he).1, pageClosed_listEvents _ _ _⟩
  · intro view hv hview cursor' hcursor n hbase hle
    refine (inv.served view hv).replayed sub hmem hview cursor' ?_ n hbase hle
    rwa [hstage]
  · intro view hv hopen
    exact listening_set (inv.served view hv) hopen hh rfl rfl (by simp [hstage, Stage.unstarted])
      rfl rfl
  · intro view hv hopen
    have served := inv.served view hv
    by_cases hlast : sub.view = view.number ∧
        (listEvents s.log cursor replayPageSize).length < replayPageSize
    · obtain ⟨hview, hshort⟩ := hlast
      obtain ⟨hlt, -⟩ := List.getElem?_eq_some_iff.mp hh
      right
      intro e he hbase
      by_cases hcursor : e.seq ≤ cursor.getD 0
      · refine .inl ((sent_of_seq inv hv he ?_).mono [] (by rw [List.append_nil]))
        exact served.replayed sub hmem hview cursor (by rw [hstage]; rfl) e.seq hbase hcursor
      · have hpage := mem_listEvents_of_short hshort he (Nat.lt_of_not_le hcursor)
        exact .inr (.inl ⟨h, _, cursor, _, List.getElem?_set_self hlt, hview, rfl, hshort,
          .inl hpage⟩)
    · refine (served.owed hopen).imp ?_ ?_
      · intro hout
        refine hout.set rfl hh rfl rfl fun hview _ => ?_
        simpa [Stage.settled, hview] using hlast
      · intro howed e he hbase
        refine (howed e he hbase).set [] hh rfl (by rw [List.append_nil]) rfl (by simp) ?_
        intro cursor' page _ hpage
        simp [hstage] at hpage

variable {page : List (ChatEvent Event)} {cursor : Option ℕ} {batch : List (ChatEvent Event)}

theorem mem_eventsFrame (h : .events batch ∈ eventsFrame page) : batch = page := by
  unfold eventsFrame at h
  split at h
  · cases h
  · simpa using h

theorem events_mem_eventsFrame (he : e ∈ page) :
    .events page ∈ eventsFrame page := by
  unfold eventsFrame
  rw [if_neg (List.ne_nil_of_mem he)]
  exact List.mem_singleton_self _

theorem sent_or_mem_page (inv : Invariant s extra) (hv : s.view = some view)
    (hmem : sub ∈ s.subscriptions) (hview : sub.view = view.number)
    (hstage : sub.stage = .page cursor page) {n : ℕ}
    (hbase : view.base < n) (hle : n ≤ lastReplayedSeq cursor page) :
    ∃ e ∈ numbered s.log, (s.Sent view e ∨ e ∈ page) ∧ e.seq = n := by
  by_cases hcursor : n ≤ cursor.getD 0
  · obtain ⟨e, hsent, hseq⟩ := (inv.served view hv).replayed sub hmem hview cursor
      (by rw [hstage]; rfl) n hbase hcursor
    exact ⟨e, mem_numbered_of_sent inv hv hsent, .inl hsent, hseq⟩
  · obtain ⟨hlog, hclosed⟩ := inv.sound.page sub hmem cursor page hstage
    obtain ⟨e, he, hseq⟩ := hclosed n (Nat.lt_of_not_le hcursor) hle
    exact ⟨e, hlog he, .inr he, hseq⟩

theorem Channel.Sent.of_page {frames : List (ServerFrame Event)}
    (h : s.Sent view e ∨ e ∈ page) (hframes : e ∈ page → .events page ∈ frames)
    (hto : s'.toClient = s.toClient ++ frames) : s'.Sent view e := by
  rcases h with hsent | hpage
  · exact hsent.mono frames hto
  · exact .inr ⟨page, hto ▸ List.mem_append_right _ (hframes hpage), hpage⟩

def lastFrames (sub : Subscription Event) (cursor : Option ℕ) (page : List (ChatEvent Event)) :
    List (ServerFrame Event) :=
  eventsFrame page ++
    (sub.buffer.filter fun e => lastReplayedSeq cursor page < e.seq).map (fun e => .events [e]) ++
      [.reply sub.id]

theorem mem_lastFrames (h : .events batch ∈ lastFrames sub cursor page) :
    batch = page ∨ ∃ e ∈ sub.buffer, batch = [e] := by
  unfold lastFrames at h
  rcases List.mem_append.mp h with hevents | hreply
  · rcases List.mem_append.mp hevents with hpage | hbuffer
    · exact .inl (mem_eventsFrame hpage)
    · obtain ⟨e, he, heq⟩ := List.mem_map.mp hbuffer
      exact .inr ⟨e, (List.mem_filter.mp he).1, (ServerFrame.events.inj heq).symm⟩
  · simp at hreply

theorem page_mem_lastFrames (he : e ∈ page) :
    .events page ∈ lastFrames sub cursor page :=
  List.mem_append_left _ (List.mem_append_left _ (events_mem_eventsFrame he))

theorem buffered_mem_lastFrames
    (he : e ∈ sub.buffer) (hlate : lastReplayedSeq cursor page < e.seq) :
    .events [e] ∈ lastFrames sub cursor page := by
  refine List.mem_append_left _ (List.mem_append_right _ (List.mem_map.mpr ⟨e, ?_, rfl⟩))
  simpa using ⟨he, hlate⟩

theorem invariant_resume (inv : Invariant s []) (hstep : step s (.resume h) = some s') :
    Invariant s' [] := by
  unfold step at hstep
  dsimp only at hstep
  split at hstep
  · cases hstep
  rename_i sub hh
  split at hstep <;> cases hstep
  rename_i cursor page hstage
  have hmem := List.mem_of_getElem? hh
  have hpage := (inv.sound.page sub hmem cursor page hstage).1
  unfold Channel.resumed
  split
  · rename_i hshort
    have hlast : s.toClient ++ eventsFrame page ++
        (sub.buffer.filter fun e => lastReplayedSeq cursor page < e.seq).map
          (fun e => .events [e]) ++ [.reply sub.id] =
        s.toClient ++ lastFrames sub cursor page := by
      simp [lastFrames, List.append_assoc]
    rw [hlast]
    refine invariant_update { sub with stage := .live, buffer := [] } (lastFrames sub cursor page)
      s.current inv hh rfl rfl (fun _ h => h) ?_ (by simp) (by simp) rfl
      (by simp [Stage.cursor?]) ?_ ?_
    · intro batch hbatch
      rcases mem_lastFrames hbatch with rfl | ⟨e, he, rfl⟩
      · exact hpage
      · simpa using inv.sound.buffer sub hmem he
    · intro view hv hopen
      exact listening_set (inv.served view hv) hopen hh rfl rfl
        (by simp [hstage, Stage.unstarted]) rfl rfl
    · intro view hv hopen
      refine ((inv.served view hv).owed hopen).imp ?_ ?_
      · exact fun hout => hout.set rfl hh rfl rfl (by simp [hstage, Stage.settled, hshort])
      · intro howed e he hbase
        refine (howed e he hbase).set (lastFrames sub cursor page) hh rfl rfl rfl (by simp) ?_
        intro cursor' page' hview hstage' _ hwaits
        rw [hstage] at hstage'
        cases hstage'
        by_cases hle : e.seq ≤ lastReplayedSeq cursor page
        · obtain ⟨e', hlog, hsent, hseq⟩ := sent_or_mem_page inv hv hmem hview hstage hbase hle
          rw [(sorted_numbered s.log).consistent e' hlog e he hseq] at hsent
          exact .inl (.of_page hsent page_mem_lastFrames rfl)
        · rcases hwaits with hpage' | hbuffer
          · exact .inl (.of_page (.inr hpage') page_mem_lastFrames rfl)
          · have hframe := buffered_mem_lastFrames hbuffer (Nat.lt_of_not_le hle)
            exact .inl (.inr ⟨[e], List.mem_append_right _ hframe, List.mem_singleton_self e⟩)
  · rename_i hfull
    refine invariant_update
      { sub with stage := .reading (some (lastReplayedSeq cursor page)) } (eventsFrame page)
      s.current inv hh rfl rfl (fun _ h => h) ?_ (by simp) (inv.sound.buffer sub hmem) rfl ?_ ?_ ?_
    · intro batch hbatch
      rw [mem_eventsFrame hbatch]
      exact hpage
    · intro view hv hview cursor' hcursor n hbase hle
      simp only [Stage.cursor?, Option.some.injEq] at hcursor
      subst hcursor
      obtain ⟨e, -, hsent, hseq⟩ := sent_or_mem_page inv hv hmem hview hstage hbase hle
      exact ⟨e, .of_page hsent events_mem_eventsFrame rfl, hseq⟩
    · intro view hv hopen
      exact listening_set (inv.served view hv) hopen hh rfl rfl
        (by simp [hstage, Stage.unstarted]) rfl rfl
    · intro view hv hopen
      refine ((inv.served view hv).owed hopen).imp ?_ ?_
      · exact fun hout => hout.set rfl hh rfl rfl fun _ _ => rfl
      · intro howed e he hbase
        refine (howed e he hbase).set (eventsFrame page) hh rfl rfl rfl (by simp) ?_
        intro cursor' page' _ hstage' hshort
        rw [hstage] at hstage'
        cases hstage'
        exact absurd hshort hfull

theorem invariant_answered (stage : Stage Event) (inv : Invariant s [])
    (hh : s.subscriptions[h]? = some sub) (hpage : ∀ cursor page, sub.stage ≠ .page cursor page)
    (hsettled : stage.settled = false) (hcursor : stage.cursor? = none)
    (hkeep : sub.stage.unstarted = true → stage.unstarted = true) :
    Invariant { s with
      toClient := s.toClient ++ [.error sub.id]
      subscriptions := s.subscriptions.set h { sub with stage := stage } } [] := by
  refine invariant_update { sub with stage := stage } [.error sub.id] s.current inv hh rfl rfl
    (fun _ h => h) (by simp) ?_ (inv.sound.buffer sub (List.mem_of_getElem? hh)) rfl
    (by simp [hcursor]) ?_ ?_
  · rintro cursor page (hstage : stage = .page cursor page)
    simp [hstage, Stage.cursor?] at hcursor
  · intro view hv hopen
    exact listening_set (inv.served view hv) hopen hh rfl rfl hkeep rfl rfl
  · intro view hv hopen
    refine ((inv.served view hv).owed hopen).imp ?_ ?_
    · exact fun hout => hout.set rfl hh rfl rfl fun _ _ => hsettled
    · intro howed e he hbase
      refine (howed e he hbase).set [.error sub.id] hh rfl rfl rfl (by simp) ?_
      intro cursor page _ hstage
      exact absurd hstage (hpage cursor page)

theorem invariant_fail (inv : Invariant s []) (hstep : step s (.fail h) = some s') :
    Invariant s' [] := by
  unfold step at hstep
  dsimp only at hstep
  split at hstep
  · cases hstep
  rename_i sub hh
  split at hstep <;> cases hstep
  · rename_i hstage
    exact invariant_answered .refused inv hh (by simp [hstage]) rfl rfl fun _ => rfl
  · rename_i cursor hstage
    exact invariant_answered .broken inv hh (by simp [hstage]) rfl rfl
      (by simp [hstage, Stage.unstarted])

end Portuni.EventStream
