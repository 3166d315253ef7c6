import Portuni.Questions.Line

/-!
A run's questions are asked one at a time, in the order of the asks, and every ask settles once.
-/

namespace Portuni.Questions

open Library.Histories Library.Runs WriteScope

section

variable {s : State} {id at_ : String} {ask : Ask}

structure Good (s : State) : Prop where
  inv : Inv s
  turn : Turn s
  prompt : Prompt s

theorem Inv.live_of_unsettled (h : Inv s) (hid : id ∈ unsettled s.log) : s.ended = false := by
  cases hended : s.ended with
  | false => rfl
  | true =>
    rw [(h.finished hended).unsettled] at hid
    cases hid

theorem Inv.mem_stops (h : Inv s) (hid : id ∈ unsettled s.log) (hdialog : .asked id true ∈ s.log) :
    id ∈ s.elicitationStops := by
  have live := h.live (h.live_of_unsettled hid)
  rw [live.unsettled] at hid
  obtain ⟨ask, hask, rfl⟩ := List.mem_map.mp hid
  exact live.stops ask hask (h.isDialog_eq hask hdialog)

theorem Inv.fire (h : Inv s) (id : String) :
    Inv { s.emit (.aborted id) with aborted := s.aborted ++ [id] } := by
  have hunsettled : unsettled (s.log ++ [.aborted id]) = unsettled s.log :=
    unsettled_neutral ⟨rfl, rfl⟩
  have hopen : openQuestions (s.log ++ [.aborted id]) = openQuestions s.log := by
    rw [openQuestions_concat]
    rfl
  refine ⟨each_concat.mpr ⟨h.log, trivial⟩, ?_, h.emitted, ?_, ?_, ?_, ?_, ?_⟩
  · simpa [State.emit] using h.ended
  · intro x
    simp [State.emit, h.aborted x]
  · exact fun x hx => List.mem_append_left _ (h.stops x hx)
  · intro x hx
    obtain ⟨hasked, hsettled⟩ := h.stopped x hx
    refine ⟨?_, hunsettled ▸ hsettled⟩
    simpa [State.emit, Happening.asks?] using hasked
  · intro hended
    obtain ⟨h1, h2, h3, h4, h5, h6, h7⟩ := h.live hended
    refine ⟨h1, h2, hunsettled.trans h3, hopen.trans h4,
      fun ask hask => List.mem_append_left _ (h5 ask hask), fun ask hask => ?_, h7⟩
    rintro ⟨e, he, hshows⟩
    rcases List.mem_append.mp he with he | he
    · exact h6 ask hask ⟨e, he, hshows⟩
    · obtain ⟨payload, rfl, -⟩ := hshows
      cases List.mem_singleton.mp he
  · intro hended
    obtain ⟨h1, h2, h3⟩ := h.finished hended
    exact ⟨h1, hunsettled.trans h2, hopen.trans h3⟩

theorem Good.abort (h : Good s) (id at_ : String) : Good (abort s id at_) := by
  unfold Questions.abort
  split
  · exact h
  have hfired := h.inv.fire id
  have hunsettled : unsettled (s.log ++ [.aborted id]) = unsettled s.log :=
    unsettled_neutral ⟨rfl, rfl⟩
  have hdue : id ∈ unsettled (s.log ++ [.aborted id]) → Due (s.log ++ [.aborted id]) id :=
    fun _ => due_aborted.mpr (.inr rfl)
  have hgood : ∀ t : State, Inv t →
      Withdrawn { s.emit (.aborted id) with aborted := s.aborted ++ [id] } t →
      id ∉ unsettled t.log → Good t := by
    intro t hinv hwithdrawn hgone
    refine ⟨hinv, hwithdrawn.turn h.turn, fun x hx hduex => ?_⟩
    rcases due_aborted.mp ((hwithdrawn.due x).mp hduex) with hbefore | rfl
    · exact h.prompt x (hunsettled ▸ hwithdrawn.unsettled x hx) hbefore
    · exact hgone hx
  dsimp only
  split
  · next hstop =>
    have hasked := hfired.stops id (List.contains_iff_mem.mp hstop)
    obtain ⟨hinv, hwithdrawn, hgone⟩ := hfired.stopDialog hdue hasked at_
    exact hgood _ hinv hwithdrawn hgone
  · next hstop =>
    have hkind : id ∈ unsettled (s.log ++ [.aborted id]) →
        .asked id true ∉ s.log ++ [.aborted id] := fun hid hasked =>
      hstop (List.contains_iff_mem.mpr (hfired.mem_stops hid hasked))
    obtain ⟨hinv, hwithdrawn, hgone⟩ := hfired.abandonPermission hdue hkind at_
    exact hgood _ hinv hwithdrawn hgone

theorem Good.interrupt (h : Good s) (at_ : String) : Good (interrupt s at_) := by
  unfold Questions.interrupt
  split
  · exact h
  have hunsettled : unsettled (s.log ++ [.interrupted]) = unsettled s.log :=
    unsettled_neutral ⟨rfl, rfl⟩
  have htold : Inv (s.emit .interrupted) := by
    have hopen : openQuestions (s.log ++ [.interrupted]) = openQuestions s.log := by
      rw [openQuestions_concat]
      rfl
    have hsame : SameFacts s.log (s.log ++ [.interrupted]) :=
      (SameFacts.refl s.log).concat _ trivial
    have hlog : Each Admits (s.log ++ [.interrupted]) := each_concat.mpr ⟨h.inv.log, trivial⟩
    exact h.inv.tell hsame hlog hunsettled hopen s.deniedToolUses
  have hdialogs : ∀ id ∈ s.elicitationStops, .asked id true ∈ s.log := h.inv.stops
  obtain ⟨hinv, hwithdrawn, hgone⟩ := htold.stopDialogs
    (fun id hid _ => due_interrupted.mpr (.inr (hdialogs id hid)))
    (fun id hid => List.mem_append_left _ (hdialogs id hid)) at_
  refine ⟨hinv, hwithdrawn.turn h.turn, fun x hx hduex => ?_⟩
  have hx' : x ∈ unsettled s.log := hunsettled ▸ hwithdrawn.unsettled x hx
  rcases due_interrupted.mp ((hwithdrawn.due x).mp hduex) with hbefore | hdialog
  · exact h.prompt x hx' hbefore
  · exact hgone x (h.inv.mem_stops hx' hdialog) hx

theorem settleAnswered_eq (s : State) (ask : Ask) (value : QuestionValue) :
    ∃ denied result, settleAnswered s ask value = { s with
        log := s.log ++ [.settled ask.requestId result]
        deniedToolUses := denied } := by
  unfold settleAnswered
  cases ask.asker with
  | dialog field => exact ⟨s.deniedToolUses, _, rfl⟩
  | permission input toolUseId =>
    have hanswer : ∃ denied, (answerPermission s ask input toolUseId value).1 =
        { s with deniedToolUses := denied } := by
      unfold answerPermission
      split
      · split
        · exact noteDenied_eq s toolUseId _
        · exact noteDenied_eq s toolUseId _
        · exact ⟨s.deniedToolUses, rfl⟩
      · split
        · exact ⟨s.deniedToolUses, rfl⟩
        · exact noteDenied_eq s toolUseId _
    obtain ⟨denied, hdenied⟩ := hanswer
    refine ⟨denied, .permission (answerPermission s ask input toolUseId value).2, ?_⟩
    dsimp only
    rw [hdenied]
    rfl

def answeredLog (s : State) (id : String) (result : Settlement) : List Happening :=
  s.log ++ [.answered id] ++ [.settled id result]

theorem answer_cases (h : Inv s) (id : String) (value : QuestionValue) :
    (∃ ask ∈ s.shown, ask.requestId = id ∧ ∃ denied result,
        answer s id value = s.withoutShown id denied (answeredLog s id result)) ∨
      (id ∉ s.shown.map Ask.requestId ∧ answer s id value = s.emit (.answered id)) := by
  unfold answer
  rcases find?_cases id s.pendingElicitations with ⟨ask, hask, rfl, hfind⟩ | ⟨hdialog, hfind⟩
  · have hshown : ask ∈ s.shown := List.mem_append_right _ hask
    have hother := (h.other_kind (h.live_of_mem (List.mem_append_left _ hshown))).2 ask hask
    obtain ⟨denied, result, hsettle⟩ := settleAnswered_eq
      { s.emit (.answered ask.requestId) with
        pendingElicitations := s.pendingElicitations.filter (·.requestId ≠ ask.requestId)
        settling := s.settling ++ [ask.requestId] } ask value
    refine .inl ⟨ask, hshown, rfl, denied, result, ?_⟩
    rw [hfind]
    refine hsettle.trans ?_
    simp only [State.withoutShown, State.emit, answeredLog, hother]
  rcases find?_cases id s.pendingPermissions with ⟨ask, hask, rfl, hfind'⟩ | ⟨hcall, hfind'⟩
  · have hshown : ask ∈ s.shown := List.mem_append_left _ hask
    have hother := (h.other_kind (h.live_of_mem (List.mem_append_left _ hshown))).1 ask hask
    obtain ⟨denied, result, hsettle⟩ := settleAnswered_eq
      { s.emit (.answered ask.requestId) with
        pendingPermissions := s.pendingPermissions.filter (·.requestId ≠ ask.requestId)
        settling := s.settling ++ [ask.requestId] } ask value
    refine .inl ⟨ask, hshown, rfl, denied, result, ?_⟩
    rw [hfind, hfind']
    refine hsettle.trans ?_
    simp only [State.withoutShown, State.emit, answeredLog, hother]
  · rw [hfind, hfind']
    refine .inr ⟨?_, rfl⟩
    rw [State.shown, List.map_append, List.mem_append, not_or]
    exact ⟨hcall, hdialog⟩

theorem Good.answer (h : Good s) (id : String) (value : QuestionValue) :
    Good (answer s id value) := by
  have hneutral : unsettled (s.log ++ [.answered id]) = unsettled s.log :=
    unsettled_neutral ⟨rfl, rfl⟩
  have htold : Each Admits (s.log ++ [.answered id]) := each_concat.mpr ⟨h.inv.log, trivial⟩
  have hsame : SameFacts s.log (s.log ++ [.answered id]) := (SameFacts.refl s.log).concat _ trivial
  rcases answer_cases h.inv id value with ⟨ask, hask, rfl, denied, result, heq⟩ | ⟨hnone, heq⟩
  · rw [heq]
    have hline : ask ∈ s.line := List.mem_append_left _ hask
    have hlive := h.inv.live_of_mem hline
    have hshown : ∃ e ∈ s.log, Shows ask.requestId e := by
      refine shown_of_open ?_
      rw [(h.inv.live hlive).openQuestions]
      exact List.mem_map_of_mem hask
    have hrun : .runEnded ∉ s.log ++ [.answered ask.requestId] := fun hmem => by
      rw [hsame.ended, ← h.inv.ended, hlive] at hmem
      cases hmem
    have hlog : Each Admits (answeredLog s ask.requestId result) := by
      refine each_concat.mpr ⟨htold, ?_, due_answered.mpr (.inr ⟨rfl, hshown⟩),
        fun hmem => absurd hmem hrun⟩
      rw [hneutral]
      exact h.inv.mem_unsettled hline
    have hunsettled : unsettled (answeredLog s ask.requestId result) =
        (unsettled s.log).filter (· ≠ ask.requestId) := by
      rw [answeredLog, unsettled_settled, hneutral]
    have hopen : openQuestions (answeredLog s ask.requestId result) =
        (openQuestions s.log).filter (· ≠ ask.requestId) := by
      rw [answeredLog, openQuestions_concat, openQuestions_concat]
      rfl
    have hfacts : SameFacts s.log (answeredLog s ask.requestId result) := hsame.concat _ trivial
    refine ⟨h.inv.withoutShown hask hfacts hlog hunsettled hopen denied,
      turn_withoutShown hask h.turn denied _, fun x hx hdue => ?_⟩
    have hx' : x ∈ unsettled (answeredLog s ask.requestId result) := hx
    rw [hunsettled] at hx'
    obtain ⟨hmem, hne⟩ := List.mem_filter.mp hx'
    have hdue' : Due (s.log ++ [.answered ask.requestId]) x :=
      (due_quiet (.settled _ _) trivial).mp hdue
    rcases due_answered.mp hdue' with hbefore | ⟨heq, -⟩
    · exact h.prompt x hmem hbefore
    · exact of_decide_eq_true hne heq.symm
  · rw [heq]
    have hopen : openQuestions (s.log ++ [.answered id]) = openQuestions s.log := by
      rw [openQuestions_concat]
      refine filter_ids_ne_self fun hmem => ?_
      cases hended : s.ended with
      | true =>
        rw [(h.inv.finished hended).openQuestions] at hmem
        cases hmem
      | false =>
        rw [(h.inv.live hended).openQuestions] at hmem
        exact hnone hmem
    refine ⟨h.inv.tell hsame htold hneutral hopen s.deniedToolUses, h.turn, fun x hx hdue => ?_⟩
    have hx' : x ∈ unsettled s.log := hneutral ▸ hx
    rcases due_answered.mp hdue with hbefore | ⟨rfl, hshown⟩
    · exact h.prompt x hx' hbefore
    · have live := h.inv.live (h.inv.live_of_unsettled hx')
      rw [live.unsettled, State.line, List.map_append] at hx'
      rcases List.mem_append.mp hx' with hx' | hx'
      · exact hnone hx'
      · obtain ⟨ask, hask, rfl⟩ := List.mem_map.mp hx'
        exact live.unshown ask hask hshown

theorem not_settled_of_new (h : Inv s) (hnew : id ∉ askedIds s.log) : id ∉ settledIds s.log :=
  fun hmem => hnew (asked_of_settled h.log hmem)

def refusedLog (s : State) (id : String) (d : Bool) (result : Settlement) : List Happening :=
  s.log ++ [.asked id d] ++ [.settled id result]

theorem Good.refused (h : Good s) {d : Bool} (hnew : id ∉ askedIds s.log) (hdue : Due s.log id)
    {result : Settlement} (hresult : result.allows = false) (denied : List (String × Denied)) :
    Good { s with log := refusedLog s id d result, deniedToolUses := denied } := by
  have hasked : unsettled (s.log ++ [.asked id d]) = unsettled s.log ++ [id] :=
    unsettled_asked (not_settled_of_new h.inv hnew)
  have hfresh : id ∉ unsettled s.log := fun hmem => hnew (List.mem_of_mem_filter hmem)
  have hunsettled : unsettled (refusedLog s id d result) = unsettled s.log := by
    rw [refusedLog, unsettled_settled, hasked, List.filter_append, filter_ids_ne_self hfresh]
    simp
  have hopen : openQuestions (refusedLog s id d result) = openQuestions s.log := by
    rw [refusedLog, openQuestions_concat, openQuestions_concat]
    rfl
  have hdueSame : ∀ x, Due (refusedLog s id d result) x ↔ Due s.log x := by
    intro x
    have hfirst : Due (s.log ++ [.asked id d]) x ↔ Due s.log x := due_quiet _ trivial
    rw [← hfirst]
    exact due_quiet _ trivial
  have hdue' : Due (s.log ++ [.asked id d]) id := (due_quiet (.asked id d) trivial).mpr hdue
  have hlog : Each Admits (refusedLog s id d result) := by
    refine each_concat.mpr ⟨each_concat.mpr ⟨h.inv.log, hnew⟩, ?_, hdue', fun _ => hresult⟩
    rw [hasked]
    exact List.mem_append_right _ List.mem_cons_self
  have hmem : ∀ e, e ∈ s.log → e ∈ refusedLog s id d result := fun e he =>
    List.mem_append_left _ (List.mem_append_left _ he)
  refine ⟨⟨hlog, ?_, h.inv.emitted, ?_, fun x hx => hmem _ (h.inv.stops x hx), ?_, ?_, ?_⟩, h.turn,
    fun x hx hduex => ?_⟩
  · simpa [refusedLog] using h.inv.ended
  · simpa [refusedLog] using h.inv.aborted
  · intro x hx
    obtain ⟨hx1, hx2⟩ := h.inv.stopped x hx
    obtain ⟨d', hd'⟩ := mem_askedIds.mp hx1
    exact ⟨mem_askedIds.mpr ⟨d', hmem _ hd'⟩, hunsettled ▸ hx2⟩
  · intro hended
    obtain ⟨h1, h2, h3, h4, h5, h6, h7⟩ := h.inv.live hended
    refine ⟨h1, h2, hunsettled.trans h3, hopen.trans h4, fun ask hask => hmem _ (h5 ask hask),
      fun ask hask => ?_, h7⟩
    rintro ⟨e, he, payload, rfl, hid⟩
    refine h6 ask hask ⟨_, ?_, payload, rfl, hid⟩
    simpa [refusedLog] using he
  · intro hended
    obtain ⟨h1, h2, h3⟩ := h.inv.finished hended
    exact ⟨h1, hunsettled.trans h2, hopen.trans h3⟩
  · exact h.prompt x (hunsettled ▸ hx) ((hdueSame x).mp hduex)

def State.joined (s : State) (ask : Ask) (stops : List String) : State :=
  { s.emit (.asked ask.requestId ask.isDialog) with
    elicitationStops := stops
    questionQueue := s.questionQueue ++ [ask] }

variable {stops : List String}

theorem Good.joined (h : Good s) (hlive : s.ended = false) (hnew : ask.requestId ∉ askedIds s.log)
    (hsignal : ask.requestId ∉ s.aborted) (hkept : ∀ x ∈ s.elicitationStops, x ∈ stops)
    (hadded : ∀ x ∈ stops, x ∈ s.elicitationStops ∨ x = ask.requestId ∧ ask.isDialog = true)
    (hstop : ask.isDialog = true → ask.requestId ∈ stops) :
    Inv (s.joined ask stops) ∧ Prompt (s.joined ask stops) := by
  have live := h.inv.live hlive
  have hunsettled : unsettled (s.log ++ [.asked ask.requestId ask.isDialog]) =
      unsettled s.log ++ [ask.requestId] := unsettled_asked (not_settled_of_new h.inv hnew)
  have hopen : openQuestions (s.log ++ [.asked ask.requestId ask.isDialog]) =
      openQuestions s.log := by
    rw [openQuestions_concat]
    rfl
  have hunshown : ∀ x, (∃ e ∈ s.log ++ [.asked ask.requestId ask.isDialog], Shows x e) →
      ∃ e ∈ s.log, Shows x e := by
    rintro x ⟨e, he, payload, rfl, hid⟩
    exact ⟨_, by simpa using he, payload, rfl, hid⟩
  have hline : (s.joined ask stops).line = s.line ++ [ask] := by
    simp [State.line, State.shown, State.joined, State.emit]
  refine ⟨⟨each_concat.mpr ⟨h.inv.log, hnew⟩, ?_, h.inv.emitted, ?_, ?_, ?_, fun _ => ?_,
    fun hended => ?_⟩, fun x hx hdue => ?_⟩
  · simpa [State.joined, State.emit] using h.inv.ended
  · simpa [State.joined, State.emit] using h.inv.aborted
  · intro x hx
    rcases hadded x hx with hx | ⟨rfl, hdialog⟩
    · exact List.mem_append_left _ (h.inv.stops x hx)
    · exact List.mem_append_right _ (by rw [hdialog]; exact List.mem_cons_self)
  · intro x hx
    obtain ⟨hx1, hx2⟩ := h.inv.stopped x hx
    refine ⟨?_, ?_⟩
    · simp [State.joined, State.emit, hx1]
    · change x ∉ unsettled (s.log ++ [.asked ask.requestId ask.isDialog])
      rw [hunsettled]
      intro hmem
      rcases List.mem_append.mp hmem with hmem | hmem
      · exact hx2 hmem
      · exact hnew (List.mem_singleton.mp hmem ▸ hx1)
  · refine ⟨live.permissions, live.dialogs, ?_, hopen.trans live.openQuestions, ?_, ?_, ?_⟩
    · rw [hline, List.map_append, ← live.unsettled]
      exact hunsettled
    · intro a ha
      rw [hline] at ha
      rcases List.mem_append.mp ha with ha | ha
      · exact List.mem_append_left _ (live.asked a ha)
      · rw [List.mem_singleton.mp ha]
        exact List.mem_append_right _ List.mem_cons_self
    · intro a ha hshown
      rcases List.mem_append.mp ha with ha | ha
      · exact live.unshown a ha (hunshown _ hshown)
      · rw [List.mem_singleton.mp ha] at hshown
        exact hnew (asked_of_shown h.inv.log (hunshown _ hshown))
    · intro a ha hdialog
      rw [hline] at ha
      rcases List.mem_append.mp ha with ha | ha
      · exact hkept _ (live.stops a ha hdialog)
      · rw [List.mem_singleton.mp ha] at hdialog ⊢
        exact hstop hdialog
  · rw [show (s.joined ask stops).ended = s.ended from rfl, hlive] at hended
    cases hended
  · have hx' : x ∈ unsettled (s.log ++ [.asked ask.requestId ask.isDialog]) := hx
    have hdue' : Due s.log x := (due_quiet (.asked _ _) trivial).mp hdue
    rw [hunsettled] at hx'
    rcases List.mem_append.mp hx' with hx' | hx'
    · exact h.prompt x hx' hdue'
    · obtain rfl := List.mem_singleton.mp hx'
      rcases hdue' with hend | habort | ⟨before, e, after, hlog, hshows, -⟩ |
        ⟨before, e, after, hlog, rfl, -⟩
      · rw [← h.inv.ended, hlive] at hend
        cases hend
      · exact hsignal ((h.inv.aborted _).mpr habort)
      · exact hnew (asked_of_shown h.inv.log ⟨e, by simp [hlog], hshows⟩)
      · exact hnew (mem_askedIds.mpr ⟨true, by simp [hlog]⟩)

def State.opened (s : State) (ask : Ask) (permissions dialogs : List Ask) : State :=
  { s with
    pendingPermissions := permissions
    pendingElicitations := dialogs
    log := s.log ++ [.question ask.payload none] }

variable (h : Inv { s with questionQueue := ask :: s.questionQueue })

include h

theorem Inv.opened (hlive : s.ended = false) (hshown : s.shown = [])
    {permissions dialogs : List Ask} (hpermissions : ∀ a ∈ permissions, a.isDialog = false)
    (hdialogs : ∀ a ∈ dialogs, a.isDialog = true) (hone : permissions ++ dialogs = [ask]) :
    Inv (s.opened ask permissions dialogs) := by
  have live := h.live hlive
  have hline : State.line { s with questionQueue := ask :: s.questionQueue } =
      ask :: s.questionQueue := by
    change s.shown ++ ask :: s.questionQueue = _
    rw [hshown, List.nil_append]
  have hnodup := h.nodup_line hlive
  rw [hline, List.map_cons] at hnodup
  have hids : unsettled s.log = ask.requestId :: s.questionQueue.map Ask.requestId := by
    rw [← List.map_cons, ← hline]
    exact live.unsettled
  have hclosed : openQuestions s.log = [] := by
    have hopen : openQuestions s.log = s.shown.map Ask.requestId := live.openQuestions
    rw [hopen, hshown, List.map_nil]
  have hrun : .runEnded ∉ s.log := fun hmem => by
    have hended : s.ended = true := h.ended.mpr hmem
    rw [hlive] at hended
    cases hended
  have hunsettled : unsettled (s.log ++ [.question ask.payload none]) = unsettled s.log :=
    unsettled_neutral ⟨rfl, rfl⟩
  have hafter : (s.opened ask permissions dialogs).line = ask :: s.questionQueue := by
    change permissions ++ dialogs ++ s.questionQueue = _
    rw [hone, List.singleton_append]
  refine ⟨each_concat.mpr ⟨h.log, hclosed, ?_, hrun⟩, ?_, h.emitted, ?_, ?_, ?_, fun _ => ?_,
    fun hended => ?_⟩
  · rw [hids]
    rfl
  · simpa [State.opened] using h.ended
  · simpa [State.opened] using h.aborted
  · exact fun x hx => List.mem_append_left _ (h.stops x hx)
  · intro x hx
    obtain ⟨hx1, hx2⟩ := h.stopped x hx
    refine ⟨?_, hunsettled ▸ hx2⟩
    simpa [State.opened, Happening.asks?] using hx1
  · refine ⟨hpermissions, hdialogs, ?_, ?_, fun a ha => ?_, fun a ha => ?_, fun a ha => ?_⟩
    · rw [hafter, List.map_cons]
      exact hunsettled.trans hids
    · change openQuestions (s.log ++ [.question ask.payload none]) = _
      rw [openQuestions_concat, hclosed, State.shown]
      change _ = (permissions ++ dialogs).map Ask.requestId
      rw [hone]
      rfl
    · rw [hafter, ← hline] at ha
      exact List.mem_append_left _ (live.asked a ha)
    · rintro ⟨e, he, hshows⟩
      rcases List.mem_append.mp he with he | he
      · exact live.unshown a (List.mem_cons_of_mem _ ha) ⟨e, he, hshows⟩
      · rw [List.mem_singleton.mp he] at hshows
        obtain ⟨payload, heq, hid⟩ := hshows
        have hsame : ask.requestId = a.requestId := by
          rw [← hid, ← (Happening.question.inj heq).1]
          rfl
        exact (List.nodup_cons.mp hnodup).1 (hsame ▸ List.mem_map_of_mem ha)
    · rw [hafter, ← hline] at ha
      exact live.stops a ha
  · rw [show (s.opened ask permissions dialogs).ended = s.ended from rfl, hlive] at hended
    cases hended

theorem openQuestion_opened (hprompt : Prompt s) (hshown : s.shown = []) :
    ∃ permissions dialogs, openQuestion s ask = s.opened ask permissions dialogs ∧
      (∀ a ∈ permissions, a.isDialog = false) ∧ (∀ a ∈ dialogs, a.isDialog = true) ∧
      permissions ++ dialogs = [ask] := by
  have hmem : ask ∈ State.line { s with questionQueue := ask :: s.questionQueue } :=
    List.mem_append_right _ List.mem_cons_self
  have hunsettled : ask.requestId ∈ unsettled s.log := h.mem_unsettled hmem
  obtain ⟨hpp, hpe⟩ := List.append_eq_nil_iff.mp hshown
  have hsignal : isAborted s ask = false := by
    unfold isAborted
    split
    · rw [Bool.eq_false_iff, ne_eq, List.contains_iff_mem]
      exact fun hstopped => (h.stopped _ hstopped).2 hunsettled
    · rw [Bool.eq_false_iff, ne_eq, List.contains_iff_mem]
      exact fun habort => hprompt _ hunsettled (.inr (.inl ((h.aborted _).mp habort)))
  rw [openQuestion, hsignal, if_neg Bool.false_ne_true, hpp, hpe]
  cases hdialog : ask.isDialog with
  | true => exact ⟨[], [ask], by simp [State.opened, State.emit, hpp], by simp, by simp [hdialog],
      rfl⟩
  | false => exact ⟨[ask], [], by simp [State.opened, State.emit, hpe], by simp [hdialog], by simp,
      rfl⟩

theorem Good.openQuestion (hprompt : Prompt s) (hlive : s.ended = false) (hshown : s.shown = [])
    (hopen : s.questionOpen = true) (hsettling : s.settling = []) : Good (openQuestion s ask) := by
  obtain ⟨permissions, dialogs, heq, hpermissions, hdialogs, hone⟩ :=
    openQuestion_opened h hprompt hshown
  rw [heq]
  refine ⟨h.opened hlive hshown hpermissions hdialogs hone, fun _ => .inl ⟨hopen, ?_⟩,
    fun x hx hdue => ?_⟩
  · change ((permissions ++ dialogs).map Ask.requestId ++ s.settling).length = 1
    rw [hone, hsettling]
    rfl
  · have hunsettled : unsettled (s.log ++ [.question ask.payload none]) = unsettled s.log :=
      unsettled_neutral ⟨rfl, rfl⟩
    exact hprompt x (hunsettled ▸ hx) ((due_quiet (.question _ _) trivial).mp hdue)

omit h

theorem Inv.setTurn (h : Inv s) (questionOpen : Bool) (settling : List String) :
    Inv { s with questionOpen := questionOpen, settling := settling } := by
  obtain ⟨hlog, hended, hemitted, haborted, hstops, hstopped, hlive, hover⟩ := h
  refine ⟨hlog, hended, hemitted, haborted, hstops, hstopped, fun h => ?_, fun h => ?_⟩
  · obtain ⟨h1, h2, h3, h4, h5, h6, h7⟩ := hlive h
    exact ⟨h1, h2, h3, h4, h5, h6, h7⟩
  · obtain ⟨h1, h2, h3⟩ := hover h
    exact ⟨h1, h2, h3⟩

theorem Good.askInTurn (h : Good s) (hlive : s.ended = false)
    (hnew : ask.requestId ∉ askedIds s.log) (hsignal : ask.requestId ∉ s.aborted)
    (hkept : ∀ x ∈ s.elicitationStops, x ∈ stops)
    (hadded : ∀ x ∈ stops, x ∈ s.elicitationStops ∨ x = ask.requestId ∧ ask.isDialog = true)
    (hstop : ask.isDialog = true → ask.requestId ∈ stops) :
    Good (askInTurn
      { s.emit (.asked ask.requestId ask.isDialog) with elicitationStops := stops } ask) := by
  obtain ⟨hinv, hprompt⟩ := h.joined hlive hnew hsignal hkept hadded hstop
  unfold Questions.askInTurn
  rcases h.turn hlive with ⟨hopen, hone⟩ | ⟨hclosed, hempty, hsettling⟩
  · rw [if_neg (by simp [State.emit, hopen])]
    exact ⟨hinv, fun _ => .inl ⟨hopen, hone⟩, hprompt⟩
  · rw [if_pos (by simp [State.emit, hclosed]), runAsk, if_neg (by simp [State.emit, hlive])]
    obtain ⟨hshown, hqueue⟩ := List.append_eq_nil_iff.mp hempty
    refine Good.openQuestion ?_ hprompt hlive hshown rfl hsettling
    have hturn := hinv.setTurn true s.settling
    simp only [State.joined, State.emit, hqueue, List.nil_append] at hturn ⊢
    exact hturn

theorem Good.tell (h : Good s) (e : Happening) (hplain : e.plain) (hneutral : e.neutral)
    (hquiet : e.quiet) (hadmits : Admits s.log e)
    (hopen : openAfter (openQuestions s.log) e = openQuestions s.log)
    (denied : List (String × Denied)) :
    Good { s with deniedToolUses := denied, log := s.log ++ [e] } := by
  have hunsettled := @unsettled_neutral s.log e hneutral
  refine ⟨h.inv.tell ((SameFacts.refl s.log).concat e hplain) (each_concat.mpr ⟨h.inv.log, hadmits⟩)
    hunsettled (openQuestions_concat.trans hopen) denied, h.turn, fun x hx hdue => ?_⟩
  exact h.prompt x (hunsettled ▸ hx) ((due_quiet e hquiet).mp hdue)

theorem Good.returned (h : Good s) (id : String) (result : Settlement)
    (denied : List (String × Denied)) :
    Good { s with deniedToolUses := denied, log := s.log ++ [.returned id result] } :=
  h.tell (.returned id result) trivial ⟨rfl, rfl⟩ trivial trivial rfl denied

theorem Good.made (h : Good s) (hnew : ask.requestId ∉ askedIds s.log)
    (hkept : ∀ x ∈ s.elicitationStops, x ∈ stops)
    (hadded : ∀ x ∈ stops, x ∈ s.elicitationStops ∨ x = ask.requestId ∧ ask.isDialog = true)
    (hstop : ask.isDialog = true → ask.requestId ∈ stops) :
    (s.ended = true ∨ s.aborted.contains ask.requestId = true →
      ∀ (result : Settlement) (denied : List (String × Denied)), result.allows = false →
        Good { s with
          log := refusedLog s ask.requestId ask.isDialog result
          deniedToolUses := denied }) ∧
    (s.ended = false → s.aborted.contains ask.requestId = false →
      Good (Questions.askInTurn
        { s.emit (.asked ask.requestId ask.isDialog) with elicitationStops := stops } ask)) := by
  constructor
  · intro hover result denied hresult
    refine h.refused hnew ?_ hresult denied
    rcases hover with hended | hfired
    · exact .inl (h.inv.ended.mp hended)
    · exact .inr (.inl ((h.inv.aborted _).mp (List.contains_iff_mem.mp hfired)))
  · intro hlive hfired
    refine h.askInTurn hlive hnew (fun hmem => ?_) hkept hadded hstop
    rw [List.contains_iff_mem.mpr hmem] at hfired
    cases hfired

theorem Good.canUseTool (h : Good s) (run : RunStart) (toolName : String) (input : ToolInput)
    (hnew : id ∉ askedIds s.log) (toolUseId : Option String) :
    Good (canUseTool s run toolName input id toolUseId) := by
  unfold Questions.canUseTool
  split
  · obtain ⟨noted, hnoted⟩ := noteDenied_eq s toolUseId (.refused .connectorDisabled)
    dsimp only [deny]
    rw [hnoted]
    exact h.returned id _ noted
  split
  · exact h.returned id _ s.deniedToolUses
  · next message code params _ =>
    obtain ⟨noted, hnoted⟩ := noteDenied_eq s toolUseId (.decided code params)
    rw [hnoted]
    exact h.returned id _ noted
  · next question _ =>
    let ask : Ask := ⟨⟨id, question.type, toolName, question.title, some question.code, [],
      question.detail, question.options, question.questions⟩, .permission input toolUseId⟩
    obtain ⟨hrefused, hinLine⟩ := @Good.made s ask s.elicitationStops h hnew (fun _ hx => hx)
      (fun _ hx => .inl hx) (fun hdialog => nomatch hdialog)
    dsimp only
    split
    · next hended =>
      obtain ⟨noted, hnoted⟩ := refuse_eq (s.emit (.asked id false)) ask .runEnded
      rw [hnoted]
      exact hrefused (.inl hended) _ noted rfl
    split
    · next hfired =>
      obtain ⟨noted, hnoted⟩ := refuse_eq (s.emit (.asked id false)) ask .turnStopped
      rw [hnoted]
      exact hrefused (.inr hfired) _ noted rfl
    · next hended hfired =>
      exact hinLine (Bool.eq_false_iff.mpr hended) (Bool.eq_false_iff.mpr hfired)

theorem Good.onElicitation (h : Good s) (request : ElicitationRequest)
    (hnew : id ∉ askedIds s.log) : Good (onElicitation s request id) := by
  unfold Questions.onElicitation
  dsimp only
  split
  · have herror := h.tell (.error ("Server " ++ request.displayName.getD request.serverName ++
      " asked for a sign-in in a browser; the chat cannot " ++
      "open one, so the request was declined.")
      [("server", request.displayName.getD request.serverName)]) trivial ⟨rfl, rfl⟩ trivial trivial
      rfl s.deniedToolUses
    exact herror.returned id _ s.deniedToolUses
  split
  · exact h.returned id _ s.deniedToolUses
  · next field _ =>
    let ask : Ask := ⟨⟨id, .approval, "mcp__" ++ request.serverName,
      request.title.getD ("Confirm: " ++ request.displayName.getD request.serverName),
      if request.title.any (· ≠ "") then none else some .mcpConfirmation,
      if request.title.any (· ≠ "") then []
      else [("server", request.displayName.getD request.serverName)],
      request.message, none, none⟩, .dialog field⟩
    obtain ⟨hrefused, hinLine⟩ := @Good.made s ask (s.elicitationStops ++ [id]) h hnew
      (fun _ hx => List.mem_append_left _ hx)
      (fun x hx => (List.mem_append.mp hx).imp_right fun hx => ⟨List.mem_singleton.mp hx, rfl⟩)
      (fun _ => List.mem_append_right _ List.mem_cons_self)
    split
    · next hover =>
      exact hrefused (Bool.or_eq_true _ _ ▸ hover) _ s.deniedToolUses rfl
    · next hgoing =>
      obtain ⟨hended, hfired⟩ := Bool.or_eq_false_iff.mp (Bool.eq_false_iff.mpr hgoing)
      exact hinLine hended hfired

theorem advance_nil (hqueue : s.questionQueue = []) (id : String) :
    advance s id = { s with questionOpen := false, settling := s.settling.erase id } := by
  rw [advance, hqueue]

theorem advance_cons {next : Ask} {queue : List Ask} (hqueue : s.questionQueue = next :: queue)
    (hlive : s.ended = false) (id : String) :
    advance s id = openQuestion { s with
        questionOpen := true
        settling := s.settling.erase id
        questionQueue := queue } next := by
  rw [advance, hqueue]
  dsimp only
  rw [runAsk, if_neg (by simp [hlive])]

theorem Good.advance (h : Good s) (hid : id ∈ s.settling) : Good (advance s id) := by
  rcases Bool.eq_false_or_eq_true s.ended with hended | hlive
  · rw [advance_nil (List.append_eq_nil_iff.mp (h.inv.finished hended).line).2]
    refine ⟨h.inv.setTurn false _, fun hlive => ?_, h.prompt⟩
    rw [show s.ended = false from hlive] at hended
    cases hended
  rcases h.turn hlive with ⟨hopen, hone⟩ | ⟨-, -, hsettling⟩
  · have hpos := List.length_pos_of_mem hid
    rw [List.length_append, List.length_map] at hone
    have hshown : s.shown = [] := List.length_eq_zero_iff.mp (by omega)
    obtain ⟨only, honly⟩ := List.length_eq_one_iff.mp (show s.settling.length = 1 by omega)
    have hnone : s.settling.erase id = [] := by
      rw [honly] at hid ⊢
      rw [List.mem_singleton.mp hid]
      simp
    cases hqueue : s.questionQueue with
    | nil =>
      rw [advance_nil hqueue]
      refine ⟨h.inv.setTurn false _, fun _ => .inr ⟨rfl, ?_, hnone⟩, h.prompt⟩
      change s.shown ++ s.questionQueue = []
      rw [hshown, hqueue, List.append_nil]
    | cons next queue =>
      rw [advance_cons hqueue hlive]
      refine Good.openQuestion ?_ h.prompt hlive hshown rfl hnone
      have hturn := h.inv.setTurn true (s.settling.erase id)
      rw [hqueue] at hturn
      exact hturn
  · rw [hsettling] at hid
    cases hid

def endedEvent (ask : Ask) : Happening := .settled ask.requestId (refusal ask .runEnded)

theorem foldl_settleEnded (asks : List Ask) (s : State) : ∃ denied,
    asks.foldl settleEnded s = { s with
        log := s.log ++ asks.map endedEvent
        settling := s.settling ++ asks.map Ask.requestId
        deniedToolUses := denied } := by
  induction asks generalizing s with
  | nil => exact ⟨s.deniedToolUses, by simp⟩
  | cons ask asks ih =>
    obtain ⟨noted, hnoted⟩ := refuse_eq s ask .runEnded
    obtain ⟨denied, hdenied⟩ := ih (settleEnded s ask)
    refine ⟨denied, ?_⟩
    rw [List.foldl_cons, hdenied, settleEnded, hnoted]
    simp [markSettling, endedEvent]

theorem foldl_runAsk (asks : List Ask) {s : State} (hended : s.ended = true) :
    ∃ denied questionOpen, asks.foldl runAsk s = { s with
        questionOpen := questionOpen
        log := s.log ++ asks.map endedEvent
        settling := s.settling ++ asks.map Ask.requestId
        deniedToolUses := denied } := by
  induction asks generalizing s with
  | nil => exact ⟨s.deniedToolUses, s.questionOpen, by simp⟩
  | cons ask asks ih =>
    obtain ⟨noted, hnoted⟩ := refuse_eq { s with questionOpen := true } ask .runEnded
    have hrun : runAsk s ask =
        { s with
          questionOpen := true
          log := s.log ++ [endedEvent ask]
          settling := s.settling ++ [ask.requestId]
          deniedToolUses := noted } := by
      rw [runAsk, if_pos hended, hnoted]
      rfl
    obtain ⟨denied, questionOpen, hdenied⟩ := ih (s := runAsk s ask) (by rw [hrun]; exact hended)
    refine ⟨denied, questionOpen, ?_⟩
    rw [List.foldl_cons, hdenied, hrun]
    simp

theorem each_endedEvents {log : List Happening} {asks : List Ask} (hlog : Each Admits log)
    (hended : .runEnded ∈ log) (hunsettled : unsettled log = asks.map Ask.requestId) :
    Each Admits (log ++ asks.map endedEvent) ∧ unsettled (log ++ asks.map endedEvent) = [] ∧
      openQuestions (log ++ asks.map endedEvent) = openQuestions log := by
  induction asks generalizing log with
  | nil => simpa using ⟨hlog, hunsettled⟩
  | cons ask asks ih =>
    have hnodup := nodup_unsettled hlog
    rw [hunsettled, List.map_cons] at hnodup
    have hmem : ask.requestId ∈ unsettled log := by
      rw [hunsettled]
      exact List.mem_cons_self
    have hfirst : Each Admits (log ++ [endedEvent ask]) :=
      each_concat.mpr ⟨hlog, hmem, .inl hended, fun _ => refusal_allows ask _⟩
    have hrest : unsettled (log ++ [endedEvent ask]) = asks.map Ask.requestId := by
      rw [endedEvent, unsettled_settled, hunsettled, List.map_cons, List.filter_cons,
        filter_ids_ne_self (List.nodup_cons.mp hnodup).1]
      simp
    obtain ⟨h1, h2, h3⟩ := ih hfirst (List.mem_append_left _ hended) hrest
    rw [List.map_cons, List.append_cons]
    refine ⟨h1, h2, h3.trans ?_⟩
    rw [openQuestions_concat]
    rfl

theorem Good.finish (h : Good s) : Good (finish s) := by
  rcases Bool.eq_false_or_eq_true s.ended with hended | hlive
  · have hsame : Questions.finish s = s := by
      rw [Questions.finish, emitRunEnded, if_pos (h.inv.emitted.trans hended), finalizeEnded,
        if_pos hended]
    rw [hsame]
    exact h
  have live := h.inv.live hlive
  have hrun : .runEnded ∉ s.log := fun hmem => by
    rw [← h.inv.ended, hlive] at hmem
    cases hmem
  have hfirst : Each Admits (s.log ++ [.runEnded]) := each_concat.mpr ⟨h.inv.log, hrun⟩
  have hunsettled : unsettled (s.log ++ [.runEnded]) = s.line.map Ask.requestId := by
    rw [unsettled_neutral ⟨rfl, rfl⟩, live.unsettled]
  have hend : .runEnded ∈ s.log ++ [.runEnded] := by simp
  obtain ⟨hlog, hnone, hopen⟩ := each_endedEvents hfirst hend hunsettled
  have hclosed : openQuestions (s.log ++ [.runEnded]) = [] := by
    rw [openQuestions_concat]
    rfl
  have hemitted : s.runEndedEmitted = false := h.inv.emitted.trans hlive
  have hfinish : ∃ denied questionOpen settling, Questions.finish s =
      { s with
        ended := true
        runEndedEmitted := true
        pendingPermissions := []
        pendingElicitations := []
        questionQueue := []
        questionOpen := questionOpen
        settling := settling
        deniedToolUses := denied
        log := s.log ++ [.runEnded] ++ s.line.map endedEvent } := by
    rw [Questions.finish, emitRunEnded, if_neg (by simp [hemitted]), finalizeEnded,
      if_neg (by simp [State.emit, hlive])]
    dsimp only [State.emit]
    obtain ⟨d1, h1⟩ := foldl_settleEnded s.pendingPermissions
      { s with
        log := s.log ++ [.runEnded]
        runEndedEmitted := true
        ended := true
        pendingPermissions := [] }
    rw [h1]
    obtain ⟨d2, h2⟩ := foldl_settleEnded s.pendingElicitations
      { s with
        log := s.log ++ [.runEnded] ++ s.pendingPermissions.map endedEvent
        settling := s.settling ++ s.pendingPermissions.map Ask.requestId
        deniedToolUses := d1
        runEndedEmitted := true
        ended := true
        pendingPermissions := []
        pendingElicitations := [] }
    rw [h2]
    obtain ⟨d3, questionOpen, h3⟩ := foldl_runAsk s.questionQueue (s :=
      { s with
        log := s.log ++ [.runEnded] ++ s.pendingPermissions.map endedEvent ++
          s.pendingElicitations.map endedEvent
        settling := s.settling ++ s.pendingPermissions.map Ask.requestId ++
          s.pendingElicitations.map Ask.requestId
        deniedToolUses := d2
        runEndedEmitted := true
        ended := true
        pendingPermissions := []
        pendingElicitations := []
        questionQueue := [] }) rfl
    rw [h3]
    refine ⟨d3, questionOpen, s.settling ++ s.line.map Ask.requestId, ?_⟩
    simp only [State.line, State.shown, List.map_append, List.append_assoc]
  obtain ⟨denied, questionOpen, settling, heq⟩ := hfinish
  rw [heq]
  have hplain : ∀ e, e ∈ s.log ++ [.runEnded] ++ s.line.map endedEvent →
      e ∈ s.log ∨ e = .runEnded ∨ ∃ id result, e = .settled id result := by
    intro e he
    rcases List.mem_append.mp he with he | he
    · rcases List.mem_append.mp he with he | he
      · exact .inl he
      · exact .inr (.inl (List.mem_singleton.mp he))
    · obtain ⟨ask, -, rfl⟩ := List.mem_map.mp he
      exact .inr (.inr ⟨_, _, rfl⟩)
  have hmem : ∀ e, e ∈ s.log → e ∈ s.log ++ [.runEnded] ++ s.line.map endedEvent := fun e he =>
    List.mem_append_left _ (List.mem_append_left _ he)
  refine ⟨⟨hlog, ?_, rfl, fun x => ?_, fun x hx => hmem _ (h.inv.stops x hx), fun x hx => ?_,
    fun hlive' => ?_, fun _ => ⟨rfl, hnone, hopen.trans hclosed⟩⟩, fun hlive' => ?_,
    fun x hx => ?_⟩
  · exact ⟨fun _ => List.mem_append_left _ hend, fun _ => rfl⟩
  · rw [h.inv.aborted x]
    refine ⟨hmem _, fun hx => ?_⟩
    rcases hplain _ hx with hx | hx | ⟨_, _, hx⟩
    · exact hx
    · cases hx
    · cases hx
  · obtain ⟨hx1, -⟩ := h.inv.stopped x hx
    obtain ⟨d, hd⟩ := mem_askedIds.mp hx1
    refine ⟨mem_askedIds.mpr ⟨d, hmem _ hd⟩, ?_⟩
    rw [show unsettled (s.log ++ [.runEnded] ++ s.line.map endedEvent) = [] from hnone]
    exact List.not_mem_nil
  · cases hlive'
  · cases hlive'
  · rw [show unsettled (s.log ++ [.runEnded] ++ s.line.map endedEvent) = [] from hnone] at hx
    cases hx

end

variable {run : RunStart} {s s' : State}

theorem good_init : Good init := by
  refine ⟨⟨each_nil, ?_, rfl, ?_, ?_, ?_, fun _ => ?_, fun hended => ?_⟩, fun _ => ?_, ?_⟩
  · simp [init]
  · simp [init]
  · simp [init]
  · simp [init]
  · exact ⟨by simp [init], by simp [init], rfl, rfl, by simp [init, State.line, State.shown],
      by simp [init], by simp [init, State.line, State.shown]⟩
  · cases hended
  · exact .inr ⟨rfl, rfl, rfl⟩
  · intro id hid
    cases hid

theorem Good.forget {id : String} (h : Good s) (hid : id ∈ settledIds s.log) :
    Good { s with elicitationStops := s.elicitationStops.filter (· ≠ id) } := by
  obtain ⟨⟨hlog, hended, hemitted, haborted, hstops, hstopped, hlive, hover⟩, hturn, hprompt⟩ := h
  refine ⟨⟨hlog, hended, hemitted, haborted, ?_, hstopped, fun h => ?_, fun h => ?_⟩, hturn,
    hprompt⟩
  · exact fun x hx => hstops x (List.mem_of_mem_filter hx)
  · obtain ⟨h1, h2, h3, h4, h5, h6, h7⟩ := hlive h
    refine ⟨h1, h2, h3, h4, h5, h6, fun ask hask hdialog => ?_⟩
    refine List.mem_filter.mpr ⟨h7 ask hask hdialog, decide_eq_true fun heq => ?_⟩
    have hmem : ask.requestId ∈ unsettled s.log := by
      rw [h3]
      exact List.mem_map_of_mem hask
    exact of_decide_eq_true (List.mem_filter.mp hmem).2 (heq ▸ hid)
  · obtain ⟨h1, h2, h3⟩ := hover h
    exact ⟨h1, h2, h3⟩

theorem Good.disable (h : Good s) (prefixes : List String) :
    Good { s with disabledToolPrefixes := prefixes } := by
  obtain ⟨⟨hlog, hended, hemitted, haborted, hstops, hstopped, hlive, hover⟩, hturn, hprompt⟩ := h
  refine ⟨⟨hlog, hended, hemitted, haborted, hstops, hstopped, fun h => ?_, fun h => ?_⟩, hturn,
    hprompt⟩
  · obtain ⟨h1, h2, h3, h4, h5, h6, h7⟩ := hlive h
    exact ⟨h1, h2, h3, h4, h5, h6, h7⟩
  · obtain ⟨h1, h2, h3⟩ := hover h
    exact ⟨h1, h2, h3⟩

theorem Good.step {a : Action} (h : Good s) (hstep : step run s a = some s') : Good s' := by
  cases a with
  | disable prefixes =>
    cases hstep
    exact h.disable prefixes
  | canUseTool toolName input requestId toolUseId =>
    obtain ⟨hnew, hstep⟩ := Option.ite_none_left_eq_some.mp hstep
    cases hstep
    exact h.canUseTool run toolName input hnew toolUseId
  | onElicitation request requestId =>
    obtain ⟨hnew, hstep⟩ := Option.ite_none_left_eq_some.mp hstep
    cases hstep
    exact h.onElicitation request hnew
  | answer requestId value =>
    cases hstep
    exact h.answer requestId value
  | abort requestId at_ =>
    cases hstep
    exact h.abort requestId at_
  | interrupt at_ =>
    cases hstep
    exact h.interrupt at_
  | finish =>
    cases hstep
    exact h.finish
  | advance requestId =>
    obtain ⟨hid, hstep⟩ := Option.ite_none_right_eq_some.mp hstep
    cases hstep
    exact h.advance hid
  | forget requestId =>
    obtain ⟨hid, hstep⟩ := Option.ite_none_right_eq_some.mp hstep
    cases hstep
    exact h.forget hid

structure OneAtATime (s : State) : Prop where
  one_open : (openQuestions s.log).length ≤ 1
  /-- A question is shown when no other is open, and for the ask that has waited longest. -/
  in_order : Each (fun before h => ∀ payload, h = .question payload none →
    openQuestions before = [] ∧ (unsettled before).head? = some payload.requestId ∧
      .runEnded ∉ before) s.log
  /-- What is closed was shown, and is open until then. -/
  closed_after_shown : Each (fun before h => ∀ payload decision,
    h = .question payload (some decision) → payload.requestId ∈ openQuestions before) s.log
  /-- An ask that settles leaves no question open. -/
  open_unsettled : ∀ id ∈ openQuestions s.log, id ∈ unsettled s.log
  settled_asked : ∀ id ∈ settledIds s.log, id ∈ askedIds s.log
  settled_once : (settledIds s.log).Nodup
  settled_when_due : ∀ id ∈ askedIds s.log, (id ∈ settledIds s.log ↔ Due s.log id)
  /-- While an ask waits, a question is open or a settled promise is about to free the line. -/
  moves_on : .runEnded ∉ s.log → unsettled s.log ≠ [] → openQuestions s.log ≠ [] ∨ s.settling ≠ []
  none_left : .runEnded ∈ s.log → unsettled s.log = [] ∧ openQuestions s.log = []
  none_allowed : Each (fun before h => ∀ id result, h = .settled id result →
    .runEnded ∈ before → result.allows = false) s.log

theorem Good.oneAtATime (h : Good s) : OneAtATime s := by
  have hover : .runEnded ∈ s.log → Over s := fun hmem => h.inv.finished (h.inv.ended.mpr hmem)
  have hlive : .runEnded ∉ s.log → s.ended = false := fun hmem =>
    Bool.eq_false_iff.mpr fun hended => hmem (h.inv.ended.mp hended)
  refine ⟨?_, ?_, ?_, ?_, fun id => asked_of_settled h.inv.log, nodup_settledIds h.inv.log, ?_, ?_,
    fun hmem => ⟨(hover hmem).unsettled, (hover hmem).openQuestions⟩, ?_⟩
  · by_cases hmem : .runEnded ∈ s.log
    · rw [(hover hmem).openQuestions]
      exact Nat.zero_le _
    · rw [(h.inv.live (hlive hmem)).openQuestions]
      rcases h.turn (hlive hmem) with ⟨-, hone⟩ | ⟨-, hempty, -⟩
      · rw [List.length_append] at hone
        omega
      · rw [(List.append_eq_nil_iff.mp hempty).1]
        exact Nat.zero_le _
  · refine h.inv.log.mono fun before e hadmits payload he => ?_
    subst he
    exact hadmits
  · refine h.inv.log.mono fun before e hadmits payload decision he => ?_
    subst he
    exact hadmits
  · intro id hid
    by_cases hmem : .runEnded ∈ s.log
    · rw [(hover hmem).openQuestions] at hid
      cases hid
    · have live := h.inv.live (hlive hmem)
      rw [live.openQuestions] at hid
      rw [live.unsettled, State.line, List.map_append]
      exact List.mem_append_left _ hid
  · refine fun id hasked => ⟨due_of_settled h.inv.log, fun hdue => ?_⟩
    by_contra hsettled
    exact h.prompt id (List.mem_filter.mpr ⟨hasked, decide_eq_true hsettled⟩) hdue
  · intro hmem hwaiting
    have live := h.inv.live (hlive hmem)
    rcases h.turn (hlive hmem) with ⟨-, hone⟩ | ⟨-, hempty, -⟩
    · rw [live.openQuestions]
      by_contra hnone
      rw [not_or, not_not, not_not] at hnone
      rw [hnone.1, hnone.2] at hone
      cases hone
    · rw [live.unsettled, hempty] at hwaiting
      exact absurd rfl hwaiting
  · refine h.inv.log.mono fun before e hadmits id result he hend => ?_
    subst he
    exact hadmits.2.2 hend

end Portuni.Questions
