import Portuni.Questions.Log

/-!
The line of asks: what holds of it between two steps, and how asks leave it.
-/

namespace Portuni.Questions

open Library.Histories

def State.shown (s : State) : List Ask := s.pendingPermissions ++ s.pendingElicitations

def State.line (s : State) : List Ask := s.shown ++ s.questionQueue

structure Live (s : State) : Prop where
  permissions : ∀ ask ∈ s.pendingPermissions, ask.isDialog = false
  dialogs : ∀ ask ∈ s.pendingElicitations, ask.isDialog = true
  unsettled : unsettled s.log = s.line.map Ask.requestId
  openQuestions : openQuestions s.log = s.shown.map Ask.requestId
  asked : ∀ ask ∈ s.line, .asked ask.requestId ask.isDialog ∈ s.log
  unshown : ∀ ask ∈ s.questionQueue, ¬∃ h ∈ s.log, Shows ask.requestId h
  stops : ∀ ask ∈ s.line, ask.isDialog = true → ask.requestId ∈ s.elicitationStops

structure Over (s : State) : Prop where
  line : s.line = []
  unsettled : unsettled s.log = []
  openQuestions : openQuestions s.log = []

structure Inv (s : State) : Prop where
  log : Each Admits s.log
  ended : s.ended = true ↔ .runEnded ∈ s.log
  emitted : s.runEndedEmitted = s.ended
  aborted : ∀ id, id ∈ s.aborted ↔ .aborted id ∈ s.log
  stops : ∀ id ∈ s.elicitationStops, .asked id true ∈ s.log
  stopped : ∀ id ∈ s.stopped, id ∈ askedIds s.log ∧ id ∉ Questions.unsettled s.log
  live : s.ended = false → Live s
  finished : s.ended = true → Over s

/-- While the run goes on, one ask at most is shown or has just settled, and the others wait for
it. -/
def Turn (s : State) : Prop :=
  s.ended = false →
    (s.questionOpen = true ∧ (s.shown.map Ask.requestId ++ s.settling).length = 1) ∨
      (s.questionOpen = false ∧ s.line = [] ∧ s.settling = [])

def Prompt (s : State) : Prop := ∀ id ∈ unsettled s.log, ¬Due s.log id

def refusal (ask : Ask) (code : RunnerDenyCode) : Settlement :=
  match ask.asker with
  | .permission _ _ => .permission (.deny (denyMessage code))
  | .dialog _ => .dialog .cancel

theorem refusal_allows (ask : Ask) (code : RunnerDenyCode) : (refusal ask code).allows = false := by
  unfold refusal
  split <;> rfl

theorem refuse_eq (s : State) (ask : Ask) (code : RunnerDenyCode) : ∃ denied, refuse s ask code =
    { s with
      log := s.log ++ [.settled ask.requestId (refusal ask code)]
      deniedToolUses := denied } := by
  unfold refuse refusal
  cases ask.asker with
  | permission input toolUseId =>
    cases toolUseId with
    | none => exact ⟨s.deniedToolUses, rfl⟩
    | some id => exact ⟨_, rfl⟩
  | dialog field => exact ⟨s.deniedToolUses, rfl⟩

theorem noteDenied_eq (s : State) (toolUseId : Option String) (denied : Denied) :
    ∃ noted, s.noteDenied toolUseId denied = { s with deniedToolUses := noted } := by
  cases toolUseId with
  | none => exact ⟨s.deniedToolUses, rfl⟩
  | some id => exact ⟨_, rfl⟩

section

variable {s : State} {log log' : List Happening} {h : Happening}

/-- Two logs that tell the same of the run's end, of the signals, of the asks made and of the
questions shown. -/
structure SameFacts (log log' : List Happening) : Prop where
  ended : .runEnded ∈ log' ↔ .runEnded ∈ log
  aborted : ∀ id, .aborted id ∈ log' ↔ .aborted id ∈ log
  asked : ∀ id d, .asked id d ∈ log' ↔ .asked id d ∈ log
  shown : ∀ id, (∃ h ∈ log', Shows id h) ↔ ∃ h ∈ log, Shows id h

def Happening.plain : Happening → Prop
  | .asked _ _ | .question _ none | .aborted _ | .runEnded => False
  | _ => True

theorem SameFacts.refl (log : List Happening) : SameFacts log log :=
  ⟨.rfl, fun _ => .rfl, fun _ _ => .rfl, fun _ => .rfl⟩

theorem SameFacts.concat (hsame : SameFacts log log') (h : Happening) (hplain : h.plain) :
    SameFacts log (log' ++ [h]) := by
  have hmem : ∀ a : Happening, ¬a.plain → (a ∈ log' ++ [h] ↔ a ∈ log') := by
    intro a ha
    rw [List.mem_append, List.mem_singleton]
    exact ⟨fun hor => hor.resolve_right fun heq => ha (heq ▸ hplain), .inl⟩
  refine ⟨(hmem .runEnded not_false).trans hsame.ended,
    fun id => (hmem (.aborted id) not_false).trans (hsame.aborted id),
    fun id d => (hmem (.asked id d) not_false).trans (hsame.asked id d), fun id => ?_⟩
  rw [← hsame.shown id]
  constructor
  · rintro ⟨a, ha, payload, rfl, hid⟩
    exact ⟨_, (hmem (.question payload none) not_false).mp ha, payload, rfl, hid⟩
  · rintro ⟨a, ha, hshows⟩
    exact ⟨a, List.mem_append_left _ ha, hshows⟩

theorem Inv.restrict (h : Inv s) (keep : String → Bool) (hsame : SameFacts s.log log')
    (hlog : Each Admits log') (hunsettled : unsettled log' = (unsettled s.log).filter keep)
    (hopen : openQuestions log' = (openQuestions s.log).filter keep) (settling : List String)
    (denied : List (String × Denied)) :
    Inv { s with
      pendingPermissions := s.pendingPermissions.filter (keep ·.requestId)
      pendingElicitations := s.pendingElicitations.filter (keep ·.requestId)
      questionQueue := s.questionQueue.filter (keep ·.requestId)
      settling := settling
      deniedToolUses := denied
      log := log' } := by
  have hline : ∀ asks : List Ask, (asks.map Ask.requestId).filter keep =
      (asks.filter (keep ·.requestId)).map Ask.requestId := fun asks => by
    rw [List.filter_map]
    rfl
  refine ⟨hlog, h.ended.trans hsame.ended.symm, h.emitted,
    fun id => (h.aborted id).trans (hsame.aborted id).symm,
    fun id hid => (hsame.asked id true).mpr (h.stops id hid), fun id hid => ?_,
    fun hlive => ?_, fun hover => ?_⟩
  · obtain ⟨hasked, hsettled⟩ := h.stopped id hid
    obtain ⟨d, hd⟩ := mem_askedIds.mp hasked
    refine ⟨mem_askedIds.mpr ⟨d, (hsame.asked id d).mpr hd⟩, fun hmem => hsettled ?_⟩
    rw [hunsettled] at hmem
    exact List.mem_of_mem_filter hmem
  · have live := h.live hlive
    have hmem : ∀ ask, ask ∈ s.pendingPermissions.filter (keep ·.requestId) ++
        s.pendingElicitations.filter (keep ·.requestId) ++
          s.questionQueue.filter (keep ·.requestId) → ask ∈ s.line := by
      intro ask hask
      rw [← List.filter_append, ← List.filter_append] at hask
      exact List.mem_of_mem_filter hask
    refine ⟨fun ask hask => live.permissions ask (List.mem_of_mem_filter hask),
      fun ask hask => live.dialogs ask (List.mem_of_mem_filter hask), ?_, ?_,
      fun ask hask => (hsame.asked _ _).mpr (live.asked ask (hmem ask hask)), ?_,
      fun ask hask => live.stops ask (hmem ask hask)⟩
    · rw [hunsettled, live.unsettled, hline, State.line, State.shown, List.filter_append,
        List.filter_append]
      rfl
    · rw [hopen, live.openQuestions, hline, State.shown, List.filter_append]
      rfl
    · intro ask hask hshown
      exact live.unshown ask (List.mem_of_mem_filter hask) ((hsame.shown _).mp hshown)
  · obtain ⟨hline, hnone, hclosed⟩ := h.finished hover
    obtain ⟨hshown, hqueue⟩ := List.append_eq_nil_iff.mp hline
    obtain ⟨hpp, hpe⟩ := List.append_eq_nil_iff.mp hshown
    refine ⟨?_, ?_, ?_⟩
    · simp [State.line, State.shown, hpp, hpe, hqueue]
    · rw [hunsettled, hnone, List.filter_nil]
    · rw [hopen, hclosed, List.filter_nil]

theorem Inv.tell (h : Inv s) (hsame : SameFacts s.log log') (hlog : Each Admits log')
    (hunsettled : unsettled log' = unsettled s.log)
    (hopen : openQuestions log' = openQuestions s.log) (denied : List (String × Denied)) :
    Inv { s with deniedToolUses := denied, log := log' } := by
  have hkeep := h.restrict (fun _ => true) hsame hlog (by rw [hunsettled, List.filter_true])
    (by rw [hopen, List.filter_true]) s.settling denied
  simpa only [List.filter_true] using hkeep

end

variable {s s' : State} {id at_ : String} {ask : Ask} {asks : List Ask}

theorem filter_ne_self (h : id ∉ asks.map Ask.requestId) :
    asks.filter (·.requestId ≠ id) = asks := by
  refine List.filter_eq_self.mpr fun ask hask => decide_eq_true fun heq => h ?_
  exact heq ▸ List.mem_map_of_mem hask

theorem filter_ids_ne_self {ids : List String} (h : id ∉ ids) : ids.filter (· ≠ id) = ids :=
  List.filter_eq_self.mpr fun _ hx => decide_eq_true fun heq => h (heq ▸ hx)

theorem not_mem_ids_filter (id : String) (asks : List Ask) :
    id ∉ (asks.filter (·.requestId ≠ id)).map Ask.requestId := by
  intro hmem
  obtain ⟨ask, hask, hid⟩ := List.mem_map.mp hmem
  exact of_decide_eq_true (List.mem_filter.mp hask).2 hid

theorem find?_cases (id : String) (asks : List Ask) :
    (∃ ask ∈ asks, ask.requestId = id ∧ asks.find? (·.requestId = id) = some ask) ∨
      (id ∉ asks.map Ask.requestId ∧ asks.find? (·.requestId = id) = none) := by
  cases hfind : asks.find? (·.requestId = id) with
  | some ask =>
    have hid := List.find?_some hfind
    exact .inl ⟨ask, List.mem_of_find?_eq_some hfind, of_decide_eq_true hid, rfl⟩
  | none =>
    refine .inr ⟨fun hmem => ?_, rfl⟩
    obtain ⟨ask, hask, hid⟩ := List.mem_map.mp hmem
    exact List.find?_eq_none.mp hfind ask hask (decide_eq_true hid)

theorem Inv.live_of_mem (h : Inv s) (hask : ask ∈ s.line) : s.ended = false := by
  cases hended : s.ended with
  | false => rfl
  | true =>
    rw [(h.finished hended).line] at hask
    cases hask

theorem Inv.mem_unsettled (h : Inv s) (hask : ask ∈ s.line) :
    ask.requestId ∈ unsettled s.log := by
  rw [(h.live (h.live_of_mem hask)).unsettled]
  exact List.mem_map_of_mem hask

theorem Inv.nodup_line (h : Inv s) (hlive : s.ended = false) :
    (s.line.map Ask.requestId).Nodup := by
  rw [← (h.live hlive).unsettled]
  exact nodup_unsettled h.log

structure Withdrawn (s s' : State) : Prop where
  ended : s'.ended = s.ended
  stops : s'.elicitationStops = s.elicitationStops
  log : s.log <+: s'.log
  due : ∀ id, Due s'.log id ↔ Due s.log id
  unsettled : ∀ id ∈ unsettled s'.log, id ∈ unsettled s.log
  turn : Turn s → Turn s'

theorem Withdrawn.refl (s : State) : Withdrawn s s :=
  ⟨rfl, rfl, List.prefix_rfl, fun _ => .rfl, fun _ h => h, fun h => h⟩

theorem Withdrawn.trans {t : State} (first : Withdrawn s s') (second : Withdrawn s' t) :
    Withdrawn s t where
  ended := second.ended.trans first.ended
  stops := second.stops.trans first.stops
  log := first.log.trans second.log
  due id := (second.due id).trans (first.due id)
  unsettled id hid := first.unsettled id (second.unsettled id hid)
  turn h := second.turn (first.turn h)

theorem Inv.leaveLine (h : Inv s) (hdue : id ∈ unsettled s.log → Due s.log id) :
    Inv (leaveLine s id) ∧ Withdrawn s (leaveLine s id) ∧
      id ∉ (Questions.leaveLine s id).questionQueue.map Ask.requestId ∧
      (Questions.leaveLine s id).shown = s.shown := by
  unfold Questions.leaveLine
  rcases find?_cases id s.questionQueue with ⟨ask, hask, rfl, hfind⟩ | ⟨hnone, hfind⟩
  · have hline : ask ∈ s.line := List.mem_append_right _ hask
    have hlive := h.live_of_mem hline
    have live := h.live hlive
    have hnodup := h.nodup_line hlive
    rw [State.line, List.map_append] at hnodup
    have hshown : ask.requestId ∉ s.shown.map Ask.requestId := fun hmem =>
      (List.nodup_append.mp hnodup).2.2 _ hmem _ (List.mem_map_of_mem hask) rfl
    have hpp : ask.requestId ∉ s.pendingPermissions.map Ask.requestId := fun hmem =>
      hshown (by rw [State.shown, List.map_append]; exact List.mem_append_left _ hmem)
    have hpe : ask.requestId ∉ s.pendingElicitations.map Ask.requestId := fun hmem =>
      hshown (by rw [State.shown, List.map_append]; exact List.mem_append_right _ hmem)
    obtain ⟨denied, hrefuse⟩ := refuse_eq
      { s with questionQueue := s.questionQueue.filter (·.requestId ≠ ask.requestId) } ask
      .turnStopped
    rw [hfind]
    simp only [hrefuse]
    have hadmits : Each Admits (s.log ++ [.settled ask.requestId (refusal ask .turnStopped)]) :=
      each_concat.mpr ⟨h.log, h.mem_unsettled hline, hdue (h.mem_unsettled hline),
        fun _ => refusal_allows ask _⟩
    have hunsettled := @unsettled_settled s.log ask.requestId (refusal ask .turnStopped)
    refine ⟨?_, ⟨rfl, rfl, List.prefix_append _ _, fun id => due_quiet _ trivial, fun id hid => ?_,
      fun hturn hended => ?_⟩, ?_, rfl⟩
    · have hsame : SameFacts s.log
          (s.log ++ [.settled ask.requestId (refusal ask .turnStopped)]) :=
        (SameFacts.refl s.log).concat _ trivial
      have hopen : openQuestions (s.log ++ [.settled ask.requestId (refusal ask .turnStopped)]) =
          (openQuestions s.log).filter (· ≠ ask.requestId) := by
        rw [openQuestions_concat, live.openQuestions, filter_ids_ne_self hshown]
        rfl
      have hkeep := h.restrict (· ≠ ask.requestId) hsame hadmits hunsettled hopen s.settling denied
      simpa only [filter_ne_self hpp, filter_ne_self hpe] using hkeep
    · rw [hunsettled] at hid
      exact List.mem_of_mem_filter hid
    · rcases hturn hended with hleft | ⟨-, hempty, -⟩
      · exact .inl hleft
      · rw [hempty] at hline
        cases hline
    · exact not_mem_ids_filter _ _
  · rw [hfind]
    exact ⟨h, .refl s, hnone, rfl⟩

/-- An ask whose question is open leaves the line, and its promise settles. -/
def State.withoutShown (s : State) (id : String) (denied : List (String × Denied))
    (log : List Happening) : State :=
  { s with
    pendingPermissions := s.pendingPermissions.filter (·.requestId ≠ id)
    pendingElicitations := s.pendingElicitations.filter (·.requestId ≠ id)
    settling := s.settling ++ [id]
    deniedToolUses := denied
    log := log }

theorem Inv.withoutShown (h : Inv s) (hask : ask ∈ s.shown) {log' : List Happening}
    (hsame : SameFacts s.log log') (hlog : Each Admits log')
    (hunsettled : unsettled log' = (unsettled s.log).filter (· ≠ ask.requestId))
    (hopen : openQuestions log' = (openQuestions s.log).filter (· ≠ ask.requestId))
    (denied : List (String × Denied)) : Inv (s.withoutShown ask.requestId denied log') := by
  have hline : ask ∈ s.line := List.mem_append_left _ hask
  have hnodup := h.nodup_line (h.live_of_mem hline)
  rw [State.line, List.map_append] at hnodup
  have hqueue : ask.requestId ∉ s.questionQueue.map Ask.requestId := fun hmem =>
    (List.nodup_append.mp hnodup).2.2 _ (List.mem_map_of_mem hask) _ hmem rfl
  have hkeep := h.restrict (· ≠ ask.requestId) hsame hlog hunsettled hopen
    (s.settling ++ [ask.requestId]) denied
  simpa only [State.withoutShown, filter_ne_self hqueue] using hkeep

theorem turn_withoutShown (hask : ask ∈ s.shown) (hturn : Turn s) (denied : List (String × Denied))
    (log' : List Happening) : Turn (s.withoutShown ask.requestId denied log') := by
  intro hended
  rcases hturn hended with ⟨hopen, hone⟩ | ⟨-, hempty, -⟩
  · refine .inl ⟨hopen, ?_⟩
    rw [List.length_append, List.length_map] at hone
    have hpos := List.length_pos_of_mem hask
    obtain ⟨only, honly⟩ := List.length_eq_one_iff.mp (show s.shown.length = 1 by omega)
    have hsettling : s.settling = [] := List.length_eq_zero_iff.mp (by omega)
    obtain rfl : ask = only := by
      rw [honly] at hask
      exact List.mem_singleton.mp hask
    have hshown : (s.withoutShown ask.requestId denied log').shown =
        s.shown.filter (·.requestId ≠ ask.requestId) := by
      rw [State.shown, State.shown, List.filter_append]
      rfl
    rw [hshown, honly]
    simp [State.withoutShown, hsettling]
  · have hline : ask ∈ s.line := List.mem_append_left _ hask
    rw [hempty] at hline
    cases hline

theorem Inv.other_kind (h : Inv s) (hlive : s.ended = false) : (∀ ask ∈ s.pendingPermissions,
      s.pendingElicitations.filter (·.requestId ≠ ask.requestId) = s.pendingElicitations) ∧
    ∀ ask ∈ s.pendingElicitations,
      s.pendingPermissions.filter (·.requestId ≠ ask.requestId) = s.pendingPermissions := by
  have hnodup := h.nodup_line hlive
  rw [State.line, List.map_append, State.shown, List.map_append] at hnodup
  have hdisjoint := (List.nodup_append.mp (List.nodup_append.mp hnodup).1).2.2
  constructor
  · exact fun ask hask => filter_ne_self fun hmem =>
      hdisjoint _ (List.mem_map_of_mem hask) _ hmem rfl
  · exact fun ask hask => filter_ne_self fun hmem =>
      hdisjoint _ hmem _ (List.mem_map_of_mem hask) rfl

def abandonedLog (s : State) (ask : Ask) (at_ : String) : List Happening :=
  s.log ++ [.settled ask.requestId (refusal ask .turnStopped)] ++
    [.question ask.payload (some (closedBySystem at_))]

theorem Inv.abandoned (h : Inv s) (hask : ask ∈ s.shown) (hdue : Due s.log ask.requestId)
    (at_ : String) (denied : List (String × Denied)) :
    Inv (s.withoutShown ask.requestId denied (abandonedLog s ask at_)) ∧
      Withdrawn s (s.withoutShown ask.requestId denied (abandonedLog s ask at_)) ∧
      ask.requestId ∉ Questions.unsettled (abandonedLog s ask at_) := by
  have hline : ask ∈ s.line := List.mem_append_left _ hask
  have live := h.live (h.live_of_mem hline)
  have hmem := h.mem_unsettled hline
  have hunsettled : Questions.unsettled (abandonedLog s ask at_) =
      (Questions.unsettled s.log).filter (· ≠ ask.requestId) := by
    rw [abandonedLog, unsettled_neutral ⟨rfl, rfl⟩, unsettled_settled]
  have hopen : openQuestions (abandonedLog s ask at_) =
      (openQuestions s.log).filter (· ≠ ask.requestId) := by
    rw [abandonedLog, openQuestions_concat, openQuestions_concat]
    rfl
  have hsettled : SameFacts s.log
      (s.log ++ [.settled ask.requestId (refusal ask .turnStopped)]) :=
    (SameFacts.refl s.log).concat _ trivial
  have hsame : SameFacts s.log (abandonedLog s ask at_) := hsettled.concat _ trivial
  have hlog : Each Admits (abandonedLog s ask at_) := by
    refine each_concat.mpr ⟨each_concat.mpr ⟨h.log, hmem, hdue, fun _ => refusal_allows ask _⟩, ?_⟩
    have hshown : ask.requestId ∈ openQuestions s.log := by
      rw [live.openQuestions]
      exact List.mem_map_of_mem hask
    simpa [Admits, openAfter, Ask.requestId] using hshown
  refine ⟨h.withoutShown hask hsame hlog hunsettled hopen denied, ⟨rfl, rfl, ?_, fun id => ?_,
    fun id hid => ?_, fun hturn => turn_withoutShown hask hturn denied _⟩, ?_⟩
  · exact (List.prefix_append _ _).trans (List.prefix_append _ _)
  · have hfirst : Due (s.log ++ [.settled ask.requestId (refusal ask .turnStopped)]) id ↔
        Due s.log id := due_quiet _ trivial
    rw [← hfirst]
    exact due_quiet _ trivial
  · have hid' : id ∈ Questions.unsettled (abandonedLog s ask at_) := hid
    rw [hunsettled] at hid'
    exact List.mem_of_mem_filter hid'
  · rw [hunsettled]
    simp

theorem abandonPermission_cases (h : Inv s) (id at_ : String) :
    (∃ ask ∈ s.pendingPermissions, ask.requestId = id ∧ ∃ denied,
        abandonPermission s id at_ = s.withoutShown id denied (abandonedLog s ask at_)) ∨
      (id ∉ s.pendingPermissions.map Ask.requestId ∧ abandonPermission s id at_ = s) := by
  unfold abandonPermission
  rcases find?_cases id s.pendingPermissions with ⟨ask, hask, rfl, hfind⟩ | ⟨hnone, hfind⟩
  · have hline : ask ∈ s.line := List.mem_append_left _ (List.mem_append_left _ hask)
    have hother := (h.other_kind (h.live_of_mem hline)).1 ask hask
    obtain ⟨denied, hrefuse⟩ := refuse_eq
      { s with
        pendingPermissions := s.pendingPermissions.filter (·.requestId ≠ ask.requestId)
        settling := s.settling ++ [ask.requestId] } ask .turnStopped
    refine .inl ⟨ask, hask, rfl, denied, ?_⟩
    rw [hfind]
    simp only [hrefuse, State.withoutShown, State.emit, abandonedLog, hother]
  · rw [hfind]
    exact .inr ⟨hnone, rfl⟩

theorem abandonDialog_cases (h : Inv s) (id at_ : String) :
    (∃ ask ∈ s.pendingElicitations, ask.requestId = id ∧ ∃ denied,
        abandonDialog s id at_ = s.withoutShown id denied (abandonedLog s ask at_)) ∨
      (id ∉ s.pendingElicitations.map Ask.requestId ∧ abandonDialog s id at_ = s) := by
  unfold abandonDialog
  rcases find?_cases id s.pendingElicitations with ⟨ask, hask, rfl, hfind⟩ | ⟨hnone, hfind⟩
  · have hline : ask ∈ s.line := List.mem_append_left _ (List.mem_append_right _ hask)
    have hother := (h.other_kind (h.live_of_mem hline)).2 ask hask
    obtain ⟨denied, hrefuse⟩ := refuse_eq
      { s with
        pendingElicitations := s.pendingElicitations.filter (·.requestId ≠ ask.requestId)
        settling := s.settling ++ [ask.requestId] } ask .turnStopped
    refine .inl ⟨ask, hask, rfl, denied, ?_⟩
    rw [hfind]
    simp only [hrefuse, State.withoutShown, State.emit, abandonedLog, hother]
  · rw [hfind]
    exact .inr ⟨hnone, rfl⟩

theorem Inv.setStopped (h : Inv s) {stopped : List String}
    (hstopped : ∀ id ∈ stopped, id ∈ askedIds s.log ∧ id ∉ unsettled s.log) :
    Inv { s with stopped := stopped } := by
  obtain ⟨hlog, hended, hemitted, haborted, hstops, -, hlive, hover⟩ := h
  refine ⟨hlog, hended, hemitted, haborted, hstops, hstopped, fun h => ?_, fun h => ?_⟩
  · obtain ⟨h1, h2, h3, h4, h5, h6, h7⟩ := hlive h
    exact ⟨h1, h2, h3, h4, h5, h6, h7⟩
  · obtain ⟨h1, h2, h3⟩ := hover h
    exact ⟨h1, h2, h3⟩

theorem refuse_stopped (s : State) (ask : Ask) (code : RunnerDenyCode) (stopped : List String) :
    refuse { s with stopped := stopped } ask code =
      { refuse s ask code with stopped := stopped } := by
  unfold refuse
  cases ask.asker with
  | permission input toolUseId => cases toolUseId <;> rfl
  | dialog field => rfl

theorem leaveLine_stopped (s : State) (id : String) (stopped : List String) :
    leaveLine { s with stopped := stopped } id = { leaveLine s id with stopped := stopped } := by
  unfold leaveLine
  cases s.questionQueue.find? (·.requestId = id) with
  | none => rfl
  | some ask =>
    dsimp only
    rw [← refuse_stopped]

theorem abandonDialog_stopped (s : State) (id at_ : String) (stopped : List String) :
    abandonDialog { s with stopped := stopped } id at_ =
      { abandonDialog s id at_ with stopped := stopped } := by
  unfold abandonDialog
  cases s.pendingElicitations.find? (·.requestId = id) with
  | none => rfl
  | some ask =>
    dsimp only [refuse]
    cases ask.asker with
    | permission input toolUseId => cases toolUseId <;> rfl
    | dialog field => rfl

variable (h : Inv s)

include h

theorem Inv.gone (hpp : id ∉ s.pendingPermissions.map Ask.requestId)
    (hpe : id ∉ s.pendingElicitations.map Ask.requestId)
    (hqueue : id ∉ s.questionQueue.map Ask.requestId) : id ∉ unsettled s.log := by
  cases hended : s.ended with
  | true =>
    rw [(h.finished hended).unsettled]
    exact List.not_mem_nil
  | false =>
    rw [(h.live hended).unsettled, State.line, State.shown, List.map_append, List.map_append]
    simp only [List.mem_append, not_or]
    exact ⟨⟨hpp, hpe⟩, hqueue⟩

theorem Inv.isDialog_eq (hask : ask ∈ s.line) {d : Bool} (hasked : .asked ask.requestId d ∈ s.log) :
    ask.isDialog = d :=
  asked_inj h.log ((h.live (h.live_of_mem hask)).asked ask hask) hasked

variable (hdue : id ∈ unsettled s.log → Due s.log id)

include hdue

theorem Inv.abandonPermission (hkind : id ∈ unsettled s.log → .asked id true ∉ s.log) (at_ :
      String) :
    Inv (abandonPermission (Questions.leaveLine s id) id at_) ∧
      Withdrawn s (Questions.abandonPermission (Questions.leaveLine s id) id at_) ∧
      id ∉ unsettled (Questions.abandonPermission (Questions.leaveLine s id) id at_).log := by
  obtain ⟨hinv, hwithdrawn, hqueue, hshown⟩ := h.leaveLine hdue
  rcases abandonPermission_cases hinv id at_ with ⟨ask, hask, rfl, denied, heq⟩ | ⟨hnone, heq⟩
  · have hmem : ask ∈ (Questions.leaveLine s ask.requestId).shown := List.mem_append_left _ hask
    have hdue' := hdue (hwithdrawn.unsettled _ (hinv.mem_unsettled (List.mem_append_left _ hmem)))
    obtain ⟨hafter, hmore, hgone⟩ := hinv.abandoned hmem ((hwithdrawn.due _).mpr hdue') at_ denied
    rw [heq]
    exact ⟨hafter, hwithdrawn.trans hmore, hgone⟩
  · rw [heq]
    refine ⟨hinv, hwithdrawn, hinv.gone hnone (fun hpe => ?_) hqueue⟩
    obtain ⟨ask, hask, rfl⟩ := List.mem_map.mp hpe
    have hmem : ask ∈ (Questions.leaveLine s ask.requestId).shown := List.mem_append_right _ hask
    have hline : ask ∈ s.line := List.mem_append_left _ (hshown ▸ hmem)
    have live := h.live (h.live_of_mem hline)
    have hdialog := (hinv.live (hinv.live_of_mem (List.mem_append_left _ hmem))).dialogs ask hask
    exact hkind (h.mem_unsettled hline) (hdialog ▸ live.asked ask hline)

theorem Inv.abandonDialog (hkind : .asked id true ∈ s.log) (at_ : String) :
    Inv (abandonDialog (Questions.leaveLine s id) id at_) ∧
      Withdrawn s (Questions.abandonDialog (Questions.leaveLine s id) id at_) ∧
      id ∉ unsettled (Questions.abandonDialog (Questions.leaveLine s id) id at_).log := by
  obtain ⟨hinv, hwithdrawn, hqueue, hshown⟩ := h.leaveLine hdue
  rcases abandonDialog_cases hinv id at_ with ⟨ask, hask, rfl, denied, heq⟩ | ⟨hnone, heq⟩
  · have hmem : ask ∈ (Questions.leaveLine s ask.requestId).shown := List.mem_append_right _ hask
    have hdue' := hdue (hwithdrawn.unsettled _ (hinv.mem_unsettled (List.mem_append_left _ hmem)))
    obtain ⟨hafter, hmore, hgone⟩ := hinv.abandoned hmem ((hwithdrawn.due _).mpr hdue') at_ denied
    rw [heq]
    exact ⟨hafter, hwithdrawn.trans hmore, hgone⟩
  · rw [heq]
    refine ⟨hinv, hwithdrawn, hinv.gone (fun hpp => ?_) hnone hqueue⟩
    obtain ⟨ask, hask, rfl⟩ := List.mem_map.mp hpp
    have hmem : ask ∈ (Questions.leaveLine s ask.requestId).shown := List.mem_append_left _ hask
    have hline : ask ∈ s.line := List.mem_append_left _ (hshown ▸ hmem)
    have hcall := (hinv.live (hinv.live_of_mem (List.mem_append_left _ hmem))).permissions ask hask
    rw [h.isDialog_eq hline hkind] at hcall
    cases hcall

theorem Inv.stopDialog (hdialog : .asked id true ∈ s.log) (at_ : String) :
    Inv (stopDialog at_ s id) ∧ Withdrawn s (Questions.stopDialog at_ s id) ∧
      id ∉ unsettled (Questions.stopDialog at_ s id).log := by
  unfold Questions.stopDialog
  split
  · next hstopped =>
    exact ⟨h, .refl s, (h.stopped id (List.contains_iff_mem.mp hstopped)).2⟩
  · obtain ⟨hinv, hwithdrawn, hgone⟩ := h.abandonDialog hdue hdialog at_
    rw [leaveLine_stopped, abandonDialog_stopped]
    refine ⟨hinv.setStopped fun x hx => ?_, ⟨hwithdrawn.ended, hwithdrawn.stops, hwithdrawn.log,
      hwithdrawn.due, hwithdrawn.unsettled, hwithdrawn.turn⟩, hgone⟩
    have hasked : ∀ y, y ∈ askedIds s.log → y ∈ askedIds
        (Questions.abandonDialog (Questions.leaveLine s id) id at_).log := by
      intro y hy
      obtain ⟨d, hd⟩ := mem_askedIds.mp hy
      exact mem_askedIds.mpr ⟨d, hwithdrawn.log.subset hd⟩
    rcases List.mem_append.mp hx with hx | hx
    · obtain ⟨hx1, hx2⟩ := h.stopped x hx
      exact ⟨hasked x hx1, fun hmem => hx2 (hwithdrawn.unsettled x hmem)⟩
    · rw [List.mem_singleton.mp hx]
      exact ⟨hasked id (mem_askedIds.mpr ⟨true, hdialog⟩), hgone⟩

omit hdue

theorem Inv.stopDialogs {ids : List String} (hdue : ∀ id ∈ ids, id ∈ unsettled s.log → Due s.log id)
    (hdialogs : ∀ id ∈ ids, .asked id true ∈ s.log) (at_ : String) :
    Inv (ids.foldl (Questions.stopDialog at_) s) ∧
      Withdrawn s (ids.foldl (Questions.stopDialog at_) s) ∧
      ∀ id ∈ ids, id ∉ unsettled (ids.foldl (Questions.stopDialog at_) s).log := by
  induction ids generalizing s with
  | nil => exact ⟨h, .refl s, by simp⟩
  | cons id ids ih =>
    obtain ⟨hinv, hfirst, hgone⟩ := h.stopDialog (hdue id List.mem_cons_self)
      (hdialogs id List.mem_cons_self) at_
    have hdue' : ∀ x ∈ ids, x ∈ unsettled (Questions.stopDialog at_ s id).log →
        Due (Questions.stopDialog at_ s id).log x := fun x hx hmem =>
      (hfirst.due x).mpr (hdue x (List.mem_cons_of_mem _ hx) (hfirst.unsettled x hmem))
    obtain ⟨hlast, hmore, hrest⟩ := ih hinv hdue' fun x hx =>
      hfirst.log.subset (hdialogs x (List.mem_cons_of_mem _ hx))
    refine ⟨hlast, hfirst.trans hmore, fun x hx => ?_⟩
    rcases List.mem_cons.mp hx with rfl | hx
    · exact fun hmem => hgone (hmore.unsettled x hmem)
    · exact hrest x hx

end Portuni.Questions
