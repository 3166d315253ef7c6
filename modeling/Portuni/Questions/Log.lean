import Portuni.Library.Histories
import Portuni.Questions.Model

/-!
What the log of a run says about its questions: which asks are not settled, which questions are
open in the chat, and when an ask is due to settle.
-/

namespace Portuni.Questions

open Library.Histories

def unsettled (log : List Happening) : List String :=
  (askedIds log).filter (· ∉ settledIds log)

def openAfter (shown : List String) : Happening → List String
  | .question payload none => shown ++ [payload.requestId]
  | .question payload (some _) => shown.filter (· ≠ payload.requestId)
  | .answered requestId => shown.filter (· ≠ requestId)
  | .runEnded => []
  | _ => shown

/-- The questions that are open in the chat: shown, and neither answered nor closed since, nor
the run ended. -/
def openQuestions (log : List Happening) : List String := log.foldl openAfter []

def Shows (requestId : String) (h : Happening) : Prop :=
  ∃ payload, h = .question payload none ∧ payload.requestId = requestId

/-- An ask has to settle: the run ended, or its signal fired, or it was answered after it was
shown, or it is a dialog that an interrupt stopped. -/
def Due (log : List Happening) (requestId : String) : Prop :=
  .runEnded ∈ log ∨ .aborted requestId ∈ log ∨
    After (Shows requestId) (· = .answered requestId) log ∨
    After (· = .asked requestId true) (· = .interrupted) log

def Admits (before : List Happening) : Happening → Prop
  | .asked requestId _ => requestId ∉ askedIds before
  | .question payload none =>
    openQuestions before = [] ∧ (unsettled before).head? = some payload.requestId ∧
      .runEnded ∉ before
  | .question payload (some _) => payload.requestId ∈ openQuestions before
  | .settled requestId result =>
    requestId ∈ unsettled before ∧ Due before requestId ∧
      (.runEnded ∈ before → result.allows = false)
  | .runEnded => .runEnded ∉ before
  | _ => True

variable {log : List Happening} {id : String} {h : Happening}

@[simp]
theorem askedIds_concat : askedIds (log ++ [h]) = askedIds log ++ h.asks?.toList := by
  cases hid : h.asks? <;> simp [askedIds, hid]

@[simp]
theorem settledIds_concat : settledIds (log ++ [h]) = settledIds log ++ h.settles?.toList := by
  cases hid : h.settles? <;> simp [settledIds, hid]

@[simp]
theorem openQuestions_concat : openQuestions (log ++ [h]) = openAfter (openQuestions log) h := by
  simp [openQuestions]

theorem mem_askedIds : id ∈ askedIds log ↔ ∃ d, .asked id d ∈ log := by
  simp only [askedIds, List.mem_filterMap]
  constructor
  · rintro ⟨h, hmem, hid⟩
    cases h with
    | asked requestId d =>
      cases hid
      exact ⟨d, hmem⟩
    | _ => cases hid
  · rintro ⟨d, hmem⟩
    exact ⟨_, hmem, rfl⟩

def Happening.neutral (h : Happening) : Prop := h.asks? = none ∧ h.settles? = none

theorem unsettled_neutral (hneutral : h.neutral) : unsettled (log ++ [h]) = unsettled log := by
  simp [unsettled, hneutral.1, hneutral.2]

theorem unsettled_settled {result : Settlement} :
    unsettled (log ++ [.settled id result]) = (unsettled log).filter (· ≠ id) := by
  have hids : settledIds (log ++ [.settled id result]) = settledIds log ++ [id] := by
    rw [settledIds_concat]
    rfl
  have hasked : askedIds (log ++ [.settled id result]) = askedIds log := by
    rw [askedIds_concat]
    exact List.append_nil _
  rw [unsettled, hids, hasked, unsettled, List.filter_filter]
  refine List.filter_congr fun x _ => ?_
  simp [and_comm]

theorem unsettled_asked {d : Bool} (hnew : id ∉ settledIds log) :
    unsettled (log ++ [.asked id d]) = unsettled log ++ [id] := by
  have hids : settledIds (log ++ [.asked id d]) = settledIds log := by
    rw [settledIds_concat]
    exact List.append_nil _
  have hasked : askedIds (log ++ [.asked id d]) = askedIds log ++ [id] := by
    rw [askedIds_concat]
    rfl
  rw [unsettled, hids, hasked, List.filter_append, unsettled]
  simp [hnew]

def Happening.quiet : Happening → Prop
  | .asked _ _ | .question _ _ | .error _ _ | .settled _ _ | .returned _ _ => True
  | _ => False

theorem due_quiet (h : Happening) (hquiet : h.quiet) : Due (log ++ [h]) id ↔ Due log id := by
  rw [Due, Due, after_concat, after_concat]
  cases h with
  | answered | aborted | interrupted | runEnded => cases hquiet
  | _ => simp

theorem due_aborted {other : String} :
    Due (log ++ [.aborted other]) id ↔ Due log id ∨ other = id := by
  rw [Due, Due, after_concat, after_concat]
  simp only [List.mem_append, List.mem_singleton, reduceCtorEq, or_false, false_and,
    Happening.aborted.injEq]
  grind

theorem due_answered {other : String} :
    Due (log ++ [.answered other]) id ↔ Due log id ∨ other = id ∧ ∃ h ∈ log, Shows id h := by
  rw [Due, Due, after_concat, after_concat]
  simp only [List.mem_append, List.mem_singleton, reduceCtorEq, or_false, false_and,
    Happening.answered.injEq]
  grind

theorem due_interrupted :
    Due (log ++ [.interrupted]) id ↔ Due log id ∨ .asked id true ∈ log := by
  rw [Due, Due, after_concat, after_concat]
  simp only [List.mem_append, List.mem_singleton, reduceCtorEq, or_false, false_and, true_and,
    exists_eq_right]
  grind

theorem shown_of_open (hid : id ∈ openQuestions log) : ∃ h ∈ log, Shows id h := by
  induction log using List.reverseRecOn with
  | nil => cases hid
  | append_singleton log e ih =>
    have hearlier : id ∈ openQuestions log → ∃ h ∈ log ++ [e], Shows id h := fun hopen => by
      obtain ⟨h, hmem, hshows⟩ := ih hopen
      exact ⟨h, List.mem_append_left _ hmem, hshows⟩
    rw [openQuestions_concat] at hid
    cases e with
    | question payload decision =>
      cases decision with
      | none =>
        rcases List.mem_append.mp hid with hid | hid
        · exact hearlier hid
        · exact ⟨_, by simp, payload, rfl, (List.mem_singleton.mp hid).symm⟩
      | some decision => exact hearlier (List.mem_of_mem_filter hid)
    | answered other => exact hearlier (List.mem_of_mem_filter hid)
    | runEnded => cases hid
    | _ => exact hearlier hid

variable (hlog : Each Admits log)
include hlog

theorem nodup_askedIds : (askedIds log).Nodup := by
  induction log using List.reverseRecOn with
  | nil => exact List.nodup_nil
  | append_singleton log h ih =>
    obtain ⟨hbefore, hlast⟩ := each_concat.mp hlog
    rw [askedIds_concat]
    cases h with
    | asked id d =>
      refine List.nodup_append.mpr ⟨ih hbefore, List.nodup_singleton id, ?_⟩
      rintro x hx y hy rfl
      exact hlast (List.mem_singleton.mp hy ▸ hx)
    | _ => simpa [Happening.asks?] using ih hbefore

theorem asked_of_settled (hid : id ∈ settledIds log) : id ∈ askedIds log := by
  induction log using List.reverseRecOn with
  | nil => cases hid
  | append_singleton log h ih =>
    obtain ⟨hbefore, hlast⟩ := each_concat.mp hlog
    rw [settledIds_concat] at hid
    rw [askedIds_concat]
    rcases List.mem_append.mp hid with hid | hid
    · exact List.mem_append_left _ (ih hbefore hid)
    · cases h with
      | settled other result =>
        obtain rfl := List.mem_singleton.mp hid
        exact List.mem_append_left _ (List.mem_of_mem_filter hlast.1)
      | _ => cases hid

theorem nodup_settledIds : (settledIds log).Nodup := by
  induction log using List.reverseRecOn with
  | nil => exact List.nodup_nil
  | append_singleton log h ih =>
    obtain ⟨hbefore, hlast⟩ := each_concat.mp hlog
    rw [settledIds_concat]
    cases h with
    | settled id result =>
      refine List.nodup_append.mpr ⟨ih hbefore, List.nodup_singleton id, ?_⟩
      rintro x hx y hy rfl
      have hopen := (List.mem_filter.mp hlast.1).2
      exact of_decide_eq_true hopen (List.mem_singleton.mp hy ▸ hx)
    | _ => simpa [Happening.settles?] using ih hbefore

theorem asked_inj {d d' : Bool} (hd : .asked id d ∈ log) (hd' : .asked id d' ∈ log) : d = d' := by
  induction log using List.reverseRecOn with
  | nil => cases hd
  | append_singleton log h ih =>
    obtain ⟨hbefore, hlast⟩ := each_concat.mp hlog
    rcases List.mem_append.mp hd with hd | hd <;> rcases List.mem_append.mp hd' with hd' | hd'
    · exact ih hbefore hd hd'
    · rw [← List.mem_singleton.mp hd'] at hlast
      exact absurd (mem_askedIds.mpr ⟨d, hd⟩) hlast
    · rw [← List.mem_singleton.mp hd] at hlast
      exact absurd (mem_askedIds.mpr ⟨d', hd'⟩) hlast
    · have hboth := (List.mem_singleton.mp hd).trans (List.mem_singleton.mp hd').symm
      exact (Happening.asked.inj hboth).2

theorem asked_of_shown (hid : ∃ h ∈ log, Shows id h) : id ∈ askedIds log := by
  induction log using List.reverseRecOn with
  | nil =>
    obtain ⟨h, hmem, -⟩ := hid
    cases hmem
  | append_singleton log e ih =>
    obtain ⟨hbefore, hlast⟩ := each_concat.mp hlog
    obtain ⟨h, hmem, payload, rfl, rfl⟩ := hid
    rw [askedIds_concat]
    rcases List.mem_append.mp hmem with hmem | hmem
    · exact List.mem_append_left _ (ih hbefore ⟨_, hmem, payload, rfl, rfl⟩)
    · rw [← List.mem_singleton.mp hmem] at hlast
      exact List.mem_append_left _ (List.mem_of_mem_filter (List.mem_of_head? hlast.2.1))

theorem nodup_unsettled : (unsettled log).Nodup := (nodup_askedIds hlog).filter _

theorem due_of_settled (hid : id ∈ settledIds log) : Due log id := by
  induction log using List.reverseRecOn with
  | nil => cases hid
  | append_singleton log h ih =>
    obtain ⟨hbefore, hlast⟩ := each_concat.mp hlog
    have hmono : Due log id → Due (log ++ [h]) id := by
      rintro (h' | h' | h' | h')
      · exact .inl (List.mem_append_left _ h')
      · exact .inr (.inl (List.mem_append_left _ h'))
      · exact .inr (.inr (.inl (after_concat.mpr (.inl h'))))
      · exact .inr (.inr (.inr (after_concat.mpr (.inl h'))))
    rw [settledIds_concat] at hid
    rcases List.mem_append.mp hid with hid | hid
    · exact hmono (ih hbefore hid)
    · cases h with
      | settled other result =>
        obtain rfl := List.mem_singleton.mp hid
        exact hmono hlast.2.1
      | _ => cases hid

end Portuni.Questions
