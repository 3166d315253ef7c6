import Mathlib.Data.List.Basic

/-!
Replacing every occurrence of a word in a text: occurrences are found from left to right and do
not overlap, and what has been put in is not searched again.
-/

namespace Portuni.Library.ReplaceAll

variable {α : Type} [DecidableEq α]

/-- `skip` letters of an occurrence are still to be left out. -/
def replaceFrom (word new : List α) : (skip : ℕ) → List α → List α
  | _, [] => []
  | skip + 1, _ :: text => replaceFrom word new skip text
  | 0, c :: text =>
    if word.isPrefixOf (c :: text) then new ++ replaceFrom word new (word.length - 1) text
    else c :: replaceFrom word new 0 text

def replaceAll (word new text : List α) : List α := replaceFrom word new 0 text

variable {word new text skipped : List α} {c : α}

@[simp] theorem replaceAll_nil : replaceAll word new [] = [] := rfl

theorem replaceFrom_skipped (skipped text : List α) :
    replaceFrom word new skipped.length (skipped ++ text) = replaceAll word new text := by
  induction skipped with
  | nil => rfl
  | cons c skipped ih =>
    rw [List.length_cons, List.cons_append, replaceFrom]
    exact ih

theorem replaceAll_found (hword : word ≠ []) :
    replaceAll word new (word ++ text) = new ++ replaceAll word new text := by
  obtain ⟨c, rest, rfl⟩ := List.exists_cons_of_ne_nil hword
  have hfound : (c :: rest).isPrefixOf (c :: (rest ++ text)) = true :=
    List.isPrefixOf_iff_prefix.mpr ⟨text, rfl⟩
  have hskipped : replaceFrom (c :: rest) new rest.length (rest ++ text) =
      replaceAll (c :: rest) new text := replaceFrom_skipped rest text
  rw [replaceAll, List.cons_append, replaceFrom, if_pos hfound, List.length_cons,
    Nat.add_sub_cancel, hskipped]

theorem replaceAll_kept (hkept : ¬word <+: c :: text) :
    replaceAll word new (c :: text) = c :: replaceAll word new text := by
  have hnot : ¬word.isPrefixOf (c :: text) = true := by
    rwa [List.isPrefixOf_iff_prefix]
  rw [replaceAll, replaceFrom, if_neg hnot]
  rfl

theorem replaceAll_cons {d : α} (hne : d ≠ c) :
    replaceAll (c :: word) new (d :: text) = d :: replaceAll (c :: word) new text :=
  replaceAll_kept fun hfront => hne (List.cons_prefix_cons.mp hfront).1.symm

theorem replaceAll_append (hnot : c ∉ skipped) :
    replaceAll (c :: word) new (skipped ++ text) = skipped ++ replaceAll (c :: word) new text := by
  induction skipped with
  | nil => rfl
  | cons d skipped ih =>
    simp only [List.mem_cons, not_or] at hnot
    rw [List.cons_append, replaceAll_cons (Ne.symm hnot.1), ih hnot.2]
    rfl

end Portuni.Library.ReplaceAll
