import Mathlib.Data.List.DropRight
import Portuni.Library.SqlLexer

/-!
Texts that are cut at the first occurrence of a word, and texts that are trimmed.
-/

namespace Portuni.Library.Markers

open Library.SqlLexer (indexOf)

section

variable {w x y : List Char}

/-- No occurrence begins in the one text and ends in the other. -/
def Apart (w x y : List Char) : Prop :=
  ∀ l₁ l₂, l₁ ≠ [] → l₂ ≠ [] → w = l₁ ++ l₂ → l₁ <:+ x → ¬ l₂ <+: y

theorem Apart.of_head (h : ∀ d, y.head? = some d → d ∉ w.tail) : Apart w x y := by
  rintro l₁ l₂ hl₁ hl₂ rfl - ⟨z, rfl⟩
  obtain ⟨c, l₁, rfl⟩ := List.exists_cons_of_ne_nil hl₁
  obtain ⟨d, l₂, rfl⟩ := List.exists_cons_of_ne_nil hl₂
  exact h d rfl (by simp)

theorem Apart.of_front {c : Char} {x' w' : List Char} (hw : w = c :: w') (hx : x = c :: x')
    (hc : c ∉ x') (hnot : ¬ x <+: w) : Apart w x y := by
  rintro l₁ l₂ hl₁ - heq htail -
  obtain ⟨d, l₁, rfl⟩ := List.exists_cons_of_ne_nil hl₁
  obtain rfl : c = d := (List.cons.inj (hw.symm.trans heq)).1
  rw [hx, List.suffix_cons_iff] at htail
  rcases htail with hsame | htail
  · exact hnot ⟨l₂, by rw [hx, heq, hsame]⟩
  · exact hc (htail.subset List.mem_cons_self)

theorem Apart.infix_iff (h : Apart w x y) : w <:+: x ++ y ↔ w <:+: x ∨ w <:+: y := by
  rw [List.infix_append_iff_ne_nil]
  constructor
  · rintro (hx | hy | ⟨l₁, l₂, hl₁, hl₂, heq, htail, hfront⟩)
    · exact .inl hx
    · exact .inr hy
    · exact absurd hfront (h l₁ l₂ hl₁ hl₂ heq htail)
  · rintro (hx | hy)
    · exact .inl hx
    · exact .inr (.inl hy)

theorem indexOf_eq_none_iff (hw : w ≠ []) : indexOf w x = none ↔ ¬ w <:+: x := by
  induction x with
  | nil => simp [indexOf, hw]
  | cons c x ih =>
    rw [indexOf, List.infix_cons_iff, not_or, ← ih, ← List.isPrefixOf_iff_prefix]
    split <;> simp_all

theorem Apart.indexOf_append (h : Apart w x y) (hx : ¬ w <:+: x) :
    indexOf w (x ++ y) = (indexOf w y).map (· + x.length) := by
  induction x with
  | nil => simp
  | cons c x ih =>
    have hnot : ¬ w.isPrefixOf (c :: (x ++ y)) = true := by
      rw [List.isPrefixOf_iff_prefix]
      rintro ⟨z, hz⟩
      rcases List.append_eq_append_iff.mp (show w ++ z = (c :: x) ++ y from hz) with
        ⟨l, hl, -⟩ | ⟨l, hl, hy⟩
      · exact hx ⟨[], l, by simp [hl]⟩
      · cases l with
        | nil => exact hx ⟨[], [], by simp [hl]⟩
        | cons d l =>
          exact h (c :: x) (d :: l) (List.cons_ne_nil c x) (List.cons_ne_nil d l) hl
            List.suffix_rfl ⟨z, hy.symm⟩
    have hrest : Apart w x y := fun l₁ l₂ hl₁ hl₂ heq htail =>
      h l₁ l₂ hl₁ hl₂ heq (htail.trans (List.suffix_cons c x))
    rw [List.cons_append, indexOf, if_neg hnot,
      ih hrest fun hin => hx (hin.trans (List.suffix_cons c x).isInfix), Option.map_map,
      List.length_cons]
    exact congrArg (Option.map · _) (funext fun n => by simp; omega)

theorem indexOf_self (hw : w ≠ []) : indexOf w (w ++ y) = some 0 := by
  obtain ⟨c, rest, rfl⟩ := List.exists_cons_of_ne_nil hw
  rw [List.cons_append, indexOf, if_pos]
  exact List.isPrefixOf_iff_prefix.mpr ⟨y, rfl⟩

theorem exists_first (h : w <:+: x) : ∃ before after, x = before ++ (w ++ after) ∧
    (w ≠ [] → ¬ w <:+: before) := by
  induction x with
  | nil =>
    obtain rfl := List.infix_nil.mp h
    exact ⟨[], [], rfl, fun hne => absurd rfl hne⟩
  | cons c x ih =>
    by_cases hfront : w <+: c :: x
    · obtain ⟨after, hafter⟩ := hfront
      exact ⟨[], after, hafter.symm, fun hne hnil => hne (List.infix_nil.mp hnil)⟩
    · obtain ⟨before, after, rfl, hbefore⟩ := ih ((List.infix_cons_iff.mp h).resolve_left hfront)
      refine ⟨c :: before, after, rfl, fun hne hin => ?_⟩
      rcases List.infix_cons_iff.mp hin with hin | hin
      · exact hfront (hin.trans ⟨w ++ after, rfl⟩)
      · exact hbefore hne hin

end

variable {p : Char → Bool} {t w x y : List Char}

def trim (p : Char → Bool) (t : List Char) : List Char := (t.dropWhile p).rdropWhile p

/-- A text that trimming leaves as it is, and that is there. -/
structure Solid (p : Char → Bool) (t : List Char) : Prop where
  head : ∃ c rest, t = c :: rest ∧ p c = false
  last : ∃ rest c, t = rest ++ [c] ∧ p c = false

theorem Solid.append (hx : Solid p x) (y : List Char) (hw : Solid p w) : Solid p (x ++ (y ++ w)) := by
  obtain ⟨⟨c, rest, rfl, hc⟩, -⟩ := hx
  obtain ⟨-, rest', d, rfl, hd⟩ := hw
  exact ⟨⟨c, _, rfl, hc⟩, c :: rest ++ (y ++ rest'), d, by simp, hd⟩

theorem Solid.dropWhile (h : Solid p w) (x y : List Char) :
    (x ++ (w ++ y)).dropWhile p = x.dropWhile p ++ (w ++ y) := by
  obtain ⟨c, rest, rfl, hc⟩ := h.head
  rw [List.dropWhile_append]
  split
  · next hempty => simp [List.isEmpty_iff.mp hempty, hc]
  · rfl

theorem Solid.rdropWhile (h : Solid p w) (x y : List Char) :
    (x ++ (w ++ y)).rdropWhile p = x ++ (w ++ y.rdropWhile p) := by
  obtain ⟨rest, c, rfl, hc⟩ := h.last
  simp only [List.rdropWhile, List.reverse_append, List.append_assoc, List.reverse_cons,
    List.singleton_append]
  rw [List.dropWhile_append]
  split
  · next hempty => simp [List.isEmpty_iff.mp hempty, hc]
  · simp

theorem Solid.trim (h : Solid p w) (x y : List Char) :
    trim p (x ++ (w ++ y)) = x.dropWhile p ++ (w ++ y.rdropWhile p) := by
  rw [Markers.trim, h.dropWhile, h.rdropWhile]

theorem exists_trim (p : Char → Bool) (t : List Char) :
    ∃ x y, t = x ++ (trim p t ++ y) ∧ (∀ c ∈ x, p c) ∧ (∀ c ∈ y, p c) ∧
      (trim p t = [] ∨ Solid p (trim p t)) := by
  refine ⟨t.takeWhile p, (t.dropWhile p).rtakeWhile p, ?_, fun c => List.mem_takeWhile_imp,
    fun c => List.mem_rtakeWhile_imp, ?_⟩
  · rw [trim, List.rdropWhile_append_rtakeWhile, List.takeWhile_append_dropWhile]
  · by_cases hnil : trim p t = []
    · exact .inl hnil
    · refine .inr ⟨?_, ?_⟩
      · obtain ⟨c, rest, hc⟩ := List.exists_cons_of_ne_nil hnil
        obtain ⟨z, hz⟩ := List.rdropWhile_prefix p (l := t.dropWhile p)
        have hhead := List.head?_dropWhile_not p t
        rw [← hz, show (t.dropWhile p).rdropWhile p = c :: rest from hc] at hhead
        exact ⟨c, rest, hc, hhead⟩
      · refine ⟨(trim p t).dropLast, (trim p t).getLast hnil, (List.dropLast_append_getLast hnil).symm, ?_⟩
        exact Bool.eq_false_iff.mpr (List.rdropWhile_last_not p _ hnil)

theorem Solid.reverse (h : Solid p w) : Solid p w.reverse := by
  obtain ⟨⟨c, rest, hw, hc⟩, rest', d, hw', hd⟩ := h
  exact ⟨⟨d, rest'.reverse, by rw [hw']; simp, hd⟩, rest.reverse, c, by rw [hw]; simp, hc⟩

theorem Solid.front_of_sublist (h : Solid p w) {x' y' : List Char} (hy' : ∀ c ∈ y', p c)
    (hsub : (x ++ (w ++ y)).Sublist (x' ++ (w ++ y'))) : x.Sublist x' := by
  obtain ⟨r₁, r₂, heq, hx, hrest⟩ := List.append_sublist_iff.mp hsub
  rcases List.append_eq_append_iff.mp heq.symm with ⟨l, rfl, -⟩ | ⟨l, rfl, hl⟩
  · exact hx.trans (List.sublist_append_left r₁ l)
  · cases l with
    | nil => simpa using hx
    | cons d l =>
      obtain ⟨c, rest, hw, hc⟩ := h.head
      have hdc : d = c := by
        rw [hw] at hl
        exact ((List.cons.inj hl).1).symm
      have hcount := hrest.countP_le (p := fun c => !p c)
      have hblank : y'.countP (fun c => !p c) = 0 := by
        refine List.countP_eq_zero.mpr fun c hc => ?_
        simp [hy' c hc]
      have hsum := congrArg (List.countP fun c => !p c) hl
      simp only [List.countP_append, List.countP_cons, hdc, hc, hblank] at hsum hcount
      simp at hsum
      omega

theorem Solid.sublist_iff (h : Solid p w) {x' y' : List Char} (hx' : ∀ c ∈ x', p c)
    (hy' : ∀ c ∈ y', p c) :
    (x ++ (w ++ y)).Sublist (x' ++ (w ++ y')) ↔ x.Sublist x' ∧ y.Sublist y' := by
  constructor
  · intro hsub
    refine ⟨h.front_of_sublist hy' hsub, List.reverse_sublist.mp ?_⟩
    have hreverse := hsub.reverse
    simp only [List.reverse_append, List.append_assoc] at hreverse
    exact h.reverse.front_of_sublist (by simpa using hx') hreverse
  · rintro ⟨hx, hy⟩
    exact hx.append ((List.Sublist.refl w).append hy)

end Portuni.Library.Markers
