import Mathlib.Data.List.Lex

/-!
Text as UTF-16 code units. A text is told by its units, so their lexicographic order is a linear
order of texts.
-/

namespace Portuni.Library.Utf16

def charUnits (c : Char) : List ℕ :=
  if c.toNat < 0x10000 then [c.toNat]
  else [0xd800 + (c.toNat - 0x10000) / 0x400, 0xdc00 + (c.toNat - 0x10000) % 0x400]

def units (text : String) : List ℕ := text.toList.flatMap charUnits

theorem charUnits_append_inj {c d : Char} {rest rest' : List ℕ}
    (h : charUnits c ++ rest = charUnits d ++ rest') : c = d ∧ rest = rest' := by
  have hc : c.toNat < 0xd800 ∨ 0xdfff < c.toNat ∧ c.toNat < 0x110000 := c.valid
  have hd : d.toNat < 0xd800 ∨ 0xdfff < d.toNat ∧ d.toNat < 0x110000 := d.valid
  unfold charUnits at h
  split at h <;> split at h <;> simp only [List.cons_append, List.nil_append, List.cons.injEq] at h
  · exact ⟨Char.toNat_inj.mp h.1, h.2⟩
  -- no character of one unit is a surrogate
  · omega
  · omega
  · exact ⟨Char.toNat_inj.mp (by omega), h.2.2⟩

theorem charUnits_ne_nil (c : Char) : charUnits c ≠ [] := by
  unfold charUnits
  split <;> simp

theorem units_injective : Function.Injective units := by
  intro text text' h
  suffices hlists : ∀ l l' : List Char, l.flatMap charUnits = l'.flatMap charUnits → l = l' from
    String.toList_inj.mp (hlists _ _ h)
  intro l
  induction l with
  | nil =>
    intro l' heq
    cases l' with
    | nil => rfl
    | cons d l' => exact absurd (List.append_eq_nil_iff.mp heq.symm).1 (charUnits_ne_nil d)
  | cons c l ih =>
    intro l' heq
    cases l' with
    | nil => exact absurd (List.append_eq_nil_iff.mp heq).1 (charUnits_ne_nil c)
    | cons d l' =>
      obtain ⟨rfl, hrest⟩ := charUnits_append_inj heq
      rw [ih l' hrest]

end Portuni.Library.Utf16
