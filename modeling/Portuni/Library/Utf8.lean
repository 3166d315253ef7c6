import Mathlib.Data.Char
import Mathlib.Data.List.Basic

/-!
UTF-8 as text is written, and as a lossy decoder reads any bytes: a sequence that cannot go on
is replaced, and the byte that broke it starts anew.
-/

namespace Portuni.Library.Utf8

abbrev Bytes := List UInt8

def replacement : Char := '\uFFFD'

def encodeChar (c : Char) : Bytes :=
  let n := c.toNat
  if n < 0x80 then [.ofNat n]
  else if n < 0x800 then [.ofNat (0xC0 + n / 64), .ofNat (0x80 + n % 64)]
  else if n < 0x10000 then
    [.ofNat (0xE0 + n / 4096), .ofNat (0x80 + n / 64 % 64), .ofNat (0x80 + n % 64)]
  else
    [.ofNat (0xF0 + n / 262144), .ofNat (0x80 + n / 4096 % 64), .ofNat (0x80 + n / 64 % 64),
      .ofNat (0x80 + n % 64)]

def encode (text : List Char) : Bytes :=
  text.flatMap encodeChar

def Valid (bytes : Bytes) : Prop :=
  ∃ text, bytes = encode text

/-- A sequence under way: the bytes it still needs, the bits so far, and what its next byte may
be. -/
structure Pending where
  needed : ℕ
  codePoint : ℕ
  lower : ℕ := 0x80
  upper : ℕ := 0xBF
deriving DecidableEq

/-- What a byte between two sequences stands for, or the sequence that it starts. -/
def start (b : ℕ) : Char ⊕ Pending :=
  if b < 0x80 then .inl (.ofNat b)
  else if 0xC2 ≤ b ∧ b ≤ 0xDF then .inr { needed := 1, codePoint := b - 0xC0 }
  else if 0xE0 ≤ b ∧ b ≤ 0xEF then
    .inr { needed := 2, codePoint := b - 0xE0, lower := if b = 0xE0 then 0xA0 else 0x80,
           upper := if b = 0xED then 0x9F else 0xBF }
  else if 0xF0 ≤ b ∧ b ≤ 0xF4 then
    .inr { needed := 3, codePoint := b - 0xF0, lower := if b = 0xF0 then 0x90 else 0x80,
           upper := if b = 0xF4 then 0x8F else 0xBF }
  else .inl replacement

def Pending.admits (p : Pending) (b : ℕ) : Prop :=
  p.lower ≤ b ∧ b ≤ p.upper

instance (p : Pending) (b : ℕ) : Decidable (p.admits b) :=
  inferInstanceAs (Decidable (_ ∧ _))

def Pending.with (p : Pending) (b : ℕ) : ℕ :=
  p.codePoint * 64 + (b - 0x80)

def decodeFrom : Option Pending → Bytes → List Char
  | none, [] => []
  | some _, [] => [replacement]
  | none, b :: bytes =>
    match start b.toNat with
    | .inl c => c :: decodeFrom none bytes
    | .inr p => decodeFrom (some p) bytes
  | some p, b :: bytes =>
    if p.admits b.toNat then
      if p.needed = 1 then .ofNat (p.with b.toNat) :: decodeFrom none bytes
      else decodeFrom (some { needed := p.needed - 1, codePoint := p.with b.toNat }) bytes
    else
      match start b.toNat with
      | .inl c => replacement :: c :: decodeFrom none bytes
      | .inr p => replacement :: decodeFrom (some p) bytes

def decode (bytes : Bytes) : List Char :=
  decodeFrom none bytes

variable {bytes : Bytes} {p : Pending} {b n k lower upper : ℕ}

theorem toNat_ofNat_byte (hb : b < 0x100) : (UInt8.ofNat b).toNat = b := by
  rw [UInt8.toNat_ofNat']
  omega

theorem decodeFrom_single (hb : b < 0x80) :
    decodeFrom none (.ofNat b :: bytes) = .ofNat b :: decodeFrom none bytes := by
  rw [decodeFrom, toNat_ofNat_byte (by omega)]
  simp [start, hb]

theorem decodeFrom_start (hb : b < 0x100) (hstart : start b = .inr p) :
    decodeFrom none (.ofNat b :: bytes) = decodeFrom (some p) bytes := by
  rw [decodeFrom, toNat_ofNat_byte hb, hstart]

theorem decodeFrom_more (hb : b < 0x100) (hadmits : lower ≤ b ∧ b ≤ upper) :
    decodeFrom (some ⟨n + 2, k, lower, upper⟩) (.ofNat b :: bytes) =
      decodeFrom (some { needed := n + 1, codePoint := k * 64 + (b - 0x80) }) bytes := by
  have hmore : n + 2 ≠ 1 := by omega
  have hadmitted : Pending.admits ⟨n + 2, k, lower, upper⟩ b := hadmits
  rw [decodeFrom, toNat_ofNat_byte hb, if_pos hadmitted, if_neg hmore]
  rfl

theorem decodeFrom_last (hb : b < 0x100) (hadmits : lower ≤ b ∧ b ≤ upper) :
    decodeFrom (some ⟨1, k, lower, upper⟩) (.ofNat b :: bytes) =
      .ofNat (k * 64 + (b - 0x80)) :: decodeFrom none bytes := by
  have hadmitted : Pending.admits ⟨1, k, lower, upper⟩ b := hadmits
  rw [decodeFrom, toNat_ofNat_byte hb, if_pos hadmitted, if_pos rfl]
  rfl

theorem start_two : ∀ k < 32, 2 ≤ k → start (0xC0 + k) = .inr { needed := 1, codePoint := k } := by
  decide

theorem start_three : ∀ k < 16, start (0xE0 + k) =
    .inr { needed := 2, codePoint := k, lower := if k = 0 then 0xA0 else 0x80,
           upper := if k = 13 then 0x9F else 0xBF } := by
  decide

theorem start_four : ∀ k < 5, start (0xF0 + k) =
    .inr { needed := 3, codePoint := k, lower := if k = 0 then 0x90 else 0x80,
           upper := if k = 4 then 0x8F else 0xBF } := by
  decide

theorem toNat_valid (c : Char) : c.toNat < 0xD800 ∨ 0xDFFF < c.toNat ∧ c.toNat < 0x110000 := by
  have := c.valid
  simpa [UInt32.isValidChar, Nat.isValidChar] using this

theorem decodeFrom_encodeChar (c : Char) (bytes : Bytes) :
    decodeFrom none (encodeChar c ++ bytes) = c :: decodeFrom none bytes := by
  have hvalid := toNat_valid c
  have hofNat : Char.ofNat c.toNat = c := Char.ofNat_toNat c
  generalize hn : c.toNat = n at *
  simp only [encodeChar, hn]
  split
  · rename_i h1
    rw [List.singleton_append, decodeFrom_single h1, hofNat]
  · split
    · rename_i h1 h2
      have hlead : 0xC0 + n / 64 < 0x100 := by omega
      have hlast : 0x80 ≤ 0x80 + n % 64 ∧ 0x80 + n % 64 ≤ 0xBF := by omega
      have hn : n / 64 * 64 + (0x80 + n % 64 - 0x80) = n := by omega
      simp only [List.cons_append, List.nil_append]
      rw [decodeFrom_start hlead (start_two (n / 64) (by omega) (by omega)),
        decodeFrom_last (by omega) hlast, hn, hofNat]
    · have hlast : 0x80 ≤ 0x80 + n % 64 ∧ 0x80 + n % 64 ≤ 0xBF := by omega
      split
      · rename_i h1 h2 h3
        have hlead : 0xE0 + n / 4096 < 0x100 := by omega
        have hsecond : (if n / 4096 = 0 then 0xA0 else 0x80) ≤ 0x80 + n / 64 % 64 ∧
            0x80 + n / 64 % 64 ≤ if n / 4096 = 13 then 0x9F else 0xBF := by
          split <;> split <;> omega
        have hn : (n / 4096 * 64 + (0x80 + n / 64 % 64 - 0x80)) * 64 + (0x80 + n % 64 - 0x80) = n := by
          omega
        simp only [List.cons_append, List.nil_append]
        rw [decodeFrom_start hlead (start_three (n / 4096) (by omega)),
          decodeFrom_more (by omega) hsecond, decodeFrom_last (by omega) hlast, hn, hofNat]
      · rename_i h1 h2 h3
        have hlead : 0xF0 + n / 262144 < 0x100 := by omega
        have hsecond : (if n / 262144 = 0 then 0x90 else 0x80) ≤ 0x80 + n / 4096 % 64 ∧
            0x80 + n / 4096 % 64 ≤ if n / 262144 = 4 then 0x8F else 0xBF := by
          split <;> split <;> omega
        have hthird : 0x80 ≤ 0x80 + n / 64 % 64 ∧ 0x80 + n / 64 % 64 ≤ 0xBF := by omega
        have hn : ((n / 262144 * 64 + (0x80 + n / 4096 % 64 - 0x80)) * 64 +
            (0x80 + n / 64 % 64 - 0x80)) * 64 + (0x80 + n % 64 - 0x80) = n := by omega
        simp only [List.cons_append, List.nil_append]
        rw [decodeFrom_start hlead (start_four (n / 262144) (by omega)),
          decodeFrom_more (by omega) hsecond, decodeFrom_more (by omega) hthird,
          decodeFrom_last (by omega) hlast, hn, hofNat]

theorem decode_encode (text : List Char) : decode (encode text) = text := by
  unfold decode
  induction text with
  | nil => rfl
  | cons c text ih =>
    rw [encode, List.flatMap_cons, decodeFrom_encodeChar]
    exact congrArg (c :: ·) ih

theorem encode_decode_iff : encode (decode bytes) = bytes ↔ Valid bytes := by
  constructor
  · intro h
    exact ⟨decode bytes, h.symm⟩
  · rintro ⟨text, rfl⟩
    rw [decode_encode]

end Portuni.Library.Utf8
