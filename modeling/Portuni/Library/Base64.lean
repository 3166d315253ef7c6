import Mathlib.Data.List.Basic

/-! Base64 with padding, and that decoding gives back the bytes that were encoded. -/

namespace Portuni.Library.Base64

abbrev Bytes := List UInt8

def digit (n : ℕ) : Char :=
  if n < 26 then .ofNat (n + 65)
  else if n < 52 then .ofNat (n + 71)
  else if n < 62 then .ofNat (n - 4)
  else if n = 62 then '+'
  else '/'

def digitValue (c : Char) : Option ℕ :=
  if 'A' ≤ c ∧ c ≤ 'Z' then some (c.toNat - 65)
  else if 'a' ≤ c ∧ c ≤ 'z' then some (c.toNat - 71)
  else if '0' ≤ c ∧ c ≤ '9' then some (c.toNat + 4)
  else if c = '+' then some 62
  else if c = '/' then some 63
  else none

def encode : Bytes → List Char
  | [] => []
  | [a] => [digit (a.toNat / 4), digit (a.toNat % 4 * 16), '=', '=']
  | [a, b] =>
    [digit (a.toNat / 4), digit (a.toNat % 4 * 16 + b.toNat / 16), digit (b.toNat % 16 * 4), '=']
  | a :: b :: c :: bytes =>
    digit (a.toNat / 4) :: digit (a.toNat % 4 * 16 + b.toNat / 16) ::
      digit (b.toNat % 16 * 4 + c.toNat / 64) :: digit (c.toNat % 64) :: encode bytes

def decode : List Char → Option Bytes
  | [] => some []
  | w :: x :: y :: z :: text =>
    if z = '=' then
      match text, digitValue w, digitValue x with
      | [], some w, some x =>
        if y = '=' then some [.ofNat (w * 4 + x / 16)]
        else
          (digitValue y).map fun y => [.ofNat (w * 4 + x / 16), .ofNat (x % 16 * 16 + y / 4)]
      | _, _, _ => none
    else
      match digitValue w, digitValue x, digitValue y, digitValue z, decode text with
      | some w, some x, some y, some z, some bytes =>
        some (.ofNat (w * 4 + x / 16) :: .ofNat (x % 16 * 16 + y / 4) ::
          .ofNat (y % 4 * 64 + z) :: bytes)
      | _, _, _, _, _ => none
  | _ => none

theorem digitValue_digit : ∀ n < 64, digitValue (digit n) = some n := by
  decide

theorem digit_ne_padding : ∀ n < 64, digit n ≠ '=' := by
  decide

theorem ofNat_eq {a : UInt8} {n : ℕ} (h : n = a.toNat) : UInt8.ofNat n = a := by
  rw [h, UInt8.ofNat_toNat]

theorem decode_encode (bytes : Bytes) : decode (encode bytes) = some bytes := by
  induction bytes using encode.induct with
  | case1 => rfl
  | case2 a =>
    have ha := a.toNat_lt
    have hfirst := digitValue_digit (a.toNat / 4) (by omega)
    have hsecond := digitValue_digit (a.toNat % 4 * 16) (by omega)
    simp only [encode, decode, if_true, hfirst, hsecond]
    rw [ofNat_eq (show a.toNat / 4 * 4 + a.toNat % 4 * 16 / 16 = a.toNat by omega)]
  | case3 a b =>
    have ha := a.toNat_lt
    have hb := b.toNat_lt
    have hfirst := digitValue_digit (a.toNat / 4) (by omega)
    have hsecond := digitValue_digit (a.toNat % 4 * 16 + b.toNat / 16) (by omega)
    have hthird := digitValue_digit (b.toNat % 16 * 4) (by omega)
    have hpadding := digit_ne_padding (b.toNat % 16 * 4) (by omega)
    simp only [encode, decode, if_true, hfirst, hsecond, hthird, if_neg hpadding, Option.map_some]
    rw [ofNat_eq (a := a) (by omega), ofNat_eq (a := b) (by omega)]
  | case4 a b c bytes ih =>
    have ha := a.toNat_lt
    have hb := b.toNat_lt
    have hc := c.toNat_lt
    have hfirst := digitValue_digit (a.toNat / 4) (by omega)
    have hsecond := digitValue_digit (a.toNat % 4 * 16 + b.toNat / 16) (by omega)
    have hthird := digitValue_digit (b.toNat % 16 * 4 + c.toNat / 64) (by omega)
    have hfourth := digitValue_digit (c.toNat % 64) (by omega)
    have hpadding := digit_ne_padding (c.toNat % 64) (by omega)
    simp only [encode, decode, if_neg hpadding, hfirst, hsecond, hthird, hfourth, ih]
    rw [ofNat_eq (a := a) (by omega), ofNat_eq (a := b) (by omega), ofNat_eq (a := c) (by omega)]

end Portuni.Library.Base64
