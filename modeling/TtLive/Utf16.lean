import Mathlib.Data.UInt

/-!
# UTF-16

A well-formed string of code units is the encoding of a sequence of Unicode scalar values.
-/

namespace Utf16

/-- The code unit of a character, or its two surrogates. -/
def encode_char (c : Char) : List UInt16 :=
  if c.toNat < 0x10000 then [UInt16.ofNat c.toNat]
  else [UInt16.ofNat (0xd800 + (c.toNat - 0x10000) / 0x400), UInt16.ofNat (0xdc00 + (c.toNat - 0x10000) % 0x400)]

def encode (t : List Char) : List UInt16 := t.flatMap encode_char

theorem encode_cons (c : Char) (t : List Char) : encode (c :: t) = encode_char c ++ encode t := List.flatMap_cons

theorem char_unit {c : Char} (h : c.toNat < 0x10000) : encode_char c = [UInt16.ofNat c.toNat] := if_pos h

theorem char_pair {c : Char} (h : 0x10000 ≤ c.toNat) :
    encode_char c = [UInt16.ofNat (0xd800 + (c.toNat - 0x10000) / 0x400),
      UInt16.ofNat (0xdc00 + (c.toNat - 0x10000) % 0x400)] :=
  if_neg (Nat.not_lt.2 h)

theorem toNat_unit {n : Nat} (h : n < 0x10000) : (UInt16.ofNat n).toNat = n := by
  rw [UInt16.toNat_ofNat', Nat.mod_eq_of_lt h]

/-- A scalar value is no surrogate. -/
theorem scalar (c : Char) : c.toNat < 0xd800 ∨ 0xe000 ≤ c.toNat ∧ c.toNat < 0x110000 := by
  have hvalid : c.toNat < 0xd800 ∨ 0xdfff < c.toNat ∧ c.toNat < 0x110000 := c.valid
  omega

end Utf16
