import Mathlib.Data.UInt

/-!
# UTF-8

The encoding of a sequence of Unicode scalar values: a character below U+0080 is its byte, and no other byte
below 0x80 occurs.
-/

namespace Utf8

def encode (t : List Char) : List UInt8 := t.flatMap String.utf8EncodeChar

theorem encode_cons (c : Char) (t : List Char) : encode (c :: t) = String.utf8EncodeChar c ++ encode t :=
  List.flatMap_cons

theorem encode_append (t t' : List Char) : encode (t ++ t') = encode t ++ encode t' := List.flatMap_append

theorem char_ascii {c : Char} (h : c.toNat < 0x80) : String.utf8EncodeChar c = [UInt8.ofNat c.toNat] :=
  if_pos (Nat.le_of_lt_succ h)

theorem char_two {c : Char} (h : 0x80 ≤ c.toNat ∧ c.toNat < 0x800) :
    String.utf8EncodeChar c = [UInt8.ofNat (c.toNat / 64 % 32 + 192), UInt8.ofNat (c.toNat % 64 + 128)] := by
  have h₁ : ¬ c.val.toNat ≤ 0x7f := Nat.not_le.2 h.1
  exact (if_neg h₁).trans (if_pos (Nat.le_of_lt_succ h.2))

theorem char_three {c : Char} (h : 0x800 ≤ c.toNat ∧ c.toNat < 0x10000) :
    String.utf8EncodeChar c = [UInt8.ofNat (c.toNat / 4096 % 16 + 224), UInt8.ofNat (c.toNat / 64 % 64 + 128),
      UInt8.ofNat (c.toNat % 64 + 128)] := by
  have h₁ : ¬ c.val.toNat ≤ 0x7f := Nat.not_le.2 (Nat.lt_of_lt_of_le (by decide) h.1)
  have h₂ : ¬ c.val.toNat ≤ 0x7ff := Nat.not_le.2 h.1
  exact (if_neg h₁).trans ((if_neg h₂).trans (if_pos (Nat.le_of_lt_succ h.2)))

theorem char_four {c : Char} (h : 0x10000 ≤ c.toNat) :
    String.utf8EncodeChar c = [UInt8.ofNat (c.toNat / 262144 % 8 + 240), UInt8.ofNat (c.toNat / 4096 % 64 + 128),
      UInt8.ofNat (c.toNat / 64 % 64 + 128), UInt8.ofNat (c.toNat % 64 + 128)] := by
  have h₁ : ¬ c.val.toNat ≤ 0x7f := Nat.not_le.2 (Nat.lt_of_lt_of_le (by decide) h)
  have h₂ : ¬ c.val.toNat ≤ 0x7ff := Nat.not_le.2 (Nat.lt_of_lt_of_le (by decide) h)
  have h₃ : ¬ c.val.toNat ≤ 0xffff := Nat.not_le.2 h
  exact (if_neg h₁).trans ((if_neg h₂).trans (if_neg h₃))

theorem high_byte {n : Nat} (h : 0x80 ≤ n ∧ n < 0x100) : 0x80 ≤ UInt8.ofNat n := by
  show (0x80 : UInt8).toNat ≤ (UInt8.ofNat n).toNat
  rw [UInt8.toNat_ofNat', Nat.mod_eq_of_lt h.2]
  exact h.1

theorem char_high {c : Char} (h : 0x80 ≤ c.toNat) : ∀ b ∈ String.utf8EncodeChar c, 0x80 ≤ b := by
  by_cases h₁ : c.toNat < 0x800
  · rw [char_two ⟨h, h₁⟩]
    simp only [List.forall_mem_cons]
    exact ⟨high_byte (by omega), high_byte (by omega), nofun⟩
  · by_cases h₂ : c.toNat < 0x10000
    · rw [char_three ⟨by omega, h₂⟩]
      simp only [List.forall_mem_cons]
      exact ⟨high_byte (by omega), high_byte (by omega), high_byte (by omega), nofun⟩
    · rw [char_four (by omega)]
      simp only [List.forall_mem_cons]
      exact ⟨high_byte (by omega), high_byte (by omega), high_byte (by omega), high_byte (by omega), nofun⟩

theorem two_le_length {c : Char} (h : 0x80 ≤ c.toNat) : 2 ≤ (String.utf8EncodeChar c).length := by
  by_cases h₁ : c.toNat < 0x800
  · simp [char_two ⟨h, h₁⟩]
  · by_cases h₂ : c.toNat < 0x10000
    · simp [char_three ⟨by omega, h₂⟩]
    · simp [char_four (c := c) (by omega)]

theorem toNat_ofNat {n : Nat} (h : n.isValidChar) : (Char.ofNat n).toNat = n := by
  unfold Char.ofNat
  rw [dif_pos h]
  rfl

theorem encode_ascii {t : List Char} (h : ∀ c ∈ t, c.toNat < 0x80) :
    encode t = t.map fun c => UInt8.ofNat c.toNat := by
  induction t with
  | nil => rfl
  | cons c t ih =>
    rw [encode_cons, char_ascii (h c (by simp)), ih fun d hd => h d (List.mem_cons_of_mem _ hd)]
    rfl

end Utf8
