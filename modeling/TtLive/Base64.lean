import Mathlib.Data.List.Basic

/-!
# Base64

Three bytes, or four digits, make up a group of 24 bits. The last group may be short: its missing bytes count as 0
and its spare digits are left out.
-/

namespace Base64

def digits (v : Nat) : List (Fin 64) := [v / 262144, v / 4096, v / 64, v].map (Fin.ofNat 64)

def bytes (v : Nat) : List UInt8 := [v / 65536, v / 256, v].map UInt8.ofNat

def of_bytes (a b c : UInt8) : Nat := (a.toNat * 256 + b.toNat) * 256 + c.toNat

def of_digits (a b c d : Fin 64) : Nat := ((a * 64 + b) * 64 + c) * 64 + d

def encode : List UInt8 → List (Fin 64)
  | [] => []
  | [a] => (digits (of_bytes a 0 0)).take 2
  | [a, b] => (digits (of_bytes a b 0)).take 3
  | a :: b :: c :: s => digits (of_bytes a b c) ++ encode s

/-- The bytes that digits denote, whatever the spare bits of the last digit are. -/
def decode : List (Fin 64) → List UInt8
  | a :: b :: c :: d :: s => bytes (of_digits a b c d) ++ decode s
  | [a, b, c] => (bytes (of_digits a b c 0)).take 2
  | [a, b] => (bytes (of_digits a b 0 0)).take 1
  | [_] => []
  | [] => []

theorem of_bytes_lt (a b c : UInt8) : of_bytes a b c < 16777216 := by
  have ha := a.toNat_lt
  have hb := b.toNat_lt
  have hc := c.toNat_lt
  unfold of_bytes
  omega

theorem of_digits_lt (a b c d : Fin 64) : of_digits a b c d < 16777216 := by
  unfold of_digits
  omega

/-- The digits of a group put it together again. -/
theorem of_digits_digits {v : Nat} (hv : v < 16777216) :
    of_digits (Fin.ofNat 64 (v / 262144)) (Fin.ofNat 64 (v / 4096)) (Fin.ofNat 64 (v / 64)) (Fin.ofNat 64 v) = v := by
  simp only [of_digits, Fin.ofNat]
  omega

theorem bytes_of_bytes (a b c : UInt8) : bytes (of_bytes a b c) = [a, b, c] := by
  have ha := a.toNat_lt
  have hb := b.toNat_lt
  have hc := c.toNat_lt
  have h₀ : UInt8.ofNat (of_bytes a b c / 65536) = a := by
    rw [← UInt8.toNat_inj, UInt8.toNat_ofNat', of_bytes]
    omega
  have h₁ : UInt8.ofNat (of_bytes a b c / 256) = b := by
    rw [← UInt8.toNat_inj, UInt8.toNat_ofNat', of_bytes]
    omega
  have h₂ : UInt8.ofNat (of_bytes a b c) = c := by
    rw [← UInt8.toNat_inj, UInt8.toNat_ofNat', of_bytes]
    omega
  simp [bytes, h₀, h₁, h₂]

theorem ofNat_eq_zero {n : Nat} (h : n % 64 = 0) : Fin.ofNat 64 n = 0 := Fin.ext h

theorem decode_encode (s : List UInt8) : decode (encode s) = s := by
  fun_induction encode s with
  | case1 => rfl
  | case2 a =>
    have h₂ : Fin.ofNat 64 (of_bytes a 0 0 / 64) = 0 := ofNat_eq_zero (by simp [of_bytes]; omega)
    have h₃ : Fin.ofNat 64 (of_bytes a 0 0) = 0 := ofNat_eq_zero (by simp [of_bytes]; omega)
    have hgroup := of_digits_digits (of_bytes_lt a 0 0)
    rw [h₂, h₃] at hgroup
    simp only [digits, List.map_cons, List.map_nil, List.take_succ_cons, List.take_zero, decode, hgroup,
      bytes_of_bytes]
  | case3 a b =>
    have h₃ : Fin.ofNat 64 (of_bytes a b 0) = 0 := ofNat_eq_zero (by simp [of_bytes]; omega)
    have hgroup := of_digits_digits (of_bytes_lt a b 0)
    rw [h₃] at hgroup
    simp only [digits, List.map_cons, List.map_nil, List.take_succ_cons, List.take_zero, decode, hgroup,
      bytes_of_bytes]
  | case4 a b c s ih =>
    simp only [digits, List.map_cons, List.map_nil, List.cons_append, List.nil_append, decode,
      of_digits_digits (of_bytes_lt a b c), bytes_of_bytes, ih]

theorem length_encode (s : List UInt8) : (encode s).length = (4 * s.length + 2) / 3 := by
  fun_induction encode s with
  | case1 => rfl
  | case2 => simp [digits]
  | case3 => simp [digits]
  | case4 a b c s ih =>
    simp only [digits, List.map_cons, List.map_nil, List.length_append, List.length_cons, List.length_nil, ih]
    omega

theorem length_decode (xs : List (Fin 64)) : (decode xs).length = 3 * xs.length / 4 := by
  fun_induction decode xs with
  | case1 a b c d s ih =>
    simp only [bytes, List.map_cons, List.map_nil, List.length_append, List.length_cons, List.length_nil, ih]
    omega
  | case2 => simp [bytes]
  | case3 => simp [bytes]
  | case4 => simp
  | case5 => rfl

end Base64
