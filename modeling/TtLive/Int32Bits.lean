import Mathlib.Data.Nat.Bitwise

/-!
# Bit operations on small integers

A shift, an "or" with lower bits and a mask of a 32-bit integer that is not negative are multiplication, addition,
division and remainder.
-/

namespace Int32Bits

variable {n m k : Nat}

theorem count_smod (hk : k < 32) : (BitVec.ofNat 32 k).smod 32 = BitVec.ofNat 32 k := by
  have hall : ∀ k < 32, (BitVec.ofNat 32 k).smod 32 = BitVec.ofNat 32 k := by decide
  exact hall k hk

theorem toNat_count (hk : k < 32) : ((BitVec.ofNat 32 k).smod 32).toNat = k := by
  rw [count_smod hk, BitVec.toNat_ofNat]
  exact Nat.mod_eq_of_lt (by omega)

theorem ofNat_lt (hn : n < 2 ^ 31) (hm : m < 2 ^ 31) : Int32.ofNat n < Int32.ofNat m ↔ n < m := by
  rw [Int32.lt_iff_toInt_lt, Int32.toInt_ofNat_of_lt hn, Int32.toInt_ofNat_of_lt hm]
  exact Int.ofNat_lt

theorem ofNat_le (hn : n < 2 ^ 31) (hm : m < 2 ^ 31) : Int32.ofNat n ≤ Int32.ofNat m ↔ n ≤ m := by
  rw [Int32.le_iff_toInt_le, Int32.toInt_ofNat_of_lt hn, Int32.toInt_ofNat_of_lt hm]
  exact Int.ofNat_le

theorem ofNat_shiftLeft (hk : k < 32) : Int32.ofNat n <<< Int32.ofNat k = Int32.ofNat (n * 2 ^ k) := by
  rw [← Int32.toBitVec_inj, Int32.toBitVec_shiftLeft, Int32.toBitVec_ofNat', Int32.toBitVec_ofNat',
    Int32.toBitVec_ofNat', BitVec.shiftLeft_eq', toNat_count hk]
  apply BitVec.eq_of_toNat_eq
  simp [Nat.shiftLeft_eq]

theorem ofNat_or (hm : m < 2 ^ k) (hn : n * 2 ^ k + m < 2 ^ 32) :
    Int32.ofNat (n * 2 ^ k) ||| Int32.ofNat m = Int32.ofNat (n * 2 ^ k + m) := by
  rw [← Int32.toBitVec_inj, Int32.toBitVec_or, Int32.toBitVec_ofNat', Int32.toBitVec_ofNat', Int32.toBitVec_ofNat']
  apply BitVec.eq_of_toNat_eq
  have h₁ : n * 2 ^ k % 2 ^ 32 = n * 2 ^ k := Nat.mod_eq_of_lt (by omega)
  have h₂ : m % 2 ^ 32 = m := Nat.mod_eq_of_lt (by omega)
  rw [BitVec.toNat_or, BitVec.toNat_ofNat, BitVec.toNat_ofNat, BitVec.toNat_ofNat, h₁, h₂, Nat.mod_eq_of_lt hn,
    Nat.mul_comm, Nat.two_pow_add_eq_or_of_lt hm]

theorem ofNat_shiftRight (hk : k < 32) (hn : n < 2 ^ 31) :
    Int32.ofNat n >>> Int32.ofNat k = Int32.ofNat (n / 2 ^ k) := by
  have hmod : n % 2 ^ 32 = n := Nat.mod_eq_of_lt (by omega)
  have hmsb : (BitVec.ofNat 32 n).msb = false := by
    rw [BitVec.msb_eq_false_iff_two_mul_lt, BitVec.toNat_ofNat, hmod]
    omega
  have hle : n / 2 ^ k ≤ n := Nat.div_le_self _ _
  rw [← Int32.toBitVec_inj, Int32.toBitVec_shiftRight, Int32.toBitVec_ofNat', Int32.toBitVec_ofNat',
    Int32.toBitVec_ofNat', BitVec.sshiftRight', toNat_count hk]
  apply BitVec.eq_of_toNat_eq
  rw [BitVec.toNat_sshiftRight_of_msb_false hmsb, BitVec.toNat_ofNat, BitVec.toNat_ofNat, hmod,
    Nat.shiftRight_eq_div_pow, Nat.mod_eq_of_lt (by omega)]

theorem ofNat_and_mask (hk : k ≤ 32) : Int32.ofNat n &&& Int32.ofNat (2 ^ k - 1) = Int32.ofNat (n % 2 ^ k) := by
  have hpow : 2 ^ k ≤ 2 ^ 32 := Nat.pow_le_pow_right (by decide) hk
  rw [← Int32.toBitVec_inj, Int32.toBitVec_and, Int32.toBitVec_ofNat', Int32.toBitVec_ofNat', Int32.toBitVec_ofNat']
  apply BitVec.eq_of_toNat_eq
  have hmask : (2 ^ k - 1) % 2 ^ 32 = 2 ^ k - 1 := Nat.mod_eq_of_lt (by omega)
  have hrem : n % 2 ^ k < 2 ^ 32 := Nat.lt_of_lt_of_le (Nat.mod_lt _ (Nat.two_pow_pos k)) hpow
  rw [BitVec.toNat_and, BitVec.toNat_ofNat, BitVec.toNat_ofNat, BitVec.toNat_ofNat, hmask,
    Nat.and_two_pow_sub_one_eq_mod, Nat.mod_mod_of_dvd _ (Nat.pow_dvd_pow 2 hk), Nat.mod_eq_of_lt hrem]

/-! ### Groups of six bits -/

theorem shiftRight_six (hn : n < 2 ^ 31) : Int32.ofNat n >>> 6 = Int32.ofNat (n / 64) :=
  ofNat_shiftRight (k := 6) (by omega) hn

theorem shiftRight_twelve (hn : n < 2 ^ 31) : Int32.ofNat n >>> 12 = Int32.ofNat (n / 4096) :=
  ofNat_shiftRight (k := 12) (by omega) hn

theorem shiftRight_eighteen (hn : n < 2 ^ 31) : Int32.ofNat n >>> 18 = Int32.ofNat (n / 262144) :=
  ofNat_shiftRight (k := 18) (by omega) hn

theorem mask_six : Int32.ofNat n &&& 0x3f = Int32.ofNat (n % 64) := ofNat_and_mask (k := 6) (by omega)

/-- Six more bits behind the upper ones. -/
theorem shift_or (hk : k + 6 < 32) (hn : n < 2 ^ 31) :
    (Int32.ofNat (n / 2 ^ (k + 6)) <<< Int32.ofNat (k + 6)) ||| (Int32.ofNat (n / 2 ^ k % 64) <<< Int32.ofNat k) =
      Int32.ofNat (n / 2 ^ k) <<< Int32.ofNat k := by
  have hpow : 2 ^ (k + 6) = 64 * 2 ^ k := by rw [Nat.pow_add, Nat.mul_comm]
  have hdiv : n / 2 ^ (k + 6) = n / 2 ^ k / 64 := by rw [hpow, Nat.mul_comm, Nat.div_div_eq_div_mul]
  have hsum : n / 2 ^ (k + 6) * 2 ^ (k + 6) + n / 2 ^ k % 64 * 2 ^ k = n / 2 ^ k * 2 ^ k := by
    rw [hdiv, hpow, ← Nat.mul_assoc, ← Nat.add_mul, Nat.div_add_mod']
  have hlow : n / 2 ^ k % 64 * 2 ^ k < 2 ^ (k + 6) := by
    rw [hpow]
    exact Nat.mul_lt_mul_of_pos_right (Nat.mod_lt _ (by decide)) (Nat.two_pow_pos k)
  have hle : n / 2 ^ k * 2 ^ k ≤ n := Nat.div_mul_le_self n _
  rw [ofNat_shiftLeft hk, ofNat_shiftLeft (by omega), ofNat_shiftLeft (by omega), ofNat_or hlow (by omega), hsum]

theorem shift_or_low (hn : n < 2 ^ 31) : (Int32.ofNat (n / 64) <<< 6) ||| Int32.ofNat (n % 64) = Int32.ofNat n := by
  have hshift : Int32.ofNat (n / 64) <<< 6 = Int32.ofNat (n / 64 * 64) := ofNat_shiftLeft (k := 6) (by omega)
  have hor : Int32.ofNat (n / 64 * 64) ||| Int32.ofNat (n % 64) = Int32.ofNat (n / 64 * 64 + n % 64) :=
    ofNat_or (k := 6) (by omega) (by omega)
  rw [hshift, hor, Nat.div_add_mod']

end Int32Bits
