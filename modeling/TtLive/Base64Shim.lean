import TtLive.Base64
import TtLive.DomCodecs
import TtLive.Int32Bits

/-!
# `atob` and `btoa` as Base64

`btoa` writes the standard encoding of a byte string. `atob` reads the groups of four digits; the characters that a
short last group misses have the index -1, not the 64 that it tests for, so that it makes three characters of any
group.
-/

namespace TtLive.fake_dom
open JavaScript Int32Bits

/-- The character of a digit. -/
def digit_char (x : Fin 64) : UInt16 := base64_chars.get (x.cast (by decide))

/-- The text of digits; padding fills the last group. -/
def base64_text (xs : List (Fin 64)) (padded : Bool) : Units :=
  xs.map digit_char ++ if padded then List.replicate ((4 - xs.length % 4) % 4) 0x3d else []

/-! ### Digits -/

theorem indexOf_digit_char (x : Fin 64) :
    indexOf (base64_chars ++ units (lit "=")) (some (digit_char x)) = Int32.ofNat x := by
  revert x
  decide +kernel

theorem base64_char_ofNat (x : Fin 64) : base64_char (Int32.ofNat x) = [digit_char x] := by
  revert x
  decide +kernel

theorem digit_char_ne_pad (x : Fin 64) : digit_char x ≠ 0x3d := by
  revert x
  decide +kernel

/-! ### Groups -/

theorem fromCharCode_ofNat (n : Nat) : fromCharCode (Int32.ofNat (n % 2 ^ 8)) = (UInt8.ofNat n).toUInt16 := by
  rw [← UInt16.toNat_inj]
  simp [fromCharCode]
  omega

theorem bits_of_digits (a b c d : Fin 64) :
    (Int32.ofNat a <<< 18) ||| (Int32.ofNat b <<< 12) ||| (Int32.ofNat c <<< 6) ||| Int32.ofNat d =
      Int32.ofNat (Base64.of_digits a b c d) := by
  have h₁ : Int32.ofNat a <<< 18 = Int32.ofNat (a * 2 ^ 18) := ofNat_shiftLeft (k := 18) (by omega)
  have h₂ : Int32.ofNat b <<< 12 = Int32.ofNat (b * 2 ^ 12) := ofNat_shiftLeft (k := 12) (by omega)
  have h₃ : Int32.ofNat c <<< 6 = Int32.ofNat (c * 2 ^ 6) := ofNat_shiftLeft (k := 6) (by omega)
  have h₄ : (a * 2 ^ 18 + b * 2 ^ 12 : Nat) = (a * 64 + b) * 2 ^ 12 := by
    rw [Nat.add_mul, Nat.mul_assoc]
    rfl
  have h₅ : ((a * 64 + b) * 2 ^ 12 + c * 2 ^ 6 : Nat) = ((a * 64 + b) * 64 + c) * 2 ^ 6 := by
    rw [Nat.add_mul _ _ (2 ^ 6), Nat.mul_assoc _ 64]
    rfl
  rw [h₁, h₂, h₃, ofNat_or (by omega) (by omega), h₄, ofNat_or (by omega) (by omega), h₅,
    ofNat_or (by omega) (by omega)]
  simp only [Base64.of_digits, Nat.reducePow]

theorem bits_of_bytes (a b c : UInt8) :
    (charCode a.toUInt16 <<< 16) ||| (charCode b.toUInt16 <<< 8) ||| charCode c.toUInt16 =
      Int32.ofNat (Base64.of_bytes a b c) := by
  have ha := a.toNat_lt
  have hb := b.toNat_lt
  have hc := c.toNat_lt
  have h₁ : charCode a.toUInt16 <<< 16 = Int32.ofNat (a.toNat * 2 ^ 16) := ofNat_shiftLeft (k := 16) (by omega)
  have h₂ : charCode b.toUInt16 <<< 8 = Int32.ofNat (b.toNat * 2 ^ 8) := ofNat_shiftLeft (k := 8) (by omega)
  have h₃ : charCode c.toUInt16 = Int32.ofNat c.toNat := rfl
  have h₄ : a.toNat * 2 ^ 16 + b.toNat * 2 ^ 8 = (a.toNat * 256 + b.toNat) * 2 ^ 8 := by
    simp only [Nat.reducePow]
    omega
  rw [h₁, h₂, h₃, ofNat_or (by omega) (by omega), h₄, ofNat_or (by omega) (by omega)]
  simp only [Base64.of_bytes, Nat.reducePow]

/-- The three bytes that a round of `atob` takes out of the bits. -/
theorem bytes_of_bits {v : Nat} (hv : v < 16777216) :
    [fromCharCode ((Int32.ofNat v >>> 16) &&& 0xff), fromCharCode ((Int32.ofNat v >>> 8) &&& 0xff),
      fromCharCode (Int32.ofNat v &&& 0xff)] = (Base64.bytes v).map UInt8.toUInt16 := by
  have h₁ : Int32.ofNat v >>> 16 = Int32.ofNat (v / 2 ^ 16) := ofNat_shiftRight (k := 16) (by omega) (by omega)
  have h₂ : Int32.ofNat v >>> 8 = Int32.ofNat (v / 2 ^ 8) := ofNat_shiftRight (k := 8) (by omega) (by omega)
  have hmask : ∀ n, Int32.ofNat n &&& 0xff = Int32.ofNat (n % 2 ^ 8) := fun n => ofNat_and_mask (k := 8) (by omega)
  rw [h₁, h₂, hmask, hmask, hmask, fromCharCode_ofNat, fromCharCode_ofNat, fromCharCode_ofNat]
  rfl

/-- The digits that a round of `btoa` takes out of the bits. -/
theorem digits_of_bits {v : Nat} (hv : v < 16777216) :
    base64_char ((Int32.ofNat v >>> 18) &&& 63) = [digit_char (Fin.ofNat 64 (v / 262144))] ∧
      base64_char ((Int32.ofNat v >>> 12) &&& 63) = [digit_char (Fin.ofNat 64 (v / 4096))] ∧
      base64_char ((Int32.ofNat v >>> 6) &&& 63) = [digit_char (Fin.ofNat 64 (v / 64))] ∧
      base64_char (Int32.ofNat v &&& 63) = [digit_char (Fin.ofNat 64 v)] := by
  have hv₃₁ : v < 2 ^ 31 := by omega
  have hmask : ∀ n, base64_char (Int32.ofNat n &&& 63) = [digit_char (Fin.ofNat 64 n)] := fun n =>
    (congrArg base64_char mask_six).trans (base64_char_ofNat (Fin.ofNat 64 n))
  rw [shiftRight_eighteen hv₃₁, shiftRight_twelve hv₃₁, shiftRight_six hv₃₁, hmask, hmask, hmask, hmask]
  exact ⟨rfl, rfl, rfl, rfl⟩

theorem atob_round_digits (a b c d : Fin 64) :
    atob_round (some (digit_char a)) (some (digit_char b)) (some (digit_char c)) (some (digit_char d)) =
      (Base64.bytes (Base64.of_digits a b c d)).map UInt8.toUInt16 := by
  have hc : Int32.ofNat c ≠ 64 := by
    revert c
    decide +kernel
  have hd : Int32.ofNat d ≠ 64 := by
    revert d
    decide +kernel
  rw [← bytes_of_bits (Base64.of_digits_lt a b c d)]
  simp only [atob_round, indexOf_digit_char, bits_of_digits, if_pos hc, if_pos hd, List.cons_append, List.nil_append]

/-- A round that misses a character makes three characters. -/
theorem length_atob_round_short (c₀ c₁ c₂ : Option UInt16) (hc : c₂ = none ∨ ∃ x, c₂ = some (digit_char x)) :
    (atob_round c₀ c₁ c₂ none).length = 3 := by
  have hne : indexOf (base64_chars ++ units (lit "=")) c₂ ≠ 64 := by
    rcases hc with rfl | ⟨x, rfl⟩
    · decide
    · rw [indexOf_digit_char]
      revert x
      decide +kernel
  have hnone : indexOf (base64_chars ++ units (lit "=")) none ≠ 64 := by decide
  simp [atob_round, hne, hnone]

/-! ### `btoa` -/

theorem charCode_zero : charCode (0 : UInt8).toUInt16 = 0 := rfl

theorem btoa_round_full (a b c : UInt8) :
    btoa_round a.toUInt16 (some b.toUInt16) (some c.toUInt16) =
      (Base64.digits (Base64.of_bytes a b c)).map digit_char := by
  obtain ⟨h₁, h₂, h₃, h₄⟩ := digits_of_bits (Base64.of_bytes_lt a b c)
  simp only [btoa_round, Option.elim_some, bits_of_bytes, h₁, h₂, h₃, h₄]
  rfl

theorem btoa_round_two (a b : UInt8) :
    btoa_round a.toUInt16 (some b.toUInt16) none =
      ((Base64.digits (Base64.of_bytes a b 0)).take 3).map digit_char ++ [0x3d] := by
  obtain ⟨h₁, h₂, h₃, -⟩ := digits_of_bits (Base64.of_bytes_lt a b 0)
  have hbits := bits_of_bytes a b 0
  rw [charCode_zero] at hbits
  simp only [btoa_round, Option.elim_some, Option.elim_none, hbits, h₁, h₂, h₃]
  rfl

theorem btoa_round_one (a : UInt8) :
    btoa_round a.toUInt16 none none =
      ((Base64.digits (Base64.of_bytes a 0 0)).take 2).map digit_char ++ [0x3d, 0x3d] := by
  obtain ⟨h₁, h₂, -, -⟩ := digits_of_bits (Base64.of_bytes_lt a 0 0)
  have hbits := bits_of_bytes a 0 0
  rw [charCode_zero] at hbits
  simp only [btoa_round, Option.elim_none, hbits, h₁, h₂]
  rfl

/-- The code units of a byte string. -/
abbrev latin1 (s : List UInt8) : Units := s.map UInt8.toUInt16

/-- `btoa` writes the padded encoding of every byte string. -/
theorem btoa_latin1 (s : List UInt8) : btoa (latin1 s) = base64_text (Base64.encode s) true := by
  fun_induction Base64.encode s with
  | case1 => rfl
  | case2 a => exact btoa_round_one a
  | case3 a b => exact btoa_round_two a b
  | case4 a b c s ih =>
    have hlen : (Base64.digits (Base64.of_bytes a b c) ++ Base64.encode s).length % 4 =
        (Base64.encode s).length % 4 := by
      rw [List.length_append, Base64.digits]
      simp
    simp only [latin1, List.map_cons, btoa, btoa_round_full] at ih ⊢
    rw [ih, base64_text, base64_text, hlen, List.map_append, List.append_assoc]

/-! ### `atob` -/

theorem strip_padding (xs : List (Fin 64)) (n : Nat) :
    ((xs.map digit_char ++ List.replicate n 0x3d).reverse.dropWhile (· = 0x3d)).reverse = xs.map digit_char := by
  have hpad : ∀ c ∈ List.replicate n (0x3d : UInt16), decide (c = 0x3d) = true := by simp
  have hdigits : (xs.map digit_char).reverse.dropWhile (· = 0x3d) = (xs.map digit_char).reverse := by
    rcases xs.eq_nil_or_concat with rfl | ⟨ys, x, rfl⟩
    · rfl
    · simp [digit_char_ne_pad x]
  rw [List.reverse_append, List.reverse_replicate, List.dropWhile_append_of_pos hpad, hdigits, List.reverse_reverse]

theorem atob_text (xs : List (Fin 64)) (padded : Bool) :
    atob (base64_text xs padded) = atob_loop (xs.map digit_char) := by
  rcases padded with _ | _
  · exact congrArg atob_loop (strip_padding xs 0)
  · exact congrArg atob_loop (strip_padding xs _)

theorem length_atob_loop (xs : List (Fin 64)) : (atob_loop (xs.map digit_char)).length = 3 * ((xs.length + 3) / 4) := by
  fun_induction Base64.decode xs with
  | case1 a b c d s ih =>
    simp only [List.map_cons, atob_loop, atob_round_digits, Base64.bytes, List.length_append, List.length_map,
      List.length_cons, List.length_nil, ih]
    omega
  | case2 a b c => simpa [atob_loop] using length_atob_round_short (digit_char a) (digit_char b) _ (.inr ⟨c, rfl⟩)
  | case3 a b => simpa [atob_loop] using length_atob_round_short (digit_char a) (digit_char b) _ (.inl rfl)
  | case4 a => simpa [atob_loop] using length_atob_round_short (digit_char a) none _ (.inl rfl)
  | case5 => rfl

theorem atob_loop_whole (xs : List (Fin 64)) (h : 4 ∣ xs.length) :
    atob_loop (xs.map digit_char) = latin1 (Base64.decode xs) := by
  fun_induction Base64.decode xs with
  | case1 a b c d s ih =>
    have hs : 4 ∣ s.length := by
      simp only [List.length_cons] at h
      omega
    simp only [List.map_cons, atob_loop, atob_round_digits, ih hs, latin1, List.map_append]
  | case2 => simp at h
  | case3 => simp at h
  | case4 => simp at h
  | case5 => rfl

/-- `atob` reads a text exactly if its last group of digits is whole. -/
theorem atob_text_iff (xs : List (Fin 64)) (padded : Bool) :
    atob (base64_text xs padded) = latin1 (Base64.decode xs) ↔ 4 ∣ xs.length := by
  rw [atob_text]
  constructor
  · intro heq
    have hlen := congrArg List.length heq
    rw [length_atob_loop, List.length_map, Base64.length_decode] at hlen
    omega
  · exact atob_loop_whole xs

/-- `btoa` is right; `atob` reads it back, and any text, exactly if there is no short last group. -/
theorem base64_iff (s : List UInt8) (xs : List (Fin 64)) (padded : Bool) :
    btoa (latin1 s) = base64_text (Base64.encode s) true ∧
      (atob (btoa (latin1 s)) = latin1 s ↔ 3 ∣ s.length) ∧
      (atob (base64_text xs padded) = latin1 (Base64.decode xs) ↔ 4 ∣ xs.length) := by
  refine ⟨btoa_latin1 s, ?_, atob_text_iff xs padded⟩
  have hlen := Base64.length_encode s
  have hread := atob_text_iff (Base64.encode s) true
  rw [Base64.decode_encode] at hread
  rw [btoa_latin1, hread]
  omega

theorem whole_groups_read_back :
    atob (btoa (latin1 [0x4d, 0x61, 0x6e])) = latin1 [0x4d, 0x61, 0x6e] ∧
      atob (base64_text [19, 22, 5, 46] false) = latin1 (Base64.decode [19, 22, 5, 46]) := by
  obtain ⟨-, hbytes, htext⟩ := base64_iff [0x4d, 0x61, 0x6e] [19, 22, 5, 46] false
  exact ⟨hbytes.2 (by decide), htext.2 (by decide)⟩

theorem one_byte_lost : ¬ ∀ s : List UInt8, atob (btoa (latin1 s)) = latin1 s := by
  intro hall
  have hA : atob (btoa (latin1 [0x41])) = [0xff, 0xff, 0xff] := by decide
  exact absurd ((hall [0x41]).symm.trans hA) (by decide)

end TtLive.fake_dom
