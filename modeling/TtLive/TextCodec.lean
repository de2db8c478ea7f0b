import TtLive.DomCodecs
import TtLive.Int32Bits
import TtLive.Utf16
import TtLive.Utf8

/-!
# `FakeTextEncoder` and `FakeTextDecoder` as UTF-8

The encoder writes the UTF-8 encoding of every well-formed string, and the loop of the decoder reads it back, followed
by whatever comes next. The decoder runs its loop over all of the buffer behind a view.
-/

namespace TtLive.fake_dom
open Int32Bits

/-! ### Bytes of a code point -/

section
variable {n m p k : Nat}

theorem toUint8_ofNat : toUint8 (Int32.ofNat n) = UInt8.ofNat n := by
  rw [← UInt8.toNat_inj]
  simp [toUint8]

theorem fromCharCode_ofNat' : fromCharCode (Int32.ofNat n) = UInt16.ofNat n := by
  rw [← UInt16.toNat_inj]
  simp [fromCharCode]

/-- The low six bits behind a marker. -/
theorem continuation : toUint8 ((0x80 : Int32) ||| (Int32.ofNat n &&& 0x3f)) = UInt8.ofNat (n % 64 + 128) := by
  have hor : (0x80 : Int32) ||| Int32.ofNat (n % 64) = Int32.ofNat (128 + n % 64) :=
    ofNat_or (n := 2) (k := 6) (by omega) (by omega)
  rw [mask_six, hor, toUint8_ofNat, Nat.add_comm]

theorem push_two_ofNat (hn : n < 0x800) :
    push_two (Int32.ofNat n) = [UInt8.ofNat (n / 64 % 32 + 192), UInt8.ofNat (n % 64 + 128)] := by
  have hor : (0xc0 : Int32) ||| Int32.ofNat (n / 64) = Int32.ofNat (192 + n / 64) :=
    ofNat_or (n := 6) (k := 5) (by omega) (by omega)
  have hdiv : n / 64 % 32 = n / 64 := by omega
  rw [push_two, shiftRight_six (by omega), hor, continuation, toUint8_ofNat, hdiv, Nat.add_comm]

theorem push_three_ofNat (hn : n < 0x10000) :
    push_three (Int32.ofNat n) =
      [UInt8.ofNat (n / 4096 % 16 + 224), UInt8.ofNat (n / 64 % 64 + 128), UInt8.ofNat (n % 64 + 128)] := by
  have hor : (0xe0 : Int32) ||| Int32.ofNat (n / 4096) = Int32.ofNat (224 + n / 4096) :=
    ofNat_or (n := 14) (k := 4) (by omega) (by omega)
  have hdiv : n / 4096 % 16 = n / 4096 := by omega
  rw [push_three, shiftRight_twelve (by omega), hor, shiftRight_six (by omega), continuation, continuation,
    toUint8_ofNat, hdiv, Nat.add_comm 224]

theorem push_four_ofNat (hn : n < 0x110000) :
    push_four (Int32.ofNat n) = [UInt8.ofNat (n / 262144 % 8 + 240), UInt8.ofNat (n / 4096 % 64 + 128),
      UInt8.ofNat (n / 64 % 64 + 128), UInt8.ofNat (n % 64 + 128)] := by
  have hor : (0xf0 : Int32) ||| Int32.ofNat (n / 262144) = Int32.ofNat (240 + n / 262144) :=
    ofNat_or (n := 30) (k := 3) (by omega) (by omega)
  have hdiv : n / 262144 % 8 = n / 262144 := by omega
  rw [push_four, shiftRight_eighteen (by omega), hor, shiftRight_twelve (by omega), shiftRight_six (by omega),
    continuation, continuation, continuation, toUint8_ofNat, hdiv, Nat.add_comm 240]

theorem charCode_ofNat (hn : n < 0x10000) : charCode (UInt16.ofNat n) = Int32.ofNat n := by
  rw [charCode, Utf16.toNat_unit hn]

/-- What a surrogate says. -/
theorem mask_ten : Int32.ofNat n &&& 0x3ff = Int32.ofNat (n % 0x400) := ofNat_and_mask (k := 10) (by omega)

theorem from_pair_ofNat (hn : n < 0x400) (hm : m < 0x400) :
    from_pair (charCode (UInt16.ofNat (0xd800 + n))) (some (UInt16.ofNat (0xdc00 + m))) =
      Int32.ofNat (0x10000 + (n * 0x400 + m)) := by
  have hhigh : (0xd800 + n) % 0x400 = n := by omega
  have hlow : (0xdc00 + m) % 0x400 = m := by omega
  have hshift : Int32.ofNat n <<< 10 = Int32.ofNat (n * 0x400) := ofNat_shiftLeft (k := 10) (by omega)
  have hor : Int32.ofNat (n * 0x400) ||| Int32.ofNat m = Int32.ofNat (n * 0x400 + m) :=
    ofNat_or (k := 10) hm (by omega)
  rw [from_pair, Option.elim_some, charCode_ofNat (by omega), charCode_ofNat (by omega), mask_ten, mask_ten, hhigh,
    hlow, hshift, hor, Int32.ofNat_add 0x10000]
  rfl

/-! ### `encode` -/

/-- A round of the encoder. -/
theorem encode_cons (u : UInt16) (s : Units) :
    encode (u :: s) =
      if u.toNat < 0x80 then UInt8.ofNat u.toNat :: encode s
      else if u.toNat < 0x800 then push_two (charCode u) ++ encode s
      else if u.toNat < 0xd800 ∨ 0xe000 ≤ u.toNat then push_three (charCode u) ++ encode s
      else push_four (from_pair (charCode u) s[0]?) ++ encode (s.drop 1) := by
  have hu : u.toNat < 2 ^ 31 := Nat.lt_trans u.toNat_lt (by decide)
  have h₁ : charCode u < 0x80 ↔ u.toNat < 0x80 := ofNat_lt hu (m := 0x80) (by omega)
  have h₂ : charCode u < 0x800 ↔ u.toNat < 0x800 := ofNat_lt hu (m := 0x800) (by omega)
  have h₃ : charCode u < 0xd800 ↔ u.toNat < 0xd800 := ofNat_lt hu (m := 0xd800) (by omega)
  have h₄ : charCode u ≥ 0xe000 ↔ 0xe000 ≤ u.toNat := ofNat_le (n := 0xe000) (by omega) hu
  have h₅ : toUint8 (charCode u) = UInt8.ofNat u.toNat := toUint8_ofNat
  rw [encode]
  simp only [h₁, h₂, h₃, h₄, h₅]

/-- A character is written as in UTF-8. -/
theorem encode_char (c : Char) (s : Units) :
    encode (Utf16.encode_char c ++ s) = String.utf8EncodeChar c ++ encode s := by
  have hscalar := Utf16.scalar c
  by_cases hbmp : c.toNat < 0x10000
  · rw [Utf16.char_unit hbmp, List.cons_append, List.nil_append, encode_cons, Utf16.toNat_unit hbmp,
      charCode_ofNat hbmp]
    by_cases h₁ : c.toNat < 0x80
    · rw [if_pos h₁, Utf8.char_ascii h₁]
      rfl
    · by_cases h₂ : c.toNat < 0x800
      · rw [if_neg h₁, if_pos h₂, push_two_ofNat h₂, Utf8.char_two (by omega)]
      · rw [if_neg h₁, if_neg h₂, if_pos (by omega), push_three_ofNat hbmp, Utf8.char_three (by omega)]
  · have hpair : 0x10000 + ((c.toNat - 0x10000) / 0x400 * 0x400 + (c.toNat - 0x10000) % 0x400) = c.toNat := by omega
    rw [Utf16.char_pair (by omega), List.cons_append, List.cons_append, List.nil_append, encode_cons,
      Utf16.toNat_unit (by omega), if_neg (by omega), if_neg (by omega), if_neg (by omega)]
    simp only [List.getElem?_cons_zero, List.drop_succ_cons, List.drop_zero]
    rw [from_pair_ofNat (by omega) (by omega), hpair, push_four_ofNat (by omega), Utf8.char_four (by omega)]

/-- The encoder writes the UTF-8 encoding. -/
theorem encode_utf16 (t : List Char) : encode (Utf16.encode t) = Utf8.encode t := by
  induction t with
  | nil =>
    rw [Utf16.encode, List.flatMap_nil, encode]
    rfl
  | cons c t ih => rw [Utf16.encode_cons, encode_char, ih, Utf8.encode_cons]

/-! ### `decode_bytes` -/

/-- A round of the decoder. -/
theorem decode_bytes_cons (b : UInt8) (s : Bytes) :
    decode_bytes (b :: s) =
      if b.toNat < 0x80 then UInt16.ofNat b.toNat :: decode_bytes s
      else if b.toNat < 0xe0 then fromCharCode (from_two (Int32.ofNat b.toNat) s[0]?) :: decode_bytes (s.drop 1)
      else if b.toNat < 0xf0 then
        fromCharCode (from_three (Int32.ofNat b.toNat) s[0]? s[1]?) :: decode_bytes (s.drop 2)
      else to_pair (from_four (Int32.ofNat b.toNat) s[0]? s[1]? s[2]? - 0x10000) ++ decode_bytes (s.drop 3) := by
  have hb : b.toNat < 2 ^ 31 := Nat.lt_trans b.toNat_lt (by decide)
  have h₁ : Int32.ofNat b.toNat < 0x80 ↔ b.toNat < 0x80 := ofNat_lt hb (m := 0x80) (by omega)
  have h₂ : Int32.ofNat b.toNat < 0xe0 ↔ b.toNat < 0xe0 := ofNat_lt hb (m := 0xe0) (by omega)
  have h₃ : Int32.ofNat b.toNat < 0xf0 ↔ b.toNat < 0xf0 := ofNat_lt hb (m := 0xf0) (by omega)
  rw [decode_bytes]
  simp only [h₁, h₂, h₃, fromCharCode_ofNat']

theorem toNat_byte (hn : n < 256) : (UInt8.ofNat n).toNat = n := by
  rw [UInt8.toNat_ofNat', Nat.mod_eq_of_lt hn]

theorem low_bits_continuation : low_bits (some (UInt8.ofNat (n % 64 + 128))) = Int32.ofNat (n % 64) := by
  have hmod : (n % 64 + 128) % 64 = n % 64 := by omega
  rw [low_bits, Option.elim_some, toNat_byte (by omega), mask_six, hmod]

theorem from_two_ofNat (hn : n < 0x800) :
    from_two (Int32.ofNat (n / 64 % 32 + 192)) (some (UInt8.ofNat (n % 64 + 128))) = Int32.ofNat n := by
  have hmask : Int32.ofNat (n / 64 % 32 + 192) &&& 0x1f = Int32.ofNat ((n / 64 % 32 + 192) % 32) :=
    ofNat_and_mask (k := 5) (by omega)
  have hmod : (n / 64 % 32 + 192) % 32 = n / 64 := by omega
  rw [from_two, hmask, hmod, low_bits_continuation, shift_or_low (by omega)]

theorem from_three_ofNat (hn : n < 0x10000) :
    from_three (Int32.ofNat (n / 4096 % 16 + 224)) (some (UInt8.ofNat (n / 64 % 64 + 128)))
      (some (UInt8.ofNat (n % 64 + 128))) = Int32.ofNat n := by
  have hmask : Int32.ofNat (n / 4096 % 16 + 224) &&& 0x0f = Int32.ofNat ((n / 4096 % 16 + 224) % 16) :=
    ofNat_and_mask (k := 4) (by omega)
  have hmod : (n / 4096 % 16 + 224) % 16 = n / 4096 := by omega
  have h₁ : (Int32.ofNat (n / 4096) <<< 12) ||| (Int32.ofNat (n / 64 % 64) <<< 6) = Int32.ofNat (n / 64) <<< 6 :=
    shift_or (k := 6) (by omega) (by omega)
  rw [from_three, hmask, hmod, low_bits_continuation, low_bits_continuation, h₁, shift_or_low (by omega)]

theorem from_four_ofNat (hn : n < 0x110000) :
    from_four (Int32.ofNat (n / 262144 % 8 + 240)) (some (UInt8.ofNat (n / 4096 % 64 + 128)))
      (some (UInt8.ofNat (n / 64 % 64 + 128))) (some (UInt8.ofNat (n % 64 + 128))) = Int32.ofNat n := by
  have hmask : Int32.ofNat (n / 262144 % 8 + 240) &&& 0x07 = Int32.ofNat ((n / 262144 % 8 + 240) % 8) :=
    ofNat_and_mask (k := 3) (by omega)
  have hmod : (n / 262144 % 8 + 240) % 8 = n / 262144 := by omega
  have h₁ : (Int32.ofNat (n / 262144) <<< 18) ||| (Int32.ofNat (n / 4096 % 64) <<< 12) =
      Int32.ofNat (n / 4096) <<< 12 :=
    shift_or (k := 12) (by omega) (by omega)
  have h₂ : (Int32.ofNat (n / 4096) <<< 12) ||| (Int32.ofNat (n / 64 % 64) <<< 6) = Int32.ofNat (n / 64) <<< 6 :=
    shift_or (k := 6) (by omega) (by omega)
  rw [from_four, hmask, hmod, low_bits_continuation, low_bits_continuation, low_bits_continuation, h₁, h₂,
    shift_or_low (by omega)]

theorem to_pair_ofNat (hn : 0x10000 ≤ n ∧ n < 0x110000) :
    to_pair (Int32.ofNat n - 0x10000) =
      [UInt16.ofNat (0xd800 + (n - 0x10000) / 0x400), UInt16.ofNat (0xdc00 + (n - 0x10000) % 0x400)] := by
  have hsub : Int32.ofNat n - 0x10000 = Int32.ofNat (n - 0x10000) := (Int32.ofNat_sub n 0x10000 hn.1).symm
  have hshift : Int32.ofNat (n - 0x10000) >>> 10 = Int32.ofNat ((n - 0x10000) / 0x400) :=
    ofNat_shiftRight (k := 10) (by omega) (by omega)
  have hadd₁ : (0xd800 : Int32) + Int32.ofNat ((n - 0x10000) / 0x400) =
      Int32.ofNat (0xd800 + (n - 0x10000) / 0x400) := (Int32.ofNat_add _ _).symm
  have hadd₂ : (0xdc00 : Int32) + Int32.ofNat ((n - 0x10000) % 0x400) =
      Int32.ofNat (0xdc00 + (n - 0x10000) % 0x400) := (Int32.ofNat_add _ _).symm
  rw [hsub, to_pair, hshift, mask_ten, hadd₁, hadd₂, fromCharCode_ofNat', fromCharCode_ofNat']

theorem decode_two (hn : 0x80 ≤ n ∧ n < 0x800) (s : Bytes) :
    decode_bytes (UInt8.ofNat (n / 64 % 32 + 192) :: UInt8.ofNat (n % 64 + 128) :: s) =
      UInt16.ofNat n :: decode_bytes s := by
  rw [decode_bytes_cons, toNat_byte (by omega), if_neg (by omega), if_pos (by omega)]
  simp only [List.getElem?_cons_zero, List.drop_succ_cons, List.drop_zero]
  rw [from_two_ofNat hn.2, fromCharCode_ofNat']

theorem decode_three (hn : 0x800 ≤ n ∧ n < 0x10000) (s : Bytes) :
    decode_bytes (UInt8.ofNat (n / 4096 % 16 + 224) :: UInt8.ofNat (n / 64 % 64 + 128) ::
      UInt8.ofNat (n % 64 + 128) :: s) = UInt16.ofNat n :: decode_bytes s := by
  rw [decode_bytes_cons, toNat_byte (by omega), if_neg (by omega), if_neg (by omega), if_pos (by omega)]
  simp only [List.getElem?_cons_zero, List.getElem?_cons_succ, List.drop_succ_cons, List.drop_zero]
  rw [from_three_ofNat hn.2, fromCharCode_ofNat']

theorem decode_four (hn : 0x10000 ≤ n ∧ n < 0x110000) (s : Bytes) :
    decode_bytes (UInt8.ofNat (n / 262144 % 8 + 240) :: UInt8.ofNat (n / 4096 % 64 + 128) ::
      UInt8.ofNat (n / 64 % 64 + 128) :: UInt8.ofNat (n % 64 + 128) :: s) =
      UInt16.ofNat (0xd800 + (n - 0x10000) / 0x400) :: UInt16.ofNat (0xdc00 + (n - 0x10000) % 0x400) ::
        decode_bytes s := by
  rw [decode_bytes_cons, toNat_byte (by omega), if_neg (by omega), if_neg (by omega), if_neg (by omega)]
  simp only [List.getElem?_cons_zero, List.getElem?_cons_succ, List.drop_succ_cons, List.drop_zero]
  rw [from_four_ofNat hn.2, to_pair_ofNat hn]
  rfl

/-- A character is read as in UTF-8, whatever follows. -/
theorem decode_char (c : Char) (s : Bytes) :
    decode_bytes (String.utf8EncodeChar c ++ s) = Utf16.encode_char c ++ decode_bytes s := by
  have hscalar := Utf16.scalar c
  by_cases h₁ : c.toNat < 0x80
  · rw [Utf8.char_ascii h₁, Utf16.char_unit (by omega), List.cons_append, decode_bytes_cons, toNat_byte (by omega),
      if_pos h₁]
    rfl
  · by_cases h₂ : c.toNat < 0x800
    · rw [Utf8.char_two (by omega), Utf16.char_unit (by omega)]
      exact decode_two (by omega) s
    · by_cases h₃ : c.toNat < 0x10000
      · rw [Utf8.char_three (by omega), Utf16.char_unit (by omega)]
        exact decode_three (by omega) s
      · rw [Utf8.char_four (by omega), Utf16.char_pair (by omega)]
        exact decode_four (by omega) s

/-- The decoder reads the UTF-8 encoding back, and goes on. -/
theorem decode_bytes_utf8 (t : List Char) (s : Bytes) :
    decode_bytes (Utf8.encode t ++ s) = Utf16.encode t ++ decode_bytes s := by
  induction t with
  | nil => rfl
  | cons c t ih => rw [Utf8.encode_cons, List.append_assoc, decode_char, ih, Utf16.encode_cons, List.append_assoc]

end

/-! ### Views -/

theorem decode_bytes_eq_nil {s : Bytes} : decode_bytes s = [] ↔ s = [] := by
  constructor
  · intro h
    rcases s with _ | ⟨b, s⟩
    · rfl
    · rw [decode_bytes_cons] at h
      split_ifs at h
      all_goals simp [to_pair] at h
  · rintro rfl
    rw [decode_bytes]

theorem utf16_eq_nil {t : List Char} (h : Utf16.encode t = []) : t = [] := by
  rcases t with _ | ⟨c, t⟩
  · rfl
  · rw [Utf16.encode_cons, Utf16.encode_char] at h
    split at h
    all_goals simp at h

namespace Uint8Array

/-- The view is all of its buffer. -/
def Whole (v : Uint8Array) : Prop := v.byteOffset = 0 ∧ v.buffer.length = v.length

theorem buffer_eq (v : Uint8Array) :
    v.buffer = v.buffer.take v.byteOffset ++ (v.bytes ++ v.buffer.drop (v.byteOffset + v.length)) := by
  rw [bytes, ← List.drop_drop, List.take_append_drop, List.take_append_drop]

end Uint8Array

theorem decode_whole {v : Uint8Array} (hv : v.Whole) {t : List Char} (ht : v.bytes = encode (Utf16.encode t)) :
    decode (.view v) = Utf16.encode t := by
  have hbuffer : v.buffer = Utf8.encode t ++ [] := by
    rw [v.buffer_eq, ht, encode_utf16, hv.1, hv.2.symm]
    simp
  rw [decode, hbuffer, decode_bytes_utf8, decode_bytes_eq_nil.2 rfl, List.append_nil]

/-- Behind whole characters the view is not read alone, unless it is all of the buffer. -/
theorem decode_view_iff {v : Uint8Array} {p t : List Char} (hp : v.buffer.take v.byteOffset = Utf8.encode p)
    (ht : v.bytes = encode (Utf16.encode t)) : decode (.view v) = Utf16.encode t ↔ v.Whole := by
  constructor
  · intro h
    have hread : Utf16.encode p ++ (Utf16.encode t ++ decode_bytes (v.buffer.drop (v.byteOffset + v.length))) =
        Utf16.encode t := by
      rw [← decode_bytes_utf8, ← decode_bytes_utf8, ← encode_utf16 t, ← ht, ← hp, ← v.buffer_eq]
      exact h
    have hlen := congrArg List.length hread
    rw [List.length_append, List.length_append] at hlen
    have hfront : p = [] := utf16_eq_nil (List.length_eq_zero_iff.1 (by omega))
    have hback : v.buffer.drop (v.byteOffset + v.length) = [] :=
      decode_bytes_eq_nil.1 (List.length_eq_zero_iff.1 (by omega))
    have hoffset := congrArg List.length hp
    rw [hfront, List.length_take] at hoffset
    have hin := v.in_buffer
    have hdrop : v.buffer.length ≤ v.byteOffset + v.length := List.drop_eq_nil_iff.1 hback
    have hzero : (Utf8.encode []).length = 0 := rfl
    exact ⟨by omega, by omega⟩
  · exact fun hv => decode_whole hv ht

/-- A view of `t` between blanks. -/
def between_blanks (t : List Char) (offset rest : Nat) : Uint8Array where
  buffer := List.replicate offset 0x20 ++ (Utf8.encode t ++ List.replicate rest 0x20)
  byteOffset := offset
  length := (Utf8.encode t).length
  in_buffer := by simp

/-- The encoder is right. The decoder reads the bytes of a view, whatever else the buffer holds, exactly if there is
nothing else; and where whole characters stand before the view, also for each buffer. -/
theorem text_codec_iff (t : List Char) (offset rest : Nat) :
    encode (Utf16.encode t) = Utf8.encode t ∧
    ((∀ v : Uint8Array, v.bytes = encode (Utf16.encode t) → v.byteOffset = offset →
      v.buffer.length = offset + v.length + rest → decode (.view v) = Utf16.encode t) ↔ offset = 0 ∧ rest = 0) ∧
    ∀ (v : Uint8Array) (p : List Char), v.buffer.take v.byteOffset = Utf8.encode p →
      v.bytes = encode (Utf16.encode t) → (decode (.view v) = Utf16.encode t ↔ v.Whole) := by
  refine ⟨encode_utf16 t, ⟨fun hall => ?_, ?_⟩, fun v p hp ht => decode_view_iff hp ht⟩
  · have hbytes : (between_blanks t offset rest).bytes = encode (Utf16.encode t) := by
      rw [encode_utf16]
      simp [between_blanks, Uint8Array.bytes]
    have hblanks : (between_blanks t offset rest).buffer.take offset = Utf8.encode (List.replicate offset ' ') := by
      rw [Utf8.encode_ascii (by simp)]
      simp [between_blanks]
    have hread := hall (between_blanks t offset rest) hbytes rfl (by simp [between_blanks, Nat.add_assoc])
    have hwhole := (decode_view_iff hblanks hbytes).1 hread
    refine ⟨hwhole.1, ?_⟩
    have hlen := hwhole.2
    simp only [between_blanks, List.length_append, List.length_replicate] at hlen
    omega
  · rintro ⟨rfl, rfl⟩ v ht hoffset hlen
    exact decode_whole ⟨hoffset, by omega⟩ ht

/-- Characters of one to four bytes, the last of them two code units. -/
def mixed_text : List Char := ['a', 'é', '€', '😀']

def mixed_view : Uint8Array where
  buffer := [0x61, 0xc3, 0xa9, 0xe2, 0x82, 0xac, 0xf0, 0x9f, 0x98, 0x80]
  byteOffset := 0
  length := 10
  in_buffer := by decide

theorem mixed_text_read : Utf16.encode mixed_text = [0x61, 0xe9, 0x20ac, 0xd83d, 0xde00] ∧
    encode (Utf16.encode mixed_text) = mixed_view.buffer ∧ decode (.view mixed_view) = Utf16.encode mixed_text ∧
    mixed_view.Whole := by
  obtain ⟨hencode, hplace, hview⟩ := text_codec_iff mixed_text 0 0
  have hbytes : mixed_view.bytes = encode (Utf16.encode mixed_text) := by
    rw [hencode]
    decide
  have hread : decode (.view mixed_view) = Utf16.encode mixed_text := hplace.2 ⟨rfl, rfl⟩ mixed_view hbytes rfl rfl
  exact ⟨by decide, hbytes.symm, hread, (hview mixed_view [] rfl hbytes).1 hread⟩

/-- The first byte of a longer buffer. -/
def first_of_two : Uint8Array where
  buffer := [0x61, 0x62]
  byteOffset := 0
  length := 1
  in_buffer := by decide

theorem whole_buffer_read : ¬ ∀ (v : Uint8Array) (t : List Char), v.bytes = encode (Utf16.encode t) →
    decode (.view v) = Utf16.encode t := by
  intro hall
  have ha : first_of_two.bytes = encode (Utf16.encode ['a']) := encode_utf16 ['a'] ▸ rfl
  have hread : decode_bytes (Utf8.encode ['a', 'b'] ++ []) = Utf16.encode ['a', 'b'] := by
    rw [decode_bytes_utf8, decode_bytes_eq_nil.2 rfl, List.append_nil]
  exact absurd ((hall _ _ ha).symm.trans hread) (by decide)

end TtLive.fake_dom
