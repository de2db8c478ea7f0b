import TtLive.Json
import TtLive.Utf8

/-!
# The strings of JSON

`decode` is the UTF-8 of what a string stands for, and `Escapes` says that a string is one of the ways to write a
sequence of characters: `decode` gives that sequence back (`Escapes.decode_eq`).
-/

namespace Json

def hex_value (c : UInt8) : Nat :=
  if c ≤ 0x39 then c.toNat - 0x30 else if c ≤ 0x46 then c.toNat - 0x37 else c.toNat - 0x57

/-- The code unit of `\uabcd`. -/
def code_unit (a b c d : UInt8) : Nat := 16 * (16 * (16 * hex_value a + hex_value b) + hex_value c) + hex_value d

/-- The character of a short escape. -/
def short_char (c : UInt8) : UInt8 :=
  if c = 0x62 then 0x08 else if c = 0x66 then 0x0c else if c = 0x6e then 0x0a else if c = 0x72 then 0x0d
  else if c = 0x74 then 0x09 else c

def High (n : Nat) : Prop := 0xd800 ≤ n ∧ n ≤ 0xdbff

instance (n : Nat) : Decidable (High n) := inferInstanceAs (Decidable (_ ∧ _))

def Low (n : Nat) : Prop := 0xdc00 ≤ n ∧ n ≤ 0xdfff

instance (n : Nat) : Decidable (Low n) := inferInstanceAs (Decidable (_ ∧ _))

def pair_char (high low : Nat) : Char := Char.ofNat (0x10000 + (high - 0xd800) * 0x400 + (low - 0xdc00))

/-- The character of a code unit, U+FFFD for a surrogate without its other half. -/
def unit_char (n : Nat) : Char := if High n ∨ Low n then Char.ofNat 0xfffd else Char.ofNat n

/-- The UTF-8 of what the string stands for. -/
def decode : List Piece → Text
  | [] => []
  | .plain c _ :: ps => c :: decode ps
  | .short c _ :: ps => short_char c :: decode ps
  | .unicode a b c d _ :: .unicode a' b' c' d' h' :: ps =>
    if High (code_unit a b c d) ∧ Low (code_unit a' b' c' d') then
      String.utf8EncodeChar (pair_char (code_unit a b c d) (code_unit a' b' c' d')) ++ decode ps
    else
      String.utf8EncodeChar (unit_char (code_unit a b c d)) ++ decode (.unicode a' b' c' d' h' :: ps)
  | .unicode a b c d _ :: ps => String.utf8EncodeChar (unit_char (code_unit a b c d)) ++ decode ps

/-! ### Code units -/

theorem code_unit_lt {a b c d : UInt8} (h : Hex a ∧ Hex b ∧ Hex c ∧ Hex d) : code_unit a b c d < 0x10000 := by
  have hall : ∀ n < 256, Hex (UInt8.ofNat n) → hex_value (UInt8.ofNat n) < 16 := by decide +kernel
  have hlt : ∀ {c : UInt8}, Hex c → hex_value c < 16 := fun {c} hc => by
    have hc' := hall c.toNat c.toNat_lt
    rw [UInt8.ofNat_toNat] at hc'
    exact hc' hc
  have ha := hlt h.1
  have hb := hlt h.2.1
  have hc := hlt h.2.2.1
  have hd := hlt h.2.2.2
  unfold code_unit
  omega

theorem two_le_unit {n : Nat} (h : 0x80 ≤ n ∧ n < 0x10000) : 2 ≤ (String.utf8EncodeChar (unit_char n)).length := by
  refine Utf8.two_le_length ?_
  unfold unit_char
  by_cases hs : High n ∨ Low n
  · rw [if_pos hs]
    decide
  · have hvalid : n.isValidChar := by
      unfold High Low at hs
      unfold Nat.isValidChar
      omega
    rw [if_neg hs, Utf8.toNat_ofNat hvalid]
    exact h.1

theorem pair_char_toNat {m n : Nat} (hm : High m) (hn : Low n) :
    (pair_char m n).toNat = 0x10000 + (m - 0xd800) * 0x400 + (n - 0xdc00) := by
  refine Utf8.toNat_ofNat ?_
  unfold High Low at *
  unfold Nat.isValidChar
  omega

theorem unit_ascii {n : Nat} (h : n < 0x80) : String.utf8EncodeChar (unit_char n) = [UInt8.ofNat n] := by
  have hs : ¬ (High n ∨ Low n) := by
    unfold High Low
    omega
  have hn : (Char.ofNat n).toNat = n := Utf8.toNat_ofNat (.inl (by omega))
  rw [unit_char, if_neg hs, Utf8.char_ascii (by omega), hn]

/-! ### The ways to write a sequence of characters -/

/-- A character as itself, as a short escape, as its code unit or as its two surrogates. -/
inductive CharEscape (c : Char) : List Piece → Prop
  | raw (ps : List Piece) (hplain : ∀ p ∈ ps, ∃ b h, p = .plain b h) (htext : body ps = String.utf8EncodeChar c) :
    CharEscape c ps
  | short (x : UInt8) (h : x ∈ [0x22, 0x5c, 0x2f, 0x62, 0x66, 0x6e, 0x72, 0x74]) (hc : c.toNat = (short_char x).toNat) :
    CharEscape c [.short x h]
  | unit (x y z w : UInt8) (h : Hex x ∧ Hex y ∧ Hex z ∧ Hex w) (hc : c.toNat = code_unit x y z w) :
    CharEscape c [.unicode x y z w h]
  | pair (x y z w x' y' z' w' : UInt8) (h : Hex x ∧ Hex y ∧ Hex z ∧ Hex w) (h' : Hex x' ∧ Hex y' ∧ Hex z' ∧ Hex w')
    (hhigh : High (code_unit x y z w)) (hlow : Low (code_unit x' y' z' w'))
    (hc : c.toNat = 0x10000 + (code_unit x y z w - 0xd800) * 0x400 + (code_unit x' y' z' w' - 0xdc00)) :
    CharEscape c [.unicode x y z w h, .unicode x' y' z' w' h']

inductive Escapes : List Char → List Piece → Prop
  | nil : Escapes [] []
  | cons {c : Char} {ps : List Piece} {t : List Char} {qs : List Piece} (h : CharEscape c ps) (ht : Escapes t qs) :
    Escapes (c :: t) (ps ++ qs)

theorem decode_plain {ps : List Piece} (h : ∀ p ∈ ps, ∃ b h, p = .plain b h) (qs : List Piece) :
    decode (ps ++ qs) = body ps ++ decode qs := by
  induction ps with
  | nil => rfl
  | cons p ps ih =>
    rw [List.forall_mem_cons] at h
    obtain ⟨⟨b, hb, rfl⟩, hps⟩ := h
    rw [List.cons_append, decode, ih hps, body_cons]
    rfl

theorem short_char_lt {x : UInt8} (h : x ∈ [0x22, 0x5c, 0x2f, 0x62, 0x66, 0x6e, 0x72, 0x74]) :
    (short_char x).toNat < 0x80 := by
  simp only [List.mem_cons, List.not_mem_nil, or_false] at h
  rcases h with rfl | rfl | rfl | rfl | rfl | rfl | rfl | rfl <;> decide

/-- A scalar value is no surrogate. -/
theorem scalar (c : Char) : ¬ (High c.toNat ∨ Low c.toNat) := by
  have hvalid : c.toNat < 0xd800 ∨ 0xdfff < c.toNat ∧ c.toNat < 0x110000 := c.valid
  unfold High Low
  omega

/-- A code unit that is not the first half of a pair stands for a character of its own. -/
theorem decode_unit {x y z w : UInt8} (h : Hex x ∧ Hex y ∧ Hex z ∧ Hex w) {qs : List Piece}
    (hqs : ∀ x' y' z' w' h' rs, qs = .unicode x' y' z' w' h' :: rs →
      ¬ (High (code_unit x y z w) ∧ Low (code_unit x' y' z' w'))) :
    decode (.unicode x y z w h :: qs) = String.utf8EncodeChar (unit_char (code_unit x y z w)) ++ decode qs := by
  cases qs with
  | nil => rfl
  | cons q qs =>
    cases q with
    | plain b hb => rfl
    | short b hb => rfl
    | unicode x' y' z' w' h' => rw [decode, if_neg (hqs x' y' z' w' h' qs rfl)]

theorem CharEscape.decode_append {c : Char} {ps : List Piece} (h : CharEscape c ps) (qs : List Piece) :
    decode (ps ++ qs) = String.utf8EncodeChar c ++ decode qs := by
  cases h with
  | raw _ hplain htext => rw [decode_plain hplain, htext]
  | short x h hc =>
    have hchar : String.utf8EncodeChar c = [short_char x] := by
      rw [Utf8.char_ascii (hc ▸ short_char_lt h), hc, UInt8.ofNat_toNat]
    rw [List.cons_append, decode, hchar]
    rfl
  | unit x y z w h hc =>
    have hc' := scalar c
    rw [hc] at hc'
    have hchar : unit_char (code_unit x y z w) = c := by
      rw [unit_char, if_neg hc', ← hc, Char.ofNat_toNat]
    rw [List.cons_append, decode_unit h fun _ _ _ _ _ _ _ hpair => hc' (.inl hpair.1), hchar]
    rfl
  | pair x y z w x' y' z' w' h h' hhigh hlow hc =>
    have hchar : pair_char (code_unit x y z w) (code_unit x' y' z' w') = c := by
      rw [pair_char, ← hc, Char.ofNat_toNat]
    rw [List.cons_append, List.cons_append, decode, if_pos ⟨hhigh, hlow⟩, hchar]
    rfl

/-- A short escape ends what comes before it. -/
theorem decode_short_append {c : UInt8} (h : c ∈ [0x22, 0x5c, 0x2f, 0x62, 0x66, 0x6e, 0x72, 0x74]) (qs : List Piece)
    (ps : List Piece) : decode (ps ++ .short c h :: qs) = decode ps ++ short_char c :: decode qs := by
  fun_induction decode ps with
  | case1 => rfl
  | case2 d hd ps ih => exact congrArg (d :: ·) ih
  | case3 d hd ps ih => exact congrArg (short_char d :: ·) ih
  | case4 x y z w hx x' y' z' w' hx' ps hpair ih =>
    rw [List.cons_append, List.cons_append, decode, if_pos hpair, ih, List.append_assoc]
  | case5 x y z w hx x' y' z' w' hx' ps hpair ih =>
    rw [List.cons_append, List.cons_append, decode, if_neg hpair, ← List.cons_append, ih, List.append_assoc]
  | case6 x y z w hx ps hne ih =>
    rw [List.cons_append, decode_unit, ih, List.append_assoc]
    intro x' y' z' w' hx' rs heq
    cases ps with
    | nil => cases heq
    | cons p ps => exact absurd (congrArg (· :: ps) (List.cons.inj heq).1) (hne x' y' z' w' hx' ps)

/-- Whatever way a sequence of characters is written, the string stands for it. -/
theorem Escapes.decode_eq {t : List Char} {ps : List Piece} (h : Escapes t ps) : decode ps = Utf8.encode t := by
  induction h with
  | nil => rfl
  | cons h ht ih => rw [h.decode_append, ih, Utf8.encode_cons]

end Json
