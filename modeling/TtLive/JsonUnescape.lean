import TtLive.DocFields

/-!
# `json_unescape` and the escapes of JSON

Of a string body `json_unescape` gives the bytes of its pieces one by one (`json_unescape_body`): a `\b` or `\f`
becomes its letter, and a `\uXXXX` of 0x80 or more is dropped. `json_unescape_exact_iff` says that it gives back the
characters that were escaped exactly if there are no such escapes.
-/

namespace TtLive
open Json

/-! ### What `json_unescape` gives -/

/-- A hexadecimal digit is neither white space nor a sign nor the `x` of a prefix. -/
theorem hex_cases {c : UInt8} (h : Hex c) : hex_digit_value c = some (hex_value c) ∧
    ¬ (c = 0x20 ∨ 0x09 ≤ c ∧ c ≤ 0x0d) ∧ c ≠ 0x2d ∧ c ≠ 0x2b ∧ c ≠ 0x78 ∧ c ≠ 0x58 := by
  have hall : ∀ n < 256, Hex (UInt8.ofNat n) →
      hex_digit_value (UInt8.ofNat n) = some (hex_value (UInt8.ofNat n)) ∧
        ¬ (UInt8.ofNat n = 0x20 ∨ 0x09 ≤ UInt8.ofNat n ∧ UInt8.ofNat n ≤ 0x0d) ∧
        UInt8.ofNat n ≠ 0x2d ∧ UInt8.ofNat n ≠ 0x2b ∧ UInt8.ofNat n ≠ 0x78 ∧ UInt8.ofNat n ≠ 0x58 := by
    decide +kernel
  have hc := hall c.toNat c.toNat_lt
  rw [UInt8.ofNat_toNat] at hc
  exact hc h

theorem stoi_hex_code_unit {a b c d : UInt8} (h : Hex a ∧ Hex b ∧ Hex c ∧ Hex d) :
    stoi_hex [a, b, c, d] = .ok (code_unit a b c d : Int) := by
  obtain ⟨ha, hb, hc, hd⟩ := h
  have hdrop : [a, b, c, d].dropWhile (fun c => c = 0x20 ∨ 0x09 ≤ c ∧ c ≤ 0x0d) = [a, b, c, d] :=
    List.dropWhile_cons_of_neg (by simpa using (hex_cases ha).2.1)
  have hdigits : leading_hex [a, b, c, d] = [hex_value a, hex_value b, hex_value c, hex_value d] := by
    simp [leading_hex, (hex_cases ha).1, (hex_cases hb).1, (hex_cases hc).1, (hex_cases hd).1]
  unfold stoi_hex
  rw [hdrop]
  simp [(hex_cases ha).2.2, (hex_cases hb).2.2, hdigits, code_unit]

/-- The bytes that are left of a piece. -/
def unescaped : Piece → Bytes
  | .plain c _ => [c]
  | .short c _ => [short_escape c]
  | .unicode a b c d _ => if code_unit a b c d < 0x80 then [UInt8.ofNat (code_unit a b c d)] else []

theorem json_unescape_plain {c : UInt8} (h : c ≠ 0x5c) (s : Bytes) :
    json_unescape (c :: s) = (c :: ·) <$> json_unescape s := by
  rw [json_unescape]
  · cases json_unescape s <;> rfl
  · exact fun _ _ _ _ _ heq _ => h heq
  · exact fun _ _ heq _ => h heq

theorem json_unescape_short {c : UInt8} (h : c ≠ 0x75) (s : Bytes) :
    json_unescape (0x5c :: c :: s) = (short_escape c :: ·) <$> json_unescape s := by
  rw [json_unescape]
  · cases json_unescape s <;> rfl
  · exact fun _ _ _ _ _ heq _ => h heq

theorem ofInt_natCast {n : Nat} (h : n < 0x80) : UInt8.ofInt (n : Int) = UInt8.ofNat n := by
  unfold UInt8.ofInt
  rw [Int.emod_eq_of_lt (by omega) (by omega), Int.toNat_natCast]

theorem json_unescape_unicode {a b c d : UInt8} (h : Hex a ∧ Hex b ∧ Hex c ∧ Hex d) (s : Bytes) :
    json_unescape (0x5c :: 0x75 :: a :: b :: c :: d :: s) =
      (unescaped (.unicode a b c d h) ++ ·) <$> json_unescape s := by
  rw [json_unescape, stoi_hex_code_unit h, unescaped]
  show (json_unescape s >>= fun rest => .ok _) = _
  by_cases hlt : code_unit a b c d < 0x80
  · have hint : (code_unit a b c d : Int) < 0x80 := by omega
    rw [if_pos hlt]
    cases json_unescape s with
    | error e => rfl
    | ok rest => exact congrArg Except.ok ((if_pos hint).trans (congrArg (· :: rest) (ofInt_natCast hlt)))
  · have hint : ¬ (code_unit a b c d : Int) < 0x80 := by omega
    rw [if_neg hlt]
    cases json_unescape s with
    | error e => rfl
    | ok rest => exact congrArg Except.ok (if_neg hint)

theorem json_unescape_piece (p : Piece) (s : Bytes) :
    json_unescape (p.text ++ s) = (unescaped p ++ ·) <$> json_unescape s := by
  cases p with
  | plain c h => exact json_unescape_plain h.2.2 s
  | short c h =>
    have hc : c ≠ 0x75 := by
      rintro rfl
      exact absurd h (by decide)
    exact json_unescape_short hc s
  | unicode a b c d h => exact json_unescape_unicode h s

/-- A string body never throws, and neither does one with something behind it that does not. -/
theorem json_unescape_body {s t : Bytes} (hs : json_unescape s = .ok t) (ps : List Piece) :
    json_unescape (body ps ++ s) = .ok (ps.flatMap unescaped ++ t) := by
  induction ps with
  | nil => exact hs
  | cons p ps ih =>
    rw [body_cons, List.append_assoc, json_unescape_piece, ih, List.flatMap_cons, List.append_assoc]
    rfl

/-! ### What the string stands for -/

/-- An escape that is decoded as it should be. -/
def HandledEscape : Piece → Prop
  | .plain _ _ => True
  | .short c _ => c ≠ 0x62 ∧ c ≠ 0x66
  | .unicode a b c d _ => code_unit a b c d < 0x80

instance : DecidablePred HandledEscape
  | .plain _ _ => isTrue trivial
  | .short c _ => inferInstanceAs (Decidable (c ≠ 0x62 ∧ c ≠ 0x66))
  | .unicode a b c d _ => inferInstanceAs (Decidable (code_unit a b c d < 0x80))

theorem short_escape_eq_iff {c : UInt8} (h : c ∈ [0x22, 0x5c, 0x2f, 0x62, 0x66, 0x6e, 0x72, 0x74]) :
    short_escape c = short_char c ↔ c ≠ 0x62 ∧ c ≠ 0x66 := by
  simp only [List.mem_cons, List.not_mem_nil, or_false] at h
  rcases h with rfl | rfl | rfl | rfl | rfl | rfl | rfl | rfl <;> decide

/-- Two strings in two parts, none of the first longer than its counterpart. -/
theorem append_eq_iff {x y u v : Bytes} (hxy : x.length ≤ y.length) (huv : u.length ≤ v.length) :
    (x ++ u).length ≤ (y ++ v).length ∧ (x ++ u = y ++ v ↔ x = y ∧ u = v) := by
  rw [List.length_append, List.length_append]
  refine ⟨by omega, fun h => ?_, fun h => by rw [h.1, h.2]⟩
  have hlen := congrArg List.length h
  rw [List.length_append, List.length_append] at hlen
  exact List.append_inj h (by omega)

/-- What is left of one code unit, beside its character. -/
theorem unescaped_unit {a b c d : UInt8} (h : Hex a ∧ Hex b ∧ Hex c ∧ Hex d) :
    (unescaped (.unicode a b c d h)).length ≤ (String.utf8EncodeChar (unit_char (code_unit a b c d))).length ∧
      (unescaped (.unicode a b c d h) = String.utf8EncodeChar (unit_char (code_unit a b c d)) ↔
        HandledEscape (.unicode a b c d h)) := by
  have hlt := code_unit_lt h
  by_cases hn : code_unit a b c d < 0x80
  · have hval : unescaped (.unicode a b c d h) = [UInt8.ofNat (code_unit a b c d)] := if_pos hn
    rw [hval, unit_ascii hn]
    exact ⟨Nat.le_refl _, fun _ => hn, fun _ => rfl⟩
  · have hval : unescaped (.unicode a b c d h) = [] := if_neg hn
    have htwo := two_le_unit ⟨Nat.not_lt.1 hn, hlt⟩
    rw [hval]
    refine ⟨Nat.zero_le _, fun heq => ?_, fun h => absurd h hn⟩
    rw [← heq] at htwo
    exact absurd htwo (by decide)

/-- No string gets longer, and it gets shorter or is altered where an escape is not handled. -/
theorem unescaped_decode (ps : List Piece) : (ps.flatMap unescaped).length ≤ (decode ps).length ∧
    (ps.flatMap unescaped = decode ps ↔ ∀ p ∈ ps, HandledEscape p) := by
  fun_induction decode ps with
  | case1 => exact ⟨Nat.le_refl _, fun _ _ hp => absurd hp List.not_mem_nil, fun _ => rfl⟩
  | case2 c h ps ih =>
    have hstep := @append_eq_iff [c] [c] _ _ (Nat.le_refl _) ih.1
    rw [List.flatMap_cons, List.forall_mem_cons, ← ih.2]
    exact ⟨hstep.1, hstep.2.trans (and_congr_left fun _ => ⟨fun _ => trivial, fun _ => rfl⟩)⟩
  | case3 c h ps ih =>
    have hstep := @append_eq_iff [short_escape c] [short_char c] _ _ (Nat.le_refl _) ih.1
    have hc : [short_escape c] = [short_char c] ↔ HandledEscape (.short c h) := by
      rw [List.singleton_inj, short_escape_eq_iff h]
      rfl
    rw [List.flatMap_cons, List.forall_mem_cons, ← ih.2, ← hc]
    exact hstep
  | case4 a b c d h a' b' c' d' h' ps hpair ih =>
    -- a surrogate pair: both halves are dropped
    have hchar := pair_char_toNat hpair.1 hpair.2
    have htwo := @Utf8.two_le_length (pair_char (code_unit a b c d) (code_unit a' b' c' d')) (by omega)
    have hhigh : ¬ code_unit a b c d < 0x80 := by
      have := hpair.1.1
      omega
    have hlow : ¬ code_unit a' b' c' d' < 0x80 := by
      have := hpair.2.1
      omega
    have hnone : unescaped (.unicode a b c d h) = [] ∧ unescaped (.unicode a' b' c' d' h') = [] :=
      ⟨if_neg hhigh, if_neg hlow⟩
    rw [List.flatMap_cons, List.flatMap_cons, hnone.1, hnone.2, List.nil_append, List.nil_append, List.length_append]
    refine ⟨by omega, fun heq => ?_, fun hall => absurd (hall _ (.head _)) hhigh⟩
    have hlen := congrArg List.length heq
    rw [List.length_append] at hlen
    omega
  | case5 a b c d h a' b' c' d' h' ps hpair ih =>
    have hunit := unescaped_unit h
    have hstep := append_eq_iff hunit.1 ih.1
    rw [List.flatMap_cons, List.forall_mem_cons, ← ih.2, ← hunit.2]
    exact hstep
  | case6 a b c d h ps hne ih =>
    have hunit := unescaped_unit h
    have hstep := append_eq_iff hunit.1 ih.1
    rw [List.flatMap_cons, List.forall_mem_cons, ← ih.2, ← hunit.2]
    exact hstep

/-! ### Characters that were escaped -/

/-- An escaped text comes back if none of its escapes is a `\b`, a `\f` or that of a code unit of 0x80 or more. -/
theorem json_unescape_exact_iff {t : List Char} {ps : List Piece} (h : Escapes t ps) :
    json_unescape (body ps) = .ok (Utf8.encode t) ↔ ∀ p ∈ ps, HandledEscape p := by
  have hbody : json_unescape (body ps) = .ok (ps.flatMap unescaped) := by
    simpa using json_unescape_body (by rfl : json_unescape [] = .ok []) ps
  rw [hbody, Except.ok.injEq, ← h.decode_eq]
  exact (unescaped_decode ps).2

/-- A nickname with an accented letter as it is, escaped signs and a letter given by its code unit. -/
def escaped_name : List Piece :=
  [.plain 0x52 (by decide), .plain 0xc3 (by decide), .plain 0xa9 (by decide), escaped_quote,
    .short 0x2f (by decide), .unicode 0x30 0x30 0x32 0x36 (by decide), .short 0x5c (by decide), .short 0x6e (by decide)]

theorem escapes_name : Escapes "Ré\"/&\\\n".toList escaped_name := by
  refine .cons (.raw [.plain 0x52 _] ?_ (by decide)) <| .cons (.raw [.plain 0xc3 _, .plain 0xa9 _] ?_ (by decide)) <|
    .cons (.short _ _ (by decide)) <| .cons (.short _ _ (by decide)) <| .cons (.unit _ _ _ _ _ (by decide)) <|
    .cons (.short _ _ (by decide)) <| .cons (.short _ _ (by decide)) .nil
  · intro p hp
    rw [List.mem_singleton.1 hp]
    exact ⟨_, _, rfl⟩
  · intro p hp
    rcases List.mem_pair.1 hp with rfl | rfl <;> exact ⟨_, _, rfl⟩

theorem json_unescape_name : json_unescape (body escaped_name) = .ok (Utf8.encode "Ré\"/&\\\n".toList) :=
  (json_unescape_exact_iff escapes_name).2 (by decide)

/-- `\u00e9`. -/
def escaped_e_acute : Piece := .unicode 0x30 0x30 0x65 0x39 (by decide)

theorem e_acute_dropped : Escapes ['é'] [escaped_e_acute] ∧ json_unescape (body [escaped_e_acute]) = .ok [] ∧
    Utf8.encode ['é'] = [0xc3, 0xa9] :=
  ⟨.cons (.unit _ _ _ _ _ (by decide)) .nil, by rfl, by decide⟩

end TtLive
