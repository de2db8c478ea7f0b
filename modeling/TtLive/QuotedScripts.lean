import TtLive.JsLexer
import TtLive.SignerCookies

/-!
# `json_quote` as a string literal

The scripts of `set_cookies` and `sign` are fixed text around quoted server values. Read by the lexer, a quoted
string is one token from its first to its last character, whatever its bytes are, so these scripts have the same
tokens for all values.
-/

namespace TtLive.QuickJsSigner
open JavaScript

/-! ### The scripts -/

/-- The code that `set_cookies` evaluates. -/
def set_cookies_script (cookie_header : Bytes) : Bytes :=
  lit "try\x7bdocument.cookie=" ++ json_quote cookie_header ++
    lit ";\x7dcatch(e)\x7b\x7dtry\x7bglobalThis.window.document.cookie=" ++ json_quote cookie_header ++
    lit ";\x7dcatch(e)\x7b\x7d"

/-- The code of `sign` behind the second URL. -/
def sign_tail : Bytes :=
  lit ";var h=xhr._headers||\x7b\x7d;" ++
  lit "var b=h[\"X-Bogus\"]||\"\";" ++
  lit "var g=h[\"X-Gnarly\"]||\"\";" ++
  lit "if(!b&&u.indexOf('X-Bogus=')>=0)\x7b" ++
  lit "  var m=u.match(/X-Bogus=([^&]*)/);if(m)b=decodeURIComponent(m[1]);" ++
  lit "  var m2=u.match(/X-Gnarly=([^&]*)/);if(m2)g=decodeURIComponent(m2[1]);" ++
  lit "\x7d" ++
  lit "if(b&&u.indexOf('X-Bogus=')<0)\x7b" ++
  lit "  u+=(u.indexOf('?')>=0?'&':'?')+'X-Bogus='+encodeURIComponent(b);" ++
  lit "  if(g)u+='&X-Gnarly='+encodeURIComponent(g);" ++
  lit "\x7d" ++
  lit "return u;" ++
  lit "\x7d)();"

/-- The code that `sign` evaluates. -/
def sign_script (url : Bytes) : Bytes :=
  lit "(function()\x7bvar xhr=new XMLHttpRequest();xhr.open('GET'," ++ json_quote url ++
    lit ");xhr.send();var u=xhr._url||" ++ json_quote url ++ sign_tail

/-! ### One literal -/

/-- What follows the first quote that no backslash escapes. -/
def after_unescaped_quote : Bytes → Option Bytes
  | [] => none
  | c :: s =>
    if c = 0x22 then some s
    else if c = 0x5c then
      match s with
      | [] => none
      | _ :: s => after_unescaped_quote s
    else after_unescaped_quote s

theorem after_plain {c : UInt8} (h : c ≠ 0x22 ∧ c ≠ 0x5c) (rest : Bytes) :
    after_unescaped_quote (c :: rest) = after_unescaped_quote rest := by
  rw [after_unescaped_quote.eq_def]
  simp [h]

theorem after_escape (c : UInt8) (rest : Bytes) :
    after_unescaped_quote (0x5c :: c :: rest) = after_unescaped_quote rest := by
  rw [after_unescaped_quote.eq_def]
  simp

theorem hex_digit_inert {n : Nat} (h : n < 16) : 0x20 ≤ hex_digit n ∧ hex_digit n ≠ 0x22 ∧ hex_digit n ≠ 0x5c := by
  have : ∀ n < 16, 0x20 ≤ hex_digit n ∧ hex_digit n ≠ 0x22 ∧ hex_digit n ≠ 0x5c := by decide
  exact this n h

/-- No control character is written for a byte. -/
theorem json_quote_byte_control (c : UInt8) : ∀ d ∈ json_quote_byte c, 0x20 ≤ d := by
  have hc := c.toNat_lt
  have hpair : ∀ a b : UInt8, 0x20 ≤ a → 0x20 ≤ b → ∀ d ∈ [a, b], 0x20 ≤ d := fun a b ha hb =>
    List.forall_mem_cons.2 ⟨ha, List.forall_mem_singleton.2 hb⟩
  unfold json_quote_byte
  split_ifs with h₁ h₂ h₃ h₄ h₅ h₆
  · exact hpair 0x5c 0x22 (by decide) (by decide)
  · exact hpair 0x5c 0x5c (by decide) (by decide)
  · exact hpair 0x5c 0x6e (by decide) (by decide)
  · exact hpair 0x5c 0x72 (by decide) (by decide)
  · exact hpair 0x5c 0x74 (by decide) (by decide)
  · have hlt : c.toNat < 32 := UInt8.lt_iff_toNat_lt.1 h₆
    refine List.forall_mem_append.2 ⟨List.forall_mem_append.2 ⟨hpair 0x5c 0x75 (by decide) (by decide),
      hpair 0x30 0x30 (by decide) (by decide)⟩, hpair _ _ ?_ ?_⟩
    · exact (hex_digit_inert (by omega)).1
    · exact (hex_digit_inert (by omega)).1
  · rw [List.forall_mem_singleton]
    exact UInt8.not_lt.1 h₆

/-- No quote is written for a byte but behind a backslash. -/
theorem after_json_quote_byte (c : UInt8) (rest : Bytes) :
    after_unescaped_quote (json_quote_byte c ++ rest) = after_unescaped_quote rest := by
  unfold json_quote_byte
  split_ifs with h₁ h₂ h₃ h₄ h₅ h₆
  · exact after_escape 0x22 rest
  · exact after_escape 0x5c rest
  · exact after_escape 0x6e rest
  · exact after_escape 0x72 rest
  · exact after_escape 0x74 rest
  · have hlt : c.toNat < 32 := UInt8.lt_iff_toNat_lt.1 h₆
    have hhi := hex_digit_inert (show c.toNat / 16 < 16 by omega)
    have hlo := hex_digit_inert (show c.toNat % 16 < 16 by omega)
    refine (after_escape 0x75 (0x30 :: 0x30 :: hex_digit (c.toNat / 16) :: hex_digit (c.toNat % 16) :: rest)).trans ?_
    rw [after_plain (by decide), after_plain (by decide), after_plain hhi.2, after_plain hlo.2]
  · exact after_plain ⟨h₁, h₂⟩ rest

theorem after_quoted (s rest : Bytes) :
    after_unescaped_quote (s.flatMap json_quote_byte ++ 0x22 :: rest) = some rest := by
  induction s with
  | nil => rw [List.flatMap_nil, List.nil_append, after_unescaped_quote.eq_def]; simp
  | cons c s ih => rw [List.flatMap_cons, List.append_assoc, after_json_quote_byte, ih]

/-! ### As a token -/

theorem json_quote_byte_eq (c : UInt8) : json_quote_byte c = quote_unit c := by
  have hne : ∀ d : UInt8, c ≠ d → c.toNat ≠ d.toNat := fun d h hcd => h (UInt8.toNat_inj.1 hcd)
  unfold json_quote_byte
  split_ifs with h₁ h₂ h₃ h₄ h₅ h₆
  · rw [h₁]; decide
  · rw [h₂]; decide
  · rw [h₃]; decide
  · rw [h₄]; decide
  · rw [h₅]; decide
  · rw [quote_unit_control ⟨hne _ h₃, hne _ h₄, hne _ h₅⟩ (UInt8.lt_iff_toNat_lt.1 h₆)]
    show lit "\\u00" ++ [hex_digit (c.toNat / 16), hex_digit (c.toNat % 16)] =
      [0x5c, 0x75, 0x30, 0x30, UInt8.ofNat (hex_digit (c.toNat / 16)).toNat,
        UInt8.ofNat (hex_digit (c.toNat % 16)).toNat]
    rw [UInt8.ofNat_toNat, UInt8.ofNat_toNat]
    rfl
  · rw [quote_unit_plain ⟨hne _ h₁, hne _ h₂⟩ (UInt8.le_iff_toNat_le.1 (UInt8.not_lt.1 h₆))]

theorem json_quote_eq (s : Bytes) : json_quote s = quote s := by
  have : json_quote_byte = quote_unit := funext json_quote_byte_eq
  unfold json_quote quote
  rw [this]
  rfl

/-! ### Of a text -/

theorem json_quote_char (c : Char) :
    (String.utf8EncodeChar c).flatMap json_quote_byte = Utf8.encode (quote_unit c) := by
  by_cases hc : c.toNat < 0x80
  · have hcode : CodeUnit.code (UInt8.ofNat c.toNat) = CodeUnit.code c := CodeUnit.code_of_code c.toNat hc
    have hof : ∀ n < 0x80, UInt8.ofNat (CodeUnit.of_code n : Char).toNat = CodeUnit.of_code n := fun n hn =>
      congrArg UInt8.ofNat (@CodeUnit.code_of_code Char _ n hn)
    rw [Utf8.char_ascii hc, List.flatMap_cons, List.flatMap_nil, List.append_nil, json_quote_byte_eq,
      Utf8.encode_ascii (quote_unit_ascii hc)]
    exact (@quote_unit_map _ _ _ _ (fun d : Char => UInt8.ofNat d.toNat) hof c hcode).symm
  · have hge : 0x80 ≤ c.toNat := Nat.le_of_not_lt hc
    have hself : ∀ b ∈ String.utf8EncodeChar c, json_quote_byte b = [b] := by
      intro b hb
      have hle : 0x80 ≤ b.toNat := UInt8.le_iff_toNat_le.1 (Utf8.char_high hge b hb)
      rw [json_quote_byte_eq]
      exact quote_unit_plain ⟨by show b.toNat ≠ _; omega, by show b.toNat ≠ _; omega⟩ (by show _ ≤ b.toNat; omega)
    have hunit : quote_unit c = [c] :=
      quote_unit_plain ⟨by show c.toNat ≠ _; omega, by show c.toNat ≠ _; omega⟩ (by show _ ≤ c.toNat; omega)
    rw [List.flatMap_congr hself, hunit, Utf8.encode_cons]
    show List.flatMap (fun b => [b]) _ = _ ++ []
    rw [List.flatMap_singleton', List.append_nil]

theorem json_quote_text (t : List Char) : json_quote (Utf8.encode t) = Utf8.encode (quote t) := by
  have hbody : (Utf8.encode t).flatMap json_quote_byte = Utf8.encode (t.flatMap quote_unit) := by
    induction t with
    | nil => rfl
    | cons c t ih =>
      rw [Utf8.encode_cons, List.flatMap_append, json_quote_char, ih, List.flatMap_cons, Utf8.encode_append]
  have hopen : Utf8.encode [(CodeUnit.of_code 0x22 : Char)] = [0x22] := by decide
  show 0x22 :: (Utf8.encode t).flatMap json_quote_byte ++ [0x22] =
    Utf8.encode ([CodeUnit.of_code 0x22] ++ t.flatMap quote_unit ++ [CodeUnit.of_code 0x22])
  rw [hbody, Utf8.encode_append, Utf8.encode_append, hopen]
  rfl

/-! ### The result -/

/-- The literal that `json_quote` writes: it ends at its last character, and it reads as the string, for a valid
text also character by character. -/
structure InertLiteral (s : Bytes) : Prop where
  opens : ∃ rest, json_quote s = 0x22 :: rest ∧ after_unescaped_quote rest = some []
  no_control : ∀ c ∈ json_quote s, 0x20 ≤ c
  value : string_literal (json_quote s) = some s
  token : ∀ operand, run (.code operand) (json_quote s) = some (.code true, [.string s])
  text : ∀ t : List Char, s = Utf8.encode t → ∃ q : List Char, json_quote s = Utf8.encode q ∧
    ∀ operand, run (.code operand) q = some (.code true, [.string t])

theorem inert_literal (s : Bytes) : InertLiteral s where
  opens := ⟨_, rfl, after_quoted s []⟩
  no_control := by
    unfold json_quote
    intro c hc
    rcases List.mem_append.1 hc with hc | hc
    · rcases List.mem_cons.1 hc with rfl | hc
      · decide
      · obtain ⟨b, -, hb⟩ := List.mem_flatMap.1 hc
        exact json_quote_byte_control b c hb
    · rw [List.mem_singleton.1 hc]
      decide
  value := string_literal_json_quote s
  token operand := by
    rw [json_quote_eq]
    exact run_quote operand s
  text t ht := ⟨quote t, ht ▸ json_quote_text t, fun operand => run_quote operand t⟩

/-- A script whose tokens are fixed up to two string tokens. -/
def SameTokens (script : Bytes → Bytes) : Prop :=
  ∃ before between behind : List (Token UInt8), ∀ s,
    tokens (script s) = some (before ++ .string s :: between ++ .string s :: behind)

theorem set_cookies_tokens : SameTokens set_cookies_script := by
  unfold SameTokens set_cookies_script
  simp only [json_quote_eq]
  exact tokens_template (by decide +kernel) (by decide +kernel) (by decide +kernel)

theorem sign_tokens : SameTokens sign_script := by
  unfold SameTokens sign_script
  simp only [json_quote_eq]
  exact tokens_template (by decide +kernel) (by decide +kernel) (by decide +kernel)

/-- Quoting makes one string literal of everything, and the scripts around it keep their tokens. -/
theorem json_quote_inert : (∀ s, InertLiteral s) ∧ SameTokens set_cookies_script ∧ SameTokens sign_script :=
  ⟨inert_literal, set_cookies_tokens, sign_tokens⟩

end TtLive.QuickJsSigner
