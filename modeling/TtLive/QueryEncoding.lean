import TtLive.Client
import TtLive.Urlencoded

/-!
# The query encoder is invertible

`append_encoded` keeps an unreserved character and writes every other byte as `%XX`, so the separators `&` and
`=` that `encode_query` puts in are the only ones of the query, and what the server parses is the list that was
encoded, whatever bytes the cursor and the extension of an `im/fetch` are made of.
-/

namespace TtLive.web_defaults
open JavaScript Urlencoded

/-! ### One byte -/

theorem hex_value_hex {n : Nat} (h : n < 16) : hex_value (hex (UInt8.ofNat n)) = some n := by
  have : ∀ n < 16, hex_value (hex (UInt8.ofNat n)) = some n := by decide
  exact this n h

/-- The alphabet of `static const char hex[]`. -/
def UpperHex (c : UInt8) : Prop := 0x30 ≤ c ∧ c ≤ 0x39 ∨ 0x41 ≤ c ∧ c ≤ 0x46

theorem upper_hex_hex {n : Nat} (h : n < 16) : UpperHex (hex (UInt8.ofNat n)) := by
  have : ∀ n < 16, let c := hex (UInt8.ofNat n); 0x30 ≤ c ∧ c ≤ 0x39 ∨ 0x41 ≤ c ∧ c ≤ 0x46 := by decide
  exact this n h

theorem high_half (c : UInt8) : c >>> 4 = UInt8.ofNat (c.toNat / 16) := by
  have hc := c.toNat_lt
  have hlt : c.toNat / 16 < 256 := by omega
  apply UInt8.toNat_inj.1
  rw [UInt8.toNat_shiftRight, UInt8.toNat_ofNat', Nat.mod_eq_of_lt hlt]
  exact Nat.shiftRight_eq_div_pow c.toNat 4

theorem low_half (c : UInt8) : c &&& 0x0f = UInt8.ofNat (c.toNat % 16) := by
  have hlt : c.toNat % 16 < 256 := by omega
  apply UInt8.toNat_inj.1
  rw [UInt8.toNat_and, UInt8.toNat_ofNat', Nat.mod_eq_of_lt hlt]
  exact Nat.and_two_pow_sub_one_eq_mod c.toNat 4

theorem hex_pair_halves (c : UInt8) : hex_pair (hex (c >>> 4)) (hex (c &&& 0x0f)) = some c := by
  have hc := c.toNat_lt
  have hval : 16 * (c.toNat / 16) + c.toNat % 16 = c.toNat := by omega
  unfold hex_pair
  rw [high_half, low_half, hex_value_hex (by omega), hex_value_hex (by omega)]
  simp only [hval, UInt8.ofNat_toNat]

theorem upper_hex_halves (c : UInt8) : UpperHex (hex (c >>> 4)) ∧ UpperHex (hex (c &&& 0x0f)) := by
  have hc := c.toNat_lt
  rw [high_half, low_half]
  exact ⟨upper_hex_hex (by omega), upper_hex_hex (by omega)⟩

/-- What a query is made of. -/
inductive Token : Bytes → Prop
  | unreserved {c : UInt8} (h : unreserved c = true) : Token [c]
  | escape {a b : UInt8} (ha : UpperHex a) (hb : UpperHex b) : Token [0x25, a, b]
  | equals : Token (lit "=")
  | ampersand : Token (lit "&")

theorem token_encode_byte (c : UInt8) : Token (encode_byte c) := by
  unfold encode_byte
  split
  · next h => exact .unreserved h
  · exact .escape (upper_hex_halves c).1 (upper_hex_halves c).2

theorem spells_encode_byte (c : UInt8) : Spells (encode_byte c) c := by
  unfold encode_byte
  split
  · next h =>
    refine .inl ⟨rfl, ?_⟩
    rintro rfl
    exact absurd h (by decide)
  · exact .inr ⟨_, _, rfl, hex_pair_halves c⟩

/-- No separator is left in what `append_encoded` writes. -/
theorem separator_not_mem {q : UInt8} (hq : q = 0x3d ∨ q = 0x26) (c : UInt8) : q ∉ encode_byte c := by
  have hupper : ∀ d, UpperHex d → q ≠ d := by
    rintro d hd rfl
    rcases hq with rfl | rfl <;> exact absurd hd (by unfold UpperHex; decide)
  unfold encode_byte
  split
  · next h =>
    rw [List.mem_singleton]
    rintro rfl
    rcases hq with rfl | rfl <;> exact absurd h (by decide)
  · have hpercent : q ≠ 0x25 := by rcases hq with rfl | rfl <;> decide
    simpa using ⟨hpercent, hupper _ (upper_hex_halves c).1, hupper _ (upper_hex_halves c).2⟩

/-! ### The whole query -/

theorem encode_query_eq (params : ParamList) :
    encode_query params = List.intercalate [0x26] (params.map (part encode_byte)) := by
  have hsep : lit "=" = [0x3d] ∧ lit "&" = [0x26] := by decide
  have hpart : ∀ kv : Bytes × Bytes, append_encoded (append_encoded [] kv.1 ++ lit "=") kv.2 = part encode_byte kv :=
    fun kv => by simp [append_encoded, part, hsep.1]
  induction params with
  | nil => rfl
  | cons kv params ih =>
    cases params with
    | nil =>
      rw [encode_query, hpart]
      simp
    | cons kv' params =>
      rw [encode_query, hpart, ih, hsep.2, List.map_cons, List.map_cons, List.map_cons, List.intercalate_cons_cons]
      exact List.cons_ne_nil _ _

theorem parse_encode_query (params : ParamList) : parse (encode_query params) = params := by
  rw [encode_query_eq]
  exact parse_join spells_encode_byte (separator_not_mem (.inl rfl)) (separator_not_mem (.inr rfl)) params

/-- A text that splits into tokens. -/
def Tokenized (s : Bytes) : Prop := ∃ ts : List Bytes, ts.flatten = s ∧ ∀ t ∈ ts, Token t

theorem Tokenized.append {s s' : Bytes} (h : Tokenized s) (h' : Tokenized s') : Tokenized (s ++ s') := by
  obtain ⟨ts, rfl, hts⟩ := h
  obtain ⟨ts', rfl, hts'⟩ := h'
  refine ⟨ts ++ ts', List.flatten_append, fun t ht => ?_⟩
  exact (List.mem_append.1 ht).elim (hts t) (hts' t)

theorem Token.tokenized {t : Bytes} (h : Token t) : Tokenized t :=
  ⟨[t], by simp, by simpa using h⟩

theorem tokenized_append_encoded {out : Bytes} (h : Tokenized out) (s : Bytes) : Tokenized (append_encoded out s) := by
  refine h.append ⟨s.map encode_byte, List.flatMap_def.symm, fun t ht => ?_⟩
  obtain ⟨c, -, rfl⟩ := List.mem_map.1 ht
  exact token_encode_byte c

theorem tokenized_encode_query (params : ParamList) : Tokenized (encode_query params) := by
  have hnil : Tokenized [] := ⟨[], rfl, nofun⟩
  have hpart : ∀ kv : Bytes × Bytes, Tokenized (append_encoded (append_encoded [] kv.1 ++ lit "=") kv.2) := fun kv =>
    tokenized_append_encoded ((tokenized_append_encoded hnil kv.1).append Token.equals.tokenized) kv.2
  fun_induction encode_query params with
  | case1 => exact hnil
  | case2 kv => exact hpart kv
  | case3 kv rest _ ih => exact ((hpart kv).append Token.ampersand.tokenized).append ih

/-! ### The query of a URL -/

/-- The parameters of a URL: what follows its first question mark. -/
def url_params (url : Bytes) : ParamList := parse (url.dropWhile (· ≠ 0x3f)).tail

theorem url_params_text {u : UnsignedUrl} (h : 0x3f ∉ u.base) : url_params u.text = u.params := by
  have hbase : ∀ c ∈ u.base, decide (c ≠ 0x3f) = true := fun c hc => decide_eq_true fun h' => h (h' ▸ hc)
  have htext : u.text = u.base ++ 0x3f :: encode_query u.params := by
    rw [UnsignedUrl.text, show lit "?" = [0x3f] from rfl, List.append_assoc, List.singleton_append]
  unfold url_params
  rw [htext, List.dropWhile_append_of_pos hbase]
  simp [parse_encode_query]

/-- Decoding gives the parameters back, and only the alphabet of a query is written; in the URL of an `im/fetch`
each server value stays in its own parameter. -/
theorem encode_query_invertible :
    (∀ params, parse (encode_query params) = params) ∧
      (∀ params, Tokenized (encode_query params)) ∧
      Function.Injective encode_query ∧
      ∀ room_id cursor internal_ext,
        url_params (fetch_url room_id cursor internal_ext).text = (fetch_url room_id cursor internal_ext).params := by
  refine ⟨parse_encode_query, tokenized_encode_query, ?_, ?_⟩
  · exact Function.LeftInverse.injective parse_encode_query
  · intro room_id cursor internal_ext
    refine url_params_text ?_
    show 0x3f ∉ kWebcastUrl ++ lit "/im/fetch/"
    decide

end TtLive.web_defaults
