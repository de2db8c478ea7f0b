import TtLive.DocFields

/-!
# The needle scanners on well-formed JSON

The scanners on values whose names have no escapes: a name then reads as the key exactly if it is the key, so that
they read what a parser would give for the first member of that name.
-/

namespace TtLive
open Search Json

/-- A key without quotes and backslashes that cannot be read on from a closing quote. -/
structure ScanKey (key : Bytes) : Prop where
  ne_nil : key ≠ []
  no_quote : 0x22 ∉ key
  no_backslash : 0x5c ∉ key
  head : ∀ c ∈ key.head?, c ∉ after_quote

theorem ScanKey.needleKey {key : Bytes} (h : ScanKey key) : NeedleKey key :=
  ⟨whole_plain h.no_quote h.no_backslash, h.head⟩

theorem reads_pieces (key : Bytes) (n : Name) : reads key n.pieces = decide (n.chars = key) := by
  have hno : 0x22 ∉ n.chars := fun h => (n.plain _ h).2.1 rfl
  have hsuf : ¬ 0x22 :: key <:+ n.chars := fun h => hno (h.subset (by simp))
  rw [reads, Name.body_pieces, Bool.eq_iff_iff, List.isSuffixOf_iff_suffix, List.suffix_cons_iff, List.cons_inj_right,
    decide_eq_true_iff, eq_comm]
  exact or_iff_left hsuf

theorem first_reading_doc (v : Value) (key : Bytes) {kind : Doc → Bool} {kind' : Value → Bool}
    (hkind : ∀ w, kind w.doc = kind' w) : first_reading v.doc key kind = (v.first key kind').map Value.doc := by
  have hcomp : ((fun m : Member => reads key m.1 && kind m.2) ∘ fun m : Name × Value => (m.1.pieces, m.2.doc)) =
      fun m => m.1.chars = key && kind' m.2 := by
    funext m
    rw [Function.comp_apply, reads_pieces, hkind]
  rw [first_reading, Value.doc_members, List.find?_map, hcomp, Value.first, Option.map_map, Option.map_map]
  rfl

theorem doc_isObject (v : Value) : v.doc.isObject = v.isObject := by cases v <;> rfl

theorem doc_isString (v : Value) : v.doc.isString = v.isString := by cases v <;> rfl

theorem raw_text_doc (v : Value) : raw_text v.doc = v.rawBody := by cases v <;> rfl

theorem takeWhile_digits (d : Digits) {rest : Bytes} (hrest : ∀ c ∈ rest.head?, ¬ Digit c) :
    (d.chars ++ rest).takeWhile (fun c => Digit c) = d.chars := by
  rw [List.takeWhile_append_of_pos fun c hc => decide_eq_true (d.digit c hc)]
  cases rest with
  | nil => simp
  | cons c rest =>
    have hstop : (c :: rest).takeWhile (fun c => Digit c) = [] :=
      List.takeWhile_cons_of_neg (by simpa using hrest c rfl)
    rw [hstop, List.append_nil]

theorem leading_int_literal {t : Bytes} {n : Int} (h : IntLiteral t n) {rest : Bytes}
    (hrest : ∀ c ∈ rest.head?, ¬ Digit c) : leading_int (t ++ rest) = n := by
  obtain ⟨neg, d, rfl, rfl⟩ := h
  have hrun := takeWhile_digits d hrest
  obtain ⟨c, cs, hcs⟩ := List.exists_cons_of_ne_nil d.ne_nil
  have hdig : Digit c := d.digit c (by simp [hcs])
  have hc : c ≠ 0x20 ∧ c ≠ 0x22 ∧ c ≠ 0x2d := by
    refine ⟨?_, ?_, ?_⟩ <;> rintro rfl <;> exact absurd hdig (by decide)
  unfold leading_int
  cases neg with
  | true => simp [hrun, decimal, Digits.value]
  | false =>
    rw [hcs, List.cons_append] at hrun
    simp [hcs, hc, hrun, decimal, Digits.value]

theorem leading_int_quote (s : Bytes) : leading_int (0x22 :: s) = leading_int s := by
  simp [leading_int]

theorem leading_int_holds {v : Value} {n : Int} (h : v.HoldsInt n) : leading_int v.text = n := by
  cases v with
  | number m =>
    have hend := @leading_int_literal m.text n h [] nofun
    rw [List.append_nil] at hend
    exact hend
  | string ps =>
    have hquote := @leading_int_literal (body ps) n h [0x22] (by rintro c ⟨⟩; decide)
    rw [Value.text, List.cons_append, leading_int_quote]
    exact hquote
  | null => cases h
  | bool b => cases h
  | array vs => cases h
  | object ms => cases h

/-! ### The scanners -/

theorem json_object_field_text {key : Bytes} (hk : ScanKey key) (v : Value) :
    json_object_field v.text key = (v.first key Value.isObject).elim [] Value.text := by
  rw [← Value.doc_text, json_object_field_doc hk.needleKey, first_reading_doc v key doc_isObject]
  cases v.first key Value.isObject with
  | none => rfl
  | some w => exact w.doc_text

theorem json_string_field_text {key : Bytes} (hk : ScanKey key) (v : Value) :
    json_string_field v.text key = (v.first key Value.isString).elim (.ok []) fun w => json_unescape w.rawBody := by
  rw [← Value.doc_text, json_string_field_doc hk.needleKey, first_reading_doc v key doc_isString]
  cases v.first key Value.isString with
  | none => rfl
  | some w => exact congrArg json_unescape (raw_text_doc w)

theorem json_int_field_text {key : Bytes} (hk : ScanKey key) (v : Value) :
    (v.first key (fun _ => true) = none → json_int_field v.text key = some 0) ∧
      ∀ w n, v.first key (fun _ => true) = some w → w.HoldsInt n → n.natAbs < 0x8000000000000000 →
        json_int_field v.text key = some n := by
  have hread := @first_reading_doc v key (fun _ => true) (fun _ => true) fun _ => rfl
  rw [← Value.doc_text, json_int_field_doc hk.needleKey, int_reading, hread]
  constructor
  · intro hf
    rw [hf]
    rfl
  · intro w n hf hw hn
    rw [hf]
    show (if (leading_int w.doc.text).natAbs < _ then some (leading_int w.doc.text) else none) = some n
    rw [Value.doc_text, leading_int_holds hw, if_pos hn]

/-- What a real parse would give for the three fields. -/
structure ScannersAgree (key : Bytes) (v : Value) : Prop where
  object_field : json_object_field v.text key = (v.first key Value.isObject).elim [] Value.text
  string_field : json_string_field v.text key =
    (v.first key Value.isString).elim (.ok []) fun w => json_unescape w.rawBody
  int_field_absent : v.first key (fun _ => true) = none → json_int_field v.text key = some 0
  int_field : ∀ w n, v.first key (fun _ => true) = some w → w.HoldsInt n → n.natAbs < 0x8000000000000000 →
    json_int_field v.text key = some n

theorem scanners_agree {key : Bytes} (hk : ScanKey key) (v : Value) : ScannersAgree key v where
  object_field := json_object_field_text hk v
  string_field := json_string_field_text hk v
  int_field_absent := (json_int_field_text hk v).1
  int_field := (json_int_field_text hk v).2

/-- `{"id":{"s":"}"},"n":-12}`. -/
def sample_value : Value :=
  .object [(⟨lit "id", by simp [lit, Plain]⟩, .object [(⟨lit "s", by simp [lit, Plain]⟩, .string [.plain 0x7d (by decide)])]),
    (⟨lit "n", by simp [lit, Plain]⟩, .number ⟨true, ⟨lit "12", by decide, by simp [lit, Digit]⟩, by decide, none, none⟩)]

theorem scanners_agree_on_sample : ScannersAgree (lit "id") sample_value :=
  scanners_agree ⟨by decide, by decide, by decide, by simp [lit, after_quote]⟩ sample_value

/-- In `["a",":5"]` the key `,` is found between the two strings. -/
theorem comma_key_found : ¬ ∀ (key : Bytes) (v : Value), key ≠ [] → 0x22 ∉ key → 0x5c ∉ key → ScannersAgree key v := by
  intro hall
  have hagree := hall (lit ",") (.array [.string [.plain 0x61 (by decide)],
    .string [.plain 0x3a (by decide), .plain 0x35 (by decide)]]) (by decide) (by decide) (by decide)
  exact absurd (hagree.int_field_absent rfl) (by decide)

end TtLive
