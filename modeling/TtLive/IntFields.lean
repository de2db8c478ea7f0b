import Mathlib.Data.Bool.AllAny
import TtLive.GiftWalk
import TtLive.NeedleScan

/-!
# The limits of `json_int_field`

The accumulator is not bounded and takes the sign last: it overflows for a run of digits from 2^63 on, also for the
one of the least 64-bit integer. The two narrowed fields of a gift keep what fits into 32 bits.
-/

namespace TtLive
open Search Json

/-- The text behind `"key":`, where `json_int_field` starts to read. -/
def behind_key (json key : Bytes) : Option Bytes := find_after (needle key []) json

section
variable {json key : Bytes}

/-- The digit loop overflows exactly on a run of digits that is worth 2^63 or more. -/
theorem overflow_iff :
    json_int_field json key = none ↔ ∃ s ∈ behind_key json key, 0x8000000000000000 ≤ (leading_int s).natAbs := by
  unfold json_int_field behind_key
  rcases find_after (needle key []) json with _ | s
  · simp
  · simp only [Option.mem_some_iff, exists_eq_left', int_value_eq]
    split
    · next hlt => simp [hlt]
    · next hlt => simpa using hlt

theorem leading_int_skip {pre : Bytes} (hpre : ∀ c ∈ pre, c = 0x20 ∨ c = 0x22) (s : Bytes) :
    leading_int (pre ++ s) = leading_int s := by
  have hskip : (pre ++ s).dropWhile (fun c => c = 0x20 ∨ c = 0x22) = s.dropWhile fun c => c = 0x20 ∨ c = 0x22 :=
    List.dropWhile_append_of_pos fun c hc => decide_eq_true (hpre c hc)
  unfold leading_int
  rw [hskip]

/-- An integer behind the key, maybe behind blanks and a quote, is read if its magnitude is below 2^63. -/
theorem literal_read_iff {pre t rest : Bytes} {n : Int} (hjson : behind_key json key = some (pre ++ (t ++ rest)))
    (hpre : ∀ c ∈ pre, c = 0x20 ∨ c = 0x22) (ht : IntLiteral t n) (hrest : ∀ c ∈ rest.head?, ¬ Digit c) :
    json_int_field json key = some n ↔ n.natAbs < 0x8000000000000000 := by
  have hvalue : json_int_field json key = int_value (pre ++ (t ++ rest)) := by
    unfold behind_key at hjson
    rw [json_int_field, hjson]
  rw [hvalue, int_value_eq, leading_int_skip hpre, leading_int_literal ht hrest]
  split
  · next hlt => simp [hlt]
  · next hlt => simp [hlt]

end

theorem to_int32_eq_iff (n : Int) : to_int32 n = n ↔ -0x80000000 ≤ n ∧ n < 0x80000000 := by
  unfold to_int32 Int.bmod
  dsimp only
  split <;> omega

theorem int_field_ok {json key : Bytes} {n : Int} (h : int_field json key = .ok n) :
    json_int_field json key = some n := by
  unfold int_field at h
  rcases hn : json_int_field json key with _ | m
  · rw [hn] at h
    cases h
  · rw [hn] at h
    rw [Except.ok.inj h]

/-- The integers that the narrowed fields of a gift come from. -/
theorem read_gift_narrowed {obj : Bytes} {g : GiftInfo} (h : read_gift obj = .ok g) :
    ∃ n m, json_int_field obj (lit "diamond_count") = some n ∧ json_int_field obj (lit "type") = some m ∧
      g.diamond_count = to_int32 n ∧ g.type = to_int32 m := by
  unfold read_gift at h
  obtain ⟨id, -, h⟩ := ok_of_bind h
  obtain ⟨name, -, h⟩ := ok_of_bind h
  obtain ⟨diamond_count, hcount, h⟩ := ok_of_bind h
  obtain ⟨describe, -, h⟩ := ok_of_bind h
  obtain ⟨type, htype, h⟩ := ok_of_bind h
  obtain ⟨icon_url, -, h⟩ := ok_of_bind h
  rw [← Except.ok.inj h]
  exact ⟨diamond_count, type, int_field_ok hcount, int_field_ok htype, rfl, rfl⟩

/-- When an integer field overflows, when a literal of 64 bits is read, and when a gift keeps what was read. -/
theorem int_fields_iff (json key : Bytes) :
    (json_int_field json key = none ↔ ∃ s ∈ behind_key json key, 0x8000000000000000 ≤ (leading_int s).natAbs) ∧
    (∀ pre t rest n, behind_key json key = some (pre ++ (t ++ rest)) → (∀ c ∈ pre, c = 0x20 ∨ c = 0x22) →
      IntLiteral t n → (∀ c ∈ rest.head?, ¬ Digit c) → -0x8000000000000000 ≤ n ∧ n < 0x8000000000000000 →
        (json_int_field json key = some n ↔ n ≠ -0x8000000000000000)) ∧
    ∀ g, read_gift json = .ok g →
      (∀ n, json_int_field json (lit "diamond_count") = some n →
        (g.diamond_count = n ↔ -0x80000000 ≤ n ∧ n < 0x80000000)) ∧
      ∀ n, json_int_field json (lit "type") = some n → (g.type = n ↔ -0x80000000 ≤ n ∧ n < 0x80000000) := by
  refine ⟨overflow_iff, ?_, ?_⟩
  · intro pre t rest n hjson hpre ht hrest hn
    rw [literal_read_iff hjson hpre ht hrest]
    omega
  · intro g hg
    obtain ⟨count, type, hcount, htype, hgcount, hgtype⟩ := read_gift_narrowed hg
    refine ⟨fun n hn => ?_, fun n hn => ?_⟩
    · rw [hgcount, Option.some.inj (hcount.symm.trans hn)]
      exact to_int32_eq_iff n
    · rw [hgtype, Option.some.inj (htype.symm.trans hn)]
      exact to_int32_eq_iff n

def forty_two : Digits where
  chars := lit "42"
  ne_nil := by decide
  digit := List.all_iff_forall_prop.1 (by decide)

theorem negative_read : json_int_field (lit "\x7b\"n\": \"-42\"\x7d") (lit "n") = some (-42) ∧
    ∃ g, read_gift (lit "\x7b\"diamond_count\":5,\"type\":1\x7d") = .ok g ∧ g.diamond_count = 5 ∧ g.type = 1 := by
  have hdigits : IntLiteral (lit "-42") (-42) := ⟨true, forty_two, by decide, by decide⟩
  have hquote : ∀ c ∈ (lit "\"\x7d").head?, ¬ Digit c := by
    intro c hc
    obtain rfl : 0x22 = c := Option.some.inj hc
    decide
  obtain ⟨-, hliteral, -⟩ := int_fields_iff (lit "\x7b\"n\": \"-42\"\x7d") (lit "n")
  have hread := (hliteral [0x20, 0x22] (lit "-42") (lit "\"\x7d") (-42) (by decide) (by simp) hdigits hquote
    (by decide)).2 (by decide)
  have hgift : read_gift (lit "\x7b\"diamond_count\":5,\"type\":1\x7d") =
      .ok { id := 0, name := [], diamond_count := 5, describe := [], type := 1, icon_url := [] } := by
    rfl
  have hfields := (int_fields_iff _ []).2.2 _ hgift
  exact ⟨hread, _, hgift, (hfields.1 5 (by decide)).2 (by decide), (hfields.2 1 (by decide)).2 (by decide)⟩

def two_pow_63 : Digits where
  chars := lit "9223372036854775808"
  ne_nil := by decide
  digit := List.all_iff_forall_prop.1 (by decide)

/-- The least 64-bit integer overflows, and a count of 2^32 becomes 0. -/
theorem least_int_and_narrowed_count :
    (¬ ∀ json key, json_int_field json key ≠ none) ∧
    (¬ ∀ json key pre t rest n, behind_key json key = some (pre ++ (t ++ rest)) → (∀ c ∈ pre, c = 0x20 ∨ c = 0x22) →
      IntLiteral t n → (∀ c ∈ rest.head?, ¬ Digit c) → -0x8000000000000000 ≤ n ∧ n < 0x8000000000000000 →
        json_int_field json key = some n) ∧
    ¬ ∀ obj g n, read_gift obj = .ok g → json_int_field obj (lit "diamond_count") = some n → g.diamond_count = n := by
  have hnone : json_int_field (lit "\"n\":-9223372036854775808") (lit "n") = none := by decide
  refine ⟨fun hall => hall _ _ hnone, fun hall => ?_, fun hall => ?_⟩
  · have hdigits : IntLiteral (lit "-9223372036854775808") (-0x8000000000000000) :=
      ⟨true, two_pow_63, by decide, by decide⟩
    have hread := hall (lit "\"n\":-9223372036854775808") (lit "n") [] _ [] _ (by decide) (by simp) hdigits
      (by simp) (by decide)
    rw [hnone] at hread
    cases hread
  · have hgift : read_gift (lit "\x7b\"diamond_count\":4294967296\x7d") =
        .ok { id := 0, name := [], diamond_count := 0, describe := [], type := 0, icon_url := [] } := by
      rfl
    exact absurd (hall _ _ 4294967296 hgift (by decide)) (by decide)

end TtLive
