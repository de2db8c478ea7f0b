import TtLive.FakeDom
import TtLive.ObjectHistory
import TtLive.Urlencoded

/-!
# `hybrid-fake-dom.js`: `FakeStorage` and `URLSearchParams`

`localStorage` and `sessionStorage`, and the `URLSearchParams` of the host's fallback: two wrappers of an ordinary
object. What they answer is read off the calls made so far, with what the object behind them adds to that: the names
it inherits, `__proto__` that takes no string, and the empty name and value that `||` makes `null`.
-/

namespace TtLive.fake_dom
open JavaScript JavaScript.Object

/-- What reading a property gives. -/
inductive Item
  | string (s : Str)
  /-- The value that `Object.prototype` has under the name. -/
  | inherited (name : Str)
  | null
deriving DecidableEq

/-- `k in obj ? obj[k] : null`. -/
def item (obj : Object) (k : Str) : Item :=
  match obj.lookup k with
  | some v => .string v
  | none => if object_prototype.contains k then .inherited k else .null

/-- What a script reads under a name, by what has been written. -/
def expected (h : History) (k : Str) : Item :=
  match value k h with
  | some v => .string v
  | none => if object_prototype.contains k then .inherited k else .null

theorem item_written (h : History) (k : Str) : item (written h) k = expected h k := by
  rw [item, lookup_written, expected]

/-! ### `FakeStorage` -/

namespace FakeStorage

inductive Call
  | getItem (k : Str)
  | setItem (k v : Str)
  | removeItem (k : Str)
  | clear
  | key (i : Nat)
  | length

inductive Reply
  | item (i : Item)
  | key (k : Option Str)
  | length (n : Nat)
  | undefined

/-- `keys[i] || null`. -/
def key (data : Object) (i : Nat) : Option Str := ((keys data)[i]?).filter (· ≠ [])

def call (data : Object) : Call → Object × Reply
  | .getItem k => (data, .item (fake_dom.item data k))
  | .setItem k v => (data.set k v, .undefined)
  | .removeItem k => (data.delete k, .undefined)
  | .clear => ([], .undefined)
  | .key i => (data, .key (key data i))
  | .length => (data, .length (keys data).length)

def replies (data : Object) : List Call → List Reply
  | [] => []
  | c :: calls => (call data c).2 :: replies (call data c).1 calls

/-- The writes a call adds to those made before. -/
def Call.record (h : History) : Call → History
  | .setItem k v => .set k v :: h
  | .removeItem k => .delete k :: h
  | .clear => .clear :: h
  | _ => h

/-- What a store that remembers every write, and lists names by `listing`, replies. -/
def Call.answer (h : History) (listing : List Str) : Call → Reply
  | .getItem k => .item (expected h k)
  | .key i => .key ((listing[i]?).filter (· ≠ []))
  | .length => .length listing.length
  | _ => .undefined

/-- The replies to a run of calls after the writes `h`. -/
inductive Answers : History → List Call → List Reply → Prop
  | nil (h) : Answers h [] []
  | cons {h c calls rs listing} (hl : Lists h listing) (hrest : Answers (c.record h) calls rs) :
    Answers h (c :: calls) (c.answer h listing :: rs)

theorem written_record (h : History) (c : Call) : written (c.record h) = (call (written h) c).1 := by
  rcases c with _ | _ | _ | _ | _ | _ <;> rfl

theorem answer_written (h : History) (c : Call) : (call (written h) c).2 = c.answer h (keys (written h)) := by
  rcases c with k | _ | _ | _ | _ | _
  case getItem => exact congrArg Reply.item (item_written h k)
  all_goals rfl

/-- Every run of calls is answered as a map of the names written would answer it, with what `Object.prototype` shows
through under names that are not there and the empty name for which `key` has `null`. -/
theorem replies_answers (h : History) (calls : List Call) : Answers h calls (replies (written h) calls) := by
  induction calls generalizing h with
  | nil => exact .nil h
  | cons c calls ih =>
    rw [replies, answer_written, ← written_record]
    exact .cons (lists_keys h) (ih _)

end FakeStorage

/-! ### `URLSearchParams` -/

namespace URLSearchParams

/-- `params[k] || null`. -/
def get (params : Object) (k : Str) : Item :=
  match item params k with
  | .string [] => .null
  | i => i

/-- `encodeURIComponent(k) + '=' + encodeURIComponent(params[k])`. -/
def pair (e : Str × Str) : Str := encodeURIComponent e.1 ++ 0x3d :: encodeURIComponent e.2

def toString (params : Object) : Str := List.intercalate [0x26] ((for_in params).map pair)

def encode_unit (c : UInt8) : Str :=
  if unreserved c then [c] else [0x25, upper_hex_digit (c.toNat / 16), upper_hex_digit (c.toNat % 16)]

theorem hex_value_upper {n : Nat} (h : n < 16) : hex_value (upper_hex_digit n) = some n := by
  have : ∀ n < 16, hex_value (upper_hex_digit n) = some n := by decide
  exact this n h

theorem upper_hex_digit_range {n : Nat} (h : n < 16) : 0x30 ≤ (upper_hex_digit n).toNat ∧
    (upper_hex_digit n).toNat ≠ 0x3d := by
  have : ∀ n < 16, 0x30 ≤ (upper_hex_digit n).toNat ∧ (upper_hex_digit n).toNat ≠ 0x3d := by decide
  exact this n h

/-- What a query gives a meaning of its own. -/
def Separator (q : UInt8) : Prop := q = 0x3d ∨ q = 0x26 ∨ q = 0x2b

theorem spells_encode_unit (c : UInt8) : Urlencoded.Spells (encode_unit c) c := by
  unfold encode_unit
  split
  · next h =>
    refine .inl ⟨rfl, ?_⟩
    rintro rfl
    exact absurd h (by decide)
  · have hc := c.toNat_lt
    have hval : 16 * (c.toNat / 16) + c.toNat % 16 = c.toNat := by omega
    refine .inr ⟨_, _, rfl, ?_⟩
    rw [hex_pair, hex_value_upper (by omega), hex_value_upper (by omega)]
    simp only [hval, UInt8.ofNat_toNat]

/-- No separator of a query is left in what `encodeURIComponent` writes. -/
theorem separator_not_mem {q : UInt8} (hq : Separator q) (c : UInt8) : q ∉ encode_unit c := by
  unfold encode_unit
  split
  · next h =>
    rw [List.mem_singleton]
    rintro rfl
    rcases hq with rfl | rfl | rfl <;> exact absurd h (by decide)
  · have hc := c.toNat_lt
    have hdigit : ∀ n < 16, q ≠ upper_hex_digit n := by
      rintro n hn rfl
      obtain ⟨hlow, hne⟩ := upper_hex_digit_range hn
      rcases hq with hq | hq | hq <;> rw [hq] at hlow hne
      · exact hne rfl
      · exact absurd hlow (by decide)
      · exact absurd hlow (by decide)
    have hpercent : q ≠ 0x25 := by
      rcases hq with rfl | rfl | rfl <;> decide
    simpa using ⟨hpercent, hdigit _ (by omega), hdigit _ (by omega)⟩

theorem value_proto (h : History) : value proto h = none := by
  induction h with
  | nil => rfl
  | cons w earlier ih =>
    rcases w with ⟨key, val⟩ | key | _
    · rw [value, if_neg fun hk => hk.2 rfl, ih]
    · rw [value, ih, ite_self]
    · rfl

/-- After any calls of `set` and `delete`, `get` reads what was written, and a reader of forms reads `toString` as the
names in order with their values; but `__proto__` takes none. -/
theorem written_reads (h : History) :
    (∀ k, get (written h) k = match expected h k with | .string [] => .null | i => i) ∧
      get (written h) proto = .inherited proto ∧
        ∃ listing, Lists h listing ∧ proto ∉ listing ∧
          Urlencoded.parse_form (toString (written h)) = listing.map fun k => (k, (value k h).getD []) := by
  have hget : ∀ k, get (written h) k = match expected h k with | .string [] => .null | i => i :=
    fun k => by rw [get, item_written]
  refine ⟨hget, ?_, keys (written h), lists_keys h, ?_, ?_⟩
  · rw [hget, expected, value_proto]
    rfl
  · rw [mem_keys_written, value_proto]
    exact Bool.false_ne_true
  · have hparse : Urlencoded.parse_form (toString (written h)) = for_in (written h) :=
      Urlencoded.parse_form_join spells_encode_unit (separator_not_mem (.inl rfl)) (separator_not_mem (.inr (.inl rfl)))
        (separator_not_mem (.inr (.inr rfl))) _
    rw [hparse, keys, List.map_map]
    refine (List.map_id _).symm.trans (List.map_congr_left fun e he => ?_)
    have hvalue : value e.1 h = some e.2 := mem_written.1 (mem_for_in.1 he)
    show e = (e.1, (value e.1 h).getD [])
    rw [hvalue]
    rfl

end URLSearchParams

end TtLive.fake_dom
