import TtLive.Events
import TtLive.JsonScan

/-!
# The gift list

The part of `fetch_gift_list_impl` that reads the response, position by position as in the source: the search for
the array, the walk over it, the balanced end of an object and the fields of a gift. A loop over positions takes
its position and the text from there on.
-/

namespace TtLive
open Search

/-! ### `std::string` -/

def out_of_range : Exn := "basic_string::substr"

/-- `s.find(needle, pos)`. -/
def find (s needle : Bytes) (pos : Nat) : Option Nat :=
  (find_after needle (s.drop pos)).map fun t => s.length - t.length - needle.length

/-- `s.substr(pos, n)`. -/
def substr (s : Bytes) (pos n : Nat) : Except Exn Bytes :=
  if pos ≤ s.length then .ok ((s.drop pos).take n) else .error out_of_range

/-! ### Objects -/

/-- The loop that looks for the balanced end of an object: where it stops, and whether at the closing brace. -/
def balanced_end (depth : Int) (in_str : Bool) (i : Nat) : Bytes → Nat × Bool
  | [] => (i, false)
  | c :: s =>
    if in_str then
      if c = 0x5c then
        match s with
        | [] => (i + 2, false)
        | _ :: s => balanced_end depth true (i + 2) s
      else balanced_end depth (c ≠ 0x22) (i + 1) s
    else if c = 0x22 then balanced_end depth true (i + 1) s
    else if c = 0x7b then balanced_end (depth + 1) false (i + 1) s
    else if c = 0x7d then if depth - 1 = 0 then (i, true) else balanced_end (depth - 1) false (i + 1) s
    else balanced_end depth false (i + 1) s

/-- `json_object_field`, position by position. -/
def object_field (json key : Bytes) : Except Exn Bytes :=
  match find json (needle key [0x7b]) 0 with
  | none => .ok []
  | some p =>
    let start := p + (needle key [0x7b]).length - 1
    let (i, closed) := balanced_end 0 false start (json.drop start)
    if closed then substr json start (i - start + 1) else .ok []

/-! ### One gift -/

/-- `json_int_field`, where a signed overflow ends the run. -/
def int_field (json key : Bytes) : Except Exn Int :=
  (json_int_field json key).elim (.error "signed overflow") .ok

/-- `static_cast<int32_t>`. -/
def to_int32 (n : Int) : Int := n.bmod 0x100000000

/-- The two searches for a quote from `pos` on, and the decoded text between the quotes. -/
def quoted_from (s : Bytes) (pos : Nat) : Except Exn Bytes :=
  match find s [0x22] pos with
  | none => return []
  | some q0 =>
    match find s [0x22] (q0 + 1) with
    | none => return []
    | some q1 => do
      let url ← substr s (q0 + 1) (q1 - q0 - 1)
      json_unescape url

def icon_url (obj : Bytes) : Except Exn Bytes := do
  let icon_obj ← object_field obj (lit "icon")
  match find icon_obj (lit "\"url_list\":[") 0 with
  | none => return []
  | some ul => quoted_from icon_obj (ul + 11)

/-- What a round of the walk makes of an object. -/
def read_gift (obj : Bytes) : Except Exn GiftInfo := do
  let id ← int_field obj (lit "id")
  let name ← json_string_field obj (lit "name")
  let diamond_count ← int_field obj (lit "diamond_count")
  let describe ← json_string_field obj (lit "describe")
  let type ← int_field obj (lit "type")
  let icon_url ← icon_url obj
  return { id, name, diamond_count := to_int32 diamond_count, describe, type := to_int32 type, icon_url }

/-- `if (g.id != 0) gifts.push_back(std::move(g))`. -/
def pushed (g : GiftInfo) : Option GiftInfo := if g.id ≠ 0 then some g else none

/-! ### The walk -/

/-- The skip of blanks and commas. -/
def skip_separators (i : Nat) : Bytes → Nat
  | [] => i
  | c :: s => if c = 0x20 ∨ c = 0x2c ∨ c = 0x0a then skip_separators (i + 1) s else i

/-- The position behind an object, or behind the end of the text. -/
def object_stop (body : Bytes) (start : Nat) : Nat :=
  let (i, closed) := balanced_end 0 false start (body.drop start)
  if closed then i + 1 else i

theorem le_skip_separators (s : Bytes) (i : Nat) : i ≤ skip_separators i s := by
  induction s generalizing i with
  | nil => exact Nat.le_refl i
  | cons c s ih =>
    rw [skip_separators]
    split
    · exact Nat.le_of_succ_le (ih (i + 1))
    · exact Nat.le_refl i

theorem le_balanced_end (depth : Int) (in_str : Bool) (s : Bytes) (i : Nat) :
    i ≤ (balanced_end depth in_str i s).1 := by
  fun_induction balanced_end depth in_str i s with
  | case1 => exact Nat.le_refl _
  | case2 => exact Nat.le_add_right _ 2
  | case7 => exact Nat.le_refl _
  | _ => omega

/-- The walk passes at least the opening brace. -/
theorem lt_object_stop {body : Bytes} {start : Nat} (h : start < body.length) : start < object_stop body start := by
  have hstep : start + 1 ≤ (balanced_end 0 false start (body.drop start)).1 := by
    rw [List.drop_eq_getElem_cons h, balanced_end.eq_def]
    simp only [Bool.false_eq_true, if_false]
    split
    · exact le_balanced_end _ _ _ _
    · split
      · exact le_balanced_end _ _ _ _
      · split
        · rw [if_neg (by decide)]
          exact le_balanced_end _ _ _ _
        · exact le_balanced_end _ _ _ _
  rw [object_stop]
  dsimp only
  split
  · exact Nat.lt_succ_of_lt hstep
  · exact hstep

/-- The outer loop, which leaves the reading of an object to `round`. -/
def walk {α : Type} (round : Bytes → Except Exn (Option α)) (body : Bytes) (i : Nat) : Except Exn (List α) :=
  if i < body.length then
    let start := skip_separators i (body.drop i)
    if _hend : start ≥ body.length ∨ body[start]? = some 0x5d then return []
    else if body[start]? ≠ some 0x7b then walk round body (start + 1)
    else do
      let obj ← substr body start (object_stop body start - start)
      let found ← round obj
      let rest ← walk round body (object_stop body start)
      return found.toList ++ rest
  else return []
termination_by body.length - i
decreasing_by
  · have := le_skip_separators (body.drop i) i
    omega
  · have hstart : i ≤ start := le_skip_separators (body.drop i) i
    have hstop := lt_object_stop (Nat.not_le.1 fun h => _hend (.inl h))
    show body.length - object_stop body start < body.length - i
    omega

/-- The array of gifts, with the reading of an element left to `round`. -/
def over_gifts {α : Type} (round : Bytes → Except Exn (Option α)) (body : Bytes) : Except Exn (List α) :=
  match find body (lit "\"gifts\":[") 0 with
  | none => .ok []
  | some arr => walk round body (arr + 9)

def parse_gift_list (body : Bytes) : Except Exn (List GiftInfo) := over_gifts (fun obj => pushed <$> read_gift obj) body

/-- The successive values of `obj`. -/
def gift_slices (body : Bytes) : Except Exn (List Bytes) := over_gifts (fun obj => .ok (some obj)) body

end TtLive
