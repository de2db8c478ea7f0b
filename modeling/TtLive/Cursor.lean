import Mathlib.Data.List.Induction
import TtLive.Client

/-!
# The resume position

`Poll.at results` is the position that a sequence of fetch results stands for: the last non-empty `cursor`,
the last non-empty `internal_ext` and the last positive `fetch_interval` among them. The poll loop computes
it step by step (`Poll.advance`). `fetch_url` and `ws_url` carry the position they are given.
-/

namespace TtLive

/-- The last non-empty string of a list, or the empty one. -/
def last_nonempty (xs : List Bytes) : Bytes := (xs.filter (· ≠ [])).getLastD []

/-- The last positive number of a list, or 1000. -/
def last_positive (xs : List Int) : Int := (xs.filter (0 < ·)).getLastD 1000

theorem last_nonempty_snoc (xs : List Bytes) (x : Bytes) :
    last_nonempty (xs ++ [x]) = if x ≠ [] then x else last_nonempty xs := by
  by_cases h : x = [] <;> simp [last_nonempty, h]

theorem last_positive_snoc (xs : List Int) (x : Int) :
    last_positive (xs ++ [x]) = if x > 0 then x else last_positive xs := by
  by_cases h : 0 < x <;> simp [last_positive, h]

theorem last_positive_pos (xs : List Int) : 0 < last_positive xs := by
  induction xs using List.reverseRecOn with
  | nil => decide
  | append_singleton xs x ih =>
    rw [last_positive_snoc]
    split
    · assumption
    · exact ih

/-- The position that a sequence of fetch results stands for. -/
def Poll.at (results : List ProtoMessageFetchResult) : Poll where
  cursor := last_nonempty (results.map (·.cursor))
  internal_ext := last_nonempty (results.map (·.internal_ext))
  interval_ms := last_positive (results.map (·.fetch_interval))

theorem Poll.at_snoc (results : List ProtoMessageFetchResult) (batch : ProtoMessageFetchResult) :
    Poll.at (results ++ [batch]) = (Poll.at results).advance batch := by
  simp only [Poll.at, Poll.advance, List.map_append, List.map_cons, List.map_nil, last_nonempty_snoc,
    last_positive_snoc]

theorem Poll.at_single (initial : ProtoMessageFetchResult) : Poll.at [initial] = Poll.init initial := by
  have hn : ∀ x, last_nonempty [x] = x := fun x => by
    rw [← List.nil_append [x], last_nonempty_snoc]
    split
    · rfl
    · next h => rw [not_not.1 h]; rfl
  have hp : ∀ x, last_positive [x] = if x > 0 then x else 1000 := fun x => last_positive_snoc [] x
  simp only [Poll.at, Poll.init, List.map_cons, List.map_nil, hn, hp]

theorem Poll.at_interval_pos (results : List ProtoMessageFetchResult) : 0 < (Poll.at results).interval_ms :=
  last_positive_pos _

/-! ### The position in a request -/

theorem fetch_url_cursor (room_id : Int) (cursor internal_ext : Bytes) :
    (fetch_url room_id cursor internal_ext).params.param (lit "cursor") = some cursor := by
  rfl

theorem fetch_url_internal_ext (room_id : Int) (cursor internal_ext : Bytes) :
    (fetch_url room_id cursor internal_ext).params.param (lit "internal_ext") = some internal_ext := by
  rfl

theorem ws_url_cursor (host : Bytes) (room_id : Int) (cursor internal_ext : Bytes) :
    (ws_url host room_id cursor internal_ext).params.param (lit "cursor") =
      if cursor = [] then none else some cursor := by
  by_cases hc : cursor = [] <;> by_cases he : internal_ext = [] <;>
    simp only [ws_url, hc, he, if_true, if_false] <;> rfl

theorem ws_url_internal_ext (host : Bytes) (room_id : Int) (cursor internal_ext : Bytes) :
    (ws_url host room_id cursor internal_ext).params.param (lit "internal_ext") =
      if internal_ext = [] then none else some internal_ext := by
  by_cases hc : cursor = [] <;> by_cases he : internal_ext = [] <;>
    simp only [ws_url, hc, he, if_true, if_false] <;> rfl

end TtLive
