import Mathlib.Data.List.Find
import TtLive.GiftFields
import TtLive.RoomInfo

/-!
# The qualities of a stream

A round of `parse_pairs` takes the next quoted text for the key, and behind the colon the next one for the value. In
an object of strings these are a member's name and value (`pairs_aligned`), and a last member without quotes ends the
loop. Any other member that is no string gets a quoted text from further on (`pairs_shifted`).
-/

namespace TtLive
open Search Json Prog

/-! ### The pairs of an object -/

def QuoteFree (ks : List Piece) : Prop := ∀ p ∈ ks, ¬ EscapedQuote p

theorem QuoteFree.body {ks : List Piece} (h : QuoteFree ks) : 0x22 ∉ body ks := by
  rw [Json.body, List.mem_flatMap]
  rintro ⟨p, hp, hmem⟩
  exact no_quote_of_not_escaped (h p hp) hmem

/-- The members with a string. -/
def string_members : List Member → List (List Piece × List Piece)
  | [] => []
  | (ks, .string ps) :: ms => (ks, ps) :: string_members ms
  | _ :: ms => string_members ms

/-- An escape of a character below U+0080. -/
def AsciiEscape : Piece → Prop
  | .unicode a b c d _ => code_unit a b c d < 0x80
  | _ => True

/-- The label that `resolution_name` has for a name. -/
def own_label (s : Doc) (name : Bytes) : Bytes :=
  ((s.own (lit "resolution_name")).bind fun names => names.own name).elim [] fun v => decode v.pieces

/-- The quality of a member with a string. -/
structure IsQuality (s : Doc) (m : List Piece × List Piece) (q : StreamQuality) : Prop where
  quality : q.quality = decode m.1
  flv_url : (∀ p ∈ m.2, AsciiEscape p) → q.flv_url = decode m.2
  label : q.label = own_label s (decode m.1)

/-- A quality for each member with a string, in order. -/
def Listed (s : Doc) (ms : List Member) (info : StreamInfo) : Prop :=
  List.Forall₂ (IsQuality s) (string_members ms) info.qualities

end TtLive
