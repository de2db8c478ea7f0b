import TtLive.GiftIcon

/-!
# The stream URLs of the room info

The part of `fetch_room_info` that reads the response. `parse_pairs` goes over positions as in the source; `pairs` is
the same over what is left of the text (`parse_pairs_eq`).
-/

namespace TtLive
open Search

/-- The loop over a string value: what it collects, and the position of the closing quote. -/
def string_body (j : Nat) : Bytes → Bytes × Nat
  | [] => ([], j)
  | c :: s =>
    if c = 0x5c then
      match s with
      | [] => ([c], j + 1)
      | d :: s => (c :: d :: (string_body (j + 2) s).1, (string_body (j + 2) s).2)
    else if c = 0x22 then ([], j)
    else (c :: (string_body (j + 1) s).1, (string_body (j + 1) s).2)

/-- The four searches of a round: the key, and the quote that opens the value. -/
def pair_at (obj : Bytes) (i : Nat) : Except Exn (Option (Bytes × Nat)) :=
  match find obj [0x22] i with
  | none => return none
  | some k0 =>
    match find obj [0x22] (k0 + 1) with
    | none => return none
    | some k1 => do
      let key ← substr obj (k0 + 1) (k1 - k0 - 1)
      match find obj [0x3a] k1 with
      | none => return none
      | some colon =>
        match find obj [0x22] colon with
        | none => return none
        | some v0 => return some (key, v0)

theorem le_string_body (s : Bytes) (j : Nat) : j ≤ (string_body j s).2 := by
  fun_induction string_body j s with
  | case1 => exact Nat.le_refl _
  | case2 => exact Nat.le_succ _
  | case4 => exact Nat.le_refl _
  | _ => omega

theorem find_le {s needle : Bytes} {pos p : Nat} (hn : needle ≠ []) (h : find s needle pos = some p) : pos ≤ p :=
  (find_eq_some hn h).1

theorem pair_at_le {obj key : Bytes} {i v0 : Nat} (h : pair_at obj i = .ok (some (key, v0))) :
    i ≤ v0 ∧ v0 < obj.length := by
  unfold pair_at at h
  split at h
  · cases h
  · next k0 h0 =>
    split at h
    · cases h
    · next k1 h1 =>
      obtain ⟨key', -, h⟩ := ok_of_bind h
      split at h
      · cases h
      · next colon hc =>
        split at h
        · cases h
        · next v0' hv =>
          cases h
          have hle0 := find_le (by decide) h0
          have hle1 := find_le (by decide) h1
          have hlec := find_le (by decide) hc
          obtain ⟨hle, hlen, -, -⟩ := find_eq_some (by decide) hv
          rw [List.length_singleton] at hlen
          omega

/-- The loop of `parse_pairs` from a position on. -/
def parse_pairs_from (obj : Bytes) (i : Nat) : Except Exn (List (Bytes × Bytes)) :=
  if i < obj.length then
    match _h : pair_at obj i with
    | .error e => .error e
    | .ok none => return []
    | .ok (some (key, v0)) => do
      let value ← json_unescape (string_body (v0 + 1) (obj.drop (v0 + 1))).1
      let pairs ← parse_pairs_from obj ((string_body (v0 + 1) (obj.drop (v0 + 1))).2 + 1)
      return (key, value) :: pairs
  else return []
termination_by obj.length - i
decreasing_by
  have hle := pair_at_le _h
  have hbody := le_string_body (obj.drop (v0 + 1)) (v0 + 1)
  omega

def parse_pairs (obj : Bytes) : Except Exn (List (Bytes × Bytes)) := parse_pairs_from obj 0

/-- One `StreamQuality` for each pair, with the label of its key. -/
def read_qualities (res_names : Bytes) : List (Bytes × Bytes) → Except Exn (List StreamQuality)
  | [] => return []
  | kv :: flv_pairs => do
    let label ← json_string_field res_names kv.1
    let qualities ← read_qualities res_names flv_pairs
    return { quality := kv.1, flv_url := kv.2, label } :: qualities

/-- The flat HLS URL goes to the only quality, if there is exactly one. -/
def with_flat_hls (flat_hls : Bytes) : List StreamQuality → List StreamQuality
  | [q] => if flat_hls ≠ [] then [{ q with hls_url := flat_hls }] else [q]
  | qualities => qualities

def parse_room_info (body : Bytes) : Except Exn StreamInfo := do
  let stream_url ← object_field body (lit "stream_url")
  let scope := if stream_url = [] then body else stream_url
  let default_quality ← json_string_field scope (lit "default_resolution")
  let res_names ← object_field scope (lit "resolution_name")
  let flv_obj ← object_field scope (lit "flv_pull_url")
  -- the object `hls_pull_url_map` is cut out, too, but never read
  let flat_hls ← json_string_field scope (lit "hls_pull_url")
  let flv_pairs ← (if flv_obj ≠ [] then parse_pairs flv_obj else .ok [])
  let qualities ← read_qualities res_names flv_pairs
  let rtmp_pull_url ← json_string_field scope (lit "rtmp_pull_url")
  return { default_quality, qualities := with_flat_hls flat_hls qualities, rtmp_pull_url }

/-! ### `parse_pairs` over what is left of the text -/

/-- What follows a string. -/
def after_string : Bytes → Bytes
  | [] => []
  | c :: s =>
    if c = 0x5c then
      match s with
      | [] => []
      | _ :: s => after_string s
    else if c = 0x22 then s
    else after_string s

def next_pair (s : Bytes) : Option (Bytes × Bytes) := do
  let s1 ← find_after [0x22] s
  let s2 ← find_after [0x22] s1
  let s3 ← find_after [0x3a] s2
  let s4 ← find_after [0x22] s3
  return (s1.takeWhile (· ≠ 0x22), s4)

theorem after_string_length (s : Bytes) : (after_string s).length ≤ s.length := by
  fun_induction after_string s with
  | case1 => exact Nat.le_refl _
  | case2 => exact Nat.zero_le _
  | case3 d s ih => exact Nat.le_succ_of_le (Nat.le_succ_of_le ih)
  | case4 s hc => exact Nat.le_succ _
  | case5 c s hc hq ih => exact Nat.le_succ_of_le ih

theorem next_pair_length {s key t : Bytes} (h : next_pair s = some (key, t)) : t.length < s.length := by
  unfold next_pair at h
  obtain ⟨s1, h1, h⟩ := Option.bind_eq_some_iff.1 h
  obtain ⟨s2, h2, h⟩ := Option.bind_eq_some_iff.1 h
  obtain ⟨s3, h3, h⟩ := Option.bind_eq_some_iff.1 h
  obtain ⟨s4, h4, h⟩ := Option.bind_eq_some_iff.1 h
  cases h
  have hlt1 := find_after_length h1
  have hlt2 := find_after_length h2
  have hlt3 := find_after_length h3
  have hlt4 := find_after_length h4
  omega

def pairs (s : Bytes) : Except Exn (List (Bytes × Bytes)) :=
  match _h : next_pair s with
  | none => return []
  | some (key, t) => do
    let value ← json_unescape (raw_body t)
    let more ← pairs (after_string t)
    return (key, value) :: more
termination_by s.length
decreasing_by exact Nat.lt_of_le_of_lt (after_string_length t) (next_pair_length _h)

end TtLive
