import Mathlib.Data.List.Induction
import Mathlib.Data.List.TakeWhile
import TtLive.WebDefaults

/-!
# `http_client.cpp`: what a transfer delivers

libcurl passes `get` the header lines of every response of a redirect chain, and the body in chunks. `header_cb` keeps a
map of the fields; `received_read` says what it holds, for every chain of well-formed responses however they are cut:
for each name, in lower case, the value of the last field of that name in any of the responses. A status line with a
colon in its reason phrase is taken for a field, too.
-/

namespace TtLive.HttpClient

def to_lower (s : Bytes) : Bytes := s.map fun c => if 0x41 ≤ c ∧ c ≤ 0x5a then c + 0x20 else c

/-- `' '`, `'\t'`. -/
def blank (c : UInt8) : Bool := c = 0x20 || c = 0x09

/-- `'\r'`, `'\n'`, `' '`, `'\t'`. -/
def line_space (c : UInt8) : Bool := c = 0x0d || c = 0x0a || blank c

/-- The lambda `trim` of `header_cb`. -/
def trim (s : Bytes) : Bytes := ((s.dropWhile blank).reverse.dropWhile line_space).reverse

/-- `(*headers)[name]`. -/
abbrev HeaderMap := Bytes → Option Bytes

def header_cb (headers : HeaderMap) (line : Bytes) : HeaderMap :=
  match line.dropWhile (· ≠ 0x3a) with
  | [] => headers
  | _ :: rest =>
    let name := trim (to_lower (line.takeWhile (· ≠ 0x3a)))
    let value := trim rest
    if name ≠ [] then Function.update headers name (some value) else headers

def write_cb (out data : Bytes) : Bytes := out ++ data

/-- A callback that libcurl calls during a transfer. -/
inductive Delivery
  | header (line : Bytes)
  | write (data : Bytes)

structure Received where
  headers : HeaderMap := fun _ => none
  body : Bytes := []

def Received.next (r : Received) : Delivery → Received
  | .header line => { r with headers := header_cb r.headers line }
  | .write data => { r with body := write_cb r.body data }

def receive (ds : List Delivery) : Received := ds.foldl Received.next {}

/-! ### Well-formed responses -/

/-- A line with a colon, with the white space around the name and the value. -/
structure Field where
  name : Bytes
  padding : Bytes
  value : Bytes
  before : Bytes
  after : Bytes
  name_ne : name ≠ []
  no_colon : 0x3a ∉ name ++ padding
  name_head : ∀ c, name.head? = some c → blank c = false
  name_last : ∀ c, name.getLast? = some c → line_space c = false
  padding_space : ∀ c ∈ padding, line_space c = true
  before_blank : ∀ c ∈ before, blank c = true
  after_space : ∀ c ∈ after, line_space c = true
  value_head : ∀ c, value.head? = some c → blank c = false
  value_last : ∀ c, value.getLast? = some c → line_space c = false

def Field.line (f : Field) : Bytes := f.name ++ f.padding ++ 0x3a :: (f.before ++ f.value ++ f.after)

/-- What a server sends, in the pieces that libcurl makes of it. -/
inductive Piece
  | status (line : Bytes) (no_colon : 0x3a ∉ line)
  /-- A status line with a colon in its reason phrase, which parts it like a field. -/
  | status_with_colon (f : Field) (version : lit "HTTP/" <+: f.name)
  | field (f : Field) (no_padding : f.padding = [])
  | blank_line
  | data (chunk : Bytes)

def Piece.delivery : Piece → Delivery
  | .status line _ => .header line
  | .status_with_colon f _ | .field f _ => .header f.line
  | .blank_line => .header [0x0d, 0x0a]
  | .data chunk => .write chunk

/-- The lines that have an entry in the map. -/
def Piece.entry : Piece → Option Field
  | .status_with_colon f _ | .field f _ => some f
  | .status _ _ | .blank_line | .data _ => none

def Piece.chunk : Piece → Option Bytes
  | .data chunk => some chunk
  | .status _ _ | .status_with_colon _ _ | .blank_line | .field _ _ => none

/-- The value of the last field of a name, which is given in lower case. -/
def last_value (fs : List Field) (name : Bytes) : Option Bytes :=
  (fs.reverse.find? fun f => to_lower f.name = name).map Field.value

/-! ### One line -/

theorem dropWhile_head {p : UInt8 → Bool} {s : Bytes} (h : ∀ c, s.head? = some c → p c = false) :
    s.dropWhile p = s := by
  cases s with
  | nil => rfl
  | cons c s => exact List.dropWhile_cons_of_neg (by simp [h c rfl])

theorem trim_padded {before value after : Bytes} (hbefore : ∀ c ∈ before, blank c = true)
    (hafter : ∀ c ∈ after, line_space c = true) (hhead : ∀ c, value.head? = some c → blank c = false)
    (hlast : ∀ c, value.getLast? = some c → line_space c = false) : trim (before ++ value ++ after) = value := by
  unfold trim
  rw [List.append_assoc, List.dropWhile_append_of_pos hbefore]
  by_cases hvalue : value = []
  · rw [hvalue, List.nil_append]
    have hall : ∀ c ∈ (after.dropWhile blank).reverse, line_space c = true := fun c hc =>
      hafter c ((List.dropWhile_sublist blank).subset (List.mem_reverse.1 hc))
    rw [List.dropWhile_eq_nil_iff.2 hall, List.reverse_nil]
  · have hhead' : ∀ c, (value ++ after).head? = some c → blank c = false := fun c hc =>
      hhead c (by rwa [List.head?_append_of_ne_nil _ hvalue] at hc)
    have hlast' : ∀ c, value.reverse.head? = some c → line_space c = false := fun c hc =>
      hlast c (by rwa [List.head?_reverse] at hc)
    rw [dropWhile_head hhead', List.reverse_append,
      List.dropWhile_append_of_pos fun c hc => hafter c (List.mem_reverse.1 hc), dropWhile_head hlast',
      List.reverse_reverse]

theorem lower_ne {c d : UInt8} (hc : 0x41 ≤ c ∧ c ≤ 0x5a) (hd : ¬ (0x41 ≤ d - 0x20 ∧ d - 0x20 ≤ 0x5a)) :
    c + 0x20 ≠ d := by
  rintro rfl
  rw [UInt8.add_sub_cancel] at hd
  exact hd hc

/-- Only letters are changed, and only into letters. -/
theorem space_lower (c : UInt8) : line_space (if 0x41 ≤ c ∧ c ≤ 0x5a then c + 0x20 else c) = line_space c ∧
    blank (if 0x41 ≤ c ∧ c ≤ 0x5a then c + 0x20 else c) = blank c := by
  split_ifs with hupper
  · have hne := fun e => lower_ne (d := e) hupper
    have hletter : ∀ e ∈ ([0x0d, 0x0a, 0x20, 0x09] : Bytes), c ≠ e := by
      rintro e he rfl
      have hsmall : ∀ e ∈ ([0x0d, 0x0a, 0x20, 0x09] : Bytes), ¬ (0x41 ≤ e ∧ e ≤ 0x5a) := by decide +kernel
      exact hsmall c he hupper
    simp [line_space, blank, hne 0x0d (by decide), hne 0x0a (by decide), hne 0x20 (by decide), hne 0x09 (by decide),
      hletter 0x0d (by decide), hletter 0x0a (by decide), hletter 0x20 (by decide), hletter 0x09 (by decide)]
  · exact ⟨rfl, rfl⟩

theorem header_cb_no_colon {headers : HeaderMap} {line : Bytes} (h : 0x3a ∉ line) :
    header_cb headers line = headers := by
  have hnil : line.dropWhile (· ≠ 0x3a) = [] :=
    List.dropWhile_eq_nil_iff.2 fun c hc => decide_eq_true fun hcolon => h (hcolon ▸ hc)
  rw [header_cb, hnil]

theorem trim_lower (f : Field) : trim (to_lower (f.name ++ f.padding)) = to_lower f.name := by
  have hpadding : ∀ c ∈ to_lower f.padding, line_space c = true := by
    intro c hc
    obtain ⟨d, hd, rfl⟩ := List.mem_map.1 hc
    rw [(space_lower d).1, f.padding_space d hd]
  have hhead : ∀ c, (to_lower f.name).head? = some c → blank c = false := by
    intro c hc
    rw [to_lower, List.head?_map] at hc
    obtain ⟨d, hd, rfl⟩ := Option.map_eq_some_iff.1 hc
    rw [(space_lower d).2, f.name_head d hd]
  have hlast : ∀ c, (to_lower f.name).getLast? = some c → line_space c = false := by
    intro c hc
    rw [to_lower, List.getLast?_map] at hc
    obtain ⟨d, hd, rfl⟩ := Option.map_eq_some_iff.1 hc
    rw [(space_lower d).1, f.name_last d hd]
  have hpadded : trim ([] ++ to_lower f.name ++ to_lower f.padding) = to_lower f.name :=
    trim_padded nofun hpadding hhead hlast
  rw [List.nil_append] at hpadded
  rw [to_lower, List.map_append]
  exact hpadded

theorem header_cb_field (headers : HeaderMap) (f : Field) :
    header_cb headers f.line = Function.update headers (to_lower f.name) (some f.value) := by
  have hname : ∀ c ∈ f.name ++ f.padding, decide (c ≠ 0x3a) = true := fun c hc =>
    decide_eq_true fun h => f.no_colon (h ▸ hc)
  have hlower : to_lower f.name ≠ [] := fun h => f.name_ne (List.map_eq_nil_iff.1 h)
  have hdrop : f.line.dropWhile (· ≠ 0x3a) = 0x3a :: (f.before ++ f.value ++ f.after) :=
    List.dropWhile_append_of_pos hname
  have htake : f.line.takeWhile (· ≠ 0x3a) = f.name ++ f.padding :=
    (List.takeWhile_append_of_pos hname).trans (List.append_nil _)
  rw [header_cb, hdrop, htake]
  show (if trim (to_lower (f.name ++ f.padding)) ≠ [] then _ else _) = _
  rw [trim_lower, if_pos hlower, trim_padded f.before_blank f.after_space f.value_head f.value_last]

/-! ### A transfer -/

theorem last_value_concat (fs : List Field) (f : Field) (name : Bytes) :
    last_value (fs ++ [f]) name = if to_lower f.name = name then some f.value else last_value fs name := by
  rw [last_value, List.reverse_append, List.reverse_singleton, List.singleton_append, List.find?_cons]
  split_ifs with h
  · rw [decide_eq_true h]
    rfl
  · rw [decide_eq_false h]
    rfl

/-- For every chain of well-formed responses, however libcurl cuts it: the body is what was sent, and the map holds for
each name, in lower case, the value of the last field of that name, whichever of the responses it is from. A status line
with a colon counts as a field: its name is the text before the colon. -/
theorem received_read (ps : List Piece) :
    (receive (ps.map Piece.delivery)).headers = last_value (ps.filterMap Piece.entry) ∧
      (receive (ps.map Piece.delivery)).body = (ps.filterMap Piece.chunk).flatten := by
  induction ps using List.reverseRecOn with
  | nil => exact ⟨rfl, rfl⟩
  | append_singleton ps p ih =>
    obtain ⟨hheaders, hbody⟩ := ih
    have hnext : receive ((ps ++ [p]).map Piece.delivery) = (receive (ps.map Piece.delivery)).next p.delivery := by
      rw [receive, List.map_append, List.foldl_append]
      rfl
    rw [hnext, List.filterMap_append, List.filterMap_append, List.flatten_append]
    -- a piece adds to the fields, to the chunks or to neither
    have hsame : ∀ h : HeaderMap, h = (receive (ps.map Piece.delivery)).headers →
        h = last_value (ps.filterMap Piece.entry ++ []) := fun h hh => by rw [hh, hheaders, List.append_nil]
    have hadded : ∀ f : Field, header_cb (receive (ps.map Piece.delivery)).headers f.line =
        last_value (ps.filterMap Piece.entry ++ [f]) := by
      intro f
      rw [header_cb_field]
      funext name
      rw [last_value_concat, Function.update_apply, hheaders]
      exact if_congr eq_comm rfl rfl
    have hkept : (receive (ps.map Piece.delivery)).body = (ps.filterMap Piece.chunk).flatten ++ [] := by
      rw [hbody, List.append_nil]
    cases p with
    | status line no_colon => exact ⟨hsame _ (header_cb_no_colon no_colon), hkept⟩
    | status_with_colon f _ => exact ⟨hadded f, hkept⟩
    | field f _ => exact ⟨hadded f, hkept⟩
    | blank_line =>
      have hblank : (0x3a : UInt8) ∉ ([0x0d, 0x0a] : Bytes) := by decide
      exact ⟨hsame _ (header_cb_no_colon hblank), hkept⟩
    | data chunk =>
      refine ⟨hsame _ rfl, ?_⟩
      show write_cb _ chunk = _ ++ (chunk ++ [])
      rw [List.append_nil, hbody]
      rfl

end TtLive.HttpClient
