import Mathlib.Data.List.TakeWhile
import TtLive.WsClient

/-!
# The headers of a WebSocket handshake

`Impl::hdrs` is part of the object: each `connect` appends its headers to the list and hands the whole list
to libcurl, and only the destructor frees it. `hdrs_after` says what the list holds after any history of
calls, `own_headers` what belongs to one connect.
-/

namespace TtLive

namespace WsClient

/-- The headers of one connect. -/
def own_headers (cookie_header user_agent : Bytes) : List Bytes :=
  (if cookie_header = [] then [] else [lit "Cookie: " ++ cookie_header]) ++
    lit "Origin: https://www.tiktok.com" :: if user_agent = [] then [] else [lit "User-Agent: " ++ user_agent]

/-- The list that a connect sets as `CURLOPT_HTTPHEADER`; `curl_slist_append` copies C strings. -/
def sent_headers (c : WsClient) (cookie_header user_agent : Bytes) : List Bytes :=
  (append_headers c.hdrs cookie_header user_agent).map c_str

theorem append_headers_eq (hdrs : List Bytes) (cookies ua : Bytes) :
    append_headers hdrs cookies ua = hdrs ++ own_headers cookies ua := by
  by_cases h₁ : cookies = [] <;> by_cases h₂ : ua = [] <;> simp [append_headers, own_headers, h₁, h₂]

theorem own_headers_ne_nil (cookies ua : Bytes) : own_headers cookies ua ≠ [] := by
  simp [own_headers]

theorem length_own_headers_le (cookies ua : Bytes) : (own_headers cookies ua).length ≤ 3 := by
  unfold own_headers
  split_ifs <;> simp

end WsClient

/-- The headers that a call adds to the list: none when `curl_easy_init` fails. -/
def WsOp.added_headers : WsOp → List Bytes
  | .connect _ _ .init_failed => []
  | .connect cookies ua _ => WsClient.own_headers cookies ua
  | _ => []

theorem WsOp.added_headers_eq_nil {op : WsOp} :
    op.added_headers = [] ↔ ∀ cookies ua h, op = .connect cookies ua h → h = .init_failed := by
  constructor
  · rintro hop cookies ua h rfl
    cases h with
    | init_failed => rfl
    | perform_failed => exact absurd hop (WsClient.own_headers_ne_nil _ _)
    | ok => exact absurd hop (WsClient.own_headers_ne_nil _ _)
  · intro h
    cases op with
    | connect cookies ua hs => rw [h _ _ _ rfl]; rfl
    | send => rfl
    | recv => rfl
    | close => rfl

namespace WsClient

theorem hdrs_recv_binary (c : WsClient) (r : CurlRecv) (out : Bytes) :
    (c.recv_binary r out).2.2.hdrs = c.hdrs := by
  unfold recv_binary
  split
  · rfl
  · cases r with
    | again => rfl
    | error => rfl
    | chunk data frame =>
      dsimp only
      split_ifs <;> rfl

theorem hdrs_step (c : WsClient) (op : WsOp) : (c.step op).hdrs = c.hdrs ++ op.added_headers := by
  cases op with
  | connect cookies ua h =>
    cases h with
    | init_failed => exact (List.append_nil _).symm
    | perform_failed => exact append_headers_eq ..
    | ok => exact append_headers_eq ..
  | send ok =>
    simp only [step, send_binary, WsOp.added_headers, List.append_nil]
    split_ifs <;> rfl
  | recv r => simp [step, hdrs_recv_binary, WsOp.added_headers]
  | close => exact (List.append_nil _).symm

/-- The list after a history holds the headers of all its connects. -/
theorem hdrs_after (c : WsClient) (ops : List WsOp) :
    (c.after ops).hdrs = c.hdrs ++ ops.flatMap WsOp.added_headers := by
  induction ops generalizing c with
  | nil => exact (List.append_nil _).symm
  | cons op ops ih =>
    rw [after, List.foldl_cons, List.flatMap_cons, ← List.append_assoc, ← hdrs_step]
    exact ih _

theorem c_str_eq_self {s : Bytes} : c_str s = s ↔ 0 ∉ s := by
  rw [c_str, List.takeWhile_eq_self_iff]
  constructor
  · intro h hmem
    simpa using h 0 hmem
  · intro h x hx
    simpa using fun he : x = 0 => h (he ▸ hx)

/-- The own headers survive the conversion to C strings exactly when no string has a NUL byte in it. -/
theorem map_c_str_own_headers {cookies ua : Bytes} :
    (own_headers cookies ua).map c_str = own_headers cookies ua ↔ 0 ∉ cookies ∧ 0 ∉ ua := by
  have happ : ∀ name s : Bytes, 0 ∉ name → (c_str (name ++ s) = name ++ s ↔ 0 ∉ s) := by
    intro name s hn
    rw [c_str_eq_self, List.mem_append, not_or]
    exact ⟨fun h => h.2, fun h => ⟨hn, h⟩⟩
  have hck := happ (lit "Cookie: ") cookies (by decide)
  have hua := happ (lit "User-Agent: ") ua (by decide)
  have horigin : c_str (lit "Origin: https://www.tiktok.com") = lit "Origin: https://www.tiktok.com" := by decide
  unfold own_headers
  by_cases h₁ : cookies = [] <;> by_cases h₂ : ua = [] <;> simp [h₁, h₂, hck, hua, horigin]

/-- The header list of a connect is its own exactly when no connect before it on the object got as far as
building headers, and its strings have no NUL byte. -/
theorem headers_own_iff (history : List WsOp) (cookies ua : Bytes) :
    (sent_headers (({} : WsClient).after history) cookies ua = own_headers cookies ua ∧
        (sent_headers (({} : WsClient).after history) cookies ua).length ≤ 3) ↔
      (∀ cookies' ua' h, .connect cookies' ua' h ∈ history → h = .init_failed) ∧ 0 ∉ cookies ∧ 0 ∉ ua := by
  have hsent : sent_headers (({} : WsClient).after history) cookies ua =
      (history.flatMap WsOp.added_headers).map c_str ++ (own_headers cookies ua).map c_str := by
    rw [sent_headers, append_headers_eq, hdrs_after, List.nil_append, List.map_append]
  have hadded : history.flatMap WsOp.added_headers = [] ↔
      ∀ cookies' ua' h, .connect cookies' ua' h ∈ history → h = .init_failed := by
    rw [List.flatMap_eq_nil_iff]
    constructor
    · intro h cookies' ua' hs hmem
      exact WsOp.added_headers_eq_nil.1 (h _ hmem) _ _ _ rfl
    · rintro h op hop
      exact WsOp.added_headers_eq_nil.2 fun cookies' ua' hs he => h cookies' ua' hs (he ▸ hop)
  rw [hsent, ← hadded, ← map_c_str_own_headers]
  constructor
  · rintro ⟨heq, -⟩
    have hlen := congrArg List.length heq
    simp only [List.length_append, List.length_map] at hlen
    have hnil : history.flatMap WsOp.added_headers = [] := List.eq_nil_of_length_eq_zero (by omega)
    rw [hnil] at heq
    exact ⟨hnil, heq⟩
  · rintro ⟨hnil, hown⟩
    rw [hnil, List.map_nil, List.nil_append, hown]
    exact ⟨rfl, length_own_headers_le _ _⟩

/-- The second connect of an object sends the headers of the first one as well. -/
theorem second_connect_repeats :
    ¬ ∀ (history : List WsOp) (cookies ua : Bytes),
      sent_headers (({} : WsClient).after history) cookies ua = own_headers cookies ua ∧
        (sent_headers (({} : WsClient).after history) cookies ua).length ≤ 3 := by
  intro h
  have := (h [.connect (lit "ttwid=1") (lit "Mozilla") .ok, .close] (lit "ttwid=2") (lit "Mozilla")).1
  revert this
  decide

end WsClient

end TtLive
