import TtLive.WebDefaults

/-!
# `ws_client.cpp`: the WebSocket client

`WsClient` is the object's state. libcurl is the environment: `Handshake` is what `curl_easy_init` and
`curl_easy_perform` do in one `connect`, `CurlRecv` what one `curl_ws_recv` returns. A history of calls on
one object is a list of `WsOp`s; `results` are the values its `recv_binary` calls return.
-/

namespace TtLive

abbrev Exn := String

structure WsFlags where
  text : Bool := false
  binary : Bool := false
  cont : Bool := false
  close : Bool := false
  ping : Bool := false
  pong : Bool := false
deriving DecidableEq, Repr

structure WsFrame where
  flags : WsFlags
  bytesleft : Nat
deriving DecidableEq, Repr

/-- One `curl_ws_recv`: `CURLE_AGAIN`, another error, or a chunk with its frame's metadata. -/
inductive CurlRecv
  | again
  | error
  | chunk (data : Bytes) (frame : Option WsFrame)
deriving DecidableEq, Repr

/-- What libcurl does with a connect. -/
inductive Handshake
  | init_failed
  | perform_failed (what : Exn)
  | ok
deriving DecidableEq, Repr

inductive RecvStatus
  | Message
  | Again
  | Closed
  | Error
deriving DecidableEq, Repr

/-- State of a `WsClient`; `curl` tells whether a handle is held, `partial_buf` is `Impl::partial`. -/
structure WsClient where
  curl : Bool := false
  hdrs : List Bytes := []
  partial_buf : Bytes := []
  connected_ : Bool := false
deriving DecidableEq, Repr

namespace WsClient

/-- The header list after `connect` has appended its own headers. -/
def append_headers (hdrs : List Bytes) (cookie_header user_agent : Bytes) : List Bytes :=
  hdrs ++
    (if cookie_header ≠ [] then [lit "Cookie: " ++ cookie_header] else []) ++
    [lit "Origin: https://www.tiktok.com"] ++
    (if user_agent ≠ [] then [lit "User-Agent: " ++ user_agent] else [])

def connect (c : WsClient) (cookie_header user_agent : Bytes) : Handshake → Except Exn Unit × WsClient
  | .init_failed => (.error "WsClient: curl_easy_init failed", { c with curl := false })
  | .perform_failed what =>
    (.error what, { c with curl := false, hdrs := append_headers c.hdrs cookie_header user_agent })
  | .ok =>
    (.ok (), { c with
      curl := true, hdrs := append_headers c.hdrs cookie_header user_agent, connected_ := true })

/-- `send_binary`; `ok` tells whether `curl_ws_send` succeeds. -/
def send_binary (c : WsClient) (ok : Bool) : Bool × WsClient :=
  if !c.connected_ || !c.curl then (false, c)
  else if ok then (true, c)
  else (false, { c with connected_ := false })

/-- `recv_binary(out)` when `curl_ws_recv` returns `r`: status, `out`, and the new state. -/
def recv_binary (c : WsClient) (r : CurlRecv) (out : Bytes) : RecvStatus × Bytes × WsClient :=
  if !c.connected_ || !c.curl then (.Error, out, c)
  else match r with
    | .again => (.Again, out, c)
    | .error => (.Error, out, { c with connected_ := false })
    | .chunk buf frame =>
      if frame.any (·.flags.close) then (.Closed, out, { c with connected_ := false })
      else
        let c := { c with partial_buf := c.partial_buf ++ buf }
        if frame.any (·.bytesleft > 0) then (.Again, out, c)
        else if frame.any (·.flags.cont) then (.Again, out, c)
        else if frame.any fun f => f.flags.binary || f.flags.text then
          -- out.swap(partial); partial.clear()
          let out := c.partial_buf
          (if out = [] then .Again else .Message, out, { c with partial_buf := [] })
        else (.Again, out, { c with partial_buf := [] })

def close (c : WsClient) : WsClient := { c with connected_ := false }

/-! ### Histories -/

end WsClient

/-- A call on a `WsClient`, with what libcurl does in it. -/
inductive WsOp
  | connect (cookie_header user_agent : Bytes) (h : Handshake)
  | send (ok : Bool)
  | recv (r : CurlRecv)
  | close
deriving DecidableEq, Repr

namespace WsClient

def step (c : WsClient) : WsOp → WsClient
  | .connect cookies ua h => (c.connect cookies ua h).2
  | .send ok => (c.send_binary ok).2
  | .recv r => (c.recv_binary r []).2.2
  | .close => c.close

def after (c : WsClient) (ops : List WsOp) : WsClient := ops.foldl step c

/-- What the `recv_binary` calls of a history return; each is given an empty vector, as in
`run_websocket`. -/
def results (c : WsClient) : List WsOp → List (RecvStatus × Bytes)
  | [] => []
  | .recv r :: ops => ((c.recv_binary r []).1, (c.recv_binary r []).2.1) :: results (c.step (.recv r)) ops
  | .connect cookies ua h :: ops => results (c.step (.connect cookies ua h)) ops
  | .send ok :: ops => results (c.step (.send ok)) ops
  | .close :: ops => results (c.step .close) ops

/-- The payloads that the calls of a history return with status `Message`. -/
def messages (c : WsClient) (ops : List WsOp) : List Bytes :=
  (c.results ops).filterMap fun r => if r.1 = .Message then some r.2 else none

/-! ### What a session sees of the object -/

/-- The part of the state that the results of later calls depend on. -/
structure SameView (c d : WsClient) : Prop where
  curl : c.curl = d.curl
  connected_ : c.connected_ = d.connected_
  partial_buf : c.partial_buf = d.partial_buf

variable {c d : WsClient}

theorem SameView.recv_binary (h : SameView c d) (r : CurlRecv) (out : Bytes) :
    (c.recv_binary r out).1 = (d.recv_binary r out).1 ∧
      (c.recv_binary r out).2.1 = (d.recv_binary r out).2.1 ∧
      SameView (c.recv_binary r out).2.2 (d.recv_binary r out).2.2 := by
  obtain ⟨curl, hdrs, buf, conn⟩ := c
  obtain ⟨curl', hdrs', buf', conn'⟩ := d
  obtain ⟨rfl, rfl, rfl⟩ : curl = curl' ∧ conn = conn' ∧ buf = buf' := ⟨h.curl, h.connected_, h.partial_buf⟩
  unfold WsClient.recv_binary
  split
  · exact ⟨rfl, rfl, rfl, rfl, rfl⟩
  · cases r with
    | again => exact ⟨rfl, rfl, rfl, rfl, rfl⟩
    | error => exact ⟨rfl, rfl, rfl, rfl, rfl⟩
    | chunk data frame =>
      dsimp only
      split_ifs <;> exact ⟨rfl, rfl, rfl, rfl, rfl⟩

theorem SameView.step (h : SameView c d) (op : WsOp) : SameView (c.step op) (d.step op) := by
  cases op with
  | connect cookies ua hs =>
    cases hs with
    | ok => exact ⟨rfl, rfl, h.partial_buf⟩
    | init_failed => exact ⟨rfl, h.connected_, h.partial_buf⟩
    | perform_failed => exact ⟨rfl, h.connected_, h.partial_buf⟩
  | send ok =>
    simp only [WsClient.step, send_binary, h.curl, h.connected_]
    split
    · exact h
    · split
      · exact h
      · exact ⟨rfl, rfl, h.partial_buf⟩
  | recv r => exact (h.recv_binary r []).2.2
  | close => exact ⟨h.curl, rfl, h.partial_buf⟩

theorem SameView.results (h : SameView c d) (ops : List WsOp) : c.results ops = d.results ops := by
  induction ops generalizing c d with
  | nil => rfl
  | cons op ops ih =>
    have hs := ih (h.step op)
    cases op with
    | recv r =>
      obtain ⟨h₁, h₂, _⟩ := h.recv_binary r []
      simp only [WsClient.results, h₁, h₂, hs]
    | connect => exact hs
    | send => exact hs
    | close => exact hs

theorem connect_ok (c : WsClient) (cookies ua : Bytes) :
    c.step (.connect cookies ua .ok) =
      { c with curl := true, hdrs := append_headers c.hdrs cookies ua, connected_ := true } := rfl

/-- A single-chunk binary message on a connected client is delivered behind the bytes left over. -/
theorem results_binary {c : WsClient} (hc : c.curl = true) (hn : c.connected_ = true) (x : UInt8) :
    c.results [.recv (.chunk [x] (some ⟨{ binary := true }, 0⟩))] = [(.Message, c.partial_buf ++ [x])] := by
  simp [WsClient.results, WsClient.recv_binary, hc, hn]

/-- For any two histories: whether every later connection gives the same results after either is decided
by the bytes they leave in the reassembly buffer. -/
theorem same_sessions_iff (h₁ h₂ : List WsOp) (cookies ua : Bytes) :
    (∀ session, ((({} : WsClient).after h₁).step (.connect cookies ua .ok)).results session =
        ((({} : WsClient).after h₂).step (.connect cookies ua .ok)).results session) ↔
      (({} : WsClient).after h₁).partial_buf = (({} : WsClient).after h₂).partial_buf := by
  constructor
  · intro h
    have := h [.recv (.chunk [0] (some ⟨{ binary := true }, 0⟩))]
    rw [results_binary rfl rfl, results_binary rfl rfl] at this
    simpa [connect_ok] using this
  · exact fun h => SameView.results ⟨rfl, rfl, h⟩

/-- A connection behaves like the first connection of a new object, whatever is received on it, exactly
when the history before it left the reassembly buffer empty. -/
theorem fresh_session_iff (history : List WsOp) (cookies ua : Bytes) :
    (∀ session, ((({} : WsClient).after history).step (.connect cookies ua .ok)).results session =
        (({} : WsClient).step (.connect cookies ua .ok)).results session) ↔
      (({} : WsClient).after history).partial_buf = [] :=
  same_sessions_iff history [] cookies ua

/-- A drop inside a frame: the first message of the next connection starts with the bytes of the old one. -/
theorem stale_bytes_delivered :
    ¬ ∀ (h₁ h₂ session : List WsOp) (cookies ua : Bytes),
      ((({} : WsClient).after h₁).step (.connect cookies ua .ok)).messages session =
        ((({} : WsClient).after h₂).step (.connect cookies ua .ok)).messages session := by
  intro h
  have := h [.connect [] [] .ok, .recv (.chunk [0x41] (some ⟨{ binary := true }, 1⟩)), .recv .error] []
    [.recv (.chunk [0x42] (some ⟨{ binary := true }, 0⟩))] [] []
  revert this
  decide

end WsClient

end TtLive
