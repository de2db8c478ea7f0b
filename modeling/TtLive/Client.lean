import Mathlib.Data.List.Infix
import TtLive.Actions
import TtLive.EventParser

/-!
# `client.cpp`: the client as programs

Every function of `TikTokLiveClient::Impl` that a running client executes, under its own name. A function
that may throw is `ThrowingCode`, a `while` is `iterate`, a scoped `lock_guard` is `locked`.

The generated protobuf code, `gunzip` and the three page scanners enter as fields of `Config`: nothing
below depends on what they compute.
-/

namespace TtLive
open Prog

/-- `ClientOptions`, as far as a run reads it; `raw_sink` tells whether a sink is installed. -/
structure ClientOptions where
  use_websocket : Bool := true
  use_polling : Bool := false
  fetch_live_check : Bool := true
  fetch_stream_info : Bool := true
  fetch_gift_list : Bool := false
  process_connect_events : Bool := true
  room_id_override : Int := 0
  raw_sink : Bool := false

/-- What stays fixed while a client runs: options, registered callbacks, and the code it calls. -/
structure Config where
  unique_id : Bytes
  options : ClientOptions
  any_handlers : List Nat
  handlers : EventType → List Nat
  codec : Codec
  gunzip : Bytes → Bytes
  scan_room_id : Bytes → Except Exn Int
  parse_room_info : Bytes → Except Exn StreamInfo
  parse_gift_list : Bytes → Except Exn (List GiftInfo)

section
variable (cfg : Config)

abbrev call (a : Act) : Code (Resp a) := perform a

def load (f : Flag) : Code Bool := call (.load f)
def store (f : Flag) (b : Bool) : Code Unit := call (.store f b)
def mark (m : Mark) : Code Unit := call (.mark m)

def locked {α : Type} (m : Mutex) (p : Code α) : Code α := do
  call (.lock m)
  let x ← p
  call (.unlock m)
  return x

/-- A call of the shared HTTP client or signer. -/
def net (op : NetOp) : Code op.Result := do
  call (.net_begin op)
  call (.net_end op)

/-- `running.load() && !stop_requested.load() && !live_ended.load()`, left to right. -/
def alive : Code Bool := do
  if ← load .running then
    if ← load .stop_requested then return false
    else return !(← load .live_ended)
  else return false

def not_stopped : Code Bool := do
  if ← load .running then return !(← load .stop_requested)
  else return false

/-! ### HTTP requests -/

def user_agent : Bytes :=
  lit "Mozilla/5.0 (Macintosh; Intel Mac OS X 10_15_7) AppleWebKit/537.36 (KHTML, like Gecko) Chrome/131.0.0.0 Safari/537.36"

def http_get (page : Page) (url : Bytes) (extra_headers : ParamList) : ThrowingCode HttpResponse :=
  ExceptT.mk (net (.get page url extra_headers))

def cookie_header : ThrowingCode Bytes := ExceptT.lift (net .cookie_header)

/-- The scan of `HttpClient::cookie` over a cookie header: the `;`-separated pairs from left to right. -/
def cookie_scan (name all : Bytes) : Bytes :=
  ((all.splitOn 0x3b).findSome? fun pair =>
    let pair := pair.dropWhile (· = 0x20)
    if 0x3d ∈ pair ∧ pair.takeWhile (· ≠ 0x3d) = name then some (pair.dropWhile (· ≠ 0x3d)).tail
    else none).getD []

def cookie (name : Bytes) : ThrowingCode Bytes := cookie_scan name <$> cookie_header

def referer : ParamList :=
  [(lit "Referer", lit "https://www.tiktok.com/@" ++ cfg.unique_id ++ lit "/live")]

/-- `signer->set_cookies(http.cookie_header()); return signer->sign(url)`. -/
def sign_with_cookies (url : UnsignedUrl) : ThrowingCode Bytes := do
  let cookies ← cookie_header
  ExceptT.mk (net (.set_cookies cookies))
  ExceptT.mk (net (.sign url))

/-- The unsigned URL of an `im/fetch` request. -/
def fetch_url (room_id : Int) (cursor internal_ext : Bytes) : UnsignedUrl where
  base := web_defaults.kWebcastUrl ++ lit "/im/fetch/"
  params := web_defaults.base_web_params ++ [
    (lit "room_id", to_string room_id),
    (lit "resp_content_type", lit "protobuf"),
    (lit "identity", lit "audience"),
    (lit "live_id", lit "12"),
    (lit "sup_ws_ds_opt", lit "1"),
    (lit "cursor", cursor),
    (lit "internal_ext", internal_ext)]

/-- `if (options.raw_sink) options.raw_sink(kind, data, len)`; `api` runs what user code asks for. -/
def invoke (api : ApiCall → Code Unit) (c : Callee) : Code Unit := do
  let calls ← call (.call_begin c)
  forM calls api
  call (.call_end c)

def fetch_gift_list_impl : ThrowingCode (List GiftInfo) := do
  let room_id ← ExceptT.lift (call .room_id)
  let url : UnsignedUrl := {
    base := web_defaults.kWebcastUrl ++ lit "/gift/list/"
    params := web_defaults.base_web_params ++ [(lit "room_id", to_string room_id)] }
  let resp ← http_get .gift_list url.text (referer cfg)
  if resp.status ≠ 200 ∨ resp.body = [] then return []
  else ExceptT.mk (pure (cfg.parse_gift_list resp.body))

/-- The public member functions that another thread or a callback may call; a callback swallows what
they throw. -/
def api : ApiCall → Code Unit
  | .disconnect => do
    store .stop_requested true
    store .running false
    call .close
  | .fetch_gift_list => do
    match ← (fetch_gift_list_impl cfg).run with
    | .ok gifts => call (.set_gift_list gifts)
    | .error _ => pure ()

def sink (kind data : Bytes) : Code Unit :=
  if cfg.options.raw_sink then invoke (api cfg) (.raw_sink kind data) else pure ()

/-- What `Impl::fetch_once` makes of the response. -/
def fetch_response (resp : HttpResponse) : ThrowingCode ProtoMessageFetchResult := do
  if resp.status ≠ 200 then
    throw ("im/fetch returned HTTP " ++ toString resp.status ++
      " (TikTok rejected the request — signature/cookies/fingerprint).")
  else
    ExceptT.lift (sink cfg (lit "im_fetch") resp.body)
    match cfg.codec.fetch_result resp.body with
    | some result => return result
    | none => throw "Failed to parse im/fetch protobuf response (empty or blocked)"

/-- `Impl::fetch_once` below its `lock_guard`. -/
def fetch_request (cursor internal_ext : Bytes) : ThrowingCode ProtoMessageFetchResult := do
  let room_id ← ExceptT.lift (call .room_id)
  let url ← sign_with_cookies (fetch_url room_id cursor internal_ext)
  let resp ← http_get .im_fetch url (referer cfg)
  fetch_response cfg resp

def fetch_once (cursor internal_ext : Bytes) : Code (Except Exn ProtoMessageFetchResult) := do
  mark (.fetch_once cursor internal_ext)
  let r ← locked .net_mu_ (fetch_request cfg cursor internal_ext).run
  mark (.fetched r)
  return r

/-! ### Events -/

/-- The callbacks an event is passed to, in order. -/
def callbacks (ev : Event) : List Nat := cfg.any_handlers ++ cfg.handlers ev.type

def emit (ev : Event) : Code Unit := do
  mark (.emit ev)
  forM (callbacks cfg ev) fun id => invoke (api cfg) (.callback id ev)

/-- The event that `dispatch_message` emits for a message. -/
def message_event (msg : BaseProtoMessage) : Event :=
  (parse_event cfg.codec msg.method msg.payload { msg_id := msg.msg_id }).1

/-- `Impl::dispatch_message`. The look-up in `seen_ids_` and `remember_id` are one action, `mark_seen`: both
run under `dispatch_mu_`, and nothing else touches the window. -/
def dispatch_message (msg : BaseProtoMessage) : Code Bool := do
  mark (.dispatch_message msg)
  locked .dispatch_mu_ (do
    let fresh ← (if msg.msg_id = 0 then pure true else call (.mark_seen msg.msg_id))
    if fresh then
      sink cfg (lit "msg:" ++ msg.method) msg.payload
      emit cfg (message_event cfg msg)
      if (message_event cfg msg).type = .LiveEnd then
        store .live_ended true
        return true
      else return false
    else return false)

def process_fetch_result (result : ProtoMessageFetchResult) : Code Bool :=
  result.messages.foldlM (fun ended msg => do
    if ← dispatch_message cfg msg then return true else return ended) false

/-! ### WebSocket transport -/

def ws_host : ThrowingCode Bytes := do
  let idc ← cookie (lit "tt-target-idc")
  if lit "eu" <+: idc then return lit "webcast-ws.eu.tiktok.com"
  else if lit "sg" <+: idc ∨ lit "alisg" <+: idc then return lit "webcast-ws.sg.tiktok.com"
  else return lit "webcast-ws.us.tiktok.com"

/-- The unsigned URL of a WebSocket connect; an empty cursor or extension is left out. -/
def ws_url (host : Bytes) (room_id : Int) (cursor internal_ext : Bytes) : UnsignedUrl where
  base := lit "https://" ++ host ++ lit "/webcast/im/ws_proxy/ws_reuse_supplement/"
  params := web_defaults.base_ws_params ++
    [(lit "room_id", to_string room_id), (lit "compress", lit "gzip")] ++
    (if cursor = [] then [] else [(lit "cursor", cursor)]) ++
    (if internal_ext = [] then [] else [(lit "internal_ext", internal_ext)])

def to_wss (url : Bytes) : Bytes :=
  if lit "https://" <+: url then lit "wss://" ++ url.drop 8 else url

def build_ws_url (cursor internal_ext : Bytes) : ThrowingCode Bytes := do
  let room_id ← ExceptT.lift (call .room_id)
  let host ← ws_host
  to_wss <$> sign_with_cookies (ws_url host room_id cursor internal_ext)

/-- `Impl::make_push_frame`, before it is serialised; an unset `log_id` is 0. -/
def make_push_frame (payload_type payload : Bytes) (log_id : Int) : WebcastPushFrame where
  log_id := log_id
  payload_type := payload_type
  payload_encoding := lit "pb"
  payload := payload

def ws_send_enter_room : Code Unit := do
  let room_id ← call .room_id
  let msg : WebcastImEnterRoomMessage := { room_id := room_id, identity := lit "audience", cursor := [] }
  let _ ← call (.send_binary (make_push_frame (lit "im_enter_room") (cfg.codec.enter_room_bytes msg) 0))

def ws_send_heartbeat : Code Unit := do
  let room_id ← call .room_id
  let seq ← call .next_hb_seq
  let hb : HeartBeatMessage := { room_id := room_id, send_packet_seq_id := seq }
  let _ ← call (.send_binary (make_push_frame (lit "hb") (cfg.codec.heartbeat_bytes hb) 0))

def ws_send_ack (log_id : Int) (internal_ext : Bytes) : Code Unit := do
  let payload := if internal_ext = [] then lit "-" else internal_ext
  let _ ← call (.send_binary (make_push_frame (lit "ack") payload log_id))

/-- The payload of a `msg` frame, decompressed as `ws_handle_frame` does it. -/
def frame_payload (frame : WebcastPushFrame) : Bytes :=
  let payload :=
    if frame.headers.any fun h => h.key = lit "compress_type" && h.value = lit "gzip" then
      cfg.gunzip frame.payload
    else frame.payload
  if payload.length > 2 ∧ payload[0]? = some 0x1f ∧ payload[1]? = some 0x8b then cfg.gunzip payload
  else payload

/-- The decoding steps of `ws_handle_frame`: `none` where it returns without looking further. -/
def decode_frame (raw : Bytes) : Option (WebcastPushFrame × ProtoMessageFetchResult) :=
  match cfg.codec.push_frame raw with
  | none => none
  | some frame =>
    if frame.payload_type = lit "msg" then
      (cfg.codec.fetch_result (frame_payload cfg frame)).map fun result => (frame, result)
    else none

def ws_handle_frame (raw : Bytes) : Code Bool := do
  sink cfg (lit "ws_frame") raw
  match decode_frame cfg raw with
  | none => return false
  | some (frame, result) => do
    if result.need_ack then ws_send_ack frame.log_id result.internal_ext else pure ()
    process_fetch_result cfg result

/-- `while (running && !stop_requested && !live_ended && ws.connected())`. -/
def session_alive : Code Bool := do
  if ← alive then call .connected else return false

/-- The heartbeat interval, 10 s on a clock that counts nanoseconds. -/
def hb_interval : Int := 10000000000

/-- The end of a round of the receive loop: a heartbeat when one is due. -/
def heartbeat_if_due (last_hb : Int) : Code (Int ⊕ Bool) := do
  let now ← call .now
  if now - last_hb ≥ hb_interval then
    ws_send_heartbeat cfg
    return .inl now
  else return .inl last_hb

/-- One round of the receive loop; the loop leaves with `ws_saw_live_end`. -/
def session_round (last_hb : Int) : Code (Int ⊕ Bool) := do
  if ← session_alive then
    match ← call .recv_binary with
    | (.Message, msg) =>
      if ← ws_handle_frame cfg msg then return .inr true else heartbeat_if_due cfg last_hb
    | (.Again, _) => do
      call (.sleep 20)
      heartbeat_if_due cfg last_hb
    | (.Closed, _) => return .inr false
    | (.Error, _) => return .inr false
  else return .inr false

/-- The block of `run_websocket` under `net_mu_`: the URL of the new session and the cookies it sends. -/
def session_url (initial : ProtoMessageFetchResult) : ThrowingCode (Bytes × Bytes) := do
  let url ← build_ws_url initial.cursor initial.internal_ext
  let cookies ← cookie_header
  return (url, cookies)

/-- The `try` block of `run_websocket`. -/
def open_session (initial : ProtoMessageFetchResult) : ThrowingCode Unit := do
  let (url, cookies) ← ExceptT.mk (locked .net_mu_ (session_url initial).run)
  ExceptT.mk (call (.connect url cookies user_agent))

/-- The part of `run_websocket` after the handshake. -/
def pump_session : Code WsResult := do
  call .set_ws_ever_connected
  ws_send_enter_room cfg
  let last_hb ← call .now
  let ws_saw_live_end ← iterate (session_round cfg) last_hb
  call .close
  if ← load .stop_requested then return .Stopped
  else if ws_saw_live_end then return .LiveEnded
  else if ← load .live_ended then return .LiveEnded
  else return .Dropped

def run_websocket (initial : ProtoMessageFetchResult) : Code WsResult := do
  mark (.run_websocket initial)
  match ← (open_session initial).run with
  | .error _ => do
    mark (.session .HandshakeFailed)
    return .HandshakeFailed
  | .ok _ => do
    let r ← pump_session cfg
    mark (.session r)
    return r

def interruptible_sleep (ms : Int) : Code Unit :=
  iterate (fun slept : Int => do
    if slept < ms then
      if ← not_stopped then
        call (.sleep (min 50 (ms - slept)))
        return .inl (slept + 50)
      else return .inr ()
    else return .inr ()) 0

def kMaxHandshakeFails : Nat := 6

structure Reconnect where
  cur : ProtoMessageFetchResult
  consecutive_handshake_fails : Nat

/-- In milliseconds. -/
def backoff (consecutive_handshake_fails : Nat) : Int :=
  if consecutive_handshake_fails > 0 then min (500 * consecutive_handshake_fails) 5000 else 300

/-- The end of a round: back off, refresh the cursor by a REST fetch whose messages are not emitted. -/
def reconnect (s : Reconnect) : Code (Reconnect ⊕ Bool) := do
  if ← alive then
    interruptible_sleep (backoff s.consecutive_handshake_fails)
    if ← not_stopped then
      match ← fetch_once cfg s.cur.cursor s.cur.internal_ext with
      | .ok batch => return .inl { s with cur := batch }
      | .error _ => return .inl s
    else return .inr true
  else return .inr true

def reconnect_round (allow_fallback : Bool) (s : Reconnect) : Code (Reconnect ⊕ Bool) := do
  if ← alive then
    match ← run_websocket cfg s.cur with
    | .LiveEnded => return .inr true
    | .Stopped => return .inr true
    | .HandshakeFailed =>
      if !(← call .ws_ever_connected) && allow_fallback then return .inr false
      -- `allow_fallback && ++fails >= kMaxHandshakeFails`: only counted when a fallback is allowed
      else if allow_fallback then
        if s.consecutive_handshake_fails + 1 ≥ kMaxHandshakeFails then return .inr false
        else reconnect cfg { s with consecutive_handshake_fails := s.consecutive_handshake_fails + 1 }
      else reconnect cfg s
    | .Dropped => reconnect cfg { s with consecutive_handshake_fails := 0 }
  else return .inr true

def run_websocket_with_reconnect (initial : ProtoMessageFetchResult) (allow_fallback : Bool) :
    Code Bool :=
  iterate (reconnect_round cfg allow_fallback) ⟨initial, 0⟩

/-! ### Polling -/

structure Poll where
  cursor : Bytes
  internal_ext : Bytes
  interval_ms : Int

def Poll.init (initial : ProtoMessageFetchResult) : Poll where
  cursor := initial.cursor
  internal_ext := initial.internal_ext
  interval_ms := if initial.fetch_interval > 0 then initial.fetch_interval else 1000

/-- The three conditional updates after a batch. -/
def Poll.advance (s : Poll) (batch : ProtoMessageFetchResult) : Poll where
  cursor := if batch.cursor ≠ [] then batch.cursor else s.cursor
  internal_ext := if batch.internal_ext ≠ [] then batch.internal_ext else s.internal_ext
  interval_ms := if batch.fetch_interval > 0 then batch.fetch_interval else s.interval_ms

def poll_sleep (interval_ms : Int) : Code Unit :=
  iterate (fun slept : Int => do
    if slept < interval_ms then
      if ← alive then
        call (.sleep (min 100 (interval_ms - slept)))
        return .inl (slept + 100)
      else return .inr ()
    else return .inr ()) 0

def poll_round (s : Poll) : Code (Poll ⊕ Unit) := do
  if ← alive then
    mark (.poll_round s.cursor s.internal_ext s.interval_ms)
    poll_sleep s.interval_ms
    if ← alive then
      match ← fetch_once cfg s.cursor s.internal_ext with
      | .error _ => do
        call (.sleep 1000)
        return .inl s
      | .ok batch =>
        if ← process_fetch_result cfg batch then return .inr ()
        else return .inl (s.advance batch)
    else return .inr ()
  else return .inr ()

def poll_loop (initial : ProtoMessageFetchResult) : Code Unit := do
  mark (.poll_loop initial)
  iterate (poll_round cfg) (Poll.init initial)

/-! ### `run` -/

def fetch_room_id_from_html : ThrowingCode Int := do
  let resp ← http_get .live_html (web_defaults.kAppUrl ++ lit "/@" ++ cfg.unique_id ++ lit "/live") []
  if lit "_wafchallengeid" <:+: resp.body ∨ lit "wafchallenge" <:+: resp.body then
    throw ("TikTok WAF challenge received (anti-bot). The client needs a " ++
      "valid ttwid/msToken cookie bootstrap or a challenge solver.")
  else
    let rid ← ExceptT.mk (pure (cfg.scan_room_id resp.body))
    if rid = 0 ∧ lit "\"status\":4" <:+: resp.body then throw "User is offline" else return rid

/-- A std::string as the text of an exception. -/
def text (s : Bytes) : String := String.ofList (s.map fun c => Char.ofNat c.toNat)

def fetch_room_id_from_api : ThrowingCode Int := do
  let url : UnsignedUrl := {
    base := web_defaults.kAppUrl ++ lit "/api-live/user/room/"
    params := web_defaults.base_web_params ++
      [(lit "uniqueId", cfg.unique_id), (lit "sourceType", lit "54")] }
  let resp ← http_get .user_room url.text []
  if lit "user_not_found" <:+: resp.body then throw ("User not found: " ++ text cfg.unique_id)
  else ExceptT.mk (pure (cfg.scan_room_id resp.body))

def fetch_is_live : ThrowingCode Bool := do
  let room_id ← ExceptT.lift (call .room_id)
  let url : UnsignedUrl := {
    base := web_defaults.kWebcastUrl ++ lit "/room/check_alive/"
    params := web_defaults.base_web_params ++ [(lit "room_ids", to_string room_id)] }
  let resp ← http_get .check_alive url.text []
  return decide (lit "\"alive\":true" <:+: resp.body)

def fetch_room_info : ThrowingCode StreamInfo := do
  let room_id ← ExceptT.lift (call .room_id)
  let url : UnsignedUrl := {
    base := web_defaults.kWebcastUrl ++ lit "/room/info/"
    params := web_defaults.base_web_params ++ [(lit "room_id", to_string room_id)] }
  let resp ← http_get .room_info url.text (referer cfg)
  if resp.status ≠ 200 ∨ resp.body = [] then return {}
  else ExceptT.mk (pure (cfg.parse_room_info resp.body))

def room_id_from_api : ThrowingCode Unit := do
  let rid ← fetch_room_id_from_api cfg
  ExceptT.lift (call (.set_room_id rid))

/-- Step 1 of `run`. -/
def resolve_room_id : ThrowingCode Unit := do
  if cfg.options.room_id_override ≠ 0 then
    ExceptT.lift (call (.set_room_id cfg.options.room_id_override))
  else
    match ← ExceptT.lift (fetch_room_id_from_html cfg).run with
    | .ok rid => do
      ExceptT.lift (call (.set_room_id rid))
      if rid = 0 then room_id_from_api cfg else return ()
    | .error _ => do
      ExceptT.lift (call (.set_room_id 0))
      room_id_from_api cfg

def check_room_id : ThrowingCode Unit := do
  if (← ExceptT.lift (call .room_id)) = 0 then
    throw ("Could not resolve room id for @" ++ text cfg.unique_id)
  else return ()

/-- Step 2 of `run`. -/
def live_check : ThrowingCode Unit := do
  if cfg.options.fetch_live_check then
    if ← fetch_is_live then return ()
    else throw ("User @" ++ text cfg.unique_id ++ " is not live")
  else return ()

/-- Step 2b of `run`. -/
def load_stream_info : ThrowingCode Unit := do
  if cfg.options.fetch_stream_info then
    match ← ExceptT.lift (fetch_room_info cfg).run with
    | .ok info => ExceptT.lift (call (.set_stream_info info))
    | .error _ => return ()
  else return ()

/-- Step 2c of `run`. -/
def load_gift_list : ThrowingCode Unit := do
  if cfg.options.fetch_gift_list then
    match ← ExceptT.lift (fetch_gift_list_impl cfg).run with
    | .ok gifts => ExceptT.lift (call (.set_gift_list gifts))
    | .error _ => return ()
  else return ()

/-- Steps 0 to 2c of `run`. -/
def set_up : ThrowingCode Unit := do
  let _ ← ExceptT.lift (http_get .home (web_defaults.kAppUrl ++ lit "/") []).run
  resolve_room_id cfg
  check_room_id cfg
  live_check cfg
  load_stream_info cfg
  load_gift_list cfg

def connect_event (room_id : Int) (stream : StreamInfo) : Event where
  type := .Connect
  method := lit "Connect"
  unique_id := cfg.unique_id
  room_id := room_id
  stream := stream

def disconnect_event : Event where
  type := .Disconnect
  method := lit "Disconnect"

/-- Step 6 of `run`. -/
def transport (initial : ProtoMessageFetchResult) : Code Unit := do
  if cfg.options.use_websocket && cfg.options.use_polling then
    call (.spawn initial)
    let _ ← run_websocket_with_reconnect cfg initial false
    store .stop_requested true
    call .join
  else if cfg.options.use_websocket then
    if ← run_websocket_with_reconnect cfg initial true then pure () else poll_loop cfg initial
  else poll_loop cfg initial

/-- Steps 4 to 7 of `run`. -/
def stream_events (initial : ProtoMessageFetchResult) : Code Unit := do
  let room_id ← call .room_id
  let stream ← call .stream_info
  emit cfg (connect_event cfg room_id stream)
  if cfg.options.process_connect_events then
    let _ ← process_fetch_result cfg initial
  else pure ()
  transport cfg initial
  store .running false
  emit cfg disconnect_event

def run : Code (Except Exn Unit) := do
  store .running true
  store .stop_requested false
  store .live_ended false
  match ← (set_up cfg).run with
  | .error e => return .error e
  | .ok _ =>
    match ← fetch_once cfg [] [] with
    | .error e => return .error e
    | .ok initial => do
      stream_events cfg initial
      return .ok ()

/-- The poll thread of dual mode. -/
def poller : Code (Except Exn Unit) := do
  let initial ← call .spawned
  poll_loop cfg initial
  call .exit
  return .ok ()

/-- An application thread that makes the given calls. -/
def application (calls : List ApiCall) : Code (Except Exn Unit) := do
  forM calls (api cfg)
  return .ok ()

end

/-! ### A small client and its surroundings -/

/-- A batch of messages with method `M`, serialised and parsed. -/
def sample_batch (ids : List UInt8) (cursor : Bytes) : Bytes × ProtoMessageFetchResult :=
  (ids.flatMap (fun id => [0x0a, 0x05, 0x0a, 0x01, 0x4d, 0x18, id]) ++
      (if cursor = [] then [] else 0x12 :: cursor.length.toUInt8 :: cursor),
    { messages := ids.map fun id => { method := lit "M", msg_id := id.toNat }, cursor := cursor })

/-- A `msg` frame, serialised and parsed. -/
def sample_frame (payload : Bytes) : Bytes × WebcastPushFrame :=
  ([0x32, 0x02, 0x70, 0x62, 0x3a, 0x03, 0x6d, 0x73, 0x67, 0x42, payload.length.toUInt8] ++ payload,
    { payload_encoding := lit "pb", payload_type := lit "msg", payload := payload })

/-- The generated code on a few byte strings. -/
def sample_codec : Codec where
  fetch_result b :=
    [sample_batch [] (lit "A"), sample_batch [] (lit "B"), sample_batch [1] [], sample_batch [1] (lit "B"),
      sample_batch [1, 2] (lit "B")].lookup b
  push_frame b := [sample_frame (sample_batch [1] (lit "B")).1].lookup b
  chat _ := none
  gift _ := none
  like _ := none
  member _ := none
  social _ := none
  room_user_seq _ := none
  sub_notify _ := none
  control _ := none
  enter_room_bytes m := [0x08, m.room_id.toNat.toUInt8, 0x2a, m.identity.length.toUInt8] ++ m.identity
  heartbeat_bytes m := [0x08, m.room_id.toNat.toUInt8, 0x10, m.send_packet_seq_id.toNat.toUInt8]

def sample_config (options : ClientOptions) : Config where
  unique_id := lit "u"
  options := options
  any_handlers := []
  handlers _ := []
  codec := sample_codec
  gunzip b := b
  scan_room_id _ := .ok 7
  parse_room_info _ := .ok {}
  parse_gift_list _ := .ok []

/-- Answers while nobody stops the client: `im_fetch` is the body of an `im/fetch`, `recv` what the socket
receives. -/
def sample_answer (im_fetch : Bytes) (recv : RecvStatus × Bytes) : ∀ a, Resp a
  | .load f => f = .running
  | .net_end (.get _ _ _) => .ok { status := 200, body := im_fetch }
  | .net_end .cookie_header => lit "ttwid=1"
  | .net_end (.set_cookies _) => .ok ()
  | .net_end (.sign url) => .ok url.text
  | .connect _ _ _ => .ok ()
  | .connected => true
  | .send_binary _ => true
  | .recv_binary => recv
  | .room_id => 7
  | .stream_info => {}
  | .ws_ever_connected => true
  | .next_hb_seq => 1
  | .mark_seen _ => true
  | .call_begin _ => []
  | .now => 0
  | .spawned => {}
  | .store _ _ | .lock _ | .unlock _ | .net_begin _ | .close | .set_room_id _ | .set_stream_info _
  | .set_gift_list _ | .set_ws_ever_connected | .call_end _ | .sleep _ | .spawn _ | .exit | .join
  | .mark _ => ()

end TtLive
