import TtLive.Prog
import TtLive.Events
import TtLive.WsClient

/-!
# What a client thread does to its surroundings

`Act` lists every access of `client.cpp` to something outside the running function: the three atomic
flags, the two mutexes, the shared `HttpClient` and `QuickJsSigner`, the `WsClient`, the members of
`Impl`, user code (the event callbacks and the debug sink), the clock and the poll thread. `Resp a` is
what comes back. A call that another thread can overlap is a pair `…_begin`, `…_end`.

`mark` has no effect. It shows in a trace where a function of the source was called, with its arguments,
or returned, with its result.
-/

namespace TtLive

inductive Flag
  | running
  | stop_requested
  | live_ended
deriving DecidableEq, Repr

inductive Mutex
  | dispatch_mu_
  | net_mu_
deriving DecidableEq, Repr

/-- What an HTTP request is for (the call sites of `http.get`). -/
inductive Page
  | home
  | live_html
  | user_room
  | check_alive
  | room_info
  | gift_list
  | im_fetch
deriving DecidableEq, Repr

structure HttpResponse where
  status : Int := 0
  body : Bytes := []
deriving DecidableEq, Repr, Inhabited

/-- The operations of `HttpClient` and `QuickJsSigner`, which share one curl handle and one JS runtime. -/
inductive NetOp
  | get (page : Page) (url : Bytes) (extra_headers : ParamList)
  | cookie_header
  | set_cookies (cookie_header : Bytes)
  | sign (url : UnsignedUrl)

@[reducible] def NetOp.Result : NetOp → Type
  | .get _ _ _ => Except Exn HttpResponse
  | .cookie_header => Bytes
  | .set_cookies _ => Except Exn Unit
  | .sign _ => Except Exn Bytes

/-- User code that the client calls: an event callback (known by its number) or the debug sink. -/
inductive Callee
  | callback (id : Nat) (ev : Event)
  | raw_sink (kind data : Bytes)

/-- What user code or another thread may ask of a running client. -/
inductive ApiCall
  | disconnect
  | fetch_gift_list
deriving DecidableEq, Repr

/-- Outcome of a single WebSocket session. -/
inductive WsResult
  | HandshakeFailed
  | LiveEnded
  | Stopped
  | Dropped
deriving DecidableEq, Repr

inductive Mark
  | fetch_once (cursor internal_ext : Bytes)
  | fetched (r : Except Exn ProtoMessageFetchResult)
  | dispatch_message (msg : BaseProtoMessage)
  | emit (ev : Event)
  | run_websocket (initial : ProtoMessageFetchResult)
  | session (r : WsResult)
  | poll_loop (initial : ProtoMessageFetchResult)
  | poll_round (cursor internal_ext : Bytes) (interval_ms : Int)

inductive Act
  | load (f : Flag)
  | store (f : Flag) (b : Bool)
  | lock (m : Mutex)
  | unlock (m : Mutex)
  | net_begin (op : NetOp)
  | net_end (op : NetOp)
  | connect (url cookie_header user_agent : Bytes)
  | connected
  | send_binary (frame : WebcastPushFrame)
  | recv_binary
  | close
  | set_room_id (id : Int)
  | room_id
  | set_stream_info (info : StreamInfo)
  | stream_info
  | set_gift_list (gifts : List GiftInfo)
  | set_ws_ever_connected
  | ws_ever_connected
  | next_hb_seq
  | mark_seen (id : Int)
  | call_begin (c : Callee)
  | call_end (c : Callee)
  | now
  | sleep (ms : Int)
  | spawn (initial : ProtoMessageFetchResult)
  | spawned
  | exit
  | join
  | mark (m : Mark)

@[reducible] def Resp : Act → Type
  | .load _ => Bool
  | .net_end op => op.Result
  | .connect _ _ _ => Except Exn Unit
  | .connected => Bool
  | .send_binary _ => Bool
  | .recv_binary => RecvStatus × Bytes
  | .room_id => Int
  | .stream_info => StreamInfo
  | .ws_ever_connected => Bool
  | .next_hb_seq => Int
  | .mark_seen _ => Bool
  | .call_begin _ => List ApiCall
  | .now => Int
  | .spawned => ProtoMessageFetchResult
  | _ => Unit

/-- Code of the client. -/
abbrev Code := Prog Act Resp

/-- Code of the client that may throw. -/
abbrev ThrowingCode := ExceptT Exn Code

end TtLive
