import TtLive.Client
import TtLive.ProgLogic

/-!
# What a whole run preserves, from what its parts preserve

The transport loops, `run`'s set-up and the public calls preserve an invariant of a monitor once the
functions that take a mutex, talk to the network or call user code do. `Act.plain` are the actions that
only read or write members and the clock, or send on the socket; `Act.calm` are those of them that neither
set a member the server answered for nor contribute to what is sent; `Act.still` are the calm actions outside the
loops, which look at no flag and do not sleep.

The last section is about monitors that watch the marks, the signed URLs and what the socket receives:
every other action is silent for them (`Act.quiet`).
-/

namespace TtLive
open Prog

def Act.plain : Act → Bool
  | .load _ | .store .stop_requested true | .store .running false => true
  | .connected | .send_binary _ | .close => true
  | .set_room_id _ | .room_id | .set_stream_info _ | .stream_info | .set_gift_list _ => true
  | .set_ws_ever_connected | .ws_ever_connected | .next_hb_seq | .now | .sleep _ => true
  | _ => false

/-- The plain actions outside the wire: no frame, no heartbeat number or time for one, no member that says what
the server answered. -/
def Act.calm : Act → Bool
  | .connected | .send_binary _ | .next_hb_seq | .now => false
  | .set_room_id _ | .set_stream_info _ | .stream_info | .set_ws_ever_connected | .ws_ever_connected => false
  | a => a.plain

/-- The calm actions outside the loops. -/
def Act.still : Act → Bool
  | .load _ | .sleep _ => false
  | a => a.calm

/-- The plain actions of an open session. -/
def Act.wired : Act → Bool
  | .connected | .send_binary _ | .next_hb_seq | .now => true
  | a => a.calm

/-- The plain actions of a frame that is sent. -/
def Act.sending : Act → Bool
  | .send_binary _ | .next_hb_seq | .now | .room_id => true
  | _ => false

/-- The requests that only `run`'s set-up or a public call makes, but for the room info. -/
def Page.plain : Page → Bool
  | .im_fetch | .room_info => false
  | _ => true

/-- The marks of fetches, sessions and loop rounds. -/
def Mark.plain : Mark → Bool
  | .dispatch_message _ | .emit _ => false
  | _ => true

/-- The marks of fetches and loop rounds. -/
def Mark.calm : Mark → Bool
  | .session _ => false
  | m => m.plain

section
variable {cfg : Config} {G : Type} {M : Monitor Act Resp G} {I : G → Prop}

theorem calm_of (plain : ∀ a : Act, a.plain → Keeps M I (call a)) (a : Act) (h : a.calm) : Keeps M I (call a) := by
  cases a <;> first | exact plain _ h | cases h

theorem still_of_calm (calm : ∀ a : Act, a.calm → Keeps M I (call a)) (a : Act) (h : a.still) : Keeps M I (call a) := by
  cases a <;> first | exact calm _ h | cases h

theorem still_of (plain : ∀ a : Act, a.plain → Keeps M I (call a)) : ∀ a : Act, a.still → Keeps M I (call a) :=
  still_of_calm (calm_of plain)

theorem wired_of (plain : ∀ a : Act, a.plain → Keeps M I (call a)) (a : Act) (h : a.wired) : Keeps M I (call a) := by
  cases a <;> first | exact plain _ h | exact plain _ rfl

theorem calm_of_wired (wired : ∀ a : Act, a.wired → Keeps M I (call a)) (a : Act) (h : a.calm) :
    Keeps M I (call a) := wired a (by cases a <;> first | exact h | cases h)

theorem sending_of_wired (wired : ∀ a : Act, a.wired → Keeps M I (call a)) (a : Act) (h : a.sending) :
    Keeps M I (call a) := wired a (by cases a <;> first | rfl | cases h)

theorem calm_marks (plain : ∀ m, m.plain → Keeps M I (mark m)) (m : Mark) (h : m.calm) : Keeps M I (mark m) := by
  cases m <;> first | exact plain _ h | cases h

section
variable (calm : ∀ a : Act, a.calm → Keeps M I (call a))
include calm

theorem keeps_load (f : Flag) : Keeps M I (load f) := by
  cases f <;> exact calm _ rfl

theorem keeps_alive : Keeps M I alive := by
  refine (keeps_load calm _).bind fun r => .ite ?_ (keeps_pure _)
  refine (keeps_load calm _).bind fun s => .ite (keeps_pure _) ?_
  exact (keeps_load calm _).bind fun _ => keeps_pure _

theorem keeps_not_stopped : Keeps M I not_stopped := by
  refine (keeps_load calm _).bind fun r => .ite ?_ (keeps_pure _)
  exact (keeps_load calm _).bind fun _ => keeps_pure _

theorem keeps_interruptible_sleep (ms : Int) : Keeps M I (interruptible_sleep ms) := by
  refine .iterate fun s => .ite ?_ (keeps_pure _)
  refine (keeps_not_stopped calm).bind fun b => .ite ?_ (keeps_pure _)
  exact (calm _ rfl).bind fun _ => keeps_pure _

theorem keeps_poll_sleep (ms : Int) : Keeps M I (poll_sleep ms) := by
  refine .iterate fun s => .ite ?_ (keeps_pure _)
  refine (keeps_alive calm).bind fun b => .ite ?_ (keeps_pure _)
  exact (calm _ rfl).bind fun _ => keeps_pure _

theorem keeps_session_alive (connected : Keeps M I (call .connected)) : Keeps M I session_alive :=
  (keeps_alive calm).bind fun _ => .ite connected (keeps_pure _)

end

/-! ### Signed requests -/

section
variable (still : ∀ a : Act, a.still → Keeps M I (call a))
include still

section
variable (cookie_header : Keeps M I (net .cookie_header))
  (set_cookies : ∀ c, Keeps M I (net (.set_cookies c)))
include cookie_header

omit still in
theorem keeps_ws_host : Keeps M I ws_host.run := by
  refine ((Keeps.run_lift cookie_header).run_map).run_bind fun idc => ?_
  exact .run_ite (keeps_pure _) (.run_ite (keeps_pure _) (keeps_pure _))

include set_cookies

omit still in
theorem keeps_sign_with_cookies {url : UnsignedUrl} (sign : Keeps M I (net (.sign url))) :
    Keeps M I (sign_with_cookies url).run := by
  refine (Keeps.run_lift cookie_header).run_bind fun cookies => ?_
  exact Keeps.run_bind (set_cookies cookies) fun _ => sign

omit still cookie_header set_cookies in
theorem keeps_fetch_response (sink : ∀ body, Keeps M I (sink cfg (lit "im_fetch") body))
    (resp : HttpResponse) :
    Keeps M I (fetch_response cfg resp).run := by
  refine .run_ite (keeps_ret _) ((Keeps.run_lift (sink _)).run_bind fun _ => ?_)
  cases cfg.codec.fetch_result resp.body with
  | some result => exact keeps_pure _
  | none => exact keeps_ret _

/-- The request of `fetch_once`; `sign` concerns the URLs it can send. -/
theorem keeps_fetch_request {cursor internal_ext : Bytes}
    (sign : ∀ room_id, Keeps M I (net (.sign (fetch_url room_id cursor internal_ext))))
    (get : ∀ url h, Keeps M I (net (.get .im_fetch url h)))
    (sink : ∀ body, Keeps M I (sink cfg (lit "im_fetch") body)) :
    Keeps M I (fetch_request cfg cursor internal_ext).run := by
  refine (Keeps.run_lift (still _ rfl)).run_bind fun room_id => ?_
  refine (keeps_sign_with_cookies cookie_header set_cookies (sign room_id)).run_bind fun url => ?_
  exact Keeps.run_bind (get url _) (keeps_fetch_response sink)

theorem keeps_session_url {initial : ProtoMessageFetchResult}
    (sign : ∀ host room_id, Keeps M I (net (.sign (ws_url host room_id initial.cursor initial.internal_ext)))) :
    Keeps M I (session_url initial).run := by
  refine Keeps.run_bind ?_ fun url => (Keeps.run_lift cookie_header).run_bind fun _ => keeps_pure _
  refine (Keeps.run_lift (still _ rfl)).run_bind fun room_id => ?_
  refine (keeps_ws_host cookie_header).run_bind fun host => ?_
  exact (keeps_sign_with_cookies cookie_header set_cookies (sign host room_id)).run_map

end

/-- Every network operation keeps the assertion, whichever the two requests make. -/
theorem keeps_fetch_request_of (net : ∀ op, Keeps M I (net op)) (sink : ∀ kind data, Keeps M I (sink cfg kind data))
    {cursor internal_ext : Bytes} : Keeps M I (fetch_request cfg cursor internal_ext).run :=
  keeps_fetch_request still (net _) (fun _ => net _) (fun _ => net _) (fun _ _ => net _) fun _ => sink _ _

theorem keeps_session_url_of (net : ∀ op, Keeps M I (net op)) {initial : ProtoMessageFetchResult} :
    Keeps M I (session_url initial).run :=
  keeps_session_url still (net _) (fun _ => net _) fun _ _ => net _

/-! ### Other requests -/

section
variable (get : ∀ page url h, page.plain → Keeps M I (net (.get page url h)))
  (room_info : ∀ url h, Keeps M I (net (.get .room_info url h)))
  (set_room_id : ∀ id, Keeps M I (call (.set_room_id id)))
  (set_stream_info : ∀ info, Keeps M I (call (.set_stream_info info)))
include get

omit still in
theorem keeps_http_get {page : Page} (hp : page.plain) (url : Bytes) (h : ParamList) :
    Keeps M I (http_get page url h).run := get _ _ _ hp

theorem keeps_fetch_gift_list_impl : Keeps M I (fetch_gift_list_impl cfg).run := by
  refine (Keeps.run_lift (still _ rfl)).run_bind fun room_id => ?_
  exact (keeps_http_get get rfl _ _).run_bind fun resp => .run_ite (keeps_pure _) (keeps_ret _)

theorem keeps_api (c : ApiCall) : Keeps M I (api cfg c) := by
  cases c with
  | disconnect => exact (still (.store _ _) rfl).bind fun _ => (still (.store _ _) rfl).bind fun _ => still _ rfl
  | fetch_gift_list =>
    refine (keeps_fetch_gift_list_impl still get).bind fun r => ?_
    cases r with
    | ok gifts => exact still _ rfl
    | error e => exact keeps_pure _

theorem keeps_invoke (c : Callee) (hbegin : Keeps M I (call (.call_begin c)))
    (hend : Keeps M I (call (.call_end c))) :
    Keeps M I (invoke (api cfg) c) :=
  hbegin.bind fun _ => (Keeps.forM fun c _ => keeps_api still get c).bind fun _ => hend

theorem keeps_application (calls : List ApiCall) : Keeps M I (application cfg calls) :=
  (Keeps.forM fun c _ => keeps_api still get c).bind fun _ => keeps_pure _

omit still in
theorem keeps_fetch_room_id_from_html : Keeps M I (fetch_room_id_from_html cfg).run := by
  refine (keeps_http_get get rfl _ _).run_bind fun resp => .run_ite (keeps_ret _) ?_
  refine Keeps.run_bind (keeps_ret _) fun rid => .run_ite (keeps_ret _) (keeps_pure _)

omit still in
theorem keeps_fetch_room_id_from_api : Keeps M I (fetch_room_id_from_api cfg).run :=
  (keeps_http_get get rfl _ _).run_bind fun _ => .run_ite (keeps_ret _) (keeps_ret _)

theorem keeps_fetch_is_live : Keeps M I fetch_is_live.run := by
  refine (Keeps.run_lift (still _ rfl)).run_bind fun room_id => ?_
  exact (keeps_http_get get rfl _ _).run_bind fun resp => keeps_pure _

omit get in
include room_info in
theorem keeps_fetch_room_info : Keeps M I (fetch_room_info cfg).run := by
  refine (Keeps.run_lift (still _ rfl)).run_bind fun room_id => ?_
  exact Keeps.run_bind (room_info _ _) fun resp => .run_ite (keeps_pure _) (keeps_ret _)

include set_room_id in
omit still in
theorem keeps_room_id_from_api : Keeps M I (room_id_from_api cfg).run :=
  (keeps_fetch_room_id_from_api get).run_bind fun _ => .run_lift (set_room_id _)

include set_room_id in
omit still in
theorem keeps_resolve_room_id : Keeps M I (resolve_room_id cfg).run := by
  refine .run_ite (.run_lift (set_room_id _)) ?_
  refine (Keeps.run_lift (keeps_fetch_room_id_from_html get)).run_bind fun r => ?_
  cases r with
  | ok rid =>
    refine (Keeps.run_lift (set_room_id _)).run_bind fun _ => ?_
    exact .run_ite (keeps_room_id_from_api get set_room_id) (keeps_pure _)
  | error e => exact (Keeps.run_lift (set_room_id _)).run_bind fun _ => keeps_room_id_from_api get set_room_id

omit get in
theorem keeps_check_room_id : Keeps M I (check_room_id cfg).run :=
  (Keeps.run_lift (still _ rfl)).run_bind fun _ => .run_ite (keeps_ret _) (keeps_pure _)

theorem keeps_live_check : Keeps M I (live_check cfg).run := by
  refine .run_ite ((keeps_fetch_is_live still get).run_bind fun b => ?_) (keeps_pure _)
  exact .run_ite (keeps_pure _) (keeps_ret _)

omit get in
include room_info set_stream_info in
theorem keeps_load_stream_info : Keeps M I (load_stream_info cfg).run := by
  refine .run_ite ((Keeps.run_lift (keeps_fetch_room_info still room_info)).run_bind fun r => ?_) (keeps_pure _)
  cases r with
  | ok info => exact .run_lift (set_stream_info _)
  | error e => exact keeps_pure _

theorem keeps_load_gift_list : Keeps M I (load_gift_list cfg).run := by
  refine .run_ite ((Keeps.run_lift (keeps_fetch_gift_list_impl still get)).run_bind fun r => ?_) (keeps_pure _)
  cases r with
  | ok gifts => exact .run_lift (still _ rfl)
  | error e => exact keeps_pure _

include set_room_id in
theorem keeps_set_up_of (load : Keeps M I (load_stream_info cfg).run) : Keeps M I (set_up cfg).run := by
  refine (Keeps.run_lift (keeps_http_get get rfl _ _)).run_bind fun _ => ?_
  refine (keeps_resolve_room_id get set_room_id).run_bind fun _ => ?_
  refine (keeps_check_room_id still).run_bind fun _ => ?_
  refine (keeps_live_check still get).run_bind fun _ => ?_
  exact load.run_bind fun _ => keeps_load_gift_list still get

include room_info set_room_id set_stream_info in
theorem keeps_set_up : Keeps M I (set_up cfg).run :=
  keeps_set_up_of still get set_room_id (keeps_load_stream_info still room_info set_stream_info)

end

end

/-! ### Locked sections -/

section
variable {J : G → Prop} {m : Mutex}

theorem wp_locked_iff {α : Type} {p : Code α} {Q : α → G → Prop} {g : G} :
    wp M (locked m p) Q g ↔
      wp M (call (.lock m)) (fun _ g₁ => wp M p (fun x g₂ => wp M (call (.unlock m)) (fun _ g₃ => Q x g₃) g₂) g₁) g := by
  simp only [locked, wp_bind, wp_pure]

theorem keeps_locked {α : Type} {p : Code α} (lock : ∀ g, I g → wp M (call (.lock m)) (fun _ g' => J g') g)
    (unlock : ∀ g, J g → wp M (call (.unlock m)) (fun _ g' => I g') g) (hp : Keeps M J p) :
    Keeps M I (locked m p) := fun g hg =>
  wp_locked_iff.2 (wp_mono (lock g hg) fun _ g₁ h₁ => wp_mono (hp g₁ h₁) fun _ g₂ h₂ => unlock g₂ h₂)

theorem keeps_emit {ev : Event} (mark : Keeps M J (mark (.emit ev)))
    (callback : ∀ id, Keeps M J (invoke (api cfg) (.callback id ev))) : Keeps M J (emit cfg ev) :=
  mark.bind fun _ => .forM fun id _ => callback id

theorem keeps_dispatch_message (mark : ∀ msg, Keeps M I (mark (.dispatch_message msg)))
    (lock : ∀ g, I g → wp M (call (.lock .dispatch_mu_)) (fun _ g' => J g') g)
    (unlock : ∀ g, J g → wp M (call (.unlock .dispatch_mu_)) (fun _ g' => I g') g)
    (mark_seen : ∀ id, Keeps M J (call (.mark_seen id)))
    (sink : ∀ msg : BaseProtoMessage, Keeps M J (sink cfg (lit "msg:" ++ msg.method) msg.payload))
    (emit : ∀ msg, Keeps M J (emit cfg (message_event cfg msg))) (store : Keeps M J (store .live_ended true))
    (msg : BaseProtoMessage) :
    Keeps M I (dispatch_message cfg msg) := by
  refine (mark msg).bind fun _ => keeps_locked lock unlock ?_
  refine (Keeps.ite (keeps_pure _) (mark_seen _)).bind fun fresh => .ite ?_ (keeps_pure _)
  refine (sink msg).bind fun _ => (emit _).bind fun _ => .ite ?_ (keeps_pure _)
  exact store.bind fun _ => keeps_pure _

theorem keeps_fetch_once {cursor internal_ext : Bytes} (mark : ∀ m, m.calm → Keeps M I (mark m))
    (lock : ∀ g, I g → wp M (call (.lock .net_mu_)) (fun _ g' => J g') g)
    (unlock : ∀ g, J g → wp M (call (.unlock .net_mu_)) (fun _ g' => I g') g)
    (request : Keeps M J (fetch_request cfg cursor internal_ext).run) :
    Keeps M I (fetch_once cfg cursor internal_ext) :=
  (mark _ rfl).bind fun _ => (keeps_locked lock unlock request).bind fun _ =>
    (mark _ rfl).bind fun _ => keeps_pure _

theorem keeps_open_session {initial : ProtoMessageFetchResult}
    (lock : ∀ g, I g → wp M (call (.lock .net_mu_)) (fun _ g' => J g') g)
    (unlock : ∀ g, J g → wp M (call (.unlock .net_mu_)) (fun _ g' => I g') g)
    (request : Keeps M J (session_url initial).run)
    (connect : ∀ url cookies ua, Keeps M I (call (.connect url cookies ua))) :
    Keeps M I (open_session initial).run :=
  Keeps.run_bind (p := ExceptT.mk _) (keeps_locked lock unlock request) fun _ => connect _ _ _

end

/-! ### Transport loops -/

section
variable (calm : ∀ a : Act, a.calm → Keeps M I (call a))
  (dispatch : ∀ msg, Keeps M I (dispatch_message cfg msg))
  (fetch : ∀ cursor internal_ext, Keeps M I (fetch_once cfg cursor internal_ext))

include dispatch in
theorem keeps_process_fetch_result (result : ProtoMessageFetchResult) :
    Keeps M I (process_fetch_result cfg result) := by
  refine Keeps.foldlM fun ended msg => ?_
  exact (dispatch msg).bind fun b => .ite (keeps_pure _) (keeps_pure _)

include calm dispatch fetch in
/-- The mark comes first, so the loop keeps what holds from then on. -/
theorem wp_begun_poll_loop (mark : ∀ m, m.calm → Keeps M I (mark m)) {initial : ProtoMessageFetchResult} {g : G}
    (h : wp M (TtLive.mark (.poll_loop initial)) (fun _ g' => I g') g) :
    wp M (poll_loop cfg initial) (fun _ g' => I g') g := by
  refine wp_bind.2 (wp_mono h fun _ => Keeps.iterate fun s => ?_)
  refine (keeps_alive calm).bind fun b => .ite ?_ (keeps_pure _)
  refine (mark _ rfl).bind fun _ => (keeps_poll_sleep calm _).bind fun _ => ?_
  refine (keeps_alive calm).bind fun b => .ite ((fetch _ _).bind fun r => ?_) (keeps_pure _)
  cases r with
  | error e => exact (calm _ rfl).bind fun _ => keeps_pure _
  | ok batch =>
    refine (keeps_process_fetch_result dispatch batch).bind fun b => ?_
    exact .ite (keeps_pure _) (keeps_pure _)

include calm dispatch fetch in
theorem keeps_poll_loop (mark : ∀ m, m.calm → Keeps M I (mark m)) (initial : ProtoMessageFetchResult) :
    Keeps M I (poll_loop cfg initial) := fun g hg =>
  wp_begun_poll_loop calm dispatch fetch mark (mark _ rfl g hg)

include calm fetch in
theorem keeps_reconnect (s : Reconnect) : Keeps M I (reconnect cfg s) := by
  refine (keeps_alive calm).bind fun b => .ite ?_ (keeps_pure _)
  refine (keeps_interruptible_sleep calm _).bind fun _ => ?_
  refine (keeps_not_stopped calm).bind fun b => .ite ((fetch _ _).bind fun r => ?_) (keeps_pure _)
  cases r <;> exact keeps_pure _

include calm fetch in
/-- The reconnect loop keeps what its sessions keep. -/
theorem keeps_sessions (session : ∀ cur, Keeps M I (run_websocket cfg cur)) (ever : Keeps M I (call .ws_ever_connected))
    (initial : ProtoMessageFetchResult) (allow_fallback : Bool) :
    Keeps M I (run_websocket_with_reconnect cfg initial allow_fallback) := by
  refine .iterate fun s => (keeps_alive calm).bind fun b => .ite ?_ (keeps_pure _)
  refine (session _).bind fun r => ?_
  cases r with
  | LiveEnded => exact keeps_pure _
  | Stopped => exact keeps_pure _
  | HandshakeFailed =>
    refine ever.bind fun c => .ite (keeps_pure _) (.ite (.ite (keeps_pure _) ?_) ?_)
    · exact keeps_reconnect calm fetch _
    · exact keeps_reconnect calm fetch _
  | Dropped => exact keeps_reconnect calm fetch _

end

/-! ### Sessions -/

section
variable (sending : ∀ a : Act, a.sending → Keeps M I (call a))
include sending

theorem keeps_ws_send_enter_room : Keeps M I (ws_send_enter_room cfg) :=
  (sending _ rfl).bind fun _ => (sending _ rfl).bind fun _ => keeps_pure _

theorem keeps_ws_send_heartbeat : Keeps M I (ws_send_heartbeat cfg) :=
  (sending _ rfl).bind fun _ => (sending _ rfl).bind fun _ => (sending _ rfl).bind fun _ => keeps_pure _

theorem keeps_ws_send_ack (log_id : Int) (internal_ext : Bytes) :
    Keeps M I (ws_send_ack log_id internal_ext) :=
  (sending _ rfl).bind fun _ => keeps_pure _

theorem keeps_heartbeat_if_due (last_hb : Int) : Keeps M I (heartbeat_if_due cfg last_hb) := by
  refine (sending _ rfl).bind fun now => .ite ?_ (keeps_pure _)
  exact (keeps_ws_send_heartbeat sending).bind fun _ => keeps_pure _

variable (dispatch : ∀ msg, Keeps M I (dispatch_message cfg msg))
  (sink : ∀ raw, Keeps M I (sink cfg (lit "ws_frame") raw))
include dispatch sink

theorem keeps_ws_handle_frame (raw : Bytes) : Keeps M I (ws_handle_frame cfg raw) := by
  refine (sink raw).bind fun _ => ?_
  cases decode_frame cfg raw with
  | none => exact keeps_pure _
  | some r =>
    obtain ⟨frame, result⟩ := r
    have hp := keeps_process_fetch_result dispatch result
    exact .ite ((keeps_ws_send_ack sending _ _).bind fun _ => hp) hp

end

section
variable (wired : ∀ a : Act, a.wired → Keeps M I (call a))
  (dispatch : ∀ msg, Keeps M I (dispatch_message cfg msg))
  (recv : Keeps M I (call .recv_binary)) (sink : ∀ raw, Keeps M I (sink cfg (lit "ws_frame") raw))
include wired dispatch recv sink

theorem keeps_session_round (last_hb : Int) : Keeps M I (session_round cfg last_hb) := by
  refine (keeps_session_alive (calm_of_wired wired) (wired _ rfl)).bind fun b => .ite (recv.bind fun r => ?_) (keeps_pure _)
  obtain ⟨st, msg⟩ := r
  cases st with
  | Message =>
    refine (keeps_ws_handle_frame (sending_of_wired wired) dispatch sink msg).bind fun b => ?_
    exact .ite (keeps_pure _) (keeps_heartbeat_if_due (sending_of_wired wired) _)
  | Again => exact (wired _ rfl).bind fun _ => keeps_heartbeat_if_due (sending_of_wired wired) _
  | Closed => exact keeps_pure _
  | Error => exact keeps_pure _

/-- The member is set first, so the session keeps what holds from then on. -/
theorem wp_pump_session {g : G} (h : wp M (call .set_ws_ever_connected) (fun _ g' => I g') g) :
    wp M (pump_session cfg) (fun _ g' => I g') g := by
  refine wp_bind.2 (wp_mono h ?_)
  refine fun _ => (keeps_ws_send_enter_room (sending_of_wired wired)).bind fun _ => ?_
  refine (wired _ rfl).bind fun hb => (Keeps.iterate fun s => ?_).bind fun ended => ?_
  · exact keeps_session_round wired dispatch recv sink s
  · refine (wired _ rfl).bind fun _ => (keeps_load (calm_of_wired wired) _).bind fun stop => .ite (keeps_pure _) ?_
    refine .ite (keeps_pure _) ((keeps_load (calm_of_wired wired) _).bind fun live => ?_)
    exact .ite (keeps_pure _) (keeps_pure _)

end

section
variable (plain : ∀ a : Act, a.plain → Keeps M I (call a)) (dispatch : ∀ msg, Keeps M I (dispatch_message cfg msg))
  (recv : Keeps M I (call .recv_binary)) (sink : ∀ raw, Keeps M I (sink cfg (lit "ws_frame") raw))
include plain dispatch recv sink

theorem keeps_pump_session : Keeps M I (pump_session cfg) := fun g hg =>
  wp_pump_session (wired_of plain) dispatch recv sink (plain _ rfl g hg)

variable (mark : ∀ m, m.plain → Keeps M I (mark m))
  (openS : ∀ initial, Keeps M I (open_session initial).run)
include mark openS

omit plain dispatch recv sink in
theorem keeps_run_websocket_of (pump : Keeps M I (pump_session cfg)) (initial : ProtoMessageFetchResult) :
    Keeps M I (run_websocket cfg initial) := by
  refine (mark _ rfl).bind fun _ => (openS initial).bind fun r => ?_
  cases r with
  | error e => exact (mark _ rfl).bind fun _ => keeps_pure _
  | ok _ => exact pump.bind fun r => (mark _ rfl).bind fun _ => keeps_pure _

theorem keeps_run_websocket (initial : ProtoMessageFetchResult) : Keeps M I (run_websocket cfg initial) :=
  keeps_run_websocket_of mark openS (keeps_pump_session plain dispatch recv sink) initial

theorem keeps_run_websocket_with_reconnect
    (fetch : ∀ cursor internal_ext, Keeps M I (fetch_once cfg cursor internal_ext))
    (initial : ProtoMessageFetchResult) (allow_fallback : Bool) :
    Keeps M I (run_websocket_with_reconnect cfg initial allow_fallback) :=
  keeps_sessions (calm_of plain) fetch (keeps_run_websocket plain dispatch recv sink mark openS) (plain _ rfl) initial
    allow_fallback

end

/-! ### Threads -/

section
variable (still : ∀ a : Act, a.still → Keeps M I (call a))
  (ws_path : ∀ initial allow_fallback, Keeps M I (run_websocket_with_reconnect cfg initial allow_fallback))
  (poll : ∀ initial, Keeps M I (poll_loop cfg initial))

include still ws_path poll in
theorem keeps_transport (spawn : ∀ initial, Keeps M I (call (.spawn initial)))
    (join : Keeps M I (call .join))
    (initial : ProtoMessageFetchResult) : Keeps M I (transport cfg initial) := by
  refine .ite ?_ (.ite ?_ (poll _))
  · refine (spawn initial).bind fun _ => (ws_path initial false).bind fun _ => ?_
    exact (still (.store _ _) rfl).bind fun _ => join
  · exact (ws_path initial true).bind fun handled => .ite (keeps_pure _) (poll _)

include still in
theorem keeps_stream_events (stream_info : Keeps M I (call .stream_info))
    (dispatch : ∀ msg, Keeps M I (dispatch_message cfg msg))
    (transport : ∀ initial, Keeps M I (transport cfg initial))
    (connect : ∀ room_id stream, Keeps M I (emit cfg (connect_event cfg room_id stream)))
    (disconnect : Keeps M I (emit cfg disconnect_event)) (initial : ProtoMessageFetchResult) :
    Keeps M I (stream_events cfg initial) := by
  have hlast : Keeps M I (do
      TtLive.transport cfg initial
      store .running false
      emit cfg disconnect_event) :=
    (transport initial).bind fun _ => (still (.store _ _) rfl).bind fun _ => disconnect
  refine (still _ rfl).bind fun room_id => stream_info.bind fun stream => (connect room_id stream).bind fun _ => ?_
  exact .ite ((keeps_process_fetch_result dispatch initial).bind fun _ => hlast) hlast

theorem keeps_run (stores : ∀ f b, Keeps M I (store f b))
    (set_up : Keeps M I (set_up cfg).run)
    (fetch : Keeps M I (fetch_once cfg [] [])) (stream : ∀ initial, Keeps M I (stream_events cfg initial)) :
    Keeps M I (run cfg) := by
  refine (stores _ _).bind fun _ => (stores _ _).bind fun _ => (stores _ _).bind fun _ => ?_
  refine set_up.bind fun r => ?_
  cases r with
  | error e => exact keeps_pure _
  | ok _ =>
    refine fetch.bind fun r => ?_
    cases r with
    | error e => exact keeps_pure _
    | ok initial => exact (stream initial).bind fun _ => keeps_pure _

include poll in
theorem keeps_poller (spawned : Keeps M I (call .spawned)) (exit : Keeps M I (call .exit)) :
    Keeps M I (poller cfg) :=
  spawned.bind fun initial => (poll initial).bind fun _ => exit.bind fun _ => keeps_pure _

end

end

/-! ### What a fetch and a session do -/

/-- The actions other than a connect, the store that follows it, and the marks of fetches, sessions and loop rounds. -/
def Act.inner : Act → Bool
  | .connect _ _ _ | .set_ws_ever_connected => false
  | .mark m => !m.plain
  | _ => true

theorem Act.inner_of_wired {a : Act} (h : a.wired) : a.inner := by
  cases a <;> first | rfl | cases h

section
variable {cfg : Config}

theorem does_act {a : Act} (h : a.inner) : Does (·.inner) (call a) := does_perform h

theorem does_wired (a : Act) (h : a.wired) : Does (·.inner) (call a) := does_act (Act.inner_of_wired h)

theorem does_still : ∀ a : Act, a.still → Does (·.inner) (call a) := still_of_calm (calm_of_wired does_wired)

theorem does_net (op : NetOp) : Does (·.inner) (net op) := (does_act rfl).bind fun _ => does_act rfl

theorem does_invoke (c : Callee) : Does (·.inner) (invoke (api cfg) c) :=
  keeps_invoke does_still (fun _ _ _ _ => does_net _) c (does_act rfl) (does_act rfl)

theorem does_sink (kind data : Bytes) : Does (·.inner) (sink cfg kind data) :=
  .ite (does_invoke _) (keeps_pure _)

theorem does_locked {α : Type} {m : Mutex} {p : Code α} (h : Does (·.inner) p) :
    Does (·.inner) (locked m p) :=
  keeps_locked (does_act rfl) (does_act rfl) h

theorem does_emit (ev : Event) : Does (·.inner) (emit cfg ev) :=
  keeps_emit (does_act rfl) fun _ => does_invoke _

theorem does_dispatch_message (msg : BaseProtoMessage) : Does (·.inner) (dispatch_message cfg msg) :=
  keeps_dispatch_message (fun _ => does_act rfl) (does_act rfl) (does_act rfl)
    (fun _ => does_act rfl) (fun _ => does_sink _ _) (fun _ => does_emit _) (does_act rfl) msg

theorem does_fetch_request (cursor internal_ext : Bytes) :
    Does (·.inner) (locked .net_mu_ (fetch_request cfg cursor internal_ext).run) :=
  does_locked (keeps_fetch_request_of does_still does_net does_sink)

theorem does_session_url (initial : ProtoMessageFetchResult) :
    Does (·.inner) (locked .net_mu_ (session_url initial).run) :=
  does_locked (keeps_session_url_of does_still does_net)

end

/-! ### Monitors of the marks -/

/-- The monitor allows the action and does not notice it. -/
def Silent {G : Type} (M : Monitor Act Resp G) (a : Act) : Prop :=
  ∀ g, M.ok g a ∧ ∀ r g', M.next g a r g' → g' = g

def Act.quiet : Act → Bool
  | .mark _ | .connect _ _ _ | .recv_binary | .net_begin (.sign _) => false
  | _ => true

theorem Act.quiet_of_plain {a : Act} (h : a.plain) : a.quiet := by
  cases a <;> first | rfl | cases h

section
variable {cfg : Config} {G : Type} {M : Monitor Act Resp G} {I : G → Prop}

theorem Silent.keeps {a : Act} (h : Silent M a) : Keeps M I (call a) := fun g hg =>
  ⟨(h g).1, fun r g' hn => (h g).2 r g' hn ▸ hg⟩

variable (quiet : ∀ a : Act, a.quiet → Silent M a)
include quiet

theorem keeps_quiet (a : Act) (h : a.quiet) : Keeps M I (call a) := (quiet a h).keeps

theorem keeps_quiet_net (op : NetOp) (h : (Act.net_begin op).quiet) : Keeps M I (net op) :=
  (keeps_quiet quiet _ h).bind fun _ => keeps_quiet quiet (.net_end op) rfl

theorem keeps_quiet_invoke (c : Callee) : Keeps M I (invoke (api cfg) c) :=
  keeps_invoke (still_of fun a h => keeps_quiet quiet a (Act.quiet_of_plain h))
    (fun _ _ _ _ => keeps_quiet_net quiet _ rfl) c (keeps_quiet quiet _ rfl) (keeps_quiet quiet _ rfl)

theorem keeps_quiet_sink (kind data : Bytes) : Keeps M I (sink cfg kind data) :=
  .ite (keeps_quiet_invoke quiet _) (keeps_pure _)

theorem wp_locked {α : Type} {m : Mutex} {p : Code α} {Q : α → G → Prop} {g : G} (h : wp M p Q g) :
    wp M (locked m p) Q g :=
  wp_bind_keeps (keeps_quiet quiet (.lock m) rfl) fun _ => wp_bind.2 <| wp_mono h fun x _ h₁ =>
    wp_bind_keeps (f := fun _ => pure x) (keeps_quiet quiet (.unlock m) rfl) fun _ => h₁

/-- `emit` is its mark, as far as such a monitor is concerned. -/
theorem wp_emit {ev : Event} {Q : Unit → G → Prop} {g : G}
    (h : M.ok g (.mark (.emit ev)) ∧ ∀ r g', M.next g (.mark (.emit ev)) r g' → Q () g') :
    wp M (emit cfg ev) Q g := by
  refine wp_perform_bind.2 ⟨h.1, fun r g' hn => ?_⟩
  exact Keeps.forM (I := Q ()) (fun id _ => keeps_quiet_invoke quiet _) g' (h.2 r g' hn)

/-- `dispatch_message` is its mark, followed by the mark of `emit` when the message is new. -/
theorem wp_dispatch_message {msg : BaseProtoMessage} {Q : Bool → G → Prop} {g : G}
    (h : M.ok g (.mark (.dispatch_message msg)) ∧ ∀ r g₁, M.next g (.mark (.dispatch_message msg)) r g₁ →
      Q false g₁ ∧ M.ok g₁ (.mark (.emit (message_event cfg msg))) ∧
        ∀ r g₂, M.next g₁ (.mark (.emit (message_event cfg msg))) r g₂ →
          Q (decide ((message_event cfg msg).type = .LiveEnd)) g₂) :
    wp M (dispatch_message cfg msg) Q g := by
  refine wp_perform_bind.2 ⟨h.1, fun r g₁ hn => wp_locked quiet ?_⟩
  obtain ⟨hold, hemit⟩ := h.2 r g₁ hn
  refine wp_bind_keeps (.ite (keeps_pure _) (keeps_quiet quiet (.mark_seen _) rfl)) fun fresh => ?_
  cases fresh with
  | false => exact hold
  | true =>
    refine wp_bind_keeps (keeps_quiet_sink quiet _ _) fun _ =>
      wp_bind.2 (wp_emit quiet ⟨hemit.1, fun r g₂ hn => ?_⟩)
    have hQ := hemit.2 r g₂ hn
    by_cases hlive : (message_event cfg msg).type = .LiveEnd
    · rw [if_pos hlive]
      rw [decide_eq_true hlive] at hQ
      exact wp_bind_keeps (f := fun _ => pure true) (keeps_quiet quiet (.store _ _) rfl) fun _ => hQ
    · rw [if_neg hlive]
      rwa [decide_eq_false hlive] at hQ

/-- `fetch_once` is its mark, the request, and the mark of the result. -/
theorem wp_fetch_once {cursor internal_ext : Bytes} {Q : Except Exn ProtoMessageFetchResult → G → Prop}
    {g : G}
    (J : G → Prop)
    (hbegin : M.ok g (.mark (.fetch_once cursor internal_ext)) ∧
      ∀ r g₁, M.next g (.mark (.fetch_once cursor internal_ext)) r g₁ → J g₁)
    (sign : ∀ room_id, Keeps M J (net (.sign (fetch_url room_id cursor internal_ext))))
    (hend : ∀ r g₁, J g₁ → M.ok g₁ (.mark (.fetched r)) ∧
      ∀ u g₂, M.next g₁ (.mark (.fetched r)) u g₂ → Q r g₂) :
    wp M (fetch_once cfg cursor internal_ext) Q g := by
  refine wp_perform_bind.2 ⟨hbegin.1, fun r g₁ hn => wp_bind.2 (wp_locked quiet (wp_mono ?_ hend))⟩
  exact keeps_fetch_request (I := J) (still_of fun a h => keeps_quiet quiet a (Act.quiet_of_plain h))
    (keeps_quiet_net quiet _ rfl) (fun _ => keeps_quiet_net quiet _ rfl) sign
    (fun _ _ => keeps_quiet_net quiet _ rfl) (fun _ => keeps_quiet_sink quiet _ _) g₁ (hbegin.2 r g₁ hn)

theorem keeps_quiet_open_session {initial : ProtoMessageFetchResult}
    (sign : ∀ host room_id, Keeps M I (net (.sign (ws_url host room_id initial.cursor initial.internal_ext))))
    (connect : ∀ url cookies ua, Keeps M I (call (.connect url cookies ua))) :
    Keeps M I (open_session initial).run := by
  refine Keeps.run_bind (p := ExceptT.mk _) (fun g hg => wp_locked quiet ?_) fun _ => connect _ _ _
  exact keeps_session_url (still_of fun a h => keeps_quiet quiet a (Act.quiet_of_plain h)) (keeps_quiet_net quiet _ rfl)
    (fun _ => keeps_quiet_net quiet _ rfl) sign g hg

/-- Invariant rule for the reconnect loop: `J cur g` holds whenever a session is opened at `cur`. -/
theorem wp_run_websocket_with_reconnect {initial : ProtoMessageFetchResult} {allow_fallback : Bool} {g : G}
    (J : ProtoMessageFetchResult → G → Prop)
    (session : ∀ cur g, J cur g → wp M (run_websocket cfg cur) (fun _ g' => J cur g') g)
    (refresh : ∀ cur g, J cur g → wp M (fetch_once cfg cur.cursor cur.internal_ext)
      (orThrow (fun batch g' => J batch g') (fun _ g' => J cur g')) g)
    (h₀ : J initial g) :
    wp M (run_websocket_with_reconnect cfg initial allow_fallback) (fun _ g' => ∃ cur, J cur g') g := by
  have calm : ∀ {I} (a : Act), a.calm → Keeps M I (call a) :=
    calm_of fun a ha => keeps_quiet quiet a (Act.quiet_of_plain ha)
  have hreconnect : ∀ s g, J s.cur g → wp M (reconnect cfg s)
      (fun x g' => Sum.elim (fun s' : Reconnect => J s'.cur g') (fun _ => ∃ cur, J cur g') x) g := by
    intro s g h
    refine wp_bind_keeps (keeps_alive calm) fun b => ?_
    cases b with
    | false => exact ⟨_, h⟩
    | true =>
      refine wp_bind_keeps (keeps_interruptible_sleep calm _) fun _ => ?_
      refine wp_bind_keeps (keeps_not_stopped calm) fun b => ?_
      cases b with
      | false => exact ⟨_, h⟩
      | true =>
        refine wp_bind.2 (wp_mono (refresh _ _ h) fun r g' hr => ?_)
        cases r <;> exact hr
  refine wp_iterate (fun s g => J s.cur g) h₀ fun s g h => ?_
  refine wp_bind_keeps (keeps_alive calm) fun b => ?_
  cases b with
  | false => exact ⟨_, h⟩
  | true =>
    refine wp_bind.2 (wp_mono (session _ _ h) fun r g' h' => ?_)
    cases r with
    | LiveEnded => exact ⟨_, h'⟩
    | Stopped => exact ⟨_, h'⟩
    | Dropped => exact hreconnect _ _ h'
    | HandshakeFailed =>
      refine wp_bind_keeps (keeps_quiet quiet _ rfl) fun ever => ?_
      split
      · exact ⟨_, h'⟩
      · split
        · split
          · exact ⟨_, h'⟩
          · exact hreconnect _ _ h'
        · exact hreconnect _ _ h'

/-- Invariant rule for the poll loop: `J s g` holds at the start of each round. -/
theorem wp_poll_rounds {initial : ProtoMessageFetchResult} {Q : Unit → G → Prop} {g : G}
    (J : Poll → G → Prop)
    (exit : ∀ s g, J s g → Q () g)
    (begin_loop : M.ok g (.mark (.poll_loop initial)) ∧
      ∀ r g', M.next g (.mark (.poll_loop initial)) r g' → J (Poll.init initial) g')
    (begin_round : ∀ s g, J s g → M.ok g (.mark (.poll_round s.cursor s.internal_ext s.interval_ms)) ∧
      ∀ r g', M.next g (.mark (.poll_round s.cursor s.internal_ext s.interval_ms)) r g' → J s g')
    (batch : ∀ s g, J s g → wp M (fetch_once cfg s.cursor s.internal_ext)
      (orThrow (fun batch g' => wp M (process_fetch_result cfg batch)
        (fun ended g' => if ended then Q () g' else J (s.advance batch) g') g') (fun _ g' => J s g')) g) :
    wp M (poll_loop cfg initial) Q g := by
  have calm : ∀ {I} (a : Act), a.calm → Keeps M I (call a) :=
    calm_of fun a ha => keeps_quiet quiet a (Act.quiet_of_plain ha)
  refine wp_perform_bind.2 ⟨begin_loop.1, fun r g' hn => wp_iterate J (begin_loop.2 r g' hn) fun s g h => ?_⟩
  refine wp_bind_keeps (keeps_alive calm) fun b => ?_
  cases b with
  | false => exact exit _ _ h
  | true =>
    refine wp_perform_bind.2 ⟨(begin_round _ _ h).1, fun r g' hn => ?_⟩
    have h := (begin_round _ _ h).2 r g' hn
    refine wp_bind_keeps (keeps_poll_sleep calm _) fun _ => wp_bind_keeps (keeps_alive calm) fun b => ?_
    cases b with
    | false => exact exit _ _ h
    | true =>
      refine wp_bind.2 (wp_mono (batch _ _ h) fun r g' hr => ?_)
      cases r with
      | error e => exact wp_bind_keeps (calm _ rfl) fun _ => hr
      | ok result =>
        refine wp_bind.2 (wp_mono hr fun ended g' h' => ?_)
        cases ended <;> exact h'

end

end TtLive
