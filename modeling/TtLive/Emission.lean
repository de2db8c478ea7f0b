import TtLive.Invariance
import TtLive.World

/-!
# How a thread emits events

`EmitState` is where a thread stands: before, in or after the stretch in which it may emit (`Stage`), whether
it holds `dispatch_mu_`, the callback invocations still due for the event it is emitting, and whether a
`LiveEnd` it has emitted is not stored yet. `EmitState.Allows` is the discipline: messages are emitted under
`dispatch_mu_`, `Connect` before the poll thread exists, `Disconnect` after it has ended.
-/

namespace TtLive
open Prog

/-- An invocation of an event callback begins or returns. -/
inductive CallbackEv
  | enter (id : Nat) (ev : Event)
  | leave (id : Nat) (ev : Event)

/-- The invocations that an event causes, one after the other: the callbacks for all events, then those of its type. -/
def block (cfg : Config) (ev : Event) : List CallbackEv :=
  (cfg.any_handlers ++ cfg.handlers ev.type).flatMap fun id => [.enter id ev, .leave id ev]

/-- `cleared`: `run` has reset `live_ended`; `streaming`: messages may be emitted. -/
inductive Stage
  | start
  | cleared
  | streaming
  | finished
deriving DecidableEq

/-- `polling`: this thread has created the poll thread and not joined it yet. -/
structure EmitState where
  role : Tid
  stage : Stage := .start
  locked : Bool := false
  todo : List CallbackEv := []
  pending : Bool := false
  polling : Bool := false

variable (cfg : Config)

namespace EmitState

def next (g : EmitState) : Act → EmitState
  | .mark (.emit ev) =>
    { g with
      stage := if ev.type = .Connect then .streaming else if ev.type = .Disconnect then .finished else g.stage
      todo := block cfg ev
      pending := ev.type = .LiveEnd }
  | .call_begin (.callback _ _) | .call_end (.callback _ _) => { g with todo := g.todo.tail }
  | .lock .dispatch_mu_ => { g with locked := true }
  | .unlock .dispatch_mu_ => { g with locked := false }
  | .store .live_ended b => if b then { g with pending := false } else { g with stage := .cleared }
  | .spawn _ => { g with polling := true }
  | .join => { g with polling := false }
  | .spawned => { g with stage := .streaming }
  | .exit => { g with stage := .finished }
  | _ => g

def Allows (g : EmitState) : Act → Prop
  | .mark (.emit ev) => g.todo = [] ∧ g.pending = false ∧
    (g.role = .main ∧ g.stage = .cleared ∧ (∃ room_id stream, ev = connect_event cfg room_id stream) ∨
      g.stage = .streaming ∧ g.locked = true ∧ ev.type ≠ .Connect ∧ ev.type ≠ .Disconnect ∨
      g.role = .main ∧ g.stage = .streaming ∧ g.locked = false ∧ g.polling = false ∧ ev = disconnect_event)
  | .call_begin (.callback id ev) => g.todo.head? = some (.enter id ev)
  | .call_end (.callback id ev) => g.todo.head? = some (.leave id ev)
  | .lock .dispatch_mu_ => g.stage = .streaming ∧ g.todo = [] ∧ g.pending = false ∧ g.locked = false
  | .unlock .dispatch_mu_ => g.todo = [] ∧ g.pending = false ∧ g.locked = true
  | .store .live_ended b => if b then g.pending = true else g.role = .main ∧ g.stage = .start
  | .spawn _ => g.role = .main ∧ g.stage = .streaming ∧ g.todo = []
  | .join => g.role = .main ∧ g.stage = .streaming
  | .spawned => g.role = .poller ∧ g.stage = .start
  | .exit => g.role = .poller ∧ g.stage = .streaming ∧ g.todo = [] ∧ g.pending = false ∧ g.locked = false
  | _ => True

end EmitState

/-- The actions this is about. -/
def Act.emits : Act → Bool
  | .mark (.emit _) | .call_begin (.callback _ _) | .call_end (.callback _ _) => true
  | .lock .dispatch_mu_ | .unlock .dispatch_mu_ | .store .live_ended _ => true
  | .spawn _ | .join | .spawned | .exit => true
  | _ => false

/-- The actions this is about, one by one. -/
theorem Act.emit_cases {motive : Act → Prop} (silent : ∀ a : Act, a.emits = false → motive a)
    (emit : ∀ ev, motive (.mark (.emit ev))) (enter : ∀ id ev, motive (.call_begin (.callback id ev)))
    (leave : ∀ id ev, motive (.call_end (.callback id ev))) (lock : motive (.lock .dispatch_mu_))
    (unlock : motive (.unlock .dispatch_mu_)) (live : ∀ b, motive (.store .live_ended b))
    (spawn : ∀ initial, motive (.spawn initial)) (join : motive .join) (spawned : motive .spawned)
    (exit : motive .exit) (a : Act) : motive a := by
  cases he : a.emits with
  | false => exact silent a he
  | true =>
    cases a with
    | mark m => cases m <;> first | exact emit _ | cases he
    | call_begin c => cases c <;> first | exact enter _ _ | cases he
    | call_end c => cases c <;> first | exact leave _ _ | cases he
    | lock m => cases m <;> first | exact lock | cases he
    | unlock m => cases m <;> first | exact unlock | cases he
    | store f b => cases f <;> first | exact live b | cases he
    | spawn initial => exact spawn initial
    | join => exact join
    | spawned => exact spawned
    | exit => exact exit
    | _ => cases he

abbrev emit_monitor : Monitor Act Resp EmitState := .det (EmitState.Allows cfg) fun g a _ => g.next cfg a

variable {cfg}

theorem emit_silent (a : Act) (h : a.emits = false) (g : EmitState) :
    g.Allows cfg a ∧ g.next cfg a = g := by
  cases a with
  | mark m => cases m <;> first | exact ⟨trivial, rfl⟩ | cases h
  | call_begin c => cases c <;> first | exact ⟨trivial, rfl⟩ | cases h
  | call_end c => cases c <;> first | exact ⟨trivial, rfl⟩ | cases h
  | lock m => cases m <;> first | exact ⟨trivial, rfl⟩ | cases h
  | unlock m => cases m <;> first | exact ⟨trivial, rfl⟩ | cases h
  | store f b => cases f <;> first | exact ⟨trivial, rfl⟩ | cases h
  | _ => first | exact ⟨trivial, rfl⟩ | cases h

theorem next_connect (g : EmitState) (room_id : Int) (stream : StreamInfo) :
    g.next cfg (.mark (.emit (connect_event cfg room_id stream))) =
      { g with stage := .streaming, todo := block cfg (connect_event cfg room_id stream), pending := false } := rfl

theorem next_disconnect (g : EmitState) : g.next cfg (.mark (.emit disconnect_event)) =
    { g with stage := .finished, todo := block cfg disconnect_event, pending := false } := rfl

theorem next_message (g : EmitState) {ev : Event} (h₁ : ev.type ≠ .Connect) (h₂ : ev.type ≠ .Disconnect) :
    g.next cfg (.mark (.emit ev)) = { g with todo := block cfg ev, pending := ev.type = .LiveEnd } := by
  simp [EmitState.next, h₁, h₂]

variable {I : EmitState → Prop}

theorem emit_keeps {a : Act} (h : a.emits = false) : Keeps (emit_monitor cfg) I (call a) := fun g hg =>
  ⟨(emit_silent a h g).1, fun _ _ hn => hn.trans (emit_silent a h g).2 ▸ hg⟩

theorem emit_plain (a : Act) (h : a.plain) : Keeps (emit_monitor cfg) I (call a) := by
  refine emit_keeps ?_
  cases a with
  | store f b => cases f <;> cases b <;> first | rfl | cases h
  | _ => first | rfl | cases h

theorem emit_mark (m : Mark) (h : m.plain) : Keeps (emit_monitor cfg) I (mark m) :=
  emit_keeps (by cases m <;> first | rfl | cases h)

theorem emit_net (op : NetOp) : Keeps (emit_monitor cfg) I (net op) :=
  (emit_keeps rfl).bind fun _ => emit_keeps rfl

theorem emit_sink (kind data : Bytes) : Keeps (emit_monitor cfg) I (sink cfg kind data) :=
  .ite (keeps_invoke (still_of emit_plain) (fun _ _ _ _ => emit_net _) _ (emit_keeps rfl) (emit_keeps rfl)) (keeps_pure _)

/-! ### Emitting one event -/

theorem wp_callbacks {ev : Event} {rest : List CallbackEv} (ids : List Nat) (g : EmitState)
    (h : g.todo = ids.flatMap (fun id => [.enter id ev, .leave id ev]) ++ rest) :
    wp (emit_monitor cfg) (forM ids fun id => invoke (api cfg) (.callback id ev))
      (fun _ g' => g' = { g with todo := rest }) g := by
  induction ids generalizing g with
  | nil => exact congrArg (fun l => { g with todo := l }) h
  | cons id ids ih =>
    rw [List.forM_cons]
    rw [List.flatMap_cons, List.append_assoc] at h
    have hbegin : g.todo.head? = some (.enter id ev) := by rw [h]; rfl
    have hend : g.todo.tail.head? = some (.leave id ev) := by rw [h]; rfl
    refine wp_bind.2 (wp_perform_bind.2 ⟨hbegin, ?_⟩)
    rintro calls _ rfl
    -- what the callback asks the client to do emits nothing
    refine wp_bind_keeps (.forM fun c _ => keeps_api (still_of emit_plain) (fun _ _ _ _ => emit_net _) c) fun _ => ⟨hend, ?_⟩
    rintro - _ rfl
    have htail : g.todo.tail.tail = ids.flatMap (fun id => [.enter id ev, .leave id ev]) ++ rest := by rw [h]; rfl
    exact ih { g with todo := g.todo.tail.tail } htail

theorem wp_emit_event {ev : Event} {g : EmitState} (hok : g.Allows cfg (.mark (.emit ev))) :
    wp (emit_monitor cfg) (emit cfg ev)
      (fun _ g' => g' = { g.next cfg (.mark (.emit ev)) with todo := [] }) g := by
  refine wp_perform_bind.2 ⟨hok, ?_⟩
  rintro - _ rfl
  exact wp_callbacks (callbacks cfg ev) _ (List.append_nil _).symm

/-- A thread that may emit, between two messages. -/
def free (t : Tid) (polling : Bool) : EmitState := { role := t, stage := .streaming, polling := polling }

variable {t : Tid} {polling : Bool}

/-- The part of `dispatch_message` under its `lock_guard`. -/
theorem emit_locked_message (msg : BaseProtoMessage) :
    wp (emit_monitor cfg) (do
        sink cfg (lit "msg:" ++ msg.method) msg.payload
        emit cfg (message_event cfg msg)
        if (message_event cfg msg).type = .LiveEnd then
          store .live_ended true
          return true
        else return false)
      (fun _ g' => g' = { free t polling with locked := true }) { free t polling with locked := true } := by
  have htype : (message_event cfg msg).type ≠ .Connect ∧ (message_event cfg msg).type ≠ .Disconnect :=
    parse_event_type _ _ _ _
  refine wp_bind_keeps (emit_sink _ _) fun _ => wp_bind.2 (wp_mono
    (wp_emit_event ⟨rfl, rfl, .inr (.inl ⟨rfl, rfl, htype⟩)⟩) ?_)
  rintro - _ rfl
  by_cases hlive : (message_event cfg msg).type = .LiveEnd
  · rw [if_pos hlive]
    refine wp_perform_bind.2 ⟨by simp [EmitState.Allows, EmitState.next, hlive], ?_⟩
    rintro - _ rfl
    simp [EmitState.next, hlive, free]
  · rw [if_neg hlive]
    simp [EmitState.next, hlive, htype.1, htype.2, free]

theorem emit_dispatch_message (msg : BaseProtoMessage) :
    Keeps (emit_monitor cfg) (· = free t polling) (dispatch_message cfg msg) := by
  have hunlock : ∀ g, g = { free t polling with locked := true } →
      wp (emit_monitor cfg) (call (.unlock .dispatch_mu_)) (fun _ g' => g' = free t polling) g := by
    rintro _ rfl
    exact ⟨⟨rfl, rfl, rfl⟩, fun _ _ h => h⟩
  have hlock : ∀ g, g = free t polling → wp (emit_monitor cfg) (call (.lock .dispatch_mu_))
      (fun _ g' => g' = { free t polling with locked := true }) g := by
    rintro _ rfl
    exact ⟨⟨rfl, rfl, rfl, rfl⟩, fun _ _ h => h⟩
  refine (emit_keeps (a := .mark _) rfl).bind fun _ => keeps_locked hlock hunlock ?_
  refine (Keeps.ite (keeps_pure _) (emit_keeps rfl)).bind fun fresh => .ite ?_ (keeps_pure _)
  rintro _ rfl
  exact emit_locked_message msg

/-! ### The threads -/

theorem emit_fetch_once {cursor internal_ext : Bytes} :
    Keeps (emit_monitor cfg) I (fetch_once cfg cursor internal_ext) :=
  keeps_fetch_once (calm_marks emit_mark) (emit_keeps rfl) (emit_keeps rfl)
    (keeps_fetch_request_of (still_of emit_plain) emit_net emit_sink)

theorem emit_open_session (initial : ProtoMessageFetchResult) :
    Keeps (emit_monitor cfg) I (open_session initial).run :=
  keeps_open_session (emit_keeps rfl) (emit_keeps rfl) (keeps_session_url_of (still_of emit_plain) emit_net)
    fun _ _ _ => emit_keeps rfl

theorem emit_ws_path (initial : ProtoMessageFetchResult) (allow_fallback : Bool) :
    Keeps (emit_monitor cfg) (· = free t polling) (run_websocket_with_reconnect cfg initial allow_fallback) :=
  keeps_run_websocket_with_reconnect emit_plain emit_dispatch_message (emit_keeps rfl) (fun _ => emit_sink _ _)
    emit_mark emit_open_session (fun _ _ => emit_fetch_once) initial allow_fallback

theorem emit_poll_loop (initial : ProtoMessageFetchResult) :
    Keeps (emit_monitor cfg) (· = free t polling) (poll_loop cfg initial) :=
  keeps_poll_loop (calm_of emit_plain) emit_dispatch_message (fun _ _ => emit_fetch_once) (calm_marks emit_mark) initial

theorem emit_transport (initial : ProtoMessageFetchResult) :
    Keeps (emit_monitor cfg) (· = free .main false) (transport cfg initial) := by
  refine .ite ?_ (.ite ?_ (emit_poll_loop _))
  · rintro _ rfl
    refine wp_perform_bind.2 ⟨⟨rfl, rfl, rfl⟩, ?_⟩
    rintro - _ rfl
    refine wp_bind.2 (wp_mono (emit_ws_path initial false (free .main true) rfl) ?_)
    rintro - _ rfl
    refine wp_bind_keeps (emit_plain (.store _ _) rfl) fun _ => ⟨⟨rfl, rfl⟩, ?_⟩
    rintro - _ rfl
    rfl
  · exact (emit_ws_path initial true).bind fun handled => .ite (keeps_pure _) (emit_poll_loop _)

/-- The stretch from `Connect` to `Disconnect`. -/
theorem emit_stream_events (initial : ProtoMessageFetchResult) :
    wp (emit_monitor cfg) (stream_events cfg initial) (fun _ g => g = { role := .main, stage := .finished })
      { role := .main, stage := .cleared } := by
  have hlast : wp (emit_monitor cfg) (do
      transport cfg initial
      store .running false
      emit cfg disconnect_event) (fun _ g => g = { role := .main, stage := .finished }) (free .main false) := by
    refine wp_bind.2 (wp_mono (emit_transport initial _ rfl) ?_)
    rintro - _ rfl
    refine wp_bind_keeps (emit_plain (.store _ _) rfl) fun _ => wp_mono
      (wp_emit_event ⟨rfl, rfl, .inr (.inr ⟨rfl, rfl, rfl, rfl, rfl⟩)⟩) ?_
    rintro - _ rfl
    rfl
  refine wp_bind_keeps (emit_plain _ rfl) fun room_id => wp_bind_keeps (emit_plain _ rfl) fun stream => ?_
  refine wp_bind.2 (wp_mono (wp_emit_event ⟨rfl, rfl, .inl ⟨rfl, rfl, room_id, stream, rfl⟩⟩) ?_)
  rintro - _ rfl
  split
  · refine wp_bind.2 (wp_mono (keeps_process_fetch_result
      emit_dispatch_message initial (free .main false) rfl) ?_)
    rintro - _ rfl
    exact hlast
  · exact hlast

/-- Where the caller of `run` stands when `run` returns or throws. -/
def RunResult : Except Exn Unit → EmitState → Prop
  | .ok _, g => g = { role := .main, stage := .finished }
  | .error _, g => g = { role := .main, stage := .cleared }

theorem emit_run : wp (emit_monitor cfg) (run cfg) RunResult { role := .main } := by
  refine wp_bind_keeps (emit_keeps (a := .store _ _) rfl) fun _ => ?_
  refine wp_bind_keeps (emit_keeps (a := .store _ _) rfl) fun _ => wp_perform_bind.2 ⟨⟨rfl, rfl⟩, ?_⟩
  rintro - _ rfl
  refine wp_bind_keeps (keeps_set_up (still_of emit_plain) (fun _ _ _ _ => emit_net _)
    (fun _ _ => emit_net _) (fun _ => emit_plain _ rfl) fun _ => emit_plain _ rfl) fun r => ?_
  cases r with
  | error e => rfl
  | ok _ =>
    refine wp_bind_keeps emit_fetch_once fun r => ?_
    cases r with
    | error e => rfl
    | ok initial => exact wp_bind.2 (wp_mono (emit_stream_events initial) fun _ _ h => h)

theorem emit_poller : wp (emit_monitor cfg) (poller cfg) (fun _ _ => True) { role := .poller } := by
  refine wp_perform_bind.2 ⟨⟨rfl, rfl⟩, ?_⟩
  rintro initial _ rfl
  refine wp_bind.2 (wp_mono (emit_poll_loop initial (free .poller false) rfl) ?_)
  rintro - _ rfl
  refine wp_perform_bind.2 ⟨⟨rfl, rfl, rfl, rfl, rfl⟩, fun _ _ _ => trivial⟩

/-- Every thread keeps the discipline. -/
theorem emit_threads (calls : Nat → List ApiCall) (t : Tid) : wp (emit_monitor cfg) (threads cfg calls t)
    (fun r g => t = .main → RunResult r g) { role := t } := by
  cases t with
  | main => exact wp_mono emit_run fun _ _ h _ => h
  | poller => exact wp_mono emit_poller fun _ _ _ h => nomatch h
  | app n =>
    refine wp_mono
      (keeps_application (I := fun _ => True) (still_of emit_plain) (fun _ _ _ _ => emit_net _) (calls n) _ trivial) ?_
    exact fun _ _ _ h => nomatch h

end TtLive
