import TtLive.EventTrace

/-!
# Runs refine the sequential de-duplication

`Dedup.deliver` passes one message after the other through the window. `DispatchState` is where a thread
stands in its current call of `dispatch_message`; a call takes effect when the id is looked up, or when the
event of a message without an id is emitted. Ordered like that (`calls`), the calls of all threads lead
`deliver` to the window that the threads share, and to the messages they emit. So what `Dedup` says of the
window after a list of calls holds of the one window of a run, and of the events the run emits.
-/

namespace TtLive
open Prog Threads

/-- `called`: the id of the message is not looked up yet; `fresh`: the message is new and not emitted yet. -/
inductive DispatchPhase
  | idle
  | called (msg : BaseProtoMessage)
  | fresh (msg : BaseProtoMessage)

structure DispatchState where
  phase : DispatchPhase := .idle
  locked : Bool := false

variable (cfg : Config)

namespace DispatchState

def next (g : DispatchState) : (a : Act) → Resp a → DispatchState
  | .mark (.dispatch_message msg), _ => { g with phase := .called msg }
  | .mark (.emit _), _ => { g with phase := .idle }
  | .mark_seen _, new =>
    match g.phase with
    | .called msg => { g with phase := if new then .fresh msg else .idle }
    | _ => g
  | .lock .dispatch_mu_, _ => { g with locked := true }
  | .unlock .dispatch_mu_, _ => { g with locked := false }
  | _, _ => g

def Allows (g : DispatchState) : Act → Prop
  | .mark (.dispatch_message _) => g = {}
  | .mark (.emit ev) => g.phase = .idle ∧ ¬ ev.IsMessage ∨ g.locked = true ∧ ∃ msg, ev = message_event cfg msg ∧
      (g.phase = .fresh msg ∨ g.phase = .called msg ∧ msg.msg_id = 0)
  | .mark_seen id => g.locked = true ∧ ∃ msg, g.phase = .called msg ∧ msg.msg_id = id ∧ id ≠ 0
  | .lock .dispatch_mu_ => ∃ msg, g.phase = .called msg
  | .unlock .dispatch_mu_ => g.phase = .idle
  | _ => True

end DispatchState

/-- The actions this is about. -/
def Act.dispatches : Act → Bool
  | .mark (.dispatch_message _) | .mark (.emit _) | .mark_seen _ => true
  | .lock .dispatch_mu_ | .unlock .dispatch_mu_ => true
  | _ => false

theorem Act.dispatch_cases {motive : Act → Prop} (silent : ∀ a : Act, a.dispatches = false → motive a)
    (dispatch : ∀ msg, motive (.mark (.dispatch_message msg))) (emit : ∀ ev, motive (.mark (.emit ev)))
    (mark_seen : ∀ id, motive (.mark_seen id)) (lock : motive (.lock .dispatch_mu_))
    (unlock : motive (.unlock .dispatch_mu_)) (a : Act) : motive a := by
  cases he : a.dispatches with
  | false => exact silent a he
  | true =>
    cases a with
    | mark m => cases m <;> first | exact dispatch _ | exact emit _ | cases he
    | mark_seen id => exact mark_seen id
    | lock m => cases m <;> first | exact lock | cases he
    | unlock m => cases m <;> first | exact unlock | cases he
    | _ => cases he

abbrev dispatch_monitor : Monitor Act Resp DispatchState :=
  .det (DispatchState.Allows cfg) DispatchState.next

variable {cfg} {I : DispatchState → Prop}

theorem dispatch_allows_silent {a : Act} (h : a.dispatches = false) (g : DispatchState) :
    g.Allows cfg a := by
  cases a with
  | mark m => cases m <;> trivial
  | lock m => cases m <;> trivial
  | unlock m => cases m <;> trivial
  | _ => trivial

theorem dispatch_next_silent {a : Act} (h : a.dispatches = false) (g : DispatchState) (r : Resp a) :
    g.next a r = g := by
  cases a with
  | mark m => cases m <;> first | rfl | cases h
  | lock m => cases m <;> first | rfl | cases h
  | unlock m => cases m <;> first | rfl | cases h
  | _ => first | rfl | cases h

theorem dispatch_keeps {a : Act} (h : a.dispatches = false) :
    Keeps (dispatch_monitor cfg) I (call a) := fun g hg =>
  ⟨dispatch_allows_silent h g, fun r _ hn => hn.trans (dispatch_next_silent h g r) ▸ hg⟩

theorem dispatch_plain (a : Act) (h : a.plain) : Keeps (dispatch_monitor cfg) I (call a) :=
  dispatch_keeps (by cases a <;> first | rfl | cases h)

theorem dispatch_mark (m : Mark) (h : m.plain) : Keeps (dispatch_monitor cfg) I (mark m) :=
  dispatch_keeps (by cases m <;> first | rfl | cases h)

theorem dispatch_net (op : NetOp) : Keeps (dispatch_monitor cfg) I (net op) :=
  (dispatch_keeps rfl).bind fun _ => dispatch_keeps rfl

theorem dispatch_invoke (c : Callee) : Keeps (dispatch_monitor cfg) I (invoke (api cfg) c) :=
  keeps_invoke (still_of dispatch_plain) (fun _ _ _ _ => dispatch_net _) c (dispatch_keeps rfl) (dispatch_keeps rfl)

theorem dispatch_sink (kind data : Bytes) : Keeps (dispatch_monitor cfg) I (sink cfg kind data) :=
  .ite (dispatch_invoke _) (keeps_pure _)

/-- Emitting an event ends the call that emits it. -/
theorem wp_dispatch_emit {ev : Event} {g : DispatchState} (hok : g.Allows cfg (.mark (.emit ev))) :
    wp (dispatch_monitor cfg) (emit cfg ev) (fun _ g' => g' = { g with phase := .idle }) g := by
  refine wp_perform_bind.2 ⟨hok, ?_⟩
  rintro - _ rfl
  exact Keeps.forM (fun id _ => dispatch_invoke _) _ rfl

/-- The part of `dispatch_message` under its `lock_guard`, for a new message. -/
theorem wp_dispatch_fresh {msg : BaseProtoMessage} {g : DispatchState} (hl : g.locked = true)
    (hg : g.phase = .fresh msg ∨ g.phase = .called msg ∧ msg.msg_id = 0) :
    wp (dispatch_monitor cfg) (do
        sink cfg (lit "msg:" ++ msg.method) msg.payload
        emit cfg (message_event cfg msg)
        if (message_event cfg msg).type = .LiveEnd then
          store .live_ended true
          return true
        else return false) (fun _ g' => g' = { locked := true }) g := by
  refine wp_bind_keeps (dispatch_sink _ _) fun _ =>
    wp_bind.2 (wp_mono (wp_dispatch_emit (.inr ⟨hl, msg, rfl, hg⟩)) ?_)
  rintro - _ rfl
  rw [hl]
  exact Keeps.ite (I := (· = ({ locked := true } : DispatchState)))
    ((dispatch_keeps (a := .store _ _) rfl).bind fun _ => keeps_pure _) (keeps_pure _) _ rfl

theorem dispatch_dispatch_message (msg : BaseProtoMessage) :
    Keeps (dispatch_monitor cfg) (· = {}) (dispatch_message cfg msg) := by
  rintro _ rfl
  refine wp_perform_bind.2 ⟨rfl, ?_⟩
  rintro - _ rfl
  refine wp_locked_iff.2 (wp_perform.2 ⟨⟨msg, rfl⟩, ?_⟩)
  rintro - _ rfl
  refine wp_mono (Q := fun _ g' => g' = { locked := true }) ?_ ?_
  · by_cases hz : msg.msg_id = 0
    · simp only [if_pos hz]
      exact wp_dispatch_fresh rfl (.inr ⟨rfl, hz⟩)
    · simp only [if_neg hz]
      refine wp_perform_bind.2 ⟨⟨rfl, msg, rfl, rfl, hz⟩, ?_⟩
      rintro new _ rfl
      cases new with
      | true => exact wp_dispatch_fresh rfl (.inl rfl)
      | false => rfl
  · rintro b _ rfl
    exact ⟨rfl, fun _ _ h => h⟩

/-! ### The threads -/

theorem dispatch_fetch_once (cursor internal_ext : Bytes) :
    Keeps (dispatch_monitor cfg) I (fetch_once cfg cursor internal_ext) :=
  keeps_fetch_once (calm_marks dispatch_mark) (dispatch_keeps rfl) (dispatch_keeps rfl)
    (keeps_fetch_request_of (still_of dispatch_plain) dispatch_net dispatch_sink)

theorem dispatch_open_session (initial : ProtoMessageFetchResult) :
    Keeps (dispatch_monitor cfg) I (open_session initial).run :=
  keeps_open_session (dispatch_keeps rfl) (dispatch_keeps rfl)
    (keeps_session_url_of (still_of dispatch_plain) dispatch_net) fun _ _ _ => dispatch_keeps rfl

theorem dispatch_ws_path (initial : ProtoMessageFetchResult) (allow_fallback : Bool) :
    Keeps (dispatch_monitor cfg) (· = {}) (run_websocket_with_reconnect cfg initial allow_fallback) :=
  keeps_run_websocket_with_reconnect dispatch_plain dispatch_dispatch_message (dispatch_keeps rfl)
    (fun _ => dispatch_sink _ _) dispatch_mark dispatch_open_session dispatch_fetch_once initial allow_fallback

theorem dispatch_poll_loop (initial : ProtoMessageFetchResult) :
    Keeps (dispatch_monitor cfg) (· = {}) (poll_loop cfg initial) :=
  keeps_poll_loop (calm_of dispatch_plain) dispatch_dispatch_message dispatch_fetch_once (calm_marks dispatch_mark)
    initial

/-- `Connect` and `Disconnect` are emitted between calls of `dispatch_message`. -/
theorem dispatch_emit {ev : Event} (h : ¬ ev.IsMessage) :
    Keeps (dispatch_monitor cfg) (· = {}) (emit cfg ev) := by
  rintro _ rfl
  exact wp_dispatch_emit (g := {}) (.inl ⟨rfl, h⟩)

theorem dispatch_run : Keeps (dispatch_monitor cfg) (· = {}) (run cfg) :=
  keeps_run (fun _ _ => dispatch_keeps rfl)
    (keeps_set_up (still_of dispatch_plain) (fun _ _ _ _ => dispatch_net _) (fun _ _ => dispatch_net _)
      (fun _ => dispatch_keeps rfl) fun _ => dispatch_keeps rfl) (dispatch_fetch_once _ _)
    (keeps_stream_events (still_of dispatch_plain) (dispatch_plain _ rfl) dispatch_dispatch_message
      (keeps_transport (still_of dispatch_plain) dispatch_ws_path dispatch_poll_loop (fun _ => dispatch_keeps rfl)
        (dispatch_keeps rfl))
      (fun _ _ => dispatch_emit fun h => h.1 rfl) (dispatch_emit fun h => h.2 rfl))

theorem dispatch_threads (calls : Nat → List ApiCall) (t : Tid) :
    Keeps (dispatch_monitor cfg) (· = {}) (threads cfg calls t) := by
  cases t with
  | main => exact dispatch_run
  | poller => exact keeps_poller dispatch_poll_loop (dispatch_keeps rfl) (dispatch_keeps rfl)
  | app n => exact keeps_application (still_of dispatch_plain) (fun _ _ _ _ => dispatch_net _) (calls n)

/-! ### Every interleaving -/

/-- The messages passed to `dispatch_message` by one thread. -/
def dispatched (tr : List (Ev Resp)) : List BaseProtoMessage :=
  tr.filterMap fun
    | ⟨.mark (.dispatch_message msg), _⟩ => some msg
    | _ => none

/-- The events emitted in a trace, less `Connect` and `Disconnect`. -/
def message_events (tr : List (Tid × Ev Resp)) : List Event :=
  (emitted tr).filter (·.IsMessage)

/-- The message of the call that has not taken effect. -/
def DispatchPhase.pending : DispatchPhase → List BaseProtoMessage
  | .called msg => [msg]
  | _ => []

/-- The message of the call that has taken effect and has not emitted its event. -/
def DispatchPhase.due : DispatchPhase → List BaseProtoMessage
  | .fresh msg => [msg]
  | _ => []

/-- The messages of one thread's calls. -/
def calls_of (t : Tid) (ds : List (Tid × BaseProtoMessage)) : List BaseProtoMessage :=
  (ds.filter (·.1 = t)).map (·.2)

/-- `ds` are the calls that have taken effect, in that order. -/
structure DispatchInv (cfg : Config) (tr : List (Tid × Ev Resp)) (w : World) (g : Tid → DispatchState)
    (ds : List (Tid × BaseProtoMessage)) : Prop where
  dedup : w.dedup = (Dedup.deliver ds).1
  locked : ∀ t, (g t).locked = true ↔ w.owner .dispatch_mu_ = some t
  events : message_events tr ++ ((w.owner .dispatch_mu_).elim [] fun t => (g t).phase.due).map (message_event cfg) =
    (Dedup.deliver ds).2.map fun d => message_event cfg d.2
  calls : ∀ t, dispatched (thread t tr) = calls_of t ds ++ (g t).phase.pending

variable {tr : List (Tid × Ev Resp)} {w w' : World} {g : Tid → DispatchState}
  {ds : List (Tid × BaseProtoMessage)}
  {t : Tid} {a : Act} {r : Resp a}

theorem message_events_snoc : message_events (tr ++ [(t, ⟨a, r⟩)]) =
    message_events tr ++ (emission a).toList.filter (·.IsMessage) := by
  rw [message_events, emitted_snoc, List.filter_append, message_events]

theorem calls_of_snoc (u : Tid) (msg : BaseProtoMessage) :
    calls_of u (ds ++ [(t, msg)]) = if t = u then calls_of u ds ++ [msg] else calls_of u ds := by
  by_cases h : t = u <;> simp [calls_of, h]

/-- The calls of every thread, when one thread has made a step. -/
theorem calls_step {ds' : List (Tid × BaseProtoMessage)} {s : DispatchState} {e : Ev Resp}
    (h : ∀ u, dispatched (thread u tr) = calls_of u ds ++ (g u).phase.pending)
    (ht : calls_of t ds ++ (g t).phase.pending ++ dispatched [e] = calls_of t ds' ++ s.phase.pending)
    (hds : ∀ u, t ≠ u → calls_of u ds' = calls_of u ds) (u : Tid) :
    dispatched (thread u (tr ++ [(t, e)])) = calls_of u ds' ++ (Function.update g t s u).phase.pending := by
  rw [thread_snoc]
  by_cases hu : t = u
  · subst hu
    rw [if_pos rfl, dispatched, List.filterMap_append, Function.update_self, ← ht, ← h]
    rfl
  · rw [if_neg hu, Function.update_of_ne (Ne.symm hu), hds u hu, h]

theorem locked_step {s : DispatchState} (h : ∀ u, (g u).locked = true ↔ w.owner .dispatch_mu_ = some u)
    (ho : w'.owner .dispatch_mu_ = w.owner .dispatch_mu_) (hs : s.locked = (g t).locked) (u : Tid) :
    (Function.update g t s u).locked = true ↔ w'.owner .dispatch_mu_ = some u := by
  rw [ho]
  by_cases hu : u = t
  · rw [hu, Function.update_self, hs, h]
  · rw [Function.update_of_ne hu, h]

namespace DispatchInv

theorem silent_step (h : DispatchInv cfg tr w g ds) (ha : a.dispatches = false)
    (hs : World.sem t w a r w') :
    DispatchInv cfg (tr ++ [(t, ⟨a, r⟩)]) w' (Function.update g t ((g t).next a r)) ds := by
  have ho : w'.owner .dispatch_mu_ = w.owner .dispatch_mu_ :=
    World.sem_owner hs (by rintro rfl; cases ha) (by rintro rfl; cases ha)
  have hem : emission a = none := by
    cases a with
    | mark m => cases m <;> first | rfl | cases ha
    | _ => rfl
  have hcall : dispatched [⟨a, r⟩] = [] := by
    cases a with
    | mark m => cases m <;> first | rfl | cases ha
    | _ => rfl
  have hd : w'.dedup = w.dedup := World.sem_dedup hs (by rintro id rfl; cases ha)
  refine ⟨by rw [hd, h.dedup], locked_step h.locked ho (by rw [dispatch_next_silent ha]), ?_, ?_⟩
  · rw [dispatch_next_silent ha, Function.update_eq_self, ho, message_events_snoc, hem]
    simpa using h.events
  · refine calls_step h.calls ?_ fun _ _ => rfl
    rw [hcall, List.append_nil, dispatch_next_silent ha]

theorem call_step {msg : BaseProtoMessage} {r : Unit} (h : DispatchInv cfg tr w g ds) (hg : g t = {})
    (hs : World.sem t w (.mark (.dispatch_message msg)) r w') :
    DispatchInv cfg (tr ++ [(t, ⟨.mark (.dispatch_message msg), r⟩)]) w'
      (Function.update g t { g t with phase := .called msg }) ds := by
  obtain ⟨env, hs⟩ := hs
  cases hs
  refine ⟨h.dedup, locked_step h.locked rfl rfl, ?_, ?_⟩
  · have hevents := h.events
    rw [message_events_snoc]
    cases ho : w.owner .dispatch_mu_ with
    | none => simpa [ho, emission] using hevents
    | some u =>
      -- the thread does not hold the mutex
      have hu : u ≠ t := fun hu => by
        have hl := (h.locked t).2 (hu ▸ ho)
        rw [hg] at hl
        cases hl
      simpa [ho, emission, hu] using hevents
  · refine calls_step h.calls ?_ fun _ _ => rfl
    rw [hg]
    simp [DispatchPhase.pending, dispatched]

theorem lock_step {msg : BaseProtoMessage} {r : Unit} (h : DispatchInv cfg tr w g ds)
    (hg : (g t).phase = .called msg)
    (hs : World.sem t w (.lock .dispatch_mu_) r w') :
    DispatchInv cfg (tr ++ [(t, ⟨.lock .dispatch_mu_, r⟩)]) w'
      (Function.update g t { g t with locked := true }) ds := by
  obtain ⟨ho, rfl⟩ := World.sem_lock hs
  refine ⟨h.dedup, fun u => ?_, ?_, calls_step h.calls (List.append_nil _) fun _ _ => rfl⟩
  · have hl := h.locked u
    by_cases hu : u = t
    · simp [hu]
    · simp [hu, Ne.symm hu, hl, ho]
  · have hevents := h.events
    rw [message_events_snoc]
    simpa [ho, emission, hg, DispatchPhase.due] using hevents

theorem unlock_step {r : Unit} (h : DispatchInv cfg tr w g ds) (hg : (g t).phase = .idle)
    (hs : World.sem t w (.unlock .dispatch_mu_) r w') :
    DispatchInv cfg (tr ++ [(t, ⟨.unlock .dispatch_mu_, r⟩)]) w'
      (Function.update g t { g t with locked := false }) ds := by
  obtain ⟨ho, rfl⟩ := World.sem_unlock hs
  refine ⟨h.dedup, fun u => ?_, ?_, calls_step h.calls (List.append_nil _) fun _ _ => rfl⟩
  · have hl := h.locked u
    by_cases hu : u = t
    · simp [hu]
    · simp [hu, Ne.symm hu, hl, ho]
  · have hevents := h.events
    rw [message_events_snoc]
    simpa [ho, emission, hg, DispatchPhase.due] using hevents

theorem seen_step {msg : BaseProtoMessage} {new : Bool} (h : DispatchInv cfg tr w g ds)
    (hl : (g t).locked = true)
    (hg : (g t).phase = .called msg) (hz : msg.msg_id ≠ 0) (hs : World.sem t w (.mark_seen msg.msg_id) new w') :
    DispatchInv cfg (tr ++ [(t, ⟨.mark_seen msg.msg_id, new⟩)]) w'
      (Function.update g t { g t with phase := if new then .fresh msg else .idle }) (ds ++ [(t, msg)]) := by
  obtain ⟨env, hs⟩ := hs
  cases hs
  have ho := (h.locked t).1 hl
  have hdispatch : (Dedup.deliver ds).1.dispatch msg = w.dedup.mark_seen msg.msg_id := by
    rw [Dedup.dispatch, if_pos hz, h.dedup]
  refine ⟨?_, locked_step h.locked rfl rfl, ?_, ?_⟩
  · rw [Dedup.deliver_snoc, hdispatch]
  · have hevents := h.events
    rw [message_events_snoc, Dedup.deliver_snoc, hdispatch]
    simp only [ho, Option.elim_some, hg, DispatchPhase.due, List.map_nil, List.append_nil] at hevents
    cases hnew : (w.dedup.mark_seen msg.msg_id).1 <;> simp [ho, emission, hevents, DispatchPhase.due]
  · refine calls_step h.calls ?_ fun u hu => by rw [calls_of_snoc, if_neg hu]
    rw [calls_of_snoc, if_pos rfl, hg]
    cases (w.dedup.mark_seen msg.msg_id).1 <;> simp [DispatchPhase.pending, dispatched]

/-- `Connect` or `Disconnect`. -/
theorem other_step {ev : Event} {r : Unit} (h : DispatchInv cfg tr w g ds) (hg : (g t).phase = .idle)
    (hev : ¬ ev.IsMessage) (hs : World.sem t w (.mark (.emit ev)) r w') :
    DispatchInv cfg (tr ++ [(t, ⟨.mark (.emit ev), r⟩)]) w'
      (Function.update g t { g t with phase := .idle }) ds := by
  obtain ⟨env, hs⟩ := hs
  cases hs
  have hself : { g t with phase := .idle } = g t := by rw [← hg]
  refine ⟨h.dedup, locked_step h.locked rfl rfl, ?_, calls_step h.calls ?_ fun _ _ => rfl⟩
  · rw [message_events_snoc, hself, Function.update_eq_self]
    simpa [emission, hev] using h.events
  · rw [hg]
    simp [DispatchPhase.pending, dispatched]

theorem isMessage_message_event (msg : BaseProtoMessage) :
    (message_event cfg msg).IsMessage := parse_event_type _ _ _ _

theorem fresh_step {msg : BaseProtoMessage} {r : Unit} (h : DispatchInv cfg tr w g ds)
    (hl : (g t).locked = true)
    (hg : (g t).phase = .fresh msg) (hs : World.sem t w (.mark (.emit (message_event cfg msg))) r w') :
    DispatchInv cfg (tr ++ [(t, ⟨.mark (.emit (message_event cfg msg)), r⟩)]) w'
      (Function.update g t { g t with phase := .idle }) ds := by
  obtain ⟨env, hs⟩ := hs
  cases hs
  have ho := (h.locked t).1 hl
  refine ⟨h.dedup, locked_step h.locked rfl rfl, ?_, calls_step h.calls ?_ fun _ _ => rfl⟩
  · have hevents := h.events
    rw [message_events_snoc]
    simpa [emission, isMessage_message_event, ho, hg, DispatchPhase.due] using hevents
  · rw [hg]
    simp [DispatchPhase.pending, dispatched]

/-- A message without an id. -/
theorem plain_step {msg : BaseProtoMessage} {r : Unit} (h : DispatchInv cfg tr w g ds)
    (hl : (g t).locked = true)
    (hg : (g t).phase = .called msg) (hz : msg.msg_id = 0)
    (hs : World.sem t w (.mark (.emit (message_event cfg msg))) r w') :
    DispatchInv cfg (tr ++ [(t, ⟨.mark (.emit (message_event cfg msg)), r⟩)]) w'
      (Function.update g t { g t with phase := .idle }) (ds ++ [(t, msg)]) := by
  obtain ⟨env, hs⟩ := hs
  cases hs
  have ho := (h.locked t).1 hl
  have hdispatch : (Dedup.deliver ds).1.dispatch msg = (true, w.dedup) := by
    rw [Dedup.dispatch, if_neg (not_not.2 hz), h.dedup]
  refine ⟨?_, locked_step h.locked rfl rfl, ?_, calls_step h.calls ?_ fun u hu => by rw [calls_of_snoc, if_neg hu]⟩
  · rw [Dedup.deliver_snoc, hdispatch]
  · have hevents := h.events
    rw [message_events_snoc, Dedup.deliver_snoc, hdispatch]
    simp only [ho, Option.elim_some, hg, DispatchPhase.due, List.map_nil, List.append_nil] at hevents
    simp [emission, isMessage_message_event, ho, hevents, DispatchPhase.due]
  · rw [calls_of_snoc, if_pos rfl, hg]
    simp [DispatchPhase.pending, dispatched]

theorem step (h : DispatchInv cfg tr w g ds) (hok : (g t).Allows cfg a) (hs : World.sem t w a r w') :
    ∃ ds', DispatchInv cfg (tr ++ [(t, ⟨a, r⟩)]) w' (Function.update g t ((g t).next a r)) ds' := by
  induction a using Act.dispatch_cases with
  | silent a ha => exact ⟨ds, h.silent_step ha hs⟩
  | dispatch msg => exact ⟨ds, h.call_step hok hs⟩
  | emit ev =>
    obtain ⟨hg, hev⟩ | ⟨hl, msg, rfl, hg | ⟨hg, hz⟩⟩ := hok
    · exact ⟨ds, h.other_step hg hev hs⟩
    · exact ⟨ds, h.fresh_step hl hg hs⟩
    · exact ⟨_, h.plain_step hl hg hz hs⟩
  | mark_seen id =>
    obtain ⟨hl, msg, hg, rfl, hz⟩ := hok
    have hnext : (g t).next (.mark_seen msg.msg_id) r = { g t with phase := if r then .fresh msg else .idle } := by
      simp only [DispatchState.next, hg]
    exact ⟨_, hnext ▸ h.seen_step hl hg hz hs⟩
  | lock =>
    obtain ⟨msg, hg⟩ := hok
    exact ⟨ds, h.lock_step hg hs⟩
  | unlock => exact ⟨ds, h.unlock_step hok hs⟩

end DispatchInv

section
variable {calls : Nat → List ApiCall} {c : Conf Tid World Act Resp (Except Exn Unit)}

theorem run_dispatched (hw : w.Idle) (hd : w.dedup = {}) (h : Run World.sem (start cfg calls w) tr c) :
    ∃ g ds, DispatchInv cfg tr c.world g ds ∧ ∀ t x, c.prog t = .ret x → g t = {} := by
  have h₀ : DispatchInv cfg [] w (fun _ => {}) [] := by
    refine ⟨hd, fun t => ?_, ?_, fun t => rfl⟩
    · simp [hw.owner]
    · rw [hw.owner]
      rfl
  obtain ⟨g, ⟨ds, hinv⟩, hwp⟩ := h.invariant (M := fun _ => dispatch_monitor cfg) (Q := fun _ _ g => g = {})
    (I := fun tr w g => ∃ ds, DispatchInv cfg tr w g ds)
    (fun tr w g t a r w' ⟨ds, hI⟩ hok hs => ⟨_, rfl, hI.step hok hs⟩) ⟨[], h₀⟩
    fun t => dispatch_threads calls t _ rfl
  refine ⟨g, ds, hinv, fun t x hx => ?_⟩
  have ht := hwp t
  rw [hx] at ht
  exact ht

namespace DispatchInv

theorem events_prefix (h : DispatchInv cfg tr w g ds) :
    message_events tr <+: (Dedup.deliver ds).2.map fun d => message_event cfg d.2 := ⟨_, h.events⟩

theorem events_of_free (h : DispatchInv cfg tr w g ds) (ho : w.owner .dispatch_mu_ = none) :
    message_events tr = (Dedup.deliver ds).2.map fun d => message_event cfg d.2 := by
  have hevents := h.events
  rw [ho] at hevents
  exact (List.append_nil _).symm.trans hevents

theorem calls_of_idle (h : DispatchInv cfg tr w g ds) (ht : g t = {}) :
    dispatched (thread t tr) = calls_of t ds := by
  rw [h.calls t, ht]
  exact List.append_nil _

end DispatchInv

/-- In every reachable state the calls of `dispatch_message` that have taken effect, in one order for all
threads, explain the shared window and the emitted messages; of a thread that has returned these are all its
calls. -/
theorem run_refines_deliver (hw : w.Idle) (hd : w.dedup = {}) (h : Run World.sem (start cfg calls w) tr c) :
    ∃ ds : List (Tid × BaseProtoMessage), c.world.dedup = (Dedup.deliver ds).1 ∧
      message_events tr <+: ((Dedup.deliver ds).2.map fun d => message_event cfg d.2) ∧
      (c.world.owner .dispatch_mu_ = none →
        message_events tr = (Dedup.deliver ds).2.map fun d => message_event cfg d.2) ∧
      (∀ t, calls_of t ds <+: dispatched (thread t tr)) ∧
      ∀ t x, c.prog t = .ret x → dispatched (thread t tr) = calls_of t ds := by
  obtain ⟨g, ds, hinv, hret⟩ := run_dispatched hw hd h
  exact ⟨ds, hinv.dedup, hinv.events_prefix, hinv.events_of_free, fun t => ⟨_, (hinv.calls t).symm⟩,
    fun t x hx => hinv.calls_of_idle (hret t x hx)⟩

theorem message_event_msg_id (msg : BaseProtoMessage) : (message_event cfg msg).msg_id = msg.msg_id :=
  parse_event_msg_id _ _ _ _

/-- A client in dual mode: the WebSocket delivers a message with id 1, the server answers with 1 and 2. -/
def dispatching_start : Conf Tid World Act Resp (Except Exn Unit) :=
  start (sample_config { use_polling := true, room_id_override := 7, fetch_live_check := false,
                         fetch_stream_info := false, process_connect_events := false })
    (fun _ => []) {}

/-- The poll thread calls `dispatch_message` while `run` is in it. -/
def dispatching_schedule : List (Tid × Env) :=
  let frame := (sample_frame (sample_batch [1] (lit "B")).1).1
  let env := fun batch => sample_env batch (.chunk frame (some ⟨{ binary := true }, 0⟩))
  List.replicate 56 (.main, env (sample_batch [] (lit "A")).1) ++
    List.replicate 75 (.poller, env (sample_batch [1, 2] (lit "B")).1) ++
    List.replicate 3 (.main, env (sample_batch [] (lit "A")).1) ++
    List.replicate 8 (.poller, env (sample_batch [1, 2] (lit "B")).1)

theorem dispatching_runs : (execute World.step dispatching_schedule dispatching_start).isSome := by decide +kernel

theorem run_refines_deliver_dual :
    let x := (execute World.step dispatching_schedule dispatching_start).get dispatching_runs
    (dispatched (thread .main x.1)).map (·.msg_id) = [1] ∧ (dispatched (thread .poller x.1)).map (·.msg_id) = [1, 2] ∧
      (message_events x.1).map (·.msg_id) = [1, 2] ∧
      ∃ ds : List (Tid × BaseProtoMessage), x.2.world.dedup = (Dedup.deliver ds).1 ∧
        (message_events x.1).map (·.msg_id) = (Dedup.deliver ds).2.map (·.2.msg_id) := by
  refine ⟨by decide +kernel, by decide +kernel, by decide +kernel, ?_⟩
  obtain ⟨ds, hdedup, -, hevents, -⟩ :=
    run_refines_deliver World.idle_init rfl (run_of_isSome World.sem_of_step dispatching_runs)
  refine ⟨ds, hdedup, ?_⟩
  rw [hevents (by decide +kernel), List.map_map]
  exact List.map_congr_left fun d _ => message_event_msg_id d.2

/-! ### The window of a run -/

/-- The ids of emitted messages. -/
def event_ids (tr : List (Tid × Ev Resp)) : List Int := (message_events tr).map (·.msg_id)

/-- In every reachable state the window holds distinct ids, and no more than it may. -/
theorem run_window (hw : w.Idle) (hd : w.dedup = {}) (h : Run World.sem (start cfg calls w) tr c) :
    c.world.dedup.seen_order_.Nodup ∧ (∀ id, id ∈ c.world.dedup.seen_ids_ ↔ id ∈ c.world.dedup.seen_order_) ∧
      c.world.dedup.seen_order_.length ≤ kMaxSeenIds := by
  obtain ⟨g, ds, hinv, -⟩ := run_dispatched hw hd h
  rw [hinv.dedup]
  exact ⟨(Dedup.rep_deliver ds).nodup, (Dedup.rep_deliver ds).ids, (Dedup.rep_deliver ds).length_le⟩

/-- While no thread is in `dispatch_message`, these are the last ids that were emitted. -/
theorem run_window_order (hw : w.Idle) (hd : w.dedup = {}) (h : Run World.sem (start cfg calls w) tr c)
    (ho : c.world.owner .dispatch_mu_ = none) :
    c.world.dedup.seen_order_ = ((event_ids tr).filter (· ≠ 0)).rtake kMaxSeenIds := by
  obtain ⟨g, ds, hinv, -⟩ := run_dispatched hw hd h
  have hids : event_ids tr = (Dedup.deliver ds).2.map (·.2.msg_id) := by
    rw [event_ids, hinv.events_of_free ho, List.map_map]
    exact List.map_congr_left fun d _ => message_event_msg_id d.2
  rw [hinv.dedup, (Dedup.rep_deliver ds).order, hids, Dedup.remembered]

/-- Whichever threads emit them, two messages of one id are at least as many others apart as the window holds. -/
theorem run_emission_gap (hw : w.Idle) (hd : w.dedup = {}) (h : Run World.sem (start cfg calls w) tr c)
    {pre mid post : List Event} {x y : Event} (htr : message_events tr = pre ++ x :: mid ++ y :: post)
    (hz : x.msg_id ≠ 0) (hxy : y.msg_id = x.msg_id) :
    kMaxSeenIds ≤ (mid.filter fun z => z.msg_id ≠ 0 ∧ z.msg_id ≠ x.msg_id).length := by
  obtain ⟨g, ds, hinv, -⟩ := run_dispatched hw hd h
  obtain ⟨rest, hrest⟩ := hinv.events_prefix
  rw [htr, List.append_assoc, List.cons_append] at hrest
  obtain ⟨l₁, l₂, hemitted, hbefore, hafter⟩ := List.map_eq_append_iff.1 hrest.symm
  obtain ⟨e, l₃, rfl, rfl, -⟩ := List.map_eq_cons_iff.1 hafter
  obtain ⟨l₄, l₅, rfl, -, hbetween⟩ := List.map_eq_append_iff.1 hbefore
  obtain ⟨d, l, rfl, rfl, rfl⟩ := List.map_eq_cons_iff.1 hbetween
  rw [message_event_msg_id] at hz
  rw [message_event_msg_id, message_event_msg_id] at hxy
  rw [List.filter_map, List.length_map]
  simpa only [Function.comp_def, message_event_msg_id] using Dedup.emission_gap hemitted hz hxy

theorem mem_calls_of {t : Tid} {msg : BaseProtoMessage} : msg ∈ calls_of t ds ↔ (t, msg) ∈ ds := by
  simp only [calls_of, List.mem_map, List.mem_filter, decide_eq_true_eq]
  constructor
  · rintro ⟨d, ⟨hd, rfl⟩, rfl⟩
    exact hd
  · exact fun h => ⟨_, ⟨h, rfl⟩, rfl⟩

/-- While no more ids have come in than the window holds, a thread that has returned has had each of its messages
emitted once, by itself or by another. -/
theorem run_emitted_once (hw : w.Idle) (hd : w.dedup = {}) (h : Run World.sem (start cfg calls w) tr c)
    (hcard : ((dispatched (tr.map Prod.snd)).map (·.msg_id)).toFinset.card ≤ kMaxSeenIds)
    (ho : c.world.owner .dispatch_mu_ = none) {t : Tid} {x : Except Exn Unit} (ht : c.prog t = .ret x)
    {msg : BaseProtoMessage} (hmsg : msg ∈ dispatched (thread t tr)) (hz : msg.msg_id ≠ 0) :
    ((message_events tr).filter (·.msg_id = msg.msg_id)).length = 1 := by
  obtain ⟨g, ds, hinv, hret⟩ := run_dispatched hw hd h
  have hsub : (Dedup.remembered ds).toFinset ⊆ ((dispatched (tr.map Prod.snd)).map (·.msg_id)).toFinset := by
    intro id hid
    obtain ⟨hid, -⟩ := List.mem_filter.1 (List.mem_toFinset.1 hid)
    obtain ⟨d, hmem, rfl⟩ := List.mem_map.1 hid
    have hcalled : d.2 ∈ dispatched (thread d.1 tr) := by
      rw [hinv.calls d.1]
      exact List.mem_append_left _ (mem_calls_of.2 hmem)
    have hthread : (thread d.1 tr).Sublist (tr.map Prod.snd) := List.filter_sublist.map _
    exact List.mem_toFinset.2 (List.mem_map_of_mem ((hthread.filterMap _).subset hcalled))
  rw [hinv.calls_of_idle (hret t x ht), mem_calls_of] at hmsg
  have honce := Dedup.emitted_once ((Finset.card_le_card hsub).trans hcard) hmsg hz
  rw [hinv.events_of_free ho, List.filter_map, List.length_map]
  simpa only [Function.comp_def, message_event_msg_id] using honce

end

end TtLive
