import Mathlib.Data.List.Chain
import TtLive.Invariance
import TtLive.Lifetime

/-!
# The frames that a client sends

`Outgoing` is read off what the caller of `run` did: for every WebSocket session of the client, latest first,
the frames handed to `send_binary`, the messages received, and the clock readings that the heartbeats go by.
`SessionLog.Lawful` is the law of one session, `Outgoing.Lawful` adds the numbering of the heartbeats over all
sessions.

The monitor checks the law after every action, so each of `ws_send_enter_room`, `ws_send_ack`,
`ws_send_heartbeat` and the receive has to show that it preserves it, in the state in which it is called
(`Pumping`). A number drawn for a heartbeat is not yet sent, hence `drawn`.
-/

namespace TtLive
open Prog Threads

section
variable (cfg : Config)

def enter_room_frame (room_id : Int) : WebcastPushFrame where
  log_id := 0
  payload_encoding := lit "pb"
  payload_type := lit "im_enter_room"
  payload := cfg.codec.enter_room_bytes { room_id := room_id, identity := lit "audience", cursor := [] }

def heartbeat_frame (room_id seq : Int) : WebcastPushFrame where
  log_id := 0
  payload_encoding := lit "pb"
  payload_type := lit "hb"
  payload := cfg.codec.heartbeat_bytes { room_id := room_id, send_packet_seq_id := seq }

def ack_frame (log_id : Int) (internal_ext : Bytes) : WebcastPushFrame where
  log_id := log_id
  payload_encoding := lit "pb"
  payload_type := lit "ack"
  payload := if internal_ext = [] then lit "-" else internal_ext

/-- The payload after the compression that a header names, and after that which its first bytes show. -/
def unpacked (frame : WebcastPushFrame) : Bytes :=
  let named := if ∃ h ∈ frame.headers, h.key = lit "compress_type" ∧ h.value = lit "gzip" then
    cfg.gunzip frame.payload else frame.payload
  if [0x1f, 0x8b] <+: named ∧ 2 < named.length then cfg.gunzip named else named

/-- The ack that a received message asks for. -/
def due_ack (raw : Bytes) : Option WebcastPushFrame :=
  (cfg.codec.push_frame raw).bind fun frame =>
    if frame.payload_type = lit "msg" then
      (cfg.codec.fetch_result (unpacked cfg frame)).bind fun result =>
        if result.need_ack then some (ack_frame frame.log_id result.internal_ext) else none
    else none

end

/-- A WebSocket session after its handshake: what it sent and received so far. `started` is the first clock
reading, `beats` the readings at which it sent a heartbeat, `live_end` the number of frames sent when a
message reported the live end. -/
structure SessionLog where
  room_id : Int
  frames : List WebcastPushFrame := []
  messages : List Bytes := []
  started : Option Int := none
  beats : List Int := []
  live_end : Option Nat := none
  returned : Bool := false

namespace SessionLog

def acks (s : SessionLog) : List WebcastPushFrame := s.frames.filter (·.payload_type = lit "ack")

def heartbeats (s : SessionLog) : List WebcastPushFrame := s.frames.filter (·.payload_type = lit "hb")

def due_acks (cfg : Config) (s : SessionLog) : List WebcastPushFrame := s.messages.filterMap (due_ack cfg)

/-- The session start and the heartbeats, on the clock. -/
def clock (s : SessionLog) : List Int := s.started.toList ++ s.beats

structure Lawful (cfg : Config) (s : SessionLog) : Prop where
  /-- One `im_enter_room` comes first, and a session does nothing before it. -/
  opening : s.frames = [] ∧ s.messages = [] ∧ s.returned = false ∨
    ∃ rest, s.frames = enter_room_frame cfg s.room_id :: rest ∧
      ∀ f ∈ rest, f.payload_type = lit "ack" ∨ f.payload_type = lit "hb"
  /-- Every message that asks for an ack has it, in order; the last one may still be waiting for it. -/
  acked : s.acks = s.due_acks cfg ∨ s.returned = false ∧
    ∃ init last, s.messages = init ++ [last] ∧ s.acks = init.filterMap (due_ack cfg)
  timed : s.beats.length = s.heartbeats.length ∧ (s.started = none → s.beats = [])
  /-- Ten seconds apart, in nanoseconds. -/
  spaced : s.clock.IsChain fun t t' => t + 10000000000 ≤ t'
  /-- Nothing is sent after the live end. -/
  silent : ∀ n, s.live_end = some n → s.frames.length = n

def send (now : Int) (f : WebcastPushFrame) (s : SessionLog) : SessionLog :=
  { s with
    frames := s.frames ++ [f]
    beats := if f.payload_type = lit "hb" then s.beats ++ [now] else s.beats }

end SessionLog

/-- `room_id` and `clock` are the last values set and read, `drawn` counts the heartbeat numbers taken. -/
structure Outgoing where
  room_id : Int := 0
  clock : Int := 0
  drawn : Nat := 0
  sessions : List SessionLog := []

namespace Outgoing

def modify (g : Outgoing) (f : SessionLog → SessionLog) : Outgoing :=
  { g with sessions := g.sessions.modifyHead f }

def next (g : Outgoing) : (a : Act) → Resp a → Outgoing
  | .set_room_id id, _ => { g with room_id := id }
  | .next_hb_seq, _ => { g with drawn := g.drawn + 1 }
  | .connect _ _ _, .ok _ => { g with sessions := { room_id := g.room_id } :: g.sessions }
  | .send_binary f, _ => g.modify (·.send g.clock f)
  | .recv_binary, (.Message, raw) => g.modify fun s => { s with messages := s.messages ++ [raw] }
  | .now, t => { g.modify fun s => { s with started := some (s.started.getD t) } with clock := t }
  | .store .live_ended true, _ =>
    g.modify fun s => { s with live_end := some (s.live_end.getD s.frames.length) }
  | .mark (.session _), _ => g.modify fun s => { s with returned := true }
  | _, _ => g

/-- What the client has sent in a trace of its life. -/
def of (tr : List (Tid × Ev Resp)) : Outgoing := Monitor.after next {} (thread .main tr)

/-- The heartbeats of all sessions, in the order in which they were sent. -/
def heartbeats (g : Outgoing) : List WebcastPushFrame := g.sessions.reverse.flatMap SessionLog.heartbeats

structure Lawful (cfg : Config) (g : Outgoing) : Prop where
  sessions : ∀ s ∈ g.sessions, s.Lawful cfg
  /-- Sessions follow one another. -/
  returned : ∀ s ∈ g.sessions.tail, s.returned = true
  /-- Heartbeats are numbered from 1, across sessions and runs. -/
  numbered : ∀ (i : Nat) f, g.heartbeats[i]? = some f → ∃ room_id, f = heartbeat_frame cfg room_id (1 + i)

/-- The answers that agree with the members of the client. -/
def Answers (g : Outgoing) : (a : Act) → Resp a → Prop
  | .room_id, id => id = g.room_id
  | .next_hb_seq, n => n = 1 + g.drawn
  | _, _ => True

end Outgoing

/-- The law holds after every action of the caller of `run`. -/
def wire_monitor (cfg : Config) : Monitor Act Resp Outgoing where
  ok g a := ∀ r, g.Answers a r → (g.next a r).Lawful cfg
  next g a r g' := g.Answers a r ∧ g' = g.next a r

variable {cfg : Config} {g g' : Outgoing} {s : SessionLog}

/-! ### What an action does to the law -/

namespace SessionLog

theorem acks_send (now : Int) (f : WebcastPushFrame) :
    (s.send now f).acks = s.acks ++ if f.payload_type = lit "ack" then [f] else [] := by
  rw [acks, send, List.filter_append, acks]
  split <;> simp [*]

theorem heartbeats_send (now : Int) (f : WebcastPushFrame) :
    (s.send now f).heartbeats = s.heartbeats ++ if f.payload_type = lit "hb" then [f] else [] := by
  rw [heartbeats, send, List.filter_append, heartbeats]
  split <;> simp [*]

/-- Sending a frame when every message has its ack. -/
theorem Lawful.send (h : s.Lawful cfg) {now : Int} {f : WebcastPushFrame} (hlive : s.live_end = none)
    (hopen : ∃ rest, (s.send now f).frames = enter_room_frame cfg s.room_id :: rest ∧
      ∀ f ∈ rest, f.payload_type = lit "ack" ∨ f.payload_type = lit "hb")
    (hack : (s.send now f).acks = s.due_acks cfg)
    (hbeat : f.payload_type = lit "hb" → ∃ t, s.clock.getLast? = some t ∧ t + 10000000000 ≤ now) :
    (s.send now f).Lawful cfg := by
  refine ⟨.inr hopen, .inl hack, ?_, ?_, fun n hn => nomatch hlive.symm.trans hn⟩
  · rw [heartbeats_send]
    by_cases hf : f.payload_type = lit "hb"
    · obtain ⟨t, ht, -⟩ := hbeat hf
      simp only [SessionLog.send, if_pos hf, List.length_append, h.timed.1, List.length_singleton, true_and]
      intro hstart
      rw [clock, hstart, h.timed.2 hstart] at ht
      cases ht
    · simpa [SessionLog.send, hf] using h.timed
  · by_cases hf : f.payload_type = lit "hb"
    · obtain ⟨t, ht, hle⟩ := hbeat hf
      have hclock : (s.send now f).clock = s.clock ++ [now] := by simp [clock, SessionLog.send, hf]
      rw [hclock, List.isChain_append]
      refine ⟨h.spaced, List.isChain_singleton _, ?_⟩
      simp only [ht, Option.mem_some_iff, List.head?_cons]
      rintro _ rfl _ rfl
      exact hle
    · have hclock : (s.send now f).clock = s.clock := by simp [clock, SessionLog.send, hf]
      rw [hclock]
      exact h.spaced

/-- The frames after the first, when one more ack or heartbeat is sent. -/
theorem Lawful.opened (h : s.Lawful cfg) (hframes : s.frames ≠ []) {now : Int} {f : WebcastPushFrame}
    (hf : f.payload_type = lit "ack" ∨ f.payload_type = lit "hb") :
    ∃ rest, (s.send now f).frames = enter_room_frame cfg s.room_id :: rest ∧
      ∀ f ∈ rest, f.payload_type = lit "ack" ∨ f.payload_type = lit "hb" := by
  rcases h.opening with ⟨hnil, -⟩ | ⟨rest, hrest, htypes⟩
  · exact absurd hnil hframes
  · refine ⟨rest ++ [f], by simp [SessionLog.send, hrest], fun f' hf' => ?_⟩
    rcases List.mem_append.1 hf' with hf' | hf'
    · exact htypes f' hf'
    · exact List.mem_singleton.1 hf' ▸ hf

end SessionLog

namespace Outgoing

theorem heartbeats_modify {f : SessionLog → SessionLog} (hf : ∀ s, (f s).heartbeats = s.heartbeats) :
    (g.modify f).heartbeats = g.heartbeats := by
  cases hs : g.sessions <;> simp [heartbeats, modify, hs, hf]

/-- Changing the latest session, without a heartbeat. -/
theorem Lawful.modify (h : g.Lawful cfg) {f : SessionLog → SessionLog}
    (hs : ∀ s, g.sessions.head? = some s → s.Lawful cfg → (f s).Lawful cfg)
    (hf : ∀ s, (f s).heartbeats = s.heartbeats) : (g.modify f).Lawful cfg := by
  refine ⟨?_, ?_, fun i x hi => h.numbered i x (by rwa [heartbeats_modify hf] at hi)⟩
  · cases hl : g.sessions with
    | nil => simp [Outgoing.modify, hl]
    | cons s past =>
      simp only [Outgoing.modify, hl, List.modifyHead_cons, List.mem_cons, forall_eq_or_imp]
      exact ⟨hs s (by simp [hl]) (h.sessions s (by simp [hl])), fun s' hs' => h.sessions s' (by simp [hl, hs'])⟩
  · intro s' hs'
    cases hl : g.sessions with
    | nil => simp [Outgoing.modify, hl] at hs'
    | cons s past => exact h.returned s' (by simpa [Outgoing.modify, hl] using hs')

/-- Sending the next heartbeat. -/
theorem Lawful.heartbeat (h : g.Lawful cfg) (hs : g.sessions.head? = some s) {room_id : Int}
    {f : WebcastPushFrame} (hf : f = heartbeat_frame cfg room_id (1 + g.heartbeats.length))
    (hlaw : (s.send g.clock f).Lawful cfg) :
    (g.modify (·.send g.clock f)).Lawful cfg ∧
      (g.modify (·.send g.clock f)).heartbeats.length = g.heartbeats.length + 1 := by
  obtain ⟨past, hl⟩ : ∃ past, g.sessions = s :: past := by
    cases hl : g.sessions with
    | nil => rw [hl] at hs; cases hs
    | cons s' past => rw [hl] at hs; cases hs; exact ⟨past, rfl⟩
  have hbeats : (g.modify (·.send g.clock f)).heartbeats = g.heartbeats ++ [f] := by
    have htype : f.payload_type = lit "hb" := by rw [hf]; rfl
    simp [heartbeats, Outgoing.modify, hl, SessionLog.heartbeats_send, htype]
  refine ⟨⟨?_, ?_, fun i x hi => ?_⟩, by simp [hbeats]⟩
  · intro s' hs'
    rw [Outgoing.modify, hl, List.modifyHead_cons] at hs'
    rcases List.mem_cons.1 hs' with rfl | hs'
    · exact hlaw
    · exact h.sessions s' (by simp [hl, hs'])
  · intro s' hs'
    rw [Outgoing.modify, hl, List.modifyHead_cons] at hs'
    exact h.returned s' (by simpa [hl] using hs')
  · rw [hbeats, List.getElem?_append] at hi
    split at hi
    · exact h.numbered i x hi
    · next hlen =>
      rw [List.getElem?_singleton] at hi
      split at hi
      · next hi' =>
        obtain rfl := Option.some.inj hi
        exact ⟨room_id, by rw [hf]; congr 2; omega⟩
      · cases hi

end Outgoing

/-! ### Actions that the log does not see -/

def Act.off_wire : Act → Bool
  | .set_room_id _ | .next_hb_seq | .connect _ _ _ | .send_binary _ | .recv_binary | .now | .store .live_ended true
  | .mark (.session _) => false
  | _ => true

theorem Act.off_wire_of_calm {a : Act} (h : a.calm) : a.off_wire := by
  cases a with
  | store f b => cases f <;> cases b <;> first | rfl | cases h
  | _ => first | rfl | cases h

theorem next_off_wire {a : Act} (h : a.off_wire) (r : Resp a) : g.next a r = g := by
  cases a with
  | store f b => cases f <;> cases b <;> first | rfl | cases h
  | mark m => cases m <;> first | rfl | cases h
  | _ => first | rfl | cases h

section
variable {I : Outgoing → Prop} (hI : ∀ g, I g → g.Lawful cfg)
include hI

theorem wire_keeps {a : Act} (h : a.off_wire) : Keeps (wire_monitor cfg) I (call a) := by
  refine fun g hg => ⟨fun r _ => by rw [next_off_wire h]; exact hI g hg, fun r g' hn => ?_⟩
  rw [hn.2, next_off_wire h]
  exact hg

theorem wire_calm (a : Act) (h : a.calm) : Keeps (wire_monitor cfg) I (call a) :=
  wire_keeps hI (Act.off_wire_of_calm h)

theorem wire_mark (m : Mark) (h : m.calm) : Keeps (wire_monitor cfg) I (mark m) :=
  wire_keeps hI (by cases m <;> first | rfl | cases h)

theorem wire_net (op : NetOp) : Keeps (wire_monitor cfg) I (net op) :=
  (wire_keeps hI rfl).bind fun _ => wire_keeps hI rfl

theorem wire_invoke (c : Callee) : Keeps (wire_monitor cfg) I (invoke (api cfg) c) :=
  keeps_invoke (still_of_calm (wire_calm hI)) (fun _ _ _ _ => wire_net hI _) c (wire_keeps hI rfl) (wire_keeps hI rfl)

theorem wire_sink (kind data : Bytes) : Keeps (wire_monitor cfg) I (sink cfg kind data) :=
  .ite (wire_invoke hI _) (keeps_pure _)

theorem wire_emit (ev : Event) : Keeps (wire_monitor cfg) I (emit cfg ev) :=
  keeps_emit (wire_keeps hI rfl) fun _ => wire_invoke hI _

theorem wire_fetch_once (cursor internal_ext : Bytes) :
    Keeps (wire_monitor cfg) I (fetch_once cfg cursor internal_ext) :=
  keeps_fetch_once (wire_mark hI) (wire_keeps hI rfl) (wire_keeps hI rfl)
    (keeps_fetch_request_of (still_of_calm (wire_calm hI)) (wire_net hI) (wire_sink hI))

end

/-! ### Dispatching a message -/

/-- The log after a live end has been reported. -/
def Outgoing.reported (g : Outgoing) : Outgoing := g.next (.store .live_ended true) ()

theorem Outgoing.Lawful.reported (h : g.Lawful cfg) : g.reported.Lawful cfg := by
  refine h.modify (fun s _ hs => ⟨hs.opening, hs.acked, hs.timed, hs.spaced, ?_⟩) fun _ => rfl
  intro n hn
  cases hlive : s.live_end with
  | none => simpa [hlive] using hn
  | some m => exact hs.silent n (by simpa [hlive] using hn)

theorem Outgoing.reported_reported (g : Outgoing) : g.reported.reported = g.reported := by
  cases hs : g.sessions <;> simp [Outgoing.reported, Outgoing.next, Outgoing.modify, hs]

theorem wire_dispatch_message (h : g.Lawful cfg) (msg : BaseProtoMessage) :
    wp (wire_monitor cfg) (dispatch_message cfg msg)
      (fun ended g' => g' = g ∨ ended = true ∧ g' = g.reported) g := by
  have hI : ∀ g', g' = g → g'.Lawful cfg := by rintro _ rfl; exact h
  have hunlock : ∀ (b : Bool) (g' : Outgoing), (g' = g ∨ b = true ∧ g' = g.reported) →
      wp (wire_monitor cfg) (do call (.unlock .dispatch_mu_); return b)
        (fun ended g' => g' = g ∨ ended = true ∧ g' = g.reported) g' := by
    intro b g' hg'
    have hlaw : ∀ k, k = g' → k.Lawful cfg := by
      rintro _ rfl
      rcases hg' with rfl | ⟨-, rfl⟩
      · exact h
      · exact h.reported
    exact wp_bind_keeps (wire_keeps hlaw rfl) fun _ => hg'
  refine wp_bind_keeps (wire_keeps hI rfl) fun _ => wp_bind_keeps (wire_keeps hI rfl) fun _ => ?_
  refine wp_bind.2 (wp_mono ?_ hunlock)
  refine wp_bind_keeps (.ite (keeps_pure _) (wire_keeps hI rfl)) fun fresh => ?_
  cases fresh with
  | false => exact .inl rfl
  | true =>
    refine wp_bind_keeps (wire_sink hI _ _) fun _ => wp_bind_keeps (wire_emit hI _) fun _ => ?_
    by_cases hlive : (message_event cfg msg).type = .LiveEnd
    · rw [if_pos hlive]
      refine wp_perform_bind.2 ⟨fun _ _ => h.reported, fun _ g' hn => ?_⟩
      exact .inr ⟨rfl, hn.2⟩
    · rw [if_neg hlive]
      exact .inl rfl

theorem wire_process_fetch_result (h : g.Lawful cfg) (result : ProtoMessageFetchResult) :
    wp (wire_monitor cfg) (process_fetch_result cfg result)
      (fun ended g' => g' = g ∨ ended = true ∧ g' = g.reported) g := by
  refine wp_foldlM (fun _ ended g' => g' = g ∨ ended = true ∧ g' = g.reported) (fun msg _ ended g' hg' => ?_)
    (.inl rfl)
  have hlaw : g'.Lawful cfg := by
    rcases hg' with rfl | ⟨-, rfl⟩
    · exact h
    · exact h.reported
  refine wp_bind.2 (wp_mono (wire_dispatch_message hlaw msg) fun b k hk => ?_)
  rcases hg' with rfl | ⟨rfl, rfl⟩
  · rcases hk with rfl | ⟨rfl, rfl⟩
    · cases b
      · exact .inl rfl
      · exact .inl rfl
    · exact .inr ⟨rfl, rfl⟩
  · rw [Outgoing.reported_reported] at hk
    have hk' : k = g.reported := hk.elim id And.right
    cases b
    · exact .inr ⟨rfl, hk'⟩
    · exact .inr ⟨rfl, hk'⟩

/-! ### A session -/

/-- Every message of the latest session has its ack, and every heartbeat number drawn has been sent. -/
structure Acked (cfg : Config) (g : Outgoing) (s : SessionLog) : Prop where
  lawful : g.Lawful cfg
  head : g.sessions.head? = some s
  begun : s.frames ≠ []
  acked : s.acks = s.due_acks cfg
  drawn : g.drawn = g.heartbeats.length

/-- What holds before each round of the receive loop. -/
structure Pumping (cfg : Config) (last_hb : Int) (g : Outgoing) (s : SessionLog) : Prop extends Acked cfg g s where
  going : s.returned = false
  live : s.live_end = none
  last : s.clock.getLast? = some last_hb

theorem head_modify (h : g.sessions.head? = some s) (f : SessionLog → SessionLog) :
    (g.modify f).sessions.head? = some (f s) := by
  cases hl : g.sessions with
  | nil => rw [hl] at h; cases h
  | cons s' past => rw [hl] at h; cases h; simp [Outgoing.modify, hl]

theorem drawn_modify (h : g.drawn = g.heartbeats.length) {f : SessionLog → SessionLog}
    (hf : ∀ s, (f s).heartbeats = s.heartbeats) : (g.modify f).drawn = (g.modify f).heartbeats.length := by
  rw [Outgoing.heartbeats_modify hf]
  exact h

theorem Acked.session (h : Acked cfg g s) : s.Lawful cfg := h.lawful.sessions s (List.mem_of_mem_head? h.head)

theorem SessionLog.Lawful.begun (h : s.Lawful cfg) (hframes : s.frames ≠ []) :
    ∃ rest, s.frames = enter_room_frame cfg s.room_id :: rest ∧
      ∀ f ∈ rest, f.payload_type = lit "ack" ∨ f.payload_type = lit "hb" :=
  h.opening.resolve_left fun hnil => hframes hnil.1

/-- The session after a message. -/
def SessionLog.receive (s : SessionLog) (raw : Bytes) : SessionLog := { s with messages := s.messages ++ [raw] }

variable {last_hb : Int} {raw : Bytes}

theorem Pumping.receive (h : Pumping cfg last_hb g s) (raw : Bytes) : (g.modify (·.receive raw)).Lawful cfg := by
  refine h.lawful.modify (fun s' hs' hlaw => ?_) fun _ => rfl
  obtain rfl : s = s' := Option.some.inj (h.head.symm.trans hs')
  exact ⟨.inr (hlaw.begun h.begun), .inr ⟨h.going, s.messages, raw, rfl, h.acked⟩, hlaw.timed, hlaw.spaced, hlaw.silent⟩

theorem due_acks_receive (s : SessionLog) (raw : Bytes) :
    (s.receive raw).due_acks cfg = s.due_acks cfg ++ (due_ack cfg raw).toList := by
  rw [SessionLog.due_acks, SessionLog.receive, List.filterMap_append, SessionLog.due_acks]
  cases hdue : due_ack cfg raw <;> simp [hdue]

/-- A message that asks for no ack. -/
theorem Pumping.unasked (h : Pumping cfg last_hb g s) (hdue : due_ack cfg raw = none) :
    Pumping cfg last_hb (g.modify (·.receive raw)) (s.receive raw) where
  lawful := h.receive raw
  head := head_modify h.head _
  begun := h.begun
  acked := by rw [due_acks_receive, hdue, Option.toList_none, List.append_nil]; exact h.acked
  drawn := drawn_modify h.drawn fun _ => rfl
  going := h.going
  live := h.live
  last := h.last

/-- The session after an ack. -/
theorem Pumping.answered (h : Pumping cfg last_hb g s) {f : WebcastPushFrame} (hdue : due_ack cfg raw = some f)
    (htype : f.payload_type = lit "ack") :
    Pumping cfg last_hb ((g.modify (·.receive raw)).modify (·.send g.clock f)) ((s.receive raw).send g.clock f) := by
  have hnot : ¬ f.payload_type = lit "hb" := by rw [htype]; decide
  have hbeats : ∀ s : SessionLog, (s.send g.clock f).heartbeats = s.heartbeats := fun s => by
    rw [SessionLog.heartbeats_send, if_neg hnot, List.append_nil]
  have hacks : ((s.receive raw).send g.clock f).acks = (s.receive raw).due_acks cfg := by
    rw [SessionLog.acks_send, if_pos htype, due_acks_receive, hdue, ← h.acked]
    rfl
  have hclock : ((s.receive raw).send g.clock f).clock = s.clock := by
    simp [SessionLog.clock, SessionLog.send, SessionLog.receive, hnot]
  refine ⟨⟨?_, head_modify (head_modify h.head _) _, by simp [SessionLog.send], hacks, ?_⟩, h.going, h.live, ?_⟩
  · refine (h.receive raw).modify (fun s' hs' hlaw => ?_) hbeats
    obtain rfl : s.receive raw = s' := Option.some.inj ((head_modify h.head _).symm.trans hs')
    exact hlaw.send h.live (hlaw.opened h.begun (.inl htype)) hacks fun hf => absurd hf hnot
  · exact drawn_modify (g := g.modify (·.receive raw)) (drawn_modify h.drawn fun _ => rfl) hbeats
  · rw [hclock]
    exact h.last

theorem Acked.reported (h : Acked cfg g s) : ∃ s', Acked cfg g.reported s' :=
  ⟨_, h.lawful.reported, head_modify h.head _, h.begun, h.acked, drawn_modify h.drawn fun _ => rfl⟩

/-- A round that handled a message: the session is over when the live end was reported. -/
def Handled (cfg : Config) (last_hb : Int) (ended : Bool) (g : Outgoing) : Prop :=
  (∃ s, Acked cfg g s) ∧ (ended = false → ∃ s, Pumping cfg last_hb g s)

theorem wire_handle_result (h : Pumping cfg last_hb g s) (result : ProtoMessageFetchResult) :
    wp (wire_monitor cfg) (process_fetch_result cfg result) (Handled cfg last_hb) g := by
  refine wp_mono (wire_process_fetch_result h.lawful result) fun ended g' hg' => ?_
  rcases hg' with rfl | ⟨rfl, rfl⟩
  · exact ⟨⟨s, h.toAcked⟩, fun _ => ⟨s, h⟩⟩
  · exact ⟨h.toAcked.reported, nofun⟩

theorem magic_iff (b : Bytes) :
    (b.length > 2 ∧ b[0]? = some 0x1f ∧ b[1]? = some 0x8b) ↔ [0x1f, 0x8b] <+: b ∧ 2 < b.length := by
  rcases b with _ | ⟨x, _ | ⟨y, b⟩⟩
  · simp
  · simp
  · simp only [List.getElem?_cons_zero, List.getElem?_cons_succ, Option.some.injEq, List.cons_prefix_cons,
      List.nil_prefix, and_true]
    constructor
    · rintro ⟨hlen, rfl, rfl⟩
      exact ⟨⟨rfl, rfl⟩, hlen⟩
    · rintro ⟨⟨rfl, rfl⟩, hlen⟩
      exact ⟨hlen, rfl, rfl⟩

theorem frame_payload_eq (frame : WebcastPushFrame) : frame_payload cfg frame = unpacked cfg frame := by
  have hnamed : (frame.headers.any fun h => h.key = lit "compress_type" && h.value = lit "gzip") = true ↔
      ∃ h ∈ frame.headers, h.key = lit "compress_type" ∧ h.value = lit "gzip" := by
    simp
  simp only [frame_payload, unpacked, hnamed, magic_iff]

/-- The ack that is due is the one that `decode_frame` leads to. -/
theorem due_ack_eq (raw : Bytes) : due_ack cfg raw = (decode_frame cfg raw).bind fun r =>
    if r.2.need_ack then some (ack_frame r.1.log_id r.2.internal_ext) else none := by
  unfold due_ack decode_frame
  cases cfg.codec.push_frame raw with
  | none => rfl
  | some frame =>
    dsimp only [Option.bind_some]
    by_cases htype : frame.payload_type = lit "msg"
    · rw [if_pos htype, if_pos htype, frame_payload_eq]
      cases cfg.codec.fetch_result (unpacked cfg frame) <;> rfl
    · rw [if_neg htype, if_neg htype]
      rfl

theorem wire_ws_handle_frame (h : Pumping cfg last_hb g s) (raw : Bytes) :
    wp (wire_monitor cfg) (ws_handle_frame cfg raw) (Handled cfg last_hb) (g.modify (·.receive raw)) := by
  refine wp_bind_keeps (wire_sink (by rintro _ rfl; exact h.receive raw) _ _) fun _ => ?_
  cases hdec : decode_frame cfg raw with
  | none =>
    have hdue : due_ack cfg raw = none := by rw [due_ack_eq, hdec]; rfl
    have h' := h.unasked hdue
    exact ⟨⟨_, h'.toAcked⟩, fun _ => ⟨_, h'⟩⟩
  | some r =>
    obtain ⟨frame, result⟩ := r
    dsimp only
    by_cases hack : result.need_ack = true
    · have hdue : due_ack cfg raw = some (ack_frame frame.log_id result.internal_ext) := by
        rw [due_ack_eq, hdec]; exact if_pos hack
      have h' := h.answered hdue rfl
      rw [if_pos hack]
      refine wp_bind.2 (wp_perform_bind.2 ⟨fun _ _ => h'.lawful, fun _ g' hn => ?_⟩)
      obtain rfl := hn.2
      exact wire_handle_result h' result
    · have hdue : due_ack cfg raw = none := by
        rw [due_ack_eq, hdec]; exact if_neg hack
      rw [if_neg hack]
      exact wire_handle_result (h.unasked hdue) result

theorem modify_eq_self (h : g.sessions.head? = some s) {f : SessionLog → SessionLog} (hf : f s = s) :
    g.modify f = g := by
  obtain ⟨room_id, clock, drawn, sessions⟩ := g
  cases sessions with
  | nil => cases h
  | cons s' past => cases h; rw [Outgoing.modify, List.modifyHead_cons, hf]

/-- A later reading of the clock. -/
theorem Pumping.now (h : Pumping cfg last_hb g s) (t : Int) : g.next .now t = { g with clock := t } := by
  obtain ⟨t₀, ht₀⟩ : ∃ t₀, s.started = some t₀ := by
    refine Option.ne_none_iff_exists'.1 fun hnone => ?_
    have hlast := h.last
    rw [SessionLog.clock, hnone, h.session.timed.2 hnone] at hlast
    cases hlast
  have hsame : { s with started := some (s.started.getD t) } = s := by
    rw [ht₀, Option.getD_some, ← ht₀]
  rw [Outgoing.next, modify_eq_self h.head hsame]

theorem Pumping.set_clock (h : Pumping cfg last_hb g s) (t : Int) : Pumping cfg last_hb { g with clock := t } s :=
  ⟨⟨⟨h.lawful.sessions, h.lawful.returned, h.lawful.numbered⟩, h.head, h.begun, h.acked, h.drawn⟩, h.going, h.live,
    h.last⟩

/-- The session after a heartbeat that is due. -/
theorem Pumping.beat (h : Pumping cfg last_hb g s) (hdue : g.clock - last_hb ≥ hb_interval) (room_id : Int)
    {f : WebcastPushFrame} (hf : f = heartbeat_frame cfg room_id (1 + g.drawn)) :
    Pumping cfg g.clock ({ g with drawn := g.drawn + 1 }.modify (·.send g.clock f)) (s.send g.clock f) := by
  have htype : f.payload_type = lit "hb" := by rw [hf]; rfl
  have hnot : ¬ f.payload_type = lit "ack" := by rw [htype]; decide
  have hacks : (s.send g.clock f).acks = s.due_acks cfg := by
    rw [SessionLog.acks_send, if_neg hnot, List.append_nil]
    exact h.acked
  have hlaw : (s.send g.clock f).Lawful cfg := by
    refine h.session.send h.live (h.session.opened h.begun (.inr htype)) hacks fun _ => ⟨last_hb, h.last, ?_⟩
    rw [hb_interval] at hdue
    omega
  have hdrawn : Outgoing.Lawful cfg { g with drawn := g.drawn + 1 } :=
    ⟨h.lawful.sessions, h.lawful.returned, h.lawful.numbered⟩
  have hsent := hdrawn.heartbeat h.head (by rw [hf, h.drawn]; rfl) hlaw
  refine ⟨⟨hsent.1, head_modify h.head _, by simp [SessionLog.send], hacks, ?_⟩, h.going, h.live, ?_⟩
  · rw [hsent.2]
    exact congrArg (· + 1) h.drawn
  · simp [SessionLog.clock, SessionLog.send, htype]

/-- The end of a round. -/
theorem wire_heartbeat_if_due (h : Pumping cfg last_hb g s) :
    wp (wire_monitor cfg) (heartbeat_if_due cfg last_hb) (fun x g' =>
      Sum.elim (fun hb => ∃ s', Pumping cfg hb g' s') (fun _ => ∃ s', Acked cfg g' s') x) g := by
  refine wp_perform_bind.2 ⟨fun t _ => by rw [h.now]; exact (h.set_clock t).lawful, fun t g' hn => ?_⟩
  obtain rfl := hn.2
  rw [h.now]
  have h₁ := h.set_clock t
  by_cases hdue : t - last_hb ≥ hb_interval
  · rw [if_pos hdue]
    refine wp_bind.2 (wp_perform_bind.2 ⟨fun _ _ => h₁.lawful, fun room_id g₁ hn => ?_⟩)
    obtain rfl := hn.2
    refine wp_perform_bind.2 ⟨fun _ _ => ⟨h₁.lawful.sessions, h₁.lawful.returned, h₁.lawful.numbered⟩, fun seq g₂ hn => ?_⟩
    obtain ⟨rfl, rfl⟩ := hn
    have h₂ := h₁.beat hdue room_id rfl
    refine wp_perform_bind.2 ⟨fun _ _ => h₂.lawful, fun _ g₃ hn => ?_⟩
    obtain rfl := hn.2
    exact ⟨_, h₂⟩
  · rw [if_neg hdue]
    exact ⟨s, h₁⟩

theorem wire_session_round (h : Pumping cfg last_hb g s) :
    wp (wire_monitor cfg) (session_round cfg last_hb) (fun x g' =>
      Sum.elim (fun hb => ∃ s', Pumping cfg hb g' s') (fun _ => ∃ s', Acked cfg g' s') x) g := by
  have hI : ∀ g', g' = g → g'.Lawful cfg := by rintro _ rfl; exact h.lawful
  refine wp_bind_keeps (keeps_session_alive (wire_calm hI) (wire_keeps hI rfl)) fun going => ?_
  cases going with
  | false => exact ⟨s, h.toAcked⟩
  | true =>
    have hok : ∀ r, g.Answers .recv_binary r → (g.next .recv_binary r).Lawful cfg := by
      rintro ⟨st, msg⟩ -
      cases st with
      | Message => exact h.receive msg
      | _ => exact h.lawful
    refine wp_perform_bind.2 ⟨hok, fun r g' hn => ?_⟩
    obtain rfl := hn.2
    obtain ⟨st, msg⟩ := r
    cases st with
    | Message =>
      refine wp_bind.2 (wp_mono (wire_ws_handle_frame h msg) fun ended g' hg' => ?_)
      cases ended with
      | true => exact hg'.1
      | false =>
        obtain ⟨s', h'⟩ := hg'.2 rfl
        exact wire_heartbeat_if_due h'
    | Again => exact wp_bind_keeps (f := fun _ => heartbeat_if_due cfg last_hb) (wire_keeps hI rfl) fun _ =>
        wire_heartbeat_if_due h
    | Closed => exact ⟨s, h.toAcked⟩
    | Error => exact ⟨s, h.toAcked⟩

/-- What holds between sessions. -/
structure Ready (cfg : Config) (g : Outgoing) : Prop where
  lawful : g.Lawful cfg
  settled : ∀ s ∈ g.sessions, s.returned = true
  drawn : g.drawn = g.heartbeats.length

theorem SessionLog.lawful_new (room_id : Int) : Lawful cfg { room_id := room_id } :=
  ⟨.inl ⟨rfl, rfl, rfl⟩, .inl rfl, ⟨rfl, fun _ => rfl⟩, by simp [clock], nofun⟩

theorem Ready.connect (h : Ready cfg g) (url cookies ua : Bytes) :
    (g.next (.connect url cookies ua) (.ok ())).Lawful cfg ∧
      g.drawn = (g.next (.connect url cookies ua) (.ok ())).heartbeats.length := by
  have hbeats : (g.next (.connect url cookies ua) (.ok ())).heartbeats = g.heartbeats := by
    simp [Outgoing.heartbeats, Outgoing.next, SessionLog.heartbeats]
  refine ⟨⟨?_, h.settled, fun i x hi => h.lawful.numbered i x (by rwa [hbeats] at hi)⟩, by rw [hbeats]; exact h.drawn⟩
  rintro s hs
  rcases List.mem_cons.1 hs with rfl | hs
  · exact SessionLog.lawful_new _
  · exact h.lawful.sessions s hs

/-- The latest session returns, when all its messages have their acks. -/
theorem ready_mark (h : g.Lawful cfg) (hdrawn : g.drawn = g.heartbeats.length)
    (hacked : ∀ s, g.sessions.head? = some s → s.frames ≠ [] ∧ s.acks = s.due_acks cfg) (r : WsResult) :
    Ready cfg (g.next (.mark (.session r)) ()) := by
  refine ⟨h.modify (fun s hs hlaw => ?_) fun _ => rfl, fun s hs => ?_, drawn_modify hdrawn fun _ => rfl⟩
  · obtain ⟨hframes, hacks⟩ := hacked s hs
    exact ⟨.inr (hlaw.begun hframes), .inl hacks, hlaw.timed, hlaw.spaced, hlaw.silent⟩
  · cases hl : g.sessions with
    | nil => simp [Outgoing.next, Outgoing.modify, hl] at hs
    | cons s' past =>
      rw [Outgoing.next, Outgoing.modify, hl, List.modifyHead_cons] at hs
      rcases List.mem_cons.1 hs with rfl | hs
      · rfl
      · exact h.returned s (by simpa [hl] using hs)

theorem Ready.mark (h : Ready cfg g) (r : WsResult) : Ready cfg (g.next (.mark (.session r)) ()) := by
  refine ready_mark h.lawful h.drawn (fun s hs => ?_) r
  have hmem := List.mem_of_mem_head? hs
  have hret := h.settled s hmem
  have hlaw := h.lawful.sessions s hmem
  refine ⟨fun hnil => ?_, hlaw.acked.resolve_right fun ho => nomatch hret.symm.trans ho.1⟩
  rcases hlaw.opening with ho | ⟨rest, hrest, -⟩
  · exact nomatch hret.symm.trans ho.2.2
  · rw [hnil] at hrest; cases hrest

/-- The session after its first frame and the first reading of the clock. -/
theorem Ready.pump (h : Ready cfg g) (url cookies ua : Bytes) :
    let g₁ := (g.next (.connect url cookies ua) (.ok ())).modify (·.send g.clock (enter_room_frame cfg g.room_id))
    g₁.Lawful cfg ∧ ∀ t, ∃ s, Pumping cfg t (g₁.next .now t) s := by
  intro g₁
  have htype : (enter_room_frame cfg g.room_id).payload_type = lit "im_enter_room" := rfl
  have hbeats : ∀ s : SessionLog, (s.send g.clock (enter_room_frame cfg g.room_id)).heartbeats = s.heartbeats :=
    fun s => by rw [SessionLog.heartbeats_send, htype, if_neg (by decide), List.append_nil]
  have hlaw : g₁.Lawful cfg := by
    refine (h.connect url cookies ua).1.modify (fun s hs hlaw => ?_) hbeats
    cases hs
    exact hlaw.send rfl ⟨[], rfl, nofun⟩ rfl fun hf => absurd hf (by rw [htype]; decide)
  refine ⟨hlaw, fun t => ⟨{ ({ room_id := g.room_id } : SessionLog).send g.clock (enter_room_frame cfg g.room_id) with
    started := some t }, ⟨?_, rfl, nofun, rfl, ?_⟩, rfl, rfl, rfl⟩⟩
  · have hnow : (g₁.modify fun s => { s with started := some (s.started.getD t) }).Lawful cfg := by
      refine hlaw.modify (fun s hs hs' => ?_) fun _ => rfl
      cases hs
      exact ⟨hs'.opening, hs'.acked, ⟨rfl, nofun⟩, List.isChain_singleton _, nofun⟩
    exact ⟨hnow.sessions, hnow.returned, hnow.numbered⟩
  · have hdrawn : g₁.drawn = g₁.heartbeats.length := drawn_modify (h.connect url cookies ua).2 hbeats
    exact drawn_modify (f := fun s => { s with started := some (s.started.getD t) }) hdrawn fun _ => rfl

theorem wire_receive_loop (h : ∃ s, Pumping cfg last_hb g s) :
    wp (wire_monitor cfg) (iterate (session_round cfg) last_hb) (fun _ g' => ∃ s, Acked cfg g' s) g := by
  refine wp_iterate (fun hb g' => ∃ s, Pumping cfg hb g' s) h fun hb g' ⟨s, hs⟩ => ?_
  refine wp_mono (wire_session_round hs) fun x _ hx => ?_
  cases x <;> exact hx

theorem wire_pump_session (h : Ready cfg g) (url cookies ua : Bytes) :
    wp (wire_monitor cfg) (pump_session cfg) (fun _ g' => ∃ s, Acked cfg g' s)
      (g.next (.connect url cookies ua) (.ok ())) := by
  have hI : ∀ g', g' = g.next (.connect url cookies ua) (.ok ()) → g'.Lawful cfg := by
    rintro _ rfl; exact (h.connect url cookies ua).1
  have hpump := h.pump url cookies ua
  refine wp_bind_keeps (wire_keeps hI rfl) fun _ => wp_bind.2 ?_
  refine wp_perform_bind.2 ⟨fun _ _ => hI _ rfl, fun room_id g₁ hn => ?_⟩
  obtain ⟨rfl, rfl⟩ := hn
  refine wp_perform_bind.2 ⟨fun _ _ => hpump.1, fun _ g₁ hn => ?_⟩
  obtain rfl := hn.2
  refine wp_perform_bind.2 ⟨fun t _ => (hpump.2 t).choose_spec.lawful, fun t g₂ hn => ?_⟩
  obtain rfl := hn.2
  refine wp_bind.2 (wp_mono (wire_receive_loop (hpump.2 t)) fun ended g₃ ⟨s, hs⟩ => ?_)
  have hJ : ∀ g', (∃ s, Acked cfg g' s) → g'.Lawful cfg := fun _ ⟨_, hs⟩ => hs.lawful
  have hrest : Keeps (wire_monitor cfg) (fun g' => ∃ s, Acked cfg g' s) (do
      call .close
      if ← load .stop_requested then return WsResult.Stopped
      else if ended then return .LiveEnded
      else if ← load .live_ended then return .LiveEnded
      else return .Dropped) :=
    (wire_keeps hJ rfl).bind fun _ => (wire_keeps hJ rfl).bind fun _ => .ite (keeps_pure _) <|
      .ite (keeps_pure _) <| (wire_keeps hJ rfl).bind fun _ => .ite (keeps_pure _) (keeps_pure _)
  exact hrest g₃ ⟨s, hs⟩

theorem wire_ready : ∀ g, Ready cfg g → g.Lawful cfg := fun _ h => h.lawful

theorem wire_run_websocket (cur : ProtoMessageFetchResult) :
    Keeps (wire_monitor cfg) (Ready cfg) (run_websocket cfg cur) := by
  refine (wire_keeps wire_ready rfl).bind fun _ g hg => wp_bind.2 ?_
  have hurl : Keeps (wire_monitor cfg) (Ready cfg) (locked .net_mu_ (session_url cur).run) :=
    keeps_locked (wire_keeps wire_ready rfl) (wire_keeps wire_ready rfl)
      (keeps_session_url_of (still_of_calm (wire_calm wire_ready)) (wire_net wire_ready))
  have hfailed : Keeps (wire_monitor cfg) (Ready cfg) (do
      mark (.session .HandshakeFailed)
      return WsResult.HandshakeFailed) :=
    Keeps.bind (fun g hg => ⟨fun _ _ => (hg.mark _).lawful, fun _ g' hn => hn.2 ▸ hg.mark _⟩) fun _ => keeps_pure _
  refine Keeps.run_then (p := ExceptT.mk _) hurl hg (fun x g₁ h₁ => ?_) fun e g₁ h₁ => hfailed g₁ h₁
  obtain ⟨url, cookies⟩ := x
  refine ⟨fun r _ => ?_, fun r g₂ hn => ?_⟩
  · cases r with
    | error e => exact h₁.lawful
    | ok _ => exact (h₁.connect url cookies user_agent).1
  · obtain rfl := hn.2
    cases r with
    | error e => exact hfailed g₁ h₁
    | ok _ =>
      refine wp_bind.2 (wp_mono (wire_pump_session h₁ url cookies user_agent) fun r g₃ ⟨s, hs⟩ => ?_)
      have hready : Ready cfg (g₃.next (.mark (.session r)) ()) :=
        ready_mark hs.lawful hs.drawn (fun s' hs' => by cases hs.head.symm.trans hs'; exact ⟨hs.begun, hs.acked⟩) r
      exact wp_perform_bind.2 ⟨fun _ _ => hready.lawful, fun _ g' hn => hn.2 ▸ hready⟩

/-! ### A run -/

theorem wire_store_live_ended (b : Bool) : Keeps (wire_monitor cfg) (Ready cfg) (store .live_ended b) := by
  cases b with
  | false => exact wire_keeps wire_ready rfl
  | true =>
    refine fun g hg => ⟨fun _ _ => hg.lawful.reported, fun _ g' hn => ?_⟩
    obtain rfl := hn.2
    refine ⟨hg.lawful.reported, fun s hs => ?_, drawn_modify hg.drawn fun _ => rfl⟩
    cases hl : g.sessions with
    | nil => simp [Outgoing.next, Outgoing.modify, hl] at hs
    | cons s' past =>
      rw [Outgoing.next, Outgoing.modify, hl, List.modifyHead_cons] at hs
      rcases List.mem_cons.1 hs with rfl | hs
      · exact hg.settled s' (by simp [hl])
      · exact hg.settled s (by simp [hl, hs])

theorem wire_dispatch_keeps (msg : BaseProtoMessage) :
    Keeps (wire_monitor cfg) (Ready cfg) (dispatch_message cfg msg) :=
  keeps_dispatch_message (fun _ => wire_keeps wire_ready rfl) (wire_keeps wire_ready rfl) (wire_keeps wire_ready rfl)
    (fun _ => wire_keeps wire_ready rfl) (fun _ => wire_sink wire_ready _ _) (fun _ => wire_emit wire_ready _)
    (wire_store_live_ended true) msg

theorem wire_set_room_id (id : Int) : Keeps (wire_monitor cfg) (Ready cfg) (call (.set_room_id id)) := by
  have hready : ∀ g, Ready cfg g → Ready cfg { g with room_id := id } := fun g hg =>
    ⟨⟨hg.lawful.sessions, hg.lawful.returned, hg.lawful.numbered⟩, hg.settled, hg.drawn⟩
  exact fun g hg => ⟨fun _ _ => (hready g hg).lawful, fun _ g' hn => hn.2 ▸ hready g hg⟩

theorem wire_run : Keeps (wire_monitor cfg) (Ready cfg) (run cfg) := by
  refine keeps_run (fun f b => ?_) (keeps_set_up (still_of_calm (wire_calm wire_ready))
    (fun _ _ _ _ => wire_net wire_ready _) (fun _ _ => wire_net wire_ready _) wire_set_room_id
    fun _ => wire_keeps wire_ready rfl) (wire_fetch_once wire_ready _ _) ?_
  · cases f with
    | live_ended => exact wire_store_live_ended b
    | _ => exact wire_keeps wire_ready rfl
  · have hpoll := keeps_poll_loop (wire_calm wire_ready) wire_dispatch_keeps (@wire_fetch_once cfg _ wire_ready)
      (wire_mark wire_ready)
    have hws := keeps_sessions (wire_calm wire_ready) (@wire_fetch_once cfg _ wire_ready) wire_run_websocket
      (wire_keeps wire_ready rfl)
    exact keeps_stream_events (still_of_calm (wire_calm wire_ready)) (wire_keeps wire_ready rfl) wire_dispatch_keeps
      (keeps_transport (still_of_calm (wire_calm wire_ready)) hws hpoll (fun _ => wire_keeps wire_ready rfl) (wire_keeps wire_ready rfl))
      (fun _ _ => wire_emit wire_ready _) (wire_emit wire_ready _)

/-! ### All runs of a client -/

/-- The log is that of the caller of `run`; another thread neither sends nor changes what is sent. -/
def outgoing_monitor (cfg : Config) : Tid → Monitor Act Resp Outgoing
  | .main => wire_monitor cfg
  | _ => .det (fun _ a => a.foreign) fun g _ _ => g

theorem foreign_keeps {I : Outgoing → Prop} (a : Act) (h : a.foreign) :
    Keeps (.det (fun _ a => a.foreign) fun g _ _ => g) I (call a) := by
  refine fun g hg => ⟨h, ?_⟩
  rintro _ _ rfl
  exact hg

/-- The members that the frames depend on are what the log says. -/
structure Tied (g : Outgoing) (w : World) : Prop where
  room_id : w.room_id = g.room_id
  hb_seq : w.hb_seq = 1 + g.drawn

theorem Tied.foreign {w w' : World} {t : Tid} {a : Act} {r : Resp a} (h : Tied g w) (ha : a.foreign)
    (hs : World.sem t w a r w') : Tied g w' := by
  obtain ⟨hroom, hseq⟩ := World.sem_room_id hs (by rintro id rfl; cases ha) (by rintro rfl; cases ha)
  exact ⟨hroom.trans h.room_id, hseq.trans h.hb_seq⟩

theorem next_members {a : Act} (r : Resp a) (hr : ∀ id, a ≠ .set_room_id id) (hn : a ≠ .next_hb_seq) :
    (g.next a r).room_id = g.room_id ∧ (g.next a r).drawn = g.drawn := by
  cases a with
  | set_room_id id => exact absurd rfl (hr id)
  | next_hb_seq => exact absurd rfl hn
  | store f b => cases f <;> cases b <;> exact ⟨rfl, rfl⟩
  | connect => cases r <;> exact ⟨rfl, rfl⟩
  | recv_binary => obtain ⟨st, msg⟩ := r; cases st <;> exact ⟨rfl, rfl⟩
  | mark m => cases m <;> exact ⟨rfl, rfl⟩
  | _ => exact ⟨rfl, rfl⟩

/-- The log follows the members, and answers that come from them agree with it. -/
theorem Tied.step {w w' : World} {a : Act} {r : Resp a} (h : Tied g w) (hs : World.sem .main w a r w') :
    g.Answers a r ∧ Tied (g.next a r) w' := by
  by_cases hr : ∃ id, a = .set_room_id id
  · obtain ⟨id, rfl⟩ := hr
    obtain ⟨env, hs⟩ := hs
    cases hs
    exact ⟨trivial, rfl, h.hb_seq⟩
  · by_cases hn : a = .next_hb_seq
    · subst hn
      obtain ⟨env, hs⟩ := hs
      cases hs
      refine ⟨h.hb_seq, h.room_id, ?_⟩
      change w.hb_seq + 1 = 1 + ((g.drawn + 1 : Nat) : Int)
      have hseq := h.hb_seq
      omega
    · have hr := not_exists.1 hr
      obtain ⟨hroom, hseq⟩ := World.sem_room_id hs hr hn
      obtain ⟨hroom', hdrawn⟩ := next_members (g := g) r hr hn
      refine ⟨?_, by rw [hroom', hroom]; exact h.room_id, by rw [hdrawn, hseq]; exact h.hb_seq⟩
      cases a with
      | room_id => obtain ⟨env, hs⟩ := hs; cases hs; exact h.room_id
      | next_hb_seq => exact absurd rfl hn
      | _ => trivial

/-- What holds along a lifetime. -/
structure OutgoingInv (cfg : Config) (tr : List (Tid × Ev Resp)) (w : World) (g : Tid → Outgoing) : Prop where
  log : g .main = Outgoing.of tr
  lawful : (g .main).Lawful cfg
  tied : Tied (g .main) w
  sender : ∀ t f b, (t, ⟨.send_binary f, b⟩) ∈ tr → t = .main

theorem outgoing_step {tr : List (Tid × Ev Resp)} {w w' : World} {g : Tid → Outgoing} {t : Tid} {a : Act}
    {r : Resp a} (h : OutgoingInv cfg tr w g) (hok : (outgoing_monitor cfg t).ok (g t) a)
    (hs : World.sem t w a r w') : ∃ g', (outgoing_monitor cfg t).next (g t) a r g' ∧
      OutgoingInv cfg (tr ++ [(t, ⟨a, r⟩)]) w' (Function.update g t g') := by
  by_cases ht : t = .main
  · subst ht
    obtain ⟨hans, htied⟩ := h.tied.step hs
    refine ⟨(g .main).next a r, ⟨hans, rfl⟩, ⟨?_, ?_, ?_, ?_⟩⟩
    · rw [Function.update_self, Outgoing.of, thread_snoc, if_pos rfl, h.log]
      simp [Outgoing.of, Monitor.after]
    · rw [Function.update_self]
      exact hok r hans
    · rw [Function.update_self]
      exact htied
    · intro t f b hmem
      rcases List.mem_append.1 hmem with hmem | hmem
      · exact h.sender t f b hmem
      · exact congrArg Prod.fst (List.mem_singleton.1 hmem)
  · have hforeign : a.foreign = true := by
      cases t with
      | main => exact absurd rfl ht
      | poller => exact hok
      | app n => exact hok
    refine ⟨g t, ?_, ⟨?_, ?_, ?_, ?_⟩⟩
    · cases t with
      | main => exact absurd rfl ht
      | poller => rfl
      | app n => rfl
    · rw [Function.update_eq_self, Outgoing.of, thread_snoc, if_neg ht]
      exact h.log
    · rw [Function.update_eq_self]
      exact h.lawful
    · rw [Function.update_eq_self]
      exact h.tied.foreign hforeign hs
    · intro u f b hmem
      rcases List.mem_append.1 hmem with hmem | hmem
      · exact h.sender u f b hmem
      · obtain ⟨rfl, he⟩ := Prod.mk.inj (List.mem_singleton.1 hmem)
        cases he
        cases hforeign

theorem ready_init : Ready cfg {} := ⟨⟨nofun, nofun, nofun⟩, nofun, rfl⟩

/-- The frames of a client, at every point of its life: each session opens with one `im_enter_room` for the
room, each message that asks for an ack gets exactly one, in order, heartbeats are numbered consecutively over
all sessions and spaced by the interval, and nothing follows a reported live end. No other thread sends. -/
theorem outgoing_frames {calls : Nat → List ApiCall} {tr : List (Tid × Ev Resp)}
    {c : Conf Tid World Act Resp (Except Exn Unit)} (h : Lifetime cfg calls tr c) :
    (Outgoing.of tr).Lawful cfg ∧ ∀ t f b, (t, ⟨.send_binary f, b⟩) ∈ tr → t = .main := by
  have hpoller : ∀ g, wp (outgoing_monitor cfg .poller) (poller cfg) (fun _ g => Tid.poller = .main → Ready cfg g) g :=
    fun g => wp_mono (does_poller.keeps (I := fun _ => True) foreign_keeps g trivial) fun _ _ _ => nofun
  have hwp : ∀ t, wp (outgoing_monitor cfg t) (threads cfg calls t)
      (fun _ g => t = .main → Ready cfg g) {} := by
    intro t
    cases t with
    | main => exact wp_mono (wire_run {} ready_init) fun _ _ hg _ => hg
    | poller => exact hpoller {}
    | app n =>
      have happ : Does (·.foreign) (application cfg (calls n)) :=
        (does_application (calls n)).keeps fun a h => does_perform (Act.foreign_of_aside h)
      exact wp_mono (happ.keeps (I := fun _ => True) foreign_keeps {} trivial) fun _ _ _ => nofun
  obtain ⟨g, hinv, -⟩ := h.invariant (I := OutgoingInv cfg) (s := fun _ => {})
    (fun _ _ _ _ _ _ _ => outgoing_step)
    (fun tr w g hg => ⟨hg.log, hg.lawful, ⟨hg.tied.room_id, hg.tied.hb_seq⟩, hg.sender⟩)
    (fun r g hg => wp_mono (wire_run g (hg rfl)) fun _ _ hg' _ => hg')
    hpoller ⟨rfl, ready_init.lawful, ⟨rfl, rfl⟩, nofun⟩ hwp
  exact ⟨hinv.log ▸ hinv.lawful, hinv.sender⟩

/-- A batch that asks for an ack, serialised and parsed. -/
def asking_batch (internal_ext : Bytes) : Bytes × ProtoMessageFetchResult :=
  ((if internal_ext = [] then [] else 0x2a :: internal_ext.length.toUInt8 :: internal_ext) ++ [0x48, 0x01],
    { internal_ext := internal_ext, need_ack := true })

/-- A `msg` frame with such a batch. -/
def asking_frame (log_id : UInt8) (internal_ext : Bytes) : Bytes × WebcastPushFrame :=
  (0x10 :: log_id :: (sample_frame (asking_batch internal_ext).1).1,
    { (sample_frame (asking_batch internal_ext).1).2 with log_id := log_id.toNat })

def asking_config : Config :=
  { sample_config { room_id_override := 7, fetch_live_check := false, fetch_stream_info := false } with
    codec := { sample_codec with
      fetch_result := fun b => [sample_batch [] (lit "A"), asking_batch (lit "x"), asking_batch []].lookup b
      push_frame := fun b => [asking_frame 9 (lit "x"), asking_frame 10 []].lookup b } }

/-- A run with one session: two messages that ask for an ack, ten seconds of silence, and then application thread
`n` ends it. -/
def asking_schedule (n : Nat) : List (Tid × Env) :=
  let env := sample_env (sample_batch [] (lit "A")).1 .again
  let msg := fun b => { env with recv := .chunk b (some ⟨{ binary := true }, 0⟩) }
  List.replicate 54 (.main, msg (asking_frame 9 (lit "x")).1) ++
    List.replicate 8 (.main, msg (asking_frame 10 []).1) ++
    List.replicate 11 (.main, { env with now := 10000000000 }) ++
    List.replicate 3 (.app n, env) ++ List.replicate 7 (.main, env)

def asking_start : Conf Tid World Act Resp (Except Exn Unit) :=
  start asking_config (fun _ => [.disconnect]) {}

theorem asking_runs : (execute World.step (asking_schedule 0) asking_start).isSome := by decide +kernel

/-- The second run of this client. -/
def asking_again : Conf Tid World Act Resp (Except Exn Unit) :=
  again asking_config ((execute World.step (asking_schedule 0) asking_start).get asking_runs).2

theorem asking_runs_again : (execute World.step (asking_schedule 1) asking_again).isSome := by
  decide +kernel

/-- Both sessions answer both messages, and the heartbeat of the second goes on from that of the first. -/
theorem second_run_counts_on :
    let tr := ((execute World.step (asking_schedule 0) asking_start).get asking_runs).1 ++
      ((execute World.step (asking_schedule 1) asking_again).get asking_runs_again).1
    (Outgoing.of tr).sessions.map (·.frames) = [2, 1].map (fun seq =>
      [enter_room_frame asking_config 7, ack_frame 9 (lit "x"), ack_frame 10 [], heartbeat_frame asking_config 7 seq]) ∧
      (Outgoing.of tr).Lawful asking_config := by
  intro tr
  have hfirst : Lifetime asking_config (fun _ => [.disconnect]) _ _ :=
    .first (run_of_isSome World.sem_of_step asking_runs)
  obtain ⟨r, hret⟩ := eq_ret_of_returned (p := ((execute World.step (asking_schedule 0) asking_start).get
    asking_runs).2.prog .main) (by decide +kernel)
  have hsecond := hfirst.again hret (run_of_isSome World.sem_of_step asking_runs_again)
  exact ⟨by decide +kernel, (outgoing_frames hsecond).1⟩

end TtLive
