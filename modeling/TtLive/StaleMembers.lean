import TtLive.Lifetime
import TtLive.PageFetch

/-!
# What a later run reads of an earlier one

`run` resets the three flags and sets the room id before it uses them, and it connects before it uses the
socket. `stream_info` and `ws_ever_connected` are set by a run and reset by none. `RunLog` is what a run can
know of itself; the monitor's state adds the two members as they are and as they would be in a new client. As
long as neither shows through from an earlier run, each read tells no difference, the `Connect` event carries the
room info of this run, and the first refused handshake leads to `poll_loop`.
-/

namespace TtLive
open Prog Threads

def Config.ws_only (cfg : Config) : Bool := cfg.options.use_websocket && !cfg.options.use_polling

/-- What a run sets before it reads it. -/
inductive Member
  | flag (f : Flag)
  | room_id
deriving DecidableEq, Repr

/-- `fetched` is the room info of this run, unless it could not be fetched; `batch` the last `im/fetch` result;
`own` the members that this run has set. `refused` tells that a handshake failed before any connect of this run,
and that nothing came of it yet. -/
structure RunLog where
  fetched : Option StreamInfo := none
  batch : ProtoMessageFetchResult := {}
  own : Member → Bool := fun _ => false
  connected : Bool := false
  refused : Bool := false

namespace RunLog

def next (cfg : Config) (g : RunLog) : (a : Act) → Resp a → RunLog
  | .store f _, _ => { g with own := Function.update g.own (.flag f) true }
  | .set_room_id _, _ => { g with own := Function.update g.own .room_id true }
  | .net_end (.get .room_info _ _), r => { g with fetched := (room_info_of cfg r).toOption }
  | .mark (.fetched (.ok batch)), _ => { g with batch := batch }
  | .connect _ _ _, .ok _ => { g with connected := true }
  | .mark (.session .HandshakeFailed), _ => { g with refused := cfg.ws_only && !g.connected }
  | .mark (.poll_loop _), _ => { g with refused := false }
  | _, _ => g

def of (cfg : Config) (tr : List (Ev Resp)) : RunLog := Monitor.after (next cfg) {} tr

/-- What may follow: the flags, the room id and the socket are of this run, a `Connect` event carries its room
info, and after a refusal comes the poll loop, at the batch that the run started with. -/
def Allows (g : RunLog) : Act → Prop
  | .load f => g.own (.flag f) = true
  | .room_id => g.own .room_id = true
  | .connected | .send_binary _ | .recv_binary => g.connected = true
  | .mark (.emit ev) => g.refused = false ∧ (ev.type = .Connect → ev.stream = g.fetched.getD {})
  | .mark (.poll_loop initial) => g.refused = true → initial = g.batch
  | .mark _ | .connect _ _ _ => g.refused = false
  | _ => True

/-- Everything is set that a run reads after step 1. -/
def Ready (g : RunLog) : Prop := ∀ m, g.own m = true

end RunLog

/-- A run's caller, step by step. -/
def OwnMembers (cfg : Config) (tr : List (Tid × Ev Resp)) : Prop :=
  ∀ pre a r post, thread .main tr = pre ++ ⟨a, r⟩ :: post → (RunLog.of cfg pre).Allows a

/-- The members that no run resets. -/
structure Members where
  stream_info : StreamInfo := {}
  ws_ever_connected : Bool := false

def World.members (w : World) : Members := ⟨w.stream_info, w.ws_ever_connected⟩

namespace Members

def next (g : Members) : Act → Members
  | .set_stream_info info => { g with stream_info := info }
  | .set_ws_ever_connected => { g with ws_ever_connected := true }
  | _ => g

/-- The answers that agree with the members. -/
def Answers (g : Members) : (a : Act) → Resp a → Prop
  | .stream_info, r => r = g.stream_info
  | .ws_ever_connected, r => r = g.ws_ever_connected
  | _, _ => True

end Members

/-- The step does not show what an earlier run has left in the members. -/
def Unstale (cfg : Config) (stale : Members) (g : RunLog) : (a : Act) → Resp a → Prop
  | .net_end (.get .room_info _ _), r => stale.stream_info = {} ∨ (room_info_of cfg r).isOk = true
  | .mark (.session .HandshakeFailed), _ =>
    cfg.ws_only = false ∨ stale.ws_ever_connected = false ∨ g.connected = true
  | _, _ => True

def MembersNew (cfg : Config) (stale : Members) (tr : List (Tid × Ev Resp)) : Prop :=
  ∀ pre a r post, thread .main tr = pre ++ ⟨a, r⟩ :: post → Unstale cfg stale (RunLog.of cfg pre) a r

/-- The log, the members, and those of a client that makes this run first. -/
structure RunState where
  log : RunLog := {}
  members : Members
  fresh : Members := {}

namespace RunState

def next (cfg : Config) (g : RunState) (a : Act) (r : Resp a) : RunState :=
  ⟨g.log.next cfg a r, g.members.next a, g.fresh.next a⟩

/-- A read that a new client would answer in the same way; without a fallback `ws_ever_connected` is read in
vain. -/
def Agrees (cfg : Config) (g : RunState) : Act → Prop
  | .stream_info => g.members.stream_info = g.fresh.stream_info
  | .ws_ever_connected => cfg.ws_only = true → g.members.ws_ever_connected = g.fresh.ws_ever_connected
  | _ => True

end RunState

def run_monitor (cfg : Config) (stale : Members) : Monitor Act Resp RunState where
  ok g a := g.log.Allows a ∧ g.Agrees cfg a
  next g a r g' := (g.members.Answers a r ∧ Unstale cfg stale g.log a r) ∧ g' = g.next cfg a r

variable {cfg : Config} {calls : Nat → List ApiCall} {stale : Members}

/-! ### What the parts of a run do to the log -/

/-- The actions that leave the log alone and are always allowed. -/
def Act.silent : Act → Bool
  | .net_end (.get .room_info _ _) | .load _ | .store _ _ | .set_room_id _ | .room_id | .mark _ => false
  | .set_stream_info _ | .stream_info | .set_ws_ever_connected | .ws_ever_connected => false
  | .connect _ _ _ | .connected | .send_binary _ | .recv_binary => false
  | _ => true

theorem next_silent {g : RunState} {a : Act} (h : a.silent) (r : Resp a) : g.next cfg a r = g := by
  cases a with
  | net_end op =>
    cases op with
    | get page url hs => cases page <;> first | rfl | cases h
    | _ => rfl
  | _ => first | rfl | cases h

/-- Setting a member that is set leaves the log as it is. -/
theorem next_store {g : RunState} (h : g.log.Ready) (f : Flag) (b : Bool) : g.next cfg (.store f b) () = g := by
  have hown : Function.update g.log.own (.flag f) true = g.log.own := by
    rw [← h (.flag f), Function.update_eq_self]
  show RunState.mk { g.log with own := Function.update g.log.own (.flag f) true } g.members g.fresh = g
  rw [hown]

section
variable {I : RunState → Prop}

theorem run_silent {a : Act} (h : a.silent) : Keeps (run_monitor cfg stale) I (call a) := by
  refine fun g hg => ⟨?_, fun r g' hn => by rw [hn.2, next_silent h]; exact hg⟩
  cases a with
  | load => cases h
  | room_id => cases h
  | stream_info => cases h
  | ws_ever_connected => cases h
  | connect => cases h
  | connected => cases h
  | send_binary => cases h
  | recv_binary => cases h
  | mark => cases h
  | _ => exact ⟨trivial, trivial⟩

theorem run_net {op : NetOp} (h : (Act.net_end op).silent) : Keeps (run_monitor cfg stale) I (net op) :=
  (run_silent rfl).bind fun _ => run_silent h

theorem run_get (page : Page) (url : Bytes) (hs : ParamList) (h : page.plain) :
    Keeps (run_monitor cfg stale) I (net (.get page url hs)) :=
  run_net (by cases page <;> first | rfl | cases h)

end

section
variable {I : RunState → Prop} (hready : ∀ g, I g → g.log.Ready)
include hready

theorem run_calm (a : Act) (h : a.calm) : Keeps (run_monitor cfg stale) I (call a) := by
  cases a with
  | load f => exact fun g hg => ⟨⟨hready g hg _, trivial⟩, fun _ g' hn => by rw [hn.2]; exact hg⟩
  | room_id => exact fun g hg => ⟨⟨hready g hg _, trivial⟩, fun _ g' hn => by rw [hn.2]; exact hg⟩
  | store f b => exact fun g hg => ⟨⟨trivial, trivial⟩, fun _ g' hn => by rw [hn.2, next_store (hready g hg)]; exact hg⟩
  | _ => exact run_silent (by first | rfl | cases h)


theorem run_wired (hsocket : ∀ g, I g → g.log.connected = true) (a : Act) (h : a.wired) :
    Keeps (run_monitor cfg stale) I (call a) := by
  cases a with
  | connected => exact fun g hg => ⟨⟨hsocket g hg, trivial⟩, fun _ g' hn => by rw [hn.2]; exact hg⟩
  | send_binary => exact fun g hg => ⟨⟨hsocket g hg, trivial⟩, fun _ g' hn => by rw [hn.2]; exact hg⟩
  | next_hb_seq => exact run_silent rfl
  | now => exact run_silent rfl
  | _ => exact run_calm hready _ h

theorem run_invoke (c : Callee) : Keeps (run_monitor cfg stale) I (invoke (api cfg) c) :=
  keeps_invoke (still_of_calm (run_calm hready)) run_get c (run_silent rfl) (run_silent rfl)

theorem run_sink (kind data : Bytes) : Keeps (run_monitor cfg stale) I (sink cfg kind data) :=
  .ite (run_invoke hready _) (keeps_pure _)

theorem run_fetch_request (cursor internal_ext : Bytes) :
    Keeps (run_monitor cfg stale) I (locked .net_mu_ (fetch_request cfg cursor internal_ext).run) :=
  keeps_locked (run_silent rfl) (run_silent rfl) (keeps_fetch_request (still_of_calm (run_calm hready)) (run_net rfl)
    (fun _ => run_net rfl) (fun _ => run_net rfl) (fun _ _ => run_net rfl) fun _ => run_sink hready _ _)

theorem run_session_url (initial : ProtoMessageFetchResult) :
    Keeps (run_monitor cfg stale) I (locked .net_mu_ (session_url initial).run) :=
  keeps_locked (run_silent rfl) (run_silent rfl) (keeps_session_url (still_of_calm (run_calm hready)) (run_net rfl)
    (fun _ => run_net rfl) fun _ _ => run_net rfl)

end

/-- No refusal is open. -/
structure Unrefused (g : RunState) : Prop where
  ready : g.log.Ready
  refused : g.log.refused = false

/-- Then marks other than those of sessions change at most the batch. -/
structure Open (I : RunState → Prop) : Prop where
  unrefused : ∀ g, I g → Unrefused g
  batch : ∀ g batch, I g → I { g with log := { g.log with batch := batch } }

section
variable {I : RunState → Prop} (href : ∀ g, I g → Unrefused g)
include href

theorem run_emit {ev : Event} (h : ev.type ≠ .Connect) : Keeps (run_monitor cfg stale) I (emit cfg ev) := by
  have hmark : Keeps (run_monitor cfg stale) I (mark (.emit ev)) := fun g hg =>
    ⟨⟨⟨(href g hg).refused, fun ht => absurd ht h⟩, trivial⟩, fun _ g' hn => by rw [hn.2]; exact hg⟩
  exact keeps_emit hmark fun _ => run_invoke (fun g hg => (href g hg).ready) _

theorem run_dispatch_message (msg : BaseProtoMessage) :
    Keeps (run_monitor cfg stale) I (dispatch_message cfg msg) := by
  have hready : ∀ g, I g → g.log.Ready := fun g hg => (href g hg).ready
  refine keeps_dispatch_message (fun msg g hg => ?_) (run_silent rfl) (run_silent rfl) (fun _ => run_silent rfl)
    (fun _ => run_sink hready _ _) (fun msg => run_emit href (parse_event_type _ _ _ _).1) ?_ msg
  · exact ⟨⟨(href g hg).refused, trivial⟩, fun _ g' hn => by rw [hn.2]; exact hg⟩
  · exact fun g hg => ⟨⟨trivial, trivial⟩, fun _ g' hn => by rw [hn.2, next_store (hready g hg)]; exact hg⟩

end

section
variable {I : RunState → Prop} (hI : Open I)
include hI

theorem Open.ready (g : RunState) (h : I g) : g.log.Ready := (hI.unrefused g h).ready

theorem run_mark (m : Mark) (h : m.calm) : Keeps (run_monitor cfg stale) I (mark m) := by
  intro g hg
  have href := (hI.unrefused g hg).refused
  cases m with
  | fetched r =>
    cases r with
    | ok batch => exact ⟨⟨href, trivial⟩, fun _ g' hn => by rw [hn.2]; exact hI.batch g batch hg⟩
    | error e => exact ⟨⟨href, trivial⟩, fun _ g' hn => by rw [hn.2]; exact hg⟩
  | poll_loop initial =>
    refine ⟨⟨fun hr => absurd (href.symm.trans hr) Bool.false_ne_true, trivial⟩, fun _ g' hn => ?_⟩
    have hsame : g.next cfg (.mark (.poll_loop initial)) () = g := by
      obtain ⟨⟨fetched, batch, own, connected, refused⟩, members, fresh⟩ := g
      cases href
      rfl
    rw [hn.2, hsame]
    exact hg
  | session r => cases h
  | dispatch_message => cases h
  | emit => cases h
  | _ => exact ⟨⟨href, trivial⟩, fun _ g' hn => by rw [hn.2]; exact hg⟩

theorem run_fetch_once (cursor internal_ext : Bytes) :
    Keeps (run_monitor cfg stale) I (fetch_once cfg cursor internal_ext) :=
  (run_mark hI _ rfl).bind fun _ => (run_fetch_request hI.ready _ _).bind fun _ => (run_mark hI _ rfl).bind fun _ =>
    keeps_pure _

theorem run_poll_loop (initial : ProtoMessageFetchResult) :
    Keeps (run_monitor cfg stale) I (poll_loop cfg initial) :=
  keeps_poll_loop (run_calm hI.ready) (run_dispatch_message hI.unrefused) (run_fetch_once hI) (run_mark hI) initial

end

theorem open_unrefused : Open Unrefused := ⟨fun _ h => h, fun _ _ h => ⟨h.ready, h.refused⟩⟩

/-! ### Set-up -/

/-- Before the room info is requested; no connect of this run has succeeded or failed yet. -/
structure Starting (stale : Members) (g : RunState) : Prop where
  refused : g.log.refused = false
  connected : g.log.connected = false
  fetched : g.log.fetched = none
  members : g.members = stale
  fresh : g.fresh = {}

/-- The same, after step 1. -/
structure Resolved (stale : Members) (g : RunState) : Prop extends Starting stale g where
  ready : g.log.Ready

/-- No connect of this run has succeeded or failed yet. -/
structure Unconnected (stale : Members) (g : RunState) : Prop extends Unrefused g where
  connected : g.log.connected = false
  ever : g.members.ws_ever_connected = stale.ws_ever_connected
  fresh_ever : g.fresh.ws_ever_connected = false

/-- The room info is what this run has fetched. -/
structure Loaded (stale : Members) (g : RunState) : Prop extends Unconnected stale g where
  own : g.members.stream_info = g.log.fetched.getD {}
  fresh_own : g.fresh.stream_info = g.log.fetched.getD {}

theorem open_loaded : Open (Loaded stale) :=
  ⟨fun _ h => h.toUnrefused, fun _ _ h => ⟨⟨⟨h.ready, h.refused⟩, h.connected, h.ever, h.fresh_ever⟩, h.own, h.fresh_own⟩⟩

/-- All flags are set by now. -/
theorem run_set_room_id {g : RunState} (h : Starting stale g) (hflags : ∀ f, g.log.own (.flag f) = true) (id : Int) :
    wp (run_monitor cfg stale) (call (.set_room_id id)) (fun _ g' => Resolved stale g') g := by
  refine ⟨⟨trivial, trivial⟩, fun _ g' hn => ?_⟩
  obtain rfl := hn.2
  refine ⟨⟨h.refused, h.connected, h.fetched, h.members, h.fresh⟩, fun m => ?_⟩
  show Function.update g.log.own .room_id true m = true
  by_cases hm : m = .room_id
  · rw [hm, Function.update_self]
  · rw [Function.update_of_ne hm]
    cases m with
    | flag f => exact hflags f
    | room_id => exact absurd rfl hm

theorem run_resolve_room_id {g : RunState} (h : Starting stale g) (hflags : ∀ f, g.log.own (.flag f) = true) :
    wp (run_monitor cfg stale) (resolve_room_id cfg).run (orThrow (fun _ g' => Resolved stale g') fun _ _ => True) g := by
  have hapi : ∀ g', Resolved stale g' →
      wp (run_monitor cfg stale) (room_id_from_api cfg).run (orThrow (fun _ k => Resolved stale k) fun _ _ => True) g' := by
    intro g' h'
    refine (keeps_fetch_room_id_from_api run_get).run_then h' (fun rid k hk => ?_) fun _ _ _ => trivial
    exact wp_run_lift.2 (run_set_room_id hk.toStarting (fun f => hk.ready _) rid)
  unfold resolve_room_id
  split
  · exact wp_run_lift.2 (run_set_room_id h hflags _)
  · have hhtml : Keeps (run_monitor cfg stale) (· = g) (fetch_room_id_from_html cfg).run :=
      keeps_fetch_room_id_from_html run_get
    refine wp_run_bind.2 (wp_run_lift.2 (wp_mono (hhtml g rfl) fun r g₁ h₁ => ?_))
    subst h₁
    cases r with
    | ok rid =>
      refine wp_run_bind.2 (wp_run_lift.2 (wp_mono (run_set_room_id h hflags rid) fun _ g₂ h₂ => ?_))
      split
      · exact hapi g₂ h₂
      · exact h₂
    | error e =>
      refine wp_run_bind.2 (wp_run_lift.2 (wp_mono (run_set_room_id h hflags 0) fun _ g₂ h₂ => ?_))
      exact hapi g₂ h₂

/-- The room info request has been answered. -/
def RunState.fetch (g : RunState) (x : Except Exn StreamInfo) : RunState :=
  { g with log := { g.log with fetched := x.toOption } }

/-- The request of the room info returns what the log notes. -/
theorem wp_fetch_room_info {Q : Except Exn StreamInfo → RunState → Prop} {g : RunState} (hready : g.log.Ready)
    (h : ∀ x, stale.stream_info = {} ∨ x.isOk = true → Q x (g.fetch x)) :
    wp (run_monitor cfg stale) (fetch_room_info cfg).run Q g := by
  refine wp_run_bind.2 (wp_run_lift.2 ⟨⟨hready _, trivial⟩, fun room_id g₁ hn => ?_⟩)
  obtain rfl : g₁ = g := hn.2
  refine wp_run_bind.2 (wp_bind.2 (wp_mono (run_silent (I := (· = g₁)) rfl g₁ rfl) fun _ g₂ hg => ?_))
  subst hg
  refine ⟨⟨trivial, trivial⟩, fun r g₃ hn => ?_⟩
  have hx : Q (room_info_of cfg r) g₃ := hn.2 ▸ h (room_info_of cfg r) hn.1.2
  cases r with
  | error e => exact hx
  | ok resp =>
    rw [room_info_of] at hx
    rw [wp_ret, orThrow_ok]
    split
    · next hempty => rw [if_pos hempty] at hx; exact hx
    · next hempty => rw [if_neg hempty] at hx; exact hx

theorem wp_load_stream_info (hoff : cfg.options.fetch_stream_info = false → stale.stream_info = {}) {g : RunState}
    (h : Resolved stale g) : wp (run_monitor cfg stale) (load_stream_info cfg).run (fun _ g' => Loaded stale g') g := by
  have hever : g.members.ws_ever_connected = stale.ws_ever_connected := by rw [h.members]
  have hfresh : g.fresh.ws_ever_connected = false := by rw [h.fresh]
  unfold load_stream_info
  split
  · refine wp_run_bind.2 (wp_run_lift.2 (wp_fetch_room_info h.ready fun x hx => ?_))
    cases x with
    | ok info =>
      refine wp_run_lift.2 ⟨⟨trivial, trivial⟩, fun _ g' hn => ?_⟩
      obtain rfl := hn.2
      exact ⟨⟨⟨h.ready, h.refused⟩, h.connected, hever, hfresh⟩, rfl, rfl⟩
    | error e =>
      have hempty : g.members.stream_info = {} := h.members ▸ hx.resolve_right nofun
      have hnew : g.fresh.stream_info = {} := by rw [h.fresh]
      exact ⟨⟨⟨h.ready, h.refused⟩, h.connected, hever, hfresh⟩, hempty, hnew⟩
  · next hopt =>
    have hempty : g.members.stream_info = {} := h.members ▸ hoff (Bool.eq_false_iff.2 hopt)
    exact ⟨⟨⟨h.ready, h.refused⟩, h.connected, hever, hfresh⟩, by rw [hempty, h.fetched]; rfl,
      by rw [h.fresh, h.fetched]; rfl⟩

theorem wp_set_up (hoff : cfg.options.fetch_stream_info = false → stale.stream_info = {}) {g : RunState}
    (h : Starting stale g) (hflags : ∀ f, g.log.own (.flag f) = true) :
    wp (run_monitor cfg stale) (set_up cfg).run (orThrow (fun _ g' => Loaded stale g') fun _ _ => True) g := by
  have hready : ∀ g', Resolved stale g' → g'.log.Ready := fun _ h => h.ready
  have hhome : Keeps (run_monitor cfg stale) (· = g) (http_get .home (web_defaults.kAppUrl ++ lit "/") []).run :=
    keeps_http_get run_get rfl _ _
  refine (Keeps.run_lift hhome).run_then rfl (fun _ g₁ h₁ => ?_) fun _ _ _ => trivial
  subst h₁
  refine wp_run_bind.2 (wp_mono (run_resolve_room_id h hflags) fun x g₂ h₂ => ?_)
  cases x with
  | error e => trivial
  | ok _ =>
    refine (keeps_check_room_id (still_of_calm (run_calm hready))).run_then h₂ (fun _ g₃ h₃ => ?_) fun _ _ _ => trivial
    refine (keeps_live_check (still_of_calm (run_calm hready)) run_get).run_then h₃ (fun _ g₄ h₄ => ?_) fun _ _ _ => trivial
    refine wp_run_bind.2 (wp_mono (wp_load_stream_info hoff h₄) fun x g₅ h₅ => ?_)
    cases x with
    | error e => trivial
    | ok _ =>
      refine wp_mono (keeps_load_gift_list (still_of_calm (run_calm open_loaded.ready)) run_get g₅ h₅) fun x g₆ h₆ => ?_
      cases x with
      | error e => trivial
      | ok _ => exact h₆

/-- The first fetch of the run. -/
theorem wp_first_fetch {g : RunState} (h : Loaded stale g) :
    wp (run_monitor cfg stale) (fetch_once cfg [] [])
      (orThrow (fun initial g' => Loaded stale g' ∧ g'.log.batch = initial) fun _ _ => True) g := by
  refine wp_bind.2 (wp_mono (run_mark open_loaded (.fetch_once [] []) rfl g h) fun _ g₁ h₁ => ?_)
  refine wp_bind.2 (wp_mono (run_fetch_request open_loaded.ready [] [] g₁ h₁) fun r g₂ h₂ => ?_)
  refine wp_perform_bind.2 ⟨⟨h₂.refused, trivial⟩, fun _ g₃ hn => ?_⟩
  obtain rfl := hn.2
  cases r with
  | error e => trivial
  | ok initial => exact ⟨open_loaded.batch g₂ initial h₂, rfl⟩

/-! ### Sessions -/

/-- A connect of this run has succeeded. -/
structure Connected (g : RunState) : Prop extends Unrefused g where
  connected : g.log.connected = true

/-- And the members say so. -/
structure EverConnected (g : RunState) : Prop extends Connected g where
  ever : g.members.ws_ever_connected = true
  fresh_ever : g.fresh.ws_ever_connected = true

theorem open_connected : Open Connected := ⟨fun _ h => h.toUnrefused, fun _ _ h => ⟨⟨h.ready, h.refused⟩, h.connected⟩⟩

theorem open_ever_connected : Open EverConnected :=
  ⟨fun _ h => h.toUnrefused, fun _ _ h => ⟨⟨⟨h.ready, h.refused⟩, h.connected⟩, h.ever, h.fresh_ever⟩⟩

/-- The first handshake of this run has failed. -/
structure Refused (initial : ProtoMessageFetchResult) (g : RunState) : Prop where
  ready : g.log.Ready
  ever : g.members.ws_ever_connected = false
  fresh_ever : g.fresh.ws_ever_connected = false
  batch : g.log.batch = initial

/-- The run has not connected yet, and stands at the batch it has fetched first. -/
structure Fresh (stale : Members) (initial : ProtoMessageFetchResult) (g : RunState) : Prop
    extends Unconnected stale g where
  batch : g.log.batch = initial

variable {I J : RunState → Prop} {initial : ProtoMessageFetchResult}

/-- A handshake succeeds. -/
def RunState.connect (g : RunState) : RunState :=
  ⟨{ g.log with connected := true }, { g.members with ws_ever_connected := true },
    { g.fresh with ws_ever_connected := true }⟩

/-- Rule for a session that is opened in `I`, and is in `J` once its handshake has succeeded. -/
theorem wp_run_websocket {cur : ProtoMessageFetchResult} {g : RunState} {Q : WsResult → RunState → Prop}
    (hI : ∀ g, I g → Unrefused g) (hJ : Open J) (hsocket : ∀ g, J g → g.log.connected = true)
    (hconnect : ∀ g, I g → J g.connect)
    (hfail : ∀ g, I g → wp (run_monitor cfg stale) (mark (.session .HandshakeFailed)) (fun _ g' => Q .HandshakeFailed g') g)
    (hdone : ∀ r g, J g → wp (run_monitor cfg stale) (mark (.session r)) (fun _ g' => Q r g') g) (h : I g) :
    wp (run_monitor cfg stale) (run_websocket cfg cur) Q g := by
  refine wp_perform_bind.2 ⟨⟨(hI g h).refused, trivial⟩, fun _ g₁ hn => wp_bind.2 ?_⟩
  obtain rfl : g₁ = g := hn.2
  refine Keeps.run_then (p := ExceptT.mk _) (run_session_url (fun g hg => (hI g hg).ready) cur) h (fun x g₂ h₂ => ?_)
    fun e g₂ h₂ => wp_bind.2 (hfail g₂ h₂)
  refine ⟨⟨(hI g₂ h₂).refused, trivial⟩, fun r g₃ hn => ?_⟩
  obtain rfl := hn.2
  cases r with
  | error e => exact wp_bind.2 (hfail g₂ h₂)
  | ok _ =>
    have hpump : wp (run_monitor cfg stale) (pump_session cfg) (fun _ g' => J g')
        (g₂.next cfg (.connect x.1 x.2 user_agent) (.ok ())) := by
      refine wp_pump_session (run_wired hJ.ready hsocket) (run_dispatch_message hJ.unrefused) ?_
        (fun _ => run_sink hJ.ready _ _) ⟨⟨trivial, trivial⟩, fun _ g' hn => ?_⟩
      · exact fun g hg => ⟨⟨hsocket g hg, trivial⟩, fun _ g' hn => by rw [hn.2]; exact hg⟩
      · rw [hn.2]
        exact hconnect g₂ h₂
    exact wp_bind.2 (wp_mono hpump fun r g₄ h₄ => wp_bind.2 (hdone r g₄ h₄))

/-- A connected client stays connected, whatever the session returns. -/
theorem run_mark_session (r : WsResult) : Keeps (run_monitor cfg stale) EverConnected (mark (.session r)) := by
  refine fun g hg => ⟨⟨hg.refused, trivial⟩, fun _ g' hn => ?_⟩
  obtain rfl := hn.2
  cases r with
  | HandshakeFailed =>
    have hsame : (cfg.ws_only && !g.log.connected) = false := by rw [hg.connected]; simp
    exact ⟨⟨⟨hg.ready, hsame⟩, hg.connected⟩, hg.ever, hg.fresh_ever⟩
  | _ => exact hg

theorem run_later_session (cur : ProtoMessageFetchResult) :
    Keeps (run_monitor cfg stale) EverConnected (run_websocket cfg cur) := fun _ hg =>
  wp_run_websocket open_ever_connected.unrefused open_ever_connected (fun _ h => h.connected)
    (fun _ h => ⟨⟨⟨h.ready, h.refused⟩, rfl⟩, rfl, rfl⟩) (run_mark_session .HandshakeFailed) run_mark_session hg

/-- A session of a client that has not connected in this run either connects or is refused. -/
theorem run_first_session {cur : ProtoMessageFetchResult} {g : RunState} (hws : cfg.ws_only = true)
    (h : Fresh stale initial g) : wp (run_monitor cfg stale) (run_websocket cfg cur)
      (fun r g' => EverConnected g' ∨ r = .HandshakeFailed ∧ Refused initial g') g := by
  refine wp_run_websocket (fun _ h => h.toUnrefused) open_ever_connected (fun _ h => h.connected)
    (fun _ h => ⟨⟨⟨h.ready, h.refused⟩, rfl⟩, rfl, rfl⟩) (fun g' hg' => ?_)
    (fun r g' hg' => wp_mono (run_mark_session r g' hg') fun _ _ h => .inl h) h
  refine ⟨⟨hg'.refused, trivial⟩, fun _ g'' hn => ?_⟩
  obtain rfl := hn.2
  have hever : stale.ws_ever_connected = false := by
    rcases hn.1.2 with hno | hever | hconnected
    · exact absurd (hws.symm.trans hno) (by decide)
    · exact hever
    · exact absurd (hconnected.symm.trans hg'.connected) (by decide)
  exact .inr ⟨rfl, hg'.ready, hg'.ever.trans hever, hg'.fresh_ever, hg'.batch⟩

/-- The loop of WebSocket-only mode. -/
theorem run_ws_path {g : RunState} (hws : cfg.ws_only = true) (h : Fresh stale initial g) :
    wp (run_monitor cfg stale) (run_websocket_with_reconnect cfg initial true)
      (fun handled g' => Unrefused g' ∨ handled = false ∧ Refused initial g') g := by
  have hunrefused : ∀ g', Fresh stale initial g' ∨ EverConnected g' → Unrefused g' := by
    rintro g' (h | h)
    · exact h.toUnrefused
    · exact h.toUnrefused
  refine wp_iterate (fun _ g' => Fresh stale initial g' ∨ EverConnected g') (.inl h) fun s g h => ?_
  have halive : Keeps (run_monitor cfg stale) (fun g' => Fresh stale initial g' ∨ EverConnected g') alive :=
    keeps_alive (run_calm fun g' h' => (hunrefused g' h').ready)
  refine wp_bind.2 (wp_mono (halive g h) fun b g₁ h₁ => ?_)
  cases b with
  | false => exact .inl (hunrefused g₁ h₁)
  | true =>
    have hsession : wp (run_monitor cfg stale) (run_websocket cfg s.cur)
        (fun r g' => EverConnected g' ∨ r = .HandshakeFailed ∧ Refused initial g') g₁ := by
      rcases h₁ with h₁ | h₁
      · exact run_first_session hws h₁
      · exact wp_mono (run_later_session s.cur g₁ h₁) fun _ _ h => .inl h
    refine wp_bind.2 (wp_mono hsession fun r g₂ h₂ => ?_)
    have hreconnect : ∀ s' g', EverConnected g' → wp (run_monitor cfg stale) (reconnect cfg s') (fun x g' =>
        Sum.elim (fun _ => Fresh stale initial g' ∨ EverConnected g')
          (fun b => Unrefused g' ∨ b = false ∧ Refused initial g') x) g' := by
      intro s' g' hg'
      have hkeeps : Keeps (run_monitor cfg stale) EverConnected (reconnect cfg s') :=
        keeps_reconnect (run_calm open_ever_connected.ready) (run_fetch_once open_ever_connected) s'
      refine wp_mono (hkeeps g' hg') fun x k hk => ?_
      cases x with
      | inl _ => exact .inr hk
      | inr _ => exact .inl hk.toUnrefused
    rcases h₂ with h₂ | ⟨rfl, h₂⟩
    · cases r with
      | LiveEnded => exact .inl h₂.toUnrefused
      | Stopped => exact .inl h₂.toUnrefused
      | Dropped => exact hreconnect _ g₂ h₂
      | HandshakeFailed =>
        refine wp_perform_bind.2 ⟨⟨trivial, fun _ => h₂.ever.trans h₂.fresh_ever.symm⟩, ?_⟩
        rintro ever _ ⟨⟨rfl, -⟩, rfl⟩
        rw [h₂.ever, if_neg (by simp), if_pos rfl]
        by_cases hsix : s.consecutive_handshake_fails + 1 ≥ kMaxHandshakeFails
        · rw [if_pos hsix]
          exact .inl h₂.toUnrefused
        · rw [if_neg hsix]
          exact hreconnect _ g₂ h₂
    · refine wp_perform_bind.2 ⟨⟨trivial, fun _ => h₂.ever.trans h₂.fresh_ever.symm⟩, ?_⟩
      rintro ever _ ⟨⟨rfl, -⟩, rfl⟩
      rw [h₂.ever]
      exact .inr ⟨rfl, h₂⟩

/-- The sessions of dual mode. -/
theorem run_dual_path (hdual : cfg.ws_only = false) :
    Keeps (run_monitor cfg stale) Unrefused (run_websocket_with_reconnect cfg initial false) := by
  have hmark : ∀ r g, Unrefused g →
      wp (run_monitor cfg stale) (mark (.session r)) (fun _ g' => Unrefused g') g := by
    refine fun r g hg => ⟨⟨hg.refused, trivial⟩, fun _ g' hn => ?_⟩
    obtain rfl := hn.2
    cases r with
    | HandshakeFailed =>
      have hsame : (cfg.ws_only && !g.log.connected) = false := by rw [hdual]; rfl
      exact ⟨hg.ready, hsame⟩
    | _ => exact hg
  have hsession : ∀ cur, Keeps (run_monitor cfg stale) Unrefused (run_websocket cfg cur) := fun cur g hg =>
    wp_run_websocket (fun _ h => h) open_connected (fun _ h => h.connected) (fun _ h => ⟨⟨h.ready, h.refused⟩, rfl⟩)
      (hmark .HandshakeFailed) (fun r g' h => hmark r g' h.toUnrefused) hg
  have hever : Keeps (run_monitor cfg stale) Unrefused (call .ws_ever_connected) := fun g hg =>
    ⟨⟨trivial, fun h => absurd (hdual.symm.trans h) (by decide)⟩, fun _ g' hn => by rw [hn.2]; exact hg⟩
  exact keeps_sessions (run_calm open_unrefused.ready) (run_fetch_once open_unrefused) hsession hever initial false

/-! ### A run -/

theorem run_transport {g : RunState} (h : Fresh stale initial g) :
    wp (run_monitor cfg stale) (transport cfg initial) (fun _ g' => Unrefused g') g := by
  have hcalm : ∀ a : Act, a.calm → Keeps (run_monitor cfg stale) Unrefused (call a) := run_calm open_unrefused.ready
  unfold transport
  by_cases hdual : (cfg.options.use_websocket && cfg.options.use_polling) = true
  · have hno : cfg.ws_only = false := by
      rw [Bool.and_eq_true] at hdual
      simp [Config.ws_only, hdual]
    rw [if_pos hdual]
    exact ((run_silent rfl).bind fun _ => (run_dual_path hno).bind fun _ =>
      (hcalm (.store .stop_requested true) rfl).bind fun _ => run_silent rfl) g h.toUnrefused
  · rw [if_neg hdual]
    by_cases hws : cfg.options.use_websocket = true
    · have honly : cfg.ws_only = true := by
        rw [hws, Bool.true_and, Bool.not_eq_true] at hdual
        simp [Config.ws_only, hws, hdual]
      rw [if_pos hws]
      refine wp_bind.2 (wp_mono (run_ws_path honly h) fun handled g₁ h₁ => ?_)
      rcases h₁ with h₁ | ⟨rfl, h₁⟩
      · exact Keeps.ite (keeps_pure _) (run_poll_loop open_unrefused initial) g₁ h₁
      · refine wp_begun_poll_loop hcalm (run_dispatch_message open_unrefused.unrefused) (run_fetch_once open_unrefused)
          (run_mark open_unrefused) ⟨⟨fun _ => h₁.batch.symm, trivial⟩, ?_⟩
        rintro - _ ⟨-, rfl⟩
        exact ⟨h₁.ready, rfl⟩
    · rw [if_neg hws]
      exact run_poll_loop open_unrefused initial g h.toUnrefused

theorem run_stream_events {g : RunState} (h : Loaded stale g) (hbatch : g.log.batch = initial) :
    wp (run_monitor cfg stale) (stream_events cfg initial) (fun _ _ => True) g := by
  have hroom : Keeps (run_monitor cfg stale) (· = g) (call .room_id) :=
    run_calm (by rintro _ rfl; exact h.ready) _ rfl
  refine wp_bind_keeps hroom fun room_id => ?_
  refine wp_perform_bind.2 ⟨⟨trivial, h.own.trans h.fresh_own.symm⟩, fun stream g₁ hn => ?_⟩
  obtain ⟨⟨hstream, -⟩, rfl⟩ := hn
  have hfresh : Fresh stale initial g := ⟨h.toUnconnected, hbatch⟩
  have hconnect : wp (run_monitor cfg stale) (emit cfg (connect_event cfg room_id stream))
      (fun _ g' => Fresh stale initial g') g := by
    refine wp_perform_bind.2 ⟨⟨⟨h.refused, fun _ => hstream.trans h.own⟩, trivial⟩, fun _ g' hn => ?_⟩
    rw [hn.2]
    exact Keeps.forM (fun _ _ => run_invoke (fun _ hg => hg.ready) _) g hfresh
  have hlast : ∀ g', Fresh stale initial g' → wp (run_monitor cfg stale) (do
      transport cfg initial
      store .running false
      emit cfg disconnect_event) (fun _ _ => True) g' := by
    intro g' h'
    refine wp_bind.2 (wp_mono (run_transport h') fun _ g₁ h₁ => wp_bind.2 ?_)
    refine wp_mono (run_calm open_unrefused.ready (.store .running false) rfl g₁ h₁) fun _ g₂ h₂ => ?_
    have hdisconnect : disconnect_event.type ≠ .Connect := by decide
    exact wp_mono (run_emit open_unrefused.unrefused hdisconnect g₂ h₂) fun _ _ _ => trivial
  have hprocess : Keeps (run_monitor cfg stale) (Fresh stale initial) (process_fetch_result cfg initial) :=
    keeps_process_fetch_result (run_dispatch_message fun _ hg => hg.toUnrefused) initial
  refine wp_bind.2 (wp_mono hconnect fun _ g₁ h₁ => ?_)
  by_cases hconnect_events : cfg.options.process_connect_events = true
  · rw [if_pos hconnect_events]
    exact wp_bind.2 (wp_mono (hprocess g₁ h₁) fun _ g₂ h₂ => hlast g₂ h₂)
  · rw [if_neg hconnect_events]
    exact hlast g₁ h₁

theorem run_run (hoff : cfg.options.fetch_stream_info = false → stale.stream_info = {}) :
    wp (run_monitor cfg stale) (run cfg) (fun _ _ => True) { members := stale } := by
  refine wp_perform_bind.2 ⟨⟨trivial, trivial⟩, ?_⟩
  rintro - _ ⟨-, rfl⟩
  refine wp_perform_bind.2 ⟨⟨trivial, trivial⟩, ?_⟩
  rintro - _ ⟨-, rfl⟩
  refine wp_perform_bind.2 ⟨⟨trivial, trivial⟩, ?_⟩
  rintro - _ ⟨-, rfl⟩
  refine wp_bind.2 (wp_mono (wp_set_up hoff ⟨rfl, rfl, rfl, rfl, rfl⟩ fun f => ?_) fun x g₁ h₁ => ?_)
  · cases f <;> rfl
  cases x with
  | error e => trivial
  | ok _ =>
    refine wp_bind.2 (wp_mono (wp_first_fetch h₁) fun x g₂ h₂ => ?_)
    cases x with
    | error e => trivial
    | ok initial => exact wp_bind.2 (wp_mono (run_stream_events h₂.1 h₂.2) fun _ _ _ => trivial)

/-! ### Without the room info -/

def Act.unloaded : Act → Bool
  | .set_stream_info _ => false
  | _ => true

theorem does_unloaded {a : Act} (h : a.unloaded) : Does (·.unloaded) (call a) := does_perform h

theorem does_unloaded_net (op : NetOp) : Does (·.unloaded) (net op) :=
  (does_unloaded rfl).bind fun _ => does_unloaded rfl

theorem does_unloaded_wired (a : Act) (h : a.wired) : Does (·.unloaded) (call a) :=
  does_unloaded (by cases a <;> first | rfl | cases h)

theorem does_unloaded_sink (kind data : Bytes) : Does (·.unloaded) (sink cfg kind data) :=
  .ite (keeps_invoke (still_of_calm (calm_of_wired does_unloaded_wired)) (fun _ _ _ _ => does_unloaded_net _) _ (does_unloaded rfl)
    (does_unloaded rfl)) (keeps_pure _)

/-- The member is not set when the room info is not wanted. -/
theorem does_run_unloaded (hoff : cfg.options.fetch_stream_info = false) : Does (·.unloaded) (run cfg) := by
  have hcalm := calm_of_wired (I := fun _ => True) does_unloaded_wired
  have hemit : ∀ ev, Does (·.unloaded) (emit cfg ev) := fun ev => keeps_emit (does_unloaded rfl) fun _ =>
    keeps_invoke (still_of_calm hcalm) (fun _ _ _ _ => does_unloaded_net _) _ (does_unloaded rfl) (does_unloaded rfl)
  have hdispatch := keeps_dispatch_message (fun _ => does_unloaded rfl) (does_unloaded rfl) (does_unloaded rfl)
    (fun _ => does_unloaded rfl) (fun _ => does_unloaded_sink _ _) (fun _ => hemit _) (does_unloaded rfl)
  have hfetch : ∀ cursor internal_ext, Does (·.unloaded) (fetch_once cfg cursor internal_ext) := fun _ _ =>
    keeps_fetch_once (fun _ _ => does_unloaded rfl) (does_unloaded rfl) (does_unloaded rfl)
      (keeps_fetch_request_of (still_of_calm hcalm) does_unloaded_net does_unloaded_sink)
  have hpump : Does (·.unloaded) (pump_session cfg) := fun g hg =>
    wp_pump_session does_unloaded_wired hdispatch (does_unloaded rfl) (fun _ => does_unloaded_sink _ _)
      (does_unloaded rfl g hg)
  have hopen : ∀ initial, Does (·.unloaded) (open_session initial).run := fun _ =>
    keeps_open_session (does_unloaded rfl) (does_unloaded rfl) (keeps_session_url_of (still_of_calm hcalm) does_unloaded_net)
      fun _ _ _ => does_unloaded rfl
  have hpath := fun initial fallback => keeps_sessions hcalm hfetch (keeps_run_websocket_of (fun _ _ => does_unloaded rfl)
    hopen hpump) (does_unloaded rfl) initial fallback
  have hpoll := keeps_poll_loop hcalm hdispatch hfetch fun _ _ => does_unloaded rfl
  have hload : Does (·.unloaded) (load_stream_info cfg).run := by
    unfold load_stream_info
    rw [if_neg (Bool.eq_false_iff.1 hoff)]
    exact keeps_pure _
  exact keeps_run (fun _ _ => does_unloaded rfl)
    (keeps_set_up_of (still_of_calm hcalm) (fun _ _ _ _ => does_unloaded_net _) (fun _ => does_unloaded rfl) hload) (hfetch _ _)
    (keeps_stream_events (still_of_calm hcalm) (does_unloaded rfl) hdispatch
      (keeps_transport (still_of_calm hcalm) hpath hpoll (fun _ => does_unloaded rfl) (does_unloaded rfl)) (fun _ _ => hemit _) (hemit _))

theorem World.sem_stream_info {t : Tid} {w w' : World} {a : Act} {r : Resp a} (h : World.sem t w a r w')
    (ha : a.unloaded) : w'.stream_info = w.stream_info := by
  cases a with
  | lock m => rw [(sem_lock h).2]
  | unlock m => rw [(sem_unlock h).2]
  | spawned => rw [(sem_spawned h).2]
  | join => rw [(sem_join h).2]
  | set_stream_info info => cases ha
  | _ => obtain ⟨env, h⟩ := h; cases h; rfl

/-- Then no run has left anything in it. -/
theorem Lifetime.stream_info_empty {tr : List (Tid × Ev Resp)} {c : Conf Tid World Act Resp (Except Exn Unit)}
    (hoff : cfg.options.fetch_stream_info = false) (h : Lifetime cfg calls tr c) : c.world.stream_info = {} := by
  have hmain := does_run_unloaded hoff
  have hpoller : Does (·.unloaded) (poller cfg) :=
    does_poller.keeps fun a ha => does_perform (by cases a <;> first | rfl | cases ha)
  have happ : ∀ n, Does (·.unloaded) (application cfg (calls n)) := fun n =>
    (does_application (calls n)).keeps fun a ha => does_perform (by cases a <;> first | rfl | cases ha)
  obtain ⟨-, hI, -⟩ := h.invariant (I := fun _ w _ => w.stream_info = {})
    (M := fun _ => ⟨fun (_ : Unit) a => a.unloaded, fun _ _ _ _ => True⟩) (Q := fun _ _ _ => True) (s := fun _ => ())
    (fun tr w g t a r w' hI hok hs => ⟨(), trivial, (World.sem_stream_info hs hok).trans hI⟩) (fun _ _ _ hI => hI)
    (fun _ _ _ => wp_mono (hmain () trivial) fun _ _ _ => trivial)
    (fun _ => wp_mono (hpoller () trivial) fun _ _ _ => trivial) rfl fun t => by
      cases t with
      | main => exact wp_mono (hmain () trivial) fun _ _ _ => trivial
      | poller => exact wp_mono (hpoller () trivial) fun _ _ _ => trivial
      | app n => exact wp_mono (happ n () trivial) fun _ _ _ => trivial
  exact hI

end TtLive
