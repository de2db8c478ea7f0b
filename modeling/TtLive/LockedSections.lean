import TtLive.Invariance
import TtLive.World

/-!
# What a thread does under which mutex

Each network operation and each call of the debug sink is made by the source either always under one mutex
or without one (`NetOp.mutex`, `Callee.mutex`). `SectionState` is what a thread holds and what it is in;
`SectionState.Allows` says that it enters only what it may and gives a mutex back only when nothing that
needs it is open. Every thread keeps to that, whoever else runs, so every reachable world is `Protected`.
-/

namespace TtLive
open Prog Threads

/-- The mutex under which the source makes a request. The set-up of `run` and `fetch_gift_list` take none. -/
def NetOp.mutex : NetOp → Option Mutex
  | .get page _ _ => if page = .im_fetch then some .net_mu_ else none
  | .cookie_header | .set_cookies _ | .sign _ => some .net_mu_

/-- The mutex under which the source passes data of a kind to the debug sink. -/
def sink_mutex (kind : Bytes) : Option Mutex :=
  if kind = lit "im_fetch" then some .net_mu_
  else if lit "msg:" <+: kind then some .dispatch_mu_
  else none

theorem sink_mutex_msg (method : Bytes) : sink_mutex (lit "msg:" ++ method) = some .dispatch_mu_ := by
  have hne : lit "msg:" ++ method ≠ lit "im_fetch" := fun h => by
    have hhead : some 0x6d = (lit "im_fetch").head? := congrArg List.head? h
    cases hhead
  rw [sink_mutex, if_neg hne, if_pos (List.prefix_append _ _)]

/-- Event callbacks need no mutex for what follows. -/
def Callee.mutex : Callee → Option Mutex
  | .callback _ _ => none
  | .raw_sink kind _ => sink_mutex kind

structure SectionState where
  held : Mutex → Bool := fun _ => false
  op : Option NetOp := none
  user : List Callee := []

namespace SectionState

def next (g : SectionState) : Act → SectionState
  | .lock m => { g with held := Function.update g.held m true }
  | .unlock m => { g with held := Function.update g.held m false }
  | .net_begin op => { g with op := some op }
  | .net_end _ => { g with op := none }
  | .call_begin c => { g with user := c :: g.user }
  | .call_end _ => { g with user := g.user.tail }
  | _ => g

/-- What the thread is in needs the mutex `m`. -/
def Needs (g : SectionState) (m : Mutex) : Prop :=
  (∃ op, g.op = some op ∧ op.mutex = some m) ∨ ∃ c ∈ g.user, c.mutex = some m

def Allows (g : SectionState) : Act → Prop
  | .unlock m => ¬ g.Needs m
  | .net_begin op => ∀ m, op.mutex = some m → g.held m = true
  | .call_begin c => g.user = [] ∧ ∀ m, c.mutex = some m → g.held m = true
  | _ => True

end SectionState

/-- The actions this is about. -/
def Act.sections : Act → Bool
  | .lock _ | .unlock _ | .net_begin _ | .net_end _ | .call_begin _ | .call_end _ => true
  | _ => false

abbrev section_monitor : Monitor Act Resp SectionState := .det SectionState.Allows fun g a _ => g.next a

/-! ### The code of the client -/

theorem section_silent (a : Act) (h : a.sections = false) (g : SectionState) :
    g.Allows a ∧ g.next a = g := by
  cases a <;> first | exact ⟨trivial, rfl⟩ | cases h

variable {cfg : Config} {s : SectionState} {I : SectionState → Prop}

theorem section_keeps {a : Act} (h : a.sections = false) : Keeps section_monitor I (call a) := fun g hg =>
  ⟨(section_silent a h g).1, fun _ _ hn => hn.trans (section_silent a h g).2 ▸ hg⟩

theorem section_plain (a : Act) (h : a.plain) : Keeps section_monitor I (call a) :=
  section_keeps (by cases a <;> first | rfl | cases h)

/-- A thread that is in nothing and holds `m`. -/
def holding (m : Mutex) : SectionState := { held := Function.update (fun _ => false) m true }

theorem not_needs_holding (m m' : Mutex) : ¬ (holding m).Needs m' := by
  rintro (⟨op, hop, -⟩ | ⟨c, hc, -⟩)
  · cases hop
  · cases hc

theorem section_lock (m : Mutex) : ∀ g, g = ({} : SectionState) →
    wp section_monitor (call (.lock m)) (fun _ g' => g' = holding m) g := by
  rintro _ rfl
  exact ⟨trivial, fun _ _ h => h⟩

theorem section_unlock (m : Mutex) : ∀ g, g = holding m →
    wp section_monitor (call (.unlock m)) (fun _ g' => g' = {}) g := by
  rintro _ rfl
  refine ⟨not_needs_holding m m, ?_⟩
  rintro - _ rfl
  simp [SectionState.next, holding]

theorem section_net (hs : s.op = none) {op : NetOp} (h : ∀ m, op.mutex = some m → s.held m = true) :
    Keeps section_monitor (· = s) (net op) := by
  rintro g rfl
  refine wp_perform_bind.2 ⟨h, ?_⟩
  rintro - _ rfl
  refine ⟨trivial, ?_⟩
  rintro - _ rfl
  exact congrArg (fun o => { g with op := o }) hs.symm

/-- A request of the set-up or of `fetch_gift_list`. -/
theorem section_request (hs : s.op = none) {page : Page} (hp : page ≠ .im_fetch) (url : Bytes) (h : ParamList) :
    Keeps section_monitor (· = s) (net (.get page url h)) := by
  refine section_net hs fun m hm => ?_
  rw [NetOp.mutex, if_neg hp] at hm
  cases hm

theorem section_get (hs : s.op = none) (page : Page) (url : Bytes) (h : ParamList) (hp : page.plain) :
    Keeps section_monitor (· = s) (net (.get page url h)) :=
  section_request hs (by rintro rfl; cases hp) url h

theorem section_invoke (hs : s.op = none) (hu : s.user = []) {c : Callee}
    (h : ∀ m, c.mutex = some m → s.held m = true) : Keeps section_monitor (· = s) (invoke (api cfg) c) := by
  rintro _ rfl
  refine wp_perform_bind.2 ⟨⟨hu, h⟩, ?_⟩
  rintro calls _ rfl
  refine wp_bind.2 (wp_mono (Keeps.forM (fun c _ => keeps_api (still_of section_plain) (section_get ?_) c) _ rfl) ?_)
  · exact hs
  rintro - _ rfl
  refine ⟨trivial, ?_⟩
  rintro - _ rfl
  rfl

theorem section_sink (hs : s.op = none) (hu : s.user = []) {kind data : Bytes}
    (h : ∀ m, sink_mutex kind = some m → s.held m = true) : Keeps section_monitor (· = s) (sink cfg kind data) :=
  .ite (section_invoke hs hu h) (keeps_pure _)

theorem section_emit (hs : s.op = none) (hu : s.user = []) (ev : Event) :
    Keeps section_monitor (· = s) (emit cfg ev) :=
  keeps_emit (section_keeps rfl) fun _ => section_invoke hs hu nofun

theorem section_dispatch_message (msg : BaseProtoMessage) :
    Keeps section_monitor (· = {}) (dispatch_message cfg msg) := by
  refine keeps_dispatch_message (fun _ => section_keeps rfl) (section_lock _) (section_unlock _)
    (fun _ => section_keeps rfl) (fun msg => section_sink rfl rfl fun m hm => ?_) (fun _ => section_emit rfl rfl _)
    (section_keeps rfl) msg
  rw [sink_mutex_msg] at hm
  cases hm
  rfl

/-- The requests made under `net_mu_`. -/
theorem section_net_mu {op : NetOp} (h : op.mutex = some .net_mu_) :
    Keeps section_monitor (· = holding .net_mu_) (net op) :=
  section_net rfl fun m hm => by
    cases h.symm.trans hm
    rfl

theorem section_fetch_once (cursor internal_ext : Bytes) :
    Keeps section_monitor (· = {}) (fetch_once cfg cursor internal_ext) := by
  refine keeps_fetch_once (fun _ _ => section_keeps rfl) (section_lock _) (section_unlock _)
    (keeps_fetch_request (still_of section_plain) (section_net_mu rfl) (fun _ => section_net_mu rfl)
      (fun _ => section_net_mu rfl) (fun _ _ => section_net_mu rfl) fun _ => section_sink rfl rfl fun m hm => ?_)
  cases hm
  rfl

theorem section_open_session (initial : ProtoMessageFetchResult) :
    Keeps section_monitor (· = {}) (open_session initial).run :=
  keeps_open_session (section_lock _) (section_unlock _)
    (keeps_session_url (still_of section_plain) (section_net_mu rfl) (fun _ => section_net_mu rfl)
      fun _ _ => section_net_mu rfl)
    fun _ _ _ => section_keeps rfl

theorem section_ws_path (initial : ProtoMessageFetchResult) (allow_fallback : Bool) :
    Keeps section_monitor (· = {}) (run_websocket_with_reconnect cfg initial allow_fallback) :=
  keeps_run_websocket_with_reconnect section_plain section_dispatch_message (section_keeps rfl)
    (fun _ => section_sink rfl rfl nofun) (fun _ _ => section_keeps rfl) section_open_session section_fetch_once
    initial allow_fallback

theorem section_poll_loop (initial : ProtoMessageFetchResult) :
    Keeps section_monitor (· = {}) (poll_loop cfg initial) :=
  keeps_poll_loop (calm_of section_plain) section_dispatch_message section_fetch_once (fun _ _ => section_keeps rfl)
    initial

theorem section_run : Keeps section_monitor (· = {}) (run cfg) :=
  keeps_run (fun _ _ => section_keeps rfl)
    (keeps_set_up (still_of section_plain) (section_get rfl) (section_request rfl nofun) (fun _ => section_keeps rfl)
      fun _ => section_keeps rfl) (section_fetch_once _ _)
    (keeps_stream_events (still_of section_plain) (section_plain _ rfl) section_dispatch_message
      (keeps_transport (still_of section_plain) section_ws_path section_poll_loop (fun _ => section_keeps rfl)
        (section_keeps rfl))
      (fun _ _ => section_emit rfl rfl _) (section_emit rfl rfl _))

theorem section_threads (calls : Nat → List ApiCall) (t : Tid) :
    Keeps section_monitor (· = {}) (threads cfg calls t) := by
  cases t with
  | main => exact section_run
  | poller => exact keeps_poller section_poll_loop (section_keeps rfl) (section_keeps rfl)
  | app n => exact keeps_application (still_of section_plain) (section_get rfl) (calls n)

end TtLive
