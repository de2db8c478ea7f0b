import TtLive.Exclusion

/-!
# What two threads touch at once

`Act.access` says which member of the client an action touches. `run` and the poll thread race when the next action of
one writes a member that the next action of the other touches. `race_free`: that happens only where one of the two is in
user code, whose calls of `disconnect` and `fetch_gift_list` take no mutex.
-/

namespace TtLive
open Prog Threads

/-- The members of a client that are not atomic. `http` is the signer as well, `ws` the handle and the buffer of the
socket, `seen_ids_` with `seen_order_`. -/
inductive SharedMember
  | http
  | ws
  | room_id
  | stream_info
  | gift_list
  | ws_ever_connected
  | hb_seq
  | seen_ids_

/-- The member that an action touches, and whether it writes it. -/
def Act.access : Act → Option (SharedMember × Bool)
  | .net_begin _ | .net_end _ => some (.http, true)
  | .connect _ _ _ | .send_binary _ | .recv_binary | .close => some (.ws, true)
  | .set_room_id _ => some (.room_id, true)
  | .room_id => some (.room_id, false)
  | .set_stream_info _ => some (.stream_info, true)
  | .stream_info => some (.stream_info, false)
  | .set_gift_list _ => some (.gift_list, true)
  | .set_ws_ever_connected => some (.ws_ever_connected, true)
  | .ws_ever_connected => some (.ws_ever_connected, false)
  | .next_hb_seq => some (.hb_seq, true)
  | .mark_seen _ => some (.seen_ids_, true)
  | _ => none

/-- Both touch one member, and one of them writes it. -/
def Act.Conflicts (a b : Act) : Prop :=
  ∃ m x y, a.access = some (m, x) ∧ b.access = some (m, y) ∧ (x = true ∨ y = true)

theorem Act.Conflicts.symm {a b : Act} (h : a.Conflicts b) : b.Conflicts a := by
  obtain ⟨m, x, y, ha, hb, hwrites⟩ := h
  exact ⟨m, y, x, hb, ha, hwrites.symm⟩

structure AccessState where
  sections : SectionState := {}
  /-- There is a poll thread: `run` has created it, or the thread is it and has begun. -/
  shared : Bool := false

namespace AccessState

def shares : Act → Bool
  | .spawn _ | .spawned => true
  | _ => false

def next (g : AccessState) (a : Act) : AccessState where
  sections := g.sections.next a
  shared := shares a || g.shared

/-- What `run` may touch. -/
def Main (g : AccessState) : SharedMember × Bool → Prop
  | (.http, _) => g.shared = true → g.sections.held .net_mu_ = true
  | (.room_id, writes) => writes = true → g.shared = false
  | (.seen_ids_, _) => g.sections.held .dispatch_mu_ = true
  | _ => True

/-- What the poll thread may touch. -/
def Poller (g : AccessState) : SharedMember × Bool → Prop
  | (.http, _) => g.sections.held .net_mu_ = true
  | (.room_id, writes) => writes = false
  | (.seen_ids_, _) => g.sections.held .dispatch_mu_ = true
  | _ => False

def MayTouch (t : Tid) (g : AccessState) (x : SharedMember × Bool) : Prop :=
  match t with
  | .main => g.Main x
  | .poller => g.shared = true ∧ g.Poller x
  | .app _ => True

def Allows (t : Tid) (g : AccessState) (a : Act) : Prop :=
  (g.sections.user = [] → ∀ x, a.access = some x → g.MayTouch t x) ∧ ∀ initial, a = .spawn initial → t = .main

end AccessState

abbrev access_monitor (t : Tid) : Monitor Act Resp AccessState := .det (AccessState.Allows t) fun g a _ => g.next a

/-- The actions that change what is watched. -/
def Act.watched (a : Act) : Bool := a.sections || AccessState.shares a

/-! ### The code of the client -/

section
variable {cfg : Config} {t : Tid} {s : SectionState} {b : Bool}

theorem access_next {g : AccessState} {a : Act} (h : a.watched = false) : g.next a = g := by
  obtain ⟨hsections, hshares⟩ := Bool.or_eq_false_iff.1 h
  obtain ⟨-, hnext⟩ := section_silent a hsections g.sections
  rw [AccessState.next, hnext, hshares, Bool.false_or]

theorem access_keeps {a : Act} (h : a.watched = false)
    (hok : s.user = [] → ∀ x, a.access = some x → AccessState.MayTouch t ⟨s, b⟩ x) :
    Keeps (access_monitor t) (· = ⟨s, b⟩) (call a) := by
  rintro _ rfl
  refine ⟨⟨hok, ?_⟩, fun _ g' hn => hn.trans (access_next h)⟩
  rintro initial rfl
  cases h

theorem access_silent {a : Act} (h : a.watched = false) (hnone : a.access = none) :
    Keeps (access_monitor t) (· = ⟨s, b⟩) (call a) :=
  access_keeps h fun _ x hx => by rw [hnone] at hx; cases hx

theorem access_load (f : Flag) : Keeps (access_monitor t) (· = ⟨s, b⟩) (load f) := access_silent rfl rfl

theorem access_net (hs : s.op = none) {op : NetOp} (h : s.user = [] → AccessState.MayTouch t ⟨s, b⟩ (.http, true)) :
    Keeps (access_monitor t) (· = ⟨s, b⟩) (net op) := by
  have hhttp : s.user = [] → ∀ x, some (SharedMember.http, true) = some x → AccessState.MayTouch t ⟨s, b⟩ x := by
    rintro hu _ ⟨⟩
    exact h hu
  rintro _ rfl
  refine wp_perform_bind.2 ⟨⟨hhttp, nofun⟩, ?_⟩
  rintro - _ rfl
  refine ⟨⟨hhttp, nofun⟩, ?_⟩
  rintro - _ rfl
  exact congrArg (fun o => (⟨{ s with op := o }, b⟩ : AccessState)) hs.symm

/-- In user code a thread may touch everything. -/
theorem access_user (hs : s.user ≠ []) (a : Act) (h : a.calm) : Keeps (access_monitor t) (· = ⟨s, b⟩) (call a) :=
  access_keeps (by cases a <;> first | rfl | cases h) fun hu => absurd hu hs

theorem access_invoke (hs : s.op = none) (c : Callee) : Keeps (access_monitor t) (· = ⟨s, b⟩) (invoke (api cfg) c) := by
  have hne : c :: s.user ≠ [] := List.cons_ne_nil _ _
  have hapi : ∀ x, Keeps (access_monitor t) (· = ⟨{ s with user := c :: s.user }, b⟩) (api cfg x) :=
    keeps_api (still_of_calm (access_user hne)) fun _ _ _ _ => access_net (s := { s with user := c :: s.user }) hs fun h => absurd h hne
  rintro _ rfl
  refine wp_perform_bind.2 ⟨⟨fun _ _ => nofun, nofun⟩, ?_⟩
  rintro calls _ rfl
  refine wp_bind.2 (wp_mono (Keeps.forM (fun x _ => hapi x) _ rfl) ?_)
  rintro - _ rfl
  refine ⟨⟨fun _ _ => nofun, nofun⟩, ?_⟩
  rintro - _ rfl
  rfl

theorem access_sink (hs : s.op = none) (kind data : Bytes) :
    Keeps (access_monitor t) (· = ⟨s, b⟩) (sink cfg kind data) :=
  .ite (access_invoke hs _) (keeps_pure _)

theorem access_emit (hs : s.op = none) (ev : Event) : Keeps (access_monitor t) (· = ⟨s, b⟩) (emit cfg ev) :=
  keeps_emit (access_silent rfl rfl) fun _ => access_invoke hs _

theorem access_lock (m : Mutex) (g : AccessState) (hg : g = ⟨{}, b⟩) :
    wp (access_monitor t) (call (.lock m)) (fun _ g' => g' = ⟨holding m, b⟩) g := by
  subst hg
  exact ⟨⟨fun _ _ => nofun, nofun⟩, fun _ _ h => h⟩

theorem access_unlock (m : Mutex) (g : AccessState) (hg : g = ⟨holding m, b⟩) :
    wp (access_monitor t) (call (.unlock m)) (fun _ g' => g' = ⟨{}, b⟩) g := by
  subst hg
  refine ⟨⟨fun _ _ => nofun, nofun⟩, ?_⟩
  rintro - _ rfl
  simp [AccessState.next, AccessState.shares, SectionState.next, holding]

theorem access_alive : Keeps (access_monitor t) (· = ⟨s, b⟩) alive := by
  refine (access_load _).bind fun running => .ite ?_ (keeps_pure _)
  refine (access_load _).bind fun stop => .ite (keeps_pure _) ?_
  exact (access_load _).bind fun _ => keeps_pure _

theorem access_poll_sleep (interval_ms : Int) : Keeps (access_monitor t) (· = ⟨s, b⟩) (poll_sleep interval_ms) := by
  refine .iterate fun slept => .ite (access_alive.bind fun b => .ite ?_ (keeps_pure _)) (keeps_pure _)
  exact (access_silent rfl rfl).bind fun _ => keeps_pure _

section
variable (hbegun : t = .poller → b = true)
include hbegun

theorem may_fetch : AccessState.MayTouch t ⟨holding .net_mu_, b⟩ (.http, true) := by
  cases t with
  | main => exact fun _ => rfl
  | poller => exact ⟨hbegun rfl, rfl⟩
  | app n => trivial

theorem may_mark_seen : AccessState.MayTouch t ⟨holding .dispatch_mu_, b⟩ (.seen_ids_, true) := by
  cases t with
  | main => exact (rfl : (holding .dispatch_mu_).held .dispatch_mu_ = true)
  | poller => exact ⟨hbegun rfl, rfl⟩
  | app n => trivial

theorem access_room_id : Keeps (access_monitor t) (· = ⟨s, b⟩) (call .room_id) := by
  refine access_keeps rfl ?_
  rintro - _ ⟨⟩
  cases t with
  | main => exact nofun
  | poller => exact ⟨hbegun rfl, rfl⟩
  | app n => trivial

theorem access_dispatch_message (msg : BaseProtoMessage) :
    Keeps (access_monitor t) (· = ⟨{}, b⟩) (dispatch_message cfg msg) := by
  refine keeps_dispatch_message (fun _ => access_silent rfl rfl) (access_lock _) (access_unlock _)
    (fun _ => access_keeps rfl ?_) (fun _ => access_sink rfl _ _) (fun _ => access_emit rfl _)
    (access_silent rfl rfl) msg
  rintro - _ ⟨⟩
  exact may_mark_seen hbegun

/-- A request under `net_mu_`. -/
theorem access_locked_net (op : NetOp) : Keeps (access_monitor t) (· = ⟨holding .net_mu_, b⟩) (net op) :=
  access_net rfl fun _ => may_fetch hbegun

theorem access_fetch_once (cursor internal_ext : Bytes) :
    Keeps (access_monitor t) (· = ⟨{}, b⟩) (fetch_once cfg cursor internal_ext) := by
  refine keeps_fetch_once (fun _ _ => access_silent rfl rfl) (access_lock _) (access_unlock _) ?_
  have hnet := fun op => access_locked_net (b := b) hbegun op
  refine (Keeps.run_lift (access_room_id hbegun)).run_bind fun room_id => ?_
  refine (keeps_sign_with_cookies (hnet _) (fun _ => hnet _) (hnet _)).run_bind fun url => ?_
  exact Keeps.run_bind (hnet _) (keeps_fetch_response fun _ => access_sink rfl _ _)

theorem access_poll_loop (initial : ProtoMessageFetchResult) :
    Keeps (access_monitor t) (· = ⟨{}, b⟩) (poll_loop cfg initial) := by
  refine (access_silent rfl rfl).bind fun _ => .iterate fun poll => access_alive.bind fun b => .ite ?_ (keeps_pure _)
  refine (access_silent rfl rfl).bind fun _ => (access_poll_sleep _).bind fun _ => access_alive.bind fun b => ?_
  refine .ite ((access_fetch_once hbegun _ _).bind fun r => ?_) (keeps_pure _)
  cases r with
  | error e => exact (access_silent rfl rfl).bind fun _ => keeps_pure _
  | ok batch =>
    exact (keeps_process_fetch_result (access_dispatch_message hbegun) batch).bind fun _ =>
      .ite (keeps_pure _) (keeps_pure _)

end

/-! What `run` does in any phase. -/

theorem access_wired (a : Act) (h : a.wired) : Keeps (access_monitor .main) (· = ⟨s, b⟩) (call a) := by
  refine access_keeps (by cases a <;> first | rfl | cases h) fun _ x hx => ?_
  cases a <;> cases hx <;> first | trivial | exact nofun

theorem access_session (initial : ProtoMessageFetchResult) :
    Keeps (access_monitor .main) (· = ⟨{}, b⟩) (run_websocket cfg initial) := by
  have hpump : Keeps (access_monitor .main) (· = ⟨{}, b⟩) (pump_session cfg) := fun g hg =>
    wp_pump_session access_wired (access_dispatch_message nofun) (access_keeps rfl fun _ _ hx => by cases hx; trivial)
      (fun _ => access_sink rfl _ _) (access_keeps rfl (fun _ _ hx => by cases hx; trivial) g hg)
  refine keeps_run_websocket_of (fun _ _ => access_silent rfl rfl) (fun initial => ?_) hpump initial
  have hnet := fun op => access_locked_net (t := .main) (b := b) nofun op
  exact keeps_open_session (access_lock _) (access_unlock _)
    (keeps_session_url_of (still_of_calm (calm_of_wired access_wired)) hnet)
    fun _ _ _ => access_keeps rfl fun _ _ hx => by cases hx; trivial

theorem access_ws_path (initial : ProtoMessageFetchResult) (allow_fallback : Bool) :
    Keeps (access_monitor .main) (· = ⟨{}, b⟩) (run_websocket_with_reconnect cfg initial allow_fallback) :=
  keeps_sessions (calm_of_wired access_wired) (access_fetch_once nofun) access_session
    (access_keeps rfl fun _ _ hx => by cases hx; trivial) initial allow_fallback

theorem access_set_up : Keeps (access_monitor .main) (· = ⟨{}, false⟩) (set_up cfg).run :=
  keeps_set_up (still_of_calm (calm_of_wired access_wired)) (fun _ _ _ _ => access_net rfl fun _ => nofun)
    (fun _ _ => access_net rfl fun _ => nofun) (fun _ => access_keeps rfl fun _ _ hx => by cases hx; exact fun _ => rfl)
    fun _ => access_keeps rfl fun _ _ hx => by cases hx; trivial

/-- Nothing is held, in whichever phase. -/
def Settled (g : AccessState) : Prop := ∃ b, g = ⟨{}, b⟩

theorem settled {α : Type} {p : Code α} (h : ∀ b, Keeps (access_monitor t) (· = ⟨{}, b⟩) p) :
    Keeps (access_monitor t) Settled p := by
  rintro g ⟨b, hg⟩
  exact wp_mono (h b g hg) fun _ _ hg' => ⟨b, hg'⟩

theorem access_transport (initial : ProtoMessageFetchResult) :
    Keeps (access_monitor .main) Settled (transport cfg initial) := by
  have hpoll : Keeps (access_monitor .main) Settled (poll_loop cfg initial) :=
    settled fun _ => access_poll_loop (t := .main) nofun initial
  refine .ite ?_ (.ite ((settled fun b => access_ws_path initial true).bind fun _ => .ite (keeps_pure _) hpoll) hpoll)
  rintro _ ⟨b, rfl⟩
  refine wp_perform_bind.2 ⟨⟨fun _ _ => nofun, fun _ _ => rfl⟩, ?_⟩
  rintro - _ rfl
  refine wp_mono (Q := fun _ g => g = ⟨{}, true⟩) (((access_ws_path initial false).bind fun _ => ?_) _ rfl)
    fun _ _ hg => ⟨true, hg⟩
  exact (access_silent rfl rfl).bind fun _ => access_silent rfl rfl

theorem access_stream_events (initial : ProtoMessageFetchResult) :
    Keeps (access_monitor .main) Settled (stream_events cfg initial) :=
  keeps_stream_events (fun a h => settled fun _ => still_of_calm (calm_of_wired access_wired) a h)
    (settled fun _ => access_keeps rfl fun _ _ hx => by cases hx; trivial)
    (fun msg => settled fun _ => access_dispatch_message (t := .main) nofun msg) access_transport
    (fun _ _ => settled fun _ => access_emit rfl _) (settled fun _ => access_emit rfl _) initial

theorem access_run : wp (access_monitor .main) (run cfg) (fun _ _ => True) {} := by
  refine wp_bind_keeps (access_silent rfl rfl) fun _ => wp_bind_keeps (access_silent rfl rfl) fun _ => ?_
  refine wp_bind_keeps (access_silent rfl rfl) fun _ => wp_bind_keeps access_set_up fun x => ?_
  cases x with
  | error e => trivial
  | ok _ =>
    refine wp_bind_keeps (access_fetch_once (t := .main) nofun _ _) fun x => ?_
    cases x with
    | error e => trivial
    | ok initial => exact wp_bind.2 (wp_mono (access_stream_events initial _ ⟨false, rfl⟩) fun _ _ _ => trivial)

theorem access_poller : wp (access_monitor .poller) (poller cfg) (fun _ _ => True) {} := by
  refine wp_perform_bind.2 ⟨⟨fun _ _ => nofun, nofun⟩, ?_⟩
  rintro initial _ rfl
  have hloop : Keeps (access_monitor .poller) (· = ⟨{}, true⟩) (poll_loop cfg initial) :=
    access_poll_loop (fun _ => rfl) initial
  exact wp_mono ((hloop.bind fun _ => (access_silent rfl rfl).bind fun _ => keeps_pure _) _ rfl) fun _ _ _ => trivial

theorem access_threads (calls : Nat → List ApiCall) (t : Tid) :
    wp (access_monitor t) (threads cfg calls t) (fun _ _ => True) {} := by
  cases t with
  | main => exact access_run
  | poller => exact access_poller
  | app n =>
    have happ : Keeps (access_monitor (.app n)) (· = {}) (application cfg (calls n)) :=
      keeps_application
        (fun a h => access_keeps (t := .app n) (by cases a <;> first | rfl | cases h) fun _ _ _ => trivial)
        (fun _ _ _ _ => access_net (t := .app n) rfl fun _ => trivial) (calls n)
    exact wp_mono (happ _ rfl) fun _ _ _ => trivial

end

/-! ### The world -/

structure AccessInv (w : World) (g : Tid → AccessState) : Prop where
  sections : ∀ t, (g t).sections = w.sections t
  created : w.spawned.isSome → (g .main).shared = true
  begun : (g .poller).shared = true → w.spawned.isSome

namespace AccessInv
variable {w w' : World} {g : Tid → AccessState} {t : Tid} {a : Act} {r : Resp a}

theorem init (hw : w.Idle) : AccessInv w fun _ => {} :=
  ⟨fun t => (hw.sections t).symm, fun h => absurd (hw.spawned ▸ h) nofun, nofun⟩

theorem shared_of_shared {u : Tid} (h : (g u).shared = true) :
    (Function.update g t ((g t).next a) u).shared = true := by
  by_cases hu : u = t
  · subst hu
    rw [Function.update_self]
    exact (congrArg (AccessState.shares a || ·) h).trans (Bool.or_true _)
  · rwa [Function.update_of_ne hu]

theorem step (h : AccessInv w g) (hok : (g t).Allows t a) (hs : World.sem t w a r w') :
    AccessInv w' (Function.update g t ((g t).next a)) where
  sections u := by
    rw [World.sem_sections hs]
    by_cases hu : u = t
    · subst hu
      rw [Function.update_self, if_pos rfl]
      exact congrArg (SectionState.next · a) (h.sections u)
    · rw [Function.update_of_ne hu, if_neg hu]
      exact h.sections u
  created hsome := by
    by_cases ha : ∃ initial, a = .spawn initial
    · obtain ⟨initial, rfl⟩ := ha
      rw [hok.2 initial rfl, Function.update_self]
      rfl
    · rw [World.sem_spawn hs fun initial heq => ha ⟨initial, heq⟩] at hsome
      exact shared_of_shared (h.created hsome)
  begun hshared := by
    cases hshares : AccessState.shares a with
    | true =>
      cases a with
      | spawn initial =>
        obtain ⟨env, hs⟩ := hs
        cases hs
        rfl
      | spawned =>
        obtain ⟨hsome, rfl⟩ := World.sem_spawned hs
        rw [hsome]
        rfl
      | _ => cases hshares
    | false =>
      have hnot : ∀ initial, a ≠ .spawn initial := by
        rintro initial rfl
        cases hshares
      rw [World.sem_spawn hs hnot]
      refine h.begun ?_
      by_cases hu : Tid.poller = t
      · subst hu
        rw [Function.update_self, AccessState.next, hshares] at hshared
        exact hshared
      · rwa [Function.update_of_ne hu] at hshared

end AccessInv

/-! ### Races -/

section
variable {cfg : Config} {calls : Nat → List ApiCall} {w : World} {tr : List (Tid × Ev Resp)}
  {c : Conf Tid World Act Resp (Except Exn Unit)} {t u : Tid}

/-- The next actions of two threads conflict. -/
def Racing (c : Conf Tid World Act Resp (Except Exn Unit)) (t u : Tid) : Prop :=
  ∃ a b k l, c.prog t = .act a k ∧ c.prog u = .act b l ∧ a.Conflicts b

/-- The thread is not the client's, or in user code. -/
def InUserCode (w : World) (t : Tid) : Prop := (∃ n, t = .app n) ∨ w.user t ≠ []

/-- `run` and the poll thread, outside user code. -/
theorem not_conflicts {g : Tid → AccessState} (h : AccessInv w g) {a b : Act} (ha : (g .main).Allows .main a)
    (hb : (g .poller).Allows .poller b) (hmain : w.user .main = []) (hpoller : w.user .poller = []) :
    ¬ a.Conflicts b := by
  rintro ⟨m, x, y, hx, hy, hwrites⟩
  have hheld : ∀ mu, (g .main).sections.held mu = true → (g .poller).sections.held mu = true → False := by
    intro mu hm hp
    rw [h.sections] at hm hp
    have hm : w.owner mu = some .main := of_decide_eq_true hm
    have hp : w.owner mu = some .poller := of_decide_eq_true hp
    cases hm.symm.trans hp
  have hmay := ha.1 (by rw [h.sections]; exact hmain) _ hx
  obtain ⟨hbegun, hmay'⟩ := hb.1 (by rw [h.sections]; exact hpoller) _ hy
  have hshared : (g .main).shared = true := h.created (h.begun hbegun)
  cases m with
  | http => exact hheld _ (hmay hshared) hmay'
  | seen_ids_ => exact hheld _ hmay hmay'
  | room_id =>
    rcases hwrites with rfl | rfl
    · exact absurd (hshared.symm.trans (hmay rfl)) nofun
    · cases hmay'
  | _ => exact hmay'

/-- In every reachable state two threads whose next actions conflict are not both in the client's own code. -/
theorem race_free (hw : w.Idle) (h : Run World.sem (start cfg calls w) tr c) (htu : t ≠ u) (hrace : Racing c t u) :
    InUserCode c.world t ∨ InUserCode c.world u := by
  obtain ⟨g, hinv, hwp⟩ := h.invariant (M := access_monitor) (I := fun _ w g => AccessInv w g)
    (fun _ _ _ _ _ _ _ hI hok hs => ⟨_, rfl, hI.step hok hs⟩) (.init hw) (access_threads calls)
  have hallows : ∀ {v a k}, c.prog v = .act a k → (g v).Allows v a := by
    intro v a k hp
    have hv := hwp v
    rw [hp] at hv
    exact hv.1
  obtain ⟨a, b, k, l, ha, hb, hconflicts⟩ := hrace
  by_contra hno
  have hown : ∀ {v}, ¬ InUserCode c.world v → (∀ n, v ≠ .app n) ∧ c.world.user v = [] := fun hv =>
    ⟨fun n hn => hv (.inl ⟨n, hn⟩), not_not.1 fun hne => hv (.inr hne)⟩
  obtain ⟨htapp, htuser⟩ := hown fun h => hno (.inl h)
  obtain ⟨huapp, huuser⟩ := hown fun h => hno (.inr h)
  cases t with
  | app n => exact htapp n rfl
  | main =>
    cases u with
    | app n => exact huapp n rfl
    | main => exact htu rfl
    | poller => exact not_conflicts hinv (hallows ha) (hallows hb) htuser huuser hconflicts
  | poller =>
    cases u with
    | app n => exact huapp n rfl
    | poller => exact htu rfl
    | main => exact not_conflicts hinv (hallows hb) (hallows ha) huuser htuser hconflicts.symm

end

/-- `fetch_gift_list` of an application thread does race with the `im/fetch` of `run`. -/
theorem race_free_gift_list :
    let c := ((execute World.step gift_schedule (fetching_start [.fetch_gift_list])).get gift_runs).2
    Racing c .main (.app 0) ∧ (InUserCode c.world .main ∨ InUserCode c.world (.app 0)) := by
  intro c
  have hrace : Racing c .main (.app 0) := ⟨_, _, _, _, rfl, rfl, .http, true, true, rfl, rfl, .inl rfl⟩
  exact ⟨hrace, race_free World.idle_init (run_of_isSome World.sem_of_step gift_runs) nofun hrace⟩

end TtLive
