import TtLive.Invariance
import TtLive.Cursor

/-!
# What a WebSocket reconnect skips

The server keeps an append-only log; a cursor stands for a position in it. `im/fetch` returns the messages
after its cursor and the cursor after them, a socket pushes the messages after the cursor it was opened with
(`Server.obeys`). `Delivery` is read off a trace: the messages passed to `dispatch_message`, and those that
a refresh returned, which the reconnect loop does not dispatch. Together they cover the log up to the
furthest position reached.
-/

namespace TtLive
open Prog

structure Server where
  log : Nat → BaseProtoMessage
  pos : Bytes → Nat

/-- The `n` messages of the log from position `i` on. -/
def Server.slice (srv : Server) (i n : Nat) : List BaseProtoMessage := (List.range' i n).map srv.log

theorem Server.mem_slice {srv : Server} {i j n : Nat} (hij : i ≤ j) (hj : j < i + n) :
    srv.log j ∈ srv.slice i n :=
  List.mem_map_of_mem (List.mem_range'_1.2 ⟨hij, hj⟩)

/-- `cursor` is the cursor of the current request or session, `sock` the position the socket has reached. -/
structure Delivery where
  cursor : Bytes := []
  sock : Nat
  reached : Nat
  polling : Bool := false
  dispatched : List BaseProtoMessage := []
  skipped : List BaseProtoMessage := []

variable (srv : Server) (cfg : Config)

namespace Delivery

def next (g : Delivery) : (a : Act) → Resp a → Delivery
  | .mark (.run_websocket initial), _ => { g with cursor := initial.cursor }
  | .connect _ _ _, .ok _ => { g with sock := srv.pos g.cursor }
  | .recv_binary, (.Message, raw) =>
    match decode_frame cfg raw with
    | some (_, result) =>
      { g with sock := g.sock + result.messages.length, reached := max g.reached (g.sock + result.messages.length) }
    | none => g
  | .mark (.fetch_once cursor _), _ => { g with cursor := cursor }
  | .mark (.fetched (.ok batch)), _ =>
    { g with
      reached := max g.reached (srv.pos batch.cursor)
      skipped := if g.polling then g.skipped else g.skipped ++ batch.messages }
  | .mark (.dispatch_message msg), _ => { g with dispatched := g.dispatched ++ [msg] }
  | .mark (.poll_loop _), _ => { g with polling := true }
  | _, _ => g

def init (initial : ProtoMessageFetchResult) : Delivery where
  sock := srv.pos initial.cursor
  reached := srv.pos initial.cursor

/-- What a trace shows. -/
def of (initial : ProtoMessageFetchResult) (tr : List (Ev Resp)) : Delivery :=
  Monitor.after (next srv cfg) (init srv initial) tr

end Delivery

/-- The server's side of the contract. -/
def Server.obeys (g : Delivery) : (a : Act) → Resp a → Bool
  | .recv_binary, (.Message, raw) =>
    match decode_frame cfg raw with
    | some (_, result) => result.messages = srv.slice g.sock result.messages.length
    | none => true
  | .mark (.fetched (.ok batch)), _ =>
    batch.messages = srv.slice (srv.pos g.cursor) batch.messages.length &&
      srv.pos batch.cursor = srv.pos g.cursor + batch.messages.length
  | _, _ => true

/-- Every message between `start` and the position reached is dispatched, skipped or in `rest`. -/
def Covers (start : Nat) (g : Delivery) (rest : List BaseProtoMessage) : Prop :=
  ∀ i, start ≤ i → i < g.reached → srv.log i ∈ g.dispatched ∨ srv.log i ∈ g.skipped ∨ srv.log i ∈ rest

def Delivery.Allows (start : Nat) (g : Delivery) : Act → Prop
  | .mark (.run_websocket cur) => Covers srv start g [] ∧ srv.pos cur.cursor ≤ g.reached
  | _ => True

abbrev delivery_monitor (start : Nat) : Monitor Act Resp Delivery :=
  .assume (fun g a r => srv.obeys cfg g a r) (.det (Delivery.Allows srv start) (Delivery.next srv cfg))

/-- What holds between two operations on a path that may resume from `cursors`. -/
structure Standing (start : Nat) (polling : Bool) (cursors : List Bytes) (rest : List BaseProtoMessage)
    (g : Delivery) : Prop where
  covers : Covers srv start g rest
  position : ∀ c ∈ cursors, srv.pos c ≤ g.reached
  sock : g.sock ≤ g.reached
  polling : g.polling = polling

variable {srv cfg} {start : Nat} {initial : ProtoMessageFetchResult}

theorem delivery_monitor_quiet (a : Act) (h : a.quiet) : Silent (delivery_monitor srv cfg start) a := by
  intro g
  cases a <;> first | exact ⟨trivial, fun _ _ h => h.2⟩ | cases h

theorem Covers.extend {g : Delivery} {from_ n : Nat} (h : Covers srv start g [])
    (hfrom : from_ ≤ g.reached) :
    Covers srv start { g with reached := max g.reached (from_ + n) } (srv.slice from_ n) := by
  intro i hi hlt
  by_cases hr : i < g.reached
  · rcases h i hi hr with hd | hs | hn
    · exact .inl hd
    · exact .inr (.inl hs)
    · cases hn
  · refine .inr (.inr (Server.mem_slice (by omega) ?_))
    have : i < max g.reached (from_ + n) := hlt
    omega

/-- Dispatching the messages of a batch covers them. -/
theorem wp_process_covers {polling : Bool} {cursors : List Bytes} {result : ProtoMessageFetchResult}
    {g : Delivery}
    (h : Standing srv start polling cursors result.messages g) :
    wp (delivery_monitor srv cfg start) (process_fetch_result cfg result)
      (fun _ g' => Standing srv start polling cursors [] g') g := by
  refine wp_foldlM (fun rest _ g' => Standing srv start polling cursors rest g') ?_ h
  intro msg rest ended g h
  refine wp_bind.2 (wp_dispatch_message delivery_monitor_quiet ⟨trivial, ?_⟩)
  rintro - _ ⟨-, rfl⟩
  have h' : Standing srv start polling cursors rest { g with dispatched := g.dispatched ++ [msg] } := by
    refine ⟨fun i hi hlt => ?_, h.position, h.sock, h.polling⟩
    rcases h.covers i hi hlt with hd | hs | hr
    · exact .inl (List.mem_append_left _ hd)
    · exact .inr (.inl hs)
    · rcases List.mem_cons.1 hr with hm | hr
      · exact .inl (List.mem_append_right _ (List.mem_singleton.2 hm))
      · exact .inr (.inr hr)
  refine ⟨h', trivial, ?_⟩
  rintro - _ ⟨-, rfl⟩
  cases decide ((message_event cfg msg).type = .LiveEnd) <;> exact h'

/-- A fetch from one of the path's cursors: what it returns is the next stretch of the log. -/
theorem wp_fetch_standing {polling : Bool} {cursors : List Bytes} {cursor internal_ext : Bytes}
    {g : Delivery}
    {Q : Except Exn ProtoMessageFetchResult → Delivery → Prop} (h : Standing srv start polling cursors [] g)
    (hc : cursor ∈ cursors) (herror : ∀ e g', Standing srv start polling cursors [] g' → Q (.error e) g')
    (hok : ∀ batch g', Standing srv start polling (batch.cursor :: cursors)
      (if polling then batch.messages else []) g' → Q (.ok batch) g') :
    wp (delivery_monitor srv cfg start) (fetch_once cfg cursor internal_ext) Q g := by
  refine wp_fetch_once delivery_monitor_quiet
    (fun g' => Standing srv start polling cursors [] g' ∧ g'.cursor = cursor) ⟨trivial, ?_⟩ (fun room_id => ?_) ?_
  · rintro - _ ⟨-, rfl⟩
    exact ⟨⟨h.covers, h.position, h.sock, h.polling⟩, rfl⟩
  · intro g₁ h₁
    refine wp_perform_bind.2 ⟨trivial, ?_⟩
    rintro - _ ⟨-, rfl⟩
    exact keeps_quiet delivery_monitor_quiet (.net_end _) rfl _ h₁
  · rintro r g₁ ⟨h₁, rfl⟩
    refine ⟨trivial, ?_⟩
    rintro ⟨⟩ _ ⟨hobeys, rfl⟩
    cases r with
    | error e => exact herror e _ h₁
    | ok batch =>
      have hbatch : batch.messages = srv.slice (srv.pos g₁.cursor) batch.messages.length ∧
          srv.pos batch.cursor = srv.pos g₁.cursor + batch.messages.length := by
        simpa [Server.obeys] using hobeys
      obtain ⟨hslice, hpos⟩ := hbatch
      have hext := h₁.covers.extend (n := batch.messages.length) (h₁.position _ hc)
      rw [← hslice, ← hpos] at hext
      refine hok batch _ ⟨fun i hi hlt => ?_, fun c hmem => ?_, Nat.le_trans h₁.sock (Nat.le_max_left _ _),
        h₁.polling⟩
      · rcases hext i hi hlt with hd | hs | hr
        · exact .inl hd
        · refine .inr (.inl ?_)
          simp only [Delivery.next]
          split
          · exact hs
          · exact List.mem_append_left _ hs
        · cases hp : polling with
          | true => exact .inr (.inr hr)
          | false =>
            refine .inr (.inl ?_)
            simp only [Delivery.next, h₁.polling, hp]
            exact List.mem_append_right _ hr
      · rcases List.mem_cons.1 hmem with rfl | hmem
        · exact Nat.le_max_right _ _
        · exact Nat.le_trans (h₁.position c hmem) (Nat.le_max_left _ _)

/-! ### Sessions -/

/-- A frame that the socket received: the socket moves on, and the frame's messages are dispatched. -/
theorem wp_receive {cursors : List Bytes} {g : Delivery}
    (h : Standing srv start false cursors [] g) :
    wp (delivery_monitor srv cfg start) (call .recv_binary)
      (fun r g' => match r with
        | (.Message, raw) => wp (delivery_monitor srv cfg start) (ws_handle_frame cfg raw)
            (fun _ g'' => Standing srv start false cursors [] g'') g'
        | _ => Standing srv start false cursors [] g') g := by
  refine ⟨trivial, ?_⟩
  rintro ⟨st, raw⟩ _ ⟨hobeys, rfl⟩
  cases st with
  | Again => exact h
  | Closed => exact h
  | Error => exact h
  | Message =>
    refine wp_bind_keeps (keeps_quiet_sink delivery_monitor_quiet _ _) fun _ => ?_
    cases hdec : decode_frame cfg raw with
    | none => simpa [Delivery.next, hdec] using h
    | some fr =>
      obtain ⟨frame, result⟩ := fr
      have hslice : result.messages = srv.slice g.sock result.messages.length := by
        simpa [Server.obeys, hdec] using hobeys
      have hext := h.covers.extend (n := result.messages.length) h.sock
      rw [← hslice] at hext
      have hproc : wp (delivery_monitor srv cfg start) (process_fetch_result cfg result)
          (fun _ g' => Standing srv start false cursors [] g')
          (g.next srv cfg .recv_binary (.Message, raw)) := by
        refine wp_process_covers ?_
        simp only [Delivery.next, hdec]
        exact ⟨hext, fun c hc => Nat.le_trans (h.position c hc) (Nat.le_max_left _ _),
          Nat.le_max_right _ _, h.polling⟩
      dsimp only
      split
      · exact wp_bind_keeps (keeps_ws_send_ack (sending_of_wired (wired_of fun a ha =>
          keeps_quiet delivery_monitor_quiet a (Act.quiet_of_plain ha))) _ _) fun _ => hproc
      · exact hproc

/-- A session that stands at its cursor keeps doing so. -/
theorem keeps_session {cursors : List Bytes} :
    Keeps (delivery_monitor srv cfg start) (Standing srv start false cursors []) (pump_session cfg) := by
  have plain : ∀ {I} (a : Act), a.plain → Keeps (delivery_monitor srv cfg start) I (call a) := fun a ha =>
    keeps_quiet delivery_monitor_quiet a (Act.quiet_of_plain ha)
  have hround : ∀ hb, Keeps (delivery_monitor srv cfg start) (Standing srv start false cursors [])
      (session_round cfg hb) := by
    intro hb
    refine (keeps_session_alive (calm_of plain) (plain _ rfl)).bind fun b => .ite (fun g hg => ?_) (keeps_pure _)
    refine wp_bind.2 (wp_mono (wp_receive hg) fun r g' hr => ?_)
    obtain ⟨st, raw⟩ := r
    cases st with
    | Message =>
      refine wp_bind.2 (wp_mono hr fun ended g'' h'' => ?_)
      exact Keeps.ite (keeps_pure _) (keeps_heartbeat_if_due (sending_of_wired (wired_of plain)) _) g'' h''
    | Again => exact (Keeps.bind (plain (.sleep 20) rfl) fun _ => keeps_heartbeat_if_due (sending_of_wired (wired_of plain)) _) g' hr
    | Closed => exact hr
    | Error => exact hr
  refine (plain _ rfl).bind fun _ => (keeps_ws_send_enter_room (sending_of_wired (wired_of plain))).bind fun _ => ?_
  refine (plain _ rfl).bind fun hb => (Keeps.iterate hround).bind fun ended => ?_
  refine (plain _ rfl).bind fun _ => (keeps_load (calm_of plain) _).bind fun stop => .ite (keeps_pure _) ?_
  exact .ite (keeps_pure _) ((keeps_load (calm_of plain) _).bind fun live => .ite (keeps_pure _) (keeps_pure _))

theorem wp_session {cur : ProtoMessageFetchResult} {cursors : List Bytes} {g : Delivery}
    (h : Standing srv start false cursors [] g) (hmem : cur.cursor ∈ cursors) :
    wp (delivery_monitor srv cfg start) (run_websocket cfg cur)
      (fun _ g' => Standing srv start false cursors [] g') g := by
  have hsession : ∀ r, Keeps (delivery_monitor srv cfg start) (Standing srv start false cursors [])
      (mark (.session r)) := by
    intro r g hg
    refine ⟨trivial, ?_⟩
    rintro - _ ⟨-, rfl⟩
    exact hg
  have hopen : Keeps (delivery_monitor srv cfg start)
      (fun g' => Standing srv start false cursors [] g' ∧ g'.cursor = cur.cursor) (open_session cur).run := by
    refine keeps_quiet_open_session delivery_monitor_quiet (fun host room_id g hg => ?_)
      fun url cookies ua g hg => ?_
    · refine wp_perform_bind.2 ⟨trivial, ?_⟩
      rintro - _ ⟨-, rfl⟩
      exact keeps_quiet delivery_monitor_quiet (.net_end _) rfl _ hg
    · refine ⟨trivial, ?_⟩
      rintro r _ ⟨-, rfl⟩
      cases r with
      | error e => exact hg
      | ok _ =>
        obtain ⟨hg, hc⟩ := hg
        refine ⟨⟨hg.covers, hg.position, ?_, hg.polling⟩, hc⟩
        simpa [Delivery.next, hc] using hg.position cur.cursor hmem
  refine wp_perform_bind.2 ⟨⟨h.covers, h.position _ hmem⟩, ?_⟩
  rintro - _ ⟨-, rfl⟩
  refine wp_bind.2 (wp_mono (hopen _ ⟨⟨h.covers, h.position, h.sock, h.polling⟩, rfl⟩) fun r g' h' => ?_)
  cases r with
  | error e => exact ((hsession _).bind fun _ => keeps_pure _) g' h'.1
  | ok _ => exact (keeps_session.bind fun r => (hsession r).bind fun _ => keeps_pure _) g' h'.1

/-! ### The transport -/

theorem wp_ws_delivery {allow_fallback : Bool} {g : Delivery}
    (h : Standing srv start false [initial.cursor] [] g) :
    wp (delivery_monitor srv cfg start) (run_websocket_with_reconnect cfg initial allow_fallback)
      (fun _ g' => Standing srv start false [initial.cursor] [] g') g := by
  refine wp_mono (wp_run_websocket_with_reconnect delivery_monitor_quiet
    (fun cur g => Standing srv start false [cur.cursor, initial.cursor] [] g)
    (fun cur g h => wp_session h (by simp)) (fun cur g h => ?_) ?_) ?_
  · refine wp_fetch_standing h (by simp) (fun e g' h' => h') fun batch g' h' => ?_
    exact ⟨h'.covers, fun c hc => h'.position c (by simp at hc ⊢; tauto), h'.sock, h'.polling⟩
  · exact ⟨h.covers, fun c hc => h.position c (by simpa using hc), h.sock, h.polling⟩
  · rintro _ g' ⟨cur, h'⟩
    exact ⟨h'.covers, fun c hc => h'.position c (List.mem_cons_of_mem _ hc), h'.sock, h'.polling⟩

theorem wp_poll_delivery {g : Delivery} (h : Standing srv start false [initial.cursor] [] g) :
    wp (delivery_monitor srv cfg start) (poll_loop cfg initial) (fun _ g' => Covers srv start g' []) g := by
  refine wp_poll_rounds delivery_monitor_quiet (fun s g => Standing srv start true [s.cursor] [] g)
    (fun _ _ h => h.covers) ⟨trivial, ?_⟩ ?_ ?_
  · rintro - _ ⟨-, rfl⟩
    exact ⟨h.covers, h.position, h.sock, rfl⟩
  · intro s g h
    refine ⟨trivial, ?_⟩
    rintro - _ ⟨-, rfl⟩
    exact h
  · intro s g h
    refine wp_fetch_standing h (List.mem_singleton_self _) (fun e g' h' => h') fun batch g' h' => ?_
    refine wp_mono (wp_process_covers h') fun ended g'' h'' => ?_
    cases ended with
    | true => exact h''.covers
    | false =>
      refine ⟨h''.covers, fun c hc => h''.position c ?_, h''.sock, h''.polling⟩
      rw [List.mem_singleton.1 hc, Poll.advance]
      split <;> simp

theorem wp_delivery : wp (delivery_monitor srv cfg (srv.pos initial.cursor)) (transport cfg initial)
    (fun _ g => Covers srv (srv.pos initial.cursor) g []) (Delivery.init srv initial) := by
  have quiet : ∀ {I} (a : Act), a.quiet → Keeps (delivery_monitor srv cfg (srv.pos initial.cursor)) I (call a) :=
    fun a ha => keeps_quiet delivery_monitor_quiet a ha
  have h₀ : Standing srv (srv.pos initial.cursor) false [initial.cursor] [] (Delivery.init srv initial) :=
    ⟨fun i hi hlt => absurd hlt (Nat.not_lt.2 hi), fun c hc => by rw [List.mem_singleton.1 hc]; exact Nat.le_refl _,
      Nat.le_refl _, rfl⟩
  unfold transport
  split
  · refine wp_bind_keeps (quiet (.spawn _) rfl) fun _ => wp_bind.2 (wp_mono (wp_ws_delivery h₀) fun _ g h => ?_)
    exact wp_bind_keeps (quiet (.store _ _) rfl) fun _ => quiet .join rfl g h.covers
  · split
    · refine wp_bind.2 (wp_mono (wp_ws_delivery h₀) fun handled g h => ?_)
      cases handled with
      | true => exact h.covers
      | false => exact wp_poll_delivery h
    · exact wp_poll_delivery h₀

/-! ### Runs -/

/-- Whenever a socket is resumed, and when the transport returns, every message of the log between the
starting position and the position reached was passed to `dispatch_message` or returned by a refresh. -/
theorem reconnect_skips_only_refreshed {tr : List (Ev Resp)} {q : Code Unit}
    (h : Runs (transport cfg initial) tr q)
    (hserver : ∀ pre a r post, tr = pre ++ ⟨a, r⟩ :: post → srv.obeys cfg (Delivery.of srv cfg initial pre) a r) :
    (∀ pre cur post, tr = pre ++ ⟨.mark (.run_websocket cur), ()⟩ :: post →
      ∀ i, srv.pos initial.cursor ≤ i → i < srv.pos cur.cursor →
        srv.log i ∈ (Delivery.of srv cfg initial pre).dispatched ∨
          srv.log i ∈ (Delivery.of srv cfg initial pre).skipped) ∧
    (q = ret () → ∀ i, srv.pos initial.cursor ≤ i → i < (Delivery.of srv cfg initial tr).reached →
      srv.log i ∈ (Delivery.of srv cfg initial tr).dispatched ∨
        srv.log i ∈ (Delivery.of srv cfg initial tr).skipped) := by
  constructor
  · rintro pre cur post rfl i hi hlt
    obtain ⟨hcov, hpos⟩ := Monitor.ok_of_assumed (@wp_delivery srv cfg initial) h
      (Monitor.Assumed.of_append hserver)
    rcases hcov i hi (Nat.lt_of_lt_of_le hlt hpos) with hd | hs | hn
    · exact .inl hd
    · exact .inr hs
    · cases hn
  · rintro rfl i hi hlt
    have hcov := Monitor.wp_of_assumed (@wp_delivery srv cfg initial) h hserver
    rcases hcov i hi hlt with hd | hs | hn
    · exact .inl hd
    · exact .inr hs
    · cases hn

/-- A session that the server closes at once, and a refresh that returns messages 1 and 2 and moves from `A` to
`B`. -/
def skipping_run : List (Ev Resp) × Code Unit :=
  exec (List.replicate 80 (sample_answer (sample_batch [1, 2] (lit "B")).1 (.Closed, [])))
    (transport (sample_config {}) { cursor := lit "A" })

def skipping_server : Server where
  log i := { method := lit "M", msg_id := i + 1 }
  pos c := if c = lit "B" then 2 else 0

theorem skipping_run_resumes : ∃ q, Runs (transport (sample_config {}) { cursor := lit "A" })
    (skipping_run.1 ++ [⟨.mark (.run_websocket (sample_batch [1, 2] (lit "B")).2), ()⟩]) q := by
  have h : pending skipping_run.2 = some (.mark (.run_websocket (sample_batch [1, 2] (lit "B")).2)) := rfl
  exact runs_exec_pending h ()

theorem skipping_run_obeys : Monitor.Assumed (fun g a r => skipping_server.obeys (sample_config {}) g a r)
    (Delivery.next skipping_server (sample_config {})) (Delivery.init skipping_server { cursor := lit "A" })
    (skipping_run.1 ++ [⟨.mark (.run_websocket (sample_batch [1, 2] (lit "B")).2), ()⟩]) := by
  decide +kernel

/-- In that run both messages were returned by the refresh. -/
theorem skipping_run_covered : skipping_server.log 0 ∈
      (Delivery.of skipping_server (sample_config {}) { cursor := lit "A" } skipping_run.1).dispatched ∨
    skipping_server.log 0 ∈
      (Delivery.of skipping_server (sample_config {}) { cursor := lit "A" } skipping_run.1).skipped := by
  obtain ⟨q, hrun⟩ := skipping_run_resumes
  exact (reconnect_skips_only_refreshed hrun skipping_run_obeys).1 _ _ _ rfl 0 (by decide) (by decide)

/-- The socket is resumed behind two messages that were not dispatched. -/
theorem refresh_skips_messages :
    ¬ ∀ (srv : Server) (cfg : Config) (initial : ProtoMessageFetchResult) (tr : List (Ev Resp)) (q : Code Unit),
      cfg.options.use_websocket = true → cfg.options.use_polling = false → Runs (transport cfg initial) tr q →
      (∀ pre a r post, tr = pre ++ ⟨a, r⟩ :: post → srv.obeys cfg (Delivery.of srv cfg initial pre) a r) →
      ∀ pre cur post, tr = pre ++ ⟨.mark (.run_websocket cur), ()⟩ :: post →
        ∀ i, srv.pos initial.cursor ≤ i → i < srv.pos cur.cursor →
          srv.log i ∈ (Delivery.of srv cfg initial pre).dispatched := by
  intro h
  obtain ⟨q, hrun⟩ := skipping_run_resumes
  exact absurd (h _ _ _ _ _ rfl rfl hrun skipping_run_obeys _ _ _ rfl 0 (by decide) (by decide)) (by decide)

end TtLive
