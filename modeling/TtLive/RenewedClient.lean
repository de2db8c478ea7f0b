import TtLive.StaleMembers

/-!
# A client as if it were new

`renewed` is a client whose past has left no trace but the window of message ids, the heartbeat number and the
calls that other threads are making. `Renewed` relates the two worlds of one schedule, run on a client and on the
renewed one: they differ at most in the two members, the gift list and the `WsClient`. As long as the caller's
reads agree (`run_monitor`) and no message is put together with bytes of an earlier run, each step is answered
alike (`renewed_step`), so that the two runs have the same trace (`runs_as_renewed`).
-/

namespace TtLive
open Prog Threads

/-- The client, but for what it remembers of its runs. The flags and the room id stay: a run sets them before it
reads them, and other threads may ask for them at any time. In dual mode nothing depends on
`ws_ever_connected`. -/
def renewed (cfg : Config) (c : Conf Tid World Act Resp (Except Exn Unit)) :
    Conf Tid World Act Resp (Except Exn Unit) :=
  ⟨{ c.world with
      stream_info := {}
      gift_list := []
      ws_ever_connected := !cfg.ws_only && c.world.ws_ever_connected
      ws := {} }, c.prog⟩

/-- No message is received in a run before the reassembly buffer has been empty at some point of it. -/
def OwnBuffer (c : Conf Tid World Act Resp (Except Exn Unit)) (sched : List (Tid × Env)) : Prop :=
  ∀ s x tr t raw c', s ++ [x] <+: sched →
    execute World.step (s ++ [x]) c = some (tr ++ [(t, ⟨.recv_binary, (.Message, raw)⟩)], c') →
    ∃ s₁ tr₁ c₁, s₁ <+: s ∧ execute World.step s₁ c = some (tr₁, c₁) ∧ c₁.world.ws.partial_buf = []

variable {cfg : Config} {w w' v : World}

/-! ### The WebSocket client -/

/-- `d` is `c` without the bytes `stale` at the front of the buffer. -/
structure Behind (stale : Bytes) (c d : WsClient) : Prop where
  curl : c.curl = d.curl
  connected_ : c.connected_ = d.connected_
  partial_buf : c.partial_buf = stale ++ d.partial_buf

/-- Receiving behind stale bytes: the same answer, unless they become part of a message. -/
theorem Behind.recv_binary {stale : Bytes} {c d : WsClient} (h : Behind stale c d) (r : CurlRecv)
    (hmessage : (c.recv_binary r []).1 = .Message → stale = []) :
    (d.recv_binary r []).1 = (c.recv_binary r []).1 ∧ (d.recv_binary r []).2.1 = (c.recv_binary r []).2.1 ∧
      ∃ stale', (stale' = stale ∨ stale' = []) ∧ Behind stale' (c.recv_binary r []).2.2 (d.recv_binary r []).2.2 := by
  obtain ⟨curl, hdrs, buf, conn⟩ := c
  obtain ⟨curl', hdrs', buf', conn'⟩ := d
  obtain ⟨rfl, rfl, rfl⟩ : curl = curl' ∧ conn = conn' ∧ buf = stale ++ buf' := ⟨h.curl, h.connected_, h.partial_buf⟩
  unfold WsClient.recv_binary at hmessage ⊢
  split
  · exact ⟨rfl, rfl, stale, .inl rfl, h⟩
  · next hopen =>
    rw [if_neg hopen] at hmessage
    cases r with
    | again => exact ⟨rfl, rfl, stale, .inl rfl, h⟩
    | error => exact ⟨rfl, rfl, stale, .inl rfl, rfl, rfl, rfl⟩
    | chunk data frame =>
      dsimp only at hmessage ⊢
      by_cases hclose : frame.any (·.flags.close) = true
      · simp only [if_pos hclose]
        exact ⟨trivial, trivial, stale, .inl rfl, rfl, rfl, rfl⟩
      simp only [if_neg hclose] at hmessage ⊢
      by_cases hmore : frame.any (·.bytesleft > 0) = true
      · simp only [if_pos hmore]
        exact ⟨trivial, trivial, stale, .inl rfl, rfl, rfl, List.append_assoc ..⟩
      simp only [if_neg hmore] at hmessage ⊢
      by_cases hcont : frame.any (·.flags.cont) = true
      · simp only [if_pos hcont]
        exact ⟨trivial, trivial, stale, .inl rfl, rfl, rfl, List.append_assoc ..⟩
      simp only [if_neg hcont] at hmessage ⊢
      by_cases hdata : (frame.any fun f => f.flags.binary || f.flags.text) = true
      · simp only [if_pos hdata] at hmessage ⊢
        by_cases hempty : stale ++ buf' ++ data = []
        · obtain ⟨hfront, rfl⟩ := List.append_eq_nil_iff.1 hempty
          obtain ⟨rfl, rfl⟩ := List.append_eq_nil_iff.1 hfront
          exact ⟨rfl, rfl, [], .inr rfl, rfl, rfl, rfl⟩
        · obtain rfl := hmessage (if_neg hempty)
          exact ⟨rfl, rfl, [], .inr rfl, rfl, rfl, rfl⟩
      · simp only [if_neg hdata]
        exact ⟨trivial, trivial, [], .inr rfl, rfl, rfl, rfl⟩

/-- A handshake does not depend on the past, and leaves the buffer alone. -/
theorem connect_behind {stale : Bytes} {c d : WsClient} (hbuf : c.partial_buf = stale ++ d.partial_buf)
    (cookies ua : Bytes) (h : Handshake) (hopen : h = .ok ∨ Behind stale c d) :
    Behind stale (c.connect cookies ua h).2 (d.connect cookies ua h).2 := by
  rcases hopen with rfl | hbehind
  · exact ⟨rfl, rfl, hbuf⟩
  · cases h with
    | ok => exact ⟨rfl, rfl, hbuf⟩
    | init_failed => exact ⟨rfl, hbehind.connected_, hbuf⟩
    | perform_failed => exact ⟨rfl, hbehind.connected_, hbuf⟩

theorem connect_buffer (c : WsClient) (cookies ua : Bytes) (h : Handshake) :
    (c.connect cookies ua h).2.partial_buf = c.partial_buf := by
  cases h <;> rfl

theorem Behind.send_binary {stale : Bytes} {c d : WsClient} (h : Behind stale c d) (ok : Bool) :
    (d.send_binary ok).1 = (c.send_binary ok).1 ∧ Behind stale (c.send_binary ok).2 (d.send_binary ok).2 := by
  unfold WsClient.send_binary
  rw [h.curl, h.connected_]
  split
  · exact ⟨rfl, h⟩
  · split
    · exact ⟨rfl, h⟩
    · exact ⟨rfl, rfl, rfl, h.partial_buf⟩

/-! ### One step in the two worlds -/

/-- The actions that have nothing to do with what `renewed` changes. -/
def Act.framed : Act → Bool
  | .connect _ _ _ | .connected | .send_binary _ | .recv_binary | .close | .set_gift_list _ => false
  | .set_stream_info _ | .stream_info | .set_ws_ever_connected | .ws_ever_connected => false
  | _ => true

theorem step_framed {t : Tid} {env : Env} {a : Act} {r : Resp a} (ha : a.framed)
    (hs : w.step t env a = some (r, w')) (info : StreamInfo) (ever : Bool) (gifts : List GiftInfo) (ws : WsClient) :
    World.step t { w with stream_info := info, ws_ever_connected := ever, gift_list := gifts, ws := ws } env a =
        some (r, { w' with stream_info := info, ws_ever_connected := ever, gift_list := gifts, ws := ws }) ∧
      w'.members = w.members ∧ w'.ws = w.ws := by
  cases a with
  | lock m =>
    simp only [World.step] at hs ⊢
    split at hs
    · next hfree =>
      cases hs
      rw [if_pos hfree]
      exact ⟨rfl, rfl, rfl⟩
    · cases hs
  | unlock m =>
    simp only [World.step] at hs ⊢
    split at hs
    · next howner =>
      cases hs
      rw [if_pos howner]
      exact ⟨rfl, rfl, rfl⟩
    · cases hs
  | spawned =>
    simp only [World.step] at hs ⊢
    obtain ⟨initial, hi, heq⟩ := Option.map_eq_some_iff.1 hs
    cases heq
    rw [hi]
    exact ⟨rfl, rfl, rfl⟩
  | join =>
    simp only [World.step] at hs ⊢
    split at hs
    · next hexited =>
      cases hs
      rw [if_pos hexited]
      exact ⟨rfl, rfl, rfl⟩
    · cases hs
  | _ => first | (cases hs; exact ⟨rfl, rfl, rfl⟩) | cases ha

/-- The world of a run and that of the same run of the renewed client; `stale` is what an earlier run has left at
the front of the buffer. -/
structure Renewed (cfg : Config) (g : RunState) (stale : Bytes) (w v : World) : Prop where
  rest : v = { w with
    stream_info := g.fresh.stream_info
    ws_ever_connected := if cfg.ws_only then g.fresh.ws_ever_connected else w.ws_ever_connected
    gift_list := v.gift_list
    ws := v.ws }
  members : w.members = g.members
  socket : g.log.connected = true → Behind stale w.ws v.ws
  buffer : w.ws.partial_buf = stale ++ v.ws.partial_buf

/-- A read that does not tell the two worlds apart. -/
def Reads (cfg : Config) (g : RunState) (a : Act) : Prop :=
  (a = .connected ∨ (∃ f, a = .send_binary f) ∨ a = .recv_binary → g.log.connected = true) ∧ g.Agrees cfg a

variable {g : RunState} {stale : Bytes}

theorem next_framed {a : Act} (h : a.framed) (r : Resp a) : (g.next cfg a r).members = g.members ∧
    (g.next cfg a r).fresh = g.fresh ∧ (g.next cfg a r).log.connected = g.log.connected := by
  cases a with
  | net_end op =>
    cases op with
    | get page => cases page <;> exact ⟨rfl, rfl, rfl⟩
    | _ => exact ⟨rfl, rfl, rfl⟩
  | mark m =>
    cases m with
    | fetched x => cases x <;> exact ⟨rfl, rfl, rfl⟩
    | session x => cases x <;> exact ⟨rfl, rfl, rfl⟩
    | _ => exact ⟨rfl, rfl, rfl⟩
  | _ => first | exact ⟨rfl, rfl, rfl⟩ | cases h

theorem reads_of_foreign {a : Act} (h : a.foreign) : Reads cfg g a := by
  refine ⟨?_, by cases a <;> trivial⟩
  rintro (rfl | ⟨f, rfl⟩ | rfl) <;> cases h

theorem next_foreign {a : Act} (h : a.foreign) (r : Resp a) : (g.next cfg a r).members = g.members ∧
    (g.next cfg a r).fresh = g.fresh ∧ (g.next cfg a r).log.connected = g.log.connected := by
  cases a with
  | close => exact ⟨rfl, rfl, rfl⟩
  | set_gift_list => exact ⟨rfl, rfl, rfl⟩
  | _ => first | exact next_framed rfl r | cases h

/-- The renewed client answers alike, unless stale bytes become part of a message. -/
theorem renewed_step {t : Tid} {env : Env} {a : Act} {r : Resp a} (h : Renewed cfg g stale w v)
    (hreads : Reads cfg g a) (hs : w.step t env a = some (r, w'))
    (hmessage : ∀ raw, (⟨a, r⟩ : Ev Resp) = ⟨.recv_binary, (.Message, raw)⟩ → stale = []) :
    ∃ v' stale', v.step t env a = some (r, v') ∧ g.members.Answers a r ∧ (stale' = stale ∨ stale' = []) ∧
      Renewed cfg (g.next cfg a r) stale' w' v' := by
  obtain ⟨hrest, hmembers, hsocket, hbuffer⟩ := h
  generalize v.gift_list = gifts at hrest
  generalize v.ws = ws at hrest hsocket hbuffer
  have hinfo : w.stream_info = g.members.stream_info := by rw [← hmembers]; rfl
  have hever : w.ws_ever_connected = g.members.ws_ever_connected := by rw [← hmembers]; rfl
  subst hrest
  by_cases hframed : a.framed = true
  · obtain ⟨hv, hm, hw⟩ := step_framed hframed hs g.fresh.stream_info
      (if cfg.ws_only then g.fresh.ws_ever_connected else w.ws_ever_connected) gifts ws
    obtain ⟨hnm, hnf, hnc⟩ := @next_framed cfg g _ hframed r
    refine ⟨_, stale, hv, ?_, .inl rfl, ?_, ?_, ?_, ?_⟩
    · cases a <;> trivial
    · rw [hnf, ← (Members.mk.inj hm).2]
    · rw [hnm, hm, hmembers]
    · rw [hnc, hw]
      exact hsocket
    · rw [hw]
      exact hbuffer
  -- what is left is the socket and the members themselves
  cases a with
  | connect url cookies ua =>
    cases hs
    have hsame : (ws.connect cookies ua env.handshake).1 = (w.ws.connect cookies ua env.handshake).1 := by
      cases env.handshake <;> rfl
    refine ⟨_, stale, congrArg some (Prod.ext hsame rfl), trivial, .inl rfl, ?_, ?_, fun hconnected => ?_, ?_⟩
    · cases hr : (w.ws.connect cookies ua env.handshake).1 <;> rfl
    · cases hr : (w.ws.connect cookies ua env.handshake).1 <;> exact hmembers
    · refine connect_behind hbuffer cookies ua _ ?_
      cases hh : env.handshake with
      | ok => exact .inl rfl
      | init_failed => rw [hh] at hconnected; exact .inr (hsocket hconnected)
      | perform_failed what => rw [hh] at hconnected; exact .inr (hsocket hconnected)
    · rw [connect_buffer, connect_buffer]
      exact hbuffer
  | connected =>
    cases hs
    have hopen := hsocket (hreads.1 (.inl rfl))
    exact ⟨_, stale, congrArg some (Prod.ext hopen.connected_.symm rfl), trivial, .inl rfl, rfl, hmembers, hsocket, hbuffer⟩
  | send_binary f =>
    cases hs
    obtain ⟨hsame, hbehind⟩ := (hsocket (hreads.1 (.inr (.inl ⟨f, rfl⟩)))).send_binary env.sent
    exact ⟨_, stale, congrArg some (Prod.ext hsame rfl), trivial, .inl rfl, rfl, hmembers, fun _ => hbehind,
      hbehind.partial_buf⟩
  | recv_binary =>
    cases hs
    have hopen := hsocket (hreads.1 (.inr (.inr rfl)))
    obtain ⟨hstatus, hout, stale', hstale, hbehind⟩ := hopen.recv_binary env.recv fun hm => by
      refine hmessage (w.ws.recv_binary env.recv []).2.1 ?_
      rw [← hm]
    refine ⟨_, stale', congrArg some (Prod.ext (Prod.ext hstatus hout) rfl), trivial, hstale, ?_, ?_, fun _ => hbehind,
      hbehind.partial_buf⟩
    · rfl
    · exact hmembers
  | close =>
    cases hs
    exact ⟨_, stale, rfl, trivial, .inl rfl, rfl, hmembers, fun hc => ⟨(hsocket hc).curl, rfl, hbuffer⟩, hbuffer⟩
  | set_gift_list gifts =>
    cases hs
    exact ⟨_, stale, rfl, trivial, .inl rfl, rfl, hmembers, hsocket, hbuffer⟩
  | set_stream_info info =>
    cases hs
    refine ⟨_, stale, rfl, trivial, .inl rfl, rfl, ?_, hsocket, hbuffer⟩
    exact congrArg (Members.mk info) hever
  | stream_info =>
    cases hs
    exact ⟨_, stale, congrArg some (Prod.ext (hreads.2.symm.trans hinfo.symm) rfl), hinfo, .inl rfl, rfl, hmembers,
      hsocket, hbuffer⟩
  | set_ws_ever_connected =>
    cases hs
    refine ⟨_, stale, rfl, trivial, .inl rfl, ?_, ?_, hsocket, hbuffer⟩
    · simp [RunState.next, Members.next]
    · exact congrArg (Members.mk · true) hinfo
  | ws_ever_connected =>
    cases hs
    refine ⟨_, stale, congrArg some (Prod.ext ?_ rfl), hever, .inl rfl, rfl, hmembers, hsocket, hbuffer⟩
    dsimp only
    split
    · next honly => exact (hreads.2 honly).symm.trans hever.symm
    · rfl
  | _ => exact absurd rfl hframed

theorem Renewed.congr {g' : RunState} (h : Renewed cfg g stale w v) (hm : g'.members = g.members)
    (hf : g'.fresh = g.fresh) (hc : g'.log.connected = g.log.connected) : Renewed cfg g' stale w v :=
  ⟨hf ▸ h.rest, hm ▸ h.members, hc ▸ h.socket, h.buffer⟩

/-! ### Two runs -/

section
variable {c : Conf Tid World Act Resp (Except Exn Unit)} {s : List (Tid × Env)} {tr : List (Tid × Ev Resp)}

/-- What an earlier run has left in the buffer is still there. -/
def NeverEmptied (c : Conf Tid World Act Resp (Except Exn Unit)) (s : List (Tid × Env)) : Prop :=
  ∀ s₁ tr₁ c₁, s₁ <+: s → execute World.step s₁ c = some (tr₁, c₁) → c₁.world.ws.partial_buf ≠ []

theorem never_emptied_nil (h : c.world.ws.partial_buf ≠ []) : NeverEmptied c [] := by
  intro s₁ tr₁ c₁ hs₁ h₁
  obtain rfl := List.prefix_nil.1 hs₁
  cases h₁
  exact h

theorem NeverEmptied.snoc {x : Tid × Env} {c' : Conf Tid World Act Resp (Except Exn Unit)} (h : NeverEmptied c s)
    (hx : execute World.step (s ++ [x]) c = some (tr, c')) (hne : c'.world.ws.partial_buf ≠ []) :
    NeverEmptied c (s ++ [x]) := by
  intro s₁ tr₁ c₁ hs₁ h₁
  rcases List.prefix_concat_iff.1 hs₁ with rfl | hs₁
  · rw [hx] at h₁
    cases h₁
    exact hne
  · exact h s₁ tr₁ c₁ hs₁ h₁

theorem own_members_snoc {t : Tid} {a : Act} {r : Resp a} (h : OwnMembers cfg tr)
    (ha : t = .main → (RunLog.of cfg (thread .main tr)).Allows a) : OwnMembers cfg (tr ++ [(t, ⟨a, r⟩)]) := by
  intro pre b q post heq
  rw [thread_snoc] at heq
  by_cases ht : t = .main
  · rw [if_pos ht] at heq
    rcases List.eq_nil_or_concat' post with rfl | ⟨post, e, rfl⟩
    · obtain ⟨rfl, he⟩ := List.append_inj' heq rfl
      cases List.singleton_inj.1 he
      exact ha ht
    · rw [← List.cons_append, ← List.append_assoc] at heq
      obtain ⟨heq, -⟩ := List.append_inj' heq rfl
      exact h pre b q post heq
  · rw [if_neg ht] at heq
    exact h pre b q post heq

/-- What holds along a run and the run of the renewed client. -/
structure SecondInv (cfg : Config) (c : Conf Tid World Act Resp (Except Exn Unit)) (s : List (Tid × Env))
    (tr : List (Tid × Ev Resp)) (w v : World) (g : Tid → RunState) : Prop where
  worlds : ∃ stale, Renewed cfg (g .main) stale w v ∧ (stale ≠ [] → NeverEmptied c s)
  log : (g .main).log = RunLog.of cfg (thread .main tr)
  own : OwnMembers cfg tr

def second_monitor (cfg : Config) (stale : Members) : Tid → Monitor Act Resp RunState
  | .main => run_monitor cfg stale
  | _ => .det (fun _ a => a.foreign) fun g _ _ => g

theorem second_step {stale : Members} {g : Tid → RunState} {t : Tid} {env : Env} {a : Act} {r : Resp a}
    {c' : Conf Tid World Act Resp (Except Exn Unit)}
    (hx : execute World.step (s ++ [(t, env)]) c = some (tr ++ [(t, ⟨a, r⟩)], c'))
    (hmembers : MembersNew cfg stale (tr ++ [(t, ⟨a, r⟩)])) (hbuffer : OwnBuffer c (s ++ [(t, env)]))
    (h : SecondInv cfg c s tr w v g) (hok : (second_monitor cfg stale t).ok (g t) a)
    (hs : w.step t env a = some (r, c'.world)) :
    ∃ v' g', v.step t env a = some (r, v') ∧ (second_monitor cfg stale t).next (g t) a r g' ∧
      SecondInv cfg c (s ++ [(t, env)]) (tr ++ [(t, ⟨a, r⟩)]) c'.world v' (Function.update g t g') := by
  obtain ⟨⟨front, hrel, hfront⟩, hlog, hown⟩ := h
  have hmessage : ∀ raw, (⟨a, r⟩ : Ev Resp) = ⟨.recv_binary, (.Message, raw)⟩ → front = [] := by
    intro raw he
    by_contra hne
    obtain ⟨s₁, tr₁, c₁, hs₁, h₁, hempty⟩ := hbuffer s (t, env) tr t raw c' List.prefix_rfl (by rw [hx, he])
    exact hfront hne s₁ tr₁ c₁ hs₁ h₁ hempty
  have hnever : ∀ g' v' stale', (stale' = front ∨ stale' = []) → Renewed cfg g' stale' c'.world v' →
      stale' ≠ [] → NeverEmptied c (s ++ [(t, env)]) := by
    rintro g' v' stale' (rfl | rfl) hrel' hne
    · refine (hfront hne).snoc hx ?_
      rw [hrel'.buffer]
      simp [hne]
    · exact absurd rfl hne
  by_cases ht : t = .main
  · subst ht
    obtain ⟨hallows, hagrees⟩ : (g .main).log.Allows a ∧ (g .main).Agrees cfg a := hok
    have hreads : Reads cfg (g .main) a := by
      refine ⟨?_, hagrees⟩
      rintro (rfl | ⟨f, rfl⟩ | rfl) <;> exact hallows
    obtain ⟨v', stale', hv, hanswers, hstale, hrel'⟩ := renewed_step hrel hreads hs hmessage
    have hunstale : Unstale cfg stale (g .main).log a r := by
      rw [hlog]
      exact hmembers _ a r [] (by rw [thread_snoc, if_pos rfl])
    refine ⟨v', (g .main).next cfg a r, hv, ⟨⟨hanswers, hunstale⟩, rfl⟩, ⟨stale', ?_, ?_⟩, ?_, ?_⟩
    · rwa [Function.update_self]
    · exact hnever _ v' stale' hstale hrel'
    · rw [Function.update_self, thread_snoc, if_pos rfl]
      show (g .main).log.next cfg a r = _
      rw [hlog, RunLog.of, RunLog.of, Monitor.after, Monitor.after, List.foldl_append]
      rfl
    · exact own_members_snoc hown fun _ => hlog ▸ hallows
  · have hforeign : a.foreign = true := by
      cases t with
      | main => exact absurd rfl ht
      | poller => exact hok
      | app n => exact hok
    obtain ⟨v', stale', hv, -, hstale, hrel'⟩ := renewed_step hrel (reads_of_foreign hforeign) hs hmessage
    obtain ⟨hm, hf, hc⟩ := @next_foreign cfg (g .main) _ hforeign r
    have hmain : Function.update g t (g t) .main = g .main := by rw [Function.update_eq_self]
    refine ⟨v', g t, hv, ?_, ⟨stale', ?_, ?_⟩, ?_, ?_⟩
    · cases t with
      | main => exact absurd rfl ht
      | poller => rfl
      | app n => rfl
    · rw [hmain]
      exact hrel'.congr hm.symm hf.symm hc.symm
    · exact hnever _ v' stale' hstale hrel'
    · rw [hmain, thread_snoc, if_neg ht, hlog]
    · exact own_members_snoc hown fun h => absurd h ht

end

section
variable {calls : Nat → List ApiCall} {c₀ : Conf Tid World Act Resp (Except Exn Unit)}

theorem second_threads {tr₀ : List (Tid × Ev Resp)} (h₀ : Lifetime cfg calls tr₀ c₀) (t : Tid) :
    wp (second_monitor cfg c₀.world.members t) ((again cfg c₀).prog t) (fun _ _ => True)
      { members := c₀.world.members } := by
  have hforeign : ∀ {α : Type} {p : Code α}, Does (·.foreign) p → ∀ g,
      wp (.det (fun _ a => a.foreign) fun (g : RunState) _ _ => g) p (fun _ _ => True) g := by
    intro α p hp g
    have hkeeps : Keeps (.det (fun _ a => a.foreign) fun (g : RunState) _ _ => g) (fun _ => True) p :=
      hp.keeps fun a ha _ _ => ⟨ha, fun _ _ _ => trivial⟩
    exact wp_mono (hkeeps g trivial) fun _ _ _ => trivial
  cases t with
  | main => exact run_run fun hoff => h₀.stream_info_empty hoff
  | poller => exact hforeign does_poller _
  | app n => exact hforeign ((h₀.does_app n).keeps fun a ha => does_perform (Act.foreign_of_aside ha)) _

theorem renewed_init (cfg : Config) (c₀ : Conf Tid World Act Resp (Except Exn Unit)) :
    Renewed cfg { members := c₀.world.members } c₀.world.ws.partial_buf (again cfg c₀).world
      (again cfg (renewed cfg c₀)).world := by
  refine ⟨?_, rfl, fun h => absurd h Bool.false_ne_true, (List.append_nil _).symm⟩
  have hever : (!cfg.ws_only && c₀.world.ws_ever_connected) =
      if cfg.ws_only = true then false else c₀.world.ws_ever_connected := by
    cases cfg.ws_only <;> rfl
  simp only [again, renewed, hever]

/-- A run that meets the conditions has the trace of the same run of the renewed client, and reads nothing else
that an earlier run has left. -/
theorem runs_as_renewed {tr₀ tr : List (Tid × Ev Resp)} {sched : List (Tid × Env)}
    {c : Conf Tid World Act Resp (Except Exn Unit)} (h₀ : Lifetime cfg calls tr₀ c₀)
    (h : execute World.step sched (again cfg c₀) = some (tr, c)) (hmembers : MembersNew cfg c₀.world.members tr)
    (hbuffer : OwnBuffer (again cfg c₀) sched) :
    (∃ c', execute World.step sched (again cfg (renewed cfg c₀)) = some (tr, c')) ∧ OwnMembers cfg tr := by
  have hcut : ∀ s l tr tr', MembersNew cfg c₀.world.members (tr ++ tr') ∧ OwnBuffer (again cfg c₀) (s ++ l) →
      MembersNew cfg c₀.world.members tr ∧ OwnBuffer (again cfg c₀) s := by
    rintro s l tr tr' ⟨hm, hb⟩
    refine ⟨fun pre a r post heq => hm pre a r (post ++ thread .main tr') ?_, fun s₁ x tr₁ t raw c' hs₁ => ?_⟩
    · rw [thread_append, heq, List.append_assoc]
      rfl
    · exact hb s₁ x tr₁ t raw c' (hs₁.trans (List.prefix_append s l))
  have hloop : ∀ s x tr c' v g, execute World.step (s ++ [x]) (again cfg c₀) = some (tr, c') →
      SecondInv cfg (again cfg c₀) s tr c'.world v g → SecondInv cfg (again cfg c₀) (s ++ [x]) tr c'.world v g := by
    rintro s x tr c' v g hx ⟨⟨front, hrel, hfront⟩, hlog, hown⟩
    refine ⟨⟨front, hrel, fun hne => (hfront hne).snoc hx ?_⟩, hlog, hown⟩
    rw [hrel.buffer]
    simp [hne]
  obtain ⟨v', g, hv, hI, -⟩ := execute_follows (v := (again cfg (renewed cfg c₀)).world)
    (C := fun s tr => MembersNew cfg c₀.world.members tr ∧ OwnBuffer (again cfg c₀) s)
    (I := SecondInv cfg (again cfg c₀)) (M := second_monitor cfg c₀.world.members) hcut hloop
    (fun s t o tr w v g a r c' hx hC hI hok hs => second_step hx hC.1 hC.2 hI hok hs) h ⟨hmembers, hbuffer⟩
    ⟨⟨_, renewed_init cfg c₀, never_emptied_nil⟩, rfl, by simp [OwnMembers]⟩ (second_threads h₀)
  exact ⟨⟨_, hv⟩, hI.own⟩

end

end TtLive
