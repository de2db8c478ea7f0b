import TtLive.LiveEndReport
import TtLive.RenewedClient

/-!
# A second run of the same client

`Isolated` says that a run behaves as the run of a new client: it takes the same steps when everything outside
answers alike, it reads the flags and the room id after it has set them, a `LiveEnd` ends it, its `Connect`
carries its own room info, and in WebSocket-only mode its first refused handshake leads to polling. Four survivors of
an earlier run can break this: a message id in the window, the two members, and bytes in the reassembly buffer.
`second_run_isolated` shows that nothing else can, and `second_run_not_isolated` a client where three of them do.
-/

namespace TtLive
open Prog Threads

def Act.reads : Act → Option Member
  | .load f => some (.flag f)
  | .room_id => some .room_id
  | _ => none

def Act.sets : Act → Option Member
  | .store f _ => some (.flag f)
  | .set_room_id _ => some .room_id
  | _ => none

/-- Marks and connects, of which something follows every failed handshake. -/
def Act.stirs : Act → Bool
  | .mark _ | .connect _ _ _ => true
  | _ => false

/-- The stream of the `Connect` event is what this run has fetched, or empty. -/
def OwnStream (cfg : Config) (tr : List (Tid × Ev Resp)) : Prop :=
  ∀ pre ev post, thread .main tr = pre ++ ⟨.mark (.emit ev), ()⟩ :: post → ev.type = .Connect →
    ev.stream = (RunLog.of cfg pre).fetched.getD {}

/-- In WebSocket-only mode the first thing after a failed handshake is the poll loop, at the batch fetched last,
when this run has not connected. -/
def FallsBack (cfg : Config) (tr : List (Tid × Ev Resp)) : Prop :=
  cfg.ws_only = true → ∀ pre mid a r post,
    thread .main tr = pre ++ ⟨.mark (.session .HandshakeFailed), ()⟩ :: (mid ++ ⟨a, r⟩ :: post) →
    (RunLog.of cfg pre).connected = false → (∀ e ∈ mid, e.1.stirs = false) → a.stirs = true →
    a = .mark (.poll_loop (RunLog.of cfg pre).batch)

/-- The run of `sched`, with trace `tr`, of the client `c₀` behaves as that of a new client. -/
structure Isolated (cfg : Config) (c₀ : Conf Tid World Act Resp (Except Exn Unit)) (sched : List (Tid × Env))
    (tr : List (Tid × Ev Resp)) : Prop where
  as_renewed : ∃ c, execute World.step sched (again cfg (renewed cfg c₀)) = some (tr, c)
  own : ∀ pre e post m, thread .main tr = pre ++ e :: post → e.1.reads = some m → ∃ e' ∈ pre, e'.1.sets = some m
  live_end : LiveEndStops cfg tr
  stream : OwnStream cfg tr
  fallback : FallsBack cfg tr

variable {cfg : Config} {tr : List (Tid × Ev Resp)}

/-! ### Reading the log -/

namespace RunLog
variable {g : RunLog}

theorem of_append (pre post : List (Ev Resp)) : of cfg (pre ++ post) = Monitor.after (next cfg) (of cfg pre) post :=
  List.foldl_append ..

theorem next_own {a : Act} {r : Resp a} {m : Member} (h : (g.next cfg a r).own m = true) :
    g.own m = true ∨ a.sets = some m := by
  cases a with
  | store f b =>
    change Function.update g.own (.flag f) true m = true at h
    by_cases hm : m = .flag f
    · exact .inr (congrArg some hm.symm)
    · rw [Function.update_of_ne hm] at h
      exact .inl h
  | set_room_id id =>
    change Function.update g.own .room_id true m = true at h
    by_cases hm : m = .room_id
    · exact .inr (congrArg some hm.symm)
    · rw [Function.update_of_ne hm] at h
      exact .inl h
  | net_end op =>
    cases op with
    | get page => cases page <;> exact .inl h
    | _ => exact .inl h
  | mark k =>
    cases k with
    | fetched x => cases x <;> exact .inl h
    | session x => cases x <;> exact .inl h
    | _ => exact .inl h
  | connect => cases r <;> exact .inl h
  | _ => exact .inl h

theorem after_own {l : List (Ev Resp)} {m : Member} (h : (Monitor.after (next cfg) g l).own m = true) :
    g.own m = true ∨ ∃ e ∈ l, e.1.sets = some m := by
  induction l generalizing g with
  | nil => exact .inl h
  | cons e l ih =>
    rcases ih h with hown | ⟨e', he', hsets⟩
    · rcases next_own hown with hown | hsets
      · exact .inl hown
      · exact .inr ⟨e, List.mem_cons_self .., hsets⟩
    · exact .inr ⟨e', List.mem_cons_of_mem e he', hsets⟩

/-- Only marks and connects change what follows a refusal. -/
theorem next_of_not_stirs {a : Act} (h : a.stirs = false) (r : Resp a) :
    (g.next cfg a r).refused = g.refused ∧ (g.next cfg a r).batch = g.batch := by
  cases a with
  | net_end op =>
    cases op with
    | get page => cases page <;> exact ⟨rfl, rfl⟩
    | _ => exact ⟨rfl, rfl⟩
  | mark => cases h
  | connect => cases h
  | _ => exact ⟨rfl, rfl⟩

theorem after_of_not_stirs {l : List (Ev Resp)} (h : ∀ e ∈ l, e.1.stirs = false) :
    (Monitor.after (next cfg) g l).refused = g.refused ∧ (Monitor.after (next cfg) g l).batch = g.batch := by
  induction l generalizing g with
  | nil => exact ⟨rfl, rfl⟩
  | cons e l ih =>
    obtain ⟨hrefused, hbatch⟩ := ih (g := g.next cfg e.1 e.2) fun e' he' => h e' (List.mem_cons_of_mem e he')
    obtain ⟨hr, hb⟩ := @next_of_not_stirs cfg g e.1 (h e (List.mem_cons_self ..)) e.2
    exact ⟨hrefused.trans hr, hbatch.trans hb⟩

end RunLog

theorem OwnMembers.stream (h : OwnMembers cfg tr) : OwnStream cfg tr := fun pre ev post heq htype =>
  (h pre (.mark (.emit ev)) () post heq).2 htype

theorem OwnMembers.own (h : OwnMembers cfg tr) {pre post : List (Ev Resp)} {e : Ev Resp} {m : Member}
    (heq : thread .main tr = pre ++ e :: post) (hreads : e.1.reads = some m) : ∃ e' ∈ pre, e'.1.sets = some m := by
  obtain ⟨a, r⟩ := e
  have hallows := h pre a r post heq
  have hown : (RunLog.of cfg pre).own m = true := by
    cases a with
    | load f => cases hreads; exact hallows
    | room_id => cases hreads; exact hallows
    | _ => cases hreads
  exact (RunLog.after_own hown).resolve_left Bool.false_ne_true

theorem OwnMembers.fallback (h : OwnMembers cfg tr) : FallsBack cfg tr := by
  intro honly pre mid a r post heq hconnected hmid hstirs
  have hallows : (RunLog.of cfg (pre ++ ⟨.mark (.session .HandshakeFailed), ()⟩ :: mid)).Allows a :=
    h _ a r post (by rw [heq, List.append_assoc]; rfl)
  obtain ⟨hrefused, hbatch⟩ := @RunLog.after_of_not_stirs cfg
    ((RunLog.of cfg pre).next cfg (.mark (.session .HandshakeFailed)) ()) mid hmid
  have hopen : (RunLog.of cfg (pre ++ ⟨.mark (.session .HandshakeFailed), ()⟩ :: mid)).refused = true := by
    rw [RunLog.of_append]
    refine hrefused.trans ?_
    show (cfg.ws_only && !(RunLog.of cfg pre).connected) = true
    rw [honly, hconnected]
    rfl
  have hno : ∀ b, (RunLog.of cfg (pre ++ ⟨.mark (.session .HandshakeFailed), ()⟩ :: mid)).refused = b → b = true :=
    fun b hb => hb.symm.trans hopen
  cases a with
  | connect => exact absurd (hno _ hallows) (by decide)
  | mark k =>
    cases k with
    | poll_loop initial =>
      rw [hallows hopen, RunLog.of_append]
      exact congrArg (fun b => Act.mark (.poll_loop b)) hbatch
    | emit ev => exact absurd (hno _ hallows.1) (by decide)
    | _ => exact absurd (hno _ hallows) (by decide)
  | _ => cases hstirs

/-- A run after any number of runs of the same client is isolated from them, if no `LiveEnd` message is looked up
while its id is in the window, unless this run has already reported one; the room info is empty when the run
starts, or the run's request of it succeeds; in WebSocket-only mode no handshake fails before the run has
connected, unless no earlier run has; and no message is received before the reassembly buffer has been empty. -/
theorem second_run_isolated {calls : Nat → List ApiCall} {tr₀ : List (Tid × Ev Resp)}
    {c₀ c : Conf Tid World Act Resp (Except Exn Unit)} {sched : List (Tid × Env)} (h₀ : Lifetime cfg calls tr₀ c₀)
    (h : execute World.step sched (again cfg c₀) = some (tr, c)) (hlive : LiveEndNew cfg tr)
    (hmembers : MembersNew cfg c₀.world.members tr) (hbuffer : OwnBuffer (again cfg c₀) sched) :
    Isolated cfg c₀ sched tr := by
  have hrun : Run World.sem (again cfg c₀) tr c := run_execute_of (S := fun _ => True) (I := fun _ => True)
    (fun t w o a r w' _ _ hs => ⟨World.sem_of_step t w o a r w' hs, trivial⟩) (fun _ _ => trivial) trivial h
  obtain ⟨hsame, hown⟩ := runs_as_renewed h₀ h hmembers hbuffer
  exact ⟨hsame, fun _ _ _ _ => hown.own, live_end_stops h₀ hrun hlive, hown.stream, hown.fallback⟩

/-! ### Two runs of a small client -/

/-- A batch with one `LiveEnd` message, serialised and parsed. -/
def live_end_batch (id : UInt8) : Bytes × ProtoMessageFetchResult :=
  ([0x0a, 0x1d, 0x0a, 0x15] ++ lit "WebcastControlMessage" ++ [0x12, 0x02, 0x10, 0x03, 0x18, id],
    { messages := [{ method := lit "WebcastControlMessage", payload := [0x10, 0x03], msg_id := id.toNat }] })

def rerun_config : Config :=
  { sample_config { room_id_override := 7, fetch_live_check := false } with
    codec := { sample_codec with
      fetch_result := fun b => [live_end_batch 1, live_end_batch 2, sample_batch [] (lit "A")].lookup b
      push_frame := fun b => [sample_frame (live_end_batch 1).1, sample_frame (live_end_batch 2).1].lookup b
      control := fun b => if b = [0x10, 0x03] then some { action := 3 } else none }
    parse_room_info := fun b => .ok { rtmp_pull_url := b } }

/-- `id` is that of a `LiveEnd` message on the socket. -/
def rerun_env (room_info : Except Exn HttpResponse) (im_fetch : Bytes) (handshake : Handshake) (id : UInt8) : Env :=
  let env := sample_env im_fetch (.chunk (sample_frame (live_end_batch id).1).1 (some ⟨{ binary := true }, 0⟩))
  { env with
    net := fun op => match op with
      | .get .room_info _ _ => room_info
      | op => env.net op
    handshake := handshake }

/-- The first run: room info, an empty batch, and a `LiveEnd` with id 1 over the socket. -/
def first_schedule : List (Tid × Env) :=
  List.replicate 67 (.main, rerun_env (.ok { status := 200, body := lit "old" }) (sample_batch [] (lit "A")).1 .ok 1)

theorem first_runs : (execute World.step first_schedule (start rerun_config (fun _ => []) {})).isSome := by
  decide +kernel

def first_run : List (Tid × Ev Resp) × Conf Tid World Act Resp (Except Exn Unit) :=
  (execute World.step first_schedule (start rerun_config (fun _ => []) {})).get first_runs

theorem first_lifetime : Lifetime rerun_config (fun _ => []) first_run.1 first_run.2 :=
  .first (run_of_isSome World.sem_of_step first_runs)

/-- The second run: the same with other room info and the id 2. -/
def second_schedule : List (Tid × Env) :=
  List.replicate 67 (.main, rerun_env (.ok { status := 200, body := lit "new" }) (sample_batch [] (lit "A")).1 .ok 2)

theorem second_runs : (execute World.step second_schedule (again rerun_config first_run.2)).isSome := by
  decide +kernel

def second_run : List (Tid × Ev Resp) × Conf Tid World Act Resp (Except Exn Unit) :=
  (execute World.step second_schedule (again rerun_config first_run.2)).get second_runs

theorem second_execution :
    execute World.step second_schedule (again rerun_config first_run.2) = some (second_run.1, second_run.2) := by
  rw [Prod.mk.eta]
  exact (Option.some_get second_runs).symm

/-- An answer that shows nothing of an earlier run. -/
def Act.unspoilt (cfg : Config) : (a : Act) → Resp a → Bool
  | .mark_seen _, fresh => fresh
  | .net_end (.get .room_info _ _), r => (room_info_of cfg r).isOk
  | .mark (.session .HandshakeFailed), _ => false
  | _, _ => true

theorem live_end_new_of_all (h : tr.all fun e => e.2.1.unspoilt cfg e.2.2) : LiveEndNew cfg tr := by
  rintro pre t id post rfl -
  have hseen := List.all_eq_true.1 h (t, ⟨.mark_seen id, false⟩) (by simp)
  exact absurd hseen (by simp [Act.unspoilt])

theorem members_new_of_all {stale : Members} (h : tr.all fun e => e.2.1.unspoilt cfg e.2.2) :
    MembersNew cfg stale tr := by
  intro pre a r post heq
  have hmem : (.main, ⟨a, r⟩) ∈ tr := mem_thread.1 (heq ▸ by simp)
  have hall : a.unspoilt cfg r = true := List.all_eq_true.1 h _ hmem
  unfold Unstale
  split
  · exact .inr hall
  · cases hall
  · trivial

theorem own_buffer_of_empty {c : Conf Tid World Act Resp (Except Exn Unit)} (h : c.world.ws.partial_buf = [])
    (sched : List (Tid × Env)) : OwnBuffer c sched :=
  fun _ _ _ _ _ _ _ _ => ⟨[], [], c, List.nil_prefix, rfl, h⟩

/-- The second run is isolated, and the `LiveEnd` has ended it. -/
theorem second_run_ends :
    Isolated rerun_config first_run.2 second_schedule second_run.1 ∧ returned (second_run.2.prog .main) = true := by
  have hall : second_run.1.all fun e => e.2.1.unspoilt rerun_config e.2.2 := by decide +kernel
  have hempty : (again rerun_config first_run.2).world.ws.partial_buf = [] := by decide +kernel
  exact ⟨second_run_isolated first_lifetime second_execution (live_end_new_of_all hall)
    (members_new_of_all hall) (own_buffer_of_empty hempty _), by decide +kernel⟩

/-- Another second run: the room info cannot be fetched, the batch holds the `LiveEnd` with id 1 again, and the
handshake is refused. -/
def refused_schedule : List (Tid × Env) :=
  List.replicate 112 (.main, rerun_env (.error "timeout") (live_end_batch 1).1 (.perform_failed "refused") 1)

theorem refused_runs : (execute World.step refused_schedule (again rerun_config first_run.2)).isSome := by
  decide +kernel

def refused_run : List (Tid × Ev Resp) × Conf Tid World Act Resp (Except Exn Unit) :=
  (execute World.step refused_schedule (again rerun_config first_run.2)).get refused_runs

theorem refused_execution :
    execute World.step refused_schedule (again rerun_config first_run.2) = some (refused_run.1, refused_run.2) := by
  rw [Prod.mk.eta]
  exact (Option.some_get refused_runs).symm

theorem eq_take_cons_drop {α : Type} {l : List α} {n : Nat} {p : α → Bool} (h : (l.drop n).head?.any p = true) :
    ∃ e, p e = true ∧ l = l.take n ++ e :: l.drop (n + 1) := by
  cases hd : l.drop n with
  | nil => rw [hd] at h; cases h
  | cons e rest =>
    rw [hd] at h
    refine ⟨e, h, ?_⟩
    have hrest : l.drop (n + 1) = rest := by rw [← List.tail_drop, hd]; rfl
    rw [hrest, ← hd, List.take_append_drop]

def Act.releases : Act → Bool
  | .unlock .dispatch_mu_ => true
  | _ => false

def Act.refuses : Act → Bool
  | .mark (.session .HandshakeFailed) => true
  | _ => false

def Act.connects_with (info : StreamInfo) : Act → Bool
  | .mark (.emit ev) => ev.type = .Connect ∧ ev.stream = info
  | _ => false

def Act.fetches : Act → Bool
  | .mark (.fetch_once _ _) => true
  | _ => false

theorem eq_of_releases {a : Act} (h : a.releases) : a = .unlock .dispatch_mu_ := by
  cases a with
  | unlock m =>
    cases m with
    | dispatch_mu_ => rfl
    | net_mu_ => cases h
  | _ => cases h

theorem eq_of_refuses {a : Act} (h : a.refuses) : a = .mark (.session .HandshakeFailed) := by
  cases a with
  | mark m =>
    cases m with
    | session r =>
      cases r with
      | HandshakeFailed => rfl
      | _ => cases h
    | _ => cases h
  | _ => cases h

theorem eq_of_connects_with {a : Act} {info : StreamInfo} (h : a.connects_with info) :
    ∃ ev, a = .mark (.emit ev) ∧ ev.type = .Connect ∧ ev.stream = info := by
  cases a with
  | mark m =>
    cases m with
    | emit ev => exact ⟨ev, rfl, of_decide_eq_true h⟩
    | _ => cases h
  | _ => cases h

/-- The `LiveEnd` that the window holds ends nothing. -/
theorem refused_run_goes_on : ¬ LiveEndStops rerun_config refused_run.1 := by
  intro h
  obtain ⟨⟨t, a, x⟩, he, heq⟩ := eq_take_cons_drop (l := refused_run.1) (n := 29)
    (p := fun e => e.1 = .main && e.2.1.releases) (by decide +kernel)
  rw [Bool.and_eq_true, decide_eq_true_eq] at he
  obtain ⟨rfl, hreleases⟩ := he
  obtain rfl := eq_of_releases hreleases
  have hlive : (dispatching (thread .main (refused_run.1.take 29))).any
      (fun msg => (message_event rerun_config msg).type = .LiveEnd) = true := by decide +kernel
  obtain ⟨msg, hmsg, htype⟩ := (Option.any_eq_true _ _).1 hlive
  have hfew := (h _ .main _ heq ⟨msg, hmsg, of_decide_eq_true htype⟩ .main).most .network
  exact absurd hfew (by decide +kernel)

/-- The `Connect` event carries the stream of the first run. -/
theorem refused_run_old_stream : ¬ OwnStream rerun_config refused_run.1 := by
  intro h
  obtain ⟨⟨a, x⟩, he, heq⟩ := eq_take_cons_drop (l := thread .main refused_run.1) (n := 25)
    (p := fun e => e.1.connects_with { rtmp_pull_url := lit "old" }) (by decide +kernel)
  obtain ⟨ev, rfl, htype, hstream⟩ := eq_of_connects_with he
  have hown := h _ ev _ heq htype
  rw [hstream] at hown
  exact absurd hown (by decide +kernel)

/-- After the refused handshake comes another fetch, not the poll loop. -/
theorem refused_run_tries_again : ¬ FallsBack rerun_config refused_run.1 := by
  intro h
  obtain ⟨⟨a, x⟩, he, heq⟩ := eq_take_cons_drop (l := thread .main refused_run.1) (n := 48)
    (p := fun e => e.1.refuses) (by decide +kernel)
  obtain ⟨⟨b, y⟩, hb, hpost⟩ := eq_take_cons_drop (l := (thread .main refused_run.1).drop 49) (n := 36)
    (p := fun e => e.1.fetches) (by decide +kernel)
  obtain rfl := eq_of_refuses he
  rw [hpost] at heq
  have hmid : (((thread .main refused_run.1).drop 49).take 36).all (fun e => !e.1.stirs) = true := by decide +kernel
  have hnext := h (by decide) _ _ b y _ heq (by decide +kernel) fun e hmem => by
    simpa using List.all_eq_true.1 hmid e hmem
  cases b with
  | mark m =>
    cases m with
    | fetch_once => exact absurd (hnext rfl) nofun
    | _ => cases hb
  | _ => cases hb

/-- A second run that is not isolated, in any of the three ways. -/
theorem second_run_not_isolated : ∃ tr₀ c₀ r sched tr c, Lifetime rerun_config (fun _ => []) tr₀ c₀ ∧
    c₀.prog .main = .ret r ∧ execute World.step sched (again rerun_config c₀) = some (tr, c) ∧
    ¬ LiveEndStops rerun_config tr ∧ ¬ OwnStream rerun_config tr ∧ ¬ FallsBack rerun_config tr := by
  obtain ⟨r, hret⟩ := eq_ret_of_returned (p := first_run.2.prog .main) (by decide +kernel)
  exact ⟨_, _, r, refused_schedule, refused_run.1, _, first_lifetime, hret, refused_execution, refused_run_goes_on,
    refused_run_old_stream, refused_run_tries_again⟩

end TtLive
