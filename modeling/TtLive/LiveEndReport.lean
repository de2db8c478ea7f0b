import TtLive.Lifetime
import TtLive.Stopping

/-!
# The live end in a later run

`run` resets `live_ended`, but the window of message ids goes on from the last run: a `LiveEnd` message whose id
it still holds is not dispatched again. When each such message of the run is new, or the run has reported its
end already, the dispatch of a `LiveEnd` ends the run (`live_end_stops`): it is stored before `dispatch_mu_` is
released, and the bound on stopping does the rest.
-/

namespace TtLive
open Prog Threads

variable {cfg : Config} {calls : Nat → List ApiCall}

/-- The message whose dispatch the action begins. -/
def Act.message : Act → Option BaseProtoMessage
  | .mark (.dispatch_message msg) => some msg
  | _ => none

/-- The message that a thread dispatches, or dispatched last. -/
def dispatching (tr : List (Ev Resp)) : Option BaseProtoMessage := (tr.filterMap (·.1.message)).getLast?

def ReportsLiveEnd (cfg : Config) (tr : List (Ev Resp)) : Prop :=
  ∃ msg, dispatching tr = some msg ∧ (message_event cfg msg).type = .LiveEnd

/-- Once a `LiveEnd` message has been dispatched, every thread leaves its loops. -/
def LiveEndStops (cfg : Config) (tr : List (Tid × Ev Resp)) : Prop :=
  ∀ pre t post, tr = pre ++ (t, ⟨.unlock .dispatch_mu_, ()⟩) :: post → ReportsLiveEnd cfg (thread t pre) →
    ∀ u, WindsDown cfg .live_end (thread u post)

/-- A `LiveEnd` message whose id is found in the window is one that this run has reported. -/
def LiveEndNew (cfg : Config) (tr : List (Tid × Ev Resp)) : Prop :=
  ∀ pre t id post, tr = pre ++ (t, ⟨.mark_seen id, false⟩) :: post → ReportsLiveEnd cfg (thread t pre) →
    StopKind.live_end.Stopped pre

/-- `begun`: the flags of this run have been reset; `settled`: the live end is stored, if the message is one. -/
structure LiveLog where
  main : Bool
  begun : Bool := false
  message : Option BaseProtoMessage := none
  settled : Bool := false

namespace LiveLog

def next (g : LiveLog) : (a : Act) → Resp a → LiveLog
  | .mark (.dispatch_message msg), _ => { g with message := some msg, settled := false }
  | .mark_seen _, false => { g with settled := true }
  | .store .live_ended true, _ => { g with settled := true }
  | .store .live_ended false, _ => { g with begun := true }
  | .spawned, _ => { g with begun := true }
  | _, _ => g

def Allows (cfg : Config) (g : LiveLog) : Act → Prop
  | .store .live_ended false => g.main = true
  | .store .live_ended true | .spawn _ => g.begun = true
  | .unlock .dispatch_mu_ => ∀ msg, g.message = some msg → (message_event cfg msg).type = .LiveEnd → g.settled = true
  | _ => True

end LiveLog

abbrev live_monitor (cfg : Config) : Monitor Act Resp LiveLog := .det (LiveLog.Allows cfg) LiveLog.next

/-- The actions that have nothing to do with the live end. -/
def Act.unlive : Act → Bool
  | .mark (.dispatch_message _) | .mark_seen _ | .store .live_ended _ => false
  | .spawn _ | .spawned | .unlock .dispatch_mu_ => false
  | _ => true

section
variable {I : LiveLog → Prop}

theorem live_keeps {a : Act} (h : a.unlive) : Keeps (live_monitor cfg) I (call a) := by
  refine fun g hg => ⟨?_, ?_⟩
  · cases a with
    | store f b => cases f <;> trivial
    | unlock m => cases m <;> trivial
    | _ => trivial
  · rintro r _ rfl
    cases a with
    | store f b => cases f <;> first | exact hg | cases h
    | mark m => cases m <;> first | exact hg | cases h
    | _ => first | exact hg | cases h

theorem live_calm (a : Act) (h : a.calm) : Keeps (live_monitor cfg) I (call a) := by
  refine live_keeps ?_
  cases a with
  | store f b => cases f <;> first | rfl | cases h
  | _ => first | rfl | cases h

theorem live_net (op : NetOp) : Keeps (live_monitor cfg) I (net op) :=
  (live_keeps rfl).bind fun _ => live_keeps rfl

theorem live_invoke (c : Callee) : Keeps (live_monitor cfg) I (invoke (api cfg) c) :=
  keeps_invoke (still_of_calm live_calm) (fun _ _ _ _ => live_net _) c (live_keeps rfl) (live_keeps rfl)

theorem live_sink (kind data : Bytes) : Keeps (live_monitor cfg) I (sink cfg kind data) :=
  .ite (live_invoke _) (keeps_pure _)

theorem live_emit (ev : Event) : Keeps (live_monitor cfg) I (emit cfg ev) :=
  keeps_emit (live_keeps rfl) fun _ => live_invoke _

theorem live_mark (m : Mark) (h : m.plain) : Keeps (live_monitor cfg) I (mark m) :=
  live_keeps (by cases m <;> first | rfl | cases h)

theorem live_fetch_once (cursor internal_ext : Bytes) :
    Keeps (live_monitor cfg) I (fetch_once cfg cursor internal_ext) :=
  keeps_fetch_once (calm_marks live_mark) (live_keeps rfl) (live_keeps rfl)
    (keeps_fetch_request_of (still_of_calm live_calm) live_net live_sink)

theorem live_open_session (initial : ProtoMessageFetchResult) :
    Keeps (live_monitor cfg) I (open_session initial).run :=
  keeps_open_session (live_keeps rfl) (live_keeps rfl) (keeps_session_url_of (still_of_calm live_calm) live_net)
    fun _ _ _ => live_keeps rfl

end

/-- The dispatch of a message: a `LiveEnd` that is new is stored before the mutex is released. -/
theorem live_dispatch_message (msg : BaseProtoMessage) :
    Keeps (live_monitor cfg) (·.begun = true) (dispatch_message cfg msg) := by
  intro g hg
  refine wp_perform_bind.2 ⟨trivial, ?_⟩
  rintro - _ rfl
  refine wp_bind_keeps (live_keeps rfl) fun _ => ?_
  have hunlock : ∀ (b : Bool) (g' : LiveLog), g'.begun = true ∧ g'.message = some msg ∧
      ((message_event cfg msg).type = .LiveEnd → g'.settled = true) →
      wp (live_monitor cfg) (do call (.unlock .dispatch_mu_); return b) (fun _ g' => g'.begun = true) g' := by
    rintro b g' ⟨hb, hm, hs⟩
    refine wp_perform_bind.2 ⟨fun msg' hm' => Option.some.inj (hm.symm.trans hm') ▸ hs, ?_⟩
    rintro - _ rfl
    exact hb
  refine wp_bind.2 (wp_mono (Q := fun _ g' => g'.begun = true ∧ g'.message = some msg ∧
      ((message_event cfg msg).type = .LiveEnd → g'.settled = true)) ?_ hunlock)
  have hrest : ∀ g', g'.begun = true → g'.message = some msg → wp (live_monitor cfg) (do
      sink cfg (lit "msg:" ++ msg.method) msg.payload
      emit cfg (message_event cfg msg)
      if (message_event cfg msg).type = .LiveEnd then
        store .live_ended true
        return true
      else return false) (fun _ g' => g'.begun = true ∧ g'.message = some msg ∧
        ((message_event cfg msg).type = .LiveEnd → g'.settled = true)) g' := by
    intro g' hb hm
    refine wp_bind_keeps (live_sink _ _) fun _ => wp_bind_keeps (live_emit _) fun _ => ?_
    by_cases hlive : (message_event cfg msg).type = .LiveEnd
    · rw [if_pos hlive]
      refine wp_perform_bind.2 ⟨hb, ?_⟩
      rintro - _ rfl
      exact ⟨hb, hm, fun _ => rfl⟩
    · rw [if_neg hlive]
      exact ⟨hb, hm, fun h => absurd h hlive⟩
  refine wp_bind.2 ?_
  by_cases hid : msg.msg_id = 0
  · rw [if_pos hid]
    exact hrest _ hg rfl
  · rw [if_neg hid]
    refine ⟨trivial, ?_⟩
    rintro fresh _ rfl
    cases fresh with
    | false => exact ⟨hg, rfl, fun _ => rfl⟩
    | true => exact hrest _ hg rfl

theorem live_poll_loop (initial : ProtoMessageFetchResult) :
    Keeps (live_monitor cfg) (·.begun = true) (poll_loop cfg initial) :=
  keeps_poll_loop live_calm live_dispatch_message live_fetch_once (calm_marks live_mark) initial

theorem live_plain {I : LiveLog → Prop} (a : Act) (h : a.plain) : Keeps (live_monitor cfg) I (call a) := by
  refine live_keeps ?_
  cases a with
  | store f b => cases f <;> first | rfl | cases h
  | _ => first | rfl | cases h

theorem live_stream_events (initial : ProtoMessageFetchResult) :
    Keeps (live_monitor cfg) (·.begun = true) (stream_events cfg initial) :=
  keeps_stream_events (still_of_calm live_calm) (live_keeps rfl) live_dispatch_message
    (keeps_transport (still_of_calm live_calm) (keeps_run_websocket_with_reconnect live_plain live_dispatch_message (live_keeps rfl)
      (fun _ => live_sink _ _) live_mark live_open_session live_fetch_once) live_poll_loop
      (fun initial g hg => ⟨hg, by rintro _ _ rfl; exact hg⟩) (live_keeps rfl))
    (fun _ _ => live_emit _) (live_emit _) initial

theorem live_run : wp (live_monitor cfg) (run cfg) (fun _ _ => True) { main := true } := by
  refine wp_bind_keeps (live_keeps rfl) fun _ => wp_bind_keeps (live_keeps rfl) fun _ => ?_
  refine wp_perform_bind.2 ⟨rfl, ?_⟩
  rintro - _ rfl
  have hset : Keeps (live_monitor cfg) (·.begun = true) (set_up cfg).run :=
    keeps_set_up (still_of_calm live_calm) (fun _ _ _ _ => live_net _) (fun _ _ => live_net _) (fun _ => live_keeps rfl)
      fun _ => live_keeps rfl
  refine wp_bind.2 (wp_mono (hset _ rfl) fun r g₁ h₁ => ?_)
  cases r with
  | error e => trivial
  | ok _ =>
    refine wp_bind.2 (wp_mono (live_fetch_once (I := (·.begun = true)) [] [] g₁ h₁) fun r g₂ h₂ => ?_)
    cases r with
    | error e => trivial
    | ok initial => exact wp_bind.2 (wp_mono (live_stream_events initial g₂ h₂) fun _ _ _ => trivial)

theorem live_poller : wp (live_monitor cfg) (poller cfg) (fun _ _ => True) { main := false } := by
  refine wp_perform_bind.2 ⟨trivial, ?_⟩
  rintro initial _ rfl
  refine wp_bind.2 (wp_mono (live_poll_loop initial _ rfl) fun _ g₁ h₁ => ?_)
  exact wp_bind_keeps (live_keeps rfl) fun _ => trivial

/-- An application thread does nothing that the log sees. -/
theorem live_aside {I : LiveLog → Prop} (a : Act) (h : a.aside) : Keeps (live_monitor cfg) I (call a) := by
  cases a with
  | net_begin op => exact live_keeps rfl
  | net_end op => exact live_keeps rfl
  | _ => exact still_of_calm live_calm _ h

theorem live_threads {tr : List (Tid × Ev Resp)} {c : Conf Tid World Act Resp (Except Exn Unit)}
    (h : Lifetime cfg calls tr c) (t : Tid) :
    wp (live_monitor cfg) ((again cfg c).prog t) (fun _ _ => True) { main := t = .main } := by
  cases t with
  | main => exact live_run
  | poller => exact live_poller
  | app n => exact wp_mono ((h.does_app n).keeps (I := fun _ => True) live_aside _ trivial) fun _ _ _ => trivial

theorem StopKind.Stopped.mono {k : StopKind} {tr : List (Tid × Ev Resp)} (h : k.Stopped tr)
    (l : List (Tid × Ev Resp)) : k.Stopped (tr ++ l) := by
  obtain ⟨before, after, t, rfl, hmem⟩ := h
  exact ⟨before, after ++ l, t, by simp, by simp [hmem]⟩

/-- What holds along a run that meets the condition. -/
structure LiveInv (cfg : Config) (tr : List (Tid × Ev Resp)) (w : World) (g : Tid → LiveLog) : Prop where
  main : ∀ t, (g t).main = true ↔ t = .main
  message : ∀ t, (g t).message = dispatching (thread t tr)
  begun : ∀ t, (g t).begun = true → ⟨.main, ⟨.store .live_ended false, ()⟩⟩ ∈ tr
  spawned : w.spawned ≠ none → ⟨.main, ⟨.store .live_ended false, ()⟩⟩ ∈ tr
  settled : ∀ t, (g t).settled = true → ReportsLiveEnd cfg (thread t tr) → StopKind.live_end.Stopped tr
  stops : ∀ pre t post, tr = pre ++ (t, ⟨.unlock .dispatch_mu_, ()⟩) :: post → ReportsLiveEnd cfg (thread t pre) →
    StopKind.live_end.Stopped pre

theorem dispatching_snoc (tr : List (Ev Resp)) (e : Ev Resp) :
    dispatching (tr ++ [e]) = e.1.message.or (dispatching tr) := by
  rw [dispatching, List.filterMap_append]
  cases h : e.1.message <;> simp [h, dispatching]

namespace LiveLog
variable {g : LiveLog} {a : Act} {r : Resp a}

theorem next_main : (g.next a r).main = g.main := by
  unfold next
  split <;> rfl

theorem next_message : (g.next a r).message = a.message.or g.message := by
  cases a with
  | mark m => cases m <;> rfl
  | mark_seen id => cases r <;> rfl
  | store f b => cases f <;> cases b <;> rfl
  | _ => rfl

theorem next_begun (h : (g.next a r).begun = true) : g.begun = true ∨ a = .store .live_ended false ∨ a = .spawned := by
  cases a with
  | mark m => cases m <;> exact .inl h
  | mark_seen id => cases r <;> exact .inl h
  | store f b => cases f <;> cases b <;> first | exact .inl h | exact .inr (.inl rfl)
  | spawned => exact .inr (.inr rfl)
  | _ => exact .inl h

theorem next_settled (h : (g.next a r).settled = true) : g.settled = true ∧ a.message = none ∨
    (∃ id, (⟨a, r⟩ : Ev Resp) = ⟨.mark_seen id, false⟩) ∨ a = .store .live_ended true := by
  cases a with
  | mark m => cases m <;> first | exact .inl ⟨h, rfl⟩ | cases h
  | mark_seen id => cases r <;> first | exact .inl ⟨h, rfl⟩ | exact .inr (.inl ⟨id, rfl⟩)
  | store f b => cases f <;> cases b <;> first | exact .inl ⟨h, rfl⟩ | exact .inr (.inr rfl)
  | _ => exact .inl ⟨h, rfl⟩

end LiveLog

theorem live_step {tr : List (Tid × Ev Resp)} {w w' : World} {g : Tid → LiveLog} {t : Tid} {a : Act}
    {r : Resp a} (hC : LiveEndNew cfg (tr ++ [(t, ⟨a, r⟩)])) (h : LiveInv cfg tr w g)
    (hok : (g t).Allows cfg a) (hs : World.sem t w a r w') :
    LiveInv cfg (tr ++ [(t, ⟨a, r⟩)]) w' (Function.update g t ((g t).next a r)) := by
  have hmessage : ∀ u, (Function.update g t ((g t).next a r) u).message =
      dispatching (thread u (tr ++ [(t, ⟨a, r⟩)])) := by
    intro u
    rw [thread_snoc]
    by_cases hu : t = u
    · subst hu
      rw [Function.update_self, if_pos rfl, dispatching_snoc, LiveLog.next_message, h.message]
    · rw [Function.update_of_ne (Ne.symm hu), if_neg hu, h.message]
  have hreset : (⟨.main, ⟨.store .live_ended false, ()⟩⟩ : Tid × Ev Resp) ∈ tr →
      ⟨.main, ⟨.store .live_ended false, ()⟩⟩ ∈ tr ++ [(t, ⟨a, r⟩)] := List.mem_append_left _
  refine ⟨fun u => ?_, hmessage, fun u hu => ?_, fun hw => ?_, fun u hu hlive => ?_, ?_⟩
  · by_cases hu : u = t
    · subst hu; rw [Function.update_self, LiveLog.next_main, h.main]
    · rw [Function.update_of_ne hu, h.main]
  · by_cases hut : u = t
    · subst hut
      rw [Function.update_self] at hu
      rcases LiveLog.next_begun hu with hb | rfl | rfl
      · exact hreset (h.begun u hb)
      · obtain rfl := (h.main u).1 hok
        exact List.mem_append_right _ (List.mem_singleton.2 rfl)
      · exact hreset (h.spawned (by rw [(World.sem_spawned hs).1]; simp))
    · rw [Function.update_of_ne hut] at hu
      exact hreset (h.begun u hu)
  · by_cases hspawn : ∃ initial, a = .spawn initial
    · obtain ⟨initial, rfl⟩ := hspawn
      exact hreset (h.begun t hok)
    · rw [World.sem_spawn hs (not_exists.1 hspawn)] at hw
      exact hreset (h.spawned hw)
  · by_cases hut : u = t
    · subst hut
      rw [Function.update_self] at hu
      have hsame : a.message = none → ReportsLiveEnd cfg (thread u tr) := by
        intro hnone
        obtain ⟨msg, hmsg, htype⟩ := hlive
        rw [thread_snoc, if_pos rfl, dispatching_snoc, hnone, Option.none_or] at hmsg
        exact ⟨msg, hmsg, htype⟩
      rcases LiveLog.next_settled hu with ⟨hset, hnone⟩ | ⟨id, he⟩ | rfl
      · exact (h.settled u hset (hsame hnone)).mono _
      · cases he
        exact (hC tr u id [] rfl (hsame rfl)).mono _
      · obtain ⟨before, after, rfl⟩ := List.append_of_mem (h.begun u hok)
        exact ⟨before, after ++ [(u, ⟨.store .live_ended true, r⟩)], u, by simp [StopKind.flag, StopKind.going],
          List.mem_append_right _ (List.mem_singleton.2 rfl)⟩
    · rw [Function.update_of_ne hut] at hu
      rw [thread_snoc, if_neg (Ne.symm hut)] at hlive
      exact (h.settled u hu hlive).mono _
  · intro pre u post heq hlive
    rcases List.eq_nil_or_concat' post with rfl | ⟨post, e, rfl⟩
    · obtain ⟨rfl, he⟩ := List.append_inj' heq rfl
      obtain ⟨rfl, he⟩ := Prod.mk.inj (List.singleton_inj.1 he)
      cases he
      obtain ⟨msg, hmsg, htype⟩ := hlive
      exact h.settled t (hok msg ((h.message t).trans hmsg) htype) ⟨msg, hmsg, htype⟩
    · rw [← List.cons_append, ← List.append_assoc] at heq
      obtain ⟨rfl, -⟩ := List.append_inj' heq rfl
      exact h.stops pre u post rfl hlive

/-! ### Stopping in the second run -/

theorem stop_again {tr : List (Tid × Ev Resp)} {c : Conf Tid World Act Resp (Except Exn Unit)}
    (h : Lifetime cfg calls tr c) (k : StopKind) (t : Tid) :
    wp (stop_monitor k) ((again cfg c).prog t) (fun _ _ => True) (stop_start t) := by
  cases t with
  | main => exact stop_threads calls .main
  | poller => exact stop_threads calls .poller
  | app n =>
    have hkeeps : Keeps (stop_monitor k) (Budget 0) (c.prog (.app n)) := by
      refine (h.does_app n).keeps fun a ha => ?_
      cases a with
      | net_begin op => exact stop_keeps rfl (by cases op with
        | get page url hs => cases page <;> first | rfl | cases ha
        | _ => rfl)
      | net_end op => exact stop_keeps rfl rfl
      | _ => exact stop_still _ ha
    exact wp_mono (hkeeps _ ⟨rfl, nofun⟩) fun _ _ _ => trivial

theorem live_end_stops {tr₀ tr : List (Tid × Ev Resp)} {c₀ c : Conf Tid World Act Resp (Except Exn Unit)}
    (h₀ : Lifetime cfg calls tr₀ c₀) (h : Run World.sem (again cfg c₀) tr c) (hnew : LiveEndNew cfg tr) :
    LiveEndStops cfg tr := by
  intro pre t post heq hlive u
  have hcut : ∀ tr l, LiveEndNew cfg (tr ++ l) → LiveEndNew cfg tr := by
    intro tr l hC pre t id post heq
    exact hC pre t id (post ++ l) (by rw [heq]; simp)
  obtain ⟨g, hinv, -⟩ := h.invariant_under (M := fun _ => live_monitor cfg) (I := LiveInv cfg) hcut
    (fun _ _ _ _ _ _ _ hC hI hok hs => ⟨_, rfl, live_step hC hI hok hs⟩) hnew
    ⟨fun t => by simp, fun _ => rfl, fun _ hb => Bool.noConfusion hb, fun hw => absurd rfl hw,
      fun _ hs => Bool.noConfusion hs, by simp⟩ (live_threads h₀)
  have hstop := (hinv.stops pre t post heq hlive).mono [(t, ⟨.unlock .dispatch_mu_, ()⟩)]
  have hrun : Run World.sem (again cfg c₀) (pre ++ [(t, ⟨.unlock .dispatch_mu_, ()⟩)] ++ post) c := by
    rw [List.append_assoc]
    exact heq ▸ h
  exact stop_bounds .live_end hrun (stop_again h₀ _) hstop u

end TtLive
