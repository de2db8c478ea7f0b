import Mathlib.Data.List.DropRight
import TtLive.Lifetime

/-!
# When the reconnect loop gives up, and how long it waits

`ReconnectLog` is read off a trace of `run_websocket_with_reconnect`: the outcomes of its sessions, each with
whether a connect of this client had succeeded by then, the time slept since the last outcome, and what the
flag tests have read. `ReconnectInv` ties it to the state of the loop: the counter is the number of failed
handshakes at the end of the outcomes while a fallback is allowed, and 0 while it is not.

`ws_ever_connected` belongs to the thread that runs the loop: a read gives what was last stored, or the value at
the start (`ReconnectLog.fair`). That holds in every run of a client (`call_fair`), and that the value says whether a
connect has succeeded is `ReconnectInv.stored`. What the flags read is left open.
-/

namespace TtLive
open Prog Threads

/-- A flag value that ends the loops. -/
def Flag.stops : Flag → Bool → Bool
  | .running, b => !b
  | _, b => b

/-- `ever`: a connect of the client has succeeded; `member`: the value of `ws_ever_connected`; `fair`: every read of
it gave its value; `noticed`: some flag read since the last outcome ends the loops; `stopping`: the last one read
does. -/
structure ReconnectLog where
  ever : Bool
  member : Bool
  fair : Bool := true
  outcomes : List (WsResult × Bool) := []
  slept : Int := 0
  noticed : Bool := false
  stopping : Bool := false

namespace ReconnectLog

def next (g : ReconnectLog) : (a : Act) → Resp a → ReconnectLog
  | .connect _ _ _, .ok _ => { g with ever := true }
  | .mark (.session r), _ => { g with outcomes := g.outcomes ++ [(r, g.ever)], slept := 0, noticed := false }
  | .sleep ms, _ => { g with slept := g.slept + ms }
  | .set_ws_ever_connected, _ => { g with member := true }
  | .ws_ever_connected, b => { g with fair := g.fair && b == g.member }
  | .load f, b => { g with stopping := f.stops b, noticed := g.noticed || f.stops b }
  | _, _ => g

/-- The log of a client whose member is `ever`, by which a connect had succeeded before. -/
def init (ever : Bool) : ReconnectLog := { ever := ever, member := ever }

def of (ever : Bool) (tr : List (Ev Resp)) : ReconnectLog := Monitor.after next (init ever) tr

def results (g : ReconnectLog) : List WsResult := g.outcomes.map (·.1)

/-- The number of failed handshakes since the last other outcome. -/
def failures (g : ReconnectLog) : Nat := (g.results.rtakeWhile (· = .HandshakeFailed)).length

/-- A handshake failed before any connect of the client had succeeded. -/
def NeverConnected (g : ReconnectLog) : Prop := (.HandshakeFailed, false) ∈ g.outcomes

def SixInARow (g : ReconnectLog) : Prop := List.replicate kMaxHandshakeFails .HandshakeFailed <:+: g.results

/-- What is asserted at an action: the length of a back-off that no flag test cut short. -/
def Allows (allow_fallback : Bool) (g : ReconnectLog) : Act → Prop
  | .mark (.fetch_once _ _) =>
    let delay := if allow_fallback then backoff g.failures else 300
    g.slept ≤ delay ∧ (g.noticed = false → g.slept = delay)
  | _ => True

end ReconnectLog

open ReconnectLog

abbrev reconnect_monitor (allow_fallback : Bool) : Monitor Act Resp ReconnectLog :=
  .det (Allows allow_fallback) next

variable {cfg : Config} {initial : ProtoMessageFetchResult} {allow_fallback : Bool}

/-! ### Rows of failures -/

theorem replicate_suffix_iff {l : List WsResult} {n : Nat} :
    List.replicate n .HandshakeFailed <:+ l ↔ n ≤ (l.rtakeWhile (· = .HandshakeFailed)).length := by
  induction l using List.reverseRecOn generalizing n with
  | nil => cases n <;> simp
  | append_singleton l r ih =>
    cases n with
    | zero => simp
    | succ n =>
      rw [List.replicate_succ', List.suffix_concat_iff]
      by_cases hr : r = .HandshakeFailed
      · subst hr
        rw [List.rtakeWhile_concat_pos _ _ _ (by simp)]
        simp [ih]
      · rw [List.rtakeWhile_concat_neg _ _ _ (by simp [hr])]
        simp [Ne.symm hr]

theorem failures_concat (g : ReconnectLog) {r : WsResult} {e : Bool} {l : List (WsResult × Bool)}
    (h : g.outcomes = l ++ [(r, e)]) : g.failures =
      if r = .HandshakeFailed then ((l.map (·.1)).rtakeWhile (· = .HandshakeFailed)).length + 1 else 0 := by
  rw [failures, results, h, List.map_append, List.map_singleton]
  split
  · next hr => rw [List.rtakeWhile_concat_pos _ _ _ (by simp [hr])]; simp
  · next hr => rw [List.rtakeWhile_concat_neg _ _ _ (by simp [hr])]; simp

theorem sixInARow_concat (g : ReconnectLog) {r : WsResult} {e : Bool} {l : List (WsResult × Bool)}
    (h : g.outcomes = l ++ [(r, e)]) : g.SixInARow ↔ kMaxHandshakeFails ≤ g.failures ∨
      List.replicate kMaxHandshakeFails .HandshakeFailed <:+: l.map (·.1) := by
  rw [SixInARow, failures, ← replicate_suffix_iff, results, h, List.map_append, List.map_singleton]
  exact List.infix_concat_iff

/-! ### The parts of a round -/

/-- `k` comes after `g`, with no outcome and no connect in between. -/
structure ReconnectLog.Since (g k : ReconnectLog) : Prop where
  outcomes : k.outcomes = g.outcomes
  fair : k.fair = true → g.fair = true
  member : k.member = g.member
  ever : k.ever = g.ever

theorem since_refl (g : ReconnectLog) : g.Since g := ⟨rfl, id, rfl, rfl⟩

theorem ReconnectLog.Since.trans {g k l : ReconnectLog} (h : g.Since k) (h' : k.Since l) : g.Since l :=
  ⟨h'.outcomes.trans h.outcomes, fun hf => h.fair (h'.fair hf), h'.member.trans h.member, h'.ever.trans h.ever⟩

theorem keeps_inner {b : Bool} {g₀ : ReconnectLog} (a : Act) (h : a.inner) :
    Keeps (reconnect_monitor b) (g₀.Since ·) (call a) := by
  intro g hg
  cases a with
  | connect => cases h
  | set_ws_ever_connected => cases h
  | ws_ever_connected =>
    refine ⟨trivial, ?_⟩
    rintro b _ rfl
    exact hg.trans ⟨rfl, fun h => (Bool.and_eq_true_iff.1 h).1, rfl, rfl⟩
  | mark m =>
    cases m with
    | dispatch_message | emit => exact ⟨trivial, by rintro - _ rfl; exact hg⟩
    | _ => cases h
  | _ => exact ⟨trivial, by rintro _ _ rfl; exact hg.trans ⟨rfl, id, rfl, rfl⟩⟩

theorem wp_load {f : Flag} {Q : Bool → ReconnectLog → Prop} {g : ReconnectLog}
    (h : ∀ b, Q b { g with stopping := f.stops b, noticed := g.noticed || f.stops b }) :
    wp (reconnect_monitor allow_fallback) (load f) Q g := by
  refine ⟨trivial, ?_⟩
  rintro b _ rfl
  exact h b

/-- The log after a flag test that came out as `b`. -/
def ReconnectLog.tested (g : ReconnectLog) (b : Bool) : ReconnectLog :=
  { g with stopping := !b, noticed := g.noticed || !b }

theorem since_tested (g : ReconnectLog) (b : Bool) : g.Since (g.tested b) := ⟨rfl, id, rfl, rfl⟩

theorem wp_not_stopped {Q : Bool → ReconnectLog → Prop} {g : ReconnectLog} (h : ∀ b, Q b (g.tested b)) :
    wp (reconnect_monitor allow_fallback) not_stopped Q g := by
  refine wp_bind.2 (wp_load fun running => ?_)
  cases running with
  | false => exact h false
  | true =>
    refine wp_bind.2 (wp_load fun stop => ?_)
    cases stop with
    | false => simpa [Flag.stops, ReconnectLog.tested] using h true
    | true => simpa [Flag.stops, ReconnectLog.tested] using h false

theorem wp_alive {Q : Bool → ReconnectLog → Prop} {g : ReconnectLog} (h : ∀ b, Q b (g.tested b)) :
    wp (reconnect_monitor allow_fallback) alive Q g := by
  refine wp_bind.2 (wp_load fun running => ?_)
  cases running with
  | false => exact h false
  | true =>
    refine wp_bind.2 (wp_load fun stop => ?_)
    cases stop with
    | true => simpa [Flag.stops, ReconnectLog.tested] using h false
    | false =>
      refine wp_bind.2 (wp_load fun live => ?_)
      cases live with
      | false => simpa [Flag.stops, ReconnectLog.tested] using h true
      | true => simpa [Flag.stops, ReconnectLog.tested] using h false

/-- A back-off of `ms`: `s` is the loop counter, `min s ms` the time slept in it. -/
theorem wp_interruptible_sleep {ms : Int} {Q : Unit → ReconnectLog → Prop} {g : ReconnectLog}
    (hms : 0 ≤ ms) (hg : g.noticed = false)
    (h : ∀ g', g.Since g' → g'.slept ≤ g.slept + ms → (g'.noticed = false → g'.slept = g.slept + ms) → Q () g') :
    wp (reconnect_monitor allow_fallback) (interruptible_sleep ms) Q g := by
  refine wp_iterate (fun s g' => g.Since g' ∧ g'.noticed = false ∧ 0 ≤ s ∧ g'.slept = g.slept + min s ms)
    ⟨since_refl g, hg, Int.le_refl 0, by omega⟩ ?_
  rintro s g' ⟨hsince, hn, hs, hslept⟩
  split
  · refine wp_bind.2 (wp_not_stopped fun b => ?_)
    cases b with
    | false => exact h _ (hsince.trans (since_tested g' false)) (show g'.slept ≤ _ by omega) (by simp [ReconnectLog.tested])
    | true =>
      refine wp_perform_bind.2 ⟨trivial, ?_⟩
      rintro - _ rfl
      refine ⟨hsince.trans ⟨rfl, id, rfl, rfl⟩, ?_, by omega, ?_⟩
      · simpa [ReconnectLog.tested, next] using hn
      · simp only [ReconnectLog.tested, next]
        omega
  · exact h _ hsince (by omega) fun _ => by omega

/-- The part of a session after its connect: the member is stored first. -/
theorem wp_pumped {g : ReconnectLog} (hever : g.ever = true) : wp (reconnect_monitor allow_fallback) (pump_session cfg)
    (fun _ g' => ({ g with member := true } : ReconnectLog).Since g' ∧ g'.member = g'.ever) g := by
  have hpump : wp (reconnect_monitor allow_fallback) (pump_session cfg)
      (fun _ g' => ({ g with member := true } : ReconnectLog).Since g') g := by
    refine wp_pump_session (fun a h => (does_wired a h).keeps keeps_inner)
      (fun msg => (does_dispatch_message msg).keeps keeps_inner) (keeps_inner _ rfl)
      (fun _ => (does_sink _ _).keeps keeps_inner) ⟨trivial, ?_⟩
    rintro - _ rfl
    exact since_refl _
  exact wp_mono hpump fun _ g' h => ⟨h, h.member.trans (hever.symm.trans h.ever.symm)⟩

/-- A session adds its outcome, and the member says whether a connect has succeeded. -/
theorem wp_run_websocket_outcome {cur : ProtoMessageFetchResult} {Q : WsResult → ReconnectLog → Prop} {g : ReconnectLog}
    (hstored : g.member = g.ever)
    (h : ∀ r g', g'.outcomes = g.outcomes ++ [(r, g'.ever)] → (g'.fair = true → g.fair = true) →
      g'.member = g'.ever → g'.slept = 0 → g'.noticed = false → Q r g') :
    wp (reconnect_monitor allow_fallback) (run_websocket cfg cur) Q g := by
  refine wp_perform_bind.2 ⟨trivial, fun _ g hn => ?_⟩
  obtain rfl := hn
  have hmark : ∀ (r : WsResult) (g' : ReconnectLog), g'.outcomes = g.outcomes → (g'.fair = true → g.fair = true) →
      g'.member = g'.ever → wp (reconnect_monitor allow_fallback) (do mark (.session r); return r) Q g' := by
    intro r g' ho hf hm
    refine wp_perform_bind.2 ⟨trivial, ?_⟩
    rintro - _ rfl
    exact h r _ (by simp [next, ho]) hf hm rfl rfl
  have hfailed : ∀ (r : WsResult) (g' : ReconnectLog), g.Since g' →
      wp (reconnect_monitor allow_fallback) (do mark (.session r); return r) Q g' := fun r g' hs =>
    hmark r g' hs.outcomes hs.fair (hs.member.trans (hstored.trans hs.ever.symm))
  have hurl := (does_session_url cur).keeps (@keeps_inner allow_fallback g)
  refine wp_bind.2 (Keeps.run_then (p := ExceptT.mk _) hurl (since_refl g) (fun x g₁ h₁ => ?_) fun e g₁ h₁ =>
    hfailed _ _ h₁)
  refine ⟨trivial, ?_⟩
  rintro r _ rfl
  cases r with
  | error e => exact hfailed _ _ h₁
  | ok _ =>
    refine wp_bind.2 (wp_mono (wp_pumped rfl) fun r g' hp => ?_)
    exact hmark r g' (hp.1.outcomes.trans h₁.outcomes) (fun hf => h₁.fair (hp.1.fair hf)) hp.2

/-- A refresh after a back-off of the right length. -/
theorem wp_refresh {cursor internal_ext : Bytes} {Q : Except Exn ProtoMessageFetchResult → ReconnectLog → Prop}
    {g : ReconnectLog} (hok : g.Allows allow_fallback (.mark (.fetch_once cursor internal_ext)))
    (h : ∀ r g', g.Since g' → Q r g') :
    wp (reconnect_monitor allow_fallback) (fetch_once cfg cursor internal_ext) Q g := by
  refine wp_perform_bind.2 ⟨hok, fun _ g hn => ?_⟩
  obtain rfl := hn
  refine wp_bind.2 (wp_mono ((does_fetch_request cursor internal_ext).keeps keeps_inner _ (since_refl g)) ?_)
  intro r g₁ hs
  refine wp_perform_bind.2 ⟨trivial, ?_⟩
  rintro - _ rfl
  exact h r _ (hs.trans ⟨rfl, id, rfl, rfl⟩)

/-! ### The loop -/

/-- What holds before each round of the loop. -/
structure ReconnectInv (allow_fallback : Bool) (s : Reconnect) (g : ReconnectLog) : Prop where
  counter : s.consecutive_handshake_fails = if allow_fallback then g.failures else 0
  stored : g.member = g.ever
  connected : allow_fallback = true → g.fair = true → ¬ g.NeverConnected
  row : allow_fallback = true → ¬ g.SixInARow

/-- What the value that the loop returns says about its run. -/
structure ReconnectEnd (allow_fallback : Bool) (handled : Bool) (g : ReconnectLog) : Prop where
  gives_up : g.fair = true →
    (handled = false ↔ allow_fallback = true ∧ (g.NeverConnected ∨ g.SixInARow))
  handles : handled = true →
    g.stopping = true ∨ g.results.getLast? = some .LiveEnded ∨ g.results.getLast? = some .Stopped

theorem ReconnectInv.congr {s : Reconnect} {g k : ReconnectLog} (h : ReconnectInv allow_fallback s g)
    (hs : g.Since k) : ReconnectInv allow_fallback s k := by
  obtain ⟨hc, hm, hn, hr⟩ := h
  refine ⟨?_, hs.member.trans (hm.trans hs.ever.symm), fun ha hfair => ?_, ?_⟩
  · rw [hc, failures, failures, results, results, hs.outcomes]
  · rw [NeverConnected, hs.outcomes]; exact hn ha (hs.fair hfair)
  · rwa [SixInARow, results, hs.outcomes]

/-- A run that ends without giving up. -/
theorem ReconnectInv.handled {s : Reconnect} {g : ReconnectLog} (h : ReconnectInv allow_fallback s g)
    (hend : g.stopping = true ∨ g.results.getLast? = some .LiveEnded ∨ g.results.getLast? = some .Stopped) :
    ReconnectEnd allow_fallback true g :=
  ⟨fun hf => ⟨nofun, fun ⟨ha, hg⟩ => (hg.elim (h.connected ha hf) (h.row ha)).elim⟩, fun _ => hend⟩

theorem backoff_nonneg (n : Nat) : 0 ≤ backoff n := by unfold backoff; split <;> omega

theorem wp_reconnect {s : Reconnect} {g : ReconnectLog} (h : ReconnectInv allow_fallback s g)
    (hslept : g.slept = 0) (hnoticed : g.noticed = false) :
    wp (reconnect_monitor allow_fallback) (reconnect cfg s) (fun x g' =>
      Sum.elim (fun s' => ReconnectInv allow_fallback s' g') (fun b => ReconnectEnd allow_fallback b g') x) g := by
  refine wp_bind.2 (wp_alive fun b => ?_)
  cases b with
  | false => exact (h.congr (since_tested g false)).handled (.inl rfl)
  | true =>
    refine wp_bind.2 (wp_interruptible_sleep (backoff_nonneg _) (by simpa [tested] using hnoticed)
      fun g₁ hs₁ hle heq => wp_bind.2 (wp_not_stopped fun b => ?_))
    have hs : g.Since (g₁.tested b) := (since_tested g true).trans (hs₁.trans (since_tested g₁ b))
    cases b with
    | false => exact (h.congr hs).handled (.inl rfl)
    | true =>
      refine wp_bind.2 (wp_refresh ?_ fun r g₂ hs₂ => ?_)
      · -- the delay is computed from the counter, which counts only when a fallback is allowed
        have hdelay : backoff s.consecutive_handshake_fails =
            if allow_fallback then backoff (g₁.tested true).failures else 300 := by
          rw [(h.congr hs).counter]
          split
          · rfl
          · rfl
        simp only [tested, hslept, Int.zero_add, Bool.not_true, Bool.or_false] at hle heq ⊢
        rw [hdelay] at hle heq
        exact ⟨hle, heq⟩
      · have h₂ := h.congr (hs.trans hs₂)
        cases r with
        | error e => exact h₂
        | ok batch => exact ⟨h₂.counter, h₂.stored, h₂.connected, h₂.row⟩

/-- The invariant after an outcome other than a failed handshake; the counter has been reset. -/
theorem ReconnectInv.outcome {s : Reconnect} {g g' : ReconnectLog} {r : WsResult}
    (h : ReconnectInv allow_fallback s g) (ho : g'.outcomes = g.outcomes ++ [(r, g'.ever)])
    (hf : g'.fair = true → g.fair = true) (hm : g'.member = g'.ever) (hr : r ≠ .HandshakeFailed) :
    ReconnectInv allow_fallback { s with consecutive_handshake_fails := 0 } g' := by
  have hzero : g'.failures = 0 := by rw [failures_concat g' ho, if_neg hr]
  refine ⟨?_, hm, fun ha hfair => ?_, fun ha => ?_⟩
  · simp [hzero]
  · rw [NeverConnected, ho, List.mem_append, List.mem_singleton, not_or]
    exact ⟨h.connected ha (hf hfair), fun he => hr (congrArg Prod.fst he).symm⟩
  · rw [sixInARow_concat g' ho, hzero, not_or]
    exact ⟨by decide, h.row ha⟩

/-- A failed handshake, and the tests that follow it. -/
theorem wp_handshake_failed {s : Reconnect} {g g' : ReconnectLog} (h : ReconnectInv allow_fallback s g)
    (ho : g'.outcomes = g.outcomes ++ [(.HandshakeFailed, g'.ever)]) (hf : g'.fair = true → g.fair = true)
    (hm : g'.member = g'.ever) (hslept : g'.slept = 0) (hnoticed : g'.noticed = false) :
    wp (reconnect_monitor allow_fallback) (do
      if !(← call .ws_ever_connected) && allow_fallback then return .inr false
      else if allow_fallback then
        if s.consecutive_handshake_fails + 1 ≥ kMaxHandshakeFails then return .inr false
        else reconnect cfg { s with consecutive_handshake_fails := s.consecutive_handshake_fails + 1 }
      else reconnect cfg s) (fun x g' =>
      Sum.elim (fun s' => ReconnectInv allow_fallback s' g') (fun b => ReconnectEnd allow_fallback b g') x) g' := by
  have hcount : g'.failures = g.failures + 1 := by rw [failures_concat g' ho, if_pos rfl]; rfl
  refine wp_perform_bind.2 ⟨trivial, ?_⟩
  rintro ever _ rfl
  cases allow_fallback with
  | false =>
    simp only [Bool.and_false, Bool.false_eq_true, if_false]
    exact wp_reconnect ⟨h.counter, hm, nofun, nofun⟩ hslept hnoticed
  | true =>
    have hcount : s.consecutive_handshake_fails + 1 = g'.failures := by rw [hcount, h.counter]; rfl
    -- a fair read gives what the outcome was recorded with
    have hread : (g'.next .ws_ever_connected ever).fair = true → g.fair = true ∧ ever = g'.ever := by
      intro hfair
      obtain ⟨h₁, h₂⟩ := Bool.and_eq_true_iff.1 hfair
      exact ⟨hf h₁, (eq_of_beq h₂).trans hm⟩
    simp only [Bool.and_true, if_true]
    by_cases he : ever = true
    · rw [if_neg (by simp [he])]
      by_cases hsix : kMaxHandshakeFails ≤ g'.failures
      · rw [if_pos (by rw [hcount]; exact hsix)]
        exact ⟨fun _ => ⟨fun _ => ⟨rfl, .inr ((sixInARow_concat g' ho).2 (.inl hsix))⟩, fun _ => rfl⟩, nofun⟩
      · rw [if_neg (by rw [hcount]; exact hsix)]
        refine wp_reconnect ⟨hcount, hm, fun _ hfair => ?_, fun _ => ?_⟩ hslept hnoticed
        · change ¬ g'.NeverConnected
          rw [NeverConnected, ho, List.mem_append, List.mem_singleton, not_or]
          exact ⟨h.connected rfl (hread hfair).1, by simp [← (hread hfair).2, he]⟩
        · change ¬ g'.SixInARow
          rw [sixInARow_concat g' ho, not_or]
          exact ⟨hsix, h.row rfl⟩
    · rw [if_pos (by simp [he])]
      refine ⟨fun hfair => ⟨fun _ => ⟨rfl, .inl ?_⟩, fun _ => rfl⟩, nofun⟩
      change g'.NeverConnected
      rw [NeverConnected, ho, ← (hread hfair).2, Bool.eq_false_iff.2 he]
      simp

theorem wp_reconnect_loop (ever : Bool) :
    wp (reconnect_monitor allow_fallback) (run_websocket_with_reconnect cfg initial allow_fallback)
      (ReconnectEnd allow_fallback) (init ever) := by
  refine wp_iterate (ReconnectInv allow_fallback) ⟨?_, rfl, fun _ _ => ?_, fun _ => ?_⟩ fun s g h => ?_
  · simp [failures, results, init]
  · simp [NeverConnected, init]
  · simp [SixInARow, results, init, kMaxHandshakeFails]
  · refine wp_bind.2 (wp_alive fun b => ?_)
    cases b with
    | false => exact (h.congr (since_tested g false)).handled (.inl rfl)
    | true =>
      have h' : ReconnectInv allow_fallback s (g.tested true) := h.congr (since_tested g true)
      refine wp_bind.2 (wp_run_websocket_outcome h'.stored fun r g' ho hf hm hslept hnoticed => ?_)
      have hlast : g'.results.getLast? = some r := by rw [results, ho]; simp
      cases r with
      | LiveEnded => exact (h'.outcome ho hf hm (by simp)).handled (.inr (.inl hlast))
      | Stopped => exact (h'.outcome ho hf hm (by simp)).handled (.inr (.inr hlast))
      | Dropped => exact wp_reconnect (h'.outcome ho hf hm (by simp)) hslept hnoticed
      | HandshakeFailed => exact wp_handshake_failed h' ho hf hm hslept hnoticed

/-! ### Runs -/

/-- What is read of the member is what is stored in it. -/
structure ReconnectLog.Tells (g : ReconnectLog) (w : World) : Prop where
  fair : g.fair = true
  member : g.member = w.ws_ever_connected

theorem ReconnectLog.Tells.step {g : ReconnectLog} {w w' : World} {t : Tid} {a : Act} {r : Resp a} (h : g.Tells w)
    (hs : World.sem t w a r w') : (g.next a r).Tells w' := by
  cases a with
  | lock m => obtain ⟨-, rfl⟩ := World.sem_lock hs; exact ⟨h.fair, h.member⟩
  | unlock m => obtain ⟨-, rfl⟩ := World.sem_unlock hs; exact ⟨h.fair, h.member⟩
  | spawned => obtain ⟨-, rfl⟩ := World.sem_spawned hs; exact h
  | join => obtain ⟨-, rfl⟩ := World.sem_join hs; exact h
  | connect url cookies ua => obtain ⟨env, hs⟩ := hs; cases hs; cases env.handshake <;> exact ⟨h.fair, h.member⟩
  | mark m => obtain ⟨env, hs⟩ := hs; cases hs; cases m <;> exact ⟨h.fair, h.member⟩
  | set_ws_ever_connected => obtain ⟨env, hs⟩ := hs; cases hs; exact ⟨h.fair, rfl⟩
  | ws_ever_connected =>
    obtain ⟨env, hs⟩ := hs
    cases hs
    exact ⟨Bool.and_eq_true_iff.2 ⟨h.fair, beq_iff_eq.2 h.member.symm⟩, h.member⟩
  | _ => obtain ⟨env, hs⟩ := hs; cases hs; exact ⟨h.fair, h.member⟩

/-- The other threads leave the member alone. -/
theorem ws_ever_connected_foreign {w w' : World} {t : Tid} {a : Act} {r : Resp a} (ha : a.foreign = true)
    (hs : World.sem t w a r w') : w'.ws_ever_connected = w.ws_ever_connected := by
  cases a with
  | lock m => obtain ⟨-, rfl⟩ := World.sem_lock hs; rfl
  | unlock m => obtain ⟨-, rfl⟩ := World.sem_unlock hs; rfl
  | spawned => obtain ⟨-, rfl⟩ := World.sem_spawned hs; rfl
  | join => obtain ⟨-, rfl⟩ := World.sem_join hs; rfl
  | set_ws_ever_connected => cases ha
  | _ => obtain ⟨env, hs⟩ := hs; cases hs; rfl

/-- Only the thread of `run` does something with the member. -/
abbrev member_monitor (t : Tid) : Monitor Act Resp Unit :=
  ⟨fun _ a => t = .main ∨ a.foreign = true, fun _ _ _ _ => True⟩

theorem member_of_does {P : Act → Prop} (hP : ∀ a, P a → a.foreign = true) {t : Tid} {p : Code (Except Exn Unit)}
    (h : Does P p) : wp (member_monitor t) p (fun _ _ => True) () := by
  have hkeeps : Keeps (member_monitor t) (fun _ => True) p :=
    h.keeps fun a ha _ _ => ⟨.inr (hP a ha), fun _ _ _ => trivial⟩
  exact hkeeps () trivial

theorem member_threads (calls : Nat → List ApiCall) (t : Tid) :
    wp (member_monitor t) (threads cfg calls t) (fun _ _ => True) () := by
  cases t with
  | main =>
    have hany : ∀ g a, (member_monitor .main).ok g a := fun _ _ => .inl rfl
    exact wp_of_allowed hany _ (fun _ _ => trivial) ()
  | poller => exact member_of_does (fun _ h => h) does_poller
  | app n => exact member_of_does (fun _ => Act.foreign_of_aside) (does_application (calls n))

/-- In every run of a client its thread reads what it has stored. -/
theorem lifetime_tells {calls : Nat → List ApiCall} {tr : List (Tid × Ev Resp)}
    {c : Conf Tid World Act Resp (Except Exn Unit)} (h : Lifetime cfg calls tr c) :
    (ReconnectLog.of false (thread .main tr)).Tells c.world := by
  have hstep : ∀ (tr : List (Tid × Ev Resp)) (w : World) (g : Tid → Unit) t a (r : Resp a) w',
      (ReconnectLog.of false (thread .main tr)).Tells w → (member_monitor t).ok (g t) a → World.sem t w a r w' →
        (ReconnectLog.of false (thread .main (tr ++ [(t, ⟨a, r⟩)]))).Tells w' := by
    intro tr w g t a r w' hI hok hs
    rw [thread_snoc]
    split
    · rw [ReconnectLog.of, Monitor.after, List.foldl_append]
      exact hI.step hs
    · next ht => exact ⟨hI.fair, hI.member.trans (ws_ever_connected_foreign (hok.resolve_left ht) hs).symm⟩
  have hagain : ∀ (tr : List (Tid × Ev Resp)) (w : World), (ReconnectLog.of false (thread .main tr)).Tells w →
      (ReconnectLog.of false (thread .main tr)).Tells { w with spawned := none, exited := false } :=
    fun _ _ hI => ⟨hI.fair, hI.member⟩
  obtain ⟨-, htells, -⟩ := h.invariant (M := member_monitor) (Q := fun _ _ _ => True) (s := fun _ => ())
    (I := fun tr w _ => (ReconnectLog.of false (thread .main tr)).Tells w)
    (fun tr w g t a r w' hI hok hs => ⟨(), trivial, hstep tr w g t a r w' hI hok hs⟩)
    (fun tr w _ hI => hagain tr w hI) (fun _ _ _ => member_threads calls .main)
    (fun _ => member_threads calls .poller) ⟨rfl, rfl⟩ (member_threads calls)
  exact htells

theorem member_next_congr {g g' : ReconnectLog} (hm : g.member = g'.member) (a : Act) (r : Resp a) :
    (g.next a r).member = (g'.next a r).member := by
  cases a with
  | connect url cookies ua => cases r <;> exact hm
  | mark m => cases m <;> exact hm
  | set_ws_ever_connected => rfl
  | _ => exact hm

theorem fair_of_after {g : ReconnectLog} {tr : List (Ev Resp)}
    (h : (Monitor.after ReconnectLog.next g tr).fair = true) : g.fair = true := by
  induction tr generalizing g with
  | nil => exact h
  | cons e tr ih =>
    obtain ⟨a, r⟩ := e
    have hnext : (g.next a r).fair = true := ih h
    cases a with
    | connect url cookies ua => cases r <;> exact hnext
    | mark m => cases m <;> exact hnext
    | ws_ever_connected => exact (Bool.and_eq_true_iff.1 hnext).1
    | _ => exact hnext

/-- Of what was before, the reads depend on the value of the member only. -/
theorem fair_after_congr {g g' : ReconnectLog} {tr : List (Ev Resp)} (hm : g.member = g'.member)
    (hf : g'.fair = true) (h : (Monitor.after ReconnectLog.next g tr).fair = true) :
    (Monitor.after ReconnectLog.next g' tr).fair = true := by
  induction tr generalizing g g' with
  | nil => exact hf
  | cons e tr ih =>
    obtain ⟨a, r⟩ := e
    refine ih (member_next_congr hm a r) ?_ h
    have hnext : (g.next a r).fair = true := fair_of_after h
    cases a with
    | connect url cookies ua => cases r <;> exact hf
    | mark m => cases m <;> exact hf
    | ws_ever_connected => exact Bool.and_eq_true_iff.2 ⟨hf, hm ▸ (Bool.and_eq_true_iff.1 hnext).2⟩
    | _ => exact hf

/-- What a call of the loop reads in a run of a client is fair. -/
theorem call_fair {calls : Nat → List ApiCall} {tr : List (Tid × Ev Resp)}
    {c : Conf Tid World Act Resp (Except Exn Unit)} (h : Lifetime cfg calls tr c) {before call after : List (Ev Resp)}
    (htr : thread .main tr = before ++ call ++ after) :
    (ReconnectLog.of (ReconnectLog.of false before).member call).fair = true := by
  have hfair := (lifetime_tells h).fair
  rw [htr, ReconnectLog.of, Monitor.after, List.foldl_append, List.foldl_append] at hfair
  have hcall : (Monitor.after ReconnectLog.next (ReconnectLog.of false before) call).fair = true := fair_of_after hfair
  exact @fair_after_congr (ReconnectLog.of false before) _ call rfl rfl hcall

/-- Answers to a client whose sessions are closed at once. -/
def dropped_answer : ∀ a, Resp a := sample_answer (sample_batch [] (lit "B")).1 (.Closed, [])

/-- Answers to the same client when its handshakes fail. -/
def refused_answer : ∀ a, Resp a
  | .connect _ _ _ => .error "refused"
  | a => dropped_answer a

/-- A session is dropped, and after it every handshake fails. -/
def refusal_run : List (Ev Resp) × Code Bool :=
  exec (List.replicate 35 dropped_answer ++ List.replicate 1000 refused_answer)
    (run_websocket_with_reconnect (sample_config {}) { cursor := lit "A" } true)

theorem refusal_runs : Runs (run_websocket_with_reconnect (sample_config {}) { cursor := lit "A" } true)
    refusal_run.1 refusal_run.2 := runs_exec _ _

/-- The delay before each refresh: `min (500 k) 5000` after `k` failed handshakes in a row, 300 after a drop,
and no more than that when a flag test cuts it short. -/
def BacksOff (ever : Bool) (tr : List (Ev Resp)) : Prop :=
  ∀ pre cursor internal_ext post, tr = pre ++ ⟨.mark (.fetch_once cursor internal_ext), ()⟩ :: post →
    let g := ReconnectLog.of ever pre
    (∀ k : Nat, 1 ≤ k → g.failures = k → g.slept ≤ min (500 * (k : Int)) 5000 ∧
      (g.noticed = false → g.slept = min (500 * (k : Int)) 5000)) ∧
    (g.results.getLast? = some .Dropped → g.slept ≤ 300 ∧ (g.noticed = false → g.slept = 300))

/-- The time slept before a refresh, as the loop computes it. -/
theorem slept_before_refresh (ever : Bool) {tr : List (Ev Resp)} {q : Code Bool}
    (h : Runs (run_websocket_with_reconnect cfg initial allow_fallback) tr q) {pre post : List (Ev Resp)}
    {cursor internal_ext : Bytes} (htr : tr = pre ++ ⟨.mark (.fetch_once cursor internal_ext), ()⟩ :: post) :
    let g := ReconnectLog.of ever pre
    let delay := if allow_fallback then backoff g.failures else 300
    g.slept ≤ delay ∧ (g.noticed = false → g.slept = delay) := by
  subst htr
  exact Monitor.ok_of_runs (wp_reconnect_loop ever) h

theorem backoff_of_pos {k : Nat} (h : 1 ≤ k) : backoff k = min (500 * (k : Int)) 5000 := if_pos h

theorem failures_of_dropped {g : ReconnectLog} (h : g.results.getLast? = some .Dropped) : g.failures = 0 := by
  obtain ⟨l, hl⟩ := List.getLast?_eq_some_iff.1 h
  rw [failures, hl, List.rtakeWhile_concat_neg _ _ _ (by simp)]
  rfl

/-- The delays of a run are right exactly when failures are counted, which needs `allow_fallback`, or none is
followed by a further attempt. -/
theorem backs_off_iff {ever : Bool} {tr : List (Ev Resp)} {q : Code Bool}
    (h : Runs (run_websocket_with_reconnect cfg initial allow_fallback) tr q) :
    BacksOff ever tr ↔ allow_fallback = true ∨
      ∀ pre cursor internal_ext post, tr = pre ++ ⟨.mark (.fetch_once cursor internal_ext), ()⟩ :: post →
        (ReconnectLog.of ever pre).noticed = false → (ReconnectLog.of ever pre).failures = 0 := by
  constructor
  · intro hb
    refine or_iff_not_imp_left.2 fun ha pre cursor internal_ext post htr hn => ?_
    by_contra hf
    have hwant := ((hb pre cursor internal_ext post htr).1 _ (Nat.one_le_iff_ne_zero.2 hf) rfl).2 hn
    have hslept := (slept_before_refresh ever h htr).2 hn
    rw [if_neg ha] at hslept
    omega
  · rintro hc pre cursor internal_ext post htr
    have hslept := slept_before_refresh ever h htr
    refine ⟨fun k hk hf => ?_, fun hd => ?_⟩
    · by_cases ha : allow_fallback = true
      · simp only [if_pos ha, hf, backoff_of_pos hk] at hslept
        exact hslept
      · simp only [if_neg ha] at hslept
        have hcount := hc.resolve_left ha pre cursor internal_ext post htr
        exact ⟨by omega, fun hn => by have := hcount hn; omega⟩
    · simp only [failures_of_dropped hd] at hslept
      have hdelay : (if allow_fallback then backoff 0 else 300) = 300 := by cases allow_fallback <;> rfl
      rwa [hdelay] at hslept

/-- The time slept before each refresh. -/
def delays : ReconnectLog → List (Ev Resp) → List Int
  | _, [] => []
  | g, ⟨.mark (.fetch_once cursor internal_ext), r⟩ :: tr =>
    g.slept :: delays (g.next (.mark (.fetch_once cursor internal_ext)) r) tr
  | g, e :: tr => delays (g.next e.1 e.2) tr

/-- A client that may fall back, dropped once and then refused until it gives up. -/
theorem refusals_back_off :
    BacksOff false refusal_run.1 ∧ delays (init false) refusal_run.1 = [300, 500, 1000, 1500, 2000, 2500] :=
  ⟨(backs_off_iff refusal_runs).2 (.inl rfl), by decide +kernel⟩

/-- In dual mode the first back-off after a failed handshake is 300 ms. -/
theorem dual_backoff_is_300 :
    ¬ ∀ (cfg : Config) (initial : ProtoMessageFetchResult) (allow_fallback ever : Bool) (tr : List (Ev Resp))
      (q : Code Bool), Runs (run_websocket_with_reconnect cfg initial allow_fallback) tr q → BacksOff ever tr := by
  intro h
  have hpending : pending (exec (List.replicate 51 refused_answer)
      (run_websocket_with_reconnect (sample_config {}) { cursor := lit "A" } false)).2 =
      some (.mark (.fetch_once (lit "A") [])) := rfl
  obtain ⟨q, hrun⟩ := runs_exec_pending hpending ()
  have := ((h _ _ _ true _ _ hrun _ _ _ _ rfl).1 1 (by decide) (by decide)).2 (by decide)
  revert this
  decide

end TtLive
