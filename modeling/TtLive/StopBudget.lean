import Mathlib.Algebra.Group.Pi.Basic
import Mathlib.Algebra.GroupWithZero.Nat
import Mathlib.Algebra.Order.Group.Nat
import TtLive.Lifetime

/-!
# What a thread may still do after a stop

A stop is a write to `running` or `live_ended` that no later step takes back (`StopKind`): `disconnect`
writes `running`, a dispatched `LiveEnd` writes `live_ended`. The monitor counts what a thread does again and again
in its loops (`Chore`), from when it can see the stop. A thread may notice at any of its steps, so every program
point is covered by a `Budget`, what the thread may have spent by then; it only grows along the program, and a test
that succeeds, hence began before the stop, takes it back to nothing.
-/

namespace TtLive
open Prog Threads

inductive StopKind
  | disconnect
  | live_end

namespace StopKind

def flag : StopKind → Flag
  | disconnect => .running
  | live_end => .live_ended

/-- The flag's value while the run goes on. -/
def going : StopKind → Bool
  | disconnect => true
  | live_end => false

/-- Writes that take a stop back; only the first lines of `run` do that. -/
def resets (k : StopKind) : Act → Bool
  | .store f b => f = k.flag && b = k.going
  | _ => false

/-- In a stopped run the flag reads as stopped. -/
def Shows (k : StopKind) : (a : Act) → Resp a → Prop
  | .load f, b => f = k.flag → b = !k.going
  | _, _ => True

end StopKind

/-- What a thread does again and again in its loops. -/
inductive Chore
  | network
  | receive
  | test
  | sleep
deriving DecidableEq

/-- An `im/fetch` or a connect; a receive; the first load of a test; a sleep. -/
def Act.chore : Act → Option Chore
  | .net_begin (.get .im_fetch _ _) | .connect _ _ _ => some .network
  | .recv_binary => some .receive
  | .load .running => some .test
  | .sleep _ => some .sleep
  | _ => none

def Act.cost (a : Act) : Chore → Nat := a.chore.elim 0 fun c => Pi.single c 1

theorem Act.cost_chore {a : Act} {c : Chore} (h : a.chore = some c) : a.cost c = 1 := by
  rw [Act.cost, h]
  exact Pi.single_eq_same c 1

theorem Act.cost_of_ne {a : Act} {c : Chore} (h : a.chore ≠ some c) : a.cost c = 0 := by
  rw [Act.cost]
  cases hchore : a.chore with
  | none => rfl
  | some d => exact Pi.single_eq_of_ne (fun he => h (hchore.trans (congrArg some he.symm))) 1

/-- How often a thread does each after the stop. A back-off of 5000 ms is slept in pieces of 50 ms, between which
`running` is tested but not `live_ended`. -/
def StopKind.most : StopKind → Chore → Nat
  | _, .network => 1
  | _, .receive => 1
  | .disconnect, .test => 2
  | .disconnect, .sleep => 1
  | .live_end, .test => 102
  | .live_end, .sleep => 100

theorem StopKind.most_pos (k : StopKind) (c : Chore) : 0 < k.most c := by
  cases c <;> cases k <;> decide

/-- `reset` tells that the thread will not reset the flag any more, `spent` counts its chores since it noticed the
stop. -/
structure StopState where
  reset : Bool
  spent : Option (Chore → Nat) := none

def stop_monitor (k : StopKind) : Monitor Act Resp StopState where
  ok g a := (k.resets a → g.reset = false) ∧
    ∀ c, a.chore = some c → ∀ spent, g.spent = some spent → spent c < k.most c
  next g a r g' := g'.reset = (g.reset || k.resets a) ∧
    (g.spent = none ∧ g'.spent = none ∨ k.Shows a r ∧ g'.spent = some (g.spent.getD 0 + a.cost))

/-- At most `b` has been spent since the stop. -/
def Budget (b : Chore → Nat) (g : StopState) : Prop := g.reset = true ∧ ∀ spent, g.spent = some spent → spent ≤ b

/-- A budget by its numbers. -/
def chores_of (network receive test sleep : Nat) : Chore → Nat
  | .network => network
  | .receive => receive
  | .test => test
  | .sleep => sleep

/-- A budget that leaves `n` tests. -/
def StopKind.before (k : StopKind) (n : Nat) : Chore → Nat
  | .test => k.most .test - n
  | c => k.most c

variable {cfg : Config} {k : StopKind} {b b' : Chore → Nat} {g : StopState}

theorem Budget.mono (h : Budget b g) (hle : b ≤ b') : Budget b' g :=
  ⟨h.1, fun spent hs => (h.2 spent hs).trans hle⟩

/-- What fits into a budget is seen number by number. -/
theorem chores_le {n r t s : Nat} (hn : n ≤ b .network) (hr : r ≤ b .receive) (ht : t ≤ b .test) (hs : s ≤ b .sleep) :
    chores_of n r t s ≤ b := by
  intro c
  cases c with
  | network => exact hn
  | receive => exact hr
  | test => exact ht
  | sleep => exact hs

theorem spent_le {g' : StopState} {a : Act} {r : Resp a} (hnext : (stop_monitor k).next g a r g')
    (hg : ∀ spent, g.spent = some spent → spent ≤ b) : ∀ spent, g'.spent = some spent → spent ≤ b + a.cost := by
  intro spent hspent
  rcases hnext.2 with ⟨-, hnone⟩ | ⟨-, hsome⟩
  · rw [hnone] at hspent; cases hspent
  · rw [hsome] at hspent
    cases hspent
    refine fun c => Nat.add_le_add_right ?_ (a.cost c)
    cases hs : g.spent with
    | none => exact Nat.zero_le _
    | some spent => exact hg spent hs c

/-- An action adds its cost. What it reads may show that the stop has not been noticed. -/
theorem stop_spends {a : Act} (hr : k.resets a = false) (hb : ∀ c, a.chore = some c → b c < k.most c)
    (hg : Budget b g) : wp (stop_monitor k) (call a)
      (fun r g' => Budget (b + a.cost) g' ∧ (¬ k.Shows a r → Budget 0 g')) g := by
  refine ⟨⟨fun h => ?_, fun c hc spent hs => Nat.lt_of_le_of_lt (hg.2 spent hs c) (hb c hc)⟩, fun r g' hnext => ?_⟩
  · rw [hr] at h; cases h
  · have hreset : g'.reset = true := by rw [hnext.1, hg.1]; rfl
    refine ⟨⟨hreset, spent_le hnext hg.2⟩, fun hshows => ⟨hreset, fun spent hs => ?_⟩⟩
    rcases hnext.2 with ⟨-, hnone⟩ | ⟨hshow, -⟩
    · rw [hnone] at hs; cases hs
    · exact absurd hshow hshows

/-- An action that neither resets the flag nor is a chore leaves the budget as it is. -/
theorem stop_keeps {a : Act} (hr : k.resets a = false) (hn : a.chore = none) :
    Keeps (stop_monitor k) (Budget b) (call a) := by
  refine fun g hg => wp_mono (stop_spends hr (fun c hc => ?_) hg) fun r g' h => ?_
  · rw [hn] at hc; cases hc
  · have h' := h.1
    rwa [Act.cost, hn, Option.elim_none, add_zero] at h'

/-- A chore, done within the budget. -/
theorem stop_chore {a : Act} {c : Chore} {d : Chore → Nat} (hr : k.resets a = false) (hc : a.chore = some c)
    (hb : b c < k.most c) (hg : Budget b g) (hle : b + Pi.single c 1 ≤ d) :
    wp (stop_monitor k) (call a) (fun _ g' => Budget d g') g := by
  refine wp_mono (stop_spends hr (fun c' hc' => ?_) hg) fun r g' h => h.1.mono (le_trans (le_of_eq ?_) hle)
  · rw [hc] at hc'; cases hc'; exact hb
  · rw [Act.cost, hc, Option.elim_some]

theorem stop_still (a : Act) (h : a.still) : Keeps (stop_monitor k) (Budget b) (call a) := by
  refine stop_keeps ?_ ?_
  · cases a with
    | store f v => cases f <;> cases v <;> cases k <;> first | rfl | cases h
    | _ => rfl
  · cases a <;> first | rfl | cases h

theorem stop_sending (a : Act) (h : a.sending) : Keeps (stop_monitor k) (Budget b) (call a) :=
  stop_keeps (by cases a <;> first | rfl | cases h) (by cases a <;> first | rfl | cases h)

theorem stop_mark (m : Mark) : Keeps (stop_monitor k) (Budget b) (mark m) := stop_keeps rfl rfl

theorem stop_net (op : NetOp) (h : ∀ url hs, op ≠ .get .im_fetch url hs) :
    Keeps (stop_monitor k) (Budget b) (net op) := by
  refine (stop_keeps rfl ?_).bind fun _ => stop_keeps rfl rfl
  cases op with
  | get page url hs => cases page <;> first | rfl | exact absurd rfl (h url hs)
  | _ => rfl

theorem stop_get (page : Page) (url : Bytes) (hs : ParamList) (h : page.plain) :
    Keeps (stop_monitor k) (Budget b) (net (.get page url hs)) :=
  stop_net _ fun _ _ he => by cases he; cases h

theorem stop_invoke (c : Callee) : Keeps (stop_monitor k) (Budget b) (invoke (api cfg) c) :=
  keeps_invoke stop_still stop_get c (stop_keeps rfl rfl) (stop_keeps rfl rfl)

theorem stop_sink (kind data : Bytes) : Keeps (stop_monitor k) (Budget b) (sink cfg kind data) :=
  .ite (stop_invoke _) (keeps_pure _)

theorem stop_emit (ev : Event) : Keeps (stop_monitor k) (Budget b) (emit cfg ev) :=
  keeps_emit (stop_mark _) fun _ => stop_invoke _

theorem stop_dispatch_message (msg : BaseProtoMessage) :
    Keeps (stop_monitor k) (Budget b) (dispatch_message cfg msg) :=
  keeps_dispatch_message (fun _ => stop_mark _) (stop_keeps rfl rfl) (stop_keeps rfl rfl)
    (fun _ => stop_keeps rfl rfl) (fun _ => stop_sink _ _) (fun _ => stop_emit _) (stop_keeps (by cases k <;> rfl) rfl)
    msg

/-! ### Tests -/

/-- A flag other than `running` can be looked at freely; reading it as going shows that the stop has not been
noticed. -/
theorem stop_load {f : Flag} (hf : f ≠ .running) (hg : Budget b g) :
    wp (stop_monitor k) (load f) (fun r g' => Budget b g' ∧ (f = k.flag → r = k.going → Budget 0 g')) g := by
  have hn : (Act.load f).chore = none := by
    cases f with
    | running => exact absurd rfl hf
    | _ => rfl
  refine wp_mono (stop_spends rfl (fun c hc => by rw [hn] at hc; cases hc) hg) fun r g' h => ⟨?_, fun hk hr => h.2 ?_⟩
  · have h' := h.1
    rwa [Act.cost, hn, Option.elim_none, add_zero] at h'
  · intro hshows
    have hstop : r = !k.going := hshows hk
    rw [hr] at hstop
    cases k <;> cases hstop

theorem stop_keeps_load {f : Flag} (hf : f ≠ .running) : Keeps (stop_monitor k) (Budget b) (load f) := fun _ hg =>
  wp_mono (stop_load hf hg) fun _ _ h => h.1

/-- A look at `running` is a test. -/
theorem stop_running (hb : b .test < k.most .test) (hg : Budget b g) : wp (stop_monitor k) (load .running)
    (fun r g' => Budget (b + Pi.single .test 1) g' ∧ (k = .disconnect → r = true → Budget 0 g')) g := by
  refine wp_mono (stop_spends rfl (fun c hc => by cases hc; exact hb) hg) fun r g' h => ⟨h.1, fun hk hr => h.2 ?_⟩
  subst hk
  intro hshows
  have hstop : r = false := hshows rfl
  rw [hr] at hstop
  cases hstop

/-- A loop test is one test, and when it succeeds it was begun before the stop was noticed. -/
theorem stop_alive (hb : b .test < k.most .test) (hg : Budget b g) : wp (stop_monitor k) alive
    (fun r g' => Budget (b + Pi.single .test 1) g' ∧ (r = true → Budget 0 g')) g := by
  refine wp_bind.2 (wp_mono (stop_running hb hg) fun running g₁ h₁ => ?_)
  cases running with
  | false => exact ⟨h₁.1, nofun⟩
  | true =>
    cases k with
    | disconnect =>
      -- `running` was read before the stop, so nothing has been spent in the rest of the test
      have hkeep : Keeps (stop_monitor .disconnect) (Budget 0) (do
          if ← load .stop_requested then return false else return !(← load .live_ended)) := by
        refine (stop_keeps_load (f := .stop_requested) nofun).bind fun s => .ite (keeps_pure _) ?_
        exact (stop_keeps_load (f := .live_ended) nofun).bind fun _ => keeps_pure _
      exact wp_mono (hkeep g₁ (h₁.2 rfl rfl)) fun _ _ h => ⟨h.mono fun _ => Nat.zero_le _, fun _ => h⟩
    | live_end =>
      refine wp_bind.2 (wp_mono (stop_load nofun h₁.1) fun stop g₂ h₂ => ?_)
      cases stop with
      | true => exact ⟨h₂.1, nofun⟩
      | false =>
        refine wp_bind.2 (wp_mono (stop_load nofun h₂.1) fun live g₃ h₃ => ?_)
        cases live with
        | true => exact ⟨h₃.1, nofun⟩
        | false => exact ⟨h₃.1, fun _ => h₃.2 rfl rfl⟩

/-- The test of a back-off looks at two of the flags, so it shows a `disconnect` only. -/
theorem stop_not_stopped (hb : b .test < k.most .test) (hg : Budget b g) : wp (stop_monitor k) not_stopped
    (fun r g' => Budget (b + Pi.single .test 1) g' ∧ (k = .disconnect → r = true → Budget 0 g')) g := by
  refine wp_bind.2 (wp_mono (stop_running hb hg) fun running g₁ h₁ => ?_)
  cases running with
  | false => exact ⟨h₁.1, nofun⟩
  | true =>
    have hkeep : ∀ {b}, Keeps (stop_monitor k) (Budget b) (do return !(← load .stop_requested)) := fun {b} =>
      (stop_keeps_load (f := .stop_requested) nofun).bind fun _ => keeps_pure _
    cases k with
    | disconnect =>
      refine wp_mono (hkeep g₁ (h₁.2 rfl rfl)) fun _ _ h => ⟨h.mono fun _ => Nat.zero_le _, fun _ _ => h⟩
    | live_end => exact wp_mono (hkeep g₁ h₁.1) fun _ _ h => ⟨h, nofun⟩

/-- A loop test at its place in the program: `n` tests are left before it. -/
theorem stop_if_alive {α : Type} {p q : Code α} {Q : α → StopState → Prop} {n : Nat} (hn : n < k.most .test)
    (hg : Budget (k.before (n + 1)) g)
    (hp : ∀ g', Budget 0 g' → wp (stop_monitor k) p Q g')
    (hq : ∀ g', Budget (k.before n) g' → wp (stop_monitor k) q Q g') :
    wp (stop_monitor k) (do if ← alive then p else q) Q g := by
  have htest : k.before (n + 1) .test < k.most .test := by
    show k.most .test - (n + 1) < k.most .test
    omega
  refine wp_bind.2 (wp_mono (stop_alive htest hg) fun r g' h => ?_)
  cases r with
  | true => exact hp g' (h.2 rfl)
  | false =>
    refine hq g' (h.1.mono fun c => ?_)
    cases c with
    | test =>
      show k.most .test - (n + 1) + 1 ≤ k.most .test - n
      omega
    | _ => exact le_of_eq (Nat.add_zero _)

/-! ### The two operations -/

theorem Budget.zero (h : Budget 0 g) : Budget b g := h.mono fun _ => Nat.zero_le _

theorem before_mono {n m : Nat} (h : n ≤ m) : k.before m ≤ k.before n := by
  intro c
  cases c with
  | test => exact Nat.sub_le_sub_left h _
  | _ => exact le_refl _

theorem fetched_le : Pi.single .network 1 ≤ k.before 1 := by
  intro c
  cases c <;> cases k <;> decide

theorem stop_fetch_request {cursor internal_ext : Bytes} (hb : b .network < k.most .network) (hg : Budget b g) :
    wp (stop_monitor k) (fetch_request cfg cursor internal_ext).run
      (fun _ g' => Budget (b + Pi.single .network 1) g') g := by
  have hle : b ≤ b + Pi.single .network 1 := fun _ => Nat.le_add_right _ _
  have hcookie : Keeps (stop_monitor k) (Budget b) (net .cookie_header) := stop_net _ (by simp)
  refine (Keeps.run_lift (stop_still .room_id rfl)).run_then hg (fun room_id g₁ h₁ => ?_) fun _ _ h => h.mono hle
  refine (keeps_sign_with_cookies hcookie (fun _ => stop_net _ (by simp)) (stop_net _ (by simp))).run_then h₁
    (fun url g₂ h₂ => ?_) fun _ _ h => h.mono hle
  refine wp_run_bind.2 (wp_bind.2 (wp_mono (stop_chore rfl rfl hb h₂ le_rfl) fun _ g₃ h₃ => ?_))
  refine wp_mono (stop_keeps rfl rfl g₃ h₃) fun resp g₄ h₄ => ?_
  cases resp with
  | error e => exact h₄
  | ok resp => exact keeps_fetch_response (fun _ => stop_sink _ _) resp g₄ h₄

theorem stop_fetch_once {cursor internal_ext : Bytes} (hb : b .network < k.most .network) (hg : Budget b g) :
    wp (stop_monitor k) (fetch_once cfg cursor internal_ext) (fun _ g' => Budget (b + Pi.single .network 1) g') g := by
  refine wp_bind.2 (wp_mono (stop_mark _ g hg) fun _ g₁ h₁ => wp_bind.2 (wp_locked_iff.2 ?_))
  refine wp_mono (stop_keeps rfl rfl g₁ h₁) fun _ g₂ h₂ => wp_mono (stop_fetch_request hb h₂) fun r g₃ h₃ => ?_
  exact wp_mono (stop_keeps rfl rfl g₃ h₃) fun _ g₄ h₄ => ((stop_mark _).bind fun _ => keeps_pure _) g₄ h₄

/-- A fetch before anything has been spent. -/
theorem stop_first_fetch {cursor internal_ext : Bytes} (hg : Budget 0 g) :
    wp (stop_monitor k) (fetch_once cfg cursor internal_ext) (fun _ g' => Budget (Pi.single .network 1) g') g :=
  wp_mono (stop_fetch_once (k.most_pos .network) hg) fun _ _ h => by rwa [zero_add] at h

theorem stop_open_session {cur : ProtoMessageFetchResult} (hg : Budget 0 g) :
    wp (stop_monitor k) (open_session cur).run (fun _ g' => Budget (Pi.single .network 1) g') g := by
  have hurl : Keeps (stop_monitor k) (Budget 0) (locked .net_mu_ (session_url cur).run) :=
    keeps_locked (stop_keeps rfl rfl) (stop_keeps rfl rfl) (keeps_session_url stop_still (stop_net _ (by simp))
      (fun _ => stop_net _ (by simp)) fun _ _ => stop_net _ (by simp))
  exact Keeps.run_then (p := ExceptT.mk _) hurl hg
    (fun x g' hg' => stop_chore (by cases k <;> rfl) rfl (k.most_pos .network) hg' (zero_add _).le) fun _ _ h => h.zero

/-! ### The loops -/

/-- What a round of the receive loop may have spent. -/
def session_spent : Chore → Nat := chores_of 1 1 0 1

theorem session_spent_le : session_spent ≤ k.before 2 := by
  intro c
  cases c <;> cases k <;> decide

theorem stop_session_alive (hg : Budget session_spent g) : wp (stop_monitor k) session_alive
    (fun r g' => Budget (k.before 1) g' ∧ (r = true → Budget 0 g')) g := by
  refine stop_if_alive (n := 1) (by cases k <;> decide) (hg.mono session_spent_le) (fun g₁ h₁ => ?_) fun g₁ h₁ => ?_
  · exact wp_mono (stop_keeps rfl rfl g₁ h₁) fun _ _ h => ⟨h.zero, fun _ => h⟩
  · exact ⟨h₁, nofun⟩

theorem stop_session_round (last_hb : Int) (hg : Budget session_spent g) :
    wp (stop_monitor k) (session_round cfg last_hb)
      (fun x g' => Sum.elim (fun _ => Budget session_spent g') (fun _ => Budget (k.before 1) g') x) g := by
  have hround : ∀ {x : Int ⊕ Bool} {g' : StopState}, Budget session_spent g' →
      Sum.elim (fun _ => Budget session_spent g') (fun _ => Budget (k.before 1) g') x := by
    rintro (_ | _) g' h
    · exact h
    · exact h.mono (session_spent_le.trans (before_mono (by decide)))
  have hbeat : ∀ hb, Keeps (stop_monitor k) (Budget session_spent) (heartbeat_if_due cfg hb) :=
    fun hb => keeps_heartbeat_if_due stop_sending hb
  refine wp_bind.2 (wp_mono (stop_session_alive hg) fun going g₁ h₁ => ?_)
  cases going with
  | false => exact h₁.1
  | true =>
    refine wp_bind.2 (wp_mono (stop_chore (d := Pi.single .receive 1) rfl rfl (by cases k <;> decide) (h₁.2 rfl)
      (zero_add _).le) fun r g₂ h₂ => ?_)
    have hreceived : Budget session_spent g₂ := h₂.mono fun c => by cases c <;> decide
    obtain ⟨st, msg⟩ := r
    cases st with
    | Message =>
      refine wp_bind.2 (wp_mono (keeps_ws_handle_frame stop_sending stop_dispatch_message (fun _ => stop_sink _ _) msg
        g₂ hreceived) fun ended g₃ h₃ => ?_)
      cases ended with
      | true => exact hround (x := .inr true) h₃
      | false => exact wp_mono (hbeat last_hb g₃ h₃) fun _ _ h => hround h
    | Again =>
      refine wp_bind.2 (wp_mono (stop_chore (d := session_spent) rfl rfl (by cases k <;> decide) h₂
        fun c => by cases c <;> decide) fun _ g₃ h₃ => ?_)
      exact wp_mono (hbeat last_hb g₃ h₃) fun _ _ h => hround h
    | Closed => exact hround (x := .inr false) hreceived
    | Error => exact hround (x := .inr false) hreceived

theorem stop_pump_session (hg : Budget (Pi.single .network 1) g) :
    wp (stop_monitor k) (pump_session cfg) (fun _ g' => Budget (k.before 1) g') g := by
  have hg : Budget session_spent g := hg.mono fun c => by cases c <;> decide
  refine wp_bind.2 (wp_mono (stop_keeps rfl rfl g hg) fun _ g₁ h₁ => ?_)
  refine wp_bind.2 (wp_mono (keeps_ws_send_enter_room stop_sending g₁ h₁) fun _ g₂ h₂ => ?_)
  refine wp_bind.2 (wp_mono (stop_sending .now rfl g₂ h₂) fun last_hb g₃ h₃ => ?_)
  have hrounds : wp (stop_monitor k) (iterate (session_round cfg) last_hb) (fun _ => Budget (k.before 1)) g₃ :=
    wp_iterate (fun _ => Budget session_spent) h₃ fun hb _ h => stop_session_round hb h
  refine wp_bind.2 (wp_mono hrounds fun ended g₄ h₄ => ?_)
  have hrest : Keeps (stop_monitor k) (Budget (k.before 1)) (do
      call .close
      if ← load .stop_requested then return WsResult.Stopped
      else if ended then return WsResult.LiveEnded
      else if ← load .live_ended then return WsResult.LiveEnded
      else return WsResult.Dropped) := by
    refine (stop_still .close rfl).bind fun _ => (stop_keeps_load (f := .stop_requested) nofun).bind fun _ => ?_
    refine .ite (keeps_pure _) (.ite (keeps_pure _) ?_)
    exact (stop_keeps_load (f := .live_ended) nofun).bind fun _ => .ite (keeps_pure _) (keeps_pure _)
  exact hrest g₄ h₄

theorem stop_run_websocket {cur : ProtoMessageFetchResult} (hg : Budget 0 g) :
    wp (stop_monitor k) (run_websocket cfg cur) (fun _ g' => Budget (k.before 1) g') g := by
  refine wp_bind.2 (wp_mono (stop_mark _ g hg) fun _ g₁ h₁ => ?_)
  refine wp_bind.2 (wp_mono (stop_open_session h₁) fun r g₂ h₂ => ?_)
  cases r with
  | error e => exact ((stop_mark _).bind fun _ => keeps_pure _) g₂ (h₂.mono fetched_le)
  | ok _ =>
    refine wp_bind.2 (wp_mono (stop_pump_session h₂) fun r g₃ h₃ => ?_)
    exact ((stop_mark _).bind fun _ => keeps_pure _) g₃ h₃

theorem stop_sleep_disconnect (ms : Int) (hg : Budget 0 g) : wp (stop_monitor .disconnect) (interruptible_sleep ms)
    (fun _ g' => Budget (chores_of 0 0 1 1) g') g := by
  refine wp_iterate (fun _ g' => Budget (chores_of 0 0 0 1) g') hg.zero fun slept g hg => ?_
  split
  · refine wp_bind.2 (wp_mono (stop_not_stopped (by decide) hg) fun going g₁ h₁ => ?_)
    cases going with
    | true =>
      refine wp_bind.2 (wp_mono (stop_chore (d := chores_of 0 0 0 1) rfl rfl (by decide) (h₁.2 rfl rfl) ?_)
        fun _ _ h => h)
      exact fun c => by cases c <;> decide
    | false => exact h₁.1.mono fun c => by cases c <;> decide
  · exact hg.mono fun c => by cases c <;> decide

/-- After a live end each piece of the back-off costs one test and one sleep. -/
theorem stop_sleep_live_end {ms : Int} (hms : ms ≤ 5000) (hg : Budget 0 g) :
    wp (stop_monitor .live_end) (interruptible_sleep ms) (fun _ g' => Budget (chores_of 0 0 100 100) g') g := by
  refine wp_iterate (fun slept g' => ∃ i : Nat, slept = 50 * i ∧ i ≤ 100 ∧ Budget (chores_of 0 0 i i) g')
    ⟨0, rfl, by decide, hg.zero⟩ ?_
  rintro slept g ⟨i, rfl, hi, hg⟩
  split
  · next hlt =>
    have hi' : i < 100 := by omega
    refine wp_bind.2 (wp_mono (stop_not_stopped (Nat.lt_trans hi' (by decide)) hg) fun going g₁ h₁ => ?_)
    cases going with
    | true =>
      refine wp_bind.2 (wp_mono (stop_chore (d := chores_of 0 0 (i + 1) (i + 1)) rfl rfl hi' h₁.1 ?_)
        fun _ g₂ h₂ => ?_)
      · exact fun c => by cases c <;> exact le_of_eq rfl
      · exact ⟨i + 1, by push_cast; omega, hi', h₂⟩
    | false => exact h₁.1.mono fun c => by cases c <;> first | exact Nat.zero_le _ | exact hi' | exact hi
  · exact hg.mono (chores_le (Nat.zero_le _) (Nat.zero_le _) hi hi)

/-- What a back-off may have spent when it leads to a fetch. -/
def StopKind.slept (k : StopKind) : Chore → Nat := chores_of 0 0 (k.most .test - 1) (k.most .sleep)

theorem slept_le : k.slept + Pi.single .network 1 ≤ k.before 1 := by
  intro c
  cases c <;> cases k <;> decide

theorem backoff_le (n : Nat) : backoff n ≤ 5000 := by
  unfold backoff
  split
  · exact min_le_right _ _
  · decide

theorem stop_back_off {n : Nat} {α : Type} {p q : Code α} {Q : α → StopState → Prop} (hg : Budget 0 g)
    (hp : ∀ g', Budget k.slept g' → wp (stop_monitor k) p Q g')
    (hq : ∀ g', Budget (k.before 0) g' → wp (stop_monitor k) q Q g') : wp (stop_monitor k) (do
      interruptible_sleep (backoff n)
      if ← not_stopped then p else q) Q g := by
  cases k with
  | disconnect =>
    refine wp_bind.2 (wp_mono (stop_sleep_disconnect _ hg) fun _ g₁ h₁ => ?_)
    refine wp_bind.2 (wp_mono (stop_not_stopped (by decide) h₁) fun going g₂ h₂ => ?_)
    cases going with
    | true => exact hp g₂ (h₂.2 rfl rfl).zero
    | false => exact hq g₂ (h₂.1.mono fun c => by cases c <;> decide)
  | live_end =>
    refine wp_bind.2 (wp_mono (stop_sleep_live_end (backoff_le n) hg) fun _ g₁ h₁ => ?_)
    refine wp_bind.2 (wp_mono (stop_not_stopped (by decide) h₁) fun going g₂ h₂ => ?_)
    cases going with
    | true => exact hp g₂ (h₂.1.mono fun c => by cases c <;> decide)
    | false => exact hq g₂ (h₂.1.mono fun c => by cases c <;> decide)

theorem stop_reconnect (s : Reconnect) (hg : Budget (k.before 1) g) : wp (stop_monitor k) (reconnect cfg s)
    (fun x g' => Sum.elim (fun _ => Budget (k.before 1) g') (fun handled => Budget (k.before 0) g' ∧ handled = true) x)
    g := by
  refine stop_if_alive (n := 0) (by cases k <;> decide) hg (fun g₁ h₁ => ?_) fun _ h => ⟨h, rfl⟩
  refine stop_back_off h₁ (fun g₂ h₂ => ?_) fun _ h => ⟨h, rfl⟩
  refine wp_bind.2 (wp_mono (stop_fetch_once (by cases k <;> decide) h₂) fun r g₃ h₃ => ?_)
  cases r <;> exact h₃.mono slept_le

/-- A loop that gives up has a test left, for the poll loop it hands over to. -/
theorem stop_run_websocket_with_reconnect {initial : ProtoMessageFetchResult} {allow_fallback : Bool}
    (hg : Budget (k.before 1) g) : wp (stop_monitor k) (run_websocket_with_reconnect cfg initial allow_fallback)
      (fun handled g' => Budget (k.before 0) g' ∧ (handled = false → Budget (k.before 1) g')) g := by
  have hless : k.before 1 ≤ k.before 0 := before_mono (by decide)
  have hreconnect : ∀ s g, Budget (k.before 1) g → wp (stop_monitor k) (reconnect cfg s)
      (fun x g' => Sum.elim (fun _ => Budget (k.before 1) g')
        (fun handled => Budget (k.before 0) g' ∧ (handled = false → Budget (k.before 1) g')) x) g := by
    refine fun s g hg => wp_mono (stop_reconnect s hg) fun x g' h => ?_
    cases x with
    | inl s' => exact h
    | inr handled => exact ⟨h.1, fun hno => absurd (h.2.symm.trans hno) (by decide)⟩
  refine wp_iterate (fun _ g' => Budget (k.before 1) g') hg fun s g hg => ?_
  refine stop_if_alive (n := 0) (by cases k <;> decide) hg (fun g₁ h₁ => ?_) fun _ h => ⟨h, nofun⟩
  refine wp_bind.2 (wp_mono (stop_run_websocket h₁) fun r g₂ h₂ => ?_)
  cases r with
  | LiveEnded => exact ⟨h₂.mono hless, nofun⟩
  | Stopped => exact ⟨h₂.mono hless, nofun⟩
  | Dropped => exact hreconnect _ _ h₂
  | HandshakeFailed =>
    refine wp_bind.2 (wp_mono (stop_keeps rfl rfl g₂ h₂) fun ever g₃ h₃ => ?_)
    split
    · exact ⟨h₃.mono hless, fun _ => h₃⟩
    · split
      · split
        · exact ⟨h₃.mono hless, fun _ => h₃⟩
        · exact hreconnect _ _ h₃
      · exact hreconnect _ _ h₃

theorem stop_poll_sleep (ms : Int) (hg : Budget 0 g) :
    wp (stop_monitor k) (poll_sleep ms) (fun _ g' => Budget (k.before 1) g') g := by
  have hless : k.before 2 ≤ k.before 1 := before_mono (by decide)
  refine wp_iterate (fun _ g' => Budget (k.before 2) g') hg.zero fun slept g hg => ?_
  split
  · refine stop_if_alive (n := 1) (by cases k <;> decide) hg (fun g₁ h₁ => ?_) fun _ h => h
    refine wp_bind.2 (wp_mono (stop_chore (d := k.before 2) rfl rfl (by cases k <;> decide) h₁ ?_) fun _ _ h => h)
    exact fun c => by cases c <;> cases k <;> decide
  · exact hg.mono hless

theorem stop_poll_loop {initial : ProtoMessageFetchResult} (hg : Budget (k.before 1) g) :
    wp (stop_monitor k) (poll_loop cfg initial) (fun _ g' => Budget (k.before 0) g') g := by
  refine wp_bind.2 (wp_mono (stop_mark _ g hg) fun _ g₁ h₁ => ?_)
  refine wp_iterate (fun _ g' => Budget (k.before 1) g') h₁ fun s g hg => ?_
  refine stop_if_alive (n := 0) (by cases k <;> decide) hg (fun g₁ h₁ => ?_) fun _ h => h
  refine wp_bind.2 (wp_mono (stop_mark _ g₁ h₁) fun _ g₂ h₂ => ?_)
  refine wp_bind.2 (wp_mono (stop_poll_sleep _ h₂) fun _ g₃ h₃ => ?_)
  refine stop_if_alive (n := 0) (by cases k <;> decide) h₃ (fun g₄ h₄ => ?_) fun _ h => h
  refine wp_bind.2 (wp_mono (stop_first_fetch h₄) fun r g₅ h₅ => ?_)
  cases r with
  | error e =>
    refine wp_bind.2 (wp_mono (stop_chore (d := k.before 1) rfl rfl (by cases k <;> decide) h₅ ?_) fun _ _ h => h)
    exact fun c => by cases c <;> cases k <;> decide
  | ok batch =>
    have hbatch : Keeps (stop_monitor k) (Budget (k.before 1)) (process_fetch_result cfg batch) :=
      keeps_process_fetch_result stop_dispatch_message batch
    refine wp_bind.2 (wp_mono (hbatch g₅ (h₅.mono fetched_le)) fun ended g₆ h₆ => ?_)
    cases ended with
    | true => exact h₆.mono (before_mono (by decide))
    | false => exact h₆

theorem stop_transport {initial : ProtoMessageFetchResult} (hg : Budget (k.before 1) g) :
    wp (stop_monitor k) (transport cfg initial) (fun _ g' => Budget (k.before 0) g') g := by
  unfold transport
  split
  · refine wp_bind.2 (wp_mono (stop_keeps rfl rfl g hg) fun _ g₁ h₁ => ?_)
    refine wp_bind.2 (wp_mono (stop_run_websocket_with_reconnect h₁) fun _ g₂ h₂ => ?_)
    exact ((stop_still (.store .stop_requested true) rfl).bind fun _ => stop_keeps rfl rfl) g₂ h₂.1
  · split
    · refine wp_bind.2 (wp_mono (stop_run_websocket_with_reconnect hg) fun handled g₁ h₁ => ?_)
      cases handled with
      | true => exact h₁.1
      | false => exact stop_poll_loop (h₁.2 rfl)
    · exact stop_poll_loop hg

theorem stop_stream_events (initial : ProtoMessageFetchResult) (hg : Budget (k.before 1) g) :
    wp (stop_monitor k) (stream_events cfg initial) (fun _ g' => Budget (k.before 0) g') g := by
  refine wp_bind.2 (wp_mono (stop_keeps rfl rfl g hg) fun room_id g₁ h₁ => ?_)
  refine wp_bind.2 (wp_mono (stop_keeps rfl rfl g₁ h₁) fun stream g₂ h₂ => ?_)
  refine wp_bind.2 (wp_mono (stop_emit _ g₂ h₂) fun _ g₃ h₃ => ?_)
  have hlast : ∀ g, Budget (k.before 1) g → wp (stop_monitor k) (do
      transport cfg initial
      store .running false
      emit cfg disconnect_event) (fun _ g' => Budget (k.before 0) g') g := fun g hg =>
    wp_bind.2 (wp_mono (stop_transport hg) fun _ g' h =>
      ((stop_still (.store .running false) rfl).bind fun _ => stop_emit _) g' h)
  split
  · refine wp_bind.2 (wp_mono (keeps_process_fetch_result stop_dispatch_message initial g₃ h₃) fun _ g₄ h₄ => ?_)
    exact hlast g₄ h₄
  · exact hlast g₃ h₃

/-! ### The threads -/

/-- The state of a thread before it starts: only the caller of `run` may reset the flags. -/
def stop_start (t : Tid) : StopState := { reset := t ≠ .main }

/-- The first lines of `run`: the store that resets the flag may be made, the other two change nothing. -/
theorem stop_stores {α : Type} {p : Code α} {Q : α → StopState → Prop}
    (h : ∀ g, Budget 0 g → wp (stop_monitor k) p Q g) : wp (stop_monitor k) (do
      store .running true
      store .stop_requested false
      store .live_ended false
      p) Q (stop_start .main) := by
  cases k with
  | disconnect =>
    refine wp_perform_bind.2 ⟨⟨fun _ => rfl, nofun⟩, fun r g₁ hnext => ?_⟩
    have h₁ : Budget 0 g₁ := ⟨hnext.1, spent_le hnext nofun⟩
    refine wp_bind.2 (wp_mono (stop_keeps rfl rfl g₁ h₁) fun _ g₂ h₂ => ?_)
    exact wp_bind.2 (wp_mono (stop_keeps rfl rfl g₂ h₂) fun _ g₃ h₃ => h g₃ h₃)
  | live_end =>
    refine wp_perform_bind.2 ⟨⟨nofun, nofun⟩, fun r g₁ hnext₁ => ?_⟩
    refine wp_perform_bind.2 ⟨⟨nofun, nofun⟩, fun r g₂ hnext₂ => ?_⟩
    have hreset : g₂.reset = false := by rw [hnext₂.1, hnext₁.1]; rfl
    have hspent := spent_le hnext₂ (spent_le (b := 0) hnext₁ nofun)
    refine wp_perform_bind.2 ⟨⟨fun _ => hreset, nofun⟩, fun r g₃ hnext₃ => h g₃ ?_⟩
    exact ⟨by rw [hnext₃.1]; exact Bool.or_true _, spent_le hnext₃ hspent⟩

theorem stop_run : wp (stop_monitor k) (run cfg) (fun _ _ => True) (stop_start .main) := by
  refine stop_stores fun g₁ h₁ => ?_
  refine wp_bind.2 (wp_mono (keeps_set_up stop_still stop_get (fun _ _ => stop_net _ (by simp))
    (fun _ => stop_keeps rfl rfl) (fun _ => stop_keeps rfl rfl) g₁ h₁) fun r g₂ h₂ => ?_)
  cases r with
  | error e => trivial
  | ok _ =>
    refine wp_bind.2 (wp_mono (stop_first_fetch h₂) fun r g₃ h₃ => ?_)
    cases r with
    | error e => trivial
    | ok initial => exact wp_bind.2 (wp_mono (stop_stream_events initial (h₃.mono fetched_le)) fun _ _ _ => trivial)

theorem stop_threads (calls : Nat → List ApiCall) (t : Tid) :
    wp (stop_monitor k) (threads cfg calls t) (fun _ _ => True) (stop_start t) := by
  have h₀ : ∀ t ≠ Tid.main, ∀ b, Budget b (stop_start t) := fun t ht b => ⟨by simpa [stop_start] using ht, nofun⟩
  cases t with
  | main => exact stop_run
  | poller =>
    refine wp_bind.2 (wp_mono (stop_keeps rfl rfl _ (h₀ _ (by simp) (k.before 1))) fun initial g₁ h₁ => ?_)
    refine wp_bind.2 (wp_mono (stop_poll_loop h₁) fun _ g₂ h₂ => ?_)
    exact wp_bind.2 (wp_mono (stop_keeps (b := k.before 0) rfl rfl g₂ h₂) fun _ _ _ => trivial)
  | app n =>
    exact wp_mono (keeps_application stop_still stop_get (calls n) _ (h₀ _ (by simp) 0)) fun _ _ _ => trivial

end TtLive
