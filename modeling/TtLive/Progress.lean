import TtLive.Exclusion
import TtLive.Waiting

/-!
# The threads of a client cannot block each other for ever

A thread takes a mutex only while it holds none, and waits for the poll thread only while it holds none and after it has
created it (`WaitState.Allows`). So a thread that cannot take its next step waits for one that can, through one other at
most (`run_progresses`).
-/

namespace TtLive
open Prog Threads

/-- What a thread holds, and what it has done for the poll thread. -/
structure WaitState where
  held : Option Mutex := none
  spawned : Bool := false
  exited : Bool := false

namespace WaitState

def next (g : WaitState) : Act → WaitState
  | .lock m => { g with held := some m }
  | .unlock _ => { g with held := none }
  | .spawn _ => { g with spawned := true }
  | .exit => { g with exited := true }
  | _ => g

def Allows (t : Tid) (g : WaitState) : Act → Prop
  | .lock _ => g.held = none
  | .unlock m => g.held = some m
  | .spawn _ => t = .main
  | .join => t = .main ∧ g.held = none ∧ g.spawned = true
  | .spawned | .exit => t = .poller ∧ g.held = none
  | _ => True

/-- The thread holds `held`, and has created the poll thread if it must have. -/
def At (held : Option Mutex) (spawned : Bool) (g : WaitState) : Prop :=
  g.held = held ∧ (spawned = true → g.spawned = true)

theorem next_held {g : WaitState} {a : Act} (hl : ∀ m, a ≠ .lock m) (hu : ∀ m, a ≠ .unlock m) :
    (g.next a).held = g.held := by
  cases a with
  | lock m => exact absurd rfl (hl m)
  | unlock m => exact absurd rfl (hu m)
  | _ => rfl

theorem next_spawned {g : WaitState} {a : Act} (h : ∀ initial, a ≠ .spawn initial) :
    (g.next a).spawned = g.spawned := by
  cases a with
  | spawn initial => exact absurd rfl (h initial)
  | _ => rfl

theorem next_exited {g : WaitState} {a : Act} (h : a ≠ .exit) : (g.next a).exited = g.exited := by
  cases a with
  | exit => exact absurd rfl h
  | _ => rfl

end WaitState

/-- The actions this is about. -/
def Act.waiting : Act → Bool
  | .lock _ | .unlock _ | .spawn _ | .spawned | .exit | .join => true
  | _ => false

abbrev wait_monitor (t : Tid) : Monitor Act Resp WaitState := .det (WaitState.Allows t) fun g a _ => g.next a

/-! ### The code of the client -/

section
variable {cfg : Config} {t : Tid} {I : WaitState → Prop} {b : Bool}

theorem wait_keeps {a : Act} (h : a.waiting = false) : Keeps (wait_monitor t) I (call a) := by
  intro g hg
  cases a <;> first | exact ⟨trivial, fun _ _ hn => hn ▸ hg⟩ | cases h

theorem wait_plain (a : Act) (h : a.plain) : Keeps (wait_monitor t) I (call a) :=
  wait_keeps (by cases a <;> first | rfl | cases h)

theorem wait_mark (m : Mark) : Keeps (wait_monitor t) I (mark m) := wait_keeps rfl

theorem wait_net (op : NetOp) : Keeps (wait_monitor t) I (net op) := (wait_keeps rfl).bind fun _ => wait_keeps rfl

theorem wait_invoke (c : Callee) : Keeps (wait_monitor t) I (invoke (api cfg) c) :=
  keeps_invoke (still_of wait_plain) (fun _ _ _ _ => wait_net _) c (wait_keeps rfl) (wait_keeps rfl)

theorem wait_sink (kind data : Bytes) : Keeps (wait_monitor t) I (sink cfg kind data) :=
  .ite (wait_invoke _) (keeps_pure _)

theorem wait_emit (ev : Event) : Keeps (wait_monitor t) I (emit cfg ev) :=
  keeps_emit (wait_mark _) fun _ => wait_invoke _

theorem wait_lock (m : Mutex) (g : WaitState) (hg : g.At none b) :
    wp (wait_monitor t) (call (.lock m)) (fun _ g' => g'.At (some m) b) g := by
  refine ⟨hg.1, ?_⟩
  rintro - _ rfl
  exact ⟨rfl, hg.2⟩

theorem wait_unlock (m : Mutex) (g : WaitState) (hg : g.At (some m) b) :
    wp (wait_monitor t) (call (.unlock m)) (fun _ g' => g'.At none b) g := by
  refine ⟨hg.1, ?_⟩
  rintro - _ rfl
  exact ⟨rfl, hg.2⟩

theorem wait_dispatch_message (msg : BaseProtoMessage) :
    Keeps (wait_monitor t) (·.At none b) (dispatch_message cfg msg) :=
  keeps_dispatch_message (fun _ => wait_mark _) (wait_lock _) (wait_unlock _) (fun _ => wait_keeps rfl)
    (fun _ => wait_sink _ _) (fun _ => wait_emit _) (wait_keeps rfl) msg

theorem wait_fetch_once (cursor internal_ext : Bytes) :
    Keeps (wait_monitor t) (·.At none b) (fetch_once cfg cursor internal_ext) :=
  keeps_fetch_once (fun _ _ => wait_mark _) (wait_lock _) (wait_unlock _)
    (keeps_fetch_request_of (still_of wait_plain) wait_net wait_sink)

theorem wait_open_session (initial : ProtoMessageFetchResult) :
    Keeps (wait_monitor t) (·.At none b) (open_session initial).run :=
  keeps_open_session (wait_lock _) (wait_unlock _) (keeps_session_url_of (still_of wait_plain) wait_net)
    fun _ _ _ => wait_keeps rfl

theorem wait_ws_path (initial : ProtoMessageFetchResult) (allow_fallback : Bool) :
    Keeps (wait_monitor t) (·.At none b) (run_websocket_with_reconnect cfg initial allow_fallback) :=
  keeps_run_websocket_with_reconnect wait_plain wait_dispatch_message (wait_keeps rfl) (fun _ => wait_sink _ _)
    (fun _ _ => wait_mark _) wait_open_session wait_fetch_once initial allow_fallback

theorem wait_poll_loop (initial : ProtoMessageFetchResult) :
    Keeps (wait_monitor t) (·.At none b) (poll_loop cfg initial) :=
  keeps_poll_loop (calm_of wait_plain) wait_dispatch_message wait_fetch_once (fun _ _ => wait_mark _) initial

theorem wait_transport (initial : ProtoMessageFetchResult) :
    Keeps (wait_monitor .main) (·.At none false) (transport cfg initial) := by
  refine .ite (fun g hg => wp_perform_bind.2 ⟨rfl, ?_⟩) (.ite ?_ (wait_poll_loop _))
  · -- in dual mode the poll thread exists from here on
    rintro - _ rfl
    have hspawned : (g.next (.spawn initial)).At none true := ⟨hg.1, fun _ => rfl⟩
    refine wp_bind.2 (wp_mono (wait_ws_path initial false _ hspawned) fun _ g' hg' => ?_)
    refine wp_bind.2 (wp_mono (wait_keeps (I := (·.At none true)) rfl g' hg') fun _ g'' hg'' => ?_)
    refine ⟨⟨rfl, hg''.1, hg''.2 rfl⟩, ?_⟩
    rintro - _ rfl
    exact ⟨hg''.1, nofun⟩
  · exact (wait_ws_path initial true).bind fun _ => .ite (keeps_pure _) (wait_poll_loop _)

theorem wait_run : Keeps (wait_monitor .main) (·.At none false) (run cfg) :=
  keeps_run (fun _ _ => wait_keeps rfl)
    (keeps_set_up (still_of wait_plain) (fun _ _ _ _ => wait_net _) (fun _ _ => wait_net _) (fun _ => wait_keeps rfl)
      fun _ => wait_keeps rfl) (wait_fetch_once _ _)
    (keeps_stream_events (still_of wait_plain) (wait_keeps rfl) wait_dispatch_message wait_transport
      (fun _ _ => wait_emit _) (wait_emit _))

/-- The poll thread ends with `exit`. -/
theorem wait_poller : wp (wait_monitor .poller) (poller cfg) (fun _ g => g.held = none ∧ g.exited = true) {} := by
  refine wp_perform_bind.2 ⟨⟨rfl, rfl⟩, ?_⟩
  rintro initial _ rfl
  refine wp_bind.2 (wp_mono (wait_poll_loop (b := false) initial _ ⟨rfl, nofun⟩) fun _ g hg => ?_)
  refine wp_perform_bind.2 ⟨⟨rfl, hg.1⟩, ?_⟩
  rintro - _ rfl
  exact ⟨hg.1, rfl⟩

theorem wait_threads (calls : Nat → List ApiCall) (t : Tid) : wp (wait_monitor t) (threads cfg calls t)
    (fun _ g => g.held = none ∧ (t = .poller → g.exited = true)) {} := by
  have hidle : ({} : WaitState).At none false := ⟨rfl, nofun⟩
  cases t with
  | main => exact wp_mono (wait_run _ hidle) fun _ _ hg => ⟨hg.1, nofun⟩
  | poller => exact wp_mono wait_poller fun _ _ hg => ⟨hg.1, fun _ => hg.2⟩
  | app n =>
    have happ : Keeps (wait_monitor (.app n)) (·.At none false) (application cfg (calls n)) :=
      keeps_application (still_of wait_plain) (fun _ _ _ _ => wait_net _) (calls n)
    exact wp_mono (happ _ hidle) fun _ _ hg => ⟨hg.1, nofun⟩

end

/-! ### The world -/

/-- Only `exit` ends the poll thread. -/
theorem World.sem_exited {t : Tid} {w w' : World} {a : Act} {r : Resp a} (h : World.sem t w a r w') (ha : a ≠ .exit) :
    w'.exited = w.exited := by
  cases a with
  | lock m => rw [(sem_lock h).2]
  | unlock m => rw [(sem_unlock h).2]
  | spawned => rw [(sem_spawned h).2]
  | join => rw [(sem_join h).2]
  | exit => exact absurd rfl ha
  | _ => obtain ⟨env, h⟩ := h; cases h; rfl

/-- The threads hold what the world says, and the poll thread is created and over where they have done that. -/
structure WaitInv (w : World) (g : Tid → WaitState) : Prop where
  held : ∀ m t, w.owner m = some t ↔ (g t).held = some m
  spawned : (g .main).spawned = true → w.spawned.isSome
  exited : (g .poller).exited = true → w.exited = true

namespace WaitInv
variable {w w' : World} {g : Tid → WaitState} {t : Tid} {a : Act} {r : Resp a}

theorem init (hw : w.Idle) : WaitInv w fun _ => {} :=
  ⟨fun m t => by rw [hw.owner]; exact ⟨nofun, nofun⟩, nofun, nofun⟩

theorem update_of_eq {β : Type} {p : WaitState → β} {g' : WaitState} (h : p g' = p (g t)) {u : Tid} :
    p (Function.update g t g' u) = p (g u) := by
  by_cases hu : u = t
  · subst hu
    rwa [Function.update_self]
  · rw [Function.update_of_ne hu]

theorem lock {m : Mutex} (h : WaitInv w g) (hnone : (g t).held = none) (hfree : w.owner m = none) (m' : Mutex)
    (u : Tid) : Function.update w.owner m (some t) m' = some u ↔
      (Function.update g t { g t with held := some m } u).held = some m' := by
  by_cases hm : m' = m
  · subst hm
    rw [Function.update_self]
    by_cases hu : u = t
    · subst hu
      simp
    · have hnot : (g u).held ≠ some m' := fun hu' => by simp [(h.held m' u).2 hu'] at hfree
      simp [hu, Ne.symm hu, hnot]
  · rw [Function.update_of_ne hm, h.held]
    by_cases hu : u = t
    · subst hu
      simp [hnone, Ne.symm hm]
    · rw [Function.update_of_ne hu]

theorem unlock {m : Mutex} (h : WaitInv w g) (hheld : (g t).held = some m) (m' : Mutex) (u : Tid) :
    Function.update w.owner m none m' = some u ↔
      (Function.update g t { g t with held := none } u).held = some m' := by
  by_cases hm : m' = m
  · subst hm
    rw [Function.update_self]
    by_cases hu : u = t
    · subst hu
      simp
    · have hnot : (g u).held ≠ some m' := fun hu' =>
        hu (Option.some_injective _ (((h.held m' u).2 hu').symm.trans ((h.held m' t).2 hheld)))
      simp [hu, hnot]
  · rw [Function.update_of_ne hm, h.held]
    by_cases hu : u = t
    · subst hu
      simp [hheld, Ne.symm hm]
    · rw [Function.update_of_ne hu]

theorem step (h : WaitInv w g) (hok : (g t).Allows t a) (hs : World.sem t w a r w') :
    WaitInv w' (Function.update g t ((g t).next a)) where
  held m u := by
    by_cases hl : ∃ m, a = .lock m
    · obtain ⟨m, rfl⟩ := hl
      obtain ⟨hfree, rfl⟩ := World.sem_lock hs
      exact h.lock hok hfree _ _
    · by_cases hul : ∃ m, a = .unlock m
      · obtain ⟨m, rfl⟩ := hul
        obtain ⟨-, rfl⟩ := World.sem_unlock hs
        exact h.unlock hok _ _
      · have hsame := WaitState.next_held (g := g t) (fun m ha => hl ⟨m, ha⟩) fun m ha => hul ⟨m, ha⟩
        rw [World.sem_owner hs (fun ha => hl ⟨m, ha⟩) (fun ha => hul ⟨m, ha⟩), h.held, update_of_eq hsame]
  spawned hg := by
    by_cases ha : ∃ initial, a = .spawn initial
    · obtain ⟨initial, rfl⟩ := ha
      obtain ⟨env, hs⟩ := hs
      cases hs
      rfl
    · have ha : ∀ initial, a ≠ .spawn initial := fun initial heq => ha ⟨initial, heq⟩
      rw [update_of_eq (WaitState.next_spawned ha)] at hg
      rw [World.sem_spawn hs ha]
      exact h.spawned hg
  exited hg := by
    by_cases ha : a = .exit
    · subst ha
      obtain ⟨env, hs⟩ := hs
      cases hs
      rfl
    · rw [update_of_eq (WaitState.next_exited ha)] at hg
      rw [World.sem_exited hs ha]
      exact h.exited hg

end WaitInv

/-! ### Who waits for whom -/

section
variable {cfg : Config} {calls : Nat → List ApiCall} {w : World} {tr : List (Tid × Ev Resp)}
  {c : Conf Tid World Act Resp (Except Exn Unit)}

inductive WaitsFor (c : Conf Tid World Act Resp (Except Exn Unit)) : Tid → Tid → Prop
  | mutex {t u : Tid} {m : Mutex} {k} (hp : c.prog t = .act (.lock m) k) (ho : c.world.owner m = some u) :
    WaitsFor c t u
  | join {k} (hp : c.prog .main = .act .join k) (he : c.world.exited = false) : WaitsFor c .main .poller

/-- The thread has returned, or is the poll thread and waits to be created. -/
def AtRest (c : Conf Tid World Act Resp (Except Exn Unit)) (t : Tid) : Prop :=
  (∃ x, c.prog t = .ret x) ∨ t = .poller ∧ c.world.spawned = none ∧ ∃ k, c.prog t = .act .spawned k

/-- The actions that are not always answered. -/
theorem World.answered (t : Tid) (w : World) (a : Act) : (∃ r w', World.sem t w a r w') ∨
    (∃ m u, a = .lock m ∧ w.owner m = some u) ∨ (∃ m, a = .unlock m ∧ w.owner m ≠ some t) ∨
      (a = .spawned ∧ w.spawned = none) ∨ (a = .join ∧ w.exited = false) := by
  let env := sample_env [] .again
  cases a with
  | lock m =>
    cases ho : w.owner m with
    | none => exact .inl ⟨_, _, env, if_pos ho⟩
    | some u => exact .inr (.inl ⟨m, u, rfl, ho⟩)
  | unlock m =>
    by_cases ho : w.owner m = some t
    · exact .inl ⟨_, _, env, if_pos ho⟩
    · exact .inr (.inr (.inl ⟨m, rfl, ho⟩))
  | spawned =>
    cases hi : w.spawned with
    | none => exact .inr (.inr (.inr (.inl ⟨rfl, rfl⟩)))
    | some initial => exact .inl ⟨_, _, env, Option.map_eq_some_iff.2 ⟨initial, hi, rfl⟩⟩
  | join =>
    cases he : w.exited with
    | false => exact .inr (.inr (.inr (.inr ⟨rfl, rfl⟩)))
    | true => exact .inl ⟨_, _, env, if_pos he⟩
  | _ => exact .inl ⟨_, _, env, rfl⟩

/-- What is left of the programs keeps to the discipline, in states that agree with the world. -/
structure Orderly (c : Conf Tid World Act Resp (Except Exn Unit)) (g : Tid → WaitState) : Prop where
  world : WaitInv c.world g
  programs : ∀ t, wp (wait_monitor t) (c.prog t) (fun _ g => g.held = none ∧ (t = .poller → g.exited = true)) (g t)

namespace Orderly
variable {g : Tid → WaitState} {t u : Tid} {m : Mutex} {a : Act}

theorem allows (h : Orderly c g) {k} (hp : c.prog t = .act a k) : (g t).Allows t a := by
  have ht := h.programs t
  rw [hp] at ht
  exact ht.1

theorem returned (h : Orderly c g) {x} (hp : c.prog t = .ret x) :
    (g t).held = none ∧ (t = .poller → (g t).exited = true) := by
  have ht := h.programs t
  rw [hp] at ht
  exact ht

/-- A thread that waits for another: `join` is behind `lock`. -/
def rank : Option Act → Nat
  | some (.lock _) => 1
  | some .join => 2
  | _ => 0

theorem rank_holder (h : Orderly c g) (ho : c.world.owner m = some t) : rank (pending (c.prog t)) = 0 := by
  have hheld := (h.world.held m t).1 ho
  cases hp : c.prog t with
  | ret x => rfl
  | loop body s k => rfl
  | act a k =>
    have hok := h.allows hp
    cases a with
    | lock m' => exact absurd (hheld.symm.trans hok) nofun
    | join => exact absurd (hheld.symm.trans hok.2.1) nofun
    | _ => rfl

theorem rank_poller (h : Orderly c g) : rank (pending (c.prog .poller)) ≤ 1 := by
  cases hp : c.prog .poller with
  | ret x => exact Nat.zero_le 1
  | loop body s k => exact Nat.zero_le 1
  | act a k =>
    have hok := h.allows hp
    cases a with
    | join => exact absurd hok.1 nofun
    | lock m => exact Nat.le_refl 1
    | _ => exact Nat.zero_le 1

theorem rank_lt (h : Orderly c g) (hwaits : WaitsFor c t u) :
    rank (pending (c.prog u)) < rank (pending (c.prog t)) := by
  cases hwaits with
  | mutex hp ho =>
    rw [h.rank_holder ho, hp]
    exact Nat.one_pos
  | join hp he =>
    rw [hp]
    exact Nat.lt_succ_of_le h.rank_poller

/-- A thread that holds a mutex is on its way to give it back. -/
theorem holder_busy (h : Orderly c g) (ho : c.world.owner m = some t) : ¬ AtRest c t := by
  have hheld := (h.world.held m t).1 ho
  rintro (⟨x, hp⟩ | ⟨rfl, -, k, hp⟩)
  · exact absurd (hheld.symm.trans (h.returned hp).1) nofun
  · exact absurd (hheld.symm.trans (h.allows hp).2) nofun

theorem poller_busy (h : Orderly c g) {k} (hp : c.prog .main = .act .join k) (he : c.world.exited = false) :
    ¬ AtRest c .poller := by
  rintro (⟨x, hret⟩ | ⟨-, hnone, -⟩)
  · have hexited := h.world.exited ((h.returned hret).2 rfl)
    exact absurd (he.symm.trans hexited) nofun
  · have hsome := h.world.spawned (h.allows hp).2.2
    rw [hnone] at hsome
    cases hsome

theorem waits (h : Orderly c g) (ht : ¬ AtRest c t) :
    CanStep World.sem c t ∨ ∃ u, WaitsFor c t u ∧ ¬ AtRest c u := by
  rcases canStep_cases World.sem c t with hret | hcan | ⟨a, k, hp, hno⟩
  · exact absurd (.inl hret) ht
  · exact .inl hcan
  · have hok := h.allows hp
    rcases World.answered t c.world a with ⟨r, w', hs⟩ | ⟨m, u, rfl, ho⟩ | ⟨m, rfl, ho⟩ | ⟨rfl, hs⟩ | ⟨rfl, he⟩
    · exact absurd hs (hno r w')
    · exact .inr ⟨u, .mutex hp ho, h.holder_busy ho⟩
    · exact absurd ((h.world.held m t).2 hok) ho
    · exact absurd (.inr ⟨hok.1, hs, k, hp⟩) ht
    · obtain ⟨rfl, -, -⟩ := hok
      exact .inr ⟨.poller, .join hp he, h.poller_busy hp he⟩

end Orderly

/-- In every reachable state each thread has returned, or is the poll thread and waits to be created, or waits in the
end for a thread that can take its next step. -/
theorem run_progresses (hw : w.Idle) (h : Run World.sem (start cfg calls w) tr c) (t : Tid) :
    AtRest c t ∨ ∃ u, Relation.ReflTransGen (WaitsFor c) t u ∧ CanStep World.sem c u := by
  obtain ⟨g, hinv, hwp⟩ := h.invariant (M := wait_monitor) (I := fun _ w g => WaitInv w g)
    (fun _ _ _ _ _ _ _ hI hok hs => ⟨_, rfl, hI.step hok hs⟩) (.init hw) (wait_threads calls)
  have horderly : Orderly c g := ⟨hinv, hwp⟩
  by_cases hrest : AtRest c t
  · exact .inl hrest
  · exact .inr (exists_canStep (fun _ _ => horderly.rank_lt) (fun _ => horderly.waits) hrest)

end

/-- `run` comes to the lock of its first session, and the poll thread into its first fetch. -/
def waiting_schedule : List (Tid × Env) := List.replicate 31 (.main, dual_env) ++ List.replicate 64 (.poller, dual_env)

theorem waiting_runs : (execute World.step waiting_schedule dual_start).isSome := by decide +kernel

theorem run_progresses_waiting :
    let c := ((execute World.step waiting_schedule dual_start).get waiting_runs).2
    c.world.owner .net_mu_ = some .poller ∧ (fire World.step c .main dual_env).isNone ∧
      (AtRest c .main ∨ ∃ u, Relation.ReflTransGen (WaitsFor c) .main u ∧ CanStep World.sem c u) := by
  refine ⟨by decide +kernel, by decide +kernel, ?_⟩
  exact run_progresses World.idle_init (run_of_isSome World.sem_of_step waiting_runs) .main

end TtLive
