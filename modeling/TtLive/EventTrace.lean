import TtLive.Emission

/-!
# The event trace of a run

Three invariants over the interleavings of the two transport threads (`m` is the caller of `run`, `p` the
poll thread). `Discipline`: at most one of them is emitting, since it holds `dispatch_mu_` or the other one
is not running. `Delivered`: the invocations made so far and those still due are the blocks of the emitted
events, and these are `Connect`, messages, `Disconnect`. `LiveFlag`: `live_ended` tells whether a `LiveEnd`
was emitted. Application threads emit nothing.
-/

namespace TtLive
open Prog Threads

/-- What the emission of events depends on in the shared memory. -/
structure EmitView where
  owner : Option Tid
  spawned : Bool
  exited : Bool
  live : Bool

namespace EmitView

/-- The view after an action of thread `t`. -/
def after (t : Tid) (v : EmitView) : Act → EmitView
  | .lock .dispatch_mu_ => { v with owner := some t }
  | .unlock .dispatch_mu_ => { v with owner := none }
  | .store .live_ended b => { v with live := b }
  | .spawn _ => { v with spawned := true }
  | .exit => { v with exited := true }
  | _ => v

/-- When an action of thread `t` is answered. -/
def Answered (t : Tid) (v : EmitView) : Act → Prop
  | .lock .dispatch_mu_ => v.owner = none
  | .unlock .dispatch_mu_ => v.owner = some t
  | .spawned => v.spawned = true
  | .join => v.exited = true
  | _ => True

end EmitView

def World.emit_view (w : World) : EmitView where
  owner := w.owner .dispatch_mu_
  spawned := w.spawned.isSome
  exited := w.exited
  live := w.flag .live_ended

theorem World.sem_emit_view {t : Tid} {w w' : World} {a : Act} {r : Resp a} (h : World.sem t w a r w') :
    w.emit_view.Answered t a ∧ w'.emit_view = w.emit_view.after t a := by
  cases a with
  | lock m =>
    obtain ⟨ho, rfl⟩ := sem_lock h
    cases m with
    | dispatch_mu_ => exact ⟨ho, rfl⟩
    | net_mu_ => exact ⟨trivial, rfl⟩
  | unlock m =>
    obtain ⟨ho, rfl⟩ := sem_unlock h
    cases m with
    | dispatch_mu_ => exact ⟨ho, rfl⟩
    | net_mu_ => exact ⟨trivial, rfl⟩
  | spawned =>
    obtain ⟨hi, rfl⟩ := sem_spawned h
    exact ⟨Option.isSome_iff_exists.2 ⟨r, hi⟩, rfl⟩
  | join =>
    obtain ⟨he, rfl⟩ := sem_join h
    exact ⟨he, rfl⟩
  | store f b => obtain ⟨env, h⟩ := h; cases h; cases f <;> exact ⟨trivial, rfl⟩
  | _ => obtain ⟨env, h⟩ := h; cases h; exact ⟨trivial, rfl⟩

/-! ### At most one thread is emitting -/

structure Discipline (v : EmitView) (m p : EmitState) : Prop where
  m_owner : m.locked = true ↔ v.owner = some .main
  p_owner : p.locked = true ↔ v.owner = some .poller
  m_todo : m.todo ≠ [] → m.locked = true ∨ m.polling = false
  p_todo : p.todo ≠ [] → p.locked = true
  m_pending : m.pending = true → m.locked = true
  p_pending : p.pending = true → p.locked = true
  m_locked : m.locked = true → m.stage = .streaming
  p_locked : p.locked = true → p.stage = .streaming
  p_spawned : p.stage = .streaming → v.spawned = true
  p_exited : v.exited = true → p.stage = .finished
  spawned : v.spawned = true → m.polling = true ∨ p.stage = .finished
  polling : m.polling = true → m.stage = .streaming
  before : m.stage = .start ∨ m.stage = .cleared → v.spawned = false

variable {cfg : Config} {v : EmitView} {m p : EmitState} {a : Act}

theorem EmitView.after_silent {t : Tid} (h : a.emits = false) : v.after t a = v := by
  cases a with
  | lock m => cases m <;> first | rfl | cases h
  | unlock m => cases m <;> first | rfl | cases h
  | store f b => cases f <;> first | rfl | cases h
  | _ => first | rfl | cases h

theorem Discipline.main_step (h : Discipline v m p) (hrole : m.role = .main) (hok : m.Allows cfg a)
    (hans : v.Answered .main a) : Discipline (v.after .main a) (m.next cfg a) p := by
  induction a using Act.emit_cases with
  | silent a he =>
    rw [(emit_silent a he m).2, EmitView.after_silent he]
    exact h
  | emit ev =>
    obtain ⟨-, -, ⟨-, hs, room_id, stream, rfl⟩ | ⟨hs, hl, h₁, h₂⟩ | ⟨-, hs, hl, hpoll, rfl⟩⟩ := hok
    · have hpoll : m.polling = false := Bool.eq_false_iff.2 fun hp => by cases hs.symm.trans (h.polling hp)
      rw [next_connect]
      exact { h with
        m_todo := fun _ => .inr hpoll, m_pending := by simp, m_locked := fun _ => rfl, polling := fun _ => rfl
        before := by simp }
    · rw [next_message m h₁ h₂]
      exact { h with m_todo := fun _ => .inl hl, m_pending := fun _ => hl }
    · rw [next_disconnect]
      exact { h with
        m_todo := fun _ => .inr hpoll, m_pending := by simp, m_locked := fun hm => by cases hl.symm.trans hm
        polling := fun hp => by cases hpoll.symm.trans hp
        before := by simp }
  | enter id ev => exact { h with m_todo := fun ht => h.m_todo fun h0 => ht (by rw [EmitState.next, h0]; rfl) }
  | leave id ev => exact { h with m_todo := fun ht => h.m_todo fun h0 => ht (by rw [EmitState.next, h0]; rfl) }
  | lock =>
    have hp : p.locked = false := Bool.eq_false_iff.2 fun hp => by cases hans.symm.trans (h.p_owner.1 hp)
    exact { h with
      m_owner := ⟨fun _ => rfl, fun _ => rfl⟩, p_owner := by simp [hp, EmitView.after]
      m_todo := fun _ => .inl rfl, m_pending := fun _ => rfl, m_locked := fun _ => hok.1 }
  | unlock =>
    obtain ⟨htodo, hpend, -⟩ := hok
    have hp : p.locked = false := Bool.eq_false_iff.2 fun hp => by cases hans.symm.trans (h.p_owner.1 hp)
    exact { h with
      m_owner := by simp [EmitState.next, EmitView.after], p_owner := by simp [hp, EmitView.after]
      m_todo := fun ht => absurd htodo ht, m_pending := fun ht => by cases hpend.symm.trans ht
      m_locked := by simp [EmitState.next] }
  | live b =>
    cases b with
    | true => exact { h with m_pending := by simp [EmitState.next] }
    | false =>
      have hpoll : m.polling = false := Bool.eq_false_iff.2 fun hp => by cases hok.2.symm.trans (h.polling hp)
      exact { h with
        m_locked := fun hm => by cases hok.2.symm.trans (h.m_locked hm)
        polling := fun hp => by cases hpoll.symm.trans hp
        before := fun _ => h.before (.inl hok.2) }
  | spawn initial =>
    obtain ⟨-, hs, htodo⟩ := hok
    exact { h with
      m_todo := fun ht => absurd htodo ht, p_spawned := fun _ => rfl, spawned := fun _ => .inl rfl
      polling := fun _ => hs, before := fun hb => by rcases hb with hb | hb <;> cases hs.symm.trans hb }
  | join => exact { h with
      m_todo := fun _ => .inr rfl
      spawned := fun _ => .inr (h.p_exited hans)
      polling := by simp [EmitState.next] }
  | spawned => cases hrole.symm.trans hok.1
  | exit => cases hrole.symm.trans hok.1

theorem Discipline.poller_step (h : Discipline v m p) (hrole : p.role = .poller) (hok : p.Allows cfg a)
    (hans : v.Answered .poller a) : Discipline (v.after .poller a) m (p.next cfg a) := by
  induction a using Act.emit_cases with
  | silent a he =>
    rw [(emit_silent a he p).2, EmitView.after_silent he]
    exact h
  | emit ev =>
    obtain ⟨-, -, ⟨hmain, -⟩ | ⟨hs, hl, h₁, h₂⟩ | ⟨hmain, -⟩⟩ := hok
    · cases hrole.symm.trans hmain
    · rw [next_message p h₁ h₂]
      exact { h with p_todo := fun _ => hl, p_pending := fun _ => hl }
    · cases hrole.symm.trans hmain
  | enter id ev => exact { h with p_todo := fun ht => h.p_todo fun h0 => ht (by rw [EmitState.next, h0]; rfl) }
  | leave id ev => exact { h with p_todo := fun ht => h.p_todo fun h0 => ht (by rw [EmitState.next, h0]; rfl) }
  | lock =>
    have hm : m.locked = false := Bool.eq_false_iff.2 fun hm => by cases hans.symm.trans (h.m_owner.1 hm)
    exact { h with
      m_owner := by simp [hm, EmitView.after]
      p_owner := ⟨fun _ => rfl, fun _ => rfl⟩
      p_todo := fun _ => rfl, p_pending := fun _ => rfl, p_locked := fun _ => hok.1 }
  | unlock =>
    obtain ⟨htodo, hpend, -⟩ := hok
    have hm : m.locked = false := Bool.eq_false_iff.2 fun hm => by cases hans.symm.trans (h.m_owner.1 hm)
    exact { h with
      m_owner := by simp [hm, EmitView.after]
      p_owner := by simp [EmitState.next, EmitView.after]
      p_todo := fun ht => absurd htodo ht, p_pending := fun ht => by cases hpend.symm.trans ht
      p_locked := by simp [EmitState.next] }
  | live b =>
    cases b with
    | true => exact { h with p_pending := by simp [EmitState.next] }
    | false => cases hrole.symm.trans hok.1
  | spawn initial => cases hrole.symm.trans hok.1
  | join => cases hrole.symm.trans hok.1
  | spawned =>
    obtain ⟨-, hs⟩ := hok
    have hpoll : m.polling = true := (h.spawned hans).resolve_right fun hf => by cases hs.symm.trans hf
    exact { h with
      p_locked := fun _ => rfl, p_spawned := fun _ => hans
      p_exited := fun he => by cases hs.symm.trans (h.p_exited he)
      spawned := fun _ => .inl hpoll }
  | exit =>
    obtain ⟨-, hs, htodo, hpend, hlock⟩ := hok
    exact { h with
      p_todo := fun ht => absurd htodo ht, p_locked := fun hl => by cases hlock.symm.trans hl
      p_spawned := by simp [EmitState.next], p_exited := fun _ => rfl, spawned := fun _ => .inr rfl }

/-- A thread that may emit finds nobody else emitting. -/
theorem Discipline.main_alone (h : Discipline v m p) (hm : m.locked = true ∨ m.polling = false) :
    p.todo = [] := by
  by_contra hp
  have hl := h.p_todo hp
  rcases hm with hm | hm
  · cases (h.m_owner.1 hm).symm.trans (h.p_owner.1 hl)
  · -- the poll thread is running, so the caller of `run` has not joined it
    have hs := h.p_locked hl
    rcases h.spawned (h.p_spawned hs) with hpoll | hf
    · cases hm.symm.trans hpoll
    · cases hs.symm.trans hf

theorem Discipline.poller_alone (h : Discipline v m p) (hp : p.locked = true) :
    m.todo = [] ∧ m.stage = .streaming := by
  have hs := h.p_locked hp
  have hpoll : m.polling = true := (h.spawned (h.p_spawned hs)).resolve_right fun hf => by cases hs.symm.trans hf
  refine ⟨?_, h.polling hpoll⟩
  by_contra hm
  rcases h.m_todo hm with hl | hn
  · cases (h.m_owner.1 hl).symm.trans (h.p_owner.1 hp)
  · cases hpoll.symm.trans hn

/-! ### The invocations -/

def emission : Act → Option Event
  | .mark (.emit ev) => some ev
  | _ => none

def invocation : Act → Option CallbackEv
  | .call_begin (.callback id ev) => some (.enter id ev)
  | .call_end (.callback id ev) => some (.leave id ev)
  | _ => none

theorem emission_silent (h : a.emits = false) : emission a = none := by
  cases a with
  | mark m => cases m <;> first | rfl | cases h
  | _ => rfl

theorem invocation_silent (h : a.emits = false) : invocation a = none := by
  cases a with
  | call_begin c => cases c <;> first | rfl | cases h
  | call_end c => cases c <;> first | rfl | cases h
  | _ => rfl

/-- Neither `Connect` nor `Disconnect`. -/
def Event.IsMessage (ev : Event) : Prop := ev.type ≠ .Connect ∧ ev.type ≠ .Disconnect

instance (ev : Event) : Decidable ev.IsMessage := inferInstanceAs (Decidable (_ ∧ _))

/-- `Connect`, then messages. -/
def Opened (cfg : Config) (em : List Event) : Prop :=
  ∃ room_id stream mids, em = connect_event cfg room_id stream :: mids ∧ ∀ ev ∈ mids, Event.IsMessage ev

/-- `Connect`, then messages, then `Disconnect`. -/
def Closed (cfg : Config) (em : List Event) : Prop := ∃ em', em = em' ++ [disconnect_event] ∧ Opened cfg em'

theorem Opened.snoc {em : List Event} {ev : Event} (h : Opened cfg em) (hev : ev.IsMessage) :
    Opened cfg (em ++ [ev]) := by
  obtain ⟨room_id, stream, mids, rfl, hmids⟩ := h
  refine ⟨room_id, stream, mids ++ [ev], rfl, fun e he => ?_⟩
  rcases List.mem_append.1 he with he | he
  · exact hmids e he
  · exact List.mem_singleton.1 he ▸ hev

/-- `em` are the emitted events, `log` the invocations made. -/
structure Delivered (cfg : Config) (em : List Event) (log : List CallbackEv) (m p : EmitState) : Prop where
  whole : log ++ (m.todo ++ p.todo) = em.flatMap (block cfg)
  early : m.stage = .start ∨ m.stage = .cleared → em = []
  streaming : m.stage = .streaming → Opened cfg em
  finished : m.stage = .finished → Closed cfg em

variable {em : List Event} {log : List CallbackEv}

theorem todo_cons {l : List CallbackEv} {x : CallbackEv} (h : l.head? = some x) : l = x :: l.tail := by
  cases l with
  | nil => cases h
  | cons y l => cases h; rfl

/-- A step that neither emits nor invokes. -/
theorem Delivered.quiet {m' p' : EmitState} (h : Delivered cfg em log m p) (hm : m'.todo = m.todo)
    (hp : p'.todo = p.todo) (hs : m'.stage = m.stage) : Delivered cfg (em ++ []) (log ++ []) m' p' := by
  rw [List.append_nil, List.append_nil]
  exact ⟨by rw [hm, hp]; exact h.whole, hs ▸ h.early, hs ▸ h.streaming, hs ▸ h.finished⟩

theorem Delivered.invoked {m' p' : EmitState} {x : CallbackEv} (h : Delivered cfg em log m p)
    (hx : m.todo ++ p.todo = x :: (m'.todo ++ p'.todo)) (hs : m'.stage = m.stage) :
    Delivered cfg (em ++ []) (log ++ [x]) m' p' := by
  have hwhole := h.whole
  rw [hx, List.append_cons] at hwhole
  rw [List.append_nil]
  exact ⟨hwhole, hs ▸ h.early, hs ▸ h.streaming, hs ▸ h.finished⟩

/-- An emission while nothing is due. -/
theorem Delivered.emitted_whole (h : Delivered cfg em log m p) (hm : m.todo = []) (hp : p.todo = [])
    (ev : Event) :
    log ++ [] ++ block cfg ev = (em ++ [ev]).flatMap (block cfg) := by
  have hwhole := h.whole
  rw [hm, hp, List.append_nil, List.append_nil] at hwhole
  rw [hwhole, List.append_nil, List.flatMap_append, List.flatMap_singleton]

theorem Delivered.main_step (h : Delivered cfg em log m p) (hd : Discipline v m p) (hrole : m.role = .main)
    (hok : m.Allows cfg a) :
    Delivered cfg (em ++ (emission a).toList) (log ++ (invocation a).toList) (m.next cfg a) p := by
  induction a using Act.emit_cases with
  | silent a he =>
    rw [(emit_silent a he m).2, emission_silent he, invocation_silent he]
    exact h.quiet rfl rfl rfl
  | emit ev =>
    obtain ⟨htodo, -, hcase⟩ := hok
    have halone : p.todo = [] := hd.main_alone <| by
      rcases hcase with ⟨-, hs, -⟩ | ⟨-, hl, -⟩ | ⟨-, -, -, hpoll, -⟩
      · exact .inr (Bool.eq_false_iff.2 fun hp => by cases hs.symm.trans (hd.polling hp))
      · exact .inl hl
      · exact .inr hpoll
    have hwhole : log ++ [] ++ (block cfg ev ++ p.todo) = (em ++ [ev]).flatMap (block cfg) := by
      rw [halone, List.append_nil (block cfg ev)]
      exact h.emitted_whole htodo halone ev
    rcases hcase with ⟨-, hs, room_id, stream, rfl⟩ | ⟨hs, hl, hev⟩ | ⟨-, hs, -, -, rfl⟩
    · refine ⟨hwhole, nofun, fun _ => ?_, nofun⟩
      rw [h.early (.inr hs)]
      exact ⟨room_id, stream, [], rfl, by simp⟩
    · rw [next_message m hev.1 hev.2]
      refine ⟨hwhole, fun he => ?_, fun _ => (h.streaming hs).snoc hev, fun hf => ?_⟩
      · rcases he with he | he <;> cases hs.symm.trans he
      · cases hs.symm.trans hf
    · exact ⟨hwhole, nofun, nofun, fun _ => ⟨em, rfl, h.streaming hs⟩⟩
  | enter id ev => exact h.invoked (by rw [todo_cons hok]; rfl) rfl
  | leave id ev => exact h.invoked (by rw [todo_cons hok]; rfl) rfl
  | live b =>
    cases b with
    | true => exact h.quiet rfl rfl rfl
    | false =>
      obtain ⟨-, hs⟩ := hok
      have hem : em ++ [] = [] := by rw [h.early (.inl hs)]; rfl
      have hwhole : log ++ [] ++ (m.todo ++ p.todo) = (em ++ []).flatMap (block cfg) := by
        rw [List.append_nil, List.append_nil]
        exact h.whole
      exact ⟨hwhole, fun _ => hem, nofun, nofun⟩
  | lock => exact h.quiet rfl rfl rfl
  | unlock => exact h.quiet rfl rfl rfl
  | spawn initial => exact h.quiet rfl rfl rfl
  | join => exact h.quiet rfl rfl rfl
  | spawned => cases hrole.symm.trans hok.1
  | exit => cases hrole.symm.trans hok.1

theorem Delivered.poller_step (h : Delivered cfg em log m p) (hd : Discipline v m p)
    (hrole : p.role = .poller)
    (hok : p.Allows cfg a) :
    Delivered cfg (em ++ (emission a).toList) (log ++ (invocation a).toList) m (p.next cfg a) := by
  have hinvoked : ∀ x, p.todo.head? = some x → m.todo ++ p.todo = x :: (m.todo ++ p.todo.tail) := by
    intro x hx
    have hcons := todo_cons hx
    rw [(hd.poller_alone (hd.p_todo fun h0 => by rw [h0] at hcons; cases hcons)).1]
    exact hcons
  induction a using Act.emit_cases with
  | silent a he =>
    rw [(emit_silent a he p).2, emission_silent he, invocation_silent he]
    exact h.quiet rfl rfl rfl
  | emit ev =>
    obtain ⟨htodo, -, ⟨hmain, -⟩ | ⟨hs, hl, hev⟩ | ⟨hmain, -⟩⟩ := hok
    · cases hrole.symm.trans hmain
    · obtain ⟨hm, hms⟩ := hd.poller_alone hl
      rw [next_message p hev.1 hev.2]
      refine ⟨?_, fun he => ?_, fun _ => (h.streaming hms).snoc hev, fun hf => ?_⟩
      · rw [hm]
        exact h.emitted_whole hm htodo ev
      · rcases he with he | he <;> cases hms.symm.trans he
      · cases hms.symm.trans hf
    · cases hrole.symm.trans hmain
  | enter id ev => exact h.invoked (hinvoked _ hok) rfl
  | leave id ev => exact h.invoked (hinvoked _ hok) rfl
  | live b =>
    cases b with
    | true => exact h.quiet rfl rfl rfl
    | false => cases hrole.symm.trans hok.1
  | lock => exact h.quiet rfl rfl rfl
  | unlock => exact h.quiet rfl rfl rfl
  | spawn initial => exact h.quiet rfl rfl rfl
  | join => exact h.quiet rfl rfl rfl
  | spawned => exact h.quiet rfl rfl rfl
  | exit => exact h.quiet rfl rfl rfl

/-! ### `live_ended` -/

/-- A `LiveEnd` was emitted. -/
def LiveEnded (em : List Event) : Prop := ∃ ev ∈ em, ev.type = .LiveEnd

theorem liveEnded_snoc {ev : Event} : LiveEnded (em ++ [ev]) ↔ LiveEnded em ∨ ev.type = .LiveEnd := by
  simp [LiveEnded, or_and_right, exists_or]

structure LiveFlag (em : List Event) (v : EmitView) (m p : EmitState) : Prop where
  cleared : m.stage = .cleared → v.live = false
  sound : m.stage = .streaming ∨ m.stage = .finished → v.live = true → LiveEnded em
  complete : LiveEnded em → v.live = true ∨ m.pending = true ∨ p.pending = true
  pending : m.pending = true ∨ p.pending = true → LiveEnded em

/-- A step that concerns no `LiveEnd`. -/
theorem LiveFlag.quiet {v' : EmitView} {m' p' : EmitState} (h : LiveFlag em v m p) (hv : v'.live = v.live)
    (hs : m'.stage = m.stage) (hm : m'.pending = m.pending) (hp : p'.pending = p.pending) :
    LiveFlag (em ++ []) v' m' p' := by
  rw [List.append_nil]
  obtain ⟨h₁, h₂, h₃, h₄⟩ := h
  rw [← hs, ← hv] at h₁ h₂
  rw [← hv, ← hm, ← hp] at h₃
  rw [← hm, ← hp] at h₄
  exact ⟨h₁, h₂, h₃, h₄⟩

theorem LiveFlag.stored {v' : EmitView} {m' p' : EmitState} (h : LiveFlag em v m p) (hv : v'.live = true)
    (hs : m'.stage = .streaming) (hpend : m.pending = true ∨ p.pending = true) : LiveFlag (em ++ []) v' m' p' := by
  have hl : LiveEnded (em ++ []) := by
    rw [List.append_nil]
    exact h.pending hpend
  exact ⟨fun hc => (by cases hs.symm.trans hc), fun _ _ => hl, fun _ => .inl hv, fun _ => hl⟩

/-- An event emitted while no `LiveEnd` is due to be stored. -/
theorem LiveFlag.emitted {m' p' : EmitState} {ev : Event} (h : LiveFlag em v m p) (hm : m.pending = false)
    (hp : p.pending = false) (hs : m.stage = .streaming) (hs' : m'.stage ≠ .cleared)
    (hpend : m'.pending = true ∨ p'.pending = true ↔ ev.type = .LiveEnd) : LiveFlag (em ++ [ev]) v m' p' := by
  refine ⟨fun hc => absurd hc hs', fun _ hv => ?_, fun hl => ?_, fun hl => ?_⟩
  · exact liveEnded_snoc.2 (.inl (h.sound (.inl hs) hv))
  · rcases liveEnded_snoc.1 hl with hl | hev
    · rcases h.complete hl with hv | hl | hl
      · exact .inl hv
      · cases hm.symm.trans hl
      · cases hp.symm.trans hl
    · exact .inr (hpend.2 hev)
  · exact liveEnded_snoc.2 (.inr (hpend.1 hl))

theorem LiveFlag.main_step (h : LiveFlag em v m p) (hem : m.stage = .start ∨ m.stage = .cleared → em = [])
    (hd : Discipline v m p) (hrole : m.role = .main) (hok : m.Allows cfg a) :
    LiveFlag (em ++ (emission a).toList) (v.after .main a) (m.next cfg a) p := by
  induction a using Act.emit_cases with
  | silent a he =>
    rw [(emit_silent a he m).2, emission_silent he, EmitView.after_silent he]
    exact h.quiet rfl rfl rfl rfl
  | emit ev =>
    obtain ⟨-, hpend, hcase⟩ := hok
    have hp : p.pending = false := Bool.eq_false_iff.2 fun hp => by
      have hl := hd.p_pending hp
      have hs := (hd.poller_alone hl).2
      rcases hcase with ⟨-, hs', -⟩ | ⟨-, hl', -⟩ | ⟨-, -, -, hpoll, -⟩
      · cases hs.symm.trans hs'
      · cases (hd.m_owner.1 hl').symm.trans (hd.p_owner.1 hl)
      · rcases hd.spawned (hd.p_spawned (hd.p_locked hl)) with hp' | hf
        · cases hpoll.symm.trans hp'
        · cases (hd.p_locked hl).symm.trans hf
    rcases hcase with ⟨-, hs, room_id, stream, rfl⟩ | ⟨hs, -, h₁, h₂⟩ | ⟨-, hs, -, -, rfl⟩
    · -- nothing was emitted before, and the flag was just reset
      rw [hem (.inr hs), next_connect]
      have hne : ¬ LiveEnded [connect_event cfg room_id stream] := by
        rintro ⟨ev, hev, hl⟩
        cases List.mem_singleton.1 hev
        cases hl
      refine ⟨nofun, fun _ hv => ?_, fun hl => absurd hl hne, fun hl => ?_⟩
      · cases (h.cleared hs).symm.trans hv
      · rcases hl with hl | hl
        · cases hl
        · cases hp.symm.trans hl
    · rw [next_message m h₁ h₂]
      exact h.emitted hpend hp hs (fun hc => by cases hs.symm.trans hc) (by simp [hp])
    · rw [next_disconnect]
      exact h.emitted hpend hp hs nofun (by simp [hp, disconnect_event])
  | live b =>
    cases b with
    | true => exact h.stored rfl (hd.m_locked (hd.m_pending hok)) (.inl hok)
    | false =>
      obtain ⟨-, hs⟩ := hok
      have hne : ¬ LiveEnded em := by rw [hem (.inl hs)]; simp [LiveEnded]
      have hne' : ¬ LiveEnded (em ++ []) := by rwa [List.append_nil]
      exact ⟨fun _ => rfl, nofun, fun hl => absurd hl hne', fun hl => absurd (h.pending hl) hne⟩
  | enter id ev => exact h.quiet rfl rfl rfl rfl
  | leave id ev => exact h.quiet rfl rfl rfl rfl
  | lock => exact h.quiet rfl rfl rfl rfl
  | unlock => exact h.quiet rfl rfl rfl rfl
  | spawn initial => exact h.quiet rfl rfl rfl rfl
  | join => exact h.quiet rfl rfl rfl rfl
  | spawned => cases hrole.symm.trans hok.1
  | exit => cases hrole.symm.trans hok.1

theorem LiveFlag.poller_step (h : LiveFlag em v m p) (hd : Discipline v m p) (hrole : p.role = .poller)
    (hok : p.Allows cfg a) : LiveFlag (em ++ (emission a).toList) (v.after .poller a) m (p.next cfg a) := by
  induction a using Act.emit_cases with
  | silent a he =>
    rw [(emit_silent a he p).2, emission_silent he, EmitView.after_silent he]
    exact h.quiet rfl rfl rfl rfl
  | emit ev =>
    obtain ⟨-, hpend, ⟨hmain, -⟩ | ⟨-, hl, h₁, h₂⟩ | ⟨hmain, -⟩⟩ := hok
    · cases hrole.symm.trans hmain
    · have hm : m.pending = false := Bool.eq_false_iff.2 fun hm => by
        cases (hd.m_owner.1 (hd.m_pending hm)).symm.trans (hd.p_owner.1 hl)
      have hs := (hd.poller_alone hl).2
      rw [next_message p h₁ h₂]
      exact h.emitted hm hpend hs (fun hc => by cases hs.symm.trans hc) (by simp [hm])
    · cases hrole.symm.trans hmain
  | live b =>
    cases b with
    | true => exact h.stored rfl (hd.poller_alone (hd.p_pending hok)).2 (.inr hok)
    | false => cases hrole.symm.trans hok.1
  | enter id ev => exact h.quiet rfl rfl rfl rfl
  | leave id ev => exact h.quiet rfl rfl rfl rfl
  | lock => exact h.quiet rfl rfl rfl rfl
  | unlock => exact h.quiet rfl rfl rfl rfl
  | spawn initial => cases hrole.symm.trans hok.1
  | join => cases hrole.symm.trans hok.1
  | spawned => exact h.quiet rfl rfl rfl rfl
  | exit => exact h.quiet rfl rfl rfl rfl

/-! ### Every interleaving -/

/-- The events emitted in a trace, in order. -/
def emitted (tr : List (Tid × Ev Resp)) : List Event := tr.filterMap fun x => emission x.2.1

/-- The invocations of event callbacks in a trace, in order. -/
def invocations (tr : List (Tid × Ev Resp)) : List CallbackEv := tr.filterMap fun x => invocation x.2.1

variable {tr : List (Tid × Ev Resp)}

theorem emitted_snoc (t : Tid) (r : Resp a) :
    emitted (tr ++ [(t, ⟨a, r⟩)]) = emitted tr ++ (emission a).toList := by
  cases h : emission a <;> simp [emitted, h]

theorem invocations_snoc (t : Tid) (r : Resp a) :
    invocations (tr ++ [(t, ⟨a, r⟩)]) = invocations tr ++ (invocation a).toList := by
  cases h : invocation a <;> simp [invocations, h]

structure EventInv (cfg : Config) (tr : List (Tid × Ev Resp)) (w : World) (g : Tid → EmitState) : Prop where
  role : ∀ t, (g t).role = t
  app : ∀ n, g (.app n) = { role := .app n }
  discipline : Discipline w.emit_view (g .main) (g .poller)
  delivered : Delivered cfg (emitted tr) (invocations tr) (g .main) (g .poller)
  live : LiveFlag (emitted tr) w.emit_view (g .main) (g .poller)

theorem eventInv_start {w : World} (h : w.Idle) : EventInv cfg [] w fun t => { role := t } where
  role _ := rfl
  app _ := rfl
  discipline := by
    constructor <;> simp [World.emit_view, h.owner, h.spawned, h.exited]
  delivered := ⟨rfl, fun _ => rfl, nofun, nofun⟩
  live := by
    constructor <;> simp [LiveEnded, emitted]

theorem EmitState.next_role (g : EmitState) (a : Act) : (g.next cfg a).role = g.role := by
  induction a using Act.emit_cases with
  | silent a h => rw [(emit_silent a h g).2]
  | live b => cases b <;> rfl
  | _ => rfl

/-- An application thread does nothing of this. -/
theorem app_silent {n : Nat} (h : EmitState.Allows cfg { role := .app n } a) : a.emits = false := by
  induction a using Act.emit_cases with
  | silent a he => exact he
  | emit ev =>
    obtain ⟨-, -, ⟨h, -⟩ | ⟨h, -⟩ | ⟨h, -⟩⟩ := h <;> cases h
  | live b =>
    cases b with
    | true => cases h
    | false => cases h.1
  | unlock => cases h.2.2
  | enter id ev => cases h
  | leave id ev => cases h
  | _ => cases h.1

theorem EventInv.step {w w' : World} {g : Tid → EmitState} {t : Tid} {a : Act} {r : Resp a}
    (h : EventInv cfg tr w g) (hok : (g t).Allows cfg a) (hs : World.sem t w a r w') :
    EventInv cfg (tr ++ [(t, ⟨a, r⟩)]) w' (Function.update g t ((g t).next cfg a)) := by
  obtain ⟨hans, hview⟩ := World.sem_emit_view hs
  have hrole : ∀ u, (Function.update g t ((g t).next cfg a) u).role = u := fun u => by
    by_cases hu : u = t
    · rw [hu, Function.update_self, EmitState.next_role, h.role]
    · rw [Function.update_of_ne hu, h.role]
  cases t with
  | main =>
    refine ⟨hrole, fun n => h.app n, ?_, ?_, ?_⟩ <;>
      simp only [Function.update_self, Function.update_of_ne, ne_eq, reduceCtorEq, not_false_eq_true, hview,
        emitted_snoc, invocations_snoc]
    · exact h.discipline.main_step (h.role _) hok hans
    · exact h.delivered.main_step h.discipline (h.role _) hok
    · exact h.live.main_step h.delivered.early h.discipline (h.role _) hok
  | poller =>
    refine ⟨hrole, fun n => h.app n, ?_, ?_, ?_⟩ <;>
      simp only [Function.update_self, Function.update_of_ne, ne_eq, reduceCtorEq, not_false_eq_true, hview,
        emitted_snoc, invocations_snoc]
    · exact h.discipline.poller_step (h.role _) hok hans
    · exact h.delivered.poller_step h.discipline (h.role _) hok
    · exact h.live.poller_step h.discipline (h.role _) hok
  | app n =>
    have he : a.emits = false := app_silent (h.app n ▸ hok)
    rw [(emit_silent a he _).2, Function.update_eq_self]
    refine ⟨h.role, h.app, ?_, ?_, ?_⟩ <;>
      simp only [hview, EmitView.after_silent he, emitted_snoc, invocations_snoc, emission_silent he,
        invocation_silent he, Option.toList_none, List.append_nil]
    · exact h.discipline
    · exact h.delivered
    · exact h.live

/-- The event trace of a run that emits `Connect` and returns. -/
theorem event_trace_of_run {calls : Nat → List ApiCall} {w : World}
    {c : Conf Tid World Act Resp (Except Exn Unit)}
    {x : Except Exn Unit} (hw : w.Idle) (h : Run World.sem (start cfg calls w) tr c) (hret : c.prog .main = .ret x)
    (hconnect : ∃ ev ∈ emitted tr, ev.type = .Connect) :
    Closed cfg (emitted tr) ∧ invocations tr = (emitted tr).flatMap (block cfg) ∧
      (c.world.flag .live_ended = true ↔ LiveEnded (emitted tr)) := by
  obtain ⟨g, hinv, hwp⟩ := h.invariant (M := fun _ => emit_monitor cfg)
    (fun _ _ _ _ _ _ _ hI hok hs => ⟨_, rfl, hI.step hok hs⟩) (eventInv_start hw) (emit_threads calls)
  have hres : RunResult x (g .main) := by
    have hmain := hwp .main
    rw [hret] at hmain
    exact hmain rfl
  cases x with
  | error e =>
    -- `run` threw before it emitted anything
    have hem := hinv.delivered.early (by rw [hres]; exact .inr rfl)
    rw [hem] at hconnect
    obtain ⟨ev, hev, -⟩ := hconnect
    cases hev
  | ok u =>
    have hm : g .main = { role := .main, stage := .finished } := hres
    have hp : (g .poller).todo = [] := hinv.discipline.main_alone (.inr (by rw [hm]))
    have hlive := hinv.live
    have hwhole := hinv.delivered.whole
    rw [hm] at hlive
    rw [hm, hp] at hwhole
    refine ⟨hinv.delivered.finished (by rw [hm]), by simpa using hwhole, hlive.sound (.inr rfl), fun hl => ?_⟩
    rcases hlive.complete hl with hv | hpend | hpend
    · exact hv
    · cases hpend
    · -- the poll thread has ended, so it has stored what it emitted
      have hs := (hinv.discipline.poller_alone (hinv.discipline.p_pending hpend)).2
      rw [hm] at hs
      cases hs

/-- A client with callbacks that only polls. -/
def traced_config : Config :=
  { sample_config { room_id_override := 7, fetch_live_check := false, fetch_stream_info := false,
                    use_websocket := false } with
    any_handlers := [0]
    handlers := fun type => if type = .Disconnect then [1, 2] else [] }

def traced_start : Conf Tid World Act Resp (Except Exn Unit) :=
  start traced_config (fun _ => [.disconnect]) {}

/-- `disconnect` comes after the first batch. -/
def traced_schedule : List (Tid × Env) :=
  let env := sample_env (sample_batch [1, 2] (lit "B")).1 .again
  List.replicate 40 (.main, env) ++ List.replicate 2 (.app 0, env) ++ List.replicate 10 (.main, env)

theorem traced_run : ∃ h : (execute World.step traced_schedule traced_start).isSome,
    let tr := ((execute World.step traced_schedule traced_start).get h).1
    (emitted tr).map (·.type) = [.Connect, .Unknown, .Unknown, .Disconnect] ∧ Closed traced_config (emitted tr) ∧
      invocations tr = (emitted tr).flatMap (block traced_config) := by
  have h : (execute World.step traced_schedule traced_start).isSome := rfl
  obtain ⟨hclosed, hblocks, -⟩ :=
    event_trace_of_run World.idle_init (run_of_isSome World.sem_of_step h) (x := .ok ())
    rfl ⟨connect_event _ _ _, .head _, rfl⟩
  exact ⟨h, rfl, hclosed, hblocks⟩

end TtLive
