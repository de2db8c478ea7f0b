import TtLive.LockedSections

/-!
# Which sections of two threads can overlap

`sections` reads off the world what a thread holds and is in. In every reachable world a thread that is in
something that needs a mutex owns it (`reachable_safe`), so two sections under one mutex never overlap. What
is left are the sections the source enters without a mutex, or under different ones: the network operations
and the calls of the debug sink exclude each other in exactly the runs in which no such pair overlaps.
-/

namespace TtLive
open Prog Threads

namespace World

/-- What thread `t` holds and is in. -/
def sections (w : World) (t : Tid) : SectionState where
  held m := decide (w.owner m = some t)
  op := w.op t
  user := w.user t

theorem Idle.sections {w : World} (h : w.Idle) (t : Tid) : w.sections t = {} := by
  simp [World.sections, h.owner, h.op, h.user]

theorem sections_lock {w : World} {t : Tid} {m : Mutex} (ho : w.owner m = none) (u : Tid) :
    { w with owner := Function.update w.owner m (some t) : World }.sections u =
      if u = t then (w.sections t).next (.lock m) else w.sections u := by
  by_cases hu : u = t
  · subst hu
    rw [if_pos rfl, sections, SectionState.next, sections, SectionState.mk.injEq]
    refine ⟨funext fun m' => ?_, rfl, rfl⟩
    by_cases hm : m' = m <;> simp [hm]
  · rw [if_neg hu, sections, sections, SectionState.mk.injEq]
    refine ⟨funext fun m' => ?_, rfl, rfl⟩
    by_cases hm : m' = m <;> simp [hm, ho, Ne.symm hu]

theorem sections_unlock {w : World} {t : Tid} {m : Mutex} (ho : w.owner m = some t) (u : Tid) :
    { w with owner := Function.update w.owner m none : World }.sections u =
      if u = t then (w.sections t).next (.unlock m) else w.sections u := by
  by_cases hu : u = t
  · subst hu
    rw [if_pos rfl, sections, SectionState.next, sections, SectionState.mk.injEq]
    refine ⟨funext fun m' => ?_, rfl, rfl⟩
    by_cases hm : m' = m <;> simp [hm]
  · rw [if_neg hu, sections, sections, SectionState.mk.injEq]
    refine ⟨funext fun m' => ?_, rfl, rfl⟩
    by_cases hm : m' = m <;> simp [hm, ho, Ne.symm hu]

/-- A step of one thread, as all threads see it. -/
theorem sem_sections {t : Tid} {w w' : World} {a : Act} {r : Resp a} (h : sem t w a r w') (u : Tid) :
    w'.sections u = if u = t then (w.sections t).next a else w.sections u := by
  have hself : w.sections u = if u = t then w.sections t else w.sections u := by
    split
    · next hu => rw [hu]
    · rfl
  cases a with
  | lock m =>
    obtain ⟨ho, rfl⟩ := sem_lock h
    exact sections_lock ho u
  | unlock m =>
    obtain ⟨ho, rfl⟩ := sem_unlock h
    exact sections_unlock ho u
  | spawned => rw [(sem_spawned h).2]; exact hself
  | join => rw [(sem_join h).2]; exact hself
  | net_begin op => obtain ⟨env, h⟩ := h; cases h; by_cases hu : u = t <;> simp [sections, SectionState.next, hu]
  | net_end op => obtain ⟨env, h⟩ := h; cases h; by_cases hu : u = t <;> simp [sections, SectionState.next, hu]
  | call_begin c => obtain ⟨env, h⟩ := h; cases h; by_cases hu : u = t <;> simp [sections, SectionState.next, hu]
  | call_end c => obtain ⟨env, h⟩ := h; cases h; by_cases hu : u = t <;> simp [sections, SectionState.next, hu]
  | _ => obtain ⟨env, h⟩ := h; cases h; exact hself

theorem sem_op {t : Tid} {w w' : World} {a : Act} {r : Resp a} (h : sem t w a r w') (u : Tid) :
    w'.op u = if u = t then ((w.sections t).next a).op else w.op u := by
  refine (congrArg SectionState.op (sem_sections h u)).trans ?_
  split <;> rfl

end World

/-- Only the begin of an operation puts a thread into one. -/
theorem SectionState.op_next {g : SectionState} {a : Act} (h : ¬ ∃ op, a = .net_begin op) :
    (g.next a).op = none ∨ (g.next a).op = g.op := by
  cases a with
  | net_begin op => exact absurd ⟨op, rfl⟩ h
  | net_end op => exact .inl rfl
  | _ => exact .inr rfl

/-- A thread holds what it needs, and is in one piece of user code at most. -/
structure SectionState.Safe (g : SectionState) : Prop where
  held : ∀ m, g.Needs m → g.held m = true
  single : g.user.length ≤ 1

theorem SectionState.Safe.next {g : SectionState} {a : Act} (h : g.Safe) (hok : g.Allows a) :
    (g.next a).Safe := by
  cases a with
  | lock m =>
    refine ⟨fun m' hm' => ?_, h.single⟩
    by_cases hm : m' = m
    · subst hm; simp [SectionState.next]
    · simpa [SectionState.next, hm] using h.held m' hm'
  | unlock m =>
    refine ⟨fun m' hm' => ?_, h.single⟩
    have hm : m' ≠ m := fun hm => hok (hm ▸ hm')
    simpa [SectionState.next, hm] using h.held m' hm'
  | net_begin op =>
    refine ⟨?_, h.single⟩
    rintro m (⟨op', hop, hm⟩ | hc)
    · cases hop
      exact hok m hm
    · exact h.held m (.inr hc)
  | net_end op =>
    refine ⟨?_, h.single⟩
    rintro m (⟨op', hop, -⟩ | hc)
    · cases hop
    · exact h.held m (.inr hc)
  | call_begin c =>
    obtain ⟨hu, hm⟩ := hok
    refine ⟨?_, by simp [SectionState.next, hu]⟩
    rintro m (hop | ⟨c', hc, hm'⟩)
    · exact h.held m (.inl hop)
    · rw [SectionState.next, hu] at hc
      cases List.mem_singleton.1 hc
      exact hm m hm'
  | call_end c =>
    refine ⟨?_, ?_⟩
    · rintro m (hop | ⟨c', hc, hm⟩)
      · exact h.held m (.inl hop)
      · exact h.held m (.inr ⟨c', List.mem_of_mem_tail hc, hm⟩)
    · exact (List.length_tail ▸ Nat.sub_le _ _ : g.user.tail.length ≤ g.user.length).trans h.single
  | _ => exact h

variable {cfg : Config} {calls : Nat → List ApiCall} {w : World} {tr : List (Tid × Ev Resp)}
  {c : Conf Tid World Act Resp (Except Exn Unit)}

/-- In every reachable world each thread holds what it needs. -/
theorem reachable_safe (hw : w.Idle) (h : Run World.sem (start cfg calls w) tr c) (t : Tid) :
    (c.world.sections t).Safe := by
  have hstep : ∀ (tr : List (Tid × Ev Resp)) (w : World) (g : Tid → SectionState) t a r w',
      (g t).Allows a → World.sem t w a r w' → (∀ u, g u = w.sections u) ∧ (∀ u, (g u).Safe) →
      (∀ u, Function.update g t ((g t).next a) u = w'.sections u) ∧
        ∀ u, (Function.update g t ((g t).next a) u).Safe := by
    rintro - w g t a r w' hok hs ⟨hg, hsafe⟩
    refine ⟨fun u => ?_, fun u => ?_⟩ <;> by_cases hu : u = t
    · rw [World.sem_sections hs, hu, Function.update_self, if_pos rfl, hg]
    · rw [World.sem_sections hs, Function.update_of_ne hu, if_neg hu, hg]
    · rw [hu, Function.update_self]
      exact (hsafe t).next hok
    · rw [Function.update_of_ne hu]
      exact hsafe u
  have h₀ : (∀ u, ({} : SectionState) = w.sections u) ∧ ∀ _ : Tid, ({} : SectionState).Safe := by
    refine ⟨fun u => (hw.sections u).symm, fun _ => ⟨?_, Nat.zero_le 1⟩⟩
    rintro m (⟨op, hop, -⟩ | ⟨c, hc, -⟩)
    · cases hop
    · cases hc
  obtain ⟨g, ⟨hg, hsafe⟩, -⟩ := h.invariant (M := fun _ => section_monitor) (Q := fun _ _ g => g = {})
    (I := fun _ w g => (∀ u, g u = w.sections u) ∧ ∀ u, (g u).Safe)
    (fun tr w g t a r w' hI hok hs => ⟨_, rfl, hstep tr w g t a r w' hok hs hI⟩) h₀
    fun t => section_threads calls t _ rfl
  exact hg t ▸ hsafe t

/-- Two threads are never in sections under one mutex. -/
theorem needs_unique (h : ∀ t, (w.sections t).Safe) {t u : Tid} {m : Mutex} (ht : (w.sections t).Needs m)
    (hu : (w.sections u).Needs m) : t = u := by
  have h₁ : w.owner m = some t := of_decide_eq_true ((h t).held m ht)
  have h₂ : w.owner m = some u := of_decide_eq_true ((h u).held m hu)
  exact Option.some_injective _ (h₁.symm.trans h₂)

/-! ### Runs of some of the threads -/

/-- No other thread than those of `ts` holds or is in anything. -/
def World.Only (ts : List Tid) (w : World) : Prop := ∀ u ∉ ts, w.sections u = {}

theorem only_step {ts : List Tid} {t : Tid} {w w' : World} {a : Act} {r : Resp a} (h : w.Only ts) (ht : t ∈ ts)
    (hs : World.sem t w a r w') : w'.Only ts := by
  intro u hu
  have hne : u ≠ t := fun heq => hu (heq ▸ ht)
  rw [World.sem_sections hs, if_neg hne, h u hu]

/-- A schedule of these threads whose steps pass a check. -/
theorem only_run {ts : List Tid} {ok : Tid → World → Act → Bool} {sched : List (Tid × Env)}
    (hsched : ∀ x ∈ sched, x.1 ∈ ts) (hw : w.Idle)
    (h : (execute (checked World.step ok) sched (start cfg calls w)).isSome) :
    ∃ h : (execute World.step sched (start cfg calls w)).isSome,
      Run (restrict (fun u w a => w.Only ts ∧ ok u w a = true) World.sem) (start cfg calls w)
        ((execute World.step sched (start cfg calls w)).get h).1
        ((execute World.step sched (start cfg calls w)).get h).2 := by
  have hsome := (Option.some_get h).symm
  have hplain := execute_checked hsome
  refine ⟨by rw [hplain]; rfl, ?_⟩
  simp only [hplain, Option.get_some]
  refine run_execute_of (S := (· ∈ ts)) (I := World.Only ts) ?_ hsched (fun u _ => hw.sections u) hsome
  intro u w env a r w' hu honly hs
  rw [checked] at hs
  split at hs
  · next hok => exact ⟨⟨⟨honly, hok⟩, env, hs⟩, only_step honly hu ⟨env, hs⟩⟩
  · cases hs

/-! ### Network operations -/

namespace World

/-- No two threads are inside an operation on the HTTP client or the signer. -/
def NetExclusive (w : World) : Prop := ∀ t u, t ≠ u → w.op t = none ∨ w.op u = none

/-- An operation starts while another thread is inside one only if the source makes both under `net_mu_`. -/
def NetGuard (t : Tid) (w : World) : Act → Prop
  | .net_begin op => ∀ u ≠ t, ∀ op', w.op u = some op' → op.mutex = some .net_mu_ ∧ op'.mutex = some .net_mu_
  | _ => True

end World

theorem net_begin_exclusive {w w' : World} {t : Tid} {op : NetOp} {r : Resp (.net_begin op)}
    (hsafe : ∀ u, (w'.sections u).Safe) (hs : World.sem t w (.net_begin op) r w') :
    World.NetGuard t w (.net_begin op) ↔ w'.NetExclusive := by
  have hop : ∀ u, w'.op u = if u = t then some op else w.op u := World.sem_op hs
  constructor
  · intro hguard
    -- a third thread cannot be inside an operation under `net_mu_`: `t` now owns it
    have hnone : ∀ u, u ≠ t → w'.op u = none := by
      intro u hu
      rw [hop, if_neg hu]
      by_contra hne
      obtain ⟨op', hop'⟩ := Option.ne_none_iff_exists'.1 hne
      obtain ⟨h₁, h₂⟩ := hguard u hu op' hop'
      refine hu (needs_unique hsafe (.inl ⟨op', ?_, h₂⟩) (.inl ⟨op, ?_, h₁⟩))
      · exact (hop u).trans ((if_neg hu).trans hop')
      · exact (hop t).trans (if_pos rfl)
    intro u v huv
    by_cases hu : u = t
    · exact .inr (hnone v fun hv => huv (hu.trans hv.symm))
    · exact .inl (hnone u hu)
  · intro hex' u hu op' hop'
    rcases hex' u t hu with h | h
    · rw [hop, if_neg hu, hop'] at h
      cases h
    · rw [hop, if_pos rfl] at h
      cases h

theorem net_guard_exact {w w' : World} {t : Tid} {a : Act} {r : Resp a} (hsafe : ∀ u, (w'.sections u).Safe)
    (hex : w.NetExclusive) (hs : World.sem t w a r w') : World.NetGuard t w a ↔ w'.NetExclusive := by
  by_cases hb : ∃ op, a = .net_begin op
  · obtain ⟨op, rfl⟩ := hb
    exact net_begin_exclusive hsafe hs
  · have hop : ∀ u, w'.op u = none ∨ w'.op u = w.op u := by
      intro u
      rw [World.sem_op hs u]
      by_cases hu : u = t
      · rw [if_pos hu, hu]
        exact SectionState.op_next hb
      · rw [if_neg hu]
        exact .inr rfl
    refine ⟨fun _ u v huv => ?_, fun _ => ?_⟩
    · rcases hop u with hu | hu
      · exact .inl hu
      · rcases hop v with hv | hv
        · exact .inr hv
        · rw [hu, hv]
          exact hex u v huv
    · cases a with
      | net_begin op => exact absurd ⟨op, rfl⟩ hb
      | _ => trivial

/-- The runs in which operations of different threads never overlap are those in which no operation that is
made without `net_mu_` overlaps another. -/
theorem net_exclusive_iff (hw : w.Idle) : Run (restrict World.NetGuard World.sem) (start cfg calls w) tr c ↔
    Run (confine World.NetExclusive World.sem) (start cfg calls w) tr c :=
  Run.restrict_iff_confine (J := fun w => ∀ u, (w.sections u).Safe) (fun _ _ h => reachable_safe hw h)
    (fun t _ _ => .inl (hw.op t)) fun _ _ _ _ _ hsafe hex hs => net_guard_exact hsafe hex hs

/-- The first `im/fetch` of `run`, up to the call of libcurl. -/
def fetching_start (user : List ApiCall) : Conf Tid World Act Resp (Except Exn Unit) :=
  start (sample_config { room_id_override := 7, fetch_live_check := false, fetch_stream_info := false })
    (fun _ => user) {}

def fetching_schedule : List (Tid × Env) :=
  List.replicate 17 (.main, sample_env (sample_batch [] (lit "A")).1 .again)

/-- The guard, where only the threads of `ts` can be inside an operation. -/
def net_check (ts : List Tid) (t : Tid) (w : World) : Act → Bool
  | .net_begin op => ts.all fun u => u = t || (w.op u).all fun op' =>
      op.mutex = some .net_mu_ && op'.mutex = some .net_mu_
  | _ => true

theorem net_guard_of_check {ts : List Tid} {t : Tid} {w : World} {a : Act} (honly : w.Only ts)
    (h : net_check ts t w a = true) : World.NetGuard t w a := by
  cases a with
  | net_begin op =>
    intro u hu op' hop
    by_cases hmem : u ∈ ts
    · have hcheck := List.all_eq_true.1 h u hmem
      simpa [hu, hop] using hcheck
    · rw [show w.op u = none from congrArg SectionState.op (honly u hmem)] at hop
      cases hop
  | _ => trivial

/-- The threads that begin an operation, in order. -/
def operating (tr : List (Tid × Ev Resp)) : List Tid :=
  tr.filterMap fun
    | (t, ⟨.net_begin _, _⟩) => some t
    | _ => none

/-- `fetch_gift_list` of an application thread between two operations of the `im/fetch`. -/
def turns_schedule : List (Tid × Env) :=
  let env := sample_env (sample_batch [] (lit "A")).1 .again
  List.replicate 12 (.main, env) ++ List.replicate 4 (.app 0, env) ++ List.replicate 11 (.main, env)

theorem fetching_exclusive :
    ∃ h : (execute World.step turns_schedule (fetching_start [.fetch_gift_list])).isSome,
      operating ((execute World.step turns_schedule (fetching_start [.fetch_gift_list])).get h).1 =
        [.main, .main, .app 0, .main, .main, .main] ∧
      Run (confine World.NetExclusive World.sem) (fetching_start [.fetch_gift_list])
        ((execute World.step turns_schedule (fetching_start [.fetch_gift_list])).get h).1
        ((execute World.step turns_schedule (fetching_start [.fetch_gift_list])).get h).2 := by
  have hsched : ∀ x ∈ turns_schedule, x.1 ∈ [Tid.main, .app 0] := by decide
  have hchecked : (execute (checked World.step (net_check [.main, .app 0])) turns_schedule
    (fetching_start [.fetch_gift_list])).isSome := rfl
  obtain ⟨h, hrun⟩ := only_run hsched World.idle_init hchecked
  refine ⟨h, ?_, (net_exclusive_iff World.idle_init).1 (hrun.mono ?_)⟩
  · clear hrun
    revert h
    decide +kernel
  · rintro t w a r w' ⟨⟨honly, hcheck⟩, hs⟩
    exact ⟨net_guard_of_check honly hcheck, hs⟩

/-- `fetch_gift_list` of an application thread follows. -/
def gift_schedule : List (Tid × Env) :=
  fetching_schedule ++ List.replicate 2 (.app 0, sample_env (sample_batch [] (lit "A")).1 .again)

theorem gift_runs : (execute World.step gift_schedule (fetching_start [.fetch_gift_list])).isSome := rfl

/-- An application thread calls `fetch_gift_list` while `run` is inside its `im/fetch`. -/
theorem gift_list_overlaps_fetch : ¬ ∀ (cfg : Config) (calls : Nat → List ApiCall) (w : World)
    (tr : List (Tid × Ev Resp)) (c : Conf Tid World Act Resp (Except Exn Unit)), w.Idle →
    Run World.sem (start cfg calls w) tr c → c.world.NetExclusive := by
  intro h
  let world := ((execute World.step gift_schedule (fetching_start [.fetch_gift_list])).get gift_runs).2.world
  have hmain : (world.op .main).isSome := rfl
  have happ : (world.op (.app 0)).isSome := rfl
  have hrun := run_of_isSome World.sem_of_step gift_runs
  rcases h _ _ _ _ _ World.idle_init hrun .main (.app 0) nofun with hn | hn
  · rw [show world.op .main = none from hn] at hmain
    cases hmain
  · rw [show world.op (.app 0) = none from hn] at happ
    cases happ

/-! ### The debug sink -/

namespace World

/-- The kinds of the debug sink's invocations that thread `t` is in. -/
def in_sink (w : World) (t : Tid) : List Bytes :=
  (w.user t).filterMap fun
    | .raw_sink kind _ => some kind
    | .callback _ _ => none

/-- No two invocations of the debug sink are in progress. -/
def SinkExclusive (w : World) : Prop :=
  (∀ t, (w.in_sink t).length ≤ 1) ∧ ∀ t u, t ≠ u → w.in_sink t = [] ∨ w.in_sink u = []

/-- An invocation of the debug sink starts while another thread is in one only if the source makes both under
one mutex. -/
def SinkGuard (t : Tid) (w : World) : Act → Prop
  | .call_begin (.raw_sink kind _) => ∀ u ≠ t, ∀ kind' ∈ w.in_sink u,
      ∃ m, sink_mutex kind = some m ∧ sink_mutex kind' = some m
  | _ => True

theorem mem_in_sink {w : World} {t : Tid} {kind : Bytes} :
    kind ∈ w.in_sink t ↔ ∃ data, Callee.raw_sink kind data ∈ w.user t := by
  simp only [in_sink, List.mem_filterMap]
  constructor
  · rintro ⟨c, hc, hkind⟩
    cases c with
    | callback id ev => cases hkind
    | raw_sink kind' data => cases hkind; exact ⟨data, hc⟩
  · rintro ⟨data, hc⟩
    exact ⟨_, hc, rfl⟩

end World

theorem sink_needs {w : World} {t : Tid} {kind : Bytes} {m : Mutex} (h : kind ∈ w.in_sink t)
    (hm : sink_mutex kind = some m) : (w.sections t).Needs m := by
  obtain ⟨data, hc⟩ := World.mem_in_sink.1 h
  exact .inr ⟨_, hc, hm⟩

theorem sem_user {t : Tid} {w w' : World} {a : Act} {r : Resp a} (h : World.sem t w a r w') (u : Tid) :
    w'.user u = if u = t then ((w.sections t).next a).user else w.user u := by
  have h := congrArg SectionState.user (World.sem_sections h u)
  by_cases hu : u = t
  · rw [if_pos hu] at h ⊢; exact h
  · rw [if_neg hu] at h ⊢; exact h

theorem sink_begin_exclusive {w w' : World} {t : Tid} {kind data : Bytes}
    {r : Resp (.call_begin (.raw_sink kind data))}
    (hsafe : ∀ u, (w'.sections u).Safe) (hs : World.sem t w (.call_begin (.raw_sink kind data)) r w') :
    World.SinkGuard t w (.call_begin (.raw_sink kind data)) ↔ w'.SinkExclusive := by
  have ht : kind ∈ w'.in_sink t := World.mem_in_sink.2 ⟨data, by rw [sem_user hs, if_pos rfl]; exact .head _⟩
  have hother : ∀ u, u ≠ t → w'.in_sink u = w.in_sink u := fun u hu => by
    rw [World.in_sink, sem_user hs, if_neg hu, World.in_sink]
  constructor
  · intro hguard
    have hnone : ∀ u, u ≠ t → w'.in_sink u = [] := by
      intro u hu
      rw [List.eq_nil_iff_forall_not_mem]
      intro kind' hk
      obtain ⟨m, h₁, h₂⟩ := hguard u hu kind' (hother u hu ▸ hk)
      exact hu (needs_unique hsafe (sink_needs hk h₂) (sink_needs ht h₁))
    refine ⟨fun u => (List.length_filterMap_le ..).trans (hsafe u).single, fun u v huv => ?_⟩
    by_cases hu : u = t
    · exact .inr (hnone v fun hv => huv (hu.trans hv.symm))
    · exact .inl (hnone u hu)
  · intro hex u hu kind' hk
    rw [← hother u hu] at hk
    rcases hex.2 u t hu with h | h
    · rw [h] at hk
      cases hk
    · rw [h] at ht
      cases ht

/-- No other action enters the sink. -/
theorem in_sink_subset {t : Tid} {w w' : World} {a : Act} {r : Resp a} (hs : World.sem t w a r w')
    (ha : ∀ kind data, a ≠ .call_begin (.raw_sink kind data)) (u : Tid) : w'.in_sink u ⊆ w.in_sink u := by
  intro kind hk
  obtain ⟨data, hc⟩ := World.mem_in_sink.1 hk
  refine World.mem_in_sink.2 ⟨data, ?_⟩
  rw [sem_user hs] at hc
  by_cases hu : u = t
  · subst hu
    rw [if_pos rfl] at hc
    cases a with
    | call_begin c =>
      rcases List.mem_cons.1 hc with rfl | hc
      · exact absurd rfl (ha kind data)
      · exact hc
    | call_end c => exact List.mem_of_mem_tail hc
    | _ => exact hc
  · rwa [if_neg hu] at hc

theorem sink_guard_exact {w w' : World} {t : Tid} {a : Act} {r : Resp a} (hsafe : ∀ u, (w'.sections u).Safe)
    (hex : w.SinkExclusive) (hs : World.sem t w a r w') : World.SinkGuard t w a ↔ w'.SinkExclusive := by
  by_cases hb : ∃ kind data, a = .call_begin (.raw_sink kind data)
  · obtain ⟨kind, data, rfl⟩ := hb
    exact sink_begin_exclusive hsafe hs
  · have hsub := in_sink_subset hs fun kind data ha => hb ⟨kind, data, ha⟩
    refine ⟨fun _ => ⟨fun u => (List.length_filterMap_le ..).trans (hsafe u).single, fun u v huv => ?_⟩,
      fun _ => ?_⟩
    · rcases hex.2 u v huv with h | h
      · exact .inl (List.subset_nil.1 (h ▸ hsub u))
      · exact .inr (List.subset_nil.1 (h ▸ hsub v))
    · cases a with
      | call_begin c =>
        cases c with
        | callback id ev => trivial
        | raw_sink kind data => exact absurd ⟨kind, data, rfl⟩ hb
      | _ => trivial

/-- The runs in which invocations of the debug sink never overlap are those in which no two overlap that are
not made under one mutex: a `ws_frame` and any other, an `im_fetch` and a message. -/
theorem sink_exclusive_iff (hw : w.Idle) :
    Run (restrict World.SinkGuard World.sem) (start cfg calls w) tr c ↔
    Run (confine World.SinkExclusive World.sem) (start cfg calls w) tr c := by
  refine Run.restrict_iff_confine (J := fun w => ∀ u, (w.sections u).Safe) (fun _ _ h => reachable_safe hw h) ?_
    fun _ _ _ _ _ hsafe hex hs => sink_guard_exact hsafe hex hs
  have hnone : ∀ t, w.in_sink t = [] := fun t => by rw [World.in_sink, hw.user]; rfl
  exact ⟨fun t => (congrArg List.length (hnone t)).trans_le (Nat.zero_le 1), fun t u _ => .inl (hnone t)⟩

/-- A client in dual mode with a debug sink. -/
def dual_start : Conf Tid World Act Resp (Except Exn Unit) :=
  start (sample_config { use_polling := true, raw_sink := true, room_id_override := 7, fetch_live_check := false,
                         fetch_stream_info := false, process_connect_events := false })
    (fun _ => []) {}

def dual_env : Env :=
  sample_env (sample_batch [] (lit "A")).1 (.chunk [1] (some { flags := { binary := true }, bytesleft := 0 }))

/-- Up to the debug sink of the first WebSocket frame. -/
def dual_schedule : List (Tid × Env) := List.replicate 56 (.main, dual_env)

/-- The guard, where only the threads of `ts` can be in the debug sink. -/
def sink_check (ts : List Tid) (t : Tid) (w : World) : Act → Bool
  | .call_begin (.raw_sink kind _) => ts.all fun u => u = t || (w.in_sink u).all fun kind' =>
      (sink_mutex kind).isSome && sink_mutex kind = sink_mutex kind'
  | _ => true

theorem sink_guard_of_check {ts : List Tid} {t : Tid} {w : World} {a : Act} (honly : w.Only ts)
    (h : sink_check ts t w a = true) : World.SinkGuard t w a := by
  cases a with
  | call_begin c =>
    cases c with
    | callback id ev => trivial
    | raw_sink kind data =>
      intro u hu kind' hk
      by_cases hmem : u ∈ ts
      · have hcheck := List.all_eq_true.1 h u hmem
        rw [decide_eq_false hu, Bool.false_or, List.all_eq_true] at hcheck
        obtain ⟨hsome, heq⟩ := Bool.and_eq_true_iff.1 (hcheck kind' hk)
        obtain ⟨m, hm⟩ := Option.isSome_iff_exists.1 hsome
        exact ⟨m, hm, (of_decide_eq_true heq).symm.trans hm⟩
      · obtain ⟨data', hc⟩ := World.mem_in_sink.1 hk
        rw [show w.user u = [] from congrArg SectionState.user (honly u hmem)] at hc
        cases hc
  | _ => trivial

/-- What is passed to the debug sink, and by which thread. -/
def sunk (tr : List (Tid × Ev Resp)) : List (Tid × Bytes) :=
  tr.filterMap fun
    | (t, ⟨.call_begin (.raw_sink kind _), _⟩) => some (t, kind)
    | _ => none

/-- The poll thread fetches between two frames of the WebSocket. -/
def alternating_schedule : List (Tid × Env) :=
  List.replicate 64 (.main, dual_env) ++ List.replicate 74 (.poller, dual_env) ++ List.replicate 2 (.main, dual_env)

theorem dual_exclusive : ∃ h : (execute World.step alternating_schedule dual_start).isSome,
    sunk ((execute World.step alternating_schedule dual_start).get h).1 =
      [(.main, lit "im_fetch"), (.main, lit "ws_frame"), (.poller, lit "im_fetch"), (.main, lit "ws_frame")] ∧
    Run (confine World.SinkExclusive World.sem) dual_start
      ((execute World.step alternating_schedule dual_start).get h).1
      ((execute World.step alternating_schedule dual_start).get h).2 := by
  have hsched : ∀ x ∈ alternating_schedule, x.1 ∈ [Tid.main, .poller] := by
    intro x hx
    simp only [alternating_schedule, List.mem_append, List.mem_replicate] at hx
    obtain ((⟨-, rfl⟩ | ⟨-, rfl⟩) | ⟨-, rfl⟩) := hx <;> decide
  have hchecked : (execute (checked World.step (sink_check [.main, .poller])) alternating_schedule
    dual_start).isSome := by decide +kernel
  obtain ⟨h, hrun⟩ := only_run hsched World.idle_init hchecked
  refine ⟨h, ?_, (sink_exclusive_iff World.idle_init).1 (hrun.mono ?_)⟩
  · clear hrun
    revert h
    decide +kernel
  · rintro t w a r w' ⟨⟨honly, hcheck⟩, hs⟩
    exact ⟨sink_guard_of_check honly hcheck, hs⟩

/-- The poll thread's `im_fetch` follows. -/
def overlap_schedule : List (Tid × Env) := dual_schedule ++ List.replicate 73 (.poller, dual_env)

theorem overlap_runs : (execute World.step overlap_schedule dual_start).isSome := by decide +kernel

/-- The poll thread enters the debug sink while the WebSocket thread is in it with a frame. -/
theorem frame_overlaps_fetch : ¬ ∀ (cfg : Config) (calls : Nat → List ApiCall) (w : World)
    (tr : List (Tid × Ev Resp)) (c : Conf Tid World Act Resp (Except Exn Unit)), cfg.options.use_websocket = true →
    cfg.options.use_polling = true → w.Idle → Run World.sem (start cfg calls w) tr c → c.world.SinkExclusive := by
  intro h
  have hmain : ((execute World.step overlap_schedule dual_start).get overlap_runs).2.world.in_sink .main =
      [lit "ws_frame"] := by decide +kernel
  have hpoller : ((execute World.step overlap_schedule dual_start).get overlap_runs).2.world.in_sink .poller =
      [lit "im_fetch"] := by decide +kernel
  have hrun := run_of_isSome World.sem_of_step overlap_runs
  rcases (h _ _ _ _ _ rfl rfl World.idle_init hrun).2 .main .poller nofun with hn | hn
  · cases hmain.symm.trans hn
  · cases hpoller.symm.trans hn

end TtLive
