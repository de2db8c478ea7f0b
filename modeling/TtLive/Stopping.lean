import TtLive.StopBudget

/-!
# Stopping is bounded

After a stop the flag reads as stopped for the rest of the run (`BeforeStop`), so the monitors of all threads can be
told that the stop is noticed, and from then on they count (`AfterStop`). What they have counted, and that no loop
test succeeds, is `WindsDown`: the thread leaves its loops.
-/

namespace TtLive
open Prog Threads

variable {cfg : Config} {k : StopKind} {g : StopState}

/-- In the trace the caller of `run` has reset the flag, and after that a thread has written the stop. -/
def StopKind.Stopped (k : StopKind) (tr : List (Tid × Ev Resp)) : Prop :=
  ∃ before after t, tr = before ++ ⟨.main, ⟨.store k.flag k.going, ()⟩⟩ :: after ∧
    ⟨t, ⟨.store k.flag (!k.going), ()⟩⟩ ∈ after

/-- How often a thread does a chore in its trace. -/
def chores (c : Chore) (tr : List (Ev Resp)) : Nat := tr.countP fun e => e.1.chore = some c

/-- A loop test that succeeds. -/
def loop_test : List (Ev Resp) :=
  [⟨.load .running, true⟩, ⟨.load .stop_requested, false⟩, ⟨.load .live_ended, false⟩]

/-- The thread leaves its loops: no loop test succeeds, nothing that a round does is done more than `most` times, and
no whole round of one of the three loops is among what the thread does. -/
structure WindsDown (cfg : Config) (k : StopKind) (tr : List (Ev Resp)) : Prop where
  no_test : ¬ loop_test <:+: tr
  most : ∀ c, chores c tr ≤ k.most c
  session : ∀ last_hb last_hb' round, round <:+: tr → ¬ Runs (session_round cfg last_hb) round (.ret (.inl last_hb'))
  reconnect : ∀ allow_fallback s s' round, round <:+: tr →
    ¬ Runs (reconnect_round cfg allow_fallback s) round (.ret (.inl s'))
  poll : ∀ s s' round, round <:+: tr → ¬ Runs (poll_round cfg s) round (.ret (.inl s'))

/-- Up to the stop: no thread has noticed anything, and after the stop the flag stays as it is. -/
structure BeforeStop (k : StopKind) (tr : List (Tid × Ev Resp)) (w : World) (g : Tid → StopState) :
    Prop where
  unnoticed : ∀ t, (g t).spent = none
  others : ∀ t, t ≠ .main → (g t).reset = true
  main : ⟨.main, ⟨.store k.flag k.going, ()⟩⟩ ∈ tr → (g .main).reset = true
  stopped : k.Stopped tr → w.flag k.flag = !k.going

theorem BeforeStop.all_reset {tr : List (Tid × Ev Resp)} {w : World} {g : Tid → StopState}
    (h : BeforeStop k tr w g) (hs : k.Stopped tr) (t : Tid) : (g t).reset = true := by
  obtain ⟨before, after, -, rfl, -⟩ := hs
  by_cases ht : t = .main
  · exact ht ▸ h.main (by simp)
  · exact h.others t ht

/-- A step that does not reset the flag keeps it stopped. -/
theorem flag_stays {w w' : World} {t : Tid} {a : Act} {r : Resp a} (hs : World.sem t w a r w')
    (hr : k.resets a = false) (hw : w.flag k.flag = !k.going) : w'.flag k.flag = !k.going := by
  rw [World.sem_flag hs]
  cases a with
  | store f v =>
    by_cases hf : k.flag = f
    · subst hf
      simp only [StopKind.resets, decide_true, Bool.true_and, decide_eq_false_iff_not] at hr
      rw [World.flag_after, Function.update_self]
      exact Bool.eq_not_of_ne hr
    · rw [World.flag_after, Function.update_of_ne hf, hw]
  | _ => exact hw

theorem resets_false {a : Act} (hok : (stop_monitor k).ok g a) (hg : g.reset = true) :
    k.resets a = false := by
  cases hr : k.resets a with
  | false => rfl
  | true => rw [hok.1 hr] at hg; cases hg

theorem before_stop_step {tr : List (Tid × Ev Resp)} {w w' : World} {g : Tid → StopState} {t : Tid}
    {a : Act} {r : Resp a} (h : BeforeStop k tr w g) (hok : (stop_monitor k).ok (g t) a) (hs : World.sem t w a r w') :
    ∃ g', (stop_monitor k).next (g t) a r g' ∧ BeforeStop k (tr ++ [(t, ⟨a, r⟩)]) w' (Function.update g t g') := by
  refine ⟨⟨(g t).reset || k.resets a, none⟩, ⟨rfl, .inl ⟨h.unnoticed t, rfl⟩⟩, ⟨?_, ?_, ?_, ?_⟩⟩
  · intro u
    by_cases hu : u = t
    · subst hu; simp
    · simpa [hu] using h.unnoticed u
  · intro u hu
    by_cases hut : u = t
    · subst hut; simp [h.others u hu]
    · simpa [hut] using h.others u hu
  · intro hmem
    by_cases ht : Tid.main = t
    · subst ht
      rcases List.mem_append.1 hmem with hmem | hmem
      · simp [h.main hmem]
      · cases List.mem_singleton.1 hmem
        simp [StopKind.resets]
    · rcases List.mem_append.1 hmem with hmem | hmem
      · simpa [ht] using h.main hmem
      · cases List.mem_singleton.1 hmem
        exact absurd rfl ht
  · rintro ⟨before, after, u, heq, hmem⟩
    rcases List.eq_nil_or_concat' after with rfl | ⟨after, e, rfl⟩
    · cases hmem
    · rw [← List.cons_append, ← List.append_assoc] at heq
      obtain ⟨rfl, he⟩ := List.append_inj' heq rfl
      obtain rfl := List.singleton_inj.1 he
      rcases List.mem_append.1 hmem with hmem | hmem
      · have hstop : k.Stopped (before ++ (.main, ⟨.store k.flag k.going, ()⟩) :: after) := ⟨_, _, u, rfl, hmem⟩
        exact flag_stays hs (resets_false hok (h.all_reset hstop t)) (h.stopped hstop)
      · cases List.mem_singleton.1 hmem
        rw [World.sem_flag hs, World.flag_after, Function.update_self]

/-- After the stop: every answer shows it, and every thread has counted its chores. -/
structure AfterStop (k : StopKind) (post : List (Tid × Ev Resp)) (w : World) (g : Tid → StopState) :
    Prop where
  all_reset : ∀ t, (g t).reset = true
  stopped : w.flag k.flag = !k.going
  counted : ∀ t c, chores c (thread t post) = (g t).spent.getD 0 c
  bounded : ∀ t c, chores c (thread t post) ≤ k.most c
  shown : ∀ t v, (t, ⟨.load k.flag, v⟩) ∈ post → v = !k.going

theorem chores_snoc (c : Chore) (tr : List (Ev Resp)) (e : Ev Resp) :
    chores c (tr ++ [e]) = chores c tr + e.1.cost c := by
  rw [chores, chores, List.countP_append, List.countP_singleton, Act.cost]
  cases h : e.1.chore with
  | none => simp
  | some c' => simp [Pi.single_apply, eq_comm]

theorem after_stop_step {post : List (Tid × Ev Resp)} {w w' : World} {g : Tid → StopState} {t : Tid}
    {a : Act} {r : Resp a} (h : AfterStop k post w g) (hok : (stop_monitor k).ok (g t) a) (hs : World.sem t w a r w') :
    ∃ g', (stop_monitor k).next (g t) a r g' ∧ AfterStop k (post ++ [(t, ⟨a, r⟩)]) w' (Function.update g t g') := by
  have hr := resets_false hok (h.all_reset t)
  have hshows : k.Shows a r := by
    cases a with
    | load f => rintro rfl; rw [World.sem_load hs, h.stopped]
    | _ => trivial
  refine ⟨⟨(g t).reset || k.resets a, some ((g t).spent.getD 0 + a.cost)⟩, ⟨rfl, .inr ⟨hshows, rfl⟩⟩,
    ⟨?_, flag_stays hs hr h.stopped, ?_, ?_, ?_⟩⟩
  · intro u
    by_cases hu : u = t
    · subst hu; simp [h.all_reset u]
    · simpa [hu] using h.all_reset u
  · intro u c
    rw [thread_snoc]
    by_cases hu : u = t
    · subst hu
      rw [if_pos rfl, chores_snoc, h.counted, Function.update_self]
      rfl
    · simpa [hu, Ne.symm hu] using h.counted u c
  · intro u c
    rw [thread_snoc]
    by_cases hu : t = u
    · subst hu
      rw [if_pos rfl, chores_snoc]
      by_cases hc : a.chore = some c
      · -- the thread may do the chore, so it has not yet done all it may
        have hlt : chores c (thread t post) < k.most c := by
          rw [h.counted]
          cases hspent : (g t).spent with
          | none => exact k.most_pos c
          | some spent => exact hok.2 c hc spent hspent
        rw [Act.cost_chore hc]
        exact hlt
      · rw [Act.cost_of_ne hc]
        exact h.bounded t c
    · rw [if_neg hu]; exact h.bounded u c
  · intro u v hmem
    rcases List.mem_append.1 hmem with hmem | hmem
    · exact h.shown u v hmem
    · cases List.mem_singleton.1 hmem
      exact hshows rfl

/-! ### Whole rounds -/

/-- Code behind a loop test that succeeds, or what follows when it fails. -/
theorem runs_alive {α : Type} {f : Bool → Code α} {tr : List (Ev Resp)} {x : α}
    (h : Runs (alive >>= f) tr (.ret x)) : loop_test <:+: tr ∨ ∃ tr', Runs (f false) tr' (.ret x) := by
  obtain ⟨running, tr₁, rfl, h₁⟩ := cons_of_runs_act h
  cases running with
  | false => exact .inr ⟨_, h₁⟩
  | true =>
    obtain ⟨stop, tr₂, rfl, h₂⟩ := cons_of_runs_act h₁
    cases stop with
    | true => exact .inr ⟨_, h₂⟩
    | false =>
      obtain ⟨live, tr₃, rfl, h₃⟩ := cons_of_runs_act h₂
      cases live with
      | true => exact .inr ⟨_, h₃⟩
      | false => exact .inl ⟨[], tr₃, rfl⟩

/-- A round that ends with the next round's state has passed its test. -/
theorem test_of_round {σ β : Type} {f : Bool → Code (σ ⊕ β)} {b : β} {tr : List (Ev Resp)} {s : σ}
    (hf : f false = .ret (.inr b)) (h : Runs (alive >>= f) tr (.ret (.inl s))) : loop_test <:+: tr := by
  refine (runs_alive h).resolve_right ?_
  rintro ⟨tr', h'⟩
  rw [hf] at h'
  cases eq_of_runs_ret h'

theorem session_round_eq (last_hb : Int) : ∃ f : Bool → Code (Int ⊕ Bool),
    session_round cfg last_hb = alive >>= f ∧ f false = .ret (.inr false) :=
  ⟨_, Prog.bind_assoc .., rfl⟩

theorem winds_down {tr : List (Ev Resp)} (htest : ¬ loop_test <:+: tr) (hmost : ∀ c, chores c tr ≤ k.most c) :
    WindsDown cfg k tr where
  no_test := htest
  most := hmost
  session last_hb last_hb' round hround h := by
    obtain ⟨f, heq, hf⟩ := @session_round_eq cfg last_hb
    rw [heq] at h
    exact htest ((test_of_round hf h).trans hround)
  reconnect _ _ _ _ hround h := htest ((test_of_round rfl h).trans hround)
  poll _ _ _ hround h := htest ((test_of_round rfl h).trans hround)

/-- After a stop every thread leaves its loops, whatever configuration the run starts from. -/
theorem stop_bounds (k : StopKind) {pre post : List (Tid × Ev Resp)}
    {c₀ c : Conf Tid World Act Resp (Except Exn Unit)} (h : Run World.sem c₀ (pre ++ post) c)
    (hwp : ∀ t, wp (stop_monitor k) (c₀.prog t) (fun _ _ => True) (stop_start t))
    (hstop : k.Stopped pre) (t : Tid) : WindsDown cfg k (thread t post) := by
  obtain ⟨c₁, hpre, hpost⟩ := h.split
  have h₀ : BeforeStop k [] c₀.world stop_start :=
    ⟨fun _ => rfl, by simp [stop_start], by simp, by rintro ⟨_ | ⟨_, _⟩, after, t, heq, -⟩ <;> cases heq⟩
  obtain ⟨g, hbefore, hwp⟩ := hpre.invariant (fun _ _ _ _ _ _ _ => before_stop_step) h₀ hwp
  have h₁ : AfterStop k [] c₁.world g :=
    ⟨hbefore.all_reset hstop, hbefore.stopped hstop, fun t c => by rw [hbefore.unnoticed]; rfl,
      fun t c => Nat.zero_le _, by simp⟩
  obtain ⟨g', hafter, -⟩ := hpost.invariant (fun _ _ _ _ _ _ _ => after_stop_step) h₁ hwp
  refine winds_down (fun htest => ?_) (hafter.bounded t)
  have hmem : ∀ e ∈ loop_test, (t, e) ∈ post := fun e he => mem_thread.1 (htest.subset he)
  cases k with
  | disconnect => cases hafter.shown t true (hmem _ (by simp [loop_test, StopKind.flag]))
  | live_end => cases hafter.shown t false (hmem _ (by simp [loop_test, StopKind.flag]))

/-- After a stop every thread leaves its loops, with at most one more network operation. -/
theorem stop_is_bounded (k : StopKind) {calls : Nat → List ApiCall} {w : World}
    {pre post : List (Tid × Ev Resp)}
    {c : Conf Tid World Act Resp (Except Exn Unit)} (h : Run World.sem (start cfg calls w) (pre ++ post) c)
    (hstop : k.Stopped pre) (t : Tid) : WindsDown cfg k (thread t post) :=
  stop_bounds k h (stop_threads calls) hstop t

def Act.stores (f : Flag) (b : Bool) : Act → Bool
  | .store f' b' => f' = f && b' = b
  | _ => false

theorem eq_of_stores {f : Flag} {b : Bool} {a : Act} (h : a.stores f b) : a = .store f b := by
  cases a with
  | store f' b' =>
    obtain ⟨hf, hb⟩ := Bool.and_eq_true_iff.1 h
    rw [of_decide_eq_true hf, of_decide_eq_true hb]
  | _ => cases h

theorem stopped_of_any {tr : List (Tid × Ev Resp)}
    (hreset : tr.head?.any fun e => e.1 = .main && e.2.1.stores k.flag k.going)
    (hstop : tr.tail.any fun e => e.2.1.stores k.flag (!k.going)) : k.Stopped tr := by
  rcases tr with _ | ⟨⟨t, a, r⟩, tr⟩
  · cases hreset
  · obtain ⟨ht, ha⟩ := Bool.and_eq_true_iff.1 hreset
    obtain rfl := of_decide_eq_true ht
    obtain rfl := eq_of_stores ha
    obtain ⟨⟨u, a', r'⟩, hmem, ha'⟩ := List.any_eq_true.1 hstop
    obtain rfl := eq_of_stores ha'
    exact ⟨[], tr, u, rfl, hmem⟩

/-- The session waits to receive when another thread calls `disconnect`. -/
def session_disconnect : List (Tid × Env) :=
  let env := sample_env (sample_batch [] (lit "A")).1 .again
  List.replicate 51 (.main, env) ++ List.replicate 2 (.app 0, env) ++ List.replicate 10 (.main, env)

def disconnect_start : Conf Tid World Act Resp (Except Exn Unit) :=
  start (sample_config { room_id_override := 7, fetch_live_check := false, fetch_stream_info := false })
    (fun _ => [.disconnect]) {}

theorem session_disconnects : (execute World.step session_disconnect disconnect_start).isSome := by
  decide +kernel

/-- The session receives once more, tests `running`, and the run returns. -/
theorem disconnect_stops_session :
    let run := (execute World.step session_disconnect disconnect_start).get session_disconnects
    WindsDown (sample_config { room_id_override := 7, fetch_live_check := false, fetch_stream_info := false })
      .disconnect (thread .main (run.1.drop 51)) ∧ chores .receive (thread .main (run.1.drop 51)) = 1 ∧
      chores .test (thread .main (run.1.drop 51)) = 1 ∧ returned (run.2.prog .main) = true := by
  have hrun := run_of_isSome World.sem_of_step session_disconnects
  rw [← List.take_append_drop 51 (Option.get _ session_disconnects).1] at hrun
  have hstop : StopKind.disconnect.Stopped
      (((execute World.step session_disconnect disconnect_start).get session_disconnects).1.take 51) :=
    stopped_of_any (by decide +kernel) (by decide +kernel)
  exact ⟨stop_is_bounded .disconnect hrun hstop .main, by decide +kernel, by decide +kernel, by decide +kernel⟩

end TtLive
