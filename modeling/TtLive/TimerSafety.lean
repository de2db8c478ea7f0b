import TtLive.TimerQueue

/-!
# The timer queue under any callbacks

A drain inside a callback finds `__drainingTimers` set and returns, so every call ends (`perform_inside`,
`perform_outside`), and what a session does is a fold of total steps. A property that each of them keeps holds of every
session (`Invariant.session`); `Inv` and `Paired` are such.
-/

namespace TtLive.fake_dom.timers

variable {Value : Type}

/-! ### Every call returns -/

section
variable (behaviour : Behaviour Value) (w : World Value)

/-- What a call from inside a callback comes to. -/
def inside_call : Call Value → World Value
  | .setTimeout fn args => w.setTimeout fn args
  | .setInterval fn _ => w.setTimeout fn []
  | .clearTimeout id => w.clearTimeout id
  | .clearInterval id => w.clearTimeout id
  | .drainDeferredTimeouts => (w.note (.drain true)).note (.drained true true)

def callback_world (timer : Timer Value) : World Value :=
  let w := w.note (.run timer.id)
  let body := behaviour w.log timer
  (body.calls.foldl inside_call w).note (.ran timer.id body.throws)

def loop_world : Nat → World Value → World Value
  | 0, w => w
  | left + 1, w =>
    match w.timerQueue with
    | [] => w
    | timer :: rest => loop_world left (callback_world behaviour { w with timerQueue := rest } timer)

/-- What a call from outside comes to. -/
def outside_call : Call Value → World Value
  | .setTimeout fn args => w.setTimeout fn args
  | .setInterval fn _ => w.setTimeout fn []
  | .clearTimeout id => w.clearTimeout id
  | .clearInterval id => w.clearTimeout id
  | .drainDeferredTimeouts =>
    { loop_world behaviour 5000 { w.note (.drain false) with drainingTimers := true } with drainingTimers := false }.note
      (.drained false false)

@[simp] theorem note_drainingTimers (e : Event) : (w.note e).drainingTimers = w.drainingTimers := rfl

@[simp] theorem setTimeout_drainingTimers (fn : Handler Value) (args : List Value) :
    (w.setTimeout fn args).drainingTimers = w.drainingTimers := by
  rcases fn with f | text | _ <;> rfl

@[simp] theorem clearTimeout_drainingTimers (id : Option Nat) :
    (w.clearTimeout id).drainingTimers = w.drainingTimers := rfl

@[simp] theorem inside_call_drainingTimers (c : Call Value) :
    (inside_call w c).drainingTimers = w.drainingTimers := by
  rcases c with _ | _ | _ | _ | _ <;> simp [inside_call]

theorem foldl_inside_call_drainingTimers (cs : List (Call Value)) :
    (cs.foldl inside_call w).drainingTimers = w.drainingTimers := by
  induction cs generalizing w with
  | nil => rfl
  | cons c cs ih => rw [List.foldl_cons, ih, inside_call_drainingTimers]

@[simp] theorem callback_world_drainingTimers (timer : Timer Value) :
    (callback_world behaviour w timer).drainingTimers = w.drainingTimers := by
  simp [callback_world, foldl_inside_call_drainingTimers]

variable {behaviour} {w}

theorem perform_inside (hw : w.drainingTimers = true) (depth : Nat) (c : Call Value) :
    perform behaviour depth true w c = some (inside_call w c) := by
  rcases c with _ | _ | _ | _ | _
  case drainDeferredTimeouts =>
    rw [perform.eq_def]
    simp [hw, inside_call]
  all_goals rw [perform.eq_def]; rfl

theorem foldlM_inside (hw : w.drainingTimers = true) (depth : Nat) (cs : List (Call Value)) :
    cs.foldlM (perform behaviour depth true) w = some (cs.foldl inside_call w) := by
  induction cs generalizing w with
  | nil => rfl
  | cons c cs ih =>
    rw [List.foldlM_cons, perform_inside hw, List.foldl_cons]
    exact ih (by rw [inside_call_drainingTimers, hw])

theorem run_callback_inside (hw : w.drainingTimers = true) (depth : Nat) (timer : Timer Value) :
    run_callback behaviour (perform behaviour depth true) w timer = some (callback_world behaviour w timer) := by
  rw [run_callback]
  simp only [foldlM_inside (w := w.note (.run timer.id)) hw]
  rfl

theorem drain_loop_inside (hw : w.drainingTimers = true) (depth left : Nat) :
    drain_loop (run_callback behaviour (perform behaviour depth true)) left w = some (loop_world behaviour left w) := by
  induction left generalizing w with
  | zero => rfl
  | succ left ih =>
    rw [drain_loop, loop_world]
    rcases w.timerQueue with _ | ⟨timer, rest⟩
    · rfl
    · simp only [run_callback_inside (w := { w with timerQueue := rest }) hw, Option.bind_some]
      exact ih (by rw [callback_world_drainingTimers, hw])

theorem perform_outside (hw : w.drainingTimers = false) (depth : Nat) (c : Call Value) :
    perform behaviour (depth + 1) false w c = some (outside_call behaviour w c) := by
  rcases c with _ | _ | _ | _ | _
  case drainDeferredTimeouts =>
    rw [perform.eq_def]
    simp only [note_drainingTimers, hw]
    rw [drain_loop_inside rfl]
    rfl
  all_goals rw [perform.eq_def]; rfl

theorem outside_call_drainingTimers (hw : w.drainingTimers = false) (c : Call Value) :
    (outside_call behaviour w c).drainingTimers = false := by
  rcases c with _ | _ | _ | _ | _ <;> simp [outside_call, hw]

theorem foldlM_outside (hw : w.drainingTimers = false) (depth : Nat) (cs : List (Call Value)) :
    cs.foldlM (perform behaviour (depth + 1) false) w = some (cs.foldl (outside_call behaviour) w) := by
  induction cs generalizing w with
  | nil => rfl
  | cons c cs ih =>
    rw [List.foldlM_cons, perform_outside hw, List.foldl_cons]
    exact ih (outside_call_drainingTimers hw c)

end

theorem foldl_outside_drainingTimers {behaviour : Behaviour Value} {w : World Value} (hw : w.drainingTimers = false)
    (cs : List (Call Value)) : (cs.foldl (outside_call behaviour) w).drainingTimers = false := by
  induction cs generalizing w with
  | nil => exact hw
  | cons c cs ih => exact ih (outside_call_drainingTimers hw c)

/-! ### Invariants -/

/-- The steps of a session keep the property. -/
structure Invariant (P : World Value → Prop) : Prop where
  setTimeout : ∀ w fn args, P w → P (w.setTimeout fn args)
  clearTimeout : ∀ w id, P w → P (w.clearTimeout id)
  nested : ∀ w, P w → P ((w.note (.drain true)).note (.drained true true))
  run : ∀ w timer rest, w.timerQueue = timer :: rest → P w → P ({ w with timerQueue := rest }.note (.run timer.id))
  ran : ∀ w id throws, P w → P (w.note (.ran id throws))
  drain : ∀ w, P w → P { w.note (.drain false) with drainingTimers := true }
  drained : ∀ w, P w → P ({ w with drainingTimers := false }.note (.drained false false))

section
variable {behaviour : Behaviour Value} {P : World Value → Prop} {w : World Value}

theorem Invariant.inside_call (hP : Invariant P) (h : P w) (c : Call Value) : P (inside_call w c) := by
  rcases c with ⟨fn, args⟩ | ⟨fn, args⟩ | id | id | _
  · exact hP.setTimeout w fn args h
  · exact hP.setTimeout w fn [] h
  · exact hP.clearTimeout w id h
  · exact hP.clearTimeout w id h
  · exact hP.nested w h

theorem Invariant.body (hP : Invariant P) (h : P w) (cs : List (Call Value)) : P (cs.foldl timers.inside_call w) := by
  induction cs generalizing w with
  | nil => exact h
  | cons c cs ih => exact ih (hP.inside_call h c)

theorem Invariant.callback_world (hP : Invariant P) {timer : Timer Value} {rest : List (Timer Value)} (h : P w)
    (hq : w.timerQueue = timer :: rest) : P (callback_world behaviour { w with timerQueue := rest } timer) := by
  have hrun : P ({ w with timerQueue := rest }.note (.run timer.id)) := hP.run w timer rest hq h
  exact hP.ran _ _ _ (hP.body hrun _)

theorem Invariant.loop_world (hP : Invariant P) (h : P w) (left : Nat) : P (loop_world behaviour left w) := by
  induction left generalizing w with
  | zero => exact h
  | succ left ih =>
    rw [timers.loop_world]
    rcases hq : w.timerQueue with _ | ⟨timer, rest⟩
    · exact h
    · exact ih (hP.callback_world h hq)

theorem Invariant.outside_call (hP : Invariant P) (h : P w) (c : Call Value) : P (outside_call behaviour w c) := by
  rcases c with ⟨fn, args⟩ | ⟨fn, args⟩ | id | id | _
  · exact hP.setTimeout w fn args h
  · exact hP.setTimeout w fn [] h
  · exact hP.clearTimeout w id h
  · exact hP.clearTimeout w id h
  · exact hP.drained _ (hP.loop_world (hP.drain w h) 5000)

theorem Invariant.session (hP : Invariant P) (h : P w) (cs : List (Call Value)) :
    P (cs.foldl (timers.outside_call behaviour) w) := by
  induction cs generalizing w with
  | nil => exact h
  | cons c cs ih => exact ih (hP.outside_call h c)

end

/-! ### The log -/

section
variable {log a b : List Event} {e x : Event} {id : Nat}

theorem split_concat (h : log ++ [e] = a ++ x :: b) :
    b = [] ∧ a = log ∧ x = e ∨ ∃ b', b = b' ++ [e] ∧ log = a ++ x :: b' := by
  rcases b.eq_nil_or_concat with rfl | ⟨b', y, rfl⟩
  · obtain ⟨h₁, h₂⟩ := List.append_inj' h rfl
    exact .inl ⟨rfl, h₁.symm, (List.cons.inj h₂).1.symm⟩
  · rw [List.concat_eq_append, ← List.cons_append, ← List.append_assoc] at h
    obtain ⟨h₁, h₂⟩ := List.append_inj' h rfl
    obtain rfl := (List.cons.inj h₂).1
    exact .inr ⟨b', by simp, h₁⟩

@[simp] theorem runs_append : runs (a ++ b) = runs a ++ runs b := List.filterMap_append

theorem mem_runs : id ∈ runs log ↔ .run id ∈ log := by
  rw [runs, List.mem_filterMap]
  constructor
  · rintro ⟨e, he, hid⟩
    rcases e with _ | _ | _ | _ | _ | _ <;> simp at hid
    exact hid ▸ he
  · exact fun h => ⟨_, h, rfl⟩

end

/-- What every step keeps. -/
structure Inv (w : World Value) : Prop where
  queue_sorted : (w.timerQueue.map Timer.id).Pairwise (· < ·)
  queue_le : ∀ t ∈ w.timerQueue, t.id ≤ w.timerId
  set_le : ∀ id queued, .set id queued ∈ w.log → id ≤ w.timerId
  runs_sorted : (runs w.log).Pairwise (· < ·)
  runs_le : ∀ id ∈ runs w.log, id ≤ w.timerId
  runs_lt : ∀ id ∈ runs w.log, ∀ t ∈ w.timerQueue, id < t.id
  /-- A timer that was not cleared since it was set has run or waits. -/
  kept : ∀ a b id, w.log = a ++ .set id true :: b → .clear (some id) ∉ b →
    .run id ∈ b ∨ ∃ t ∈ w.timerQueue, t.id = id
  /-- A timer that was cleared since it was set does not run and does not wait. -/
  cleared : ∀ a b id, w.log = a ++ .clear (some id) :: b → .set id true ∈ a →
    .run id ∉ b ∧ ∀ t ∈ w.timerQueue, t.id ≠ id
  outer : ∀ draining, .drained false draining ∈ w.log → draining = false

/-- What a step that logs `e` may do to the queue. -/
structure Step (w : World Value) (e : Event) (w' : World Value) : Prop where
  log : w'.log = w.log ++ [e]
  timerId : w.timerId ≤ w'.timerId
  queue_sorted : (w'.timerQueue.map Timer.id).Pairwise (· < ·)
  queue_new : ∀ t ∈ w'.timerQueue, t ∈ w.timerQueue ∨ w.timerId < t.id ∧ t.id ≤ w'.timerId
  queue_kept : ∀ t ∈ w.timerQueue, t ∈ w'.timerQueue ∨ e = .run t.id ∨ e = .clear (some t.id)
  set : ∀ id queued, e = .set id queued → id ≤ w'.timerId ∧ (queued = true → ∃ t ∈ w'.timerQueue, t.id = id)
  clear : ∀ id, e = .clear (some id) → ∀ t ∈ w'.timerQueue, t.id ≠ id
  run : ∀ id, e = .run id → (∃ t ∈ w.timerQueue, t.id = id) ∧ ∀ t ∈ w'.timerQueue, id < t.id
  outer : ∀ draining, e = .drained false draining → draining = false

theorem Inv.step {w w' : World Value} {e : Event} (h : Inv w) (hs : Step w e w') : Inv w' where
  queue_sorted := hs.queue_sorted
  queue_le t ht := by
    rcases hs.queue_new t ht with ht | ht
    · exact Nat.le_trans (h.queue_le t ht) hs.timerId
    · exact ht.2
  set_le id queued hset := by
    rw [hs.log] at hset
    rcases List.mem_append.1 hset with hset | hset
    · exact Nat.le_trans (h.set_le id queued hset) hs.timerId
    · exact (hs.set id queued (List.mem_singleton.1 hset).symm).1
  runs_sorted := by
    rw [hs.log, runs_append]
    refine List.pairwise_append.2 ⟨h.runs_sorted, ?_, ?_⟩
    · rcases e with _ | _ | _ | _ | _ | _ <;> simp [runs]
    · intro id hid id' hid'
      obtain ⟨⟨t, ht, rfl⟩, -⟩ := hs.run id' (List.mem_singleton.1 (mem_runs.1 hid')).symm
      exact h.runs_lt id hid t ht
  runs_le id hid := by
    rw [hs.log, runs_append] at hid
    rcases List.mem_append.1 hid with hid | hid
    · exact Nat.le_trans (h.runs_le id hid) hs.timerId
    · obtain ⟨⟨t, ht, rfl⟩, -⟩ := hs.run id (List.mem_singleton.1 (mem_runs.1 hid)).symm
      exact Nat.le_trans (h.queue_le t ht) hs.timerId
  runs_lt id hid t ht := by
    rw [hs.log, runs_append] at hid
    rcases List.mem_append.1 hid with hid | hid
    · rcases hs.queue_new t ht with ht | ht
      · exact h.runs_lt id hid t ht
      · exact Nat.lt_of_le_of_lt (h.runs_le id hid) ht.1
    · exact (hs.run id (List.mem_singleton.1 (mem_runs.1 hid)).symm).2 t ht
  kept a b id hlog hclear := by
    rw [hs.log] at hlog
    rcases split_concat hlog with ⟨-, -, rfl⟩ | ⟨b', rfl, hold⟩
    · exact .inr ((hs.set id true rfl).2 rfl)
    · rw [List.mem_append, not_or] at hclear
      rcases h.kept a b' id hold hclear.1 with hrun | ⟨t, ht, rfl⟩
      · exact .inl (List.mem_append_left _ hrun)
      · rcases hs.queue_kept t ht with ht | rfl | rfl
        · exact .inr ⟨t, ht, rfl⟩
        · exact .inl (by simp)
        · exact absurd (List.mem_singleton_self _) hclear.2
  cleared a b id hlog hset := by
    rw [hs.log] at hlog
    rcases split_concat hlog with ⟨rfl, -, rfl⟩ | ⟨b', rfl, hold⟩
    · exact ⟨by simp, hs.clear id rfl⟩
    · obtain ⟨hrun, hqueue⟩ := h.cleared a b' id hold hset
      have hid : id ≤ w.timerId := h.set_le id true (hold ▸ List.mem_append_left _ hset)
      refine ⟨fun hmem => ?_, fun t ht => ?_⟩
      · rcases List.mem_append.1 hmem with hmem | hmem
        · exact hrun hmem
        · obtain ⟨⟨t, ht, htid⟩, -⟩ := hs.run id (List.mem_singleton.1 hmem).symm
          exact hqueue t ht htid
      · rcases hs.queue_new t ht with ht | ht
        · exact hqueue t ht
        · omega
  outer draining hmem := by
    rw [hs.log] at hmem
    rcases List.mem_append.1 hmem with hmem | hmem
    · exact h.outer draining hmem
    · exact hs.outer draining (List.mem_singleton.1 hmem).symm

/-! ### The steps -/

/-- Events that say nothing about a timer. -/
def Silent : Event → Prop
  | .set _ _ | .clear _ | .run _ | .drained false true => False
  | _ => True

section
variable {w : World Value}

theorem Inv.note {e : Event} (h : Inv w) (he : Silent e) : Inv (w.note e) :=
  h.step {
    log := rfl
    timerId := Nat.le_refl _
    queue_sorted := h.queue_sorted
    queue_new := fun t ht => .inl ht
    queue_kept := fun t ht => .inl ht
    set := by rintro id queued rfl; exact he.elim
    clear := by rintro id rfl; exact he.elim
    run := by rintro id rfl; exact he.elim
    outer := by
      rintro draining rfl
      rcases draining with _ | _
      · rfl
      · exact he.elim }

/-- A new timer goes to the end of the queue. -/
theorem Inv.push (h : Inv w) {timer : Timer Value} (hid : timer.id = w.timerId + 1) :
    Inv (({ w with timerId := w.timerId + 1 }.push timer).note (.set (w.timerId + 1) true)) :=
  h.step {
    log := rfl
    timerId := Nat.le_succ _
    queue_sorted := by
      simp only [World.note, World.push, List.map_append, List.map_cons, List.map_nil]
      refine List.pairwise_append.2 ⟨h.queue_sorted, List.pairwise_singleton _ _, ?_⟩
      intro id hmem id' hmem'
      obtain ⟨t, ht, rfl⟩ := List.mem_map.1 hmem
      rw [List.mem_singleton.1 hmem', hid]
      exact Nat.lt_succ_of_le (h.queue_le t ht)
    queue_new := by
      intro t ht
      rcases List.mem_append.1 ht with ht | ht
      · exact .inl ht
      · rw [List.mem_singleton.1 ht, hid]
        exact .inr ⟨Nat.lt_succ_self _, Nat.le_refl _⟩
    queue_kept := fun t ht => .inl (List.mem_append_left _ ht)
    set := by
      rintro id queued ⟨rfl, rfl⟩
      exact ⟨Nat.le_refl _, fun _ => ⟨timer, List.mem_append_right _ (List.mem_singleton_self _), hid⟩⟩
    clear := by rintro id ⟨⟩
    run := by rintro id ⟨⟩
    outer := by rintro draining ⟨⟩ }

theorem Inv.setTimeout (h : Inv w) (fn : Handler Value) (args : List Value) : Inv (w.setTimeout fn args) := by
  rcases fn with f | text | _
  · exact h.push rfl
  · exact h.push rfl
  · exact h.step {
      log := rfl
      timerId := Nat.le_succ _
      queue_sorted := h.queue_sorted
      queue_new := fun t ht => .inl ht
      queue_kept := fun t ht => .inl ht
      set := by
        rintro id queued ⟨rfl, rfl⟩
        exact ⟨Nat.le_refl _, by simp⟩
      clear := by rintro id ⟨⟩
      run := by rintro id ⟨⟩
      outer := by rintro draining ⟨⟩ }

theorem Inv.clearTimeout (h : Inv w) (id : Option Nat) : Inv (w.clearTimeout id) :=
  h.step {
    log := rfl
    timerId := Nat.le_refl _
    queue_sorted := h.queue_sorted.sublist (List.eraseP_sublist.map _)
    queue_new := fun t ht => .inl (List.mem_of_mem_eraseP ht)
    queue_kept := by
      intro t ht
      by_cases hid : some t.id = id
      · exact .inr (.inr (by rw [hid]))
      · exact .inl ((List.mem_eraseP_of_neg (by simpa using hid)).2 ht)
    set := by rintro id queued ⟨⟩
    clear := by
      rintro id' ⟨rfl⟩ t ht htid
      have hp : decide (some t.id = some id') = true := by simp [htid]
      obtain ⟨t', l₁, l₂, hno, ht', hq, herase⟩ := List.exists_of_eraseP
        (p := fun t : Timer Value => decide (some t.id = some id')) (List.mem_of_mem_eraseP ht) hp
      have ht : t ∈ l₁ ++ l₂ := herase ▸ ht
      rcases List.mem_append.1 ht with ht | ht
      · exact hno t ht hp
      · -- both have the id, but the queue is sorted
        have hsorted := h.queue_sorted
        rw [hq, List.map_append, List.pairwise_append, List.map_cons, List.pairwise_cons] at hsorted
        have hlt : t'.id < t.id := hsorted.2.1.1 t.id (List.mem_map_of_mem ht)
        have htid' : t'.id = id' := by simpa using ht'
        omega
    run := by rintro id ⟨⟩
    outer := by rintro draining ⟨⟩ }

/-- The first timer leaves the queue and is run. -/
theorem Inv.shift {timer : Timer Value} {rest : List (Timer Value)} (h : Inv w) (hq : w.timerQueue = timer :: rest) :
    Inv ({ w with timerQueue := rest }.note (.run timer.id)) := by
  have hsorted := h.queue_sorted
  rw [hq, List.map_cons, List.pairwise_cons] at hsorted
  exact h.step {
    log := rfl
    timerId := Nat.le_refl _
    queue_sorted := hsorted.2
    queue_new := fun t ht => .inl (hq ▸ List.mem_cons_of_mem _ ht)
    queue_kept := by
      intro t ht
      rw [hq] at ht
      rcases List.mem_cons.1 ht with rfl | ht
      · exact .inr (.inl rfl)
      · exact .inl ht
    set := by rintro id queued ⟨⟩
    clear := by rintro id ⟨⟩
    run := by
      rintro id ⟨rfl⟩
      exact ⟨⟨timer, by simp [hq], rfl⟩, fun t ht => hsorted.1 t.id (List.mem_map_of_mem ht)⟩
    outer := by rintro draining ⟨⟩ }

end

/-- The flag is not part of the invariant. -/
theorem Inv.set_draining {w : World Value} (h : Inv w) (draining : Bool) : Inv { w with drainingTimers := draining } :=
  ⟨h.queue_sorted, h.queue_le, h.set_le, h.runs_sorted, h.runs_le, h.runs_lt, h.kept, h.cleared, h.outer⟩

theorem Inv.invariant : Invariant fun w : World Value => Inv w where
  setTimeout _ fn args h := h.setTimeout fn args
  clearTimeout _ id h := h.clearTimeout id
  nested _ h := (h.note (e := .drain true) trivial).note (e := .drained true true) trivial
  run _ _ _ hq h := h.shift hq
  ran _ id throws h := h.note (e := .ran id throws) trivial
  drain _ h := (h.note (e := .drain false) trivial).set_draining true
  drained _ h := (h.set_draining false).note (e := .drained false false) trivial

theorem Inv.init : Inv ({} : World Value) where
  queue_sorted := List.Pairwise.nil
  queue_le := by simp
  set_le := by simp
  runs_sorted := List.Pairwise.nil
  runs_le := by simp [runs]
  runs_lt := by simp
  kept := by simp
  cleared := by simp
  outer := by simp

/-! ### A drain inside a callback -/

/-- A drain inside a callback returns at once. -/
def Paired (log : List Event) : Prop := ∀ a b, log = a ++ .drain true :: b → ∃ b', b = .drained true true :: b'

theorem Paired.append_one {log : List Event} {e : Event} (h : Paired log) (he : e ≠ .drain true) :
    Paired (log ++ [e]) := by
  intro a b hlog
  rcases split_concat hlog with ⟨-, -, rfl⟩ | ⟨b', rfl, hold⟩
  · exact absurd rfl he
  · obtain ⟨b'', rfl⟩ := h a b' hold
    exact ⟨b'' ++ [e], rfl⟩

theorem Paired.append_pair {log : List Event} (h : Paired log) :
    Paired (log ++ [.drain true] ++ [.drained true true]) := by
  intro a b hlog
  rcases split_concat hlog with ⟨-, -, heq⟩ | ⟨b', rfl, hold⟩
  · cases heq
  · rcases split_concat hold with ⟨rfl, -, -⟩ | ⟨b'', rfl, hbefore⟩
    · exact ⟨[], rfl⟩
    · obtain ⟨b₃, rfl⟩ := h a b'' hbefore
      exact ⟨b₃ ++ [.drain true] ++ [.drained true true], rfl⟩

theorem Paired.invariant : Invariant fun w : World Value => Paired w.log where
  setTimeout _ fn _ h := by
    rcases fn with f | text | _
    all_goals exact h.append_one (by simp)
  clearTimeout _ _ h := h.append_one (by simp)
  nested _ h := h.append_pair
  run _ _ _ _ h := h.append_one (by simp)
  ran _ _ _ h := h.append_one (by simp)
  drain _ h := h.append_one (by simp)
  drained _ h := h.append_one (by simp)

/-! ### How many callbacks a drain runs -/

section
variable {behaviour : Behaviour Value} {w : World Value}

theorem runs_setTimeout (fn : Handler Value) (args : List Value) : runs (w.setTimeout fn args).log = runs w.log := by
  rcases fn with f | text | _
  all_goals simp [World.setTimeout, World.note, World.push, runs]

theorem runs_inside_call (c : Call Value) : runs (timers.inside_call w c).log = runs w.log := by
  rcases c with ⟨fn, args⟩ | ⟨fn, args⟩ | id | id | _
  · exact runs_setTimeout fn args
  · exact runs_setTimeout fn []
  all_goals simp [timers.inside_call, World.clearTimeout, World.note, runs]

theorem runs_foldl_inside_call (cs : List (Call Value)) : runs (cs.foldl timers.inside_call w).log = runs w.log := by
  induction cs generalizing w with
  | nil => rfl
  | cons c cs ih => rw [List.foldl_cons, ih, runs_inside_call]

theorem runs_callback_world (timer : Timer Value) :
    runs (callback_world behaviour w timer).log = runs w.log ++ [timer.id] := by
  have hbody := runs_foldl_inside_call (w := w.note (.run timer.id))
    (behaviour (w.note (.run timer.id)).log timer).calls
  simp only [callback_world, World.note, runs_append] at hbody ⊢
  rw [hbody]
  simp [runs]

theorem length_runs_loop_world (behaviour : Behaviour Value) (w : World Value) (left : Nat) :
    (runs (timers.loop_world behaviour left w).log).length ≤ (runs w.log).length + left := by
  induction left generalizing w with
  | zero => exact Nat.le_refl _
  | succ left ih =>
    rw [timers.loop_world]
    rcases w.timerQueue with _ | ⟨timer, rest⟩
    · exact Nat.le_add_right _ _
    · have hrest := ih (callback_world behaviour { w with timerQueue := rest } timer)
      rw [runs_callback_world, List.length_append, List.length_singleton, Nat.add_assoc, Nat.add_comm 1] at hrest
      exact hrest

end

theorem length_runs_drain (behaviour : Behaviour Value) (w : World Value) :
    (runs (outside_call behaviour w .drainDeferredTimeouts).log).length ≤ (runs w.log).length + 5000 := by
  have hloop := length_runs_loop_world behaviour { w.note (.drain false) with drainingTimers := true } 5000
  simp only [outside_call, World.note, runs_append, List.length_append] at hloop ⊢
  exact hloop

/-- What holds of the timers of a session. -/
structure Safe (w : World Value) : Prop where
  /-- Ids run in order, hence none twice. -/
  increasing : (runs w.log).Pairwise (· < ·)
  /-- A timer that was not cleared since it was set has run or waits. -/
  kept : ∀ a b id, w.log = a ++ .set id true :: b → .clear (some id) ∉ b →
    .run id ∈ b ∨ ∃ t ∈ w.timerQueue, t.id = id
  /-- A timer that was cleared since it was set does not run any more. -/
  cleared : ∀ a b id, w.log = a ++ .clear (some id) :: b → .set id true ∈ a → .run id ∉ b
  /-- A drain inside a callback runs nothing. -/
  nested : ∀ a b, w.log = a ++ .drain true :: b → ∃ b', b = .drained true true :: b'
  /-- A drain outside leaves the flag down. -/
  outer : ∀ draining, .drained false draining ∈ w.log → draining = false

/-- Whatever the callbacks do, every session ends and its timers are safe, and one more drain runs at most 5000
callbacks and leaves the flag down. -/
theorem timers_safe (behaviour : Behaviour Value) (calls : List (Call Value)) :
    ∃ w, (∀ depth, session behaviour (depth + 1) calls = some w) ∧ Safe w ∧
      ∃ w', (∀ depth, perform behaviour (depth + 1) false w .drainDeferredTimeouts = some w') ∧
        w'.drainingTimers = false ∧ (runs w'.log).length ≤ (runs w.log).length + 5000 := by
  have hw : (calls.foldl (outside_call behaviour) {}).drainingTimers = false := foldl_outside_drainingTimers rfl calls
  have hinv : Inv (calls.foldl (outside_call behaviour) {}) := Inv.invariant.session Inv.init calls
  have hpaired : Paired (calls.foldl (outside_call behaviour) {}).log :=
    Paired.invariant.session (by intro a b hlog; simp at hlog) calls
  refine ⟨_, fun depth => foldlM_outside rfl depth calls, ?_, _, fun depth => perform_outside hw depth _,
    outside_call_drainingTimers hw _, ?_⟩
  · exact ⟨hinv.runs_sorted, hinv.kept, fun a b id hlog hset => (hinv.cleared a b id hlog hset).1, hpaired, hinv.outer⟩
  · exact length_runs_drain behaviour _

/-- A drain inside a callback returns with the flag up, and an id that is cleared before it is given out stops no
timer. -/
theorem nested_drain_and_early_clear :
    (¬ ∀ (behaviour : Behaviour Unit) (calls : List (Call Unit)) (w : World Unit), session behaviour 1 calls = some w →
      ∀ inside draining, .drained inside draining ∈ w.log → draining = false) ∧
    ¬ ∀ (behaviour : Behaviour Unit) (calls : List (Call Unit)) (w : World Unit), session behaviour 1 calls = some w →
      ∀ a b id, w.log = a ++ .clear (some id) :: b → .run id ∉ b := by
  constructor
  · intro hall
    have hlog : (session (fun _ _ => ⟨[.drainDeferredTimeouts], false⟩) 1
        [.setTimeout (.function ()) [], .drainDeferredTimeouts]).map World.log =
        some [.set 1 true, .drain false, .run 1, .drain true, .drained true true, .ran 1 false,
          .drained false false] := by
      rfl
    obtain ⟨w, hw, hlog⟩ := Option.map_eq_some_iff.1 hlog
    exact absurd (hall _ _ w hw true true (by simp [hlog])) (by decide)
  · intro hall
    have hlog : (session (fun _ _ => ⟨[], false⟩) 1
        [.clearTimeout (some 1), .setTimeout (.function ()) [], .drainDeferredTimeouts]).map World.log =
        some [.clear (some 1), .set 1 true, .drain false, .run 1, .ran 1 false, .drained false false] := by
      rfl
    obtain ⟨w, hw, hlog⟩ := Option.map_eq_some_iff.1 hlog
    exact hall _ _ w hw [] _ 1 hlog (by simp)

end TtLive.fake_dom.timers
