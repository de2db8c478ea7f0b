import Mathlib.Logic.Function.Basic
import TtLive.Callbacks
import TtLive.DynArrays
import TtLive.Events

/-!
# `client.cpp`: callbacks that register callbacks

`on` and `on_any` add to vectors that `emit` walks over, and a callback may call them while it is walked over. `emit`
is the code's walk, by iterators: it is `none` when it reads from a buffer that a vector has left. A callback runs where
it stands: if its `std::function` holds what it captures, that lies in the vector's buffer, too (`in_slot`).
`delivered` is the same over copies of the vectors. `history_returns` says over every history of registrations and
events which events break the code, and that it agrees with `delivered` otherwise; `emit_calls`, whom an event is
passed to.
-/

namespace TtLive.Handlers
open Callback DynArray

/-- What a callback does to the client. -/
inductive Registration (Cb : Type)
  | on (type : EventType) (cb : Cb)
  | on_any (cb : Cb)

/-- What a callback does: a registration, or anything with what it has captured. -/
inductive Action (Cb : Type)
  | register (r : Registration Cb)
  | captured

/-- `handlers`, `any_handlers`, and the calls that callbacks have got. -/
structure World (Cb : Type) where
  handlers : EventType → Option (DynArray Cb) := fun _ => none
  any_handlers : DynArray Cb := {}
  log : List (Cb × Event) := []

/-- What a callback does with an event, after the calls so far. -/
abbrev Behaviour (Cb : Type) := Cb → Event → List (Cb × Event) → Script (Action Cb) Unit

namespace World

variable {Cb : Type}

/-- `handlers[type]`: a missing vector is an empty one. -/
def handlers_of (w : World Cb) (type : EventType) : DynArray Cb := (w.handlers type).getD {}

def on (g : Growth) (w : World Cb) (type : EventType) (cb : Cb) : World Cb :=
  { w with handlers := Function.update w.handlers type (some ((w.handlers_of type).push_back g cb)) }

def on_any (g : Growth) (w : World Cb) (cb : Cb) : World Cb :=
  { w with any_handlers := w.any_handlers.push_back g cb }

end World

section
variable {Cb : Type} (g : Growth) (in_slot : Cb → Bool) (behaviour : Behaviour Cb)

def register (w : World Cb) : Registration Cb → World Cb
  | .on type cb => w.on g type cb
  | .on_any cb => w.on_any g cb

def act (w : World Cb) : Action Cb → World Cb × Unit
  | .register r => (register g w r, ())
  | .captured => (w, ())

/-- An action of a callback in the buffer that `vec` had after `moves` moves. -/
def act_in (vec : World Cb → DynArray Cb) (moves : Nat) (cb : Cb) (w : World Cb) : Action Cb → Option (World Cb × Unit)
  | .register r => some (act g w (.register r))
  | .captured => if in_slot cb && (vec w).moves ≠ moves then none else some (act g w .captured)

/-- `cb(ev)`; the flag tells whether it throws. -/
def invoke (vec : World Cb → DynArray Cb) (ev : Event) (moves : Nat) (w : World Cb) (cb : Cb) :
    Option (World Cb × Bool) :=
  (behaviour cb ev w.log).run (act_in g in_slot vec moves cb) { w with log := w.log ++ [(cb, ev)] }

def emit (w : World Cb) (ev : Event) : Option (World Cb × Bool) := do
  let (w, threw) ← for_each World.any_handlers (invoke g in_slot behaviour World.any_handlers ev) w
  if threw then some (w, true)
  else
    match w.handlers ev.type with
    | none => some (w, false)
    | some _ =>
      for_each (fun w => w.handlers_of ev.type) (invoke g in_slot behaviour (fun w => w.handlers_of ev.type) ev) w

/-! ### Over copies -/

/-- `cb(ev)` for a copy of the callback. -/
def pass (ev : Event) (w : World Cb) (cb : Cb) : World Cb × Bool :=
  (behaviour cb ev w.log).exec (act g) { w with log := w.log ++ [(cb, ev)] }

/-- After the callbacks for all events, unless one threw. -/
def halfway (w : World Cb) (ev : Event) : World Cb × Bool :=
  call_all (pass g behaviour ev) w.any_handlers.items w

def delivered (w : World Cb) (ev : Event) : World Cb × Bool :=
  let (w, threw) := halfway g behaviour w ev
  if threw then (w, true) else call_all (pass g behaviour ev) (w.handlers_of ev.type).items w

/-- A callback that lies in the vector uses what it has captured when more has been added than there was room for. -/
def Cut (vec : World Cb → DynArray Cb) (ev : Event) (room : Nat) (w : World Cb) (cb : Cb) : Prop :=
  in_slot cb = true ∧ (behaviour cb ev w.log).Reaches (act g) (fun w a => a = .captured ∧ room < (vec w).items.length)
    { w with log := w.log ++ [(cb, ev)] }

/-- One of the two vectors is outgrown while it is walked over. -/
def Breaks (w : World Cb) (ev : Event) : Prop :=
  Outgrown World.any_handlers (pass g behaviour ev) (Cut g in_slot behaviour World.any_handlers ev)
      w.any_handlers.items w ∨
    (halfway g behaviour w ev).2 = false ∧
      Outgrown (fun w => w.handlers_of ev.type) (pass g behaviour ev)
        (Cut g in_slot behaviour (fun w => w.handlers_of ev.type) ev)
        ((halfway g behaviour w ev).1.handlers_of ev.type).items (halfway g behaviour w ev).1

/-! ### What a callback leaves -/

/-- Nothing is taken away, and only the vectors grow. -/
structure Registers (w w' : World Cb) : Prop where
  any_handlers : Grows w.any_handlers w'.any_handlers
  handlers_of : ∀ type, Grows (w.handlers_of type) (w'.handlers_of type)
  log : w'.log = w.log

theorem Registers.refl (w : World Cb) : Registers w w := ⟨.refl _, fun _ => .refl _, rfl⟩

theorem Registers.trans {u v w : World Cb} (h : Registers u v) (h' : Registers v w) : Registers u w :=
  ⟨h.any_handlers.trans h'.any_handlers, fun type => (h.handlers_of type).trans (h'.handlers_of type),
    h'.log.trans h.log⟩

theorem registers_register (w : World Cb) (r : Registration Cb) : Registers w (register g w r) := by
  cases r with
  | on type cb =>
    refine ⟨.refl _, fun type' => ?_, rfl⟩
    show Grows _ ((Function.update w.handlers type _ type').getD {})
    by_cases htype : type' = type
    · subst htype
      rw [Function.update_self]
      exact grows_push_back g _ cb
    · rw [Function.update_of_ne htype]
      exact .refl _
  | on_any cb => exact ⟨grows_push_back g _ cb, fun _ => .refl _, rfl⟩

theorem registers_act (w : World Cb) (a : Action Cb) : Registers w (act g w a).1 := by
  cases a with
  | register r => exact registers_register g w r
  | captured => exact .refl w

theorem registers_pass (ev : Event) (w : World Cb) (cb : Cb) :
    Registers { w with log := w.log ++ [(cb, ev)] } (pass g behaviour ev w cb).1 := by
  refine Script.run_rule Registers.refl Registers.trans ?_ (Script.run_some _ (behaviour cb ev w.log) _)
  rintro w c a ⟨⟩
  exact registers_act g w c

/-- Where a callback lies, it does what a copy does, unless it is cut off. -/
theorem follows_invoke {vec : World Cb → DynArray Cb} (hvec : ∀ {w w'}, Registers w w' → Grows (vec w) (vec w'))
    (hlog : ∀ w log, vec { w with log := log } = vec w) (ev : Event) :
    Follows vec (invoke g in_slot behaviour vec ev) (pass g behaviour ev) (Cut g in_slot behaviour vec ev) := by
  intro u w cb hgrows _
  by_cases hslot : in_slot cb = true
  · have hkept : ∀ {w : World Cb}, Grows (vec u) (vec w) → ∀ c, Grows (vec u) (vec (act g w c).1) :=
      fun hw c => hw.trans (hvec (registers_act g _ c))
    have hcut : ∀ {w : World Cb} {c : Action Cb}, Grows (vec u) (vec w) →
        (c = .captured ∧ (vec u).room < (vec w).items.length) → act_in g in_slot vec (vec u).moves cb w c = none := by
      rintro w _ hw ⟨rfl, hlt⟩
      have hmoved := Nat.ne_of_gt (hw.moved hlt)
      simp [act_in, hslot, hmoved]
    have hdone : ∀ {w : World Cb} {c : Action Cb}, Grows (vec u) (vec w) →
        ¬ (c = .captured ∧ (vec u).room < (vec w).items.length) →
          act_in g in_slot vec (vec u).moves cb w c = some (act g w c) := by
      intro w c hw hc
      cases c with
      | register r => rfl
      | captured =>
        have hstayed := (hw.stayed (Nat.not_lt.1 fun hlt => hc ⟨rfl, hlt⟩)).2
        simp [act_in, hstayed]
    have hbegin : Grows (vec u) (vec { w with log := w.log ++ [(cb, ev)] }) := by rwa [hlog w]
    have hrun := Script.run_reaches (I := fun w => Grows (vec u) (vec w)) hkept hcut hdone (behaviour cb ev w.log)
      hbegin
    exact ⟨fun h => hrun.1 h.2, fun h => hrun.2 fun hr => h ⟨hslot, hr⟩⟩
  · refine ⟨fun h => absurd h.1 hslot, fun _ => ?_⟩
    have hact : act_in g in_slot vec (vec u).moves cb = fun w a => some (act g w a) := by
      funext w a
      cases a with
      | register r => rfl
      | captured => simp [act_in, hslot]
    rw [invoke, hact, Script.run_some, pass]

theorem follows_any (ev : Event) : Follows World.any_handlers (invoke g in_slot behaviour World.any_handlers ev)
    (pass g behaviour ev) (Cut g in_slot behaviour World.any_handlers ev) :=
  follows_invoke g in_slot behaviour Registers.any_handlers (fun _ _ => rfl) ev

theorem follows_of (ev : Event) (type : EventType) : Follows (fun w : World Cb => w.handlers_of type)
    (invoke g in_slot behaviour (fun w => w.handlers_of type) ev) (pass g behaviour ev)
    (Cut g in_slot behaviour (fun w => w.handlers_of type) ev) :=
  follows_invoke g in_slot behaviour (fun h => h.handlers_of type) (fun _ _ => rfl) ev

/-! ### One event -/

variable {w w' : World Cb} {ev : Event}

theorem delivered_halfway : delivered g behaviour w ev =
    if (halfway g behaviour w ev).2 then ((halfway g behaviour w ev).1, true)
    else call_all (pass g behaviour ev) ((halfway g behaviour w ev).1.handlers_of ev.type).items
      (halfway g behaviour w ev).1 := rfl

theorem delivered_eq : delivered g behaviour w ev =
    call_all (pass g behaviour ev)
      (w.any_handlers.items ++ ((halfway g behaviour w ev).1.handlers_of ev.type).items) w := by
  have hhalf : call_all (pass g behaviour ev) w.any_handlers.items w = halfway g behaviour w ev := rfl
  rw [call_all_append, hhalf, delivered_halfway]
  by_cases hthrew : (halfway g behaviour w ev).2 = true
  · rw [if_pos hthrew, if_pos hthrew]
    exact Prod.ext rfl hthrew.symm
  · rw [if_neg hthrew, if_neg hthrew]

theorem emit_eq (h : ¬ Breaks g in_slot behaviour w ev) :
    emit g in_slot behaviour w ev = some (delivered g behaviour w ev) := by
  have hany : for_each World.any_handlers _ w = some (halfway g behaviour w ev) :=
    for_each_eq (fun w cb => (registers_pass g behaviour ev w cb).any_handlers) (follows_any g in_slot behaviour ev)
      fun hout => h (.inl hout)
  rw [emit, hany, delivered_halfway]
  show (if (halfway g behaviour w ev).2 then _ else _) = _
  split_ifs with hthrew
  · rfl
  · have hof := for_each_eq (w := (halfway g behaviour w ev).1)
      (fun w cb => (registers_pass g behaviour ev w cb).handlers_of ev.type) (follows_of g in_slot behaviour ev ev.type)
      fun hout => h (.inr ⟨Bool.eq_false_iff.2 hthrew, hout⟩)
    split
    · have hmissing : (halfway g behaviour w ev).1.handlers ev.type = none := ‹_›
      rw [World.handlers_of, hmissing]
      rfl
    · exact hof

theorem emit_none (h : Breaks g in_slot behaviour w ev) : emit g in_slot behaviour w ev = none := by
  by_cases hany : Outgrown World.any_handlers (pass g behaviour ev) (Cut g in_slot behaviour World.any_handlers ev)
      w.any_handlers.items w
  · rw [emit, for_each_none (fun w cb => (registers_pass g behaviour ev w cb).any_handlers)
      (follows_any g in_slot behaviour ev) hany]
    rfl
  · obtain ⟨hthrew, hof⟩ := h.resolve_left hany
    have hhalf : for_each World.any_handlers _ w = some (halfway g behaviour w ev) :=
      for_each_eq (fun w cb => (registers_pass g behaviour ev w cb).any_handlers) (follows_any g in_slot behaviour ev)
        hany
    have hnone := for_each_none (fun w cb => (registers_pass g behaviour ev w cb).handlers_of ev.type)
      (follows_of g in_slot behaviour ev ev.type) hof
    rw [emit, hhalf]
    show (if (halfway g behaviour w ev).2 then _ else _) = none
    rw [if_neg (by simp [hthrew])]
    split
    · have hmissing : (halfway g behaviour w ev).1.handlers ev.type = none := ‹_›
      -- no callback is there that could have added one
      obtain ⟨pre, x, post, hl, -⟩ := hof
      rw [World.handlers_of, hmissing] at hl
      exact absurd (List.append_eq_nil_iff.1 hl.symm).2 (List.cons_ne_nil _ _)
    · exact hnone

/-- Of the callbacks that are called, only the last one may throw, and then it keeps the event from those behind it. -/
structure CalledInOrder (behaviour : Behaviour Cb) (ev : Event) (log : List (Cb × Event)) (l called : List Cb)
    (threw : Bool) : Prop where
  in_order : called <+: l
  all : threw = false → called = l
  thrower : threw = true → called ≠ []
  throws : ∀ pre cb post, called = pre ++ cb :: post →
    ((behaviour cb ev (log ++ pre.map (·, ev))).Throws ↔ threw = true ∧ post = [])

theorem called_call_all (ev : Event) (l : List Cb) (w : World Cb) :
    ∃ called, (call_all (pass g behaviour ev) l w).1.log = w.log ++ called.map (·, ev) ∧
      CalledInOrder behaviour ev w.log l called (call_all (pass g behaviour ev) l w).2 := by
  induction l generalizing w with
  | nil => exact ⟨[], by simp [call_all], List.prefix_refl _, fun _ => rfl, fun h => by simp [call_all] at h,
      fun pre cb post h => by simp at h⟩
  | cons cb l ih =>
    have hlog : (pass g behaviour ev w cb).1.log = w.log ++ [(cb, ev)] := (registers_pass g behaviour ev w cb).log
    have hthrows : (pass g behaviour ev w cb).2 = true ↔ (behaviour cb ev w.log).Throws := Script.exec_throws _ _ _
    rw [call_all]
    split_ifs with hthrew
    · refine ⟨[cb], hlog, List.prefix_append [cb] l, fun h => absurd hthrew (by simp [h]), fun _ => by simp, ?_⟩
      intro pre cb' post h
      obtain ⟨rfl, rfl, rfl⟩ : pre = [] ∧ cb' = cb ∧ post = [] := by
        rcases pre with _ | ⟨c, pre⟩
        · obtain ⟨rfl, hpost⟩ := List.cons.inj h
          exact ⟨rfl, rfl, hpost.symm⟩
        · exact absurd (List.cons.inj h).2.symm (by simp)
      simpa [hthrew] using hthrows.1 hthrew
    · obtain ⟨called, hcalled, horder⟩ := ih (pass g behaviour ev w cb).1
      rw [hlog] at horder
      refine ⟨cb :: called, ?_, List.cons_prefix_cons.2 ⟨rfl, horder.in_order⟩, fun h => congrArg _ (horder.all h),
        fun _ => by simp, ?_⟩
      · rw [hcalled, hlog, List.append_assoc]
        rfl
      · intro pre cb' post h
        rcases pre with _ | ⟨c, pre⟩
        · obtain ⟨rfl, rfl⟩ := List.cons.inj h
          have hno : ¬ (behaviour cb ev w.log).Throws := fun ht => hthrew (hthrows.2 ht)
          rw [List.map_nil, List.append_nil]
          exact iff_of_false hno fun hlast => horder.thrower hlast.1 hlast.2
        · obtain ⟨rfl, hcalled⟩ := List.cons.inj h
          have hrest := horder.throws pre cb' post hcalled
          rwa [List.append_assoc] at hrest

/-- An event goes to the callbacks for all events, and then to those that are there for its type when they are through:
those that were there when it was emitted, in the order of their registration, and behind them those that the callbacks
for all events have registered meanwhile. The first that throws keeps it from those behind it. -/
theorem emit_calls {threw : Bool} (h : emit g in_slot behaviour w ev = some (w', threw)) :
    let later := (halfway g behaviour w ev).1.handlers_of ev.type
    (w.handlers_of ev.type).items <+: later.items ∧
      ∃ called, w'.log = w.log ++ called.map (·, ev) ∧
        CalledInOrder behaviour ev w.log (w.any_handlers.items ++ later.items) called threw := by
  have hgrows := grows_call_all (fun w => w.handlers_of ev.type)
    (fun w cb => (registers_pass g behaviour ev w cb).handlers_of ev.type) w.any_handlers.items w
  refine ⟨hgrows.items, ?_⟩
  have hnot : ¬ Breaks g in_slot behaviour w ev := fun hb => by simp [emit_none g in_slot behaviour hb] at h
  rw [emit_eq g in_slot behaviour hnot, delivered_eq] at h
  obtain ⟨called, hlog, horder⟩ := called_call_all g behaviour ev
    (w.any_handlers.items ++ ((halfway g behaviour w ev).1.handlers_of ev.type).items) w
  rw [Option.some.inj h] at hlog horder
  exact ⟨called, hlog, horder⟩

end

def doubling : Growth := ⟨fun n => 2 * n + 1, fun n => by omega⟩

def comment : Event := { type := .Comment }

/-- The first callback registers a third one for comments, and the third one throws. -/
def joining : Behaviour Nat
  | 0, _, _ => .call .captured fun _ => .call (.register (.on .Comment 2)) fun _ => .ends
  | 2, _, _ => .throws
  | _, _, _ => .ends

def joined : World Nat := ((({} : World Nat).on_any doubling 0).on doubling .Comment 1).on doubling .Like 3

/-- A comment comes to the third callback, which throws; a like to the fourth. -/
theorem emit_calls_joined :
    (∃ w', emit doubling (fun _ => true) joining joined comment = some (w', true) ∧
      ∃ called, w'.log = called.map (·, comment) ∧
        CalledInOrder joining comment [] ([0] ++ [1, 2]) called true ∧ called = [0, 1, 2]) ∧
    ∃ w', emit doubling (fun _ => true) joining joined { type := .Like } = some (w', false) ∧
      w'.log = [(0, { type := .Like }), (3, { type := .Like })] := by
  constructor
  · have h : emit doubling (fun _ => true) joining joined comment =
        some ((delivered doubling joining joined comment).1, true) := rfl
    obtain ⟨-, called, hlog, horder⟩ := emit_calls doubling (fun _ => true) joining h
    have horder : CalledInOrder joining comment [] ([0] ++ [1, 2]) called true := horder
    have hcalled : called.map (·, comment) = [0, 1, 2].map (·, comment) := hlog.symm
    exact ⟨_, h, called, hlog, horder, List.map_injective_iff.2 (fun a b hab => (Prod.mk.inj hab).1) hcalled⟩
  · have h : emit doubling (fun _ => true) joining joined { type := .Like } =
        some ((delivered doubling joining joined { type := .Like }).1, false) := rfl
    obtain ⟨-, called, hlog, horder⟩ := emit_calls doubling (fun _ => true) joining h
    refine ⟨_, h, ?_⟩
    rw [hlog, horder.all rfl]
    rfl

/-- Two callbacks in a buffer with room for three, of which the first adds two more. -/
def crowding : Behaviour Nat
  | 0, _, _ => .call (.register (.on_any 2)) fun _ => .call (.register (.on_any 3)) fun _ => .ends
  | _, _, _ => .ends

def crowded : World Nat := (({} : World Nat).on_any doubling 0).on_any doubling 1

example : emit doubling (fun _ => false) crowding crowded comment = none := rfl

/-- The only callback, in a buffer without room, adds another one and uses what it has captured. -/
def self_crowding : Behaviour Nat
  | 0, _, _ => .call (.register (.on_any 1)) fun _ => .call .captured fun _ => .ends
  | _, _, _ => .ends

example : emit doubling (fun _ => true) self_crowding (({} : World Nat).on_any doubling 0) comment = none := rfl

section
variable {Cb : Type} (g : Growth) (in_slot : Cb → Bool) (behaviour : Behaviour Cb)

/-! ### Histories -/

/-- What happens to a client: a registration from outside, or an event. An exception ends `run`, not the client. -/
inductive Op (Cb : Type)
  | register (r : Registration Cb)
  | emit (ev : Event)

def step (w : World Cb) : Op Cb → Option (World Cb)
  | .register r => some (register g w r)
  | .emit ev => (emit g in_slot behaviour w ev).map Prod.fst

def step_delivered (w : World Cb) : Op Cb → World Cb
  | .register r => register g w r
  | .emit ev => (delivered g behaviour w ev).1

/-- Some event of a history breaks the code, where the events before it were delivered. -/
def SomeBreaks (ops : List (Op Cb)) (w : World Cb) : Prop :=
  ∃ pre ev post, ops = pre ++ .emit ev :: post ∧ Breaks g in_slot behaviour (pre.foldl (step_delivered g behaviour) w) ev

theorem someBreaks_nil (w : World Cb) : ¬ SomeBreaks g in_slot behaviour [] w := by
  rintro ⟨pre, ev, post, h, -⟩
  exact List.append_ne_nil_of_right_ne_nil pre (List.cons_ne_nil _ _) h.symm

theorem someBreaks_cons (op : Op Cb) (ops : List (Op Cb)) (w : World Cb) :
    SomeBreaks g in_slot behaviour (op :: ops) w ↔
      (∃ ev, op = .emit ev ∧ Breaks g in_slot behaviour w ev) ∨
        SomeBreaks g in_slot behaviour ops (step_delivered g behaviour w op) := by
  constructor
  · rintro ⟨_ | ⟨op', pre⟩, ev, post, h, hb⟩
    · exact .inl ⟨ev, (List.cons.inj h).1, hb⟩
    · obtain ⟨rfl, rfl⟩ := List.cons.inj h
      exact .inr ⟨pre, ev, post, rfl, hb⟩
  · rintro (⟨ev, rfl, hb⟩ | ⟨pre, ev, post, rfl, hb⟩)
    · exact ⟨[], ev, ops, rfl, hb⟩
    · exact ⟨op :: pre, ev, post, rfl, hb⟩

/-- One step, unless it breaks. -/
theorem step_eq {op : Op Cb} (h : ¬ ∃ ev, op = .emit ev ∧ Breaks g in_slot behaviour w ev) :
    step g in_slot behaviour w op = some (step_delivered g behaviour w op) := by
  cases op with
  | register r => rfl
  | emit ev => exact congrArg (Option.map Prod.fst) (emit_eq g in_slot behaviour fun hb => h ⟨ev, rfl, hb⟩)

/-- Over every history, whatever the callbacks do: the code reads a freed buffer if and only if in some event callbacks
add more to a vector that is walked over than it has room for, before its last one or before one that lies in it uses
what it has captured; otherwise every event is delivered as if the vectors were copied first. -/
theorem history_returns (ops : List (Op Cb)) (w : World Cb) :
    (ops.foldlM (step g in_slot behaviour) w = none ↔ SomeBreaks g in_slot behaviour ops w) ∧
      ∀ w', ops.foldlM (step g in_slot behaviour) w = some w' → w' = ops.foldl (step_delivered g behaviour) w := by
  induction ops generalizing w with
  | nil =>
    exact ⟨⟨nofun, fun h => absurd h (someBreaks_nil g in_slot behaviour w)⟩, fun w' h => (Option.some.inj h).symm⟩
  | cons op ops ih =>
    rw [List.foldlM_cons, someBreaks_cons]
    by_cases hop : ∃ ev, op = .emit ev ∧ Breaks g in_slot behaviour w ev
    · have hnone : step g in_slot behaviour w op = none := by
        obtain ⟨ev, rfl, hb⟩ := hop
        exact congrArg (Option.map Prod.fst) (emit_none g in_slot behaviour hb)
      rw [hnone]
      exact ⟨⟨fun _ => .inl hop, fun _ => rfl⟩, nofun⟩
    · rw [step_eq g in_slot behaviour hop, or_iff_right hop]
      exact ih (step_delivered g behaviour w op)

end

end TtLive.Handlers
