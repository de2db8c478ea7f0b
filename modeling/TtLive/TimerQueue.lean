import TtLive.JavaScript

/-!
# `hybrid-fake-dom.js`: the deferred timer queue

`setTimeout`, `setInterval`, `clearTimeout`, `clearInterval` and `__drainDeferredTimeouts`. What a callback does when
it is run is a parameter: the calls it makes may depend on everything that happened before. The log keeps what
happened; the code does not read it.
-/

namespace TtLive.fake_dom.timers
open JavaScript

variable {Value : Type}

/-- The first argument of `setTimeout`. -/
inductive Handler (Value : Type)
  | function (f : Value)
  | code (text : Str)
  | other

/-- An entry of `__timerQueue`; `fn` is called with `args`, or evaluates a text. -/
structure Timer (Value : Type) where
  fn : Value ⊕ Str
  args : List Value
  id : Nat

/-- A call; `none` as an id is a value that is no timer id. -/
inductive Call (Value : Type)
  | setTimeout (fn : Handler Value) (args : List Value)
  | setInterval (fn : Handler Value) (args : List Value)
  | clearTimeout (id : Option Nat)
  | clearInterval (id : Option Nat)
  | drainDeferredTimeouts

inductive Event
  /-- `setTimeout` returned `id`, with a timer in the queue or without. -/
  | set (id : Nat) (queued : Bool)
  | clear (id : Option Nat)
  /-- A drain is called, from inside a callback or not. -/
  | drain (inside : Bool)
  /-- A drain returns; `draining` is `__drainingTimers`. -/
  | drained (inside : Bool) (draining : Bool)
  | run (id : Nat)
  | ran (id : Nat) (throws : Bool)
deriving DecidableEq

structure World (Value : Type) where
  timerQueue : List (Timer Value) := []
  timerId : Nat := 0
  drainingTimers : Bool := false
  log : List Event := []

/-- What a callback does: its calls up to its end or to an exception. -/
structure Body (Value : Type) where
  calls : List (Call Value)
  throws : Bool

abbrev Behaviour (Value : Type) := List Event → Timer Value → Body Value

namespace World

variable (w : World Value)

def note (e : Event) : World Value := { w with log := w.log ++ [e] }

def push (timer : Timer Value) : World Value := { w with timerQueue := w.timerQueue ++ [timer] }

def setTimeout (fn : Handler Value) (args : List Value) : World Value :=
  let id := w.timerId + 1
  let w := { w with timerId := id }
  match fn with
  | .function f => (w.push { fn := .inl f, args, id }).note (.set id true)
  | .code text => (w.push { fn := .inr text, args := [], id }).note (.set id true)
  | .other => w.note (.set id false)

/-- `splice(idx, 1)` at the first index of a timer with this id. -/
def clearTimeout (id : Option Nat) : World Value :=
  { w with timerQueue := w.timerQueue.eraseP fun t => some t.id = id }.note (.clear id)

end World

/-- `try { timer.fn.apply(null, timer.args); } catch(e) {}`; `call` makes a call from inside the callback. -/
def run_callback (behaviour : Behaviour Value) (call : World Value → Call Value → Option (World Value))
    (w : World Value) (timer : Timer Value) : Option (World Value) := do
  let w := w.note (.run timer.id)
  let body := behaviour w.log timer
  let w ← body.calls.foldlM call w
  return w.note (.ran timer.id body.throws)

/-- The `while` of a drain; `left` is `5000 - safety`. -/
def drain_loop (callback : World Value → Timer Value → Option (World Value)) :
    (left : Nat) → World Value → Option (World Value)
  | 0, w => some w
  | left + 1, w =>
    match w.timerQueue with
    | [] => some w
    | timer :: rest => (callback { w with timerQueue := rest } timer).bind (drain_loop callback left)

/-- A call; a drain inside a callback of a drain takes one of `depth`. -/
def perform (behaviour : Behaviour Value) (depth : Nat) (inside : Bool) (w : World Value) :
    Call Value → Option (World Value)
  | .setTimeout fn args => some (w.setTimeout fn args)
  | .setInterval fn _ => some (w.setTimeout fn [])
  | .clearTimeout id => some (w.clearTimeout id)
  | .clearInterval id => some (w.clearTimeout id)
  | .drainDeferredTimeouts => do
    let w := w.note (.drain inside)
    if w.drainingTimers then
      return w.note (.drained inside w.drainingTimers)
    else
      match depth with
      | 0 => none
      | depth + 1 =>
        let w := { w with drainingTimers := true }
        let w ← drain_loop (run_callback behaviour (perform behaviour depth true)) 5000 w
        let w := { w with drainingTimers := false }
        return w.note (.drained inside w.drainingTimers)

/-- A sequence of calls from outside. -/
def session (behaviour : Behaviour Value) (depth : Nat) (calls : List (Call Value)) : Option (World Value) :=
  calls.foldlM (perform behaviour depth false) {}

/-- The ids of the timers that were run, in order. -/
def runs (log : List Event) : List Nat := log.filterMap fun
  | .run id => some id
  | _ => none

end TtLive.fake_dom.timers
