import TtLive.FakeDom
import TtLive.Callbacks

/-!
# `hybrid-fake-dom.js`: event targets and the life cycle of a `FakeXMLHttpRequest`

`addEventListener`, `removeEventListener` and `dispatchEvent` of a `FakeEventTarget`, which elements, the document and
the window repeat, and what a `FakeXMLHttpRequest` calls in `open`, `send` and `abort`. The arrays of listeners stand
in a heap: `addEventListener` pushes onto the array that a running `forEach` may be reading, `removeEventListener`
stores a new one. Under a name that `_listeners` inherits no array is found, and the call throws. What a listener does
is a parameter. The log keeps what happened; the code does not read it.

`Trace` says what the calls of a script log, with no arrays: a dispatch calls the listeners that the log before it
registers.
-/

namespace TtLive.fake_dom.event_target
open JavaScript Callback

def readystatechange : Str := lit "readystatechange"
def load : Str := lit "load"
def loadend : Str := lit "loadend"
def abort_ : Str := lit "abort"

variable {Target Fn : Type}

inductive Event (Target Fn : Type)
  | added (t : Target) (type : Str) (fn : Fn)
  | removed (t : Target) (type : Str) (fn : Fn)
  /-- `x['on' + type] = fn`; `none` is a value that counts as false. -/
  | assigned (x : Target) (type : Str) (fn : Option Fn)
  | state (x : Target) (readyState : Nat)
  | dispatch (t : Target) (type : Str)
  | dispatched (t : Target) (type : Str)
  | called (fn : Fn)
  | returned (fn : Fn) (threw : Bool)

inductive Call (Target Fn : Type)
  | addEventListener (t : Target) (type : Str) (fn : Fn)
  | removeEventListener (t : Target) (type : Str) (fn : Fn)
  | dispatchEvent (t : Target) (type : Str)
  | assign (x : Target) (type : Str) (fn : Option Fn)
  | open_ (x : Target) (method url : Str) (async : Bool)
  | send (x : Target)
  | abort (x : Target)

/-- The fields of a `FakeXMLHttpRequest` that its methods set. -/
structure Request where
  readyState : Nat := 0
  status : Nat := 0
  statusText : Str := []
  responseText : Str := []
  response : Str := []
  method : Str := lit "GET"
  url : Str := []
  async : Bool := true
  sent : Bool := false

structure World (Target Fn : Type) where
  /-- `_listeners[type]` of each target, as an address in the heap. -/
  slots : Target → Str → Option Nat := fun _ _ => none
  heap : List (List Fn) := []
  handlers : Target → Str → Option Fn := fun _ _ => none
  requests : Target → Request := fun _ => {}
  log : List (Event Target Fn) := []

/-- Whether a call threw, and what has happened by the time it is over. -/
abbrev Reply (Target Fn : Type) := Bool × List (Event Target Fn)

abbrev Behaviour (Target Fn : Type) := List (Event Target Fn) → Fn → Script (Call Target Fn) (Reply Target Fn)

namespace World

variable (w : World Target Fn)

def note (e : Event Target Fn) : World Target Fn := { w with log := w.log ++ [e] }

/-- `_listeners[type] || []`. -/
def listeners (t : Target) (type : Str) : List Fn :=
  match w.slots t type with
  | none => []
  | some a => w.heap.getD a []

variable [DecidableEq Target] [DecidableEq Fn]

/-- `_listeners[type] = arr` for a new array. -/
def store (t : Target) (type : Str) (arr : List Fn) : World Target Fn :=
  { w with
    slots := fun t' type' => if t' = t ∧ type' = type then some w.heap.length else w.slots t' type'
    heap := w.heap ++ [arr] }

def push (a : Nat) (fn : Fn) : World Target Fn := { w with heap := w.heap.modify a (· ++ [fn]) }

def addEventListener (t : Target) (type : Str) (fn : Fn) : World Target Fn :=
  match w.slots t type with
  | none => ((w.store t type []).push w.heap.length fn).note (.added t type fn)
  | some a => (w.push a fn).note (.added t type fn)

def removeEventListener (t : Target) (type : Str) (fn : Fn) : World Target Fn :=
  (w.store t type ((w.listeners t type).filter (· ≠ fn))).note (.removed t type fn)

def assign (x : Target) (type : Str) (fn : Option Fn) : World Target Fn :=
  { w with handlers := fun x' type' => if x' = x ∧ type' = type then fn else w.handlers x' type' }.note
    (.assigned x type fn)

def set_request (x : Target) (r : Request) : World Target Fn :=
  { w with requests := Function.update w.requests x r }.note (.state x r.readyState)

end World

/-! ### Calling back -/

section
variable [DecidableEq Target] [DecidableEq Fn]

/-- `try { fn(event); } catch (e) {}`. -/
def call_listener (behaviour : Behaviour Target Fn)
    (perform : World Target Fn → Call Target Fn → Option (World Target Fn × Reply Target Fn)) (w : World Target Fn)
    (fn : Fn) : Option (World Target Fn) := do
  let w := w.note (.called fn)
  let o ← (behaviour w.log fn).run perform w
  return o.1.note (.returned fn o.2)

variable (call : World Target Fn → Fn → Option (World Target Fn))

/-- `(_listeners[type] || []).forEach(fn => { try { fn(event); } catch (e) {} })`. -/
def call_listeners (w : World Target Fn) (t : Target) (type : Str) : Option (World Target Fn) :=
  match w.slots t type with
  | none => some w
  | some a => for_each (fun w i => (w.heap.getD a [])[i]?) call (w.heap.getD a []).length 0 w

/-- `if (handler) { try { handler.call(this, {}); } catch(e) {} }`. -/
def call_handler (w : World Target Fn) (x : Target) (type : Str) : Option (World Target Fn) :=
  match w.handlers x type with
  | none => some w
  | some fn => call w fn

def fireEvent (w : World Target Fn) (x : Target) (type : Str) : Option (World Target Fn) := do
  let w ← call_handler call w x type
  call_listeners call w x type

def changeState (w : World Target Fn) (x : Target) : Option (World Target Fn) := do
  let w ← call_handler call w x readystatechange
  fireEvent call w x readystatechange

def dispatchEvent (w : World Target Fn) (t : Target) (type : Str) : Option (World Target Fn) := do
  let w ← call_listeners call (w.note (.dispatch t type)) t type
  return w.note (.dispatched t type)

def open_ (w : World Target Fn) (x : Target) (method url : Str) (async : Bool) : Option (World Target Fn) :=
  changeState call (w.set_request x { w.requests x with method, url, async, readyState := 1 }) x

def send (w : World Target Fn) (x : Target) : Option (World Target Fn) := do
  let w ← changeState call (w.set_request x { w.requests x with sent := true, readyState := 2 }) x
  let done : Request :=
    { w.requests x with
      readyState := 4, status := 200, statusText := lit "OK", responseText := lit "\x7b\x7d", response := lit "\x7b\x7d" }
  let w ← changeState call (w.set_request x done) x
  let w ← fireEvent call w x load
  fireEvent call w x loadend

def abort (w : World Target Fn) (x : Target) : Option (World Target Fn) :=
  fireEvent call (w.set_request x { w.requests x with readyState := 0 }) x abort_

end

variable [DecidableEq Target] [DecidableEq Fn]

def threw (w : World Target Fn) : World Target Fn × Reply Target Fn := (w, true, w.log)

def returned (w : World Target Fn) : World Target Fn × Reply Target Fn := (w, false, w.log)

/-- A call; one that calls back takes one of `room`, and `none` is a stack that is full. -/
def perform (behaviour : Behaviour Target Fn) (room : Nat) (w : World Target Fn) (c : Call Target Fn) :
    Option (World Target Fn × Reply Target Fn) :=
  match c with
  | .addEventListener t type fn =>
    some (if object_prototype.contains type then threw w else returned (w.addEventListener t type fn))
  | .removeEventListener t type fn =>
    some (if object_prototype.contains type then threw w else returned (w.removeEventListener t type fn))
  | .assign x type fn => some (returned (w.assign x type fn))
  | .dispatchEvent t type =>
    if object_prototype.contains type then some (threw w)
    else
      match room with
      | 0 => none
      | room + 1 => (dispatchEvent (call_listener behaviour (perform behaviour room)) w t type).map returned
  | .open_ x method url async =>
    match room with
    | 0 => none
    | room + 1 => (open_ (call_listener behaviour (perform behaviour room)) w x method url async).map returned
  | .send x =>
    match room with
    | 0 => none
    | room + 1 => (send (call_listener behaviour (perform behaviour room)) w x).map returned
  | .abort x =>
    match room with
    | 0 => none
    | room + 1 => (abort (call_listener behaviour (perform behaviour room)) w x).map returned

/-- What a page script does, from the start. -/
def session (behaviour : Behaviour Target Fn) (room : Nat) (script : Script (Call Target Fn) (Reply Target Fn)) :
    Option (World Target Fn) :=
  (script.run (perform behaviour room) {}).map Prod.fst

end TtLive.fake_dom.event_target
