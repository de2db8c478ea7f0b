import TtLive.EventTargets

/-!
# What event targets may log

`registered log t type` is the list that the additions and removals of a log leave, and `Trace` says of every script
what its calls log, with no arrays: each dispatch calls exactly the listeners registered when it begins, in their order,
whatever they add or remove meanwhile. The arrays of the model agree with that (`Agrees`), and no write to one changes
what a running loop still has to read (`Extends`).
-/

namespace TtLive.fake_dom.event_target
open JavaScript Callback

variable {Target Fn : Type}

/-! ### The trace of a run -/

section
variable [DecidableEq Target] (t : Target) (type : Str) (log : List (Event Target Fn)) (e : Event Target Fn)

/-- The value of `t['on' + type]` after a log. -/
def handler : Option Fn :=
  log.foldl (fun fn e => match e with
    | .assigned t' type' fn' => if t' = t ∧ type' = type then fn' else fn
    | _ => fn) none

/-- The `readyState` of `t` after a log. -/
def readyState : Nat :=
  log.foldl (fun n e => match e with
    | .state t' n' => if t' = t then n' else n
    | _ => n) 0

theorem handler_append : handler t type (log ++ [e]) =
    match e with
    | .assigned t' type' fn => if t' = t ∧ type' = type then fn else handler t type log
    | _ => handler t type log := by
  rw [handler, List.foldl_append, ← handler]
  rfl

theorem readyState_append : readyState t (log ++ [e]) =
    match e with
    | .state t' n => if t' = t then n else readyState t log
    | _ => readyState t log := by
  rw [readyState, List.foldl_append, ← readyState]
  rfl

variable [DecidableEq Fn]

def register (fns : List Fn) : Event Target Fn → List Fn
  | .added t' type' fn => if t' = t ∧ type' = type then fns ++ [fn] else fns
  | .removed t' type' fn => if t' = t ∧ type' = type then fns.filter (· ≠ fn) else fns
  | _ => fns

/-- The listeners of `t` for `type` after a log. -/
def registered : List Fn := log.foldl (register t type) []

theorem registered_append : registered t type (log ++ [e]) = register t type (registered t type log) e := by
  rw [registered, List.foldl_append, ← registered]
  rfl

end

/-- What is being done: a script and one call of it, each with whether it throws, calling some listeners, `_fireEvent`
and `_changeState`. -/
inductive Task (Target Fn : Type)
  | script (s : Script (Call Target Fn) (Reply Target Fn)) (threw : Bool)
  | perform (c : Call Target Fn) (threw : Bool)
  | calls (fns : List Fn)
  | fire (x : Target) (type : Str)
  | change (x : Target)

/-- A call that finds something inherited in the place of an array. -/
def Call.Refused : Call Target Fn → Prop
  | .addEventListener _ type _ | .removeEventListener _ type _ | .dispatchEvent _ type =>
    object_prototype.contains type = true
  | _ => False

/-- What a task logs after the log `b`. -/
inductive Trace [DecidableEq Target] [DecidableEq Fn] (behaviour : Behaviour Target Fn) :
    Task Target Fn → List (Event Target Fn) → List (Event Target Fn) → Prop
  | ends (b) : Trace behaviour (.script .ends false) b []
  | throws (b) : Trace behaviour (.script .throws true) b []
  | next {b c k threw threw' p q} (hp : Trace behaviour (.perform c threw) b p)
    (hq : Trace behaviour (.script (k (threw, b ++ p)) threw') (b ++ p) q) :
    Trace behaviour (.script (.call c k) threw') b (p ++ q)
  | refused {b c} (h : c.Refused) : Trace behaviour (.perform c true) b []
  | added {b t type fn} (h : ¬ (Call.addEventListener t type fn).Refused) :
    Trace behaviour (.perform (.addEventListener t type fn) false) b [.added t type fn]
  | removed {b t type fn} (h : ¬ (Call.removeEventListener t type fn).Refused) :
    Trace behaviour (.perform (.removeEventListener t type fn) false) b [.removed t type fn]
  | assigned (b x type fn) : Trace behaviour (.perform (.assign x type fn) false) b [.assigned x type fn]
  | dispatch {b t type p} (h : ¬ (Call.dispatchEvent t type : Call Target Fn).Refused)
    (hp : Trace behaviour (.calls (registered t type b)) (b ++ [.dispatch t type]) p) :
    Trace behaviour (.perform (.dispatchEvent t type) false) b (.dispatch t type :: p ++ [.dispatched t type])
  | open_ {b x method url async p} (hp : Trace behaviour (.change x) (b ++ [.state x 1]) p) :
    Trace behaviour (.perform (.open_ x method url async) false) b (.state x 1 :: p)
  | send {b x p q r s} (hp : Trace behaviour (.change x) (b ++ [.state x 2]) p)
    (hq : Trace behaviour (.change x) (b ++ .state x 2 :: p ++ [.state x 4]) q)
    (hr : Trace behaviour (.fire x load) (b ++ .state x 2 :: p ++ .state x 4 :: q) r)
    (hs : Trace behaviour (.fire x loadend) (b ++ .state x 2 :: p ++ .state x 4 :: q ++ r) s) :
    Trace behaviour (.perform (.send x) false) b (.state x 2 :: p ++ .state x 4 :: q ++ r ++ s)
  | abort {b x p} (hp : Trace behaviour (.fire x abort_) (b ++ [.state x 0]) p) :
    Trace behaviour (.perform (.abort x) false) b (.state x 0 :: p)
  | no_calls (b) : Trace behaviour (.calls []) b []
  | call {b fn fns threw p q}
    (hp : Trace behaviour (.script (behaviour (b ++ [.called fn]) fn) threw) (b ++ [.called fn]) p)
    (hq : Trace behaviour (.calls fns) (b ++ .called fn :: p ++ [.returned fn threw]) q) :
    Trace behaviour (.calls (fn :: fns)) b (.called fn :: p ++ .returned fn threw :: q)
  | fire {b x type p q} (hp : Trace behaviour (.calls (handler x type b).toList) b p)
    (hq : Trace behaviour (.calls (registered x type (b ++ p))) (b ++ p) q) :
    Trace behaviour (.fire x type) b (p ++ q)
  | change {b x p q} (hp : Trace behaviour (.calls (handler x readystatechange b).toList) b p)
    (hq : Trace behaviour (.fire x readystatechange) (b ++ p) q) : Trace behaviour (.change x) b (p ++ q)

/-! ### The arrays -/

namespace World
variable {w w' : World Target Fn}

/-- Arrays are only written behind their end. -/
def Extends (w w' : World Target Fn) : Prop :=
  ∀ (a : Nat) (arr : List Fn), w.heap[a]? = some arr → ∃ more, w'.heap[a]? = some (arr ++ more)

theorem Extends.refl (w : World Target Fn) : w.Extends w := fun _ arr h => ⟨[], by rw [h, List.append_nil]⟩

theorem Extends.trans {w'' : World Target Fn} (h : w.Extends w') (h' : w'.Extends w'') : w.Extends w'' := by
  intro a arr ha
  obtain ⟨m, hm⟩ := h a arr ha
  obtain ⟨n, hn⟩ := h' a _ hm
  exact ⟨m ++ n, by rw [hn, List.append_assoc]⟩

theorem Extends.of_heap_eq (h : w'.heap = w.heap) : w.Extends w' := by
  intro a arr ha
  exact ⟨[], by rw [h, ha, List.append_nil]⟩

/-- What the running loop has to read is still there. -/
theorem Extends.read (h : w.Extends w') {a : Nat} {arr : List Fn} (ha : w.heap[a]? = some arr) {i : Nat}
    (hi : i < arr.length) : (w'.heap.getD a [])[i]? = arr[i]? := by
  obtain ⟨more, hm⟩ := h a arr ha
  rw [List.getD_eq_getElem?_getD, hm, Option.getD_some, List.getElem?_append_left hi]

theorem extends_push (a : Nat) (fn : Fn) : w.Extends (w.push a fn) := by
  intro a' l ha
  by_cases h : a = a'
  · subst h
    exact ⟨[fn], by simp [push, ha]⟩
  · exact ⟨[], by simp [push, h, ha]⟩

section
variable [DecidableEq Target]

theorem extends_store (t : Target) (type : Str) (arr : List Fn) : w.Extends (w.store t type arr) := by
  intro a l ha
  have hlt : a < w.heap.length := (List.getElem?_eq_some_iff.1 ha).1
  exact ⟨[], by simp only [store, List.getElem?_append_left hlt, ha, List.append_nil]⟩

theorem addEventListener_log (t : Target) (type : Str) (fn : Fn) :
    (w.addEventListener t type fn).log = w.log ++ [.added t type fn] := by
  unfold World.addEventListener
  rcases w.slots t type with _ | a <;> rfl

theorem extends_addEventListener (t : Target) (type : Str) (fn : Fn) : w.Extends (w.addEventListener t type fn) := by
  unfold World.addEventListener
  rcases w.slots t type with _ | a
  · exact (extends_store t type []).trans (extends_push _ fn)
  · exact extends_push a fn

theorem listeners_push {t : Target} {type : Str} {a : Nat}
    (hin : ∀ t' type' b, w.slots t' type' = some b → b < w.heap.length)
    (happart : ∀ t' type', w.slots t' type' = some a → t' = t ∧ type' = type) (ha : w.slots t type = some a) (fn : Fn)
    (t' : Target) (type' : Str) : (w.push a fn).listeners t' type' =
      if t' = t ∧ type' = type then w.listeners t type ++ [fn] else w.listeners t' type' := by
  have hlt := hin _ _ _ ha
  unfold World.listeners
  simp only [push]
  by_cases heq : t' = t ∧ type' = type
  · obtain ⟨rfl, rfl⟩ := heq
    simp [ha, List.getD_eq_getElem?_getD, hlt]
  · rw [if_neg heq]
    rcases hs : w.slots t' type' with _ | b
    · rfl
    · have hne : a ≠ b := by
        rintro rfl
        exact heq (happart _ _ hs)
      simp [List.getD_eq_getElem?_getD, hne]

end

variable [DecidableEq Target] [DecidableEq Fn]

/-- The state is what the log says, and no two targets or types share an array. -/
structure Agrees (w : World Target Fn) : Prop where
  in_heap : ∀ {t type a}, w.slots t type = some a → a < w.heap.length
  apart : ∀ {t type t' type' a}, w.slots t type = some a → w.slots t' type' = some a → t' = t ∧ type' = type
  listeners : ∀ t type, w.listeners t type = registered t type w.log
  handlers : ∀ x type, w.handlers x type = handler x type w.log
  readyState : ∀ x, (w.requests x).readyState = readyState x w.log

theorem agrees_init : Agrees ({} : World Target Fn) where
  in_heap h := by cases h
  apart h := by cases h
  listeners _ _ := rfl
  handlers _ _ := rfl
  readyState _ := rfl

/-- An entry of the log that is no registration, no handler and no state. -/
theorem Agrees.note (h : w.Agrees) {e : Event Target Fn} (hl : ∀ t type fns, register t type fns e = fns)
    (hh : ∀ t type, handler t type (w.log ++ [e]) = handler t type w.log)
    (hr : ∀ t, event_target.readyState t (w.log ++ [e]) = event_target.readyState t w.log) : (w.note e).Agrees where
  in_heap := h.in_heap
  apart := h.apart
  listeners t type := by
    show w.listeners t type = registered t type (w.log ++ [e])
    rw [registered_append, hl, h.listeners]
  handlers x type := (h.handlers x type).trans (hh x type).symm
  readyState x := (h.readyState x).trans (hr x).symm

theorem listeners_store (h : w.Agrees) (t : Target) (type : Str) (arr : List Fn) (t' : Target) (type' : Str) :
    (w.store t type arr).listeners t' type' = if t' = t ∧ type' = type then arr else w.listeners t' type' := by
  unfold World.listeners
  by_cases heq : t' = t ∧ type' = type
  · simp [store, heq]
  · simp only [store, heq, if_false]
    rcases hs : w.slots t' type' with _ | a
    · rfl
    · have := h.in_heap hs
      simp [List.getD_eq_getElem?_getD, List.getElem?_append_left this]

theorem in_heap_store (h : w.Agrees) {t : Target} {type : Str} (arr : List Fn) {t' : Target} {type' : Str} {a : Nat}
    (ha : (w.store t type arr).slots t' type' = some a) : a < (w.store t type arr).heap.length := by
  simp only [store] at ha
  have hlen : (w.store t type arr).heap.length = w.heap.length + 1 := by simp [store]
  split at ha
  · cases ha; omega
  · have := h.in_heap ha; omega

theorem apart_store (h : w.Agrees) {t : Target} {type : Str} (arr : List Fn) {t₁ t₂ : Target} {type₁ type₂ : Str}
    {a : Nat} (h₁ : (w.store t type arr).slots t₁ type₁ = some a)
    (h₂ : (w.store t type arr).slots t₂ type₂ = some a) : t₂ = t₁ ∧ type₂ = type₁ := by
  simp only [store] at h₁ h₂
  split at h₁ <;> split at h₂
  · next e₁ e₂ => exact ⟨e₂.1.trans e₁.1.symm, e₂.2.trans e₁.2.symm⟩
  · cases h₁; exact absurd (h.in_heap h₂) (Nat.lt_irrefl _)
  · cases h₂; exact absurd (h.in_heap h₁) (Nat.lt_irrefl _)
  · exact h.apart h₁ h₂

theorem Agrees.store_nil (h : w.Agrees) {t : Target} {type : Str} (hs : w.slots t type = none) :
    (w.store t type []).Agrees where
  in_heap := in_heap_store h []
  apart := apart_store h []
  listeners t' type' := by
    show _ = registered t' type' w.log
    rw [listeners_store h, ← h.listeners]
    split
    · next heq => rw [heq.1, heq.2, World.listeners, hs]
    · rfl
  handlers := h.handlers
  readyState := h.readyState

theorem Agrees.push (h : w.Agrees) {t : Target} {type : Str} {a : Nat} (ha : w.slots t type = some a) (fn : Fn) :
    ((w.push a fn).note (.added t type fn)).Agrees where
  in_heap hs := by
    show _ < (w.heap.modify a _).length
    rw [List.length_modify]
    exact h.in_heap hs
  apart := h.apart
  listeners t' type' := by
    show (w.push a fn).listeners t' type' = registered t' type' (w.log ++ [_])
    have happart : ∀ t' type', w.slots t' type' = some a → t' = t ∧ type' = type := fun _ _ hs => h.apart ha hs
    rw [listeners_push (fun _ _ _ => h.in_heap) happart ha, h.listeners, h.listeners, registered_append, register]
    by_cases heq : t' = t ∧ type' = type
    · rw [if_pos heq, if_pos ⟨heq.1.symm, heq.2.symm⟩, heq.1, heq.2]
    · rw [if_neg heq, if_neg fun h => heq ⟨h.1.symm, h.2.symm⟩]
  handlers x type' := (h.handlers x type').trans (handler_append x type' w.log (.added t type fn)).symm
  readyState x := (h.readyState x).trans (readyState_append x w.log (.added t type fn)).symm

theorem Agrees.addEventListener (h : w.Agrees) (t : Target) (type : Str) (fn : Fn) :
    (w.addEventListener t type fn).Agrees := by
  unfold World.addEventListener
  rcases hs : w.slots t type with _ | a
  · exact (h.store_nil hs).push (by simp [store]) fn
  · exact h.push hs fn

theorem Agrees.removeEventListener (h : w.Agrees) (t : Target) (type : Str) (fn : Fn) :
    (w.removeEventListener t type fn).Agrees where
  in_heap := in_heap_store h ((w.listeners t type).filter (· ≠ fn))
  apart := apart_store h ((w.listeners t type).filter (· ≠ fn))
  listeners t' type' := by
    show (w.store t type _).listeners t' type' = registered t' type' (w.log ++ [_])
    rw [listeners_store h, h.listeners, h.listeners, registered_append, register]
    by_cases heq : t' = t ∧ type' = type
    · rw [if_pos heq, if_pos ⟨heq.1.symm, heq.2.symm⟩, heq.1, heq.2]
    · rw [if_neg heq, if_neg fun h => heq ⟨h.1.symm, h.2.symm⟩]
  handlers x type' := (h.handlers x type').trans (handler_append x type' w.log (.removed t type fn)).symm
  readyState x := (h.readyState x).trans (readyState_append x w.log (.removed t type fn)).symm

theorem Agrees.assign (h : w.Agrees) (x : Target) (type : Str) (fn : Option Fn) : (w.assign x type fn).Agrees where
  in_heap := h.in_heap
  apart := h.apart
  listeners t' type' := (h.listeners t' type').trans (registered_append t' type' w.log (.assigned x type fn)).symm
  handlers x' type' := by
    simp only [World.assign, World.note, handler_append, h.handlers]
    by_cases heq : x' = x ∧ type' = type
    · rw [if_pos heq, if_pos ⟨heq.1.symm, heq.2.symm⟩]
    · rw [if_neg heq, if_neg fun h => heq ⟨h.1.symm, h.2.symm⟩]
  readyState x' := (h.readyState x').trans (readyState_append x' w.log (.assigned x type fn)).symm

theorem Agrees.set_request (h : w.Agrees) (x : Target) (r : Request) : (w.set_request x r).Agrees where
  in_heap := h.in_heap
  apart := h.apart
  listeners t' type' := (h.listeners t' type').trans (registered_append t' type' w.log (.state x r.readyState)).symm
  handlers x' type' := (h.handlers x' type').trans (handler_append x' type' w.log (.state x r.readyState)).symm
  readyState x' := by
    simp only [World.set_request, World.note, readyState_append, Function.update_apply]
    by_cases heq : x' = x
    · rw [if_pos heq, if_pos heq.symm]
    · rw [if_neg heq, if_neg (Ne.symm heq), h.readyState]

end World

/-! ### The steps of a run -/

section
variable [DecidableEq Target] [DecidableEq Fn] {behaviour : Behaviour Target Fn} {w w' : World Target Fn}

/-- What a task does to a world that agrees with its log. -/
structure Steps (behaviour : Behaviour Target Fn) (task : Task Target Fn) (w w' : World Target Fn) : Prop where
  agrees : w'.Agrees
  heap : w.Extends w'
  trace : ∃ p, w'.log = w.log ++ p ∧ Trace behaviour task w.log p

/-- A script does what its calls do, one after the other. -/
theorem script_steps {perform : World Target Fn → Call Target Fn → Option (World Target Fn × Reply Target Fn)}
    (hperform : ∀ {w c a}, w.Agrees → perform w c = some a →
      Steps behaviour (.perform c a.2.1) w a.1 ∧ a.2.2 = a.1.log)
    {s : Script (Call Target Fn) (Reply Target Fn)} (hw : w.Agrees) {o : World Target Fn × Bool}
    (h : s.run perform w = some o) : Steps behaviour (.script s o.2) w o.1 := by
  induction s generalizing w with
  | ends =>
    cases h
    exact ⟨hw, .refl w, [], by simp, .ends _⟩
  | throws =>
    cases h
    exact ⟨hw, .refl w, [], by simp, .throws _⟩
  | call c k ih =>
    obtain ⟨⟨v, threw, log⟩, ha, hk⟩ := Option.bind_eq_some_iff.1 h
    obtain ⟨hcall, hlog⟩ := hperform hw ha
    have hlog : log = v.log := hlog
    have hrest := ih (threw, log) hcall.agrees hk
    obtain ⟨p, hp, hp'⟩ := hcall.trace
    obtain ⟨q, hq, hq'⟩ := hrest.trace
    refine ⟨hrest.agrees, hcall.heap.trans hrest.heap, p ++ q, by rw [hq, hp, List.append_assoc], .next hp' ?_⟩
    rwa [hlog, hp] at hq'

/-- A listener has been called. -/
structure Calls (behaviour : Behaviour Target Fn) (fn : Fn) (w w' : World Target Fn) : Prop where
  agrees : w'.Agrees
  heap : w.Extends w'
  trace : ∃ p threw, w'.log = w.log ++ .called fn :: p ++ [.returned fn threw] ∧
    Trace behaviour (.script (behaviour (w.log ++ [.called fn]) fn) threw) (w.log ++ [.called fn]) p

theorem call_listener_calls
    {perform : World Target Fn → Call Target Fn → Option (World Target Fn × Reply Target Fn)}
    (hperform : ∀ {w c a}, w.Agrees → perform w c = some a →
      Steps behaviour (.perform c a.2.1) w a.1 ∧ a.2.2 = a.1.log) {fn : Fn} (hw : w.Agrees)
    (h : call_listener behaviour perform w fn = some w') : Calls behaviour fn w w' := by
  obtain ⟨o, ho, h⟩ := Option.bind_eq_some_iff.1 h
  cases h
  have hcalled : (w.note (.called fn)).Agrees := hw.note (fun _ _ _ => rfl) (fun t type => handler_append t type _ _)
    fun t => readyState_append t _ _
  have hrun := script_steps hperform hcalled ho
  obtain ⟨p, hp, htrace⟩ := hrun.trace
  refine ⟨hrun.agrees.note (fun _ _ _ => rfl) (fun t type => handler_append t type _ _)
    fun t => readyState_append t _ _, hrun.heap, p, o.2, ?_, htrace⟩
  show o.1.log ++ [_] = _
  rw [hp, World.note]
  simp

section
variable {call : World Target Fn → Fn → Option (World Target Fn)}
  (hcall : ∀ {w fn w'}, w.Agrees → call w fn = some w' → Calls behaviour fn w w')
include hcall

theorem foldlM_steps (fns : List Fn) (hw : w.Agrees) (h : fns.foldlM call w = some w') :
    Steps behaviour (.calls fns) w w' := by
  induction fns generalizing w with
  | nil =>
    cases h
    exact ⟨hw, .refl _, [], by simp, .no_calls _⟩
  | cons fn fns ih =>
    obtain ⟨v, hv, h⟩ := Option.bind_eq_some_iff.1 h
    have hfn := hcall hw hv
    have hfns := ih hfn.agrees h
    obtain ⟨p, threw, hp, hp'⟩ := hfn.trace
    obtain ⟨q, hq, hq'⟩ := hfns.trace
    refine ⟨hfns.agrees, hfn.heap.trans hfns.heap, .called fn :: p ++ .returned fn threw :: q, ?_, .call hp' ?_⟩
    · rw [hq, hp]; simp
    · rwa [hp] at hq'

/-- The loop over the array that the callbacks may be writing calls the listeners it held at the start. -/
theorem call_listeners_eq {t : Target} {type : Str} (hw : w.Agrees) :
    call_listeners call w t type = (w.listeners t type).foldlM call w := by
  unfold call_listeners World.listeners
  rcases hs : w.slots t type with _ | a
  · rfl
  · have hheap : w.heap[a]? = some (w.heap.getD a []) := by
      rw [List.getD_eq_getElem?_getD, List.getElem?_eq_getElem (hw.in_heap hs), Option.getD_some]
    exact for_each_eq_foldlM (I := fun v => v.Agrees ∧ w.Extends v) (fun hv hi => hv.2.read hheap hi)
      (fun hv hx => ⟨(hcall hv.1 hx).agrees, hv.2.trans (hcall hv.1 hx).heap⟩) ⟨hw, .refl w⟩

theorem call_listeners_steps {t : Target} {type : Str} (hw : w.Agrees) (h : call_listeners call w t type = some w') :
    Steps behaviour (.calls (registered t type w.log)) w w' := by
  rw [call_listeners_eq hcall hw] at h
  rw [← hw.listeners]
  exact foldlM_steps hcall _ hw h

theorem call_handler_steps {x : Target} {type : Str} (hw : w.Agrees) (h : call_handler call w x type = some w') :
    Steps behaviour (.calls (handler x type w.log).toList) w w' := by
  rw [← hw.handlers]
  unfold call_handler at h
  rcases hs : w.handlers x type with _ | fn
  · rw [hs] at h
    exact foldlM_steps hcall [] hw h
  · rw [hs] at h
    exact foldlM_steps hcall [fn] hw (by simpa using h)

theorem fireEvent_steps {x : Target} {type : Str} (hw : w.Agrees) (h : fireEvent call w x type = some w') :
    Steps behaviour (.fire x type) w w' := by
  obtain ⟨v, hv, h⟩ := Option.bind_eq_some_iff.1 h
  have h₁ := call_handler_steps hcall hw hv
  have h₂ := call_listeners_steps hcall h₁.agrees h
  obtain ⟨p, hp, hp'⟩ := h₁.trace
  obtain ⟨q, hq, hq'⟩ := h₂.trace
  refine ⟨h₂.agrees, h₁.heap.trans h₂.heap, p ++ q, by rw [hq, hp, List.append_assoc], .fire hp' ?_⟩
  rwa [hp] at hq'

theorem changeState_steps {x : Target} (hw : w.Agrees) (h : changeState call w x = some w') :
    Steps behaviour (.change x) w w' := by
  obtain ⟨v, hv, h⟩ := Option.bind_eq_some_iff.1 h
  have h₁ := call_handler_steps hcall hw hv
  have h₂ := fireEvent_steps hcall h₁.agrees h
  obtain ⟨p, hp, hp'⟩ := h₁.trace
  obtain ⟨q, hq, hq'⟩ := h₂.trace
  refine ⟨h₂.agrees, h₁.heap.trans h₂.heap, p ++ q, by rw [hq, hp, List.append_assoc], .change hp' ?_⟩
  rwa [hp] at hq'

theorem dispatchEvent_steps {t : Target} {type : Str} (hname : ¬ (Call.dispatchEvent t type : Call Target Fn).Refused)
    (hw : w.Agrees) (h : dispatchEvent call w t type = some w') :
    Steps behaviour (.perform (.dispatchEvent t type) false) w w' := by
  obtain ⟨v, hv, h⟩ := Option.bind_eq_some_iff.1 h
  cases h
  have hbegin : (w.note (.dispatch t type)).Agrees := hw.note (fun _ _ _ => rfl)
    (fun t type => handler_append t type _ _) fun t => readyState_append t _ _
  have hcalls := call_listeners_steps hcall hbegin hv
  obtain ⟨p, hp, hp'⟩ := hcalls.trace
  refine ⟨hcalls.agrees.note (fun _ _ _ => rfl) (fun t type => handler_append t type _ _)
    fun t => readyState_append t _ _, hcalls.heap, .dispatch t type :: p ++ [.dispatched t type], ?_, .dispatch hname ?_⟩
  · show v.log ++ [_] = _
    rw [hp, World.note]
    simp
  · rwa [World.note, registered_append] at hp'

theorem open_steps {x : Target} {method url : Str} {async : Bool} (hw : w.Agrees)
    (h : open_ call w x method url async = some w') :
    Steps behaviour (.perform (.open_ x method url async) false) w w' := by
  have hset := hw.set_request x { w.requests x with method, url, async, readyState := 1 }
  have hchange := changeState_steps hcall hset h
  obtain ⟨p, hp, hp'⟩ := hchange.trace
  refine ⟨hchange.agrees, hchange.heap, .state x 1 :: p, ?_, .open_ hp'⟩
  rw [hp, World.set_request, World.note]
  simp

theorem abort_steps {x : Target} (hw : w.Agrees) (h : abort call w x = some w') :
    Steps behaviour (.perform (.abort x) false) w w' := by
  have hset := hw.set_request x { w.requests x with readyState := 0 }
  have hfire := fireEvent_steps hcall hset h
  obtain ⟨p, hp, hp'⟩ := hfire.trace
  refine ⟨hfire.agrees, hfire.heap, .state x 0 :: p, ?_, .abort hp'⟩
  rw [hp, World.set_request, World.note]
  simp

theorem send_steps {x : Target} (hw : w.Agrees) (h : send call w x = some w') :
    Steps behaviour (.perform (.send x) false) w w' := by
  obtain ⟨w₁, h₁, h⟩ := Option.bind_eq_some_iff.1 h
  obtain ⟨w₂, h₂, h⟩ := Option.bind_eq_some_iff.1 h
  obtain ⟨w₃, h₃, h₄⟩ := Option.bind_eq_some_iff.1 h
  have s₁ := changeState_steps hcall (hw.set_request x _) h₁
  have s₂ := changeState_steps hcall (s₁.agrees.set_request x _) h₂
  have s₃ := fireEvent_steps hcall s₂.agrees h₃
  have s₄ := fireEvent_steps hcall s₃.agrees h₄
  obtain ⟨p, hp, hp'⟩ := s₁.trace
  obtain ⟨q, hq, hq'⟩ := s₂.trace
  obtain ⟨r, hr, hr'⟩ := s₃.trace
  obtain ⟨s, hs, hs'⟩ := s₄.trace
  have e₁ : w₁.log = w.log ++ .state x 2 :: p := by rw [hp, World.set_request, World.note]; simp
  have e₂ : w₂.log = w.log ++ .state x 2 :: p ++ .state x 4 :: q := by
    rw [hq, World.set_request, World.note, e₁]; simp
  have e₃ : w₃.log = w.log ++ .state x 2 :: p ++ .state x 4 :: q ++ r := by rw [hr, e₂]
  refine ⟨s₄.agrees, ((s₁.heap.trans s₂.heap).trans s₃.heap).trans s₄.heap,
    .state x 2 :: p ++ .state x 4 :: q ++ r ++ s, ?_, .send hp' ?_ (e₂ ▸ hr') (e₃ ▸ hs')⟩
  · rw [hs, e₃]; simp
  · simpa only [World.set_request, World.note, e₁] using hq'

end

/-- Whatever the listeners do, a call logs what it may. -/
theorem perform_steps (behaviour : Behaviour Target Fn) (room : Nat) {w : World Target Fn} {c : Call Target Fn}
    {a : World Target Fn × Reply Target Fn} (hw : w.Agrees) (h : perform behaviour room w c = some a) :
    Steps behaviour (.perform c a.2.1) w a.1 ∧ a.2.2 = a.1.log := by
  induction room using Nat.strong_induction_on generalizing w c a with
  | _ room ih =>
    have hrefused : ∀ {c}, c.Refused → Steps behaviour (.perform c true) w w :=
      fun hc => ⟨hw, .refl w, [], by simp, .refused hc⟩
    -- the calls that call back have less room
    have hcall : ∀ {room'}, room = room' + 1 → ∀ {w fn w'}, w.Agrees →
        call_listener behaviour (perform behaviour room') w fn = some w' → Calls behaviour fn w w' :=
      fun hroom _ _ _ hw hc => call_listener_calls (ih _ (by omega)) hw hc
    have hmap : ∀ {o : Option (World Target Fn)}, o.map returned = some a →
        o = some a.1 ∧ a.2.1 = false ∧ a.2.2 = a.1.log := by
      intro o ho
      obtain ⟨v, rfl, rfl⟩ := Option.map_eq_some_iff.1 ho
      exact ⟨rfl, rfl, rfl⟩
    rcases c with ⟨t, type, fn⟩ | ⟨t, type, fn⟩ | ⟨t, type⟩ | ⟨x, type, fn⟩ | ⟨x, method, url, async⟩ | x | x <;>
      unfold perform at h
    · split at h <;> cases h
      · next hname => exact ⟨hrefused hname, rfl⟩
      · next hname =>
        exact ⟨⟨hw.addEventListener t type fn, World.extends_addEventListener t type fn, [.added t type fn],
          World.addEventListener_log t type fn, .added hname⟩, rfl⟩
    · split at h <;> cases h
      · next hname => exact ⟨hrefused hname, rfl⟩
      · next hname =>
        exact ⟨⟨hw.removeEventListener t type fn, World.extends_store t type _, [.removed t type fn], rfl,
          .removed hname⟩, rfl⟩
    · split at h
      · next hname =>
        cases h
        exact ⟨hrefused hname, rfl⟩
      · next hname =>
        rcases room with _ | room
        · cases h
        · obtain ⟨ho, hthrew, hlog⟩ := hmap h
          rw [hthrew]
          exact ⟨dispatchEvent_steps (hcall rfl) hname hw ho, hlog⟩
    · cases h
      exact ⟨⟨hw.assign x type fn, .of_heap_eq rfl, [.assigned x type fn], rfl, .assigned _ _ _ _⟩, rfl⟩
    all_goals rcases room with _ | room; · cases h
    all_goals obtain ⟨ho, hthrew, hlog⟩ := hmap h; rw [hthrew]
    · exact ⟨open_steps (hcall rfl) hw ho, hlog⟩
    · exact ⟨send_steps (hcall rfl) hw ho, hlog⟩
    · exact ⟨abort_steps (hcall rfl) hw ho, hlog⟩

/-- Every run of a script is one that needs no arrays: each dispatch, and each event of a request, calls the handler
and the listeners that the log before it registers; and what the targets hold in the end is what was added and
removed. -/
theorem session_trace (behaviour : Behaviour Target Fn) (room : Nat)
    (script : Script (Call Target Fn) (Reply Target Fn)) {w : World Target Fn}
    (h : session behaviour room script = some w) :
    (∃ threw, Trace behaviour (.script script threw) [] w.log) ∧
      (∀ t type, w.listeners t type = registered t type w.log) ∧
        ∀ x, (w.requests x).readyState = readyState x w.log := by
  obtain ⟨o, ho, rfl⟩ := Option.map_eq_some_iff.1 h
  have hrun := script_steps (perform_steps behaviour room) World.agrees_init ho
  obtain ⟨p, hp, htrace⟩ := hrun.trace
  rw [show o.1.log = p from hp]
  exact ⟨⟨o.2, htrace⟩, fun t type => by rw [hrun.agrees.listeners, hp]; rfl,
    fun x => by rw [hrun.agrees.readyState, hp]; rfl⟩

end

/-- A listener that takes the next one away, puts another there and sends a request, in the middle of a dispatch. -/
def meddler : Behaviour Nat Nat := fun _ fn =>
  if fn = 1 then
    .call (.removeEventListener 0 load 2) fun _ => .call (.addEventListener 0 load 3) fun _ =>
      .call (.send 7) fun _ => .ends
  else .throws

def meddling : Script (Call Nat Nat) (Reply Nat Nat) :=
  .call (.addEventListener 0 load 1) fun _ => .call (.addEventListener 0 load 2) fun _ =>
    .call (.dispatchEvent 0 load) fun _ => .call (.open_ 8 (lit "GET") (lit "u") true) fun _ =>
      .call (.open_ 9 (lit "GET") (lit "u") true) fun _ => .call (.abort 9) fun _ => .ends

/-- The states of a request, one after the other. -/
def states (x : Nat) (log : List (Event Nat Nat)) : List Nat :=
  log.filterMap fun e => match e with
    | .state x' n => if x' = x then some n else none
    | _ => none

theorem session_trace_meddling : ∃ w, session meddler 2 meddling = some w ∧
    (∃ threw, Trace meddler (.script meddling threw) [] w.log) ∧
      w.log.filterMap (fun e => match e with | .called fn => some fn | _ => none) = [1, 2] ∧
        w.listeners 0 load = [1, 3] ∧ states 7 w.log = [2, 4] ∧ states 8 w.log = [1] ∧ states 9 w.log = [1, 0] ∧
          (w.requests 7).readyState = 4 ∧ (w.requests 9).readyState = 0 := by
  refine ⟨_, rfl, (session_trace meddler 2 meddling rfl).1, ?_⟩
  decide

end TtLive.fake_dom.event_target
