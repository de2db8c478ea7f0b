import TtLive.DispatchTrace

/-!
# When dispatching returns

Types of events have levels and listeners have depths. Where a listener of depth `d` only begins what is below level
`d`, and only registers listeners for a type that are no deeper than its level, the calls nest no deeper than the
level of the first, and every run returns.
-/

namespace TtLive.fake_dom.event_target
open JavaScript Callback

variable {Target Fn : Type}

section
variable (level : Target → Str → Nat) (depth : Fn → Nat)

/-- A call that calls back only for levels below `n`, and registers no listener too deep for its type. -/
def Below (n : Nat) : Call Target Fn → Prop
  | .addEventListener t type fn => depth fn ≤ level t type
  | .removeEventListener _ _ _ => True
  | .assign x type fn => ∀ f ∈ fn, depth f ≤ level x type
  | .dispatchEvent t type => level t type < n
  | .open_ x _ _ _ => level x readystatechange < n
  | .send x => level x readystatechange < n ∧ level x load < n ∧ level x loadend < n
  | .abort x => level x abort_ < n

variable {level depth} in
theorem Below.mono {m n : Nat} (hmn : m ≤ n) {c : Call Target Fn} (h : Below level depth m c) :
    Below level depth n c := by
  rcases c with _ | _ | _ | _ | _ | _ | _
  case send => exact ⟨h.1.trans_le hmn, h.2.1.trans_le hmn, h.2.2.trans_le hmn⟩
  all_goals first | exact h | exact h.trans_le hmn

/-- What is registered is no deeper than its type. -/
structure World.Ranked (w : World Target Fn) : Prop where
  listeners : ∀ t type, ∀ fn ∈ w.listeners t type, depth fn ≤ level t type
  handlers : ∀ x type, ∀ fn ∈ w.handlers x type, depth fn ≤ level x type

variable [DecidableEq Target] [DecidableEq Fn]

/-- What a run keeps: the arrays agree with the log, and nothing is registered too deep. -/
def World.Good (w : World Target Fn) : Prop := w.Agrees ∧ w.Ranked level depth

end

section
variable [DecidableEq Target] [DecidableEq Fn] {level : Target → Str → Nat} {depth : Fn → Nat} {w w' : World Target Fn}

theorem World.Good.note (h : w.Good level depth) {e : Event Target Fn} (he : (w.note e).Agrees) :
    (w.note e).Good level depth := ⟨he, h.2.listeners, h.2.handlers⟩

theorem World.Good.set_request (h : w.Good level depth) (x : Target) (r : Request) :
    (w.set_request x r).Good level depth := ⟨h.1.set_request x r, h.2.listeners, h.2.handlers⟩

theorem World.Good.addEventListener (h : w.Good level depth) {t : Target} {type : Str} {fn : Fn}
    (hfn : depth fn ≤ level t type) : (w.addEventListener t type fn).Good level depth := by
  have hadd := h.1.addEventListener t type fn
  refine ⟨hadd, fun t' type' f hf => ?_, ?_⟩
  · rw [hadd.listeners, World.addEventListener_log, registered_append, register, ← h.1.listeners] at hf
    split at hf
    · next heq =>
      rcases List.mem_append.1 hf with hf | hf
      · exact h.2.listeners _ _ f hf
      · rw [List.mem_singleton.1 hf, ← heq.1, ← heq.2]
        exact hfn
    · exact h.2.listeners _ _ f hf
  · intro x type' f hf
    refine h.2.handlers x type' f ?_
    unfold World.addEventListener at hf
    rcases hs : w.slots t type with _ | a <;> rw [hs] at hf <;> exact hf

theorem World.Good.removeEventListener (h : w.Good level depth) (t : Target) (type : Str) (fn : Fn) :
    (w.removeEventListener t type fn).Good level depth := by
  have hremove := h.1.removeEventListener t type fn
  refine ⟨hremove, fun t' type' f hf => ?_, h.2.handlers⟩
  have hlog : (w.removeEventListener t type fn).log = w.log ++ [.removed t type fn] := rfl
  rw [hremove.listeners, hlog, registered_append, register, ← h.1.listeners] at hf
  split at hf
  · exact h.2.listeners _ _ f (List.mem_of_mem_filter hf)
  · exact h.2.listeners _ _ f hf

theorem World.Good.assign (h : w.Good level depth) {x : Target} {type : Str} {fn : Option Fn}
    (hfn : ∀ f ∈ fn, depth f ≤ level x type) : (w.assign x type fn).Good level depth := by
  refine ⟨h.1.assign x type fn, h.2.listeners, fun x' type' f hf => ?_⟩
  simp only [World.assign, World.note] at hf
  split at hf
  · next heq => rw [heq.1, heq.2]; exact hfn f hf
  · exact h.2.handlers x' type' f hf

/-- A call back to a listener that is at most `n` deep returns. -/
def Returns (level : Target → Str → Nat) (depth : Fn → Nat) (n : Nat)
    (call : World Target Fn → Fn → Option (World Target Fn)) : Prop :=
  ∀ w fn, World.Good level depth w → depth fn ≤ n → ∃ w', call w fn = some w' ∧ w'.Good level depth

section
variable {n : Nat} {call : World Target Fn → Fn → Option (World Target Fn)}
  (hreturns : Returns level depth n call)
include hreturns

theorem foldlM_returns (fns : List Fn) (hfns : ∀ fn ∈ fns, depth fn ≤ n) (hw : w.Good level depth) :
    ∃ w', fns.foldlM call w = some w' ∧ w'.Good level depth := by
  induction fns generalizing w with
  | nil => exact ⟨w, rfl, hw⟩
  | cons fn fns ih =>
    obtain ⟨v, hv, hgood⟩ := hreturns w fn hw (hfns fn (by simp))
    obtain ⟨w', hw', hgood'⟩ := ih (fun f hf => hfns f (by simp [hf])) hgood
    exact ⟨w', by rw [List.foldlM_cons, hv]; exact hw', hgood'⟩

theorem call_handler_returns {x : Target} {type : Str} (hn : level x type ≤ n) (hw : w.Good level depth) :
    ∃ w', call_handler call w x type = some w' ∧ w'.Good level depth := by
  unfold call_handler
  rcases hs : w.handlers x type with _ | fn
  · exact ⟨w, rfl, hw⟩
  · exact hreturns w fn hw ((hw.2.handlers x type fn hs).trans hn)

variable {behaviour : Behaviour Target Fn}
  (hcall : ∀ {w fn w'}, w.Agrees → call w fn = some w' → Calls behaviour fn w w')
include hcall

theorem call_listeners_returns {t : Target} {type : Str} (hn : level t type ≤ n) (hw : w.Good level depth) :
    ∃ w', call_listeners call w t type = some w' ∧ w'.Good level depth := by
  rw [call_listeners_eq hcall hw.1]
  exact foldlM_returns hreturns _ (fun fn hfn => (hw.2.listeners t type fn hfn).trans hn) hw

theorem fireEvent_returns {x : Target} {type : Str} (hn : level x type ≤ n) (hw : w.Good level depth) :
    ∃ w', fireEvent call w x type = some w' ∧ w'.Good level depth := by
  obtain ⟨v, hv, hgood⟩ := call_handler_returns hreturns hn hw
  obtain ⟨w', hw', hgood'⟩ := call_listeners_returns hreturns hcall hn hgood
  exact ⟨w', Option.bind_eq_some_iff.2 ⟨v, hv, hw'⟩, hgood'⟩

theorem changeState_returns {x : Target} (hn : level x readystatechange ≤ n) (hw : w.Good level depth) :
    ∃ w', changeState call w x = some w' ∧ w'.Good level depth := by
  obtain ⟨v, hv, hgood⟩ := call_handler_returns hreturns hn hw
  obtain ⟨w', hw', hgood'⟩ := fireEvent_returns hreturns hcall hn hgood
  exact ⟨w', Option.bind_eq_some_iff.2 ⟨v, hv, hw'⟩, hgood'⟩

theorem dispatchEvent_returns {t : Target} {type : Str} (hn : level t type ≤ n) (hw : w.Good level depth) :
    ∃ w', dispatchEvent call w t type = some w' ∧ w'.Good level depth := by
  have hbegin : (w.note (.dispatch t type)).Good level depth := hw.note <| hw.1.note (fun _ _ _ => rfl)
    (fun t type => handler_append t type _ _) fun t => readyState_append t _ _
  obtain ⟨v, hv, hgood⟩ := call_listeners_returns hreturns hcall hn hbegin
  exact ⟨_, Option.bind_eq_some_iff.2 ⟨v, hv, rfl⟩, hgood.note <| hgood.1.note (fun _ _ _ => rfl)
    (fun t type => handler_append t type _ _) fun t => readyState_append t _ _⟩

theorem send_returns {x : Target} (h₁ : level x readystatechange ≤ n) (h₂ : level x load ≤ n)
    (h₃ : level x loadend ≤ n) (hw : w.Good level depth) :
    ∃ w', send call w x = some w' ∧ w'.Good level depth := by
  obtain ⟨w₁, hw₁, g₁⟩ := changeState_returns hreturns hcall h₁ (hw.set_request x _)
  obtain ⟨w₂, hw₂, g₂⟩ := changeState_returns hreturns hcall h₁ (g₁.set_request x _)
  obtain ⟨w₃, hw₃, g₃⟩ := fireEvent_returns hreturns hcall h₂ g₂
  obtain ⟨w₄, hw₄, g₄⟩ := fireEvent_returns hreturns hcall h₃ g₃
  exact ⟨w₄, Option.bind_eq_some_iff.2 ⟨w₁, hw₁, Option.bind_eq_some_iff.2 ⟨w₂, hw₂,
    Option.bind_eq_some_iff.2 ⟨w₃, hw₃, hw₄⟩⟩⟩, g₄⟩

end

variable {behaviour : Behaviour Target Fn}
  (hbehaviour : ∀ log fn, (behaviour log fn).Makes (Below level depth (depth fn)))
include hbehaviour

theorem call_listener_returns {n : Nat}
    {perform : World Target Fn → Call Target Fn → Option (World Target Fn × Reply Target Fn)}
    (hperform : ∀ w c, Below level depth n c → w.Good level depth →
      ∃ a, perform w c = some a ∧ a.1.Good level depth) :
    Returns level depth n (call_listener behaviour perform) := by
  intro w fn hw hn
  have hcalled : (w.note (.called fn)).Good level depth := hw.note <| hw.1.note (fun _ _ _ => rfl)
    (fun t type => handler_append t type _ _) fun t => readyState_append t _ _
  obtain ⟨o, ho, hgood⟩ := Script.run_isSome hperform ((hbehaviour (w.note (.called fn)).log fn).mono
    fun _ hc => Below.mono hn hc) hcalled
  exact ⟨_, Option.bind_eq_some_iff.2 ⟨o, ho, rfl⟩, hgood.note <| hgood.1.note (fun _ _ _ => rfl)
    (fun t type => handler_append t type _ _) fun t => readyState_append t _ _⟩

theorem perform_returns (room : Nat) (w : World Target Fn) (c : Call Target Fn) (hc : Below level depth room c)
    (hw : w.Good level depth) : ∃ a, perform behaviour room w c = some a ∧ a.1.Good level depth := by
  induction room using Nat.strong_induction_on generalizing w c with
  | _ room ih =>
    have hcall : ∀ {r w fn w'}, w.Agrees → call_listener behaviour (perform behaviour r) w fn = some w' →
        Calls behaviour fn w w' := fun hw hc => call_listener_calls (perform_steps behaviour _) hw hc
    have hreturns : ∀ r < room, Returns level depth r (call_listener behaviour (perform behaviour r)) :=
      fun r hr => call_listener_returns hbehaviour fun w c => ih r hr w c
    rcases c with ⟨t, type, fn⟩ | ⟨t, type, fn⟩ | ⟨t, type⟩ | ⟨x, type, fn⟩ | ⟨x, method, url, async⟩ | x | x <;>
      unfold perform
    · refine ⟨_, rfl, ?_⟩
      split
      exacts [hw, hw.addEventListener hc]
    · refine ⟨_, rfl, ?_⟩
      split
      exacts [hw, hw.removeEventListener t type fn]
    · split
      · exact ⟨_, rfl, hw⟩
      · obtain ⟨r, rfl⟩ := Nat.exists_eq_succ_of_ne_zero (Nat.ne_zero_of_lt hc)
        obtain ⟨w', h, hgood⟩ := dispatchEvent_returns (hreturns r (by omega)) hcall (Nat.le_of_lt_succ hc) hw
        exact ⟨_, Option.map_eq_some_iff.2 ⟨w', h, rfl⟩, hgood⟩
    · exact ⟨_, rfl, hw.assign hc⟩
    · obtain ⟨r, rfl⟩ := Nat.exists_eq_succ_of_ne_zero (Nat.ne_zero_of_lt hc)
      obtain ⟨w', h, hgood⟩ := changeState_returns (hreturns r (by omega)) hcall (Nat.le_of_lt_succ hc)
        (hw.set_request x { w.requests x with method, url, async, readyState := 1 })
      exact ⟨_, Option.map_eq_some_iff.2 ⟨w', h, rfl⟩, hgood⟩
    · obtain ⟨h₁, h₂, h₃⟩ := hc
      obtain ⟨r, rfl⟩ := Nat.exists_eq_succ_of_ne_zero (Nat.ne_zero_of_lt h₁)
      obtain ⟨w', h, hgood⟩ := send_returns (hreturns r (by omega)) hcall (Nat.le_of_lt_succ h₁)
        (Nat.le_of_lt_succ h₂) (Nat.le_of_lt_succ h₃) hw
      exact ⟨_, Option.map_eq_some_iff.2 ⟨w', h, rfl⟩, hgood⟩
    · obtain ⟨r, rfl⟩ := Nat.exists_eq_succ_of_ne_zero (Nat.ne_zero_of_lt hc)
      obtain ⟨w', h, hgood⟩ := fireEvent_returns (hreturns r (by omega)) hcall (Nat.le_of_lt_succ hc)
        (hw.set_request x { w.requests x with readyState := 0 })
      exact ⟨_, Option.map_eq_some_iff.2 ⟨w', h, rfl⟩, hgood⟩

/-- Where levels and depths go down, a run returns, and its calls nest no deeper than the levels that it begins at. -/
theorem session_returns {n : Nat} {script : Script (Call Target Fn) (Reply Target Fn)}
    (hscript : script.Makes (Below level depth n)) :
    ∃ w, session behaviour n script = some w ∧ w.Ranked level depth := by
  have hinit : ({} : World Target Fn).Good level depth :=
    ⟨World.agrees_init, fun _ _ _ h => (List.not_mem_nil h).elim, fun _ _ _ h => (Option.not_mem_none _ h).elim⟩
  obtain ⟨o, ho, hgood⟩ := Script.run_isSome (fun w c hc => perform_returns hbehaviour n w c hc) hscript hinit
  exact ⟨o.1, Option.map_eq_some_iff.2 ⟨o, ho, rfl⟩, hgood.2⟩

end

theorem session_returns_meddling : ∃ w, session meddler 2 meddling = some w ∧
    w.Ranked (fun t _ => if t = 0 then 1 else 0) (fun fn => if fn = 1 ∨ fn = 3 then 1 else 0) := by
  refine session_returns (fun log fn => ?_) ?_
  · unfold meddler
    by_cases h : fn = 1
    · subst h
      exact .call trivial fun _ => .call (by simp [Below]) fun _ => .call (by simp [Below]) fun _ => .ends
    · rw [if_neg h]
      exact .throws
  · exact .call (by simp [Below]) fun _ => .call (by simp [Below]) fun _ => .call (by simp [Below]) fun _ =>
      .call (by simp [Below]) fun _ => .call (by simp [Below]) fun _ => .call (by simp [Below]) fun _ => .ends

end TtLive.fake_dom.event_target
