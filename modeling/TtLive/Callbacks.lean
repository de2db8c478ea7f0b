import Mathlib.Data.List.Basic

/-!
# Callbacks

A callback is a script of calls back into the component that called it: what it does next may depend on every reply,
and it ends or throws. `for_each` calls back for the elements of an array that the callbacks may meanwhile extend: the
length is read once, each element when its turn comes.
-/

namespace Callback

inductive Script (Call Reply : Type)
  | ends
  | throws
  | call (c : Call) (k : Reply → Script Call Reply)

variable {World Call Reply α : Type}

/-- The calls of a script, and whether it threw. -/
def Script.run (perform : World → Call → Option (World × Reply)) : Script Call Reply → World → Option (World × Bool)
  | .ends, w => some (w, false)
  | .throws, w => some (w, true)
  | .call c k, w => (perform w c).bind fun a => (k a.2).run perform a.1

/-- Every call that a script can make, whatever the replies. -/
inductive Script.Makes (P : Call → Prop) : Script Call Reply → Prop
  | ends : Makes P .ends
  | throws : Makes P .throws
  | call {c : Call} {k : Reply → Script Call Reply} (h : P c) (hk : ∀ r, Makes P (k r)) : Makes P (.call c k)

theorem Script.Makes.mono {P Q : Call → Prop} (hPQ : ∀ c, P c → Q c) {s : Script Call Reply} (h : s.Makes P) :
    s.Makes Q := by
  induction h with
  | ends => exact .ends
  | throws => exact .throws
  | call hc _ ih => exact .call (hPQ _ hc) ih

/-- `left` turns from the `k`-th on; an element that is not there is passed over. -/
def for_each (read : World → Nat → Option α) (f : World → α → Option World) :
    (left k : Nat) → World → Option World
  | 0, _, w => some w
  | left + 1, k, w =>
    match read w k with
    | none => for_each read f left (k + 1) w
    | some x => (f w x).bind (for_each read f left (k + 1))

/-- What each call does to the world, and composes, is done by the whole script. -/
theorem Script.run_rule {perform : World → Call → Option (World × Reply)} {R : World → World → Prop}
    (hrefl : ∀ w, R w w) (htrans : ∀ {u v w}, R u v → R v w → R u w)
    (hcall : ∀ {w c a}, perform w c = some a → R w a.1) {s : Script Call Reply} {w : World} {o : World × Bool}
    (h : s.run perform w = some o) : R w o.1 := by
  induction s generalizing w with
  | ends => cases h; exact hrefl w
  | throws => cases h; exact hrefl w
  | call c k ih =>
    obtain ⟨a, ha, hk⟩ := Option.bind_eq_some_iff.1 h
    exact htrans (hcall ha) (ih a.2 hk)

/-- The run of a script whose calls all return. -/
def Script.exec (perform : World → Call → World × Reply) : Script Call Reply → World → World × Bool
  | .ends, w => (w, false)
  | .throws, w => (w, true)
  | .call c k, w => (k (perform w c).2).exec perform (perform w c).1

theorem Script.run_some (perform : World → Call → World × Reply) (s : Script Call Reply) (w : World) :
    s.run (fun w c => some (perform w c)) w = some (s.exec perform w) := by
  induction s generalizing w with
  | ends => rfl
  | throws => rfl
  | call c k ih => exact ih _ _

/-- A run comes to a call of which `P` holds. -/
def Script.Reaches (perform : World → Call → World × Reply) (P : World → Call → Prop) : Script Call Reply → World → Prop
  | .call c k, w => P w c ∨ (k (perform w c).2).Reaches perform P (perform w c).1
  | _, _ => False

/-- Where the calls return but those of which `P` holds, a run that comes to none of these is over as if all did. -/
theorem Script.run_reaches {p : World → Call → Option (World × Reply)} {perform : World → Call → World × Reply}
    {P : World → Call → Prop} {I : World → Prop} (hI : ∀ {w}, I w → ∀ c, I (perform w c).1)
    (hnone : ∀ {w c}, I w → P w c → p w c = none) (hsome : ∀ {w c}, I w → ¬ P w c → p w c = some (perform w c))
    (s : Script Call Reply) {w : World} (hw : I w) :
    (s.Reaches perform P w → s.run p w = none) ∧ (¬ s.Reaches perform P w → s.run p w = some (s.exec perform w)) := by
  induction s generalizing w with
  | ends => exact ⟨nofun, fun _ => rfl⟩
  | throws => exact ⟨nofun, fun _ => rfl⟩
  | call c k ih =>
    obtain ⟨ihnone, ihsome⟩ := ih (perform w c).2 (hI hw c)
    by_cases hc : P w c
    · refine ⟨fun _ => ?_, fun h => absurd (.inl hc) h⟩
      rw [run, hnone hw hc]
      rfl
    · rw [run, hsome hw hc]
      exact ⟨fun h => ihnone (h.resolve_left hc), fun h => ihsome fun hk => h (.inr hk)⟩

/-- A script that gets no replies throws. -/
def Script.Throws : Script Call Unit → Prop
  | .ends => False
  | .throws => True
  | .call _ k => (k ()).Throws

theorem Script.exec_throws (perform : World → Call → World × Unit) (s : Script Call Unit) (w : World) :
    (s.exec perform w).2 = true ↔ s.Throws := by
  induction s generalizing w with
  | ends => exact iff_of_false Bool.false_ne_true id
  | throws => exact iff_of_true rfl trivial
  | call c k ih => exact ih () _

/-- A script whose calls all return, returns. -/
theorem Script.run_isSome {perform : World → Call → Option (World × Reply)} {P : Call → Prop} {I : World → Prop}
    (hcall : ∀ w c, P c → I w → ∃ a, perform w c = some a ∧ I a.1) {s : Script Call Reply} (hs : s.Makes P)
    {w : World} (hw : I w) : ∃ o, s.run perform w = some o ∧ I o.1 := by
  induction hs generalizing w with
  | ends => exact ⟨_, rfl, hw⟩
  | throws => exact ⟨_, rfl, hw⟩
  | @call c k hc _ ih =>
    obtain ⟨a, ha, hI⟩ := hcall w c hc hw
    obtain ⟨o, ho, hIo⟩ := ih a.2 hI
    exact ⟨o, by rw [run, ha]; exact ho, hIo⟩

/-- While no callback takes an element away or changes one, the array that the loop reads is the one it began with,
whatever is added behind. -/
theorem for_each_eq_foldlM {read : World → Nat → Option α} {f : World → α → Option World} {I : World → Prop}
    {l : List α} (hread : ∀ {w i}, I w → i < l.length → read w i = l[i]?)
    (hf : ∀ {w x w'}, I w → f w x = some w' → I w') {w : World} (hw : I w) :
    for_each read f l.length 0 w = l.foldlM f w := by
  suffices ∀ left k w, I w → k + left = l.length → for_each read f left k w = (l.drop k).foldlM f w by
    simpa using this l.length 0 w hw (by omega)
  intro left
  induction left with
  | zero =>
    intro k w _ hk
    rw [List.drop_of_length_le (by omega)]
    rfl
  | succ left ih =>
    intro k w hw hk
    have hlt : k < l.length := by omega
    rw [List.drop_eq_getElem_cons hlt, List.foldlM_cons, for_each, hread hw hlt, List.getElem?_eq_getElem hlt]
    show (f w l[k]).bind _ = (f w l[k]).bind _
    rcases h : f w l[k] with _ | w'
    · rfl
    · exact ih (k + 1) w' (hf hw h) (by omega)

end Callback
