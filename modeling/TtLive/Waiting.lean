import Mathlib.Logic.Relation
import TtLive.Threads

/-!
# Threads that wait for one another

`CanStep sem c t`: in the configuration `c` the thread `t` can take its next step. Where every busy thread that cannot
waits for another busy one, and the waiting has no cycles, each busy thread waits in the end for one that can
(`exists_canStep`).
-/

namespace Threads
open Prog

variable {A : Type} {R : A → Type} {T W ρ : Type} {sem : Sem T W R} {c : Conf T W A R ρ} {t : T}

inductive CanStep (sem : Sem T W R) (c : Conf T W A R ρ) (t : T) : Prop
  | act {a : A} {k : R a → Prog A R ρ} {r : R a} {w' : W} (hp : c.prog t = .act a k) (hs : sem t c.world a r w')
  | loop {β σ : Type} {body : σ → Prog A R (σ ⊕ β)} {s : σ} {k : β → Prog A R ρ} (hp : c.prog t = .loop body s k)

theorem CanStep.step [DecidableEq T] (h : CanStep sem c t) : ∃ l c', Step sem c l c' := by
  obtain ⟨w, th⟩ := c
  cases h with
  | act hp hs => exact ⟨_, _, .act t _ hp hs⟩
  | loop hp => exact ⟨_, _, .loop t hp⟩

/-- A thread has returned, can step, or has an action that is not answered. -/
theorem canStep_cases (sem : Sem T W R) (c : Conf T W A R ρ) (t : T) :
    (∃ x, c.prog t = .ret x) ∨ CanStep sem c t ∨
      ∃ a k, c.prog t = .act a k ∧ ∀ r w', ¬ sem t c.world a r w' := by
  cases hp : c.prog t with
  | ret x => exact .inl ⟨x, rfl⟩
  | loop body s k => exact .inr (.inl (.loop hp))
  | act a k =>
    by_cases h : ∃ r w', sem t c.world a r w'
    · obtain ⟨r, w', hs⟩ := h
      exact .inr (.inl (.act hp hs))
    · exact .inr (.inr ⟨a, k, rfl, fun r w' hs => h ⟨r, w', hs⟩⟩)

/-- `rank` goes down along the waiting. -/
theorem exists_canStep {waits : T → T → Prop} {rank : T → Nat} (hrank : ∀ t u, waits t u → rank u < rank t)
    {Busy : T → Prop} (h : ∀ t, Busy t → CanStep sem c t ∨ ∃ u, waits t u ∧ Busy u) (ht : Busy t) :
    ∃ u, Relation.ReflTransGen waits t u ∧ CanStep sem c u := by
  induction t using (measure rank).wf.induction with
  | _ t ih =>
    rcases h t ht with hcan | ⟨u, htu, hu⟩
    · exact ⟨t, .refl, hcan⟩
    · obtain ⟨v, huv, hcan⟩ := ih u (hrank t u htu) hu
      exact ⟨v, .head htu huv, hcan⟩

end Threads
