import Mathlib.Logic.Function.Basic

/-!
# Programs over an environment

`Prog A R α` is a sequential program that performs actions `a : A`, each answered by its environment
with a value of `R a`, and returns an `α`. The environment is everything the program does not compute
itself: the network, the clock, memory that other threads write. `loop` is an unbounded loop, whose
body either goes round again with a new loop state (`inl`) or leaves the loop (`inr`).

`Runs p tr q`: `p` can perform exactly the actions and answers of `tr` and then stand at `q`. No answer
is excluded, so what holds of every run holds whatever the environment does.
-/

inductive Prog (A : Type) (R : A → Type) : Type → Type 1
  | ret {α : Type} (x : α) : Prog A R α
  | act {α : Type} (a : A) (k : R a → Prog A R α) : Prog A R α
  | loop {α β σ : Type} (body : σ → Prog A R (σ ⊕ β)) (s : σ) (k : β → Prog A R α) : Prog A R α

namespace Prog

/-- An action with the environment's answer. -/
abbrev Ev {A : Type} (R : A → Type) := (a : A) × R a

variable {A : Type} {R : A → Type} {α β γ σ : Type}

protected def bind : Prog A R α → (α → Prog A R β) → Prog A R β
  | ret x, f => f x
  | act a k, f => act a fun r => (k r).bind f
  | loop body s k, f => loop body s fun b => (k b).bind f

instance : Monad (Prog A R) where
  pure := ret
  bind := Prog.bind

@[simp] theorem pure_eq (x : α) : (pure x : Prog A R α) = ret x := rfl
@[simp] theorem ret_bind (x : α) (f : α → Prog A R β) : (ret x >>= f) = f x := rfl
@[simp] theorem act_bind (a : A) (k : R a → Prog A R α) (f : α → Prog A R β) :
    (act a k >>= f) = act a fun r => k r >>= f := rfl
@[simp] theorem loop_bind (body : σ → Prog A R (σ ⊕ γ)) (s : σ) (k : γ → Prog A R α)
    (f : α → Prog A R β) : (loop body s k >>= f) = loop body s fun b => k b >>= f := rfl

theorem bind_ret (p : Prog A R α) : p >>= ret = p := by
  induction p with
  | ret => rfl
  | act a k ih => exact congrArg (act a) (funext ih)
  | loop body s k _ ih => exact congrArg (loop body s) (funext ih)

theorem bind_assoc (p : Prog A R α) (f : α → Prog A R β) (h : β → Prog A R γ) :
    p >>= f >>= h = p >>= fun x => f x >>= h := by
  induction p with
  | ret => rfl
  | act a k ih => exact congrArg (act a) (funext fun r => ih r f)
  | loop body s k _ ih => exact congrArg (loop body s) (funext fun b => ih b f)

instance : LawfulMonad (Prog A R) :=
  LawfulMonad.mk' _ bind_ret (fun _ _ => rfl) bind_assoc

/-- Performs one action and returns the answer. -/
def perform (a : A) : Prog A R (R a) := act a ret

/-- Runs `body` until it leaves with `inr`. -/
def iterate (body : σ → Prog A R (σ ⊕ β)) (s : σ) : Prog A R β := loop body s ret

/-- One round of a loop, followed by the remaining rounds. -/
def unroll (body : σ → Prog A R (σ ⊕ β)) (s : σ) (k : β → Prog A R α) : Prog A R α :=
  body s >>= Sum.elim (fun s' => loop body s' k) k

/-! ### Runs -/

inductive Runs : Prog A R α → List (Ev R) → Prog A R α → Prop
  | refl (p : Prog A R α) : Runs p [] p
  | act {a : A} {k : R a → Prog A R α} {r : R a} {tr : List (Ev R)} {q : Prog A R α}
      (h : Runs (k r) tr q) : Runs (act a k) (⟨a, r⟩ :: tr) q
  | loop {β σ : Type} {body : σ → Prog A R (σ ⊕ β)} {s : σ} {k : β → Prog A R α}
      {tr : List (Ev R)} {q : Prog A R α} (h : Runs (unroll body s k) tr q) : Runs (loop body s k) tr q

/-- The run in which the `i`-th step is answered by the `i`-th element of the list; entering a loop
round uses up a step as well. -/
def exec : List (∀ a, R a) → Prog A R α → List (Ev R) × Prog A R α
  | [], p => ([], p)
  | _ :: _, ret x => ([], ret x)
  | o :: os, act a k => (⟨a, o a⟩ :: (exec os (k (o a))).1, (exec os (k (o a))).2)
  | _ :: os, loop body s k => exec os (unroll body s k)

theorem runs_exec (os : List (∀ a, R a)) (p : Prog A R α) : Runs p (exec os p).1 (exec os p).2 := by
  induction os generalizing p with
  | nil => exact .refl p
  | cons o os ih =>
    cases p with
    | ret x => exact .refl _
    | act a k => exact .act (ih _)
    | loop body s k => exact .loop (ih _)

theorem Runs.append {p q q' : Prog A R α} {tr tr' : List (Ev R)} (h : Runs p tr q)
    (h' : Runs q tr' q') : Runs p (tr ++ tr') q' := by
  induction h with
  | refl => exact h'
  | act _ ih => exact .act (ih h')
  | loop _ ih => exact .loop (ih h')

theorem eq_of_runs_ret {x y : α} {tr : List (Ev R)} (h : Runs (ret x : Prog A R α) tr (ret y)) : x = y := by
  cases h
  rfl

theorem cons_of_runs_act {a : A} {k : R a → Prog A R α} {tr : List (Ev R)} {x : α} (h : Runs (act a k) tr (ret x)) :
    ∃ r tr', tr = ⟨a, r⟩ :: tr' ∧ Runs (k r) tr' (ret x) := by
  cases h with
  | act h => exact ⟨_, _, rfl, h⟩

/-- The action a program waits for. -/
def pending : Prog A R α → Option A
  | act a _ => some a
  | _ => none

theorem runs_exec_pending {os : List (∀ a, R a)} {p : Prog A R α} {a : A}
    (h : pending (exec os p).2 = some a)
    (r : R a) : ∃ q, Runs p ((exec os p).1 ++ [⟨a, r⟩]) q := by
  have hr := runs_exec os p
  cases hq : (exec os p).2 with
  | act a' k =>
    rw [hq] at h hr
    cases h
    exact ⟨k r, hr.append (.act (.refl _))⟩
  | ret x => rw [hq] at h; cases h
  | loop body s k => rw [hq] at h; cases h

end Prog
