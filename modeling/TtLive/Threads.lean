import Mathlib.Data.List.Induction
import TtLive.ProgLogic

/-!
# Interleaved programs over a shared world

Threads `t : T` run programs over a world `W` that they share. `sem t w a r w'` says that in the world `w`
the action `a` of thread `t` can be answered with `r` and then leaves the world `w'`; an action with no
answer blocks its thread. One step of the system is one action of one thread, so a run is an arbitrary
interleaving. `restrict P sem` keeps the steps that satisfy `P`: its runs are the runs of `sem` whose steps
all satisfy `P`. The runs of `confine I sem` are those all of whose worlds satisfy `I`.

`Run.invariant`: if every thread's program satisfies its monitor, and the monitors can follow every step in
a way that preserves a relation between the trace, the world and the monitor states, then the relation
holds in every reachable configuration, and what is left of every program still satisfies its monitor.
-/

namespace Threads
open Prog

abbrev Sem (T W : Type) {A : Type} (R : A → Type) := T → W → (a : A) → R a → W → Prop

structure Conf (T W A : Type) (R : A → Type) (ρ : Type) where
  world : W
  prog : T → Prog A R ρ

variable {A : Type} {R : A → Type} {T W G ρ : Type} [DecidableEq T] {sem : Sem T W R}

/-- One step, with the actions it performs: one, or none when a thread enters a loop round. -/
inductive Step (sem : Sem T W R) : Conf T W A R ρ → List (T × Ev R) → Conf T W A R ρ → Prop
  | act {w w' : W} {th : T → Prog A R ρ} (t : T) {a : A} {k : R a → Prog A R ρ} (r : R a)
      (hp : th t = .act a k) (hs : sem t w a r w') :
      Step sem ⟨w, th⟩ [(t, ⟨a, r⟩)] ⟨w', Function.update th t (k r)⟩
  | loop {w : W} {th : T → Prog A R ρ} (t : T) {β σ : Type} {body : σ → Prog A R (σ ⊕ β)} {s : σ}
      {k : β → Prog A R ρ} (hp : th t = .loop body s k) :
      Step sem ⟨w, th⟩ [] ⟨w, Function.update th t (unroll body s k)⟩

inductive Run (sem : Sem T W R) : Conf T W A R ρ → List (T × Ev R) → Conf T W A R ρ → Prop
  | refl (c : Conf T W A R ρ) : Run sem c [] c
  | step {c c' c'' : Conf T W A R ρ} {tr l : List (T × Ev R)} (h : Run sem c tr c') (hs : Step sem c' l c'') :
      Run sem c (tr ++ l) c''

/-- The steps of `sem` that satisfy `P`. -/
def restrict (P : T → W → A → Prop) (sem : Sem T W R) : Sem T W R :=
  fun t w a r w' => P t w a ∧ sem t w a r w'

/-- The steps of `sem` into a world that satisfies `I`. -/
def confine (I : W → Prop) (sem : Sem T W R) : Sem T W R :=
  fun t w a r w' => I w' ∧ sem t w a r w'

namespace Run

theorem trans {c c' c'' : Conf T W A R ρ} {tr tr' : List (T × Ev R)} (h : Run sem c tr c')
    (h' : Run sem c' tr' c'') : Run sem c (tr ++ tr') c'' := by
  induction h' with
  | refl => simpa using h
  | step _ hs ih => rw [← List.append_assoc]; exact .step ih hs

/-- A run passes through a configuration after each prefix of its trace. -/
theorem split {c c'' : Conf T W A R ρ} {pre post : List (T × Ev R)} (h : Run sem c (pre ++ post) c'') :
    ∃ c', Run sem c pre c' ∧ Run sem c' post c'' := by
  generalize htr : pre ++ post = tr at h
  induction h generalizing pre post with
  | refl =>
    obtain ⟨rfl, rfl⟩ := List.append_eq_nil_iff.1 htr
    exact ⟨_, .refl _, .refl _⟩
  | @step _ _ tr l h hs ih =>
    rcases List.append_eq_append_iff.1 htr with ⟨l', rfl, rfl⟩ | ⟨l', rfl, hl⟩
    · obtain ⟨c', h₁, h₂⟩ := ih rfl
      exact ⟨c', h₁, .step h₂ hs⟩
    · -- the cut lies inside the last step, which performs at most one action
      have hlen : l.length ≤ 1 := by cases hs <;> simp
      rcases l' with _ | ⟨e, l'⟩
      · exact ⟨_, by simpa using h, by simp only [List.nil_append] at hl; rw [← hl]; exact .step (.refl _) hs⟩
      · have : l' = [] ∧ post = [] := by
          rw [hl] at hlen; simp at hlen; exact hlen
        obtain ⟨rfl, rfl⟩ := this
        rw [List.append_nil] at hl
        exact ⟨_, by rw [← hl]; exact .step h hs, .refl _⟩

/-- The relation is only asked for while the trace satisfies `C`, which its prefixes then satisfy as well. -/
theorem invariant_under {M : T → Monitor A R G} {Q : T → ρ → G → Prop} {C : List (T × Ev R) → Prop}
    {I : List (T × Ev R) → W → (T → G) → Prop} {c c' : Conf T W A R ρ} {tr : List (T × Ev R)} {g₀ : T → G}
    (hC : ∀ tr l, C (tr ++ l) → C tr)
    (hstep : ∀ tr w g t a r w', C (tr ++ [(t, ⟨a, r⟩)]) → I tr w g → (M t).ok (g t) a → sem t w a r w' →
      ∃ g', (M t).next (g t) a r g' ∧ I (tr ++ [(t, ⟨a, r⟩)]) w' (Function.update g t g'))
    (h : Run sem c tr c') (hc : C tr) (h₀ : I [] c.world g₀) (hwp : ∀ t, wp (M t) (c.prog t) (Q t) (g₀ t)) :
    ∃ g, I tr c'.world g ∧ ∀ t, wp (M t) (c'.prog t) (Q t) (g t) := by
  induction h with
  | refl => exact ⟨g₀, h₀, hwp⟩
  | step _ hs ih =>
    obtain ⟨g, hI, hwp⟩ := ih (hC _ _ hc)
    cases hs with
    | @act w w' th t a k r hp hs =>
      have ht := hwp t
      simp only [hp] at ht
      obtain ⟨g', hn, hI'⟩ := hstep _ _ _ t a r w' hc hI ht.1 hs
      refine ⟨_, hI', fun u => ?_⟩
      by_cases hu : u = t
      · subst hu; simpa using ht.2 r g' hn
      · simpa [hu] using hwp u
    | @loop w th t β σ body s k hp =>
      refine ⟨g, by simpa using hI, fun u => ?_⟩
      by_cases hu : u = t
      · subst hu
        have ht := hwp u
        simp only [hp] at ht
        simpa using wp_unroll ht
      · simpa [hu] using hwp u

theorem invariant {M : T → Monitor A R G} {Q : T → ρ → G → Prop}
    {I : List (T × Ev R) → W → (T → G) → Prop} {c c' : Conf T W A R ρ} {tr : List (T × Ev R)} {g₀ : T → G}
    (hstep : ∀ tr w g t a r w', I tr w g → (M t).ok (g t) a → sem t w a r w' →
      ∃ g', (M t).next (g t) a r g' ∧ I (tr ++ [(t, ⟨a, r⟩)]) w' (Function.update g t g'))
    (h : Run sem c tr c') (h₀ : I [] c.world g₀) (hwp : ∀ t, wp (M t) (c.prog t) (Q t) (g₀ t)) :
    ∃ g, I tr c'.world g ∧ ∀ t, wp (M t) (c'.prog t) (Q t) (g t) :=
  h.invariant_under (C := fun _ => True) (fun _ _ _ => trivial) (fun tr w g t a r w' _ => hstep tr w g t a r w')
    trivial h₀ hwp

theorem mono {sem' : Sem T W R} {c c' : Conf T W A R ρ} {tr : List (T × Ev R)}
    (hsem : ∀ t w a r w', sem t w a r w' → sem' t w a r w') (h : Run sem c tr c') : Run sem' c tr c' := by
  induction h with
  | refl => exact .refl _
  | step _ hs ih =>
    cases hs with
    | act t r hp hs => exact .step ih (.act t r hp (hsem _ _ _ _ _ hs))
    | loop t hp => exact .step ih (.loop t hp)

theorem confine_run {I : W → Prop} {c c' : Conf T W A R ρ} {tr : List (T × Ev R)}
    (h : Run (confine I sem) c tr c') : Run sem c tr c' := h.mono fun _ _ _ _ _ hs => hs.2

/-- When `P` is exactly what a step needs to stay within `I`, the runs whose steps satisfy `P` are the runs
whose worlds satisfy `I`. `J` is what is known of all reachable worlds. -/
theorem restrict_iff_confine {P : T → W → A → Prop} {I J : W → Prop} {c c' : Conf T W A R ρ}
    {tr : List (T × Ev R)} (hJ : ∀ tr c', Run sem c tr c' → J c'.world) (h₀ : I c.world)
    (hstep : ∀ t w a r w', J w' → I w → sem t w a r w' → (P t w a ↔ I w')) :
    Run (restrict P sem) c tr c' ↔ Run (confine I sem) c tr c' := by
  have hI : ∀ {tr c'}, Run (confine I sem) c tr c' → I c'.world := by
    intro tr c' h
    induction h with
    | refl => exact h₀
    | step _ hs ih =>
      cases hs with
      | act t r hp hs => exact hs.1
      | loop t hp => exact ih
  constructor <;> intro h
  · induction h with
    | refl => exact .refl _
    | step _ hs ih =>
      cases hs with
      | act t r hp hs =>
        have hJ' := hJ _ _ (ih.confine_run.step (.act t r hp hs.2))
        exact .step ih (.act t r hp ⟨(hstep _ _ _ _ _ hJ' (hI ih) hs.2).1 hs.1, hs.2⟩)
      | loop t hp => exact .step ih (.loop t hp)
  · induction h with
    | refl => exact .refl _
    | step h hs ih =>
      cases hs with
      | act t r hp hs =>
        have hJ' := hJ _ _ (h.confine_run.step (.act t r hp hs.2))
        exact .step ih (.act t r hp ⟨(hstep _ _ _ _ _ hJ' (hI h) hs.2).2 hs.1, hs.2⟩)
      | loop t hp => exact .step ih (.loop t hp)

end Run

/-- What thread `t` did in a trace. -/
def thread (t : T) (tr : List (T × Ev R)) : List (Ev R) := (tr.filter (·.1 = t)).map (·.2)

theorem mem_thread {t : T} {tr : List (T × Ev R)} {e : Ev R} : e ∈ thread t tr ↔ (t, e) ∈ tr := by
  simp only [thread, List.mem_map, List.mem_filter, decide_eq_true_eq]
  constructor
  · rintro ⟨x, ⟨hx, rfl⟩, rfl⟩
    exact hx
  · exact fun h => ⟨_, ⟨h, rfl⟩, rfl⟩

@[simp] theorem thread_nil (t : T) : thread t ([] : List (T × Ev R)) = [] := rfl

theorem thread_snoc (t : T) (tr : List (T × Ev R)) (u : T) (e : Ev R) :
    thread t (tr ++ [(u, e)]) = if u = t then thread t tr ++ [e] else thread t tr := by
  by_cases h : u = t <;> simp [thread, h]

theorem thread_append (t : T) (tr tr' : List (T × Ev R)) : thread t (tr ++ tr') = thread t tr ++ thread t tr' := by
  simp [thread]

/-- The program of a thread runs through the thread's part of the trace. -/
theorem Run.thread_runs {c c' : Conf T W A R ρ} {tr : List (T × Ev R)} (h : Run sem c tr c') (t : T) :
    Runs (c.prog t) (thread t tr) (c'.prog t) := by
  induction h with
  | refl => exact .refl _
  | step _ hs ih =>
    cases hs with
    | @act w w' th u a k r hp hs =>
      rw [thread_snoc]
      dsimp only at ih ⊢
      by_cases hu : u = t
      · subst hu
        rw [hp] at ih
        rw [if_pos rfl, Function.update_self]
        exact ih.append (.act (.refl _))
      · rwa [if_neg hu, Function.update_of_ne (Ne.symm hu)]
    | @loop w th u β σ body s k hp =>
      rw [List.append_nil]
      dsimp only at ih ⊢
      by_cases hu : u = t
      · subst hu
        rw [hp] at ih
        rw [Function.update_self]
        simpa using ih.append (.loop (.refl _))
      · rwa [Function.update_of_ne (Ne.symm hu)]

/-! ### Executing a schedule -/

section
variable {O : Type} (step : T → W → O → (a : A) → Option (R a × W))

/-- One step of thread `t`, where `o` supplies what the outside world answers. -/
def fire (c : Conf T W A R ρ) (t : T) (o : O) : Option (List (T × Ev R) × Conf T W A R ρ) :=
  match c.prog t with
  | .ret _ => none
  | .act a k =>
    (step t c.world o a).map fun x => ([(t, ⟨a, x.1⟩)], ⟨x.2, Function.update c.prog t (k x.1)⟩)
  | .loop body s k => some ([], ⟨c.world, Function.update c.prog t (unroll body s k)⟩)

/-- Runs the threads in the order of the schedule. -/
def execute : List (T × O) → Conf T W A R ρ → Option (List (T × Ev R) × Conf T W A R ρ)
  | [], c => some ([], c)
  | (t, o) :: sched, c =>
    (fire step c t o).bind fun x => (execute sched x.2).map fun y => (x.1 ++ y.1, y.2)

/-- The steps that pass the check. -/
def checked (ok : T → W → A → Bool) (t : T) (w : W) (o : O) (a : A) : Option (R a × W) :=
  if ok t w a then step t w o a else none

variable {step}

theorem fire_checked {ok : T → W → A → Bool} {c : Conf T W A R ρ} {t : T} {o : O}
    {x : List (T × Ev R) × Conf T W A R ρ} (h : fire (checked step ok) c t o = some x) : fire step c t o = some x := by
  unfold fire at h ⊢
  split at h
  · cases h
  · next a k hp =>
    obtain ⟨y, hy, heq⟩ := Option.map_eq_some_iff.1 h
    rw [checked] at hy
    split at hy
    · exact Option.map_eq_some_iff.2 ⟨y, hy, heq⟩
    · cases hy
  · exact h

/-- What is executed under a check is executed without it. -/
theorem execute_checked {ok : T → W → A → Bool} {sched : List (T × O)} {c : Conf T W A R ρ}
    {x : List (T × Ev R) × Conf T W A R ρ} (h : execute (checked step ok) sched c = some x) :
    execute step sched c = some x := by
  induction sched generalizing c x with
  | nil => exact h
  | cons y sched ih =>
    obtain ⟨z, hz, hrest⟩ := Option.bind_eq_some_iff.1 h
    obtain ⟨z', hz', heq⟩ := Option.map_eq_some_iff.1 hrest
    exact Option.bind_eq_some_iff.2 ⟨z, fire_checked hz, Option.map_eq_some_iff.2 ⟨z', ih hz', heq⟩⟩

/-- A schedule of threads in `S`, executed within `I`, is a run. -/
theorem run_execute_of {S : T → Prop} {I : W → Prop} {sem : Sem T W R}
    (hsem : ∀ t w o a r w', S t → I w → step t w o a = some (r, w') → sem t w a r w' ∧ I w')
    {sched : List (T × O)} {c c' : Conf T W A R ρ} {tr : List (T × Ev R)} (hS : ∀ x ∈ sched, S x.1)
    (h₀ : I c.world) (h : execute step sched c = some (tr, c')) : Run sem c tr c' := by
  induction sched generalizing c tr with
  | nil => cases h; exact .refl _
  | cons x sched ih =>
    obtain ⟨⟨l, c₁⟩, h₁, h₂⟩ := Option.bind_eq_some_iff.1 h
    obtain ⟨⟨tr', c₂⟩, h₃, heq⟩ := Option.map_eq_some_iff.1 h₂
    cases heq
    have hstep : Step sem c l c₁ ∧ I c₁.world := by
      obtain ⟨w, th⟩ := c
      unfold fire at h₁
      split at h₁
      · cases h₁
      · next a k hp =>
        obtain ⟨⟨r, w'⟩, hs, heq⟩ := Option.map_eq_some_iff.1 h₁
        cases heq
        obtain ⟨hs, hI⟩ := hsem _ _ _ _ _ _ (hS _ (List.mem_cons_self ..)) h₀ hs
        exact ⟨.act _ r hp hs, hI⟩
      · next hp =>
        cases h₁
        exact ⟨.loop _ hp, h₀⟩
    exact (Run.step (.refl _) hstep.1).trans (ih (fun y hy => hS y (List.mem_cons_of_mem _ hy)) hstep.2 h₃)

theorem run_of_isSome (hsem : ∀ t w o a r w', step t w o a = some (r, w') → sem t w a r w')
    {sched : List (T × O)} {c : Conf T W A R ρ} (h : (execute step sched c).isSome) :
    Run sem c ((execute step sched c).get h).1 ((execute step sched c).get h).2 :=
  run_execute_of (S := fun _ => True) (I := fun _ => True)
    (fun t w o a r w' _ _ hs => ⟨hsem t w o a r w' hs, trivial⟩) (fun _ _ => trivial) trivial
    (Option.some_get h).symm

theorem execute_snoc (sched : List (T × O)) (t : T) (o : O) (c : Conf T W A R ρ) :
    execute step (sched ++ [(t, o)]) c =
      (execute step sched c).bind fun x => (fire step x.2 t o).map fun y => (x.1 ++ y.1, y.2) := by
  induction sched generalizing c with
  | nil =>
    show (fire step c t o).bind (fun x => some (x.1 ++ [], x.2)) = (fire step c t o).map fun y => ([] ++ y.1, y.2)
    cases fire step c t o with
    | none => rfl
    | some x => simp only [Option.bind_some, Option.map_some, List.append_nil, List.nil_append]
  | cons x sched ih =>
    show (fire step c x.1 x.2).bind (fun y => (execute step (sched ++ [(t, o)]) y.2).map _) =
      ((fire step c x.1 x.2).bind fun y => (execute step sched y.2).map _).bind _
    cases fire step c x.1 x.2 with
    | none => rfl
    | some y =>
      simp only [Option.bind_some, ih]
      cases execute step sched y.2 with
      | none => rfl
      | some z =>
        simp only [Option.bind_some, Option.map_some]
        cases fire step z.2 t o with
        | none => rfl
        | some u => simp only [Option.map_some, List.append_assoc]

/-- One schedule executed from two worlds. Where `I` relates the worlds and the monitors allow the step, the
second world must answer as the first; then the traces are the same. `C` is a condition on the first execution. -/
theorem execute_follows {M : T → Monitor A R G} {Q : T → ρ → G → Prop} {C : List (T × O) → List (T × Ev R) → Prop}
    {I : List (T × O) → List (T × Ev R) → W → W → (T → G) → Prop} {c c' : Conf T W A R ρ} {v : W} {g₀ : T → G}
    {sched : List (T × O)} {tr : List (T × Ev R)} (hC : ∀ s l tr tr', C (s ++ l) (tr ++ tr') → C s tr)
    (hloop : ∀ s x tr c' v g, execute step (s ++ [x]) c = some (tr, c') → I s tr c'.world v g →
      I (s ++ [x]) tr c'.world v g)
    (hstep : ∀ s t o tr w v g a r c', execute step (s ++ [(t, o)]) c = some (tr ++ [(t, ⟨a, r⟩)], c') →
      C (s ++ [(t, o)]) (tr ++ [(t, ⟨a, r⟩)]) → I s tr w v g → (M t).ok (g t) a →
      step t w o a = some (r, c'.world) → ∃ v' g', step t v o a = some (r, v') ∧ (M t).next (g t) a r g' ∧
        I (s ++ [(t, o)]) (tr ++ [(t, ⟨a, r⟩)]) c'.world v' (Function.update g t g'))
    (h : execute step sched c = some (tr, c')) (hc : C sched tr) (h₀ : I [] [] c.world v g₀)
    (hwp : ∀ t, wp (M t) (c.prog t) (Q t) (g₀ t)) :
    ∃ v' g, execute step sched ⟨v, c.prog⟩ = some (tr, ⟨v', c'.prog⟩) ∧ I sched tr c'.world v' g ∧
      ∀ t, wp (M t) (c'.prog t) (Q t) (g t) := by
  induction sched using List.reverseRecOn generalizing tr c' with
  | nil =>
    cases h
    exact ⟨v, g₀, rfl, h₀, hwp⟩
  | append_singleton sched x ih =>
    obtain ⟨t, o⟩ := x
    have hsnoc := h
    rw [execute_snoc] at hsnoc
    obtain ⟨⟨tr₁, w, th⟩, h₁, h₂⟩ := Option.bind_eq_some_iff.1 hsnoc
    obtain ⟨⟨l, c₂⟩, hfire, heq⟩ := Option.map_eq_some_iff.1 h₂
    cases heq
    obtain ⟨v₁, g, hv, hI, hwp₁⟩ := ih h₁ (hC _ _ _ _ hc)
    rw [execute_snoc, hv, Option.bind_some]
    unfold fire at hfire ⊢
    have ht := hwp₁ t
    cases hp : th t with
    | ret x => simp only [hp] at hfire; cases hfire
    | act a k =>
      simp only [hp] at hfire ht ⊢
      obtain ⟨⟨r, w'⟩, hs, heq⟩ := Option.map_eq_some_iff.1 hfire
      cases heq
      obtain ⟨v', g', hv', hn, hI'⟩ := hstep sched t o tr₁ w v₁ g a r _ h hc hI ht.1 hs
      refine ⟨v', _, by rw [hv']; rfl, hI', fun u => ?_⟩
      dsimp only
      by_cases hu : u = t
      · subst hu
        rw [Function.update_self, Function.update_self]
        exact ht.2 r g' hn
      · rw [Function.update_of_ne hu, Function.update_of_ne hu]
        exact hwp₁ u
    | loop body s k =>
      simp only [hp] at hfire ht ⊢
      cases hfire
      rw [List.append_nil] at h
      refine ⟨v₁, g, rfl, ?_, fun u => ?_⟩
      · rw [List.append_nil]
        exact hloop sched (t, o) tr₁ ⟨w, _⟩ v₁ g h hI
      · dsimp only
        by_cases hu : u = t
        · subst hu
          rw [Function.update_self]
          exact wp_unroll ht
        · rw [Function.update_of_ne hu]
          exact hwp₁ u

end

end Threads
