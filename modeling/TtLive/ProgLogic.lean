import TtLive.Prog

/-!
# Monitors and weakest preconditions

A `Monitor` watches the actions of a program: in a monitor state `g` it says which actions are allowed
(`ok`) and how an answered action moves the state (`next`, a relation, so that it can also exclude
answers the environment never gives and let the state change in several ways). `wp M p Q g`: started in
`g`, the program `p` performs allowed actions only and returns a value that satisfies `Q` with the
monitor state it ends in. A loop is judged by an invariant between its state and the monitor's.

`wp_runs`, `wp_accepts` read the judgement on runs. `Keeps M I p` is the judgement for an invariant: `p`
takes states that satisfy `I` to such states.
-/

/-- What is watched of a program: allowed actions, and the effect of answered ones. -/
structure Monitor (A : Type) (R : A → Type) (G : Type) where
  ok : G → A → Prop
  next : G → (a : A) → R a → G → Prop

namespace Prog

variable {A : Type} {R : A → Type} {G : Type} {α β γ σ : Type} {M : Monitor A R G}

def wp (M : Monitor A R G) : {α : Type} → Prog A R α → (α → G → Prop) → G → Prop
  | _, ret x, Q, g => Q x g
  | _, act a k, Q, g => M.ok g a ∧ ∀ r g', M.next g a r g' → wp M (k r) Q g'
  | _, loop body s k, Q, g => ∃ I : _ → G → Prop, I s g ∧ ∀ s g, I s g →
      wp M (body s) (fun x g' => match x with
        | .inl s' => I s' g'
        | .inr b => wp M (k b) Q g') g

theorem wp_mono {p : Prog A R α} {Q Q' : α → G → Prop} {g : G} (h : wp M p Q g)
    (hQ : ∀ x g', Q x g' → Q' x g') : wp M p Q' g := by
  induction p generalizing g with
  | ret x => exact hQ _ _ h
  | act a k ih => exact ⟨h.1, fun r g' hn => ih r (h.2 r g' hn) hQ⟩
  | loop body s k ihb ihk =>
    obtain ⟨I, hI, hstep⟩ := h
    refine ⟨I, hI, fun s g hs => ihb s (hstep s g hs) fun x g' hx => ?_⟩
    cases x with
    | inl s' => exact hx
    | inr b => exact ihk b hx hQ

/-- A monitor that allows every action. -/
theorem wp_of_allowed (hok : ∀ g a, M.ok g a) (p : Prog A R α) {Q : α → G → Prop} (hQ : ∀ x g, Q x g) (g : G) :
    wp M p Q g := by
  induction p generalizing g with
  | ret x => exact hQ x g
  | act a k ih => exact ⟨hok g a, fun r g' _ => ih r hQ g'⟩
  | loop body s k ihb ihk =>
    refine ⟨fun _ _ => True, trivial, fun s g _ => ihb s (fun x g' => ?_) g⟩
    cases x with
    | inl s' => trivial
    | inr b => exact ihk b hQ g'

@[simp] theorem wp_ret {x : α} {Q : α → G → Prop} {g : G} : wp M (ret x) Q g ↔ Q x g := Iff.rfl

@[simp] theorem wp_pure {x : α} {Q : α → G → Prop} {g : G} : wp M (pure x) Q g ↔ Q x g := Iff.rfl

theorem wp_act {a : A} {k : R a → Prog A R α} {Q : α → G → Prop} {g : G} :
    wp M (act a k) Q g ↔ M.ok g a ∧ ∀ r g', M.next g a r g' → wp M (k r) Q g' := Iff.rfl

@[simp] theorem wp_perform {a : A} {Q : R a → G → Prop} {g : G} :
    wp M (perform a) Q g ↔ M.ok g a ∧ ∀ r g', M.next g a r g' → Q r g' := Iff.rfl

@[simp] theorem wp_bind {p : Prog A R α} {f : α → Prog A R β} {Q : β → G → Prop} {g : G} :
    wp M (p >>= f) Q g ↔ wp M p (fun x g' => wp M (f x) Q g') g := by
  induction p generalizing g with
  | ret x => exact Iff.rfl
  | act a k ih => simp only [act_bind, wp_act, ih]
  | loop body s k ihb ihk =>
    constructor <;> rintro ⟨I, hI, hstep⟩
    · refine ⟨I, hI, fun s g hs => wp_mono (hstep s g hs) fun x g' hx => ?_⟩
      cases x with
      | inl s' => exact hx
      | inr b => exact (ihk b).1 hx
    · refine ⟨I, hI, fun s g hs => wp_mono (hstep s g hs) fun x g' hx => ?_⟩
      cases x with
      | inl s' => exact hx
      | inr b => exact (ihk b).2 hx

theorem wp_perform_bind {a : A} {f : R a → Prog A R β} {Q : β → G → Prop} {g : G} :
    wp M (perform a >>= f) Q g ↔ M.ok g a ∧ ∀ r g', M.next g a r g' → wp M (f r) Q g' := Iff.rfl

theorem wp_iterate {body : σ → Prog A R (σ ⊕ β)} {s : σ} {Q : β → G → Prop} {g : G}
    (I : σ → G → Prop) (h₀ : I s g)
    (h : ∀ s g, I s g → wp M (body s) (fun x g' => Sum.elim (fun s' => I s' g') (fun b => Q b g') x) g) :
    wp M (iterate body s) Q g := by
  refine ⟨I, h₀, fun s g hs => wp_mono (h s g hs) fun x g' hx => ?_⟩
  cases x <;> exact hx

theorem wp_unroll {body : σ → Prog A R (σ ⊕ β)} {s : σ} {k : β → Prog A R α} {Q : α → G → Prop} {g : G}
    (h : wp M (loop body s k) Q g) : wp M (unroll body s k) Q g := by
  obtain ⟨I, hI, hstep⟩ := h
  refine wp_bind.2 (wp_mono (hstep s g hI) fun x g' hx => ?_)
  cases x with
  | inl s' => exact ⟨I, hx, hstep⟩
  | inr b => exact hx

/-! ### Lists -/

theorem wp_forM {δ : Type} {f : δ → Prog A R Unit} {l : List δ} {g : G} (I : G → Prop)
    (h : ∀ x ∈ l, ∀ g, I g → wp M (f x) (fun _ g' => I g') g) (h₀ : I g) :
    wp M (forM l f) (fun _ g' => I g') g := by
  induction l generalizing g with
  | nil => exact h₀
  | cons x l ih =>
    rw [List.forM_cons, wp_bind]
    exact wp_mono (h x (by simp) g h₀) fun _ g' hg' => ih (fun y hy => h y (by simp [hy])) hg'

/-- `I l b` holds before the elements of `l` are folded into `b`. -/
theorem wp_foldlM {δ : Type} {f : β → δ → Prog A R β} {l : List δ} {b : β} {g : G}
    (I : List δ → β → G → Prop)
    (h : ∀ x l b g, I (x :: l) b g → wp M (f b x) (fun b' g' => I l b' g') g) (h₀ : I l b g) :
    wp M (l.foldlM f b) (fun b' g' => I [] b' g') g := by
  induction l generalizing b g with
  | nil => exact h₀
  | cons x l ih =>
    rw [List.foldlM_cons, wp_bind]
    exact wp_mono (h x l b g h₀) fun _ _ hg' => ih hg'

/-! ### Exceptions -/

/-- Postcondition for a program that may throw. -/
def orThrow {ε : Type} (Q : α → G → Prop) (E : ε → G → Prop) : Except ε α → G → Prop
  | .ok x, g => Q x g
  | .error e, g => E e g

@[simp] theorem orThrow_ok {ε : Type} {Q : α → G → Prop} {E : ε → G → Prop} {x : α} {g : G} :
    orThrow Q E (.ok x) g ↔ Q x g := Iff.rfl

@[simp] theorem orThrow_error {ε : Type} {Q : α → G → Prop} {E : ε → G → Prop} {e : ε} {g : G} :
    orThrow Q E (.error e) g ↔ E e g := Iff.rfl

section
variable {ε : Type} {Q : α → G → Prop} {E : ε → G → Prop} {g : G}

@[simp] theorem wp_run_pure {x : α} {Q : Except ε α → G → Prop} :
    wp M (pure x : ExceptT ε (Prog A R) α).run Q g ↔ Q (.ok x) g := Iff.rfl

@[simp] theorem wp_run_throw {e : ε} {Q : Except ε α → G → Prop} :
    wp M (throw e : ExceptT ε (Prog A R) α).run Q g ↔ Q (.error e) g := Iff.rfl

@[simp] theorem wp_run_lift {p : Prog A R α} {Q : Except ε α → G → Prop} :
    wp M (ExceptT.lift p : ExceptT ε (Prog A R) α).run Q g ↔ wp M p (fun x g' => Q (.ok x) g') g := by
  rw [ExceptT.run_lift, ← bind_pure_comp, wp_bind]; rfl

@[simp] theorem wp_run_mk {p : Prog A R (Except ε α)} {Q : Except ε α → G → Prop} :
    wp M (ExceptT.mk p).run Q g ↔ wp M p Q g := Iff.rfl

@[simp] theorem wp_run_bind {p : ExceptT ε (Prog A R) α} {f : α → ExceptT ε (Prog A R) β}
    {Q : Except ε β → G → Prop} :
    wp M (p >>= f).run Q g ↔
      wp M p.run (orThrow (fun x g' => wp M (f x).run Q g') (fun e g' => Q (.error e) g')) g := by
  rw [ExceptT.run_bind, wp_bind]
  constructor <;> refine fun h => wp_mono h fun x g' hx => ?_ <;> cases x <;> exact hx

@[simp] theorem wp_run_map {p : ExceptT ε (Prog A R) α} {f : α → β} {Q : Except ε β → G → Prop} :
    wp M (f <$> p).run Q g ↔
      wp M p.run (orThrow (fun x g' => Q (.ok (f x)) g') (fun e g' => Q (.error e) g')) g := by
  rw [← bind_pure_comp, wp_run_bind]; rfl

end

/-! ### Invariants -/

/-- The program preserves `I`, with allowed actions only. -/
def Keeps (M : Monitor A R G) (I : G → Prop) (p : Prog A R α) : Prop :=
  ∀ g, I g → wp M p (fun _ g' => I g') g

section
variable {I : G → Prop}

theorem keeps_ret (x : α) : Keeps M I (ret x) := fun _ h => h

theorem keeps_pure (x : α) : Keeps M I (pure x) := fun _ h => h

theorem Keeps.bind {p : Prog A R α} {f : α → Prog A R β} (hp : Keeps M I p) (hf : ∀ x, Keeps M I (f x)) :
    Keeps M I (p >>= f) :=
  fun g hg => wp_bind.2 (wp_mono (hp g hg) fun x g' hg' => hf x g' hg')

/-- A program that leaves the monitor where it is can be stepped over. -/
theorem wp_bind_keeps {p : Prog A R α} {f : α → Prog A R β} {Q : β → G → Prop} {g : G}
    (hp : Keeps M (· = g) p) (hf : ∀ x, wp M (f x) Q g) : wp M (p >>= f) Q g :=
  wp_bind.2 (wp_mono (hp g rfl) fun x _ h => h ▸ hf x)

theorem Keeps.ite {c : Prop} [Decidable c] {p q : Prog A R α} (hp : Keeps M I p) (hq : Keeps M I q) :
    Keeps M I (if c then p else q) := by
  split
  · exact hp
  · exact hq

theorem Keeps.iterate {body : σ → Prog A R (σ ⊕ β)} {s : σ} (h : ∀ s, Keeps M I (body s)) :
    Keeps M I (iterate body s) :=
  fun _ hg => wp_iterate (fun _ g' => I g') hg fun s g hg => wp_mono (h s g hg) fun x _ hx => by
    cases x <;> exact hx

theorem Keeps.forM {δ : Type} {f : δ → Prog A R Unit} {l : List δ} (h : ∀ x ∈ l, Keeps M I (f x)) :
    Keeps M I (forM l f) :=
  fun _ hg => wp_forM I h hg

theorem Keeps.foldlM {δ : Type} {f : β → δ → Prog A R β} {l : List δ} {b : β}
    (h : ∀ b x, Keeps M I (f b x)) : Keeps M I (l.foldlM f b) :=
  fun _ hg => wp_foldlM (fun _ _ g' => I g') (fun x _ b g hg => h b x g hg) hg

theorem Keeps.run_lift {ε : Type} {p : Prog A R α} (h : Keeps M I p) :
    Keeps M I (ExceptT.lift p : ExceptT ε (Prog A R) α).run := fun g hg => wp_run_lift.2 (h g hg)

theorem Keeps.run_bind {ε : Type} {p : ExceptT ε (Prog A R) α} {f : α → ExceptT ε (Prog A R) β}
    (hp : Keeps M I p.run) (hf : ∀ x, Keeps M I (f x).run) : Keeps M I (p >>= f).run :=
  fun g hg => wp_run_bind.2 (wp_mono (hp g hg) fun x g' hg' => by
    cases x with
    | ok x => exact hf x g' hg'
    | error e => exact hg')

/-- A program that may throw and preserves `I`, followed by the rest of the block. -/
theorem Keeps.run_then {ε : Type} {p : ExceptT ε (Prog A R) α} {f : α → ExceptT ε (Prog A R) β}
    {Q : Except ε β → G → Prop} {g : G} (hp : Keeps M I p.run) (hg : I g)
    (hf : ∀ x g', I g' → wp M (f x).run Q g') (he : ∀ e g', I g' → Q (.error e) g') : wp M (p >>= f).run Q g :=
  wp_run_bind.2 (wp_mono (hp g hg) fun x g' hg' => by
    cases x with
    | ok x => exact hf x g' hg'
    | error e => exact he e g' hg')

theorem Keeps.run_map {ε : Type} {p : ExceptT ε (Prog A R) α} {f : α → β} (hp : Keeps M I p.run) :
    Keeps M I (f <$> p).run :=
  fun g hg => wp_run_map.2 (wp_mono (hp g hg) fun x g' hg' => by cases x <;> exact hg')

theorem Keeps.run_ite {ε : Type} {c : Prop} [Decidable c] {p q : ExceptT ε (Prog A R) α}
    (hp : Keeps M I p.run) (hq : Keeps M I q.run) : Keeps M I (if c then p else q).run := by
  split
  · exact hp
  · exact hq

end

/-! ### Actions -/

/-- Every action of the program satisfies `P`, whatever it is answered. -/
def Does (P : A → Prop) (p : Prog A R α) : Prop := Keeps (⟨fun _ => P, fun _ _ _ _ => True⟩ : Monitor A R Unit)
  (fun _ => True) p

theorem does_perform {P : A → Prop} {a : A} (h : P a) : Does P (perform a : Prog A R (R a)) :=
  fun _ _ => ⟨h, fun _ _ _ => trivial⟩

/-- An invariant that the actions of a program keep is kept by the program. -/
theorem Does.keeps {P : A → Prop} {I : G → Prop} {p : Prog A R α} (h : Does P p)
    (hP : ∀ a, P a → Keeps M I (perform a)) : Keeps M I p := by
  have key : ∀ {α : Type} {p : Prog A R α} {Q : α → Unit → Prop}, wp ⟨fun _ => P, fun _ _ _ _ => True⟩ p Q () →
      ∀ g, I g → wp M p (fun x g' => Q x () ∧ I g') g := by
    intro α p
    induction p with
    | ret x => exact fun h g hg => ⟨h, hg⟩
    | act a k ih =>
      exact fun h g hg => ⟨(hP a h.1 g hg).1, fun r g' hn =>
        ih r (h.2 r () trivial) g' ((hP a h.1 g hg).2 r g' hn)⟩
    | loop body s k ihb ihk =>
      rintro Q ⟨J, hJ, hstep⟩ g hg
      refine ⟨fun s g => J s () ∧ I g, ⟨hJ, hg⟩, fun s g hs => wp_mono (ihb s (hstep s () hs.1) g hs.2) ?_⟩
      rintro (s' | b) g' ⟨hx, hg'⟩
      · exact ⟨hx, hg'⟩
      · exact ihk b hx g' hg'
  exact fun g hg => wp_mono (key (h () trivial) g hg) fun _ _ hx => hx.2

end Prog

/-! ### Runs under a monitor -/

namespace Monitor
open Prog

variable {A : Type} {R : A → Type} {G : Type} {α : Type} {M : Monitor A R G}

/-- The monitor can go from `g` to `g'` along a trace. -/
def Path (M : Monitor A R G) : G → List (Ev R) → G → Prop
  | g, [], g' => g = g'
  | g, ⟨a, r⟩ :: tr, g' => ∃ g₁, M.next g a r g₁ ∧ M.Path g₁ tr g'

/-- Every action of the trace is allowed when it is performed. -/
def Accepts (M : Monitor A R G) : G → List (Ev R) → Prop
  | _, [] => True
  | g, ⟨a, r⟩ :: tr => M.ok g a ∧ ∀ g', M.next g a r g' → M.Accepts g' tr

theorem wp_runs {p q : Prog A R α} {tr : List (Ev R)} {Q : α → G → Prop} {g g' : G}
    (h : wp M p Q g) (hr : Runs p tr q) (hp : M.Path g tr g') : wp M q Q g' := by
  induction hr generalizing g with
  | refl => cases hp; exact h
  | act _ ih =>
    obtain ⟨g₁, hn, hp⟩ := hp
    exact ih (h.2 _ _ hn) hp
  | loop _ ih => exact ih (wp_unroll h) hp

/-- The monitor that follows every run: `upd` says how an answered action moves its state. -/
def det (ok : G → A → Prop) (upd : G → (a : A) → R a → G) : Monitor A R G where
  ok := ok
  next g a r g' := g' = upd g a r

@[simp] theorem det_ok {ok : G → A → Prop} {upd : G → (a : A) → R a → G} {g : G} {a : A} :
    (det ok upd).ok g a ↔ ok g a := Iff.rfl

@[simp] theorem det_next {ok : G → A → Prop} {upd : G → (a : A) → R a → G} {g g' : G} {a : A} {r : R a} :
    (det ok upd).next g a r g' ↔ g' = upd g a r := Iff.rfl

/-- The state in which a monitor with update `upd` ends. -/
def after (upd : G → (a : A) → R a → G) (g : G) (tr : List (Ev R)) : G :=
  tr.foldl (fun g e => upd g e.1 e.2) g

theorem wp_accepts {p q : Prog A R α} {tr : List (Ev R)} {Q : α → G → Prop} {g : G}
    (h : wp M p Q g) (hr : Runs p tr q) : M.Accepts g tr := by
  induction hr generalizing g with
  | refl => trivial
  | act _ ih => exact ⟨h.1, fun g' hn => ih (h.2 _ _ hn)⟩
  | loop _ ih => exact ih (wp_unroll h)

section
variable {ok : G → A → Prop} {upd : G → (a : A) → R a → G}

theorem path_after (g : G) (tr : List (Ev R)) : (det ok upd).Path g tr (after upd g tr) := by
  induction tr generalizing g with
  | nil => rfl
  | cons e tr ih => exact ⟨_, rfl, ih _⟩

/-- In every run of `p`, the actions are allowed in the state reached by the actions before them. -/
theorem ok_of_runs {p q : Prog A R α} {pre post : List (Ev R)} {Q : α → G → Prop} {g : G} {a : A} {r : R a}
    (h : wp (det ok upd) p Q g) (hr : Runs p (pre ++ ⟨a, r⟩ :: post) q) : ok (after upd g pre) a := by
  have hacc := wp_accepts h hr
  clear h hr
  induction pre generalizing g with
  | nil => exact hacc.1
  | cons e pre ih => exact ih (hacc.2 _ rfl)

/-- A run that returns ends in a state that satisfies the postcondition. -/
theorem post_of_runs {p : Prog A R α} {tr : List (Ev R)} {Q : α → G → Prop} {g : G} {x : α}
    (h : wp (det ok upd) p Q g) (hr : Runs p tr (ret x)) : Q x (after upd g tr) :=
  wp_runs h hr (path_after g tr)

end

/-- The monitor that follows the runs whose steps satisfy `asm`. -/
def assume (asm : G → (a : A) → R a → Prop) (M : Monitor A R G) : Monitor A R G where
  ok := M.ok
  next g a r g' := asm g a r ∧ M.next g a r g'

section
variable {ok : G → A → Prop} {upd : G → (a : A) → R a → G} {asm : G → (a : A) → R a → Prop}

/-- Every step of the trace satisfies `asm` in the state reached by the steps before it. -/
def Assumed (asm : G → (a : A) → R a → Prop) (upd : G → (a : A) → R a → G) (g : G) (tr : List (Ev R)) :
    Prop :=
  ∀ pre a r post, tr = pre ++ ⟨a, r⟩ :: post → asm (after upd g pre) a r

theorem Assumed.of_append {g : G} {pre post : List (Ev R)} (h : Assumed asm upd g (pre ++ post)) :
    Assumed asm upd g pre := fun pre' a r post' heq =>
  h pre' a r (post' ++ post) (by rw [heq]; simp)

theorem assumed_nil (g : G) : Assumed asm upd g ([] : List (Ev R)) := by
  intro pre a r post h
  simp at h

theorem assumed_cons {g : G} {e : Ev R} {tr : List (Ev R)} :
    Assumed asm upd g (e :: tr) ↔ asm g e.1 e.2 ∧ Assumed asm upd (upd g e.1 e.2) tr := by
  constructor
  · intro h
    exact ⟨h [] e.1 e.2 tr rfl, fun pre a r post heq => h (e :: pre) a r post (by rw [heq]; rfl)⟩
  · rintro ⟨h₀, h⟩ pre a r post heq
    cases pre with
    | nil => obtain ⟨rfl, -⟩ := List.cons.inj heq; exact h₀
    | cons e' pre =>
      obtain ⟨rfl, htr⟩ := List.cons.inj heq
      exact h pre a r post htr

instance Assumed.decide [∀ g a r, Decidable (asm g a r)] :
    (g : G) → (tr : List (Ev R)) → Decidable (Assumed asm upd g tr)
  | g, [] => isTrue (assumed_nil g)
  | g, e :: tr =>
    have := Assumed.decide (upd g e.1 e.2) tr
    decidable_of_iff _ assumed_cons.symm

theorem path_assumed {g : G} {tr : List (Ev R)} (h : Assumed asm upd g tr) :
    (assume asm (det ok upd)).Path g tr (after upd g tr) := by
  induction tr generalizing g with
  | nil => rfl
  | cons e tr ih =>
    obtain ⟨h₀, h⟩ := assumed_cons.1 h
    exact ⟨_, ⟨h₀, rfl⟩, ih h⟩

theorem path_accepts {g g' : G} {pre post : List (Ev R)} {a : A} {r : R a} (hp : M.Path g pre g')
    (hacc : M.Accepts g (pre ++ ⟨a, r⟩ :: post)) : M.ok g' a := by
  induction pre generalizing g with
  | nil => cases hp; exact hacc.1
  | cons e pre ih =>
    obtain ⟨g₁, hn, hp⟩ := hp
    exact ih hp (hacc.2 _ hn)

/-- In every run of `p` whose steps satisfy `asm`, the actions are allowed. -/
theorem ok_of_assumed {p q : Prog A R α} {pre post : List (Ev R)} {Q : α → G → Prop} {g : G} {a : A}
    {r : R a}
    (h : wp (assume asm (det ok upd)) p Q g) (hr : Runs p (pre ++ ⟨a, r⟩ :: post) q)
    (hasm : Assumed asm upd g pre) : ok (after upd g pre) a :=
  path_accepts (M := assume asm (det ok upd)) (path_assumed hasm) (wp_accepts h hr)

theorem wp_of_assumed {p q : Prog A R α} {tr : List (Ev R)} {Q : α → G → Prop} {g : G}
    (h : wp (assume asm (det ok upd)) p Q g) (hr : Runs p tr q) (hasm : Assumed asm upd g tr) :
    wp (assume asm (det ok upd)) q Q (after upd g tr) :=
  wp_runs h hr (path_assumed hasm)

end

end Monitor

/-- What is left of a program does what the program does. -/
theorem Prog.Does.runs {A : Type} {R : A → Type} {α : Type} {P : A → Prop} {p q : Prog A R α}
    {tr : List (Prog.Ev R)} (h : Prog.Does P p) (hr : Prog.Runs p tr q) : Prog.Does P q := by
  refine fun g _ => Monitor.wp_runs (h g trivial) hr ?_
  clear h hr
  induction tr with
  | nil => rfl
  | cons e tr ih => exact ⟨(), trivial, ih⟩
