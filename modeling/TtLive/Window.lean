import Mathlib.Data.List.DropRight
import Mathlib.Data.Finset.Card
import Mathlib.Data.Finset.Dedup

/-!
# Duplicate suppression by a window of recent values

`record n hist x` appends `x` to the history unless `x` is among its last `n` values. A history built
this way is `Spaced n`: every value is absent from the `n` values before it. Hence its last `n` values are
distinct, equal values are at least `n` other values apart, and a history over at most `n` values has no
repetition at all.
-/

namespace Window

variable {α : Type}

def record [DecidableEq α] (n : Nat) (hist : List α) (x : α) : List α :=
  if x ∈ hist.rtake n then hist else hist ++ [x]

/-- Every value is absent from the `n` values before it. -/
def Spaced (n : Nat) (hist : List α) : Prop :=
  ∀ pre x post, hist = pre ++ x :: post → x ∉ pre.rtake n

variable {n : Nat} {hist : List α}

theorem spaced_nil : Spaced n ([] : List α) := by
  intro pre x post h
  simp at h

theorem Spaced.snoc {x : α} (h : Spaced n hist) (hx : x ∉ hist.rtake n) : Spaced n (hist ++ [x]) := by
  intro pre y post heq
  rcases List.append_eq_append_iff.1 heq with ⟨l, rfl, hl⟩ | ⟨l, rfl, hl⟩
  · rcases l with _ | ⟨z, l⟩
    · simp only [List.nil_append, List.cons.injEq] at hl
      rw [List.append_nil, ← hl.1]; exact hx
    · simp at hl
  · rcases l with _ | ⟨z, l⟩
    · simp only [List.nil_append, List.cons.injEq] at hl
      rw [List.append_nil] at hx
      rw [hl.1]; exact hx
    · obtain ⟨rfl, rfl⟩ := List.cons.inj hl
      exact h pre y l rfl

theorem Spaced.of_append {post : List α} (h : Spaced n (hist ++ post)) : Spaced n hist := by
  intro pre x post' heq
  exact h pre x (post' ++ post) (by rw [heq]; simp)

theorem rtake_append_of_le (l₁ l₂ : List α) (h : l₂.length ≤ n) :
    (l₁ ++ l₂).rtake n = l₁.rtake (n - l₂.length) ++ l₂ := by
  rw [List.rtake_eq_reverse_take_reverse, List.rtake_eq_reverse_take_reverse, List.reverse_append,
    List.take_append, List.take_of_length_le (l := l₂.reverse) (by simpa using h)]
  simp

theorem mem_rtake_of_le {m : Nat} {l : List α} {x : α} (hmn : m ≤ n) (h : x ∈ l.rtake m) :
    x ∈ l.rtake n := by
  rw [List.rtake_eq_reverse_take_reverse, List.mem_reverse] at h ⊢
  exact List.take_subset_take_left _ hmn h

/-- The window has no repeated value. -/
theorem Spaced.nodup_rtake (h : Spaced n hist) : (hist.rtake n).Nodup := by
  induction hist using List.reverseRecOn generalizing n with
  | nil => simp
  | append_singleton l x ih =>
    rcases n with _ | n
    · simp
    · have hl : Spaced n l := fun pre y post heq hy =>
        h pre y (post ++ [x]) (by rw [heq]; simp) (mem_rtake_of_le (Nat.le_succ n) hy)
      rw [rtake_append_of_le _ _ (by simp)]
      refine List.Nodup.append (ih hl) (List.nodup_singleton x) ?_
      intro y hy hyx
      rw [List.mem_singleton.1 hyx] at hy
      exact h l x [] rfl (mem_rtake_of_le (by simp) hy)

/-- Between two equal values there are at least `n` others. -/
theorem Spaced.gap [DecidableEq α] {a b c : List α} {x : α} (h : Spaced n (a ++ x :: b ++ x :: c)) :
    n ≤ (b.filter (· ≠ x)).length := by
  -- the last occurrence of `x` before the second one, and what follows it
  obtain ⟨p, q, hq, hpq, hsub⟩ : ∃ p q, x ∉ q ∧ a ++ x :: b = p ++ x :: q ∧ q.Sublist b := by
    by_cases hx : x ∈ b
    · obtain ⟨q, p, hrev, hq⟩ := List.eq_append_cons_of_mem (List.mem_reverse.2 hx)
      have hb : b = p.reverse ++ x :: q.reverse := by simpa using congrArg List.reverse hrev
      refine ⟨a ++ x :: p.reverse, q.reverse, by simpa using hq, by rw [hb]; simp, ?_⟩
      rw [hb]
      exact (List.sublist_cons_self x _).trans (List.sublist_append_right _ _)
    · exact ⟨a, b, hx, rfl, .refl b⟩
  have hx := h (a ++ x :: b) x c rfl
  rw [hpq] at hx
  have hlen : n ≤ q.length := by
    by_contra hlt
    refine hx ?_
    rw [← List.singleton_append, ← List.append_assoc, List.append_assoc p,
      rtake_append_of_le p ([x] ++ q) (by simp; omega)]
    simp
  have hq' : q.filter (· ≠ x) = q := List.filter_eq_self.2 fun y hy => by
    simpa using fun hyx : y = x => hq (hyx ▸ hy)
  calc n ≤ q.length := hlen
    _ = (q.filter (· ≠ x)).length := by rw [hq']
    _ ≤ (b.filter (· ≠ x)).length := (hsub.filter _).length_le

/-- A history over at most `n` values repeats none. -/
theorem Spaced.nodup [DecidableEq α] (h : Spaced n hist) (S : Finset α) (hS : ∀ x ∈ hist, x ∈ S)
    (hn : S.card ≤ n) :
    hist.Nodup := by
  induction hist using List.reverseRecOn with
  | nil => exact List.nodup_nil
  | append_singleton l x ih =>
    have hl := ih h.of_append fun y hy => hS y (by simp [hy])
    have hlen : l.length ≤ n := by
      rw [← List.toFinset_card_of_nodup hl]
      exact (Finset.card_le_card fun y hy => hS y (by simp [List.mem_toFinset.1 hy])).trans hn
    have hx := h l x [] rfl
    rw [List.rtake_eq_reverse_take_reverse, List.take_of_length_le (by simpa using hlen),
      List.reverse_reverse] at hx
    exact List.Nodup.append hl (List.nodup_singleton x) fun y hy hyx =>
      hx (List.mem_singleton.1 hyx ▸ hy)

/-- The window after a new value: the value is added and, if the window was full, the oldest one goes. -/
theorem rtake_snoc (hist : List α) (x : α) (hn : 0 < n) :
    (hist ++ [x]).rtake n =
      if (hist.rtake n ++ [x]).length > n then (hist.rtake n ++ [x]).tail else hist.rtake n ++ [x] := by
  have hlen : (hist.rtake n).length = min n hist.length := by
    rw [List.rtake_eq_reverse_take_reverse]; simp
  simp only [List.length_append, List.length_singleton, hlen]
  simp only [List.rtake, List.length_append, List.length_singleton]
  split
  · next h =>
    have : n ≤ hist.length := by omega
    rw [show hist.length + 1 - n = (hist.length - n) + 1 by omega, ← List.tail_drop,
      List.drop_append_of_le_length (by omega)]
  · next h =>
    have : hist.length < n := by omega
    rw [show hist.length + 1 - n = 0 by omega, show hist.length - n = 0 by omega]
    rfl

end Window
