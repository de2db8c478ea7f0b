import Mathlib.Data.List.Infix

/-!
# Substring search

`find_after` returns what follows the first occurrence of a needle.
-/

namespace Search

variable {α : Type}

/-- Two strings agree up to the first mark, and then on. -/
theorem prefix_mark_iff {q : α} {a b x y : List α} (ha : q ∉ a) (hb : q ∉ b) :
    a ++ q :: x <+: b ++ q :: y ↔ a = b ∧ x <+: y := by
  induction a generalizing b with
  | nil =>
    cases b with
    | nil => simp
    | cons c b =>
      rw [List.mem_cons, not_or] at hb
      simp [hb.1]
  | cons c a ih =>
    rw [List.mem_cons, not_or] at ha
    cases b with
    | nil => simp [Ne.symm ha.1]
    | cons c' b =>
      rw [List.mem_cons, not_or] at hb
      simp [ih ha.2 hb.2, and_assoc]

variable [DecidableEq α] {needle s : List α}

theorem takeWhile_mark {q : α} {a : List α} (ha : q ∉ a) (y : List α) : (a ++ q :: y).takeWhile (· ≠ q) = a := by
  rw [List.takeWhile_append_of_pos, List.takeWhile_cons_of_neg (by simp), List.append_nil]
  exact fun c hc => decide_eq_true fun h => ha (h ▸ hc)

theorem dropWhile_mark {q : α} {a : List α} (ha : q ∉ a) (y : List α) :
    (a ++ q :: y).dropWhile (· ≠ q) = q :: y := by
  rw [List.dropWhile_append_of_pos, List.dropWhile_cons_of_neg (by simp)]
  exact fun c hc => decide_eq_true fun h => ha (h ▸ hc)

def find_after (needle : List α) : List α → Option (List α)
  | [] => if needle = [] then some [] else none
  | c :: s => if needle.isPrefixOf (c :: s) then some ((c :: s).drop needle.length) else find_after needle s

def contains (needle s : List α) : Bool := (find_after needle s).isSome

theorem find_after_at {t : List α} (h : needle ++ t = s) : find_after needle s = some t := by
  subst h
  cases needle with
  | nil => cases t <;> simp [find_after]
  | cons q needle => simp [find_after]

theorem find_after_cons {c : α} (h : ¬ needle <+: c :: s) : find_after needle (c :: s) = find_after needle s := by
  rw [find_after, if_neg (by simpa using h)]

/-- A needle does not start in a stretch without its first character. -/
theorem find_after_append {q : α} {p : List α} (h : q ∉ p) (s : List α) :
    find_after (q :: needle) (p ++ s) = find_after (q :: needle) s := by
  induction p with
  | nil => rfl
  | cons c p ih =>
    rw [List.mem_cons, not_or] at h
    have hno : ¬ q :: needle <+: c :: (p ++ s) := fun hp => h.1 (List.cons_prefix_cons.1 hp).1
    rw [List.cons_append, find_after_cons hno, ih h.2]

theorem find_after_some {t : List α} (h : find_after needle s = some t) : ∃ x, s = x ++ (needle ++ t) := by
  induction s with
  | nil =>
    rw [find_after] at h
    split at h
    · next hn => exact ⟨[], by rw [hn, ← Option.some.inj h]; rfl⟩
    · cases h
  | cons c s ih =>
    rw [find_after] at h
    split at h
    · next hp =>
      rw [List.isPrefixOf_iff_prefix] at hp
      obtain ⟨u, hu⟩ := hp
      have ht : u = t := by
        rw [← hu, List.drop_left] at h
        exact Option.some.inj h
      exact ⟨[], by rw [← ht, List.nil_append, hu]⟩
    · obtain ⟨x, hx⟩ := ih h
      exact ⟨c :: x, by rw [List.cons_append, ← hx]⟩

theorem find_after_mark_none {q : α} : find_after [q] s = none ↔ q ∉ s := by
  induction s with
  | nil => simp [find_after]
  | cons c s ih =>
    by_cases hc : q = c
    · simp [find_after, hc]
    · rw [find_after_cons fun h => hc (List.cons_prefix_cons.1 h).1, ih, List.mem_cons, not_or]
      exact ⟨fun h => ⟨hc, h⟩, fun h => h.2⟩

theorem find_after_mark {q : α} {t : List α} : find_after [q] s = some t ↔ ∃ a, q ∉ a ∧ s = a ++ q :: t := by
  constructor
  · intro h
    induction s with
    | nil => cases h
    | cons c s ih =>
      by_cases hc : q = c
      · subst hc
        have hat : find_after [q] (q :: s) = some s := find_after_at rfl
        rw [hat] at h
        exact ⟨[], by simp, by rw [Option.some.inj h]; rfl⟩
      · rw [find_after_cons fun h => hc (List.cons_prefix_cons.1 h).1] at h
        obtain ⟨a, ha, hs⟩ := ih h
        refine ⟨c :: a, ?_, by rw [hs]; rfl⟩
        rw [List.mem_cons, not_or]
        exact ⟨hc, ha⟩
  · rintro ⟨a, ha, rfl⟩
    rw [find_after_append ha]
    exact find_after_at rfl

theorem find_after_length {q : α} {t : List α} (h : find_after (q :: needle) s = some t) : t.length < s.length := by
  obtain ⟨x, rfl⟩ := find_after_some h
  rw [List.length_append, List.length_append, List.length_cons]
  omega

/-- What follows each place where the needle occurs, from left to right. -/
def occurrences (needle : List α) : List α → List (List α)
  | [] => []
  | c :: s =>
    if needle.isPrefixOf (c :: s) then (c :: s).drop needle.length :: occurrences needle s else occurrences needle s

theorem occurrences_append {q : α} {p : List α} (h : q ∉ p) (s : List α) :
    occurrences (q :: needle) (p ++ s) = occurrences (q :: needle) s := by
  induction p with
  | nil => rfl
  | cons c p ih =>
    rw [List.mem_cons, not_or] at h
    have hno : ¬ (q :: needle).isPrefixOf (c :: (p ++ s)) = true := fun hp =>
      h.1 (List.cons_prefix_cons.1 (List.isPrefixOf_iff_prefix.1 hp)).1
    rw [List.cons_append, occurrences, if_neg hno, ih h.2]

theorem occurrences_of_none {q : α} (h : find_after (q :: needle) s = none) : occurrences (q :: needle) s = [] := by
  induction s with
  | nil => rfl
  | cons c s ih =>
    rw [find_after] at h
    split at h
    · cases h
    · next hno => rw [occurrences, if_neg hno, ih h]

/-- A search comes to the first place; the others follow it if the needle does not overlap itself. -/
theorem occurrences_of_some {q : α} {t : List α}
    (hself : ∀ t, occurrences (q :: needle) (needle ++ t) = occurrences (q :: needle) t)
    (h : find_after (q :: needle) s = some t) :
    occurrences (q :: needle) s = t :: occurrences (q :: needle) t := by
  induction s with
  | nil => cases h
  | cons c s ih =>
    rw [find_after] at h
    split at h
    · next hp =>
      obtain ⟨r, hr⟩ := List.isPrefixOf_iff_prefix.1 hp
      obtain ⟨rfl, rfl⟩ : q = c ∧ needle ++ r = s := by simpa using hr
      have ht : r = t := by simpa using h
      rw [occurrences, if_pos hp, hself, ← ht]
      simp
    · next hno => rw [occurrences, if_neg hno, ih h]

end Search
