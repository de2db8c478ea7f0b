import Mathlib.Data.List.Basic

/-!
# Dynamic arrays

A `DynArray` has its elements in a buffer with some room, and moves to a larger buffer when an element is added that
finds none. `range_for` is a loop over one by a pair of iterators, which point into the buffer of the loop's start: it
is `none` when it reads through an iterator after a move, and what is done with an element may also fail, where it
still uses the element after a move. `for_each_eq` compares it with the loop over a copy of the elements: they agree
unless the calls before an element add more than there was room for, or those for an element cut it off.
-/

/-- `moves` counts the buffers that have been given up. -/
structure DynArray (α : Type) where
  items : List α := []
  room : Nat := 0
  moves : Nat := 0
  fits : items.length ≤ room := by exact Nat.le_refl _

/-- How much room a full array of some length moves to. -/
structure Growth where
  grow : Nat → Nat
  lt : ∀ n, n < grow n

namespace DynArray

variable {α World : Type}

def push_back (g : Growth) (v : DynArray α) (x : α) : DynArray α :=
  if h : v.items.length < v.room then { v with items := v.items ++ [x], fits := by simpa using Nat.succ_le_of_lt h }
  else
    { items := v.items ++ [x], room := g.grow v.items.length, moves := v.moves + 1,
      fits := by simpa using Nat.succ_le_of_lt (g.lt v.items.length) }

/-- From `v` to `v'` elements were added, and the array moved just when they did not fit. -/
structure Grows (v v' : DynArray α) : Prop where
  items : v.items <+: v'.items
  stayed : v'.items.length ≤ v.room → v'.room = v.room ∧ v'.moves = v.moves
  moved : v.room < v'.items.length → v.moves < v'.moves

theorem Grows.refl (v : DynArray α) : Grows v v :=
  ⟨List.prefix_refl _, fun _ => ⟨rfl, rfl⟩, fun h => absurd v.fits (Nat.not_le.2 h)⟩

theorem Grows.moves_le {v v' : DynArray α} (h : Grows v v') : v.moves ≤ v'.moves := by
  rcases Nat.lt_or_ge v.room v'.items.length with hlt | hle
  · exact Nat.le_of_lt (h.moved hlt)
  · exact Nat.le_of_eq (h.stayed hle).2.symm

theorem Grows.trans {u v w : DynArray α} (h : Grows u v) (h' : Grows v w) : Grows u w where
  items := h.items.trans h'.items
  stayed hle := by
    obtain ⟨hroom, hmoves⟩ := h.stayed (Nat.le_trans h'.items.length_le hle)
    obtain ⟨hroom', hmoves'⟩ := h'.stayed (hroom.symm ▸ hle)
    exact ⟨hroom'.trans hroom, hmoves'.trans hmoves⟩
  moved hlt := by
    rcases Nat.lt_or_ge u.room v.items.length with hv | hv
    · exact Nat.lt_of_lt_of_le (h.moved hv) h'.moves_le
    · obtain ⟨hroom, hmoves⟩ := h.stayed hv
      rw [← hmoves]
      exact h'.moved (hroom.symm ▸ hlt)

theorem grows_push_back (g : Growth) (v : DynArray α) (x : α) : Grows v (v.push_back g x) := by
  unfold push_back
  have hlength : (v.items ++ [x]).length = v.items.length + 1 := List.length_append
  split_ifs with h
  · refine ⟨List.prefix_append _ _, fun _ => ⟨rfl, rfl⟩, fun hlt => ?_⟩
    have hlt : v.room < (v.items ++ [x]).length := hlt
    omega
  · refine ⟨List.prefix_append _ _, fun hle => ?_, fun _ => Nat.lt_succ_self _⟩
    have hle : (v.items ++ [x]).length ≤ v.room := hle
    omega

/-! ### Loops -/

/-- `f` is called for the elements of a list in order, until a call throws. -/
def call_all (f : World → α → World × Bool) : List α → World → World × Bool
  | [], w => (w, false)
  | x :: l, w => if (f w x).2 then f w x else call_all f l (f w x).1

/-- `left` turns from the `k`-th element on, through iterators into the buffer that the array had after `moves`
moves. -/
def range_for (vec : World → DynArray α) (p : World → α → Option (World × Bool)) (moves : Nat) :
    (left k : Nat) → World → Option (World × Bool)
  | 0, _, w => some (w, false)
  | left + 1, k, w =>
    if (vec w).moves = moves then
      match (vec w).items[k]? with
      | none => none
      | some x => (p w x).bind fun o => if o.2 then some o else range_for vec p moves left (k + 1) o.1
    else none

/-- `for (const auto& x : v) p(x);`, where `p` refers to `x` in the buffer after `moves` moves. -/
def for_each (vec : World → DynArray α) (p : (moves : Nat) → World → α → Option (World × Bool)) (w : World) :
    Option (World × Bool) :=
  range_for vec (p (vec w).moves) (vec w).moves (vec w).items.length 0 w

/-- Before some element of `l` the calls have added more than the array had room for, or the call for it is cut off. -/
def Outgrown (vec : World → DynArray α) (f : World → α → World × Bool) (cut : (room : Nat) → World → α → Prop)
    (l : List α) (w : World) : Prop :=
  ∃ pre x post, l = pre ++ x :: post ∧ (call_all f pre w).2 = false ∧
    ((vec w).room < (vec (call_all f pre w).1).items.length ∨ cut (vec w).room (call_all f pre w).1 x)

/-- On an element that is where it was, `p` is `f` unless it is cut off. -/
def Follows (vec : World → DynArray α) (p : (moves : Nat) → World → α → Option (World × Bool))
    (f : World → α → World × Bool) (cut : (room : Nat) → World → α → Prop) : Prop :=
  ∀ u w x, Grows (vec u) (vec w) → (vec w).items.length ≤ (vec u).room →
    (cut (vec u).room w x → p (vec u).moves w x = none) ∧
      (¬ cut (vec u).room w x → p (vec u).moves w x = some (f w x))

section
variable {vec : World → DynArray α} {f : World → α → World × Bool}

theorem call_all_append (pre post : List α) (w : World) :
    call_all f (pre ++ post) w =
      if (call_all f pre w).2 then call_all f pre w else call_all f post (call_all f pre w).1 := by
  induction pre generalizing w with
  | nil => rfl
  | cons x pre ih =>
    rw [List.cons_append, call_all, call_all]
    by_cases hx : (f w x).2
    · rw [if_pos hx, if_pos hx, if_pos hx]
    · rw [if_neg hx, if_neg hx, ih]

theorem grows_call_all (vec : World → DynArray α) (hf : ∀ w x, Grows (vec w) (vec (f w x).1)) (l : List α) (w : World) :
    Grows (vec w) (vec (call_all f l w).1) := by
  induction l generalizing w with
  | nil => exact .refl _
  | cons x l ih =>
    rw [call_all]
    split_ifs
    · exact hf w x
    · exact (hf w x).trans (ih _)

theorem call_all_left {pre post : List α} {w : World} (h : (call_all f (pre ++ post) w).2 = false) :
    (call_all f pre w).2 = false := by
  rw [call_all_append] at h
  split_ifs at h with hpre
  · exact absurd hpre (by simp [h])
  · exact Bool.eq_false_iff.2 hpre

theorem call_all_concat {pre : List α} {w : World} (h : (call_all f pre w).2 = false) (x : α) :
    call_all f (pre ++ [x]) w = f (call_all f pre w).1 x := by
  rw [call_all_append, if_neg (by simp [h]), call_all]
  split_ifs with hx
  · rfl
  · exact Prod.ext rfl (Bool.eq_false_iff.2 hx).symm

variable {p : (moves : Nat) → World → α → Option (World × Bool)} {cut : (room : Nat) → World → α → Prop} {w : World}
  (hf : ∀ w x, Grows (vec w) (vec (f w x).1)) (hp : Follows vec p f cut)
include hf hp

/-- One turn, after the calls for `pre`: the iterator is valid unless the array has been outgrown. -/
theorem range_for_cons {pre post : List α} {x : α} (hl : (vec w).items = pre ++ x :: post)
    (hpre : (call_all f pre w).2 = false) :
    ((vec w).room < (vec (call_all f pre w).1).items.length ∨ cut (vec w).room (call_all f pre w).1 x →
      range_for vec (p (vec w).moves) (vec w).moves (x :: post).length pre.length (call_all f pre w).1 = none) ∧
    (¬ ((vec w).room < (vec (call_all f pre w).1).items.length ∨ cut (vec w).room (call_all f pre w).1 x) →
      range_for vec (p (vec w).moves) (vec w).moves (x :: post).length pre.length (call_all f pre w).1 =
        if (call_all f (pre ++ [x]) w).2 then some (call_all f (pre ++ [x]) w)
        else range_for vec (p (vec w).moves) (vec w).moves post.length (pre ++ [x]).length
          (call_all f (pre ++ [x]) w).1) := by
  have hgrows := grows_call_all vec hf pre w
  rw [List.length_cons, range_for, call_all_concat hpre]
  by_cases hlt : (vec w).room < (vec (call_all f pre w).1).items.length
  · rw [if_neg (Nat.ne_of_gt (hgrows.moved hlt))]
    exact ⟨fun _ => rfl, fun h => absurd (.inl hlt) h⟩
  · have hx : (vec (call_all f pre w).1).items[pre.length]? = some x := by
      obtain ⟨l, hl'⟩ := hgrows.items
      rw [← hl', hl, List.append_assoc, List.getElem?_append_right (Nat.le_refl _), Nat.sub_self]
      rfl
    obtain ⟨hcut, hsome⟩ := hp w (call_all f pre w).1 x hgrows (Nat.not_lt.1 hlt)
    rw [if_pos (hgrows.stayed (Nat.not_lt.1 hlt)).2, hx, List.length_append]
    constructor
    · intro h
      show Option.bind (p (vec w).moves (call_all f pre w).1 x) _ = none
      rw [hcut (h.resolve_left hlt)]
      rfl
    · intro h
      show Option.bind (p (vec w).moves (call_all f pre w).1 x) _ = _
      rw [hsome fun hc => h (.inr hc)]
      rfl

theorem range_for_eq (pre : List α) {post : List α} (hl : (vec w).items = pre ++ post) (hpre : (call_all f pre w).2 = false)
    (hout : ¬ Outgrown vec f cut (vec w).items w) :
    range_for vec (p (vec w).moves) (vec w).moves post.length pre.length (call_all f pre w).1 =
      some (call_all f (pre ++ post) w) := by
  induction post generalizing pre with
  | nil =>
    rw [List.append_nil]
    exact congrArg some (Prod.ext rfl hpre.symm)
  | cons x post ih =>
    rw [(range_for_cons hf hp hl hpre).2 fun h => hout ⟨pre, x, post, hl, hpre, h⟩]
    rw [List.append_cons pre x post] at hl ⊢
    split_ifs with hx
    · rw [call_all_append (pre ++ [x]), if_pos hx]
    · exact ih (pre ++ [x]) hl (Bool.eq_false_iff.2 hx)

/-- While the array is not outgrown, the loop is the loop over the elements that the array had when it began. -/
theorem for_each_eq (hout : ¬ Outgrown vec f cut (vec w).items w) :
    for_each vec p w = some (call_all f (vec w).items w) :=
  range_for_eq hf hp [] rfl rfl hout

theorem range_for_none (pre : List α) {mid post : List α} {y : α} (hl : (vec w).items = pre ++ mid ++ y :: post)
    (hmid : (call_all f (pre ++ mid) w).2 = false)
    (h : (vec w).room < (vec (call_all f (pre ++ mid) w).1).items.length ∨
      cut (vec w).room (call_all f (pre ++ mid) w).1 y) :
    range_for vec (p (vec w).moves) (vec w).moves (mid ++ y :: post).length pre.length (call_all f pre w).1 = none := by
  induction mid generalizing pre with
  | nil =>
    rw [List.append_nil] at hl hmid h
    exact (range_for_cons hf hp hl hmid).1 h
  | cons x mid ih =>
    rw [List.append_cons pre x mid] at hl hmid h
    have hx : (call_all f (pre ++ [x]) w).2 = false := call_all_left hmid
    rw [List.cons_append]
    by_cases hnow : (vec w).room < (vec (call_all f pre w).1).items.length ∨ cut (vec w).room (call_all f pre w).1 x
    · exact (range_for_cons hf hp (by simpa using hl) (call_all_left hx)).1 hnow
    · rw [(range_for_cons hf hp (by simpa using hl) (call_all_left hx)).2 hnow, if_neg (by simp [hx])]
      exact ih (pre ++ [x]) hl hmid h

theorem for_each_none (hout : Outgrown vec f cut (vec w).items w) : for_each vec p w = none := by
  obtain ⟨pre, x, post, hl, hpre, h⟩ := hout
  have hnone := range_for_none hf hp [] hl hpre h
  rwa [← hl] at hnone

end

end DynArray
