import Mathlib.Data.List.Perm.Basic
import Mathlib.Data.List.Range

/-!
# A ledger of resources

What a program does with resources that are allocated and freed by hand, as a list of steps. `balance` is the book of
what is allocated; it is `none` when a step uses or frees what is not. A `Holder` is an owner with one slot. Taking a
new resource, or forgetting the slot, does not free what the slot held, and `lost` keeps those: `Holder.Balanced` says
that nothing but them and the slot is allocated, and that no step so far was at fault.
-/

namespace Ledger

/-- `null` is a call on a null pointer. -/
inductive Step
  | alloc (r : Nat)
  | use (r : Nat)
  | free (r : Nat)
  | null
deriving DecidableEq

/-- The resources that have ever been allocated, and those that still are. -/
structure Book where
  ever : List Nat := []
  live : List Nat := []

def Book.enter (b : Book) : Step → Option Book
  | .alloc r => if r ∈ b.ever then none else some ⟨b.ever ++ [r], b.live ++ [r]⟩
  | .use r => if r ∈ b.live then some b else none
  | .free r => if r ∈ b.live then some { b with live := b.live.erase r } else none
  | .null => none

def balance (steps : List Step) : Option Book := steps.foldlM Book.enter {}

theorem balance_append (steps : List Step) (s : Step) :
    balance (steps ++ [s]) = (balance steps).bind fun b => b.enter s := by
  rw [balance, List.foldlM_append]
  show (balance steps).bind _ = _
  rcases balance steps with _ | b
  · rfl
  · show [s].foldlM Book.enter b = b.enter s
    rw [List.foldlM_cons]
    rcases b.enter s with _ | b' <;> rfl

structure Holder where
  slot : Option Nat := none
  next : Nat := 0
  steps : List Step := []
  /-- What the slot held when it was overwritten. -/
  lost : List Nat := []

namespace Holder

/-- `slot = allocate();`. -/
def take (h : Holder) : Holder where
  slot := some h.next
  next := h.next + 1
  steps := h.steps ++ [.alloc h.next]
  lost := h.lost ++ h.slot.toList

/-- `slot = nullptr;`. -/
def forget (h : Holder) : Holder := { h with slot := none, lost := h.lost ++ h.slot.toList }

/-- A call on what the slot holds. -/
def use (h : Holder) : Holder :=
  match h.slot with
  | none => { h with steps := h.steps ++ [.null] }
  | some r => { h with steps := h.steps ++ [.use r] }

/-- `if (slot) free(slot);`. -/
def release (h : Holder) : Holder :=
  match h.slot with
  | none => h
  | some r => { h with slot := none, steps := h.steps ++ [.free r] }

section
variable {h : Holder} {r : Nat}

theorem use_some (hs : h.slot = some r) : h.use = { h with steps := h.steps ++ [.use r] } := by
  simp only [use, hs]

theorem release_none (hs : h.slot = none) : h.release = h := by
  simp only [release, hs]

theorem release_some (hs : h.slot = some r) :
    h.release = { h with slot := none, steps := h.steps ++ [.free r] } := by
  simp only [release, hs]

end

/-- No step was at fault, and what is allocated is what was lost and what is held. -/
structure Balanced (h : Holder) : Prop where
  book : ∃ b, balance h.steps = some b ∧ b.live.Perm (h.lost ++ h.slot.toList) ∧ ∀ r ∈ b.ever, r < h.next
  nodup : (h.lost ++ h.slot.toList).Nodup
  lt : ∀ r ∈ h.lost ++ h.slot.toList, r < h.next

section
variable {h : Holder}

theorem balanced_init : Balanced {} := ⟨⟨{}, rfl, .nil, by simp⟩, by simp, by simp⟩

theorem Balanced.take (hb : h.Balanced) : h.take.Balanced := by
  obtain ⟨b, hbook, hperm, hever⟩ := hb.book
  have hfresh : h.next ∉ b.ever := fun hm => Nat.lt_irrefl _ (hever _ hm)
  refine ⟨⟨⟨b.ever ++ [h.next], b.live ++ [h.next]⟩, ?_, hperm.append_right _, ?_⟩, ?_, ?_⟩
  · rw [Holder.take, balance_append, hbook, Option.bind_some, Book.enter, if_neg hfresh]
  · intro r hr
    rcases List.mem_append.1 hr with hr | hr
    · exact Nat.lt_succ_of_lt (hever r hr)
    · rw [List.mem_singleton.1 hr]
      exact Nat.lt_succ_self _
  · exact List.nodup_append.2 ⟨hb.nodup, List.pairwise_singleton _ _, fun a ha b hb' hab =>
      Nat.lt_irrefl _ (List.mem_singleton.1 hb' ▸ hab ▸ hb.lt a ha)⟩
  · intro r hr
    rcases List.mem_append.1 hr with hr | hr
    · exact Nat.lt_succ_of_lt (hb.lt r hr)
    · rw [List.mem_singleton.1 hr]
      exact Nat.lt_succ_self _

theorem Balanced.forget (hb : h.Balanced) : h.forget.Balanced := by
  obtain ⟨b, hbook, hperm, hever⟩ := hb.book
  refine ⟨⟨b, hbook, ?_, hever⟩, ?_, ?_⟩ <;> simp only [Holder.forget, Option.toList_none, List.append_nil]
  exacts [hperm, hb.nodup, hb.lt]

theorem Balanced.use (hb : h.Balanced) (hs : h.slot.isSome) : h.use.Balanced := by
  obtain ⟨r, hs⟩ := Option.isSome_iff_exists.1 hs
  rw [use_some hs]
  obtain ⟨b, hbook, hperm, hever⟩ := hb.book
  have hlive : r ∈ b.live := hperm.mem_iff.2 (by simp [hs])
  refine ⟨⟨b, ?_, hperm, hever⟩, hb.nodup, hb.lt⟩
  rw [balance_append, hbook, Option.bind_some, Book.enter, if_pos hlive]

theorem Balanced.release (hb : h.Balanced) : h.release.Balanced := by
  rcases hs : h.slot with _ | r
  · rwa [release_none hs]
  · rw [release_some hs]
    obtain ⟨b, hbook, hperm, hever⟩ := hb.book
    rw [hs] at hperm
    have hlive : r ∈ b.live := hperm.mem_iff.2 (by simp)
    have hnodup := hb.nodup
    rw [hs] at hnodup
    have hnot : r ∉ h.lost := fun hr => (List.nodup_append.1 hnodup).2.2 r hr r (by simp) rfl
    refine ⟨⟨{ b with live := b.live.erase r }, ?_, ?_, hever⟩, ?_, ?_⟩
    · rw [balance_append, hbook, Option.bind_some, Book.enter, if_pos hlive]
    · have := hperm.erase r
      rwa [List.erase_append_right _ hnot, show (some r).toList.erase r = [] by simp] at this
    · simpa using (List.nodup_append.1 hnodup).1
    · intro r' hr'
      exact hb.lt r' (List.mem_append_left _ (by simpa using hr'))

end

section
variable (h : Holder)

@[simp] theorem slot_take : h.take.slot = some h.next := rfl
@[simp] theorem lost_take : h.take.lost = h.lost ++ h.slot.toList := rfl
@[simp] theorem slot_forget : h.forget.slot = none := rfl
@[simp] theorem lost_forget : h.forget.lost = h.lost ++ h.slot.toList := rfl

@[simp] theorem slot_use : h.use.slot = h.slot := by
  unfold use
  split
  · rfl
  · rfl

@[simp] theorem lost_use : h.use.lost = h.lost := by
  unfold use
  split <;> rfl

@[simp] theorem slot_release : h.release.slot = none := by
  unfold release
  split
  · assumption
  · rfl

@[simp] theorem lost_release : h.release.lost = h.lost := by
  unfold release
  split <;> rfl

end

/-! ### Repeated attempts -/

/-- Whether each attempt to get a resource succeeded is `got`: held is what the last one got, and lost what the others
got. -/
structure Owns (h : Holder) (got : List Bool) : Prop where
  balanced : h.Balanced
  held : h.slot.isSome = got.getLast?.getD false
  lost : h.lost.length = got.dropLast.count true

section
variable {h : Holder} {got : List Bool}

theorem count_dropLast (got : List Bool) :
    got.count true = got.dropLast.count true + (got.getLast?.getD false).toNat := by
  rcases List.eq_nil_or_concat got with rfl | ⟨rest, b, rfl⟩
  · rfl
  · rw [List.concat_eq_append, List.dropLast_concat, List.getLast?_concat, List.count_append]
    cases b <;> rfl

/-- Overwriting the slot loses what the last attempt got. -/
theorem Owns.overwrite (ho : h.Owns got) : (h.lost ++ h.slot.toList).length = got.count true := by
  have hslot : h.slot.toList.length = h.slot.isSome.toNat := by cases h.slot <;> rfl
  rw [List.length_append, ho.lost, hslot, ho.held, ← count_dropLast]

theorem owns_init : Owns {} [] := ⟨balanced_init, rfl, rfl⟩

theorem Owns.take (ho : h.Owns got) : h.take.Owns (got ++ [true]) where
  balanced := ho.balanced.take
  held := by rw [List.getLast?_concat]; rfl
  lost := by rw [List.dropLast_concat, lost_take, ho.overwrite]

theorem Owns.forget (ho : h.Owns got) : h.forget.Owns (got ++ [false]) where
  balanced := ho.balanced.forget
  held := by rw [List.getLast?_concat]; rfl
  lost := by rw [List.dropLast_concat, lost_forget, ho.overwrite]

theorem Owns.use (ho : h.Owns got) (hs : h.slot.isSome) : h.use.Owns got where
  balanced := ho.balanced.use hs
  held := by rw [slot_use, ho.held]
  lost := by rw [lost_use, ho.lost]

/-- A resource that is given back in the attempt that got it. -/
theorem Owns.give_back (ho : h.Owns (got ++ [true])) : h.release.Owns (got ++ [false]) where
  balanced := ho.balanced.release
  held := by rw [slot_release, List.getLast?_concat]; rfl
  lost := by rw [lost_release, ho.lost, List.dropLast_concat, List.dropLast_concat]

/-- When the owner is gone, what all attempts but the last got is still allocated. -/
theorem Owns.left (ho : h.Owns got) :
    ∃ b, balance h.release.steps = some b ∧ b.live.length = got.dropLast.count true := by
  obtain ⟨b, hbook, hperm, -⟩ := ho.balanced.release.book
  rw [slot_release, lost_release, Option.toList_none, List.append_nil] at hperm
  exact ⟨b, hbook, hperm.length_eq.trans ho.lost⟩

end

end Holder

end Ledger
