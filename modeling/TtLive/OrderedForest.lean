import Mathlib.Data.List.Nodup
import Mathlib.Logic.Function.Basic

/-!
# Ordered forests

The child lists of nodes, where a node is in one list at most and there once. The operations are those of a document
tree: a node that is put somewhere is taken from where it was. That the result is a forest again is part of its type.
-/

structure Forest (Node : Type) where
  children : Node → List Node := fun _ => []
  nodup : ∀ p, (children p).Nodup := by exact fun _ => List.nodup_nil
  unique : ∀ p q c, c ∈ children p → c ∈ children q → p = q := by exact fun _ _ _ h => absurd h List.not_mem_nil

namespace Forest

variable {Node : Type} [DecidableEq Node]

/-- The node has no parent. -/
def Detached (t : Forest Node) (c : Node) : Prop := ∀ p, c ∉ t.children p

def detach (t : Forest Node) (c : Node) : Forest Node where
  children p := (t.children p).filter (· ≠ c)
  nodup p := (t.nodup p).filter _
  unique p q c' h h' := t.unique p q c' (List.mem_filter.1 h).1 (List.mem_filter.1 h').1

theorem detached_detach (t : Forest Node) (c : Node) : (t.detach c).Detached c :=
  fun _ h => of_decide_eq_true (List.mem_filter.1 h).2 rfl

theorem detach_eq {t : Forest Node} {c : Node} (h : t.Detached c) (p : Node) :
    (t.detach c).children p = t.children p :=
  List.filter_eq_self.2 fun _ hx => decide_eq_true fun hxc => h p (hxc ▸ hx)

/-- Another list for `p`, of its own children and of nodes without a parent. -/
def put (t : Forest Node) (p : Node) (l : List Node) (hl : l.Nodup)
    (hnew : ∀ x ∈ l, x ∈ t.children p ∨ t.Detached x) : Forest Node where
  children := Function.update t.children p l
  nodup q := by
    by_cases hq : q = p
    · rwa [hq, Function.update_self]
    · rw [Function.update_of_ne hq]
      exact t.nodup q
  unique q r c hc hc' := by
    have hmem : ∀ q', q' ≠ p → c ∈ t.children q' → c ∉ l := fun q' hq' hc' hcl =>
      (hnew c hcl).elim (fun h => hq' (t.unique _ _ _ hc' h)) fun h => h q' hc'
    by_cases hq : q = p <;> by_cases hr : r = p
    · rw [hq, hr]
    · rw [hq, Function.update_self] at hc
      rw [Function.update_of_ne hr] at hc'
      exact absurd hc (hmem r hr hc')
    · rw [Function.update_of_ne hq] at hc
      rw [hr, Function.update_self] at hc'
      exact absurd hc' (hmem q hq hc)
    · rw [Function.update_of_ne hq] at hc
      rw [Function.update_of_ne hr] at hc'
      exact t.unique q r c hc hc'

/-- `c` before `ref`, or at the end when that is not there. -/
def insert_before (c : Node) (ref : Option Node) : List Node → List Node
  | [] => [c]
  | x :: l => if some x = ref then c :: x :: l else x :: insert_before c ref l

theorem perm_insert_before (c : Node) (ref : Option Node) (l : List Node) :
    (insert_before c ref l).Perm (c :: l) := by
  induction l with
  | nil => exact .refl _
  | cons x l ih =>
    unfold insert_before
    split_ifs
    · exact .refl _
    · exact (ih.cons x).trans (.swap c x l)

/-- `p.insertBefore(c, ref)`, where a missing `ref` stands for `p.appendChild(c)`. -/
def insertBefore (t : Forest Node) (p c : Node) (ref : Option Node) : Forest Node :=
  if ref = some c then t
  else (t.detach c).put p (insert_before c ref ((t.detach c).children p))
    ((perm_insert_before _ _ _).nodup_iff.2 (List.nodup_cons.2 ⟨t.detached_detach c p, (t.detach c).nodup p⟩))
    fun x hx => by
      rcases List.mem_cons.1 ((perm_insert_before _ _ _).mem_iff.1 hx) with rfl | hx
      · exact .inr (t.detached_detach x)
      · exact .inl hx

def removeChild (t : Forest Node) (p c : Node) : Forest Node :=
  t.put p ((t.children p).filter (· ≠ c)) ((t.nodup p).filter _) fun _ hx => .inl (List.mem_filter.1 hx).1

/-- One node for another. -/
def renamed (new old x : Node) : Node := if x = old then new else x

theorem nodup_renamed {new old : Node} {l : List Node} (hl : l.Nodup) (hnew : new ∉ l) :
    (l.map (renamed new old)).Nodup := by
  refine hl.map_on fun x hx y hy hxy => ?_
  unfold renamed at hxy
  split_ifs at hxy with hxo hyo hyo
  · rw [hxo, hyo]
  · exact absurd (hxy ▸ hy) hnew
  · exact absurd (hxy ▸ hx) hnew
  · exact hxy

def replaceChild (t : Forest Node) (p new old : Node) : Forest Node :=
  if new = old then t
  else (t.detach new).put p (((t.detach new).children p).map (renamed new old))
    (nodup_renamed ((t.detach new).nodup p) (t.detached_detach new p)) fun x hx => by
      obtain ⟨y, hy, rfl⟩ := List.mem_map.1 hx
      unfold renamed
      split_ifs
      · exact .inr (t.detached_detach new)
      · exact .inl hy

/-! ### What the lists become -/

section
variable {t : Forest Node} {p c : Node}

theorem children_put {l : List Node} {hl : l.Nodup} {hnew : ∀ x ∈ l, x ∈ t.children p ∨ t.Detached x} (q : Node) :
    (t.put p l hl hnew).children q = if q = p then l else t.children q := Function.update_apply ..

theorem children_removeChild (q : Node) : (t.removeChild p c).children q =
    if q = p then (t.children p).filter (· ≠ c) else t.children q := children_put q

theorem insert_before_none (c : Node) (l : List Node) : insert_before c none l = l ++ [c] := by
  induction l with
  | nil => rfl
  | cons x l ih => rw [insert_before, if_neg nofun, ih, List.cons_append]

/-- Only before a node that is not there, a node goes to the end. -/
theorem insert_before_ne {c r : Node} {l : List Node} (hr : r ∈ l) (hc : c ∉ l) :
    insert_before c (some r) l ≠ l ++ [c] := by
  induction l with
  | nil => exact absurd hr List.not_mem_nil
  | cons x l ih =>
    intro h
    unfold insert_before at h
    split_ifs at h with hx
    · exact hc ((List.cons.inj h).1 ▸ List.mem_cons_self)
    · have hrl : r ∈ l := (List.mem_cons.1 hr).resolve_left fun hrx => hx (congrArg some hrx.symm)
      exact ih hrl (fun hcl => hc (List.mem_cons_of_mem _ hcl)) (List.cons.inj h).2

theorem children_insertBefore {ref : Option Node} (href : ref ≠ some c) (q : Node) :
    (t.insertBefore p c ref).children q =
      if q = p then insert_before c ref ((t.detach c).children p) else (t.detach c).children q := by
  rw [insertBefore, if_neg href]
  exact children_put q

/-- A node without a parent is appended. -/
theorem children_append (h : t.Detached c) (q : Node) : (t.insertBefore p c none).children q =
    if q = p then t.children p ++ [c] else t.children q := by
  have hnone : (none : Option Node) ≠ some c := nofun
  rw [children_insertBefore hnone, insert_before_none, detach_eq h, detach_eq h]

theorem children_replaceChild {new old : Node} (hne : new ≠ old) (q : Node) : (t.replaceChild p new old).children q =
    if q = p then ((t.detach new).children p).map (renamed new old) else (t.detach new).children q := by
  rw [replaceChild, if_neg hne]
  exact children_put q

/-- In place of the last child a node goes to the end. -/
theorem children_replace_last {new old : Node} (hlast : (t.children p).getLast? = some old)
    (hnew : new = old ∨ t.Detached new) (q : Node) : (t.replaceChild p new old).children q =
      if q = p then (t.children p).filter (· ≠ old) ++ [new] else t.children q := by
  obtain ⟨l, hl⟩ := List.getLast?_eq_some_iff.1 hlast
  have hold : old ∉ l := fun h => by
    have := hl ▸ t.nodup p
    exact (List.nodup_append.1 this).2.2 old h old List.mem_cons_self rfl
  have hne_old : ∀ x ∈ l, x ≠ old := fun x hx hxo => hold (hxo ▸ hx)
  have hfilter : (t.children p).filter (· ≠ old) = l := by
    rw [hl, List.filter_append, List.filter_eq_self.2 fun x hx => decide_eq_true (hne_old x hx)]
    simp
  rw [hfilter]
  by_cases hne : new = old
  · rw [replaceChild, if_pos hne, hne]
    split_ifs with hq
    · rw [hq, hl]
    · rfl
  · have hd := hnew.resolve_left hne
    have hmap : l.map (renamed new old) = l := by
      exact (List.map_congr_left fun x hx => if_neg (hne_old x hx)).trans (List.map_id l)
    rw [children_replaceChild hne, detach_eq hd, detach_eq hd, hl, List.map_append, hmap]
    simp [renamed]

end

end Forest
