import Mathlib.Data.Nat.Digits.Defs
import TtLive.JavaScript

/-!
# An object after a history of writes

`value` and `since` say, from the writes alone, what an object holds under a name and how many writes were made before
the one that put the name there. `mem_keys_written` and `keys_written` are the object as scripts can list it: its names
are those that have a value, array indices in ascending order and then the others, oldest first.
-/

namespace JavaScript.Object

inductive Write
  | set (key val : Str)
  | delete (key : Str)
  | clear

def delete (obj : Object) (key : Str) : Object := obj.filter fun e => e.1 ≠ key

/-- `Object.keys(obj)`. -/
def keys (obj : Object) : List Str := (for_in obj).map Prod.fst

/-- The writes, the latest first. -/
abbrev History := List Write

def Write.apply (obj : Object) : Write → Object
  | set key val => obj.set key val
  | delete key => obj.delete key
  | clear => []

def written : History → Object
  | [] => []
  | w :: earlier => w.apply (written earlier)

/-- What a name holds. -/
def value (k : Str) : History → Option Str
  | [] => none
  | .set key val :: earlier => if k = key ∧ k ≠ proto then some val else value k earlier
  | .delete key :: earlier => if k = key then none else value k earlier
  | .clear :: _ => none

/-- The number of writes before the one that put a name there which has a value. -/
def since (k : Str) : History → Nat
  | [] => 0
  | _ :: earlier => if (value k earlier).isSome then since k earlier else earlier.length

/-- The order in which names are listed: `Object.keys`, `for (k in obj)`. -/
def Listed (h : History) (a b : Str) : Prop :=
  match array_index a, array_index b with
  | some m, some n => m < n
  | some _, none => True
  | none, some _ => False
  | none, none => since a h < since b h

/-- The names that have a value, each once and in order. -/
def Lists (h : History) (listing : List Str) : Prop :=
  (∀ k, k ∈ listing ↔ (value k h).isSome) ∧ listing.Pairwise (Listed h)

/-! ### Array indices -/

theorem foldl_eq_ofDigits (s : Str) (n : Nat) : s.foldl (fun n c => 10 * n + (c.toNat - 0x30)) n =
    Nat.ofDigits 10 (s.reverse.map fun c => c.toNat - 0x30) + 10 ^ s.length * n := by
  induction s generalizing n with
  | nil => simp
  | cons c s ih =>
    rw [List.foldl_cons, ih, List.reverse_cons, List.map_append, Nat.ofDigits_append, List.length_map,
      List.length_reverse, List.length_cons, List.map_singleton, Nat.ofDigits_singleton]
    ring

/-- The name of an index. -/
def decimal (n : Nat) : Str :=
  if n = 0 then [0x30] else (Nat.digits 10 n).reverse.map fun d => UInt8.ofNat (0x30 + d)

theorem array_index_eq {key : Str} {n : Nat} (h : array_index key = some n) : key = decimal n := by
  have hvalue := foldl_eq_ofDigits key 0
  rw [Nat.mul_zero, Nat.add_zero] at hvalue
  unfold array_index at h
  simp only [hvalue] at h
  split at h
  · next hkey =>
    obtain ⟨hne, ⟨hdigits, hlead⟩, -⟩ := hkey
    have hdigit : ∀ c ∈ key, 0x30 ≤ c.toNat ∧ c.toNat ≤ 0x39 := fun c hc => by
      simpa [UInt8.le_iff_toNat_le] using List.all_eq_true.1 hdigits c hc
    have hn : Nat.ofDigits 10 (key.reverse.map fun c => c.toNat - 0x30) = n := Option.some.inj h
    obtain ⟨c, rest, rfl⟩ := List.exists_cons_of_ne_nil hne
    by_cases hc : c = 0x30
    · have hkey : c :: rest = [0x30] := hlead (by rw [hc]; rfl)
      rw [hkey] at hn ⊢
      have hzero : n = 0 := by rw [← hn]; rfl
      rw [decimal, if_pos hzero]
    · have hpos : 0x30 < c.toNat := by
        have := (hdigit c (by simp)).1
        have : c.toNat ≠ 0x30 := fun h => hc (UInt8.toNat_inj.1 h)
        omega
      have hback : Nat.digits 10 n = (c :: rest).reverse.map fun c => c.toNat - 0x30 := by
        rw [← hn]
        refine Nat.digits_ofDigits 10 (by omega) _ (fun d hd => ?_) fun hnil => ?_
        · obtain ⟨e, he, rfl⟩ := List.mem_map.1 hd
          have := hdigit e (List.mem_reverse.1 he)
          omega
        · simp only [List.reverse_cons, List.map_append, List.map_singleton, List.getLast_append_singleton]
          omega
      have hnz : n ≠ 0 := by
        rintro rfl
        simp at hback
      rw [decimal, if_neg hnz, hback, ← List.map_reverse, List.reverse_reverse, List.map_map]
      symm
      refine (List.map_congr_left fun e he => ?_).trans (List.map_id _)
      have := hdigit e he
      show UInt8.ofNat (0x30 + (e.toNat - 0x30)) = e
      rw [Nat.add_sub_cancel' this.1, UInt8.ofNat_toNat]
  · cases h

/-- Two names of one index are the same. -/
theorem array_index_inj {a b : Str} {n : Nat} (ha : array_index a = some n) (hb : array_index b = some n) : a = b :=
  (array_index_eq ha).trans (array_index_eq hb).symm

/-! ### What is written -/

theorem nodup_keys_set {obj : Object} (h : (obj.map Prod.fst).Nodup) (key val : Str) :
    ((obj.set key val).map Prod.fst).Nodup := by
  rw [keys_set]
  split
  · exact h
  · next hk => exact List.nodup_append.2 ⟨h, List.nodup_singleton _, fun a ha b hb hab =>
      hk (.inr (List.mem_singleton.1 hb ▸ hab ▸ ha))⟩

theorem nodup_written (h : History) : ((written h).map Prod.fst).Nodup := by
  induction h with
  | nil => exact List.nodup_nil
  | cons w earlier ih =>
    rcases w with ⟨key, val⟩ | key | _
    · exact nodup_keys_set ih key val
    · exact ih.sublist (List.filter_sublist.map Prod.fst)
    · exact List.nodup_nil

theorem mem_written {h : History} {k v : Str} : (k, v) ∈ written h ↔ value k h = some v := by
  induction h with
  | nil => simp [written, value]
  | cons w earlier ih =>
    rcases w with ⟨key, val⟩ | key | _
    · rw [written, Write.apply, mem_set, ih, value]
      by_cases hk : k = key ∧ k ≠ proto
      · obtain ⟨rfl, hproto⟩ := hk
        simp [hproto, eq_comm]
      · rw [if_neg hk]
        constructor
        · rintro (⟨hproto, he⟩ | ⟨-, h⟩)
          · obtain ⟨rfl, -⟩ := Prod.mk.inj he
            exact absurd ⟨rfl, hproto⟩ hk
          · exact h
        · intro h
          refine .inr ⟨?_, h⟩
          by_contra hkey
          push Not at hkey
          have heq : k = key := hkey.2
          exact hk ⟨heq, heq ▸ hkey.1⟩
    · simp only [written, Write.apply, delete, List.mem_filter, ih, value]
      by_cases hk : k = key <;> simp [hk]
    · simp [written, Write.apply, value]

theorem mem_keys_written {h : History} {k : Str} : k ∈ keys (written h) ↔ (value k h).isSome := by
  rw [keys, List.mem_map, Option.isSome_iff_exists]
  constructor
  · rintro ⟨⟨_, v⟩, hv, rfl⟩
    exact ⟨v, mem_written.1 (mem_for_in.1 hv)⟩
  · rintro ⟨v, hv⟩
    exact ⟨(k, v), mem_for_in.2 (mem_written.2 hv), rfl⟩

theorem lookup_eq_some {obj : Object} (h : (obj.map Prod.fst).Nodup) {k v : Str} :
    obj.lookup k = some v ↔ (k, v) ∈ obj := by
  induction obj with
  | nil => simp
  | cons e obj ih =>
    obtain ⟨key, val⟩ := e
    obtain ⟨hkey, hobj⟩ := List.nodup_cons.1 h
    by_cases hk : k = key
    · subst hk
      have hnot : (k, v) ∉ obj := fun hm => hkey (List.mem_map.2 ⟨_, hm, rfl⟩)
      simp [hnot, eq_comm]
    · have hne : (k == key) = false := by simpa using hk
      rw [List.lookup_cons, hne, List.mem_cons, ih hobj]
      simp [hk]

theorem lookup_written (h : History) (k : Str) : (written h).lookup k = value k h :=
  Option.ext fun _ => (lookup_eq_some (nodup_written h)).trans mem_written

theorem since_lt {h : History} {k : Str} (hk : (value k h).isSome) : since k h < h.length := by
  induction h with
  | nil => cases hk
  | cons w earlier ih =>
    rw [since]
    split
    · next he => exact (ih he).trans (Nat.lt_succ_self _)
    · exact Nat.lt_succ_self _

theorem since_cons {w : Write} {earlier : History} {k : Str} (hk : (value k earlier).isSome) :
    since k (w :: earlier) = since k earlier := by
  rw [since, if_pos hk]

/-- Properties stand in the order in which they were put there. -/
theorem written_since (h : History) : (written h).Pairwise fun e f => since e.1 h < since f.1 h := by
  induction h with
  | nil => exact .nil
  | cons w earlier ih =>
    have hthere : ∀ e ∈ written earlier, (value e.1 earlier).isSome := fun e he => by
      rw [mem_written.1 (show (e.1, e.2) ∈ written earlier from he)]
      rfl
    have hkeep : (written earlier).Pairwise fun e f => since e.1 (w :: earlier) < since f.1 (w :: earlier) :=
      ih.imp_of_mem fun he hf h => by rwa [since_cons (hthere _ he), since_cons (hthere _ hf)]
    rcases w with ⟨key, val⟩ | key | _
    · rw [written, Write.apply, set]
      split
      · exact hkeep
      · split
        · refine List.pairwise_map.2 (hkeep.imp fun {e f} hef => ?_)
          have hfst : ∀ e : Str × Str, (if e.1 = key then (key, val) else e).1 = e.1 := fun e => by
            split <;> simp_all
          rwa [hfst, hfst]
        · next hkey =>
          refine List.pairwise_append.2 ⟨hkeep, List.pairwise_singleton _ _, fun e he f hf => ?_⟩
          have hnone : ¬ (value key earlier).isSome := fun h => hkey <| by
            obtain ⟨v, hv⟩ := Option.isSome_iff_exists.1 h
            exact List.mem_map.2 ⟨(key, v), mem_written.2 hv, rfl⟩
          rw [List.mem_singleton.1 hf, since_cons (hthere e he), since, if_neg hnone]
          exact since_lt (hthere e he)
    · exact hkeep.sublist List.filter_sublist
    · exact .nil

/-- `Object.keys` lists each name once, array indices in ascending order, then the others, oldest first. -/
theorem keys_written (h : History) : (keys (written h)).Pairwise (Listed h) := by
  rw [keys, for_in, List.map_append]
  have hindex : ∀ e ∈ (written h).filter fun e => (array_index e.1).isSome,
      ∃ n, array_index e.1 = some n := fun e he => Option.isSome_iff_exists.1 (by simpa using (List.mem_filter.1 he).2)
  have hother : ∀ e ∈ (written h).filter fun e => (array_index e.1).isNone, array_index e.1 = none := fun e he =>
    Option.isNone_iff_eq_none.1 (by simpa using (List.mem_filter.1 he).2)
  refine List.pairwise_append.2 ⟨?_, ?_, ?_⟩
  · set indexed := (written h).filter fun e => (array_index e.1).isSome
    set le : Str × Str → Str × Str → Prop := fun e f => (array_index e.1).getD 0 ≤ (array_index f.1).getD 0
    have htotal : Std.Total le := ⟨fun e f => Nat.le_total _ _⟩
    have htrans : IsTrans _ le := ⟨fun e f g hef hfg => Nat.le_trans hef hfg⟩
    have hsorted := List.pairwise_insertionSort le indexed
    have hnodup : ((indexed.insertionSort le).map Prod.fst).Nodup :=
      ((List.perm_insertionSort le indexed).map Prod.fst).nodup_iff.2
        ((nodup_written h).sublist (List.filter_sublist.map Prod.fst))
    refine List.pairwise_map.2 ((hsorted.and (List.pairwise_map.1 hnodup)).imp_of_mem fun {e f} he hf hef => ?_)
    obtain ⟨m, hm⟩ := hindex e ((List.mem_insertionSort le).1 he)
    obtain ⟨n, hn⟩ := hindex f ((List.mem_insertionSort le).1 hf)
    obtain ⟨hle, hne⟩ := hef
    simp only [le, hm, hn, Option.getD_some] at hle
    rw [Listed, hm, hn]
    exact lt_of_le_of_ne hle fun hmn => hne (array_index_inj hm (hmn ▸ hn))
  · refine List.pairwise_map.2 (((written_since h).sublist List.filter_sublist).imp_of_mem fun {e f} he hf hef => ?_)
    rw [Listed, hother e he, hother f hf]
    exact hef
  · intro a ha b hb
    obtain ⟨e, he, rfl⟩ := List.mem_map.1 ha
    obtain ⟨f, hf, rfl⟩ := List.mem_map.1 hb
    obtain ⟨n, hn⟩ := hindex e (List.mem_insertionSort _ |>.1 he)
    rw [Listed, hn, hother f hf]
    trivial

theorem lists_keys (h : History) : Lists h (keys (written h)) := ⟨fun _ => mem_keys_written, keys_written h⟩

end JavaScript.Object
