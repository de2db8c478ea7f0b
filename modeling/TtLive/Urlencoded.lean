import TtLive.JavaScript

/-!
# Query strings

`parse` reads a query string: it splits at `&`, every part at its first `=`, and percent-decodes the halves.
It undoes every encoder that spells the bytes so that no separator is left in them (`parse_join`). `parse_form` is the
reader of forms, to which a `+` is a blank (`parse_form_join`).
-/

namespace Urlencoded
open JavaScript

abbrev Text := List UInt8

/-- A `%` that no two hexadecimal digits follow stands for itself. -/
def percent_decode : Text → Text
  | [] => []
  | c :: s =>
    if c = 0x25 then
      match s with
      | a :: b :: s' =>
        match hex_pair a b with
        | some d => d :: percent_decode s'
        | none => c :: percent_decode (a :: b :: s')
      | [a] => [c, a]
      | [] => [c]
    else c :: percent_decode s

/-- `x` is a way to write the byte `c`. -/
def Spells (x : Text) (c : UInt8) : Prop :=
  x = [c] ∧ c ≠ 0x25 ∨ ∃ a b, x = [0x25, a, b] ∧ hex_pair a b = some c

def parse_part (s : Text) : Text × Text :=
  (percent_decode (s.takeWhile (· ≠ 0x3d)), percent_decode (s.dropWhile (· ≠ 0x3d)).tail)

def parse (s : Text) : List (Text × Text) :=
  if s = [] then [] else (s.splitOn 0x26).map parse_part

/-- `application/x-www-form-urlencoded`: empty parts are skipped, and a `+` is read as a blank. -/
def parse_form (s : Text) : List (Text × Text) :=
  ((s.splitOn 0x26).filter (· ≠ [])).map fun p => parse_part (p.map fun c => if c = 0x2b then 0x20 else c)

theorem percent_decode_spells {x : Text} {c : UInt8} (h : Spells x c) (s : Text) :
    percent_decode (x ++ s) = c :: percent_decode s := by
  rcases h with ⟨rfl, hc⟩ | ⟨a, b, rfl, hab⟩
  · show percent_decode (c :: s) = _
    rw [percent_decode.eq_def]
    simp only [hc, if_false]
  · show percent_decode (0x25 :: a :: b :: s) = _
    rw [percent_decode.eq_def]
    simp only [hab, if_true]

section
variable {e : UInt8 → Text}

theorem percent_decode_flatMap (he : ∀ c, Spells (e c) c) (s : Text) : percent_decode (s.flatMap e) = s := by
  induction s with
  | nil => rfl
  | cons c s ih => rw [List.flatMap_cons, percent_decode_spells (he c), ih]

/-- A parameter as a part of the query. -/
def part (e : UInt8 → Text) (kv : Text × Text) : Text := kv.1.flatMap e ++ 0x3d :: kv.2.flatMap e

theorem not_mem_flatMap {q : UInt8} (hq : ∀ c, q ∉ e c) (s : Text) : q ∉ s.flatMap e := by
  intro h
  obtain ⟨c, -, hc⟩ := List.mem_flatMap.1 h
  exact hq c hc

theorem parse_part_part (he : ∀ c, Spells (e c) c) (heq : ∀ c, 0x3d ∉ e c) (kv : Text × Text) :
    parse_part (part e kv) = kv := by
  have hname : ∀ c ∈ kv.1.flatMap e, decide (c ≠ 0x3d) = true := fun c hc =>
    decide_eq_true fun h => not_mem_flatMap heq kv.1 (h ▸ hc)
  unfold parse_part part
  rw [List.takeWhile_append_of_pos hname, List.dropWhile_append_of_pos hname]
  simp [percent_decode_flatMap he]

theorem parts_amp (hamp : ∀ c, 0x26 ∉ e c) (params : List (Text × Text)) : ∀ p ∈ params.map (part e), 0x26 ∉ p := by
  intro p hp
  obtain ⟨kv, -, rfl⟩ := List.mem_map.1 hp
  simp [part, not_mem_flatMap hamp]

theorem part_ne_nil (kv : Text × Text) : part e kv ≠ [] := by simp [part]

theorem parse_join (he : ∀ c, Spells (e c) c) (heq : ∀ c, 0x3d ∉ e c) (hamp : ∀ c, 0x26 ∉ e c)
    (params : List (Text × Text)) : parse (List.intercalate [0x26] (params.map (part e))) = params := by
  cases params with
  | nil => rfl
  | cons kv params =>
    have hparts := parts_amp hamp (kv :: params)
    have hne : List.intercalate [0x26] ((kv :: params).map (part e)) ≠ [] := by
      cases params <;> simp [part]
    unfold parse
    rw [if_neg hne, List.splitOn_intercalate _ hparts (by simp), List.map_map]
    exact List.map_id'' (parse_part_part he heq) _

/-- A reader of forms reads them, too, if no byte is written with a `+`. -/
theorem parse_form_join (he : ∀ c, Spells (e c) c) (heq : ∀ c, 0x3d ∉ e c) (hamp : ∀ c, 0x26 ∉ e c)
    (hplus : ∀ c, 0x2b ∉ e c) (params : List (Text × Text)) :
    parse_form (List.intercalate [0x26] (params.map (part e))) = params := by
  have hkept : ∀ kv : Text × Text, (part e kv).map (fun c => if c = 0x2b then 0x20 else c) = part e kv := by
    intro kv
    have hnone : 0x2b ∉ part e kv := by simp [part, not_mem_flatMap hplus]
    have hsame : ∀ c ∈ part e kv, (if c = 0x2b then 0x20 else c) = c := by
      intro c hc
      refine if_neg ?_
      rintro rfl
      exact hnone hc
    exact (List.map_congr_left hsame).trans (List.map_id' _)
  cases params with
  | nil => rfl
  | cons kv params =>
    have hfilter : ((kv :: params).map (part e)).filter (· ≠ []) = (kv :: params).map (part e) :=
      List.filter_eq_self.2 (List.forall_mem_map.2 fun p _ => decide_eq_true (part_ne_nil p))
    unfold parse_form
    rw [List.splitOn_intercalate _ (parts_amp hamp _) (by simp), hfilter, List.map_map]
    refine List.map_id'' (fun p => ?_) _
    show parse_part ((part e p).map fun c => if c = 0x2b then 0x20 else c) = p
    rw [hkept, parse_part_part he heq]

end

end Urlencoded
