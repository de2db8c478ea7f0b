import TtLive.BraceScan
import TtLive.DocScan

/-!
# The fields that the needle scanners read

Of a document `json_object_field`, `json_string_field` and `json_int_field` read the value of the first member, in
document order at any depth, whose name reads as the key and whose value has the kind they look for.
-/

namespace TtLive
open Search Json

/-! ### Strings -/

theorem raw_body_plain {x : Bytes} (h : ∀ c ∈ x, c ≠ 0x22 ∧ c ≠ 0x5c) (s : Bytes) :
    raw_body (x ++ s) = x ++ raw_body s := by
  induction x with
  | nil => rfl
  | cons c x ih =>
    obtain ⟨h₁, h₂⟩ := h c (by simp)
    rw [List.cons_append, raw_body.eq_def]
    simp [h₁, h₂, ih fun d hd => h d (List.mem_cons_of_mem _ hd)]

theorem raw_body_escape (c : UInt8) (s : Bytes) : raw_body (0x5c :: c :: s) = 0x5c :: c :: raw_body s := by
  rw [raw_body.eq_def]
  simp

theorem raw_body_body (ps : List Piece) (s : Bytes) : raw_body (body ps ++ 0x22 :: s) = body ps := by
  induction ps with
  | nil =>
    rw [raw_body.eq_def]
    simp [body]
  | cons p ps ih =>
    rw [body_cons, List.append_assoc]
    rcases p.shape with ⟨c, hp, hc⟩ | ⟨c, x, hp, -, hplain⟩
    · rw [hp, raw_body_plain (by simpa using hc.2), ih]
    · rw [hp]
      refine (raw_body_escape c (x ++ (body ps ++ 0x22 :: s))).trans ?_
      rw [raw_body_plain hplain, ih]
      rfl

/-! ### Integers -/

/-- The integer at the beginning of a text, behind quotes and blanks; 0 if there is none. -/
def leading_int (s : Bytes) : Int :=
  let s := s.dropWhile fun c => c = 0x20 ∨ c = 0x22
  let neg := s.head? = some 0x2d
  let digits := (if neg then s.tail else s).takeWhile fun c => Digit c
  if neg then -(decimal digits : Int) else decimal digits

theorem le_foldl_digits (ds : Bytes) (v : Nat) : v ≤ ds.foldl (fun n c => 10 * n + (c.toNat - 0x30)) v := by
  induction ds generalizing v with
  | nil => exact Nat.le_refl v
  | cons c ds ih =>
    have hstep : v ≤ 10 * v + (c.toNat - 0x30) := by omega
    exact Nat.le_trans hstep (ih _)

/-- The digit loop reads the run of digits, unless the number grows too large. -/
theorem int_digits_eq (s : Bytes) {v : Nat} {any : Bool} (hv : v < 0x8000000000000000) :
    int_digits v any s =
      if (s.takeWhile fun c => Digit c).foldl (fun n c => 10 * n + (c.toNat - 0x30)) v < 0x8000000000000000 then
        some ((s.takeWhile fun c => Digit c).foldl (fun n c => 10 * n + (c.toNat - 0x30)) v,
          any || !(s.takeWhile fun c => Digit c).isEmpty)
      else none := by
  induction s generalizing v any with
  | nil => simp [int_digits, hv]
  | cons c s ih =>
    by_cases hc : Digit c
    · have hcode : 0x30 ≤ c ∧ c ≤ 0x39 := hc
      have htake : (c :: s).takeWhile (fun c => Digit c) = c :: s.takeWhile fun c => Digit c :=
        List.takeWhile_cons_of_pos (decide_eq_true hc)
      rw [int_digits, if_pos hcode, htake, List.foldl_cons]
      by_cases hlt : 10 * v + (c.toNat - 0x30) < 0x8000000000000000
      · simp only [hlt, if_true]
        rw [ih hlt]
        simp
      · simp only [hlt, if_false]
        rw [if_neg fun h => hlt (Nat.lt_of_le_of_lt (le_foldl_digits _ _) h)]
    · have hcode : ¬ (0x30 ≤ c ∧ c ≤ 0x39) := hc
      have htake : (c :: s).takeWhile (fun c => Digit c) = [] := List.takeWhile_cons_of_neg (by simpa using hc)
      rw [int_digits, if_neg hcode, htake]
      simp [hv]

theorem int_digits_decimal (s : Bytes) :
    int_digits 0 false s =
      if decimal (s.takeWhile fun c => Digit c) < 0x8000000000000000 then
        some (decimal (s.takeWhile fun c => Digit c), !(s.takeWhile fun c => Digit c).isEmpty)
      else none :=
  int_digits_eq s (by decide)

theorem int_value_eq (s : Bytes) :
    int_value s = if (leading_int s).natAbs < 0x8000000000000000 then some (leading_int s) else none := by
  unfold int_value leading_int
  dsimp only
  generalize s.dropWhile (fun c => c = 0x20 ∨ c = 0x22) = t
  rw [int_digits_decimal]
  by_cases hneg : t.head? = some 0x2d
  · simp only [hneg, if_true, Int.natAbs_neg, Int.natAbs_natCast]
    generalize t.tail.takeWhile (fun c => Digit c) = ds
    by_cases hlt : decimal ds < 0x8000000000000000
    · rw [if_pos hlt, if_pos hlt]
      cases ds with
      | nil => rfl
      | cons c ds => rfl
    · rw [if_neg hlt, if_neg hlt]
  · simp only [hneg, if_false, Int.natAbs_natCast]
    generalize t.takeWhile (fun c => Digit c) = ds
    by_cases hlt : decimal ds < 0x8000000000000000
    · rw [if_pos hlt, if_pos hlt]
      cases ds with
      | nil => rfl
      | cons c ds => rfl
    · rw [if_neg hlt, if_neg hlt]

theorem Follow.not_digit {s : Bytes} (h : Follow s) : ∀ c ∈ s.head?, ¬ Digit c := by
  intro c hc hd
  have := h c hc
  simp only [List.mem_cons, List.not_mem_nil, or_false] at this
  rcases this with rfl | rfl | rfl <;> exact absurd hd (by decide)

/-- What follows a value has no part in the integer. -/
theorem leading_int_append (t : Bytes) {rest : Bytes} (hrest : Follow rest) :
    leading_int (t ++ rest) = leading_int t := by
  have htake : ∀ u : Bytes, (u ++ rest).takeWhile (fun c => Digit c) = u.takeWhile fun c => Digit c := by
    intro u
    induction u with
    | nil =>
      cases rest with
      | nil => rfl
      | cons c rest => exact List.takeWhile_cons_of_neg (by simpa using hrest.not_digit c rfl)
    | cons c u ih =>
      rw [List.cons_append, List.takeWhile_cons, List.takeWhile_cons, ih]
  have hskip : rest.dropWhile (fun c => c = 0x20 ∨ c = 0x22) = rest ∧ rest.head? ≠ some 0x2d := by
    cases rest with
    | nil => simp
    | cons c rest =>
      have hc := hrest c rfl
      simp only [List.mem_cons, List.not_mem_nil, or_false] at hc
      rcases hc with rfl | rfl | rfl <;> simp
  have hdrop : (t ++ rest).dropWhile (fun c => c = 0x20 ∨ c = 0x22) =
      t.dropWhile (fun c => c = 0x20 ∨ c = 0x22) ++ rest := by
    rw [List.dropWhile_append]
    split
    · next hnil =>
      rw [hskip.1, List.isEmpty_iff.1 hnil]
      rfl
    · rfl
  unfold leading_int
  rw [hdrop]
  generalize t.dropWhile (fun c => c = 0x20 ∨ c = 0x22) = u
  cases u with
  | nil =>
    have hzero := htake []
    rw [List.nil_append] at hzero
    simp [hskip.2, hzero]
  | cons c u =>
    have hu := htake u
    have hcu := htake (c :: u)
    rw [List.cons_append] at hcu
    by_cases hc : c = 0x2d
    · simp [hc, hu]
    · simp [hc, hcu]

/-! ### The scanners -/

/-- The value of the first member, at any depth, that a scanner for the key takes. -/
def first_reading (d : Doc) (key : Bytes) (kind : Doc → Bool) : Option Doc :=
  (d.members.find? fun m => reads key m.1 && kind m.2).map Prod.snd

theorem not_prefix_number {n : Number} {c : UInt8} (h : ¬ Digit c ∧ c ∉ [0x2d, 0x2b, 0x2e, 0x65, 0x45]) :
    [c].isPrefixOf n.text = false := by
  cases hn : n.text with
  | nil => rfl
  | cons d t =>
    have hd : d ∈ n.text := by simp [hn]
    have hne : c ≠ d := by
      rintro rfl
      exact (n.number_char hd).elim h.1 h.2
    rw [← Bool.not_eq_true, List.isPrefixOf_iff_prefix, List.cons_prefix_cons]
    exact fun hp => hne hp.1

theorem isObject_eq (d : Doc) : d.isObject = [0x7b].isPrefixOf d.text := by
  cases d with
  | bool b => cases b <;> rfl
  | number n => exact (not_prefix_number (by decide)).symm
  | _ => rfl

theorem isArray_eq (d : Doc) : d.isArray = [0x5b].isPrefixOf d.text := by
  cases d with
  | bool b => cases b <;> rfl
  | number n => exact (not_prefix_number (by decide)).symm
  | _ => rfl

theorem isString_eq (d : Doc) : d.isString = [0x22].isPrefixOf d.text := by
  cases d with
  | bool b => cases b <;> rfl
  | number n => exact (not_prefix_number (by decide)).symm
  | _ => rfl

theorem continued_follow (ts : List Bytes) : Follow (continued ts) := by
  cases ts with
  | nil => exact nofun
  | cons t ts => exact follow_cons (by decide) _

/-- Behind a member stands a comma, a closing bracket or nothing. -/
theorem sites_follow (d : Doc) : ∀ s ∈ d.sites, Follow s.2 :=
  Doc.forall_sites nofun (fun _ hs => hs.append (follow_cons (by decide) []))
    (fun _ hs => hs.append (follow_cons (by decide) [])) (fun _ _ hs => hs.append (continued_follow _))
    (fun _ _ hs => hs.append (continued_follow _)) d

section
variable {key start : Bytes}

theorem first_reading_eq (d : Doc) {kind : Doc → Bool} (hkind : ∀ w, kind w = start.isPrefixOf w.text) :
    first_reading d key kind = (d.sites.find? (hit key start)).map fun s => s.1.2 := by
  have hhit : hit key start = (fun m : Member => reads key m.1 && kind m.2) ∘ Prod.fst := by
    funext s
    rw [Function.comp_apply, hkind, hit]
  rw [first_reading, ← Doc.map_fst_sites, List.find?_map, ← hhit, Option.map_map]
  rfl

/-- The first reading of a text is what the search finds, with what follows it. -/
theorem find_after_reading (hk : NeedleKey key) (hstart : start.length ≤ 1) (d : Doc) {kind : Doc → Bool}
    (hkind : ∀ w, kind w = start.isPrefixOf w.text) :
    match first_reading d key kind with
    | none => find_after (needle key start) d.text = none
    | some w => kind w = true ∧
        ∃ rest, Follow rest ∧ find_after (needle key start) d.text = some ((w.text ++ rest).drop start.length) := by
  rw [first_reading_eq d hkind, find_after_doc hk hstart]
  cases hf : d.sites.find? (hit key start) with
  | none => rfl
  | some s =>
    have hs := List.find?_some hf
    rw [hit, Bool.and_eq_true, ← hkind] at hs
    exact ⟨hs.2, s.2, sites_follow d s (List.mem_of_find?_eq_some hf), rfl⟩

theorem json_object_field_doc (hk : NeedleKey key) (d : Doc) :
    json_object_field d.text key = (first_reading d key Doc.isObject).elim [] Doc.text := by
  have h := @find_after_reading key [0x7b] hk (Nat.le_refl 1) d _ isObject_eq
  unfold json_object_field
  cases hf : first_reading d key Doc.isObject with
  | none =>
    rw [hf] at h
    simp only [h, Option.elim]
  | some w =>
    rw [hf] at h
    obtain ⟨hw, rest, -, hfind⟩ := h
    cases w with
    | object ms =>
      have hopen : 0x7b :: ((Doc.object ms).text ++ rest).drop 1 = (Doc.object ms).text ++ rest := by
        simp [Doc.text]
      have hclose := to_closing_brace_object (Doc.object ms).spaced (by simp [Doc.text]) rest
      simp only [hfind, List.length_singleton, hopen, hclose, Option.elim, Option.getD_some]
    | _ => cases hw

/-- The source text of a string between its quotes. -/
def raw_text : Doc → Bytes
  | .string ps => body ps
  | _ => []

theorem json_string_field_doc (hk : NeedleKey key) (d : Doc) :
    json_string_field d.text key =
      (first_reading d key Doc.isString).elim (.ok []) fun w => json_unescape (raw_text w) := by
  have h := @find_after_reading key [0x22] hk (Nat.le_refl 1) d _ isString_eq
  unfold json_string_field
  cases hf : first_reading d key Doc.isString with
  | none =>
    rw [hf] at h
    simp only [h, Option.elim]
  | some w =>
    rw [hf] at h
    obtain ⟨hw, rest, -, hfind⟩ := h
    cases w with
    | string ps =>
      have hbody : ((Doc.string ps).text ++ rest).drop 1 = body ps ++ 0x22 :: rest := by simp [Doc.text]
      simp only [hfind, List.length_singleton, hbody, raw_body_body, Option.elim, raw_text]
    | _ => cases hw

/-- The integer that `json_int_field` finds, whatever its size. -/
def int_reading (d : Doc) (key : Bytes) : Int :=
  (first_reading d key fun _ => true).elim 0 fun w => leading_int w.text

theorem json_int_field_doc (hk : NeedleKey key) (d : Doc) :
    json_int_field d.text key =
      if (int_reading d key).natAbs < 0x8000000000000000 then some (int_reading d key) else none := by
  have h := @find_after_reading key [] hk (Nat.zero_le 1) d (fun _ => true) fun _ => rfl
  unfold json_int_field int_reading
  cases hf : first_reading d key (fun _ => true) with
  | none =>
    rw [hf] at h
    simp only [h, Option.elim]
    rfl
  | some w =>
    rw [hf] at h
    obtain ⟨-, rest, hrest, hfind⟩ := h
    rw [hfind]
    show int_value (w.text ++ rest) = _
    rw [int_value_eq, leading_int_append _ hrest]
    rfl

end

end TtLive
