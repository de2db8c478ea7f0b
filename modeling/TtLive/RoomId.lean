import TtLive.JsonScan

/-!
# `scan_room_id`

The room id is the first number behind a `"roomId":` of the page. The loop goes on behind an occurrence without
a number, or with the number 0, but `std::stoll` throws on a number of 2^63 or more, and the scan with it.
-/

namespace TtLive
open Search

def room_key : Bytes := lit "\"roomId\":"

/-- The digit run behind optional quotes and blanks. -/
def room_digits (s : Bytes) : Bytes :=
  (s.dropWhile fun c => c = 0x22 ∨ c = 0x20).takeWhile fun c => 0x30 ≤ c ∧ c ≤ 0x39

/-- `std::stoll` of a run of digits. -/
def stoll (digits : Bytes) : Except Exn Int :=
  if decimal digits < 0x8000000000000000 then .ok (decimal digits) else .error "stoll"

theorem find_room_key_length {body s : Bytes} (h : find_after room_key body = some s) : s.length < body.length := by
  have hkey : room_key = 0x22 :: lit "roomId\":" := by decide
  rw [hkey] at h
  exact find_after_length h

def scan_room_id (body : Bytes) : Except Exn Int :=
  match _h : find_after room_key body with
  | none => .ok 0
  | some s =>
    if room_digits s ≠ [] then do
      let rid ← stoll (room_digits s)
      if rid > 0 then return rid else scan_room_id s
    else scan_room_id s
termination_by body.length
decreasing_by all_goals exact find_room_key_length (by assumption)

/-! ### The occurrences -/

/-- A number that a room id can be. -/
def ValidRoom (s : Bytes) : Prop := 1 ≤ decimal (room_digits s) ∧ decimal (room_digits s) < 0x8000000000000000

instance (s : Bytes) : Decidable (ValidRoom s) := inferInstanceAs (Decidable (_ ∧ _))

/-- A number that does not fit in 64 bits. -/
def Overflows (s : Bytes) : Prop := 0x8000000000000000 ≤ decimal (room_digits s)

instance (s : Bytes) : Decidable (Overflows s) := inferInstanceAs (Decidable (_ ≤ _))

/-- The scan, over what follows each occurrence of the key. -/
def first_room : List Bytes → Except Exn Int
  | [] => .ok 0
  | s :: ss =>
    if Overflows s then .error "stoll" else if ValidRoom s then .ok (decimal (room_digits s)) else first_room ss

theorem stoll_of_overflow {s : Bytes} (h : Overflows s) : stoll (room_digits s) = .error "stoll" :=
  if_neg (Nat.not_lt.2 h)

theorem stoll_of_not_overflow {s : Bytes} (h : ¬ Overflows s) :
    stoll (room_digits s) = .ok (decimal (room_digits s) : Int) :=
  if_pos (Nat.not_le.1 h)

/-- No place of the key lies inside another. -/
theorem occurrences_room_key (t : Bytes) :
    occurrences room_key (lit "roomId\":" ++ t) = occurrences room_key t := by
  have hkey : room_key = 0x22 :: lit "roomId\":" := by decide
  have hsplit : lit "roomId\":" = lit "roomId" ++ [0x22, 0x3a] := by decide
  have hno : ¬ room_key.isPrefixOf (0x22 :: 0x3a :: t) = true := by
    rw [List.isPrefixOf_iff_prefix, hkey, List.cons_prefix_cons]
    exact fun h => absurd (List.cons_prefix_cons.1 h.2).1 (by decide)
  rw [hsplit, List.append_assoc, hkey, occurrences_append (by decide), ← hkey]
  show occurrences room_key (0x22 :: 0x3a :: t) = _
  rw [occurrences, if_neg hno, hkey]
  exact occurrences_append (p := [0x3a]) (by decide) t

/-- A round of the loop either ends the scan or goes on behind the occurrence. -/
theorem scan_round (s : Bytes) (next : Except Exn Int) :
    (if room_digits s ≠ [] then do
      let rid ← stoll (room_digits s)
      if rid > 0 then return rid else next
    else next) =
      if Overflows s then .error "stoll" else if ValidRoom s then .ok (decimal (room_digits s)) else next := by
  by_cases hover : Overflows s
  · have hne : room_digits s ≠ [] := by
      intro hnil
      rw [Overflows, hnil] at hover
      exact absurd hover (by decide)
    rw [if_pos hne, if_pos hover, stoll_of_overflow hover]
    rfl
  · rw [if_neg hover]
    by_cases hnil : room_digits s = []
    · have hzero : ¬ ValidRoom s := by
        rw [ValidRoom, hnil]
        decide
      rw [if_neg (not_not.2 hnil), if_neg hzero]
    · rw [if_pos hnil, stoll_of_not_overflow hover]
      show (if (decimal (room_digits s) : Int) > 0 then .ok (decimal (room_digits s) : Int) else next) = _
      refine if_congr ?_ rfl rfl
      have hlt : decimal (room_digits s) < 0x8000000000000000 := Nat.not_le.1 hover
      exact ⟨fun h => ⟨by omega, hlt⟩, fun h => by have := h.1; omega⟩

theorem scan_room_id_eq (body : Bytes) : scan_room_id body = first_room (occurrences room_key body) := by
  have hkey : room_key = 0x22 :: lit "roomId\":" := by decide
  rw [scan_room_id]
  split
  · next h =>
    rw [hkey] at h ⊢
    rw [occurrences_of_none h]
    rfl
  · next s h =>
    have hlt := find_room_key_length h
    have hocc : occurrences room_key body = s :: occurrences room_key s := by
      rw [hkey] at h ⊢
      exact occurrences_of_some (fun t => hkey ▸ occurrences_room_key t) h
    rw [hocc, first_room, ← scan_room_id_eq s]
    exact scan_round s (scan_room_id s)
termination_by body.length

/-! ### When the scan does not throw -/

/-- The occurrences in front of the first valid room id. -/
def rejected (body : Bytes) : List Bytes := (occurrences room_key body).takeWhile fun s => ¬ ValidRoom s

theorem not_overflows_of_valid {s : Bytes} (h : ValidRoom s) : ¬ Overflows s := Nat.not_le.2 h.2

theorem takeWhile_invalid {s : Bytes} {ss : List Bytes} (h : ¬ ValidRoom s) :
    (s :: ss).takeWhile (fun s => ¬ ValidRoom s) = s :: ss.takeWhile fun s => ¬ ValidRoom s :=
  List.takeWhile_cons_of_pos (decide_eq_true h)

theorem first_room_ok {ss : List Bytes} (h : ∀ s ∈ ss.takeWhile (fun s => ¬ ValidRoom s), ¬ Overflows s) :
    first_room ss = .ok ((ss.find? fun s => ValidRoom s).elim 0 fun s => (decimal (room_digits s) : Int)) := by
  induction ss with
  | nil => rfl
  | cons s ss ih =>
    by_cases hv : ValidRoom s
    · have hfind : (s :: ss).find? (fun s => ValidRoom s) = some s := List.find?_cons_of_pos (decide_eq_true hv)
      rw [first_room, if_neg (not_overflows_of_valid hv), if_pos hv, hfind]
      rfl
    · rw [takeWhile_invalid hv, List.forall_mem_cons] at h
      have hfind : (s :: ss).find? (fun s => ValidRoom s) = ss.find? fun s => ValidRoom s :=
        List.find?_cons_of_neg (by simpa using hv)
      rw [first_room, if_neg h.1, if_neg hv, hfind]
      exact ih h.2

theorem first_room_error {ss : List Bytes} (h : ∃ s ∈ ss.takeWhile (fun s => ¬ ValidRoom s), Overflows s) :
    first_room ss = .error "stoll" := by
  induction ss with
  | nil =>
    obtain ⟨s, hs, -⟩ := h
    cases hs
  | cons s ss ih =>
    rw [first_room]
    by_cases hover : Overflows s
    · rw [if_pos hover]
    · by_cases hv : ValidRoom s
      · obtain ⟨s', hs', -⟩ := h
        rw [List.takeWhile_cons_of_neg (by simpa using hv)] at hs'
        cases hs'
      · rw [if_neg hover, if_neg hv]
        rw [takeWhile_invalid hv] at h
        obtain ⟨s', hs', hover'⟩ := h
        rcases List.mem_cons.1 hs' with rfl | hs'
        · exact absurd hover' hover
        · exact ih ⟨s', hs', hover'⟩

/-- The first valid room id, or 0, and no exception. -/
structure FindsRoomId (body : Bytes) : Prop where
  returns : ∃ rid, scan_room_id body = .ok rid
  leftmost : ∀ s, (occurrences room_key body).find? (fun s => ValidRoom s) = some s →
    scan_room_id body = .ok (decimal (room_digits s) : Int)
  zero_iff : scan_room_id body = .ok 0 ↔ ∀ s ∈ occurrences room_key body, ¬ ValidRoom s

/-- The scan does what it is for exactly if it meets no number of 2^63 or more. -/
theorem finds_room_id_iff (body : Bytes) : FindsRoomId body ↔ ∀ s ∈ rejected body, ¬ Overflows s := by
  constructor
  · intro h s hs hover
    obtain ⟨rid, hrid⟩ := h.returns
    rw [scan_room_id_eq, first_room_error ⟨s, hs, hover⟩] at hrid
    cases hrid
  · intro h
    have hscan := first_room_ok h
    rw [← scan_room_id_eq] at hscan
    refine ⟨⟨_, hscan⟩, ?_, ?_⟩
    · intro s hs
      rw [hscan, hs]
      rfl
    · rw [hscan]
      cases hf : (occurrences room_key body).find? fun s => ValidRoom s with
      | none =>
        refine ⟨fun _ s hs hv => ?_, fun _ => rfl⟩
        exact List.find?_eq_none.1 hf s hs (decide_eq_true hv)
      | some s =>
        have hv : ValidRoom s := by simpa using List.find?_some hf
        refine ⟨fun hzero => ?_, fun hno => absurd hv (hno s (List.mem_of_find?_eq_some hf))⟩
        have hz : (decimal (room_digits s) : Int) = 0 := Except.ok.inj hzero
        have := hv.1
        omega

/-- A number of 2^63 in front of a room id. -/
theorem overflow_ends_scan : ¬ ∀ body, FindsRoomId body := by
  intro hall
  obtain ⟨rid, hrid⟩ := (hall (lit "\"roomId\":9223372036854775808,\"roomId\":7")).returns
  have hscan : first_room (occurrences room_key (lit "\"roomId\":9223372036854775808,\"roomId\":7")) =
      .error "stoll" := rfl
  rw [scan_room_id_eq, hscan] at hrid
  cases hrid

end TtLive
