import TtLive.BraceScan
import TtLive.GiftList

/-!
# The walk over the gifts

The positions of the walk are those of a walk over what is left of the text (`segments`, `walk_eq`): every `substr`
starts within the text, also in a text that is cut off, and in a well-formed array the objects are its elements.
-/

namespace TtLive
open Search Json

/-! ### Positions -/

section
variable {s needle : Bytes} {pos p : Nat}

theorem find_eq_none : find s needle pos = none ↔ find_after needle (s.drop pos) = none := Option.map_eq_none_iff

/-- The position that is found is that of an occurrence, and what follows it is what the search finds. -/
theorem find_eq_some (hn : needle ≠ []) (h : find s needle pos = some p) :
    pos ≤ p ∧ p + needle.length ≤ s.length ∧ s.drop p = needle ++ s.drop (p + needle.length) ∧
      find_after needle (s.drop pos) = some (s.drop (p + needle.length)) := by
  obtain ⟨t, ht, hp⟩ := Option.map_eq_some_iff.1 h
  obtain ⟨x, hx⟩ := find_after_some ht
  have hlen := congrArg List.length hx
  have hpos : 0 < needle.length := List.length_pos_iff.2 hn
  rw [List.length_drop, List.length_append, List.length_append] at hlen
  have hp : p = pos + x.length := by omega
  have hat : s.drop p = needle ++ t := by rw [hp, ← List.drop_drop, hx, List.drop_left]
  have hrest : s.drop (p + needle.length) = t := by rw [← List.drop_drop, hat, List.drop_left]
  exact ⟨by omega, by omega, by rw [hrest, hat], by rw [hrest, ht]⟩

theorem substr_eq (h : pos ≤ s.length) (n : Nat) : substr s pos n = .ok ((s.drop pos).take n) := if_pos h

end

/-! ### The end of an object -/

/-- The loop from position `i` stops at the last character of what `to_closing_brace` passes, or else behind the
text. -/
def Stops (i : Nat) (s : Bytes) (passed : Option Bytes) (stop : Nat × Bool) : Prop :=
  passed.elim (i + s.length ≤ stop.1 ∧ stop.2 = false) fun x => x ≠ [] ∧ x <+: s ∧ stop = (i + (x.length - 1), true)

theorem Stops.step {i : Nat} {s : Bytes} {passed : Option Bytes} {stop : Nat × Bool} (pre : Bytes)
    (h : Stops (i + pre.length) s passed stop) : Stops i (pre ++ s) ((pre ++ ·) <$> passed) stop := by
  cases passed with
  | none =>
    obtain ⟨h₁, h₂⟩ := h
    rw [Nat.add_assoc] at h₁
    exact ⟨by rw [List.length_append]; exact h₁, h₂⟩
  | some x =>
    obtain ⟨hne, hpre, hstop⟩ := h
    have hpos := List.length_pos_iff.2 hne
    have hlen : i + pre.length + (x.length - 1) = i + ((pre ++ x).length - 1) := by
      rw [List.length_append]
      omega
    rw [hlen] at hstop
    exact ⟨List.append_ne_nil_of_right_ne_nil pre hne, (List.prefix_append_right_inj pre).2 hpre, hstop⟩

theorem stops (depth : Int) (in_str : Bool) (i : Nat) (s : Bytes) :
    Stops i s (to_closing_brace depth in_str s) (balanced_end depth in_str i s) := by
  fun_induction balanced_end depth in_str i s with
  | case1 => exact ⟨Nat.le_refl _, rfl⟩
  | case2 depth i =>
    rw [to_closing_brace.eq_def]
    exact ⟨Nat.le_succ _, rfl⟩
  | case3 depth i c s ih =>
    rw [to_closing_brace.eq_def]
    exact ih.step [0x5c, c]
  | case4 depth i c s hc ih =>
    rw [to_closing_brace.eq_def]
    simp only [hc]
    exact ih.step [c]
  | case5 depth in_str i s hn ih =>
    rw [to_closing_brace.eq_def]
    simp only [hn]
    exact ih.step [0x22]
  | case6 depth in_str i s hn hq ih =>
    rw [Bool.eq_false_iff.2 hn, open_brace]
    exact ih.step [0x7b]
  | case7 depth in_str i s hn hd hq hb =>
    rw [Bool.eq_false_iff.2 hn, close_brace, if_pos hd]
    exact ⟨List.cons_ne_nil _ _, List.prefix_append [0x7d] s, rfl⟩
  | case8 depth in_str i s hn hd hq hb ih =>
    rw [Bool.eq_false_iff.2 hn, close_brace, if_neg hd]
    exact ih.step [0x7d]
  | case9 depth in_str i c s hn hq hb hc ih =>
    rw [to_closing_brace.eq_def]
    simp only [hn, hq, hb, hc]
    exact ih.step [c]

/-- The positions of `json_object_field` give its text. -/
theorem object_field_eq (json key : Bytes) : object_field json key = .ok (json_object_field json key) := by
  unfold object_field json_object_field
  cases hf : find json (needle key [0x7b]) 0 with
  | none =>
    rw [find_eq_none, List.drop_zero] at hf
    simp only [hf]
  | some p =>
    obtain ⟨-, hle, hat, hfind⟩ := find_eq_some (by simp [needle]) hf
    rw [List.drop_zero] at hfind
    generalize json.drop (p + (needle key [0x7b]).length) = t at hat hfind
    have hsplit : needle key [0x7b] = (0x22 :: key ++ [0x22, 0x3a]) ++ [0x7b] := by simp [needle]
    have hlen : (needle key [0x7b]).length = (0x22 :: key ++ [0x22, 0x3a]).length + 1 := by
      rw [hsplit, List.length_append, List.length_singleton]
    -- the loop starts at the brace that the needle ends with
    have hstart : p + (needle key [0x7b]).length - 1 = p + (0x22 :: key ++ [0x22, 0x3a]).length := by omega
    have hbrace : json.drop (p + (needle key [0x7b]).length - 1) = 0x7b :: t := by
      rw [hstart, ← List.drop_drop, hat, hsplit, List.append_assoc, List.drop_left]
      rfl
    have hle' : p + (needle key [0x7b]).length - 1 ≤ json.length := by omega
    simp only [hfind]
    generalize p + (needle key [0x7b]).length - 1 = start at hbrace hle' ⊢
    have hstop := stops 0 false start (0x7b :: t)
    rw [hbrace]
    cases hc : to_closing_brace 0 false (0x7b :: t) with
    | none =>
      rw [hc] at hstop
      rw [hstop.2]
      rfl
    | some x =>
      rw [hc] at hstop
      obtain ⟨hne, hpre, hstop⟩ := hstop
      have hpos := List.length_pos_iff.2 hne
      have hcount : start + (x.length - 1) - start + 1 = x.length := by omega
      rw [hstop, if_pos rfl, hcount, substr_eq hle', hbrace]
      exact congrArg Except.ok (List.prefix_iff_eq_take.1 hpre).symm

/-- The object that starts with an opening brace: up to its closing brace, or to the end of the text. -/
def object_at (s : Bytes) : Bytes := (to_closing_brace 0 false s).getD s

theorem object_at_ne_nil {s : Bytes} (h : s ≠ []) : object_at s ≠ [] := by
  have hstop := stops 0 false 0 s
  unfold object_at
  cases hc : to_closing_brace 0 false s with
  | none => exact h
  | some x =>
    rw [hc] at hstop
    exact hstop.1

/-- The slice that a round takes, and what is left of the text behind it. -/
theorem object_slice {body : Bytes} {start : Nat} (h : start < body.length) :
    substr body start (object_stop body start - start) = .ok (object_at (body.drop start)) ∧
      body.drop (object_stop body start) = (body.drop start).drop (object_at (body.drop start)).length := by
  have hstop := stops 0 false start (body.drop start)
  unfold object_stop object_at
  rw [substr_eq (Nat.le_of_lt h)]
  cases hc : to_closing_brace 0 false (body.drop start) with
  | none =>
    rw [hc] at hstop
    obtain ⟨hle, hopen⟩ := hstop
    rw [List.length_drop] at hle
    simp only [hopen, Option.getD_none, List.length_drop, Bool.false_eq_true, if_false]
    refine ⟨congrArg Except.ok (List.take_of_length_le ?_), ?_⟩
    · rw [List.length_drop]
      omega
    · rw [List.drop_of_length_le (by omega), List.drop_of_length_le (by rw [List.length_drop])]
  | some x =>
    rw [hc] at hstop
    obtain ⟨hne, hpre, hstop⟩ := hstop
    have hpos := List.length_pos_iff.2 hne
    have hcount : start + (x.length - 1) + 1 = start + x.length := by omega
    simp only [hstop, Option.getD_some, if_true, hcount, Nat.add_sub_cancel_left]
    exact ⟨congrArg Except.ok (List.prefix_iff_eq_take.1 hpre).symm, by rw [List.drop_drop]⟩

/-! ### The walk over what is left of the text -/

def Separator (c : UInt8) : Prop := c = 0x20 ∨ c = 0x2c ∨ c = 0x0a

instance (c : UInt8) : Decidable (Separator c) := inferInstanceAs (Decidable (_ ∨ _))

theorem drop_skip_separators (body : Bytes) (i : Nat) :
    body.drop (skip_separators i (body.drop i)) = (body.drop i).dropWhile fun c => Separator c := by
  have hall : ∀ s i, s = body.drop i → body.drop (skip_separators i s) = s.dropWhile fun c => Separator c := by
    intro s
    induction s with
    | nil => exact fun i hs => hs.symm
    | cons c s ih =>
      intro i hs
      have htail : s = body.drop (i + 1) := by rw [← List.drop_drop, ← hs, List.drop_one, List.tail_cons]
      rw [skip_separators, List.dropWhile_cons]
      by_cases hc : Separator c
      · have hcode : c = 0x20 ∨ c = 0x2c ∨ c = 0x0a := hc
        rw [if_pos hcode, if_pos (decide_eq_true hc), ih (i + 1) htail]
      · have hcode : ¬ (c = 0x20 ∨ c = 0x2c ∨ c = 0x0a) := hc
        rw [if_neg hcode, if_neg (by simpa using hc), hs]
  exact hall _ i rfl

/-- The objects of the walk. -/
def segments (s : Bytes) : List Bytes :=
  match _h : s.dropWhile fun c => Separator c with
  | [] => []
  | c :: t =>
    if c = 0x5d then []
    else if c ≠ 0x7b then segments t
    else object_at (c :: t) :: segments ((c :: t).drop (object_at (c :: t)).length)
termination_by s.length
decreasing_by
  all_goals
    have hle := (List.dropWhile_suffix (l := s) fun c => decide (Separator c)).length_le
    rw [_h, List.length_cons] at hle
  · exact hle
  · have hpos := List.length_pos_iff.2 (@object_at_ne_nil (c :: t) nofun)
    rw [List.length_drop, List.length_cons]
    omega

theorem segments_of_nil {s : Bytes} (h : s.dropWhile (fun c => Separator c) = []) : segments s = [] := by
  rw [segments]
  split
  · rfl
  · next h' =>
    rw [h] at h'
    cases h'

theorem segments_of_cons {s t : Bytes} {c : UInt8} (h : s.dropWhile (fun c => Separator c) = c :: t) :
    segments s =
      if c = 0x5d then []
      else if c ≠ 0x7b then segments t
      else object_at (c :: t) :: segments ((c :: t).drop (object_at (c :: t)).length) := by
  rw [segments]
  split
  · next h' =>
    rw [h] at h'
    cases h'
  · next h' =>
    rw [h] at h'
    obtain ⟨rfl, rfl⟩ := List.cons.inj h'
    rfl

/-- The rounds one after the other. -/
def collect {α : Type} (round : Bytes → Except Exn (Option α)) : List Bytes → Except Exn (List α)
  | [] => return []
  | obj :: objs => do
    let found ← round obj
    let rest ← collect round objs
    return found.toList ++ rest

theorem walk_eq {α : Type} (round : Bytes → Except Exn (Option α)) (body : Bytes) (i : Nat) :
    walk round body i = collect round (segments (body.drop i)) := by
  fun_induction walk round body i with
  | case1 i hi start hend =>
    have hskip : body.drop start = (body.drop i).dropWhile fun c => Separator c := drop_skip_separators body i
    rcases hend with hend | hend
    · rw [List.drop_of_length_le hend] at hskip
      rw [segments_of_nil hskip.symm]
      rfl
    · obtain ⟨hlt, hget⟩ := List.getElem?_eq_some_iff.1 hend
      rw [List.drop_eq_getElem_cons hlt, hget] at hskip
      rw [segments_of_cons hskip.symm, if_pos rfl]
      rfl
  | case2 i hi start hend hc ih =>
    have hskip : body.drop start = (body.drop i).dropWhile fun c => Separator c := drop_skip_separators body i
    have hlt : start < body.length := Nat.not_le.1 fun h => hend (.inl h)
    rw [List.getElem?_eq_getElem hlt] at hend hc
    rw [List.drop_eq_getElem_cons hlt] at hskip
    rw [segments_of_cons hskip.symm, if_neg fun h => hend (.inr (congrArg some h)),
      if_pos fun h => hc (congrArg some h), ih]
  | case3 i hi start hend hc ih =>
    have hskip : body.drop start = (body.drop i).dropWhile fun c => Separator c := drop_skip_separators body i
    have hlt : start < body.length := Nat.not_le.1 fun h => hend (.inl h)
    obtain ⟨hslice, hrest⟩ := object_slice hlt
    rw [List.getElem?_eq_getElem hlt] at hend hc
    rw [hslice, ih, hrest]
    rw [List.drop_eq_getElem_cons hlt] at hskip ⊢
    rw [segments_of_cons hskip.symm, if_neg fun h => hend (.inr (congrArg some h)),
      if_neg fun h => hc fun h' => h (Option.some.inj h'), collect]
    rfl
  | case4 i hi =>
    have hnil : body.drop i = [] := List.drop_of_length_le (Nat.not_lt.1 hi)
    rw [hnil, segments_of_nil rfl]
    rfl

theorem over_gifts_eq {α : Type} (round : Bytes → Except Exn (Option α)) (body : Bytes) :
    over_gifts round body =
      (find_after (lit "\"gifts\":[") body).elim (.ok []) fun s => collect round (segments s) := by
  unfold over_gifts
  cases hf : find body (lit "\"gifts\":[") 0 with
  | none =>
    rw [find_eq_none, List.drop_zero] at hf
    rw [hf]
    rfl
  | some arr =>
    obtain ⟨-, -, -, hfind⟩ := find_eq_some (by decide) hf
    rw [List.drop_zero] at hfind
    rw [hfind]
    exact walk_eq round body (arr + 9)

theorem collect_some (objs : List Bytes) : collect (fun obj => .ok (some obj)) objs = .ok objs := by
  induction objs with
  | nil => rfl
  | cons obj objs ih =>
    rw [collect, ih]
    rfl

theorem gift_slices_eq (body : Bytes) :
    gift_slices body = .ok ((find_after (lit "\"gifts\":[") body).elim [] segments) := by
  rw [gift_slices, over_gifts_eq]
  cases find_after (lit "\"gifts\":[") body with
  | none => rfl
  | some s => exact collect_some (segments s)

/-! ### No `substr` is out of range -/

section
variable {α β : Type} {e : Exn}

theorem bind_ne_error {x : Except Exn α} {f : α → Except Exn β} (hx : x ≠ .error e) (hf : ∀ a, f a ≠ .error e) :
    x >>= f ≠ .error e := by
  cases x with
  | error e' => exact fun h => hx (congrArg Except.error (Except.error.inj h))
  | ok a => exact hf a

theorem ok_bind (a : α) (f : α → Except Exn β) : (.ok a >>= f) = f a := rfl

theorem ok_of_bind {x : Except Exn α} {f : α → Except Exn β} {b : β} (h : x >>= f = .ok b) :
    ∃ a, x = .ok a ∧ f a = .ok b := by
  cases x with
  | error e => cases h
  | ok a => exact ⟨a, rfl, h⟩

theorem ite_ne_error {p : Prop} [Decidable p] {x y : Except Exn α} (hx : x ≠ .error e) (hy : y ≠ .error e) :
    (if p then x else y) ≠ .error e := by
  split
  · exact hx
  · exact hy

theorem collect_ne_error {round : Bytes → Except Exn (Option α)} (h : ∀ obj, round obj ≠ .error e)
    (objs : List Bytes) : collect round objs ≠ .error e := by
  induction objs with
  | nil => exact nofun
  | cons obj objs ih => exact bind_ne_error (h obj) fun found => bind_ne_error ih fun rest => nofun

end

theorem stoi_hex_in_range (s : Bytes) : stoi_hex s ≠ .error out_of_range := by
  unfold stoi_hex
  exact ite_ne_error (fun h => absurd (Except.error.inj h) (by decide)) nofun

theorem json_unescape_in_range (s : Bytes) : json_unescape s ≠ .error out_of_range := by
  fun_induction json_unescape s with
  | case1 => exact nofun
  | case2 a b c d s ih => exact bind_ne_error (stoi_hex_in_range _) fun code => bind_ne_error ih fun rest => nofun
  | case3 n s _ ih => exact bind_ne_error ih fun rest => nofun
  | case4 c s _ _ ih => exact bind_ne_error ih fun rest => nofun

theorem json_string_field_in_range (json key : Bytes) : json_string_field json key ≠ .error out_of_range := by
  unfold json_string_field
  split
  · exact nofun
  · exact json_unescape_in_range _

theorem int_field_in_range (json key : Bytes) : int_field json key ≠ .error out_of_range := by
  unfold int_field
  cases json_int_field json key with
  | none => exact fun h => absurd (Except.error.inj h) (by decide)
  | some n => exact nofun

theorem quoted_from_in_range (s : Bytes) (pos : Nat) : quoted_from s pos ≠ .error out_of_range := by
  unfold quoted_from
  split
  · exact nofun
  · split
    · exact nofun
    · next q0 h0 q1 h1 =>
      -- `q0 + 1` is at most the place of the second quote
      obtain ⟨hle, hlen, -, -⟩ := find_eq_some (by decide) h1
      rw [substr_eq (by omega)]
      exact bind_ne_error nofun json_unescape_in_range

theorem icon_url_in_range (obj : Bytes) : icon_url obj ≠ .error out_of_range := by
  unfold icon_url
  rw [object_field_eq]
  refine bind_ne_error nofun fun icon_obj => ?_
  split
  · exact nofun
  · exact quoted_from_in_range _ _

theorem read_gift_in_range (obj : Bytes) : read_gift obj ≠ .error out_of_range := by
  refine bind_ne_error (int_field_in_range _ _) fun id => ?_
  refine bind_ne_error (json_string_field_in_range _ _) fun name => ?_
  refine bind_ne_error (int_field_in_range _ _) fun diamond_count => ?_
  refine bind_ne_error (json_string_field_in_range _ _) fun describe => ?_
  refine bind_ne_error (int_field_in_range _ _) fun type => ?_
  exact bind_ne_error (icon_url_in_range obj) fun icon_url => nofun

theorem parse_gift_list_in_range (body : Bytes) : parse_gift_list body ≠ .error out_of_range := by
  rw [parse_gift_list, over_gifts_eq]
  cases find_after (lit "\"gifts\":[") body with
  | none => exact nofun
  | some s =>
    refine collect_ne_error (fun obj => ?_) (segments s)
    exact bind_ne_error (read_gift_in_range obj) fun g => nofun

/-! ### Well-formed arrays -/

/-- What the walk passes between the elements: white space and commas. -/
theorem segments_skip {c : UInt8} (hc : c ∈ [0x2c, 0x20, 0x09, 0x0a, 0x0d]) (s : Bytes) :
    segments (c :: s) = segments s := by
  by_cases hsep : Separator c
  · have hskip : (c :: s).dropWhile (fun c => Separator c) = s.dropWhile fun c => Separator c :=
      List.dropWhile_cons_of_pos (decide_eq_true hsep)
    cases hs : s.dropWhile fun c => Separator c with
    | nil => rw [segments_of_nil (hskip.trans hs), segments_of_nil hs]
    | cons d t => rw [segments_of_cons (hskip.trans hs), segments_of_cons hs]
  · -- a tab or a carriage return: a round of its own
    have hstay : (c :: s).dropWhile (fun c => Separator c) = c :: s := List.dropWhile_cons_of_neg (by simpa using hsep)
    have hne : c ≠ 0x5d ∧ c ≠ 0x7b := by
      refine ⟨?_, ?_⟩ <;> rintro rfl <;> exact absurd hc (by decide)
    rw [segments_of_cons hstay, if_neg hne.1, if_pos hne.2]

theorem segments_space {w : Bytes} (hw : Space w) (s : Bytes) : segments (w ++ s) = segments s := by
  induction w with
  | nil => rfl
  | cons c w ih =>
    have hcw := List.forall_mem_cons.1 hw
    rw [List.cons_append, segments_skip (List.mem_cons_of_mem _ hcw.1), ih hcw.2]

theorem segments_close (s : Bytes) : segments (0x5d :: s) = [] := by
  rw [segments_of_cons (List.dropWhile_cons_of_neg (by decide)), if_pos rfl]

theorem segments_object {t : Bytes} (ht : Spaced t) (hhead : t.head? = some 0x7b) (s : Bytes) :
    segments (t ++ s) = t :: segments s := by
  have hobj : object_at (t ++ s) = t := by rw [object_at, to_closing_brace_object ht hhead, Option.getD_some]
  obtain ⟨x, hx, -⟩ := spaced_object ht hhead
  have hstay : (t ++ s).dropWhile (fun c => Separator c) = 0x7b :: (x ++ [0x7d] ++ s) := by
    rw [hx]
    exact List.dropWhile_cons_of_neg (by decide)
  have hcons : 0x7b :: (x ++ [0x7d] ++ s) = t ++ s := by rw [hx]; rfl
  rw [segments_of_cons hstay, if_neg (by decide), if_neg (by decide), hcons, hobj, List.drop_left]

theorem segments_item {i : Item} (hs : i.Spaces) (hv : Spaced i.value ∧ i.value.head? = some 0x7b) (s : Bytes) :
    segments (i.text ++ s) = i.value :: segments s := by
  rw [Item.text, List.append_assoc, segments_space hs.1, List.append_assoc, segments_object hv.1 hv.2,
    segments_space hs.2]

/-- The source of an array's elements, without its brackets. -/
inductive ObjectArray : Bytes → List Bytes → Prop
  | empty (w : Bytes) (hw : Space w) : ObjectArray w []
  | elements (is : List Item) (hs : ∀ i ∈ is, i.Spaces) (hv : ∀ i ∈ is, Spaced i.value ∧ i.value.head? = some 0x7b) :
    ObjectArray (Json.comma.intercalate (is.map Item.text)) (is.map Item.value)

/-- The objects of the walk are the elements, and it ends at the bracket of the array. -/
theorem segments_array {t : Bytes} {objs : List Bytes} (h : ObjectArray t objs) (rest : Bytes) :
    segments (t ++ 0x5d :: rest) = objs := by
  cases h with
  | empty w hw => rw [segments_space hw, segments_close]
  | elements is hs hv =>
    induction is with
    | nil => exact segments_close rest
    | cons i is ih =>
      rw [List.forall_mem_cons] at hs hv
      have ih := ih hs.2 hv.2
      rw [List.map_cons, List.map_cons]
      cases is with
      | nil =>
        rw [List.map_nil, List.intercalate_singleton, segments_item hs.1 hv.1, segments_close]
        rfl
      | cons j is =>
        rw [List.map_cons, List.intercalate_cons_cons, List.append_assoc, List.append_assoc, segments_item hs.1 hv.1]
        exact congrArg (i.value :: ·) ((segments_skip (by decide) _).trans ih)

/-- What the walk is for. -/
structure WalksGifts (body : Bytes) : Prop where
  in_range : parse_gift_list body ≠ .error out_of_range
  slices : ∃ objs, gift_slices body = .ok objs
  segmented : ∀ t objs rest, find_after (lit "\"gifts\":[") body = some (t ++ 0x5d :: rest) → ObjectArray t objs →
    gift_slices body = .ok objs

theorem walks_gifts (body : Bytes) : WalksGifts body where
  in_range := parse_gift_list_in_range body
  slices := ⟨_, gift_slices_eq body⟩
  segmented := by
    intro t objs rest hfind hobjs
    rw [gift_slices_eq, hfind]
    exact congrArg Except.ok (segments_array hobjs rest)

def id_name : Name := plain_name (lit "id") (by decide)
def name_name : Name := plain_name (lit "name") (by decide)
def icon_name : Name := plain_name (lit "icon") (by decide)

/-- A gift with braces, a bracket and an escaped quote in its name, and with objects in its icon. -/
def nested_gift : Doc :=
  .object [(name_name.pieces, .string ((plain_name (lit "\x7d") (by decide)).pieces ++
      escaped_quote :: (plain_name (lit "]\x7b") (by decide)).pieces)),
    (icon_name.pieces, .object [(id_name.pieces, .object [])])]

def gifts_with_nested : Bytes :=
  lit "\x7b\"gifts\":[ " ++ nested_gift.text ++ lit ",\n\x7b\x7d ],\"more\":[\x7b\x7d]\x7d"

theorem walks_gifts_nested :
    nested_gift.text = lit "\x7b\"name\":\"\x7d\\\"]\x7b\",\"icon\":\x7b\"id\":\x7b\x7d\x7d\x7d" ∧
    gift_slices gifts_with_nested = .ok [nested_gift.text, lit "\x7b\x7d"] := by
  let items : List Item := [⟨[0x20], nested_gift.text, []⟩, ⟨[0x0a], (Doc.object []).text, [0x20]⟩]
  have hspaces : ∀ i ∈ items, i.Spaces := by
    unfold Item.Spaces Space
    decide +kernel
  have hobjects : ∀ i ∈ items, Spaced i.value ∧ i.value.head? = some 0x7b := by
    intro i hi
    rcases List.mem_pair.1 hi with rfl | rfl
    · exact ⟨nested_gift.spaced, rfl⟩
    · exact ⟨(Doc.object []).spaced, rfl⟩
  have hfind : find_after (lit "\"gifts\":[") gifts_with_nested =
      some (0x20 :: nested_gift.text ++ lit ",\n\x7b\x7d " ++ 0x5d :: lit ",\"more\":[\x7b\x7d]\x7d") := by
    decide +kernel
  refine ⟨by decide +kernel, ?_⟩
  exact (walks_gifts gifts_with_nested).segmented _ _ _ hfind (.elements items hspaces hobjects)

end TtLive
