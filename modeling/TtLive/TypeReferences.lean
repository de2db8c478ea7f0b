import TtLive.GenProto

/-!
# The type that an annotation names

`nested_type_name` replaces quotes, wrappers and dots in the text of an annotation and takes the last word that is a
class. Where the class stands alone or behind a dot, a blank or an opening wrapper, and only closing brackets, bars,
blanks and `None` follow, that word is the class: none of the replacements joins what it leaves to a neighbour.
-/

namespace TtLive.gen_proto
open Proto3

/-! ### Replacing in parts -/

section
variable {old new a b : Text}

/-- No occurrence of `old` begins in `a` and ends behind it. -/
def Apart (old a b : Text) : Prop := ∀ u v, a = u ++ v → v ≠ [] → v.length < old.length → ¬ old <+: v ++ b

theorem replace_append (h : Apart old a b) (skip : Nat) (hskip : skip ≤ a.length) :
    replace old new skip (a ++ b) = replace old new skip a ++ replace old new 0 b := by
  induction a generalizing skip with
  | nil =>
    obtain rfl : skip = 0 := by simpa using hskip
    rcases b with _ | ⟨c, b⟩ <;> simp [replace]
  | cons c a ih =>
    have hrest : Apart old a b := fun u v ha => h (c :: u) v (by rw [ha]; rfl)
    rcases skip with _ | skip
    · rw [List.cons_append, replace, replace]
      by_cases hpre : old <+: c :: a
      · have hlen := hpre.length_le
        have hpre' : old <+: c :: (a ++ b) := hpre.trans (List.prefix_append (c :: a) b)
        rw [if_pos hpre, if_pos hpre', ih hrest _ (by simp at hlen; omega), List.append_assoc]
      · have hpre' : ¬ old <+: c :: (a ++ b) := by
          intro hp
          by_cases hlen : (c :: a).length < old.length
          · exact h [] (c :: a) rfl (by simp) hlen hp
          · exact hpre (List.prefix_of_prefix_length_le hp (List.prefix_append (c :: a) b) (by omega))
        rw [if_neg hpre, if_neg hpre', ih hrest 0 (Nat.zero_le _), List.cons_append]
    · rw [List.cons_append, replace, replace, ih hrest skip (by simpa using hskip)]

theorem replace_eq_self (h : ¬ old <:+: a) : replace old new 0 a = a := by
  induction a with
  | nil => rfl
  | cons c a ih =>
    rw [replace, if_neg fun hp => h hp.isInfix, ih fun hi => h (hi.trans (List.suffix_cons c a).isInfix)]

theorem apart_nil_right (old a : Text) : Apart old a [] := by
  intro u v _ _ hlen hp
  rw [List.append_nil] at hp
  exact absurd hp.length_le (by omega)

/-- No later part of `t` begins with `e`, or begins `e`. -/
def Starts (t e : Text) : Prop :=
  e ≠ [] ∧ ∀ k < t.length, 0 < k → ¬ t.drop k <+: e ∧ ¬ e <+: t.drop k

/-- No earlier part of `t` ends with `e`, or ends `e`. -/
def Ends (t e : Text) : Prop :=
  e ≠ [] ∧ ∀ k < t.length, 0 < k → ¬ t.take k <:+ e ∧ ¬ e <:+ t.take k

instance (t e : Text) : Decidable (Starts t e) :=
  inferInstanceAs (Decidable (e ≠ [] ∧ ∀ k < t.length, 0 < k → ¬ t.drop k <+: e ∧ ¬ e <+: t.drop k))

instance (t e : Text) : Decidable (Ends t e) :=
  inferInstanceAs (Decidable (e ≠ [] ∧ ∀ k < t.length, 0 < k → ¬ t.take k <:+ e ∧ ¬ e <:+ t.take k))

theorem Starts.apart {t e : Text} (h : Starts t e) (a rest : Text) : Apart t a (e ++ rest) := by
  intro u v _ hv hlen hp
  have hvt : v <+: t := List.prefix_of_prefix_length_le (List.prefix_append v _) hp hlen.le
  obtain ⟨w, rfl⟩ := hvt
  have hw : w <+: e ++ rest := (List.prefix_append_right_inj v).1 hp
  have hk := h.2 v.length (by simpa using hlen) (List.length_pos_iff.2 hv)
  rw [List.drop_left] at hk
  rcases List.prefix_or_prefix_of_prefix hw (List.prefix_append e rest) with hwe | hew
  · exact hk.1 hwe
  · exact hk.2 hew

theorem Ends.apart {t e : Text} (h : Ends t e) (p b : Text) : Apart t (p ++ e) b := by
  intro u v hsplit hv hlen hp
  have hvt : v <+: t := List.prefix_of_prefix_length_le (List.prefix_append v _) hp hlen.le
  obtain ⟨w, rfl⟩ := hvt
  have hk := h.2 v.length (by simpa using hlen) (List.length_pos_iff.2 hv)
  rw [List.take_left] at hk
  rcases List.suffix_or_suffix_of_suffix (⟨u, hsplit.symm⟩ : v <:+ p ++ e) (List.suffix_append p e) with hve | hev
  · exact hk.1 hve
  · exact hk.2 hev

/-- What is kept of a text was there before, as long as it has no blank. -/
theorem prefix_of_prefix_replace {w s : Text} (hw : ' ' ∉ w) (h : w <+: replace old [' '] 0 s) : w <+: s := by
  induction w generalizing s with
  | nil => exact List.nil_prefix
  | cons d w ih =>
    rw [List.mem_cons, not_or] at hw
    rcases s with _ | ⟨c, s⟩
    · simp [replace] at h
    · rw [replace] at h
      split at h
      · exact absurd (List.cons_prefix_cons.1 h).1.symm hw.1
      · obtain ⟨hd, htail⟩ := List.cons_prefix_cons.1 h
        exact List.cons_prefix_cons.2 ⟨hd, ih hw.2 htail⟩

theorem infix_of_infix_replace {w s : Text} (hne : w ≠ []) (hw : ' ' ∉ w) {skip : Nat}
    (h : w <:+: replace old [' '] skip s) : w <:+: s := by
  induction s generalizing skip with
  | nil => simpa [replace] using h
  | cons c s ih =>
    rcases skip with _ | skip
    · rw [replace] at h
      split at h
      · rcases List.infix_cons_iff.1 h with hp | hi
        · obtain ⟨d, w, rfl⟩ := List.exists_cons_of_ne_nil hne
          exact absurd (by rw [(List.cons_prefix_cons.1 hp).1]; simp) hw
        · exact (ih hi).trans (List.suffix_cons c s).isInfix
      · next hnot =>
        have hall : replace old [' '] 0 (c :: s) = c :: replace old [' '] 0 s := by rw [replace, if_neg hnot]
        rcases List.infix_cons_iff.1 h with hp | hi
        · exact (prefix_of_prefix_replace hw (hall ▸ hp)).isInfix
        · exact (ih hi).trans (List.suffix_cons c s).isInfix
    · rw [replace] at h
      exact (ih h).trans (List.suffix_cons c s).isInfix

/-- No occurrence is left. -/
theorem not_infix_replace {s : Text} (hne : old ≠ []) (hold : ' ' ∉ old) (skip : Nat) :
    ¬ old <:+: replace old [' '] skip s := by
  induction s generalizing skip with
  | nil => simpa [replace] using hne
  | cons c s ih =>
    rcases skip with _ | skip
    · intro h
      rw [replace] at h
      split at h
      · rcases List.infix_cons_iff.1 h with hp | hi
        · obtain ⟨d, w, rfl⟩ := List.exists_cons_of_ne_nil hne
          exact hold (by rw [(List.cons_prefix_cons.1 hp).1]; simp)
        · exact ih _ hi
      · next hnot =>
        have hall : replace old [' '] 0 (c :: s) = c :: replace old [' '] 0 s := by rw [replace, if_neg hnot]
        rcases List.infix_cons_iff.1 h with hp | hi
        · exact hnot (prefix_of_prefix_replace hold (hall ▸ hp))
        · exact ih 0 hi
    · rw [replace]
      exact ih skip

end

/-! ### The replacements of an annotation -/

/-- The tokens that are replaced by a blank, in their order. -/
def tokens : List Text := wrappers ++ [['.']]

/-- What may stand before and behind the name of a class. -/
def separators : List Text := [" ", ".", "|", "]", "None", "Optional[", "list[", "List["].map String.toList

def blank (ts : List Text) (s : Text) : Text := ts.foldl (fun s token => replace token [' '] 0 s) s

theorem token_spec : ∀ t ∈ tokens, ∀ e ∈ separators,
    Starts t e ∧ Ends t e ∧ replace t [' '] 0 e ∈ separators := by decide

theorem blank_separator : ∀ e ∈ separators, blank tokens e = [' '] := by decide

section
variable {t x : Text}

/-- Separators are replaced one by one. -/
theorem replace_separators (ht : t ∈ tokens) (es : List Text) (hes : ∀ e ∈ es, e ∈ separators) :
    replace t [' '] 0 es.flatten = (es.map (replace t [' '] 0)).flatten := by
  induction es with
  | nil => rfl
  | cons e es ih =>
    have hapart : Apart t e es.flatten := by
      rcases es with _ | ⟨e', es⟩
      · exact apart_nil_right t e
      · exact (token_spec t ht e' (hes e' (by simp))).1.apart e es.flatten
    rw [List.flatten_cons, replace_append hapart 0 (Nat.zero_le _), ih fun e' he' => hes e' (by simp [he'])]
    rfl

/-- A name that no token occurs in keeps its place before separators. -/
theorem replace_name (ht : t ∈ tokens) (hx : ¬ t <:+: x) (es : List Text) (hes : ∀ e ∈ es, e ∈ separators) :
    replace t [' '] 0 (x ++ es.flatten) = x ++ (es.map (replace t [' '] 0)).flatten := by
  have hapart : Apart t x es.flatten := by
    rcases es with _ | ⟨e, es⟩
    · exact apart_nil_right t x
    · exact (token_spec t ht e (hes e (by simp))).1.apart x es.flatten
  rw [replace_append hapart 0 (Nat.zero_le _), replace_eq_self hx, replace_separators ht es hes]

/-- And behind one. -/
theorem replace_behind (ht : t ∈ tokens) (p y : Text) {e : Text} (he : e ∈ separators) :
    replace t [' '] 0 (p ++ e ++ y) = replace t [' '] 0 p ++ replace t [' '] 0 e ++ replace t [' '] 0 y := by
  obtain ⟨hstarts, hends, -⟩ := token_spec t ht e he
  have hpe : Apart t p e := by simpa using hstarts.apart p []
  rw [replace_append (hends.apart p y) 0 (Nat.zero_le _), replace_append hpe 0 (Nat.zero_le _)]

theorem blank_name {ts : List Text} (hts : ∀ t ∈ ts, t ∈ tokens ∧ ¬ t <:+: x) (es : List Text)
    (hes : ∀ e ∈ es, e ∈ separators) : blank ts (x ++ es.flatten) = x ++ (es.map (blank ts)).flatten := by
  induction ts generalizing es with
  | nil =>
    show x ++ es.flatten = x ++ (es.map id).flatten
    rw [List.map_id]
  | cons t ts ih =>
    obtain ⟨ht, hx⟩ := hts t (by simp)
    have hes' : ∀ e ∈ es.map (replace t [' '] 0), e ∈ separators := fun e he => by
      obtain ⟨e', he', rfl⟩ := List.mem_map.1 he
      exact (token_spec t ht e' (hes e' he')).2.2
    show blank ts (replace t [' '] 0 (x ++ es.flatten)) = _
    rw [replace_name ht hx es hes, ih (fun t' ht' => hts t' (by simp [ht'])) _ hes', List.map_map]
    rfl

theorem blank_behind {ts : List Text} (hts : ∀ t ∈ ts, t ∈ tokens) (p y : Text) {e : Text} (he : e ∈ separators) :
    blank ts (p ++ e ++ y) = blank ts p ++ blank ts e ++ blank ts y := by
  induction ts generalizing p y e with
  | nil => rfl
  | cons t ts ih =>
    have ht := hts t (by simp)
    show blank ts (replace t [' '] 0 (p ++ e ++ y)) = _
    rw [replace_behind ht p y he]
    exact ih (fun t' ht' => hts t' (by simp [ht'])) _ _ (token_spec t ht e he).2.2

end

/-! ### The candidates -/

def unquoted (ann : Text) : Text := replace [apostrophe] [] 0 (replace [quote] [] 0 ann)

theorem candidates_eq (ann : Text) : candidates ann = split (blank tokens (unquoted ann)) := rfl

theorem split_blank (a b : Text) : split (a ++ ' ' :: b) = split a ++ split b := by
  rw [split, List.splitOnP_append_cons _ _ rfl, List.filter_append]
  rfl

theorem split_name {x : Text} (hne : x ≠ []) (hx : ∀ c ∈ x, white_space c = false) (n : Nat) :
    split (x ++ List.replicate n ' ') = [x] := by
  induction n with
  | zero =>
    rw [List.replicate_zero, List.append_nil, split, List.splitOnP_eq_singleton hx]
    simpa using hne
  | succ n ih =>
    rw [List.replicate_succ', ← List.append_assoc, split_blank, ih]
    rfl

theorem infix_of_mem_splitOnP {p : Char → Bool} {s w : Text} (h : w ∈ s.splitOnP p) : w <:+: s := by
  suffices (∀ w ∈ s.splitOnP p, w <:+: s) ∧ ∀ w ∈ (s.splitOnP p).head?, w <+: s from this.1 w h
  clear h
  induction s with
  | nil => simp [List.splitOnP_nil]
  | cons c s ih =>
    obtain ⟨hall, hhead⟩ := ih
    have hcons : s <:+: c :: s := (List.suffix_cons c s).isInfix
    rw [List.splitOnP_cons_eq_if_modifyHead]
    split
    · refine ⟨fun w hw => ?_, fun w hw => ?_⟩
      · rcases List.mem_cons.1 hw with rfl | hw
        · exact List.nil_infix
        · exact (hall w hw).trans hcons
      · obtain rfl : [] = w := by simpa using hw
        exact List.nil_prefix
    · obtain ⟨a, l, hl⟩ := List.exists_cons_of_ne_nil (List.splitOnP_ne_nil p s)
      rw [hl] at hall hhead ⊢
      have ha : c :: a <+: c :: s := List.cons_prefix_cons.2 ⟨rfl, hhead a rfl⟩
      refine ⟨fun w hw => ?_, fun w hw => ?_⟩
      · rcases List.mem_cons.1 hw with rfl | hw
        · exact ha.isInfix
        · exact (hall w (by simp [hw])).trans hcons
      · obtain rfl : c :: a = w := by simpa using hw
        exact ha

/-- A class named in an annotation, alone or behind a separator. -/
def Names (s x : Text) : Prop :=
  ∃ es : List Text, (∀ e ∈ es, e ∈ separators) ∧
    (s = x ++ es.flatten ∨ ∃ p, ∃ e ∈ separators, s = p ++ e ++ (x ++ es.flatten))

theorem not_infix_name {x t : Text} (hx : ident x = true) (hnone : ¬ "None".toList <:+: x) (ht : t ∈ tokens) :
    ¬ t <:+: x := by
  have hbad : ∀ t ∈ tokens, t = "None".toList ∨ t.any (fun c => !(c.isAlphanum || c = '_')) = true := by decide
  intro hi
  rcases hbad t ht with rfl | hany
  · exact hnone hi
  · obtain ⟨c, hc, hcx⟩ := List.any_eq_true.1 hany
    rw [Bool.not_eq_true'] at hcx
    have := List.all_eq_true.1 (Bool.and_eq_true_iff.1 hx).1 c (hi.subset hc)
    rw [hcx] at this
    cases this

theorem white_space_ident {c : Char} (h : (c.isAlphanum || c = '_') = true) : white_space c = false := by
  have hcodes : ∀ n ∈ [0x09, 0x0a, 0x0b, 0x0c, 0x0d, 0x1c, 0x1d, 0x1e, 0x1f, 0x20, 0x85, 0xa0, 0x1680, 0x2000, 0x2001,
      0x2002, 0x2003, 0x2004, 0x2005, 0x2006, 0x2007, 0x2008, 0x2009, 0x200a, 0x2028, 0x2029, 0x202f, 0x205f, 0x3000],
      ((Char.ofNat n).isAlphanum || Char.ofNat n = '_') = false := by decide
  by_contra hwhite
  have hmem := of_decide_eq_true (Bool.eq_true_of_not_eq_false hwhite)
  have := hcodes c.toNat hmem
  rw [Char.ofNat_toNat, h] at this
  cases this

theorem candidates_name {ann x : Text} (hx : ident x = true) (hnone : ¬ "None".toList <:+: x)
    (h : Names (unquoted ann) x) : (candidates ann).getLast? = some x := by
  obtain ⟨es, hes, hform⟩ := h
  have hwhite : ∀ c ∈ x, white_space c = false := fun c hc =>
    white_space_ident (List.all_eq_true.1 (Bool.and_eq_true_iff.1 hx).1 c hc)
  have hne : x ≠ [] := by
    rintro rfl
    cases hx
  have hblank : blank tokens (x ++ es.flatten) = x ++ List.replicate es.length ' ' := by
    rw [blank_name (fun t ht => ⟨ht, not_infix_name hx hnone ht⟩) es hes,
      List.map_congr_left fun e he => blank_separator e (hes e he)]
    simp
  rw [candidates_eq]
  rcases hform with hs | ⟨p, e, he, hs⟩
  · rw [hs, hblank, split_name hne hwhite]
    rfl
  · rw [hs, blank_behind (fun _ ht => ht) _ _ he, blank_separator e he, hblank, List.append_assoc, List.singleton_append,
      split_blank, split_name hne hwhite]
    simp

/-- No candidate has `None` in it: a class with such a name is never found. -/
theorem none_not_infix_candidate {ann w : Text} (h : w ∈ candidates ann) : ¬ "None".toList <:+: w := by
  intro hi
  have hw : w <:+: blank tokens (unquoted ann) := infix_of_mem_splitOnP (List.mem_of_mem_filter h)
  have hdots : "None".toList <:+: replace ['.'] [' '] 0 (replace "None".toList [' '] 0 _) := hi.trans hw
  have hlast := infix_of_infix_replace (by decide) (by decide) hdots
  exact not_infix_replace (by decide) (by decide) 0 hlast

theorem nested_type_name_names {field : DataField} {ann x : Text} {known : List Text}
    (hann : field.type = .text ann) (hx : ident x = true) (hknown : x ∈ known) (hnone : ¬ "None".toList <:+: x)
    (h : Names (unquoted ann) x) : nested_type_name field known = x := by
  obtain ⟨ws, hws⟩ := List.getLast?_eq_some_iff.1 (candidates_name hx hnone h)
  rw [nested_type_name, hann]
  simp [hws, hknown]

/-- A field that names a class is given that class for its type, exactly when `None` is no part of the class's name. -/
theorem nested_type_name_eq_iff {field : DataField} {ann x : Text} {known : List Text}
    (hann : field.type = .text ann) (hx : ident x = true) (hknown : x ∈ known) (h : Names (unquoted ann) x) :
    nested_type_name field known = x ↔ ¬ "None".toList <:+: x := by
  constructor
  · intro heq hi
    rw [nested_type_name, hann] at heq
    dsimp only at heq
    split at heq
    · next cand hfind =>
      have hmem := List.mem_reverse.1 (List.mem_of_find?_eq_some hfind)
      exact none_not_infix_candidate (heq ▸ hmem) hi
    · rcases hlast : (candidates ann).getLast? with _ | last
      · rw [hlast, Option.getD_none] at heq
        exact absurd (heq ▸ hi) (by decide)
      · rw [hlast, Option.getD_some] at heq
        exact none_not_infix_candidate (heq ▸ List.mem_of_getLast? hlast) hi
  · intro hnone
    exact nested_type_name_names hann hx hknown hnone h

theorem nested_type_name_user : nested_type_name
    ⟨"users".toList, .text "Optional[list[models.User]] | None".toList, none⟩ ["User".toList, "Gift".toList] =
      "User".toList :=
  (nested_type_name_eq_iff rfl (by decide) (by decide) ⟨["]", "]", " ", "|", " ", "None"].map String.toList, by decide,
    .inr ⟨"Optional[list[models".toList, ".".toList, by decide, by decide⟩⟩).2 (by decide)

end TtLive.gen_proto
