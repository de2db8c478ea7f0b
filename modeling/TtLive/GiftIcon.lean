import TtLive.DocFields
import TtLive.GiftWalk
import TtLive.JsonUnescape

/-!
# The icon of a gift

`icon_url` decodes what stands between the next two quotes behind the bracket of the first `"url_list":[` in the
icon object, wherever the list ends and whether or not the second quote is escaped. `gift_icon_iff` says when this is
the first string of the icon's own list.
-/

namespace TtLive
open Search Json

/-! ### Between two quotes -/

/-- What stands between the first two quotes of a text. -/
def between_quotes (s : Bytes) : Option Bytes :=
  (find_after [0x22] s).bind fun u => if 0x22 ∈ u then some (u.takeWhile (· ≠ 0x22)) else none

theorem between_quotes_none {s : Bytes} (h : 0x22 ∉ s) : between_quotes s = none := by
  rw [between_quotes, find_after_mark_none.2 h]
  rfl

theorem between_quotes_some {x a : Bytes} (hx : 0x22 ∉ x) (ha : 0x22 ∉ a) (y : Bytes) :
    between_quotes (x ++ 0x22 :: (a ++ 0x22 :: y)) = some a := by
  rw [between_quotes, find_after_mark.2 ⟨x, hx, rfl⟩]
  show (if _ then _ else _) = _
  rw [if_pos (by simp), takeWhile_mark ha]

theorem between_quotes_quiet {x : Bytes} (hx : 0x22 ∉ x) (s : Bytes) : between_quotes (x ++ s) = between_quotes s := by
  rw [between_quotes, find_after_append hx, between_quotes]

/-- The slice between a quote and the next one. -/
theorem substr_quoted {s : Bytes} {q0 q1 : Nat} (h : find s [0x22] (q0 + 1) = some q1) :
    substr s (q0 + 1) (q1 - q0 - 1) = .ok ((s.drop (q0 + 1)).takeWhile (· ≠ 0x22)) := by
  obtain ⟨hle, hlen, -, hnext⟩ := find_eq_some (by decide) h
  obtain ⟨a, ha, hsplit⟩ := find_after_mark.1 hnext
  rw [List.length_singleton] at hlen hsplit
  have hcount : a.length = q1 - q0 - 1 := by
    have := congrArg List.length hsplit
    rw [List.length_drop, List.length_append, List.length_cons, List.length_drop] at this
    omega
  rw [substr_eq (by omega), ← hcount, hsplit, List.take_left, takeWhile_mark ha]

/-- The two searches and the slice, without positions. -/
theorem quoted_from_eq (s : Bytes) (pos : Nat) :
    quoted_from s pos = (between_quotes (s.drop pos)).elim (.ok []) json_unescape := by
  unfold quoted_from
  cases h0 : find s [0x22] pos with
  | none => rw [between_quotes, find_eq_none.1 h0]; rfl
  | some q0 =>
    obtain ⟨-, -, -, hfind⟩ := find_eq_some (by decide) h0
    rw [between_quotes, hfind]
    dsimp only [Option.bind_some, List.length_singleton]
    cases h1 : find s [0x22] (q0 + 1) with
    | none => rw [if_neg (find_after_mark_none.1 (find_eq_none.1 h1))]; rfl
    | some q1 =>
      have hmem : 0x22 ∈ s.drop (q0 + 1) := by
        by_contra hno
        rw [find_eq_none.2 (find_after_mark_none.2 hno)] at h1
        cases h1
      rw [if_pos hmem]
      show (substr s (q0 + 1) (q1 - q0 - 1) >>= json_unescape) = json_unescape _
      rw [substr_quoted h1, ok_bind]

theorem icon_url_eq (obj : Bytes) :
    icon_url obj = (find_after (lit "\"url_list\":[") (json_object_field obj (lit "icon"))).elim (.ok []) fun s =>
      (between_quotes s).elim (.ok []) json_unescape := by
  unfold icon_url
  rw [object_field_eq, ok_bind]
  generalize json_object_field obj (lit "icon") = icon_obj
  cases hf : find icon_obj (lit "\"url_list\":[") 0 with
  | none =>
    rw [find_eq_none, List.drop_zero] at hf
    rw [hf]
    rfl
  | some ul =>
    obtain ⟨-, -, hat, hfind⟩ := find_eq_some (by decide) hf
    rw [List.drop_zero] at hfind
    rw [hfind]
    show quoted_from icon_obj (ul + 11) = _
    generalize icon_obj.drop (ul + (lit "\"url_list\":[").length) = s at hat
    -- the searches begin at the bracket
    have hbracket : icon_obj.drop (ul + 11) = [0x5b] ++ s := by
      rw [← List.drop_drop, hat]
      rfl
    rw [quoted_from_eq, hbracket, between_quotes_quiet (by decide)]
    rfl

/-! ### Strings that are cut at an escaped quote -/

def EscapedQuote (p : Piece) : Prop := p.text = [0x5c, 0x22]

instance (p : Piece) : Decidable (EscapedQuote p) := inferInstanceAs (Decidable (_ = _))

/-- A string as far as its first escaped quote, with the backslash in front of that. -/
def cut : List Piece → Bytes
  | [] => []
  | p :: ps => if EscapedQuote p then [0x5c] else p.text ++ cut ps

/-- What is decoded of it. -/
def picked : List Piece → Bytes
  | [] => []
  | p :: ps => if EscapedQuote p then [0x5c] else unescaped p ++ picked ps

theorem json_unescape_cut (ps : List Piece) : json_unescape (cut ps) = .ok (picked ps) := by
  induction ps with
  | nil => rfl
  | cons p ps ih =>
    rw [cut, picked]
    by_cases hp : EscapedQuote p
    · rw [if_pos hp, if_pos hp]
      rfl
    · rw [if_neg hp, if_neg hp, json_unescape_piece, ih]
      rfl

theorem no_quote_of_not_escaped {p : Piece} (h : ¬ EscapedQuote p) : 0x22 ∉ p.text := by
  rcases p.shape with ⟨c, hp, hc⟩ | ⟨c, x, hp, hx, hplain⟩
  · rw [hp]
    simpa using hc.2.1.symm
  · have hne : c ≠ 0x22 := fun hc => h (by rw [EscapedQuote, hp, hc, hx hc])
    rw [hp, List.mem_cons, List.mem_cons, not_or, not_or]
    exact ⟨by decide, hne.symm, fun hmem => (hplain _ hmem).1 rfl⟩

/-- Up to the next quote, a string and what follows it give the cut string. -/
theorem body_cut (ps : List Piece) (y : Bytes) :
    0x22 ∉ cut ps ∧ ∃ y', body ps ++ 0x22 :: y = cut ps ++ 0x22 :: y' := by
  induction ps with
  | nil => exact ⟨by decide, y, rfl⟩
  | cons p ps ih =>
    rw [cut, body_cons]
    by_cases hp : EscapedQuote p
    · rw [if_pos hp, hp]
      exact ⟨by decide, body ps ++ 0x22 :: y, rfl⟩
    · obtain ⟨hno, y', hy⟩ := ih
      rw [if_neg hp, List.mem_append, not_or]
      exact ⟨⟨no_quote_of_not_escaped hp, hno⟩, y', by rw [List.append_assoc, hy, List.append_assoc]⟩

theorem unescaped_append_ne (qs : List Piece) (h : 0x22 ∈ [0x22, 0x5c, 0x2f, 0x62, 0x66, 0x6e, 0x72, 0x74])
    (rs : List Piece) : qs.flatMap unescaped ++ [0x5c] ≠ decode (qs ++ .short 0x22 h :: rs) := by
  have hlen : [0x5c].length ≤ (short_char 0x22 :: decode rs).length := by simp
  rw [decode_short_append]
  intro heq
  have hlast := ((append_eq_iff (unescaped_decode qs).1 hlen).2.1 heq).2
  exact absurd (List.cons.inj hlast).1 (by decide)

theorem escapedQuote_eq {p : Piece} (h : EscapedQuote p) : ∃ h, p = .short 0x22 h := by
  cases p with
  | plain c hc => exact absurd (congrArg List.length h) (by simp [Piece.text])
  | short c hc =>
    have hq : c = 0x22 := by simpa [EscapedQuote, Piece.text] using h
    subst hq
    exact ⟨hc, rfl⟩
  | unicode a b c d hx => exact absurd (congrArg List.length h) (by simp [Piece.text])

/-- A string is decoded as it is, or up to an escaped quote and with a backslash at the end. -/
theorem picked_eq (ps : List Piece) : (∀ p ∈ ps, ¬ EscapedQuote p) ∧ picked ps = ps.flatMap unescaped ∨
    (∃ p ∈ ps, EscapedQuote p) ∧
      ∃ qs h rs, ps = qs ++ .short 0x22 h :: rs ∧ picked ps = qs.flatMap unescaped ++ [0x5c] := by
  induction ps with
  | nil => exact .inl ⟨nofun, rfl⟩
  | cons p ps ih =>
    rw [picked]
    by_cases hp : EscapedQuote p
    · obtain ⟨h, rfl⟩ := escapedQuote_eq hp
      rw [if_pos hp]
      exact .inr ⟨⟨_, .head _, hp⟩, [], h, ps, rfl, rfl⟩
    · rw [if_neg hp, List.forall_mem_cons, List.flatMap_cons]
      rcases ih with ⟨hall, heq⟩ | ⟨⟨q, hq, hesc⟩, qs, h, rs, hps, heq⟩
      · exact .inl ⟨⟨hp, hall⟩, by rw [heq]⟩
      · refine .inr ⟨⟨q, .tail _ hq, hesc⟩, p :: qs, h, rs, by rw [hps]; rfl, ?_⟩
        rw [heq, List.flatMap_cons, List.append_assoc]

/-- What is picked is the string if it has no escaped quote and no other escape that is not handled. -/
theorem picked_decode (ps : List Piece) : picked ps = decode ps ↔ ∀ p ∈ ps, ¬ EscapedQuote p ∧ HandledEscape p := by
  rw [forall₂_and]
  rcases picked_eq ps with ⟨hall, heq⟩ | ⟨⟨q, hq, hesc⟩, qs, h, rs, hps, heq⟩
  · rw [heq, (unescaped_decode ps).2]
    exact (and_iff_right hall).symm
  · refine ⟨fun hdec => ?_, fun hall => absurd hesc (hall.1 q hq)⟩
    rw [heq, hps] at hdec
    exact absurd hdec (unescaped_append_ne qs h rs)

/-! ### The next quoted text of a document -/

/-- The next quoted text, as far as it has any, is read as `v`. -/
def NextReads (t v : Bytes) : Prop :=
  (0x22 ∉ t ∧ v = []) ∨ ∃ x ps y, t = x ++ 0x22 :: (body ps ++ 0x22 :: y) ∧ 0x22 ∉ x ∧ picked ps = v

def Quoted (t : Bytes) : Prop := ∃ v, NextReads t v

theorem between_quotes_reads {t v : Bytes} (h : NextReads t v) :
    (between_quotes t).elim (.ok []) json_unescape = .ok v := by
  rcases h with ⟨hno, rfl⟩ | ⟨x, ps, y, rfl, hx, rfl⟩
  · rw [between_quotes_none hno]
    rfl
  · obtain ⟨hno, y', hy⟩ := body_cut ps y
    rw [hy, between_quotes_some hx hno]
    exact json_unescape_cut ps

theorem reads_iff {t : Bytes} (h : Quoted t) (v : Bytes) :
    (between_quotes t).elim (.ok []) json_unescape = .ok v ↔ NextReads t v := by
  refine ⟨fun heq => ?_, between_quotes_reads⟩
  obtain ⟨w, hw⟩ := h
  rw [between_quotes_reads hw] at heq
  rw [← Except.ok.inj heq]
  exact hw

theorem quoted_quiet {t : Bytes} (h : 0x22 ∉ t) : Quoted t := ⟨[], .inl ⟨h, rfl⟩⟩

theorem quoted_here (ps : List Piece) (y : Bytes) : Quoted (0x22 :: (body ps ++ 0x22 :: y)) :=
  ⟨picked ps, .inr ⟨[], ps, y, rfl, by decide, rfl⟩⟩

/-- A piece of a text behind which a quoted text may follow. -/
def Quotes (x : Bytes) : Prop := ∀ t, Quoted t → Quoted (x ++ t)

theorem quotes_quiet {x : Bytes} (hx : 0x22 ∉ x) : Quotes x := by
  rintro t ⟨v, ⟨hno, rfl⟩ | ⟨a, ps, y, rfl, ha, rfl⟩⟩
  · refine quoted_quiet ?_
    rw [List.mem_append, not_or]
    exact ⟨hx, hno⟩
  · refine ⟨picked ps, .inr ⟨x ++ a, ps, y, (List.append_assoc _ _ _).symm, ?_, rfl⟩⟩
    rw [List.mem_append, not_or]
    exact ⟨hx, ha⟩

theorem Quotes.append {x y : Bytes} (hx : Quotes x) (hy : Quotes y) : Quotes (x ++ y) := by
  intro t ht
  rw [List.append_assoc]
  exact hx _ (hy t ht)

theorem quotes_string (ps : List Piece) (y : Bytes) : Quotes (0x22 :: body ps ++ 0x22 :: y) := by
  intro t _
  rw [List.append_assoc]
  exact quoted_here ps (y ++ t)

theorem quotes_intercalate {xs : List Bytes} (h : ∀ x ∈ xs, Quotes x) : Quotes (Json.comma.intercalate xs) :=
  intercalate_closed (quotes_quiet (by decide)) (quotes_quiet (by decide)) Quotes.append h

theorem quotes_continued {xs : List Bytes} (h : ∀ x ∈ xs, Quotes x) : Quotes (continued xs) := by
  cases xs with
  | nil => exact quotes_quiet (by decide)
  | cons x xs => exact (quotes_quiet (x := [0x2c]) (by decide)).append (quotes_intercalate h)

theorem quotes_member (m : Member) : Quotes (docMemberText m) := quotes_string m.1 (0x3a :: m.2.text)

theorem quotes_doc (d : Doc) : Quotes d.text := by
  induction d using Doc.ind with
  | null => exact quotes_quiet (by decide)
  | bool b => cases b <;> exact quotes_quiet (by decide)
  | number n => exact quotes_quiet fun h => (n.number_char h).elim (by decide) (by decide)
  | string ps => exact quotes_string ps []
  | array ds ih =>
    rw [Doc.text_array]
    exact ((quotes_quiet (x := [0x5b]) (by decide)).append (quotes_intercalate (List.forall_mem_map.2 ih))).append
      (quotes_quiet (by decide))
  | object ms ih =>
    rw [Doc.text_object]
    exact ((quotes_quiet (x := [0x7b]) (by decide)).append
      (quotes_intercalate (List.forall_mem_map.2 fun m _ => quotes_member m))).append (quotes_quiet (by decide))

theorem quotes_docs (ds : List Doc) : Quotes (continued (docTexts ds)) := by
  rw [docTexts_eq]
  exact quotes_continued (List.forall_mem_map.2 fun d _ => quotes_doc d)

theorem quotes_members (ms : List Member) : Quotes (continued (docMemberTexts ms)) := by
  rw [docMemberTexts_eq]
  exact quotes_continued (List.forall_mem_map.2 fun m _ => quotes_member m)

/-- Behind a member, too, the next quote opens a string or a name. -/
theorem quotes_sites (d : Doc) : ∀ s ∈ d.sites, Quotes s.2 :=
  Doc.forall_sites (quotes_quiet (by decide)) (fun _ hs => hs.append (quotes_quiet (by decide)))
    (fun _ hs => hs.append (quotes_quiet (by decide))) (fun ds _ hs => hs.append (quotes_docs ds))
    (fun ms _ hs => hs.append (quotes_members ms)) d

/-! ### The icon -/

theorem icon_key : NeedleKey (lit "icon") := plain_key (by decide) (by decide) (by decide)

theorem url_list_key : NeedleKey (lit "url_list") := plain_key (by decide) (by decide) (by decide)

/-- The array that is read: the first one named `url_list` in the first object named `icon`. -/
def icon_list (e : Doc) : Option Site :=
  (first_reading e (lit "icon") Doc.isObject).bind fun w => w.sites.find? (hit (lit "url_list") [0x5b])

theorem icon_url_doc (e : Doc) :
    icon_url e.text = (icon_list e).elim (.ok []) fun s =>
      (between_quotes (s.1.2.text ++ s.2)).elim (.ok []) json_unescape := by
  have hneedle : lit "\"url_list\":[" = needle (lit "url_list") [0x5b] := by decide
  rw [icon_url_eq, json_object_field_doc icon_key, hneedle, icon_list]
  cases first_reading e (lit "icon") Doc.isObject with
  | none => rfl
  | some w =>
    show (find_after (needle (lit "url_list") [0x5b]) w.text).elim _ _ = (w.sites.find? _).elim _ _
    rw [@find_after_doc (lit "url_list") [0x5b] url_list_key (Nat.le_refl 1)]
    cases hs : w.sites.find? (hit (lit "url_list") [0x5b]) with
    | none => rfl
    | some s =>
      have hhit := List.find?_some hs
      rw [hit, Bool.and_eq_true, List.isPrefixOf_iff_prefix] at hhit
      obtain ⟨t, ht⟩ := hhit.2
      show (between_quotes ((s.1.2.text ++ s.2).drop 1)).elim (.ok []) json_unescape =
        (between_quotes (s.1.2.text ++ s.2)).elim (.ok []) json_unescape
      rw [← ht, List.append_assoc, between_quotes_quiet (by decide)]
      rfl

/-- The quoted text that is read, if any, is a string or a name of the icon object. -/
theorem quoted_icon_list {e : Doc} {s : Site} (h : icon_list e = some s) :
    Quoted (s.1.2.text ++ s.2) ∧ Quoted s.2 := by
  obtain ⟨w, -, hs⟩ := Option.bind_eq_some_iff.1 h
  have hbehind : Quoted s.2 := by
    have hq := quotes_sites w s (List.mem_of_find?_eq_some hs) [] (quoted_quiet (by decide))
    rw [List.append_nil] at hq
    exact hq
  exact ⟨quotes_doc s.1.2 s.2 hbehind, hbehind⟩

theorem icon_url_ok (e : Doc) : ∃ url, icon_url e.text = .ok url := by
  rw [icon_url_doc]
  cases hs : icon_list e with
  | none => exact ⟨[], rfl⟩
  | some s =>
    obtain ⟨v, hv⟩ := (quoted_icon_list hs).1
    exact ⟨v, between_quotes_reads hv⟩

/-- The value of `url_list` in the object that is the first member named `icon`. -/
def own_list (e : Doc) : Option Doc := (e.first_named (lit "icon")).bind fun w => w.own (lit "url_list")

def first_decoded : List (List Piece) → Bytes
  | [] => []
  | y :: _ => decode y

/-- The list has a first string that is decoded as a whole, or none, and what comes next reads as nothing. -/
def OwnListRead : List (List Piece) → Bytes → Prop
  | [], behind => NextReads behind []
  | y :: _, _ => ∀ p ∈ y, ¬ EscapedQuote p ∧ HandledEscape p

/-- The list that is read is the icon's own. Or else the same happens to be read elsewhere. -/
def IconRead (e : Doc) (ys : List (List Piece)) : Prop :=
  (icon_list e).elim (first_decoded ys = []) fun s =>
    own_list e = some s.1.2 ∧ OwnListRead ys s.2 ∨
      own_list e ≠ some s.1.2 ∧ NextReads (s.1.2.text ++ s.2) (first_decoded ys)

theorem empty_list_iff {s : Site} (h : Quoted s.2) (hs : s.1.2 = .array []) :
    (between_quotes (s.1.2.text ++ s.2)).elim (.ok []) json_unescape = .ok [] ↔ NextReads s.2 [] := by
  have htext : s.1.2.text = [0x5b, 0x5d] := by rw [hs]; rfl
  rw [htext, between_quotes_quiet (by decide), reads_iff h]

theorem first_string_iff {s : Site} {y : List Piece} {zs : List (List Piece)}
    (hs : s.1.2 = .array ((y :: zs).map .string)) :
    (between_quotes (s.1.2.text ++ s.2)).elim (.ok []) json_unescape = .ok (decode y) ↔
      ∀ p ∈ y, ¬ EscapedQuote p ∧ HandledEscape p := by
  have htext : ∃ t, s.1.2.text ++ s.2 = [0x5b] ++ 0x22 :: (body y ++ 0x22 :: t) := by
    rw [hs, Doc.text_array]
    cases zs with
    | nil => exact ⟨0x5d :: s.2, by simp [Doc.text]⟩
    | cons z zs =>
      refine ⟨comma ++ Json.comma.intercalate (((z :: zs).map .string).map Doc.text) ++ [0x5d] ++ s.2, ?_⟩
      rw [List.map_cons, List.map_cons, List.map_cons, List.map_cons, List.intercalate_cons_cons]
      simp [Doc.text]
  obtain ⟨t, ht⟩ := htext
  have hread : NextReads (s.1.2.text ++ s.2) (picked y) := .inr ⟨[0x5b], y, t, ht, by decide, rfl⟩
  rw [between_quotes_reads hread, Except.ok.injEq, picked_decode]

/-- The icon is the first string of the icon's own list, or empty if there is none. -/
theorem gift_icon_iff {e : Doc} {ys : List (List Piece)} (h : own_list e = some (.array (ys.map .string))) :
    icon_url e.text = .ok (first_decoded ys) ↔ IconRead e ys := by
  rw [icon_url_doc, IconRead]
  cases hs : icon_list e with
  | none => exact ⟨fun heq => (Except.ok.inj heq).symm, fun hnil => congrArg Except.ok hnil.symm⟩
  | some s =>
    obtain ⟨hquoted, hbehind⟩ := quoted_icon_list hs
    show (between_quotes (s.1.2.text ++ s.2)).elim (.ok []) json_unescape = .ok (first_decoded ys) ↔ _ ∨ _
    by_cases hown : own_list e = some s.1.2
    · have harray : s.1.2 = .array (ys.map .string) := Option.some.inj (hown.symm.trans h)
      have hread : own_list e = some s.1.2 ∧ OwnListRead ys s.2 ∨
          own_list e ≠ some s.1.2 ∧ NextReads (s.1.2.text ++ s.2) (first_decoded ys) ↔ OwnListRead ys s.2 :=
        ⟨fun hr => hr.elim (·.2) fun hne => absurd hown hne.1, fun hr => .inl ⟨hown, hr⟩⟩
      rw [hread]
      cases ys with
      | nil => exact empty_list_iff hbehind harray
      | cons y zs => exact first_string_iff harray
    · rw [reads_iff hquoted]
      exact ⟨fun hr => .inr ⟨hown, hr⟩, fun hr => hr.elim (fun hl => absurd hl.1 hown) (·.2)⟩

def url_list_name : Name := plain_name (lit "url_list") (by decide)
def uri_name : Name := plain_name (lit "uri") (by decide)

def digit_value (c : UInt8) (h : Digit c) : Value :=
  .number ⟨false, ⟨[c], by simp, by simpa using h⟩, by simp, none, none⟩

def one_value : Value := digit_value 0x31 (by decide)
def a_string : Value := .string [.plain 0x61 (by decide)]

/-- `{"id":1,"icon":{"uri":null,"url_list":["a"]}}`. -/
def gift_with_icon : Doc :=
  (Value.object [(id_name, one_value), (icon_name, .object [(uri_name, .null),
    (url_list_name, .array [a_string])])]).doc

theorem icon_of_gift : icon_url gift_with_icon.text = .ok (lit "a") :=
  (@gift_icon_iff gift_with_icon [[.plain 0x61 (by decide)]] rfl).2
    (.inl ⟨rfl, List.forall_mem_singleton.2 ⟨by decide, trivial⟩⟩)

/-- `{"id":1,"icon":{"url_list":[],"uri":null}}`. -/
def gift_without_url : Doc :=
  (Value.object [(id_name, one_value),
    (icon_name, .object [(url_list_name, .array []), (uri_name, .null)])]).doc

/-- An empty list gives the gift the icon `uri`. -/
theorem empty_list_reads_on : ¬ ∀ (e : Doc) (ys : List (List Piece)), own_list e = some (.array (ys.map .string)) →
    icon_url e.text = .ok (first_decoded ys) := by
  intro hall
  have hicon := hall gift_without_url [] rfl
  exact absurd hicon (by decide +kernel)

end TtLive
