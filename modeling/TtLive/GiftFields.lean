import TtLive.GiftIcon
import TtLive.NeedleScan
import TtLive.PageFetch

/-!
# The fields of a gift

`read_gift` takes each field from the first member, at any depth, that its scanner stops at. `gift_fields_iff` says,
member by member, when these are the values of the gift's own members.
-/

namespace TtLive
open Search Json Prog

/-! ### What the scanners read -/

theorem id_key : NeedleKey (lit "id") := plain_key (by decide) (by decide) (by decide)
theorem name_key : NeedleKey (lit "name") := plain_key (by decide) (by decide) (by decide)
theorem diamond_count_key : NeedleKey (lit "diamond_count") := plain_key (by decide) (by decide) (by decide)
theorem describe_key : NeedleKey (lit "describe") := plain_key (by decide) (by decide) (by decide)
theorem type_key : NeedleKey (lit "type") := plain_key (by decide) (by decide) (by decide)
theorem gifts_key : NeedleKey (lit "gifts") := plain_key (by decide) (by decide) (by decide)

/-- The string that `json_string_field` finds. -/
def string_reading (d : Doc) (key : Bytes) : Bytes :=
  (first_reading d key Doc.isString).elim [] fun w => w.pieces.flatMap unescaped

theorem json_string_field_ok {key : Bytes} (hk : NeedleKey key) (d : Doc) :
    json_string_field d.text key = .ok (string_reading d key) := by
  rw [json_string_field_doc hk, string_reading]
  cases first_reading d key Doc.isString with
  | none => rfl
  | some w =>
    have hraw : raw_text w = body w.pieces ++ [] := by
      rw [List.append_nil]
      cases w <;> rfl
    show json_unescape (raw_text w) = .ok (w.pieces.flatMap unescaped)
    rw [hraw, json_unescape_body (by rfl : json_unescape [] = .ok []), List.append_nil]

/-- An integer that `json_int_field` reads without an overflow. -/
def Fits (d : Doc) (key : Bytes) : Prop := (int_reading d key).natAbs < 0x8000000000000000

instance (d : Doc) (key : Bytes) : Decidable (Fits d key) := inferInstanceAs (Decidable (_ < _))

theorem int_field_doc {key : Bytes} (hk : NeedleKey key) (d : Doc) :
    int_field d.text key = if Fits d key then .ok (int_reading d key) else .error "signed overflow" := by
  rw [int_field, json_int_field_doc hk]
  by_cases hfits : Fits d key
  · have hlt : (int_reading d key).natAbs < 0x8000000000000000 := hfits
    rw [if_pos hlt, if_pos hfits]
    rfl
  · have hlt : ¬ (int_reading d key).natAbs < 0x8000000000000000 := hfits
    rw [if_neg hlt, if_neg hfits]
    rfl

/-- The gift that is read, but for the icon. -/
def read_fields (e : Doc) : GiftInfo where
  id := int_reading e (lit "id")
  name := string_reading e (lit "name")
  diamond_count := to_int32 (int_reading e (lit "diamond_count"))
  describe := string_reading e (lit "describe")
  type := to_int32 (int_reading e (lit "type"))

/-- The three integers of a gift are read without an overflow. -/
def IntsFit (e : Doc) : Prop := Fits e (lit "id") ∧ Fits e (lit "diamond_count") ∧ Fits e (lit "type")

theorem read_gift_fits {e : Doc} (h : IntsFit e) :
    ∃ url, read_gift e.text = .ok { read_fields e with icon_url := url } := by
  obtain ⟨hid, hcount, htype⟩ := h
  obtain ⟨url, hurl⟩ := icon_url_ok e
  refine ⟨url, ?_⟩
  unfold read_gift
  rw [int_field_doc id_key, if_pos hid, json_string_field_ok name_key, int_field_doc diamond_count_key, if_pos hcount,
    json_string_field_ok describe_key, int_field_doc type_key, if_pos htype, hurl]
  rfl

theorem fits_of_ok {key : Bytes} (hk : NeedleKey key) {d : Doc} {n : Int} (h : int_field d.text key = .ok n) :
    Fits d key := by
  rw [int_field_doc hk] at h
  by_contra hfits
  rw [if_neg hfits] at h
  cases h

theorem read_gift_ok {e : Doc} {g : GiftInfo} (h : read_gift e.text = .ok g) : IntsFit e := by
  obtain ⟨id, hid, h⟩ := ok_of_bind h
  obtain ⟨name, -, h⟩ := ok_of_bind h
  obtain ⟨diamond_count, hcount, h⟩ := ok_of_bind h
  obtain ⟨describe, -, h⟩ := ok_of_bind h
  obtain ⟨type, htype, -⟩ := ok_of_bind h
  exact ⟨fits_of_ok id_key hid, fits_of_ok diamond_count_key hcount, fits_of_ok type_key htype⟩

/-! ### What a gift has -/

def own_int (e : Doc) (key : Bytes) : Int := (e.own key).elim 0 Doc.toInt

def own_string (e : Doc) (key : Bytes) : Bytes := (e.own key).elim [] fun v => decode v.pieces

/-- The gift from its own members, but for the icon. -/
def own_fields (e : Doc) : GiftInfo where
  id := own_int e (lit "id")
  name := own_string e (lit "name")
  diamond_count := own_int e (lit "diamond_count")
  describe := own_string e (lit "describe")
  type := own_int e (lit "type")

/-- The integer at the beginning of the member that is found, cut to the field, is the one of the own member. -/
def IntAgrees (cut : Int → Int) : Option Doc → Option Doc → Prop
  | some w, some v => cut (leading_int w.text) = v.toInt
  | some w, none => cut (leading_int w.text) = 0
  | none, some v => v.toInt = 0
  | none, none => True

/-- The string that is found is unescaped to the one of the own member. -/
def StringAgrees : Option Doc → Option Doc → Prop
  | some w, some v => w.pieces.flatMap unescaped = decode v.pieces
  | some w, none => w.pieces.flatMap unescaped = []
  | none, some v => decode v.pieces = []
  | none, none => True

/-- An integer that is found itself is read as it is. -/
theorem int_agrees_self {n : Number} {k : Int} (h : n.toInt? = some k) :
    IntAgrees id (some (.number n)) (some (.number n)) := by
  have hint : n.frac = none ∧ n.exp = none ∧ (if n.neg then -(n.int.value : Int) else n.int.value) = k := by
    unfold Number.toInt? at h
    split at h
    · next hplain =>
      rw [Bool.and_eq_true, Option.isNone_iff_eq_none, Option.isNone_iff_eq_none] at hplain
      exact ⟨hplain.1, hplain.2, Option.some.inj h⟩
    · cases h
  have hlit : IntLiteral n.text k := ⟨n.neg, n.int, by simp [Number.text, hint.1, hint.2.1], hint.2.2.symm⟩
  have hread : leading_int (n.text ++ []) = k := leading_int_literal hlit (by rintro c ⟨⟩)
  rw [List.append_nil] at hread
  show leading_int n.text = n.toInt?.getD 0
  rw [hread, h]
  rfl

/-- A string that is found itself is read as it is if all of its escapes are handled. -/
theorem string_agrees_self (ps : List Piece) :
    StringAgrees (some (.string ps)) (some (.string ps)) ↔ ∀ p ∈ ps, HandledEscape p := (unescaped_decode ps).2

theorem int_agrees_iff {cut : Int → Int} (hcut : cut 0 = 0) (r e : Doc) (key : Bytes) :
    IntAgrees cut (first_reading r key fun _ => true) (e.own key) ↔ cut (int_reading r key) = own_int e key := by
  unfold int_reading own_int
  rcases first_reading r key fun _ => true with _ | w
  · rcases e.own key with _ | v
    · exact ⟨fun _ => hcut, fun _ => trivial⟩
    · show v.toInt = 0 ↔ cut 0 = v.toInt
      rw [hcut, eq_comm]
  · rcases e.own key with _ | v
    · exact Iff.rfl
    · exact Iff.rfl

theorem string_agrees_iff (r e : Doc) (key : Bytes) :
    StringAgrees (first_reading r key Doc.isString) (e.own key) ↔ string_reading r key = own_string e key := by
  unfold string_reading own_string
  rcases first_reading r key Doc.isString with _ | w
  · rcases e.own key with _ | v
    · exact ⟨fun _ => rfl, fun _ => trivial⟩
    · exact eq_comm
  · rcases e.own key with _ | v
    · exact Iff.rfl
    · exact Iff.rfl

/-- What the scanners find in the element that is read agrees with the own members of the gift; of a gift without an
id only the id. -/
structure OwnFields (r e : Doc) : Prop where
  fit : IntsFit r
  id : IntAgrees id (first_reading r (lit "id") fun _ => true) (e.own (lit "id"))
  rest : own_int e (lit "id") ≠ 0 →
    StringAgrees (first_reading r (lit "name") Doc.isString) (e.own (lit "name")) ∧
      IntAgrees to_int32 (first_reading r (lit "diamond_count") fun _ => true) (e.own (lit "diamond_count")) ∧
        StringAgrees (first_reading r (lit "describe") Doc.isString) (e.own (lit "describe")) ∧
          IntAgrees to_int32 (first_reading r (lit "type") fun _ => true) (e.own (lit "type"))

def without_icon (g : GiftInfo) : GiftInfo := { g with icon_url := [] }

theorem pushed_some {g : GiftInfo} (h : g.id ≠ 0) : pushed g = some g := if_pos h

theorem pushed_none {g : GiftInfo} (h : g.id = 0) : pushed g = none := if_neg (not_not.2 h)

theorem pushed_fields_iff (r e : Doc) (url : Bytes) :
    (pushed { read_fields r with icon_url := url }).map without_icon = pushed (own_fields e) ↔
      int_reading r (lit "id") = own_int e (lit "id") ∧
        (own_int e (lit "id") ≠ 0 → read_fields r = own_fields e) := by
  have hread : without_icon { read_fields r with icon_url := url } = read_fields r := rfl
  by_cases hzero : int_reading r (lit "id") = 0
  · rw [pushed_none (g := { read_fields r with icon_url := url }) hzero, hzero]
    by_cases hown : own_int e (lit "id") = 0
    · rw [pushed_none (g := own_fields e) hown, hown]
      exact ⟨fun _ => ⟨rfl, fun h => absurd rfl h⟩, fun _ => rfl⟩
    · rw [pushed_some (g := own_fields e) hown]
      exact ⟨nofun, fun h => absurd h.1.symm hown⟩
  · rw [pushed_some (g := { read_fields r with icon_url := url }) hzero, Option.map_some, hread]
    by_cases hown : own_int e (lit "id") = 0
    · rw [pushed_none (g := own_fields e) hown, hown]
      exact ⟨nofun, fun h => absurd h.1 hzero⟩
    · rw [pushed_some (g := own_fields e) hown, Option.some.injEq]
      exact ⟨fun h => ⟨congrArg GiftInfo.id h, fun _ => h⟩, fun h => h.2 hown⟩

theorem fields_eq_iff {r e : Doc} (hid : int_reading r (lit "id") = own_int e (lit "id")) :
    read_fields r = own_fields e ↔
      string_reading r (lit "name") = own_string e (lit "name") ∧
        to_int32 (int_reading r (lit "diamond_count")) = own_int e (lit "diamond_count") ∧
          string_reading r (lit "describe") = own_string e (lit "describe") ∧
            to_int32 (int_reading r (lit "type")) = own_int e (lit "type") := by
  rw [read_fields, own_fields, GiftInfo.mk.injEq]
  exact ⟨fun ⟨_, hname, hcount, hdescribe, htype, _⟩ => ⟨hname, hcount, hdescribe, htype⟩,
    fun ⟨hname, hcount, hdescribe, htype⟩ => ⟨hid, hname, hcount, hdescribe, htype, rfl⟩⟩

theorem own_fields_iff (r e : Doc) :
    OwnFields r e ↔ IntsFit r ∧ int_reading r (lit "id") = own_int e (lit "id") ∧
      (own_int e (lit "id") ≠ 0 → read_fields r = own_fields e) := by
  have hid := @int_agrees_iff id rfl r e (lit "id")
  have hcut : to_int32 0 = 0 := by decide
  have hrest : int_reading r (lit "id") = own_int e (lit "id") → (read_fields r = own_fields e ↔
      StringAgrees (first_reading r (lit "name") Doc.isString) (e.own (lit "name")) ∧
        IntAgrees to_int32 (first_reading r (lit "diamond_count") fun _ => true) (e.own (lit "diamond_count")) ∧
          StringAgrees (first_reading r (lit "describe") Doc.isString) (e.own (lit "describe")) ∧
            IntAgrees to_int32 (first_reading r (lit "type") fun _ => true) (e.own (lit "type"))) := by
    intro h
    rw [string_agrees_iff, string_agrees_iff, int_agrees_iff hcut, int_agrees_iff hcut]
    exact fields_eq_iff h
  constructor
  · intro h
    have hread := hid.1 h.id
    exact ⟨h.fit, hread, fun hne => (hrest hread).2 (h.rest hne)⟩
  · rintro ⟨hfit, hread, h⟩
    exact ⟨hfit, hid.2 hread, fun hne => (hrest hread).1 (h hne)⟩

theorem round_iff (r e : Doc) :
    (∃ g, pushed <$> read_gift r.text = .ok g ∧ g.map without_icon = pushed (own_fields e)) ↔ OwnFields r e := by
  rw [own_fields_iff]
  constructor
  · rintro ⟨g, hg, hown⟩
    obtain ⟨g', hg', -⟩ := ok_of_bind hg
    have hfit := read_gift_ok hg'
    obtain ⟨url, hurl⟩ := read_gift_fits hfit
    rw [hurl] at hg
    rw [← Except.ok.inj hg, pushed_fields_iff] at hown
    exact ⟨hfit, hown⟩
  · rintro ⟨hfit, hown⟩
    obtain ⟨url, hurl⟩ := read_gift_fits hfit
    refine ⟨pushed { read_fields r with icon_url := url }, by rw [hurl]; rfl, ?_⟩
    exact (pushed_fields_iff r e url).2 hown

/-! ### The whole list -/

/-- What each round of the walk pushes. -/
def gift_pushes (body : Bytes) : Except Exn (List (Option GiftInfo)) :=
  over_gifts (fun obj => some <$> pushed <$> read_gift obj) body

theorem collect_rounds_iff {α β : Type} (f : Bytes → Except Exn α) (k : α → β) (own : Doc → β) (rs es : List Doc) :
    (∃ gs, collect (fun obj => some <$> f obj) (rs.map Doc.text) = .ok gs ∧ gs.map k = es.map own) ↔
      List.Forall₂ (fun r e => ∃ g, f r.text = .ok g ∧ k g = own e) rs es := by
  induction rs generalizing es with
  | nil =>
    rw [List.forall₂_nil_left_iff, List.map_nil, collect]
    constructor
    · rintro ⟨gs, hgs, hmap⟩
      rw [← Except.ok.inj hgs, List.map_nil] at hmap
      exact List.map_eq_nil_iff.1 hmap.symm
    · rintro rfl
      exact ⟨[], rfl, rfl⟩
  | cons r rs ih =>
    rw [List.forall₂_cons_left_iff]
    constructor
    · rintro ⟨gs, hgs, hmap⟩
      rw [List.map_cons] at hgs
      obtain ⟨found, hfound, hgs⟩ := ok_of_bind hgs
      obtain ⟨rest, hrest, hgs⟩ := ok_of_bind hgs
      obtain ⟨g, hg, hsome⟩ := ok_of_bind hfound
      have hsplit : g :: rest = gs := by
        rw [← Except.ok.inj hsome] at hgs
        exact Except.ok.inj hgs
      rw [← hsplit, List.map_cons, eq_comm, List.map_eq_cons_iff] at hmap
      obtain ⟨e, es, rfl, hown, hmap⟩ := hmap
      exact ⟨e, es, ⟨g, hg, hown.symm⟩, (ih es).1 ⟨rest, hrest, hmap.symm⟩, rfl⟩
    · rintro ⟨e, es, ⟨g, hg, hown⟩, hes, rfl⟩
      obtain ⟨gs, hgs, hmap⟩ := (ih es).2 hes
      refine ⟨g :: gs, ?_, by rw [List.map_cons, List.map_cons, hown, hmap]⟩
      rw [List.map_cons, collect, hg, hgs]
      rfl

theorem collect_pushed {rs es : List Doc} (h : List.Forall₂ OwnFields rs es) :
    ∃ gifts, collect (fun obj => pushed <$> read_gift obj) (rs.map Doc.text) = .ok gifts ∧
      gifts.map without_icon = es.filterMap fun e => pushed (own_fields e) := by
  induction h with
  | nil => exact ⟨[], rfl, rfl⟩
  | @cons r e rs es h _ ih =>
    obtain ⟨g, hg, hown⟩ := (round_iff r e).2 h
    obtain ⟨gifts, hgifts, hmap⟩ := ih
    refine ⟨g.toList ++ gifts, ?_, ?_⟩
    · rw [List.map_cons, collect, hg, hgifts]
      rfl
    · rw [List.map_append, hmap, List.filterMap_cons, ← hown]
      cases g <;> rfl

/-- The elements of an array of objects, without white space. -/
theorem segments_docs {es : List Doc} (hobj : ∀ e ∈ es, e.isObject = true) (rest : Bytes) :
    segments (Json.comma.intercalate (es.map Doc.text) ++ 0x5d :: rest) = es.map Doc.text := by
  have hnil : Space [] := nofun
  have harray := ObjectArray.elements (es.map fun e => ⟨[], e.text, []⟩) (List.forall_mem_map.2 fun e _ => ⟨hnil, hnil⟩)
    (List.forall_mem_map.2 fun e he => ⟨e.spaced, by
      have hhead := hobj e he
      rw [isObject_eq, List.isPrefixOf_iff_prefix] at hhead
      obtain ⟨t, ht⟩ := hhead
      rw [← ht]
      rfl⟩)
  rw [List.map_map, List.map_map] at harray
  have htext : es.map (Item.text ∘ fun e => ⟨[], e.text, []⟩) = es.map Doc.text :=
    List.map_congr_left fun e _ => by simp [Item.text]
  rw [htext] at harray
  exact segments_array harray rest

/-- The elements of the array that the walk finds: the first array, at any depth, of a member whose written name
ends the search for `"gifts":[`. -/
def found_gifts (d : Doc) : List Doc := ((first_reading d (lit "gifts") Doc.isArray).map Doc.elements).getD []

/-- The elements of the first member named `gifts`. -/
def own_gifts (d : Doc) : List Doc := ((d.first_named (lit "gifts")).map Doc.elements).getD []

/-- The walk is over the elements of the array that it finds. -/
theorem over_gifts_doc {α : Type} (round : Bytes → Except Exn (Option α)) {d : Doc}
    (hobj : ∀ r ∈ found_gifts d, r.isObject = true) :
    over_gifts round d.text = collect round ((found_gifts d).map Doc.text) := by
  have hneedle : lit "\"gifts\":[" = needle (lit "gifts") [0x5b] := by decide
  have hfind := @find_after_reading (lit "gifts") [0x5b] gifts_key (Nat.le_refl 1) d _ isArray_eq
  rw [over_gifts_eq, hneedle]
  unfold found_gifts at hobj ⊢
  rcases hfirst : first_reading d (lit "gifts") Doc.isArray with _ | w
  · rw [hfirst] at hfind
    rw [hfind]
    rfl
  · rw [hfirst] at hfind hobj
    obtain ⟨harray, rest, -, hfind⟩ := hfind
    obtain ⟨rs, rfl⟩ : ∃ rs, w = .array rs := by
      cases w with
      | array rs => exact ⟨rs, rfl⟩
      | _ => cases harray
    have hbehind : ((Doc.array rs).text ++ rest).drop 1 =
        Json.comma.intercalate (rs.map Doc.text) ++ 0x5d :: rest := by
      simp [Doc.text_array]
    rw [hfind]
    show collect round (segments (((Doc.array rs).text ++ rest).drop 1)) = _
    have hsegments : segments (Json.comma.intercalate (rs.map Doc.text) ++ 0x5d :: rest) = rs.map Doc.text :=
      segments_docs hobj rest
    rw [hbehind, hsegments]
    rfl

/-- For every element of the array the round pushes what its own members give, and the gifts that were pushed are
what a fetch returns. -/
structure GiftsOwn (body : Bytes) (es : List Doc) : Prop where
  rounds : ∃ gs, gift_pushes body = .ok gs ∧ gs.map (Option.map without_icon) = es.map fun e => pushed (own_fields e)
  returned : ∀ cfg tr r, cfg.parse_gift_list = parse_gift_list → Answered cfg .gift_list (lit "/gift/list/") tr body →
    Runs (fetch_gift_list_impl cfg).run tr (.ret r) →
      ∃ gifts, r = .ok gifts ∧ gifts.map without_icon = es.filterMap fun e => pushed (own_fields e)

/-- The fields of the gifts are their own. -/
theorem gift_fields_iff {d : Doc} (hobj : ∀ r ∈ found_gifts d, r.isObject = true) :
    GiftsOwn d.text (own_gifts d) ↔ List.Forall₂ OwnFields (found_gifts d) (own_gifts d) := by
  have hpushes : (∃ gs, gift_pushes d.text = .ok gs ∧
      gs.map (Option.map without_icon) = (own_gifts d).map fun e => pushed (own_fields e)) ↔
        List.Forall₂ OwnFields (found_gifts d) (own_gifts d) := by
    rw [gift_pushes, over_gifts_doc _ hobj, collect_rounds_iff (fun obj => pushed <$> read_gift obj)]
    exact ⟨.imp fun r e => (round_iff r e).1, .imp fun r e => (round_iff r e).2⟩
  refine ⟨fun h => hpushes.1 h.rounds, fun h => ⟨hpushes.2 h, ?_⟩⟩
  intro cfg tr r hcfg ha hr
  obtain ⟨gifts, hread, hmap⟩ := collect_pushed h
  refine ⟨gifts, ?_, hmap⟩
  rw [fetched_gift_list (doc_text_ne_nil d) ha hr, hcfg, parse_gift_list, over_gifts_doc _ hobj, hread]

def gifts_name : Name := plain_name (lit "gifts") (by decide)

/-- `{"id":5,"name":"a","icon":{"id":1,"name":"\b"}}`. -/
def id_first : Value :=
  .object [(id_name, digit_value 0x35 (by decide)), (name_name, a_string),
    (icon_name, .object [(id_name, one_value), (name_name, .string [.short 0x62 (by decide)])])]

/-- `{"icon":{"id":1},"id":5}`. -/
def id_last : Value :=
  .object [(icon_name, .object [(id_name, one_value)]), (id_name, digit_value 0x35 (by decide))]

def gift_response (e : Value) : Doc := (Value.object [(gifts_name, .array [e])]).doc

theorem fields_of_id_first : GiftsOwn (gift_response id_first).text [id_first.doc] := by
  refine (gift_fields_iff (d := gift_response id_first) (List.forall_mem_singleton.2 rfl)).2 (.cons ⟨?_, ?_, ?_⟩ .nil)
  · unfold IntsFit
    decide +kernel
  · exact int_agrees_self rfl
  · intro _
    exact ⟨(string_agrees_self _).2 (List.forall_mem_singleton.2 trivial), trivial, trivial, trivial⟩

/-- With the id of the icon in front, the gift gets that one. -/
theorem nested_id_read : ¬ ∀ (d : Doc) (es : List Doc), d.first_named (lit "gifts") = some (.array es) →
    (∀ e ∈ es, e.isObject = true) → GiftsOwn d.text es := by
  intro hall
  have hobj : ∀ e ∈ [id_last.doc], e.isObject = true := List.forall_mem_singleton.2 rfl
  obtain ⟨gs, hgs, hmap⟩ := (hall (gift_response id_last) [id_last.doc] rfl hobj).rounds
  rw [gift_pushes, over_gifts_doc _ (d := gift_response id_last) hobj] at hgs
  have hround := (collect_rounds_iff (fun obj => pushed <$> read_gift obj) _ _ _ _).1 ⟨gs, hgs, hmap⟩
  obtain ⟨hfirst, -⟩ := List.forall₂_cons.1 hround
  have hid : leading_int one_value.text = 5 := ((round_iff id_last.doc id_last.doc).1 hfirst).id
  exact absurd hid (by decide +kernel)

end TtLive
