import TtLive.JsonDocument
import TtLive.JsonScan

/-!
# The needle scanners on JSON documents

`Locates` says what a search for a needle finds in a piece of a text: the first of the piece's sites that the
needle matches, or nothing, so that the search goes on behind the piece. Every document locates its sites
(`locates_doc`), because a needle can only match at a quote and every quote of a text is one of five: it opens or
closes a name, opens or closes a string, or is escaped in a name or a string. At a quote that is escaped in a name
it does match if the rest of the name is the key (`reads`).

A needle would also match at a closing quote when the key begins with what may follow one, a comma, a colon or a
closing bracket; such keys are left out (`NeedleKey`).
-/

namespace TtLive
open Search Json

/-- What may follow a closing quote. -/
def after_quote : List UInt8 := [0x2c, 0x3a, 0x7d, 0x5d]

/-- A key that ends where a string ends, and that cannot be read on from a closing quote. -/
structure NeedleKey (key : Bytes) : Prop where
  whole : ∀ (ps : List Piece) (x y : Bytes), key ++ 0x22 :: x <+: body ps ++ 0x22 :: y ↔ body ps = key ∧ x <+: y
  head : ∀ c ∈ key.head?, c ∉ after_quote

/-- What follows a value: nothing, a comma or a closing bracket. -/
def Follow (s : Bytes) : Prop := ∀ c ∈ s.head?, c ∈ [0x2c, 0x7d, 0x5d]

theorem follow_cons {c : UInt8} (h : c ∈ [0x2c, 0x7d, 0x5d]) (s : Bytes) : Follow (c :: s) := by
  rintro d ⟨⟩
  exact h

theorem Follow.append {s t : Bytes} (hs : Follow s) (ht : Follow t) : Follow (s ++ t) := by
  cases s with
  | nil => exact ht
  | cons c s => exact hs

/-- A key without quotes and backslashes that is read inside a string ends where the string ends. -/
theorem whole_plain {key : Bytes} (hq : 0x22 ∉ key) (hb : 0x5c ∉ key) (ps : List Piece) (x y : Bytes) :
    key ++ 0x22 :: x <+: body ps ++ 0x22 :: y ↔ body ps = key ∧ x <+: y := by
  induction ps generalizing key with
  | nil =>
    show _ <+: [] ++ 0x22 :: y ↔ [] = key ∧ _
    rw [prefix_mark_iff hq (by simp), eq_comm]
  | cons p ps ih =>
    rw [body_cons, List.append_assoc]
    rcases p.shape with ⟨c, hp, hc⟩ | ⟨c, z, hp, -⟩
    · rw [hp]
      cases key with
      | nil => simp [hc.2.1.symm]
      | cons k key =>
        rw [List.mem_cons, not_or] at hq hb
        have ih := ih hq.2 hb.2
        simp only [List.cons_append, List.nil_append, List.cons_prefix_cons, List.cons.injEq, ih]
        rw [and_assoc, eq_comm]
    · rw [hp]
      cases key with
      | nil => simp
      | cons k key =>
        rw [List.mem_cons, not_or] at hb
        simp [Ne.symm hb.1, hb.1]

theorem plain_key {key : Bytes} (hq : 0x22 ∉ key) (hb : 0x5c ∉ key)
    (hhead : (key.head?.all fun c => c ∉ after_quote) = true) : NeedleKey key where
  whole := whole_plain hq hb
  head := by
    intro c hc
    rw [Option.mem_def.1 hc, Option.all_some, decide_eq_true_iff] at hhead
    exact hhead

section
variable {key start : Bytes}

theorem no_match_at_close (hk : NeedleKey key) {s : Bytes} (hs : ∀ c ∈ s.head?, c ∈ after_quote) :
    ¬ needle key start <+: 0x22 :: s := by
  intro h
  have h := (List.cons_prefix_cons.1 h).2
  cases s with
  | nil => simp at h
  | cons d s =>
    have hd := hs d rfl
    cases hkey : key with
    | nil =>
      rw [hkey] at h
      rw [← (List.cons_prefix_cons.1 h).1] at hd
      exact absurd hd (by decide)
    | cons c key' =>
      rw [hkey] at h
      rw [← (List.cons_prefix_cons.1 h).1] at hd
      exact hk.head c (by simp [hkey]) hd

theorem Follow.after_quote {s : Bytes} (h : Follow s) : ∀ c ∈ s.head?, c ∈ after_quote := by
  intro c hc
  have := h c hc
  simp only [TtLive.after_quote, List.mem_cons, List.not_mem_nil, or_false] at this ⊢
  rcases this with h | h | h <;> simp [h]

/-- No match begins at a quote that opens a string, or that is escaped in one. -/
theorem no_match_in_body (hk : NeedleKey key) (ps : List Piece) {post : Bytes} (hpost : Follow post) :
    ¬ needle key start <+: 0x22 :: (body ps ++ 0x22 :: post) := by
  intro h
  have hx := ((hk.whole ps (0x3a :: start) post).1 (List.cons_prefix_cons.1 h).2).2
  cases post with
  | nil => simp at hx
  | cons c post =>
    have hc := hpost c (by simp)
    rw [← (List.cons_prefix_cons.1 hx).1] at hc
    exact absurd hc (by decide)

theorem find_after_body (hk : NeedleKey key) (ps : List Piece) {post : Bytes} (hpost : Follow post) :
    find_after (needle key start) (body ps ++ 0x22 :: post) = find_after (needle key start) post := by
  induction ps with
  | nil => exact find_after_cons (no_match_at_close hk hpost.after_quote)
  | cons p ps ih =>
    rw [body_cons, List.append_assoc]
    rcases p.shape with ⟨c, hp, hc⟩ | ⟨c, x, hp, hx, hplain⟩
    · rw [hp]
      exact (find_after_append (by simpa using hc.2.1.symm) _).trans ih
    · have hback := @find_after_append _ _ (key ++ 0x22 :: 0x3a :: start) 0x22 [0x5c] (by decide)
      rw [hp]
      refine (hback _).trans ?_
      by_cases hq : c = 0x22
      · -- an escaped quote: from there on, too, the rest of the string follows
        rw [hq, hx hq]
        exact (find_after_cons (no_match_in_body hk ps hpost)).trans ih
      · refine (@find_after_append _ _ (key ++ 0x22 :: 0x3a :: start) 0x22 (c :: x) ?_ _).trans ih
        rw [List.mem_cons, not_or]
        exact ⟨Ne.symm hq, fun h => (hplain _ h).1 rfl⟩

theorem find_after_string (hk : NeedleKey key) (ps : List Piece) {post : Bytes} (hpost : Follow post) :
    find_after (needle key start) ((Doc.string ps).text ++ post) = find_after (needle key start) post := by
  have : (Doc.string ps).text ++ post = 0x22 :: (body ps ++ 0x22 :: post) := by simp [Doc.text]
  rw [this, find_after_cons (no_match_in_body hk ps hpost), find_after_body hk ps hpost]

/-! ### What a search finds in a name -/

/-- A name that a needle takes for the key: it is the key, or ends with an escaped quote and the key. -/
def reads (key : Bytes) (name : List Piece) : Bool := (0x22 :: key).isSuffixOf (0x22 :: body name)

/-- A site that the needle matches. -/
def hit (key start : Bytes) (s : Site) : Bool := reads key s.1.1 && start.isPrefixOf s.1.2.text

theorem suffix_append_iff {q : UInt8} {k a : Bytes} (h : q ∉ a) (b : Bytes) : q :: k <:+ a ++ b ↔ q :: k <:+ b := by
  induction a with
  | nil => rfl
  | cons c a ih =>
    rw [List.mem_cons, not_or] at h
    rw [List.cons_append, List.suffix_cons_iff, ih h.2]
    exact or_iff_right fun heq => h.1 (List.cons.inj heq).1

theorem needle_prefix_name (hk : NeedleKey key) (ps : List Piece) (t : Bytes) :
    needle key start <+: 0x22 :: (body ps ++ 0x22 :: 0x3a :: t) ↔ body ps = key ∧ start <+: t := by
  unfold needle
  rw [List.cons_append, List.cons_prefix_cons, hk.whole, List.cons_prefix_cons]
  simp

/-- The search at a quote before the rest of a name, if it is known from behind the quote. -/
theorem find_after_quote (hk : NeedleKey key) (ps : List Piece) (t : Bytes)
    (h : find_after (needle key start) (body ps ++ 0x22 :: 0x3a :: t) =
      if 0x22 :: key <:+ body ps ∧ start <+: t then some (t.drop start.length)
        else find_after (needle key start) t) :
    find_after (needle key start) (0x22 :: body ps ++ 0x22 :: 0x3a :: t) =
      if 0x22 :: key <:+ 0x22 :: body ps ∧ start <+: t then some (t.drop start.length)
        else find_after (needle key start) t := by
  have hsuf : 0x22 :: key <:+ 0x22 :: body ps ↔ body ps = key ∨ 0x22 :: key <:+ body ps := by
    rw [List.suffix_cons_iff, List.cons_inj_right, eq_comm]
  by_cases hm : body ps = key ∧ start <+: t
  · rw [if_pos ⟨hsuf.2 (.inl hm.1), hm.2⟩]
    obtain ⟨rfl, r, rfl⟩ := hm
    exact find_after_at (by simp [needle])
  · have hno : ¬ needle key start <+: 0x22 :: (body ps ++ 0x22 :: 0x3a :: t) :=
      fun h => hm ((needle_prefix_name hk ps t).1 h)
    refine (find_after_cons hno).trans (h.trans (if_congr ?_ rfl rfl))
    rw [hsuf, or_and_right, or_iff_right hm]

theorem find_after_rest (hk : NeedleKey key) (ps : List Piece) (t : Bytes) :
    find_after (needle key start) (body ps ++ 0x22 :: 0x3a :: t) =
      if 0x22 :: key <:+ body ps ∧ start <+: t then some (t.drop start.length)
        else find_after (needle key start) t := by
  induction ps with
  | nil =>
    have hno : ¬ (0x22 :: key <:+ body [] ∧ start <+: t) := fun h => by simpa [body] using h.1
    rw [if_neg hno]
    refine (find_after_cons (no_match_at_close hk ?_)).trans ?_
    · rintro c ⟨⟩
      decide
    · exact @find_after_append _ _ (key ++ 0x22 :: 0x3a :: start) 0x22 [0x3a] (by decide) t
  | cons p ps ih =>
    rw [body_cons, List.append_assoc]
    rcases p.shape with ⟨c, hp, hc⟩ | ⟨c, x, hp, hx, hplain⟩
    · have hmem : 0x22 ∉ [c] := by simpa using hc.2.1.symm
      rw [hp]
      refine (find_after_append hmem _).trans (ih.trans (if_congr ?_ rfl rfl))
      rw [suffix_append_iff hmem]
    · have hback := @find_after_append _ _ (key ++ 0x22 :: 0x3a :: start) 0x22 [0x5c] (by decide)
      have hskip : ∀ b : Bytes, 0x22 :: key <:+ 0x5c :: b ↔ 0x22 :: key <:+ b :=
        @suffix_append_iff 0x22 key [0x5c] (by decide)
      rw [hp]
      by_cases hq : c = 0x22
      · -- the rest of the name may be the key
        rw [hq, hx hq]
        refine (hback _).trans ((find_after_quote hk ps t ih).trans (if_congr ?_ rfl rfl))
        exact and_congr_left fun _ => (hskip _).symm
      · have hmem : 0x22 ∉ c :: x := by
          rw [List.mem_cons, not_or]
          exact ⟨Ne.symm hq, fun h => (hplain _ h).1 rfl⟩
        refine (hback _).trans ((find_after_append hmem _).trans (ih.trans (if_congr ?_ rfl rfl)))
        exact and_congr_left fun _ => ((hskip _).trans (suffix_append_iff hmem (body ps))).symm

theorem find_after_name (hk : NeedleKey key) (ps : List Piece) (t : Bytes) :
    find_after (needle key start) (0x22 :: body ps ++ 0x22 :: 0x3a :: t) =
      if 0x22 :: key <:+ 0x22 :: body ps ∧ start <+: t then some (t.drop start.length)
        else find_after (needle key start) t :=
  find_after_quote hk ps t (find_after_rest hk ps t)

/-! ### What a search finds in a document -/

/-- A search that comes to `x` finds the first hit among the sites, or goes on behind `x`. -/
def Locates (key start x : Bytes) (ss : List Site) : Prop :=
  ∀ post, Follow post → find_after (needle key start) (x ++ post) =
    (ss.find? (hit key start)).elim (find_after (needle key start) post) fun s =>
      some ((s.1.2.text ++ (s.2 ++ post)).drop start.length)

theorem find_behind (t : Bytes) (ss : List Site) :
    (behind t ss).find? (hit key start) = (ss.find? (hit key start)).map fun s => (s.1, s.2 ++ t) := by
  rw [behind, List.find?_map]
  rfl

/-- A stretch without a quote holds no member. -/
theorem locates_quiet {x : Bytes} (h : 0x22 ∉ x) : Locates key start x [] :=
  fun post _ => find_after_append h post

theorem Locates.append_quiet {x y : Bytes} {ss : List Site} (h : Locates key start x ss)
    (hy : 0x22 ∉ y) (hfol : ∀ post, Follow post → Follow (y ++ post)) : Locates key start (x ++ y) (behind y ss) := by
  intro post hpost
  rw [List.append_assoc, h (y ++ post) (hfol post hpost), find_behind]
  cases ss.find? (hit key start) with
  | none => exact find_after_append hy post
  | some s => simp

theorem Locates.quiet_append {x y : Bytes} {ss : List Site} (hy : 0x22 ∉ y) (h : Locates key start x ss) :
    Locates key start (y ++ x) ss := by
  intro post hpost
  rw [← h post hpost, List.append_assoc]
  exact find_after_append hy (x ++ post)

theorem Locates.comma {x y : Bytes} {ss ss' : List Site} (hx : Locates key start x ss)
    (hy : Locates key start y ss') : Locates key start (x ++ 0x2c :: y) (behind (0x2c :: y) ss ++ ss') := by
  intro post hpost
  rw [List.append_assoc, hx (0x2c :: y ++ post) (follow_cons (by decide) _), List.find?_append, find_behind]
  cases ss.find? (hit key start) with
  | none => exact (Locates.quiet_append (y := [0x2c]) (by decide) hy) post hpost
  | some s => simp

theorem locates_bracketed {x : Bytes} {ss : List Site} {l r : UInt8} (hl : l ≠ 0x22)
    (hr : r = 0x5d ∨ r = 0x7d) (h : Locates key start x ss) : Locates key start (l :: x ++ [r]) (behind [r] ss) := by
  have hclose : 0x22 ∉ [r] := by rcases hr with rfl | rfl <;> decide
  have hfol : ∀ post, Follow post → Follow ([r] ++ post) := fun post _ =>
    follow_cons (by rcases hr with rfl | rfl <;> decide) post
  exact Locates.append_quiet (Locates.quiet_append (y := [l]) (by simpa using hl.symm) h) hclose hfol

theorem behind_nil (ss : List Site) : behind [] ss = ss := by simp [behind]

/-- A list of pieces, as in an array or an object. -/
theorem Locates.cons {x : Bytes} {xs : List Bytes} {ss ss' : List Site} (hx : Locates key start x ss)
    (hxs : Locates key start (Json.comma.intercalate xs) ss') (hnil : xs = [] → ss' = []) :
    Locates key start (Json.comma.intercalate (x :: xs)) (behind (continued xs) ss ++ ss') := by
  cases xs with
  | nil =>
    rw [hnil rfl, List.append_nil]
    show Locates key start ([x].flatten) (behind [] ss)
    simpa [behind_nil] using hx
  | cons y ys =>
    rw [List.intercalate_cons_cons, List.append_assoc]
    exact hx.comma hxs

theorem locates_docs {ds : List Doc} (h : ∀ d ∈ ds, Locates key start d.text d.sites) :
    Locates key start (Json.comma.intercalate (docTexts ds)) (docsSites ds) := by
  induction ds with
  | nil => exact locates_quiet (by simp [docTexts])
  | cons d ds ih =>
    rw [List.forall_mem_cons] at h
    refine h.1.cons (ih h.2) ?_
    cases ds with
    | nil => exact fun _ => rfl
    | cons => exact fun h => absurd h (List.cons_ne_nil _ _)

theorem locates_members {ms : List Member}
    (h : ∀ m ∈ ms, Locates key start (docMemberText m) ((m, []) :: m.2.sites)) :
    Locates key start (Json.comma.intercalate (docMemberTexts ms)) (membersSites ms) := by
  induction ms with
  | nil => exact locates_quiet (by simp [docMemberTexts])
  | cons m ms ih =>
    rw [List.forall_mem_cons] at h
    refine Locates.cons h.1 (ih h.2) ?_
    cases ms with
    | nil => exact fun _ => rfl
    | cons => exact fun h => absurd h (List.cons_ne_nil _ _)

theorem doc_text_ne_nil (d : Doc) : d.text ≠ [] := by
  cases d with
  | bool b => cases b <;> simp [Doc.text]
  | number n => simp [Doc.text, Number.text, n.int.ne_nil]
  | _ => simp [Doc.text]

/-- The first character of a value decides whether the needle goes on into it. -/
theorem start_prefix_iff (hstart : start.length ≤ 1) (d : Doc) (post : Bytes) :
    start <+: d.text ++ post ↔ start <+: d.text := by
  cases start with
  | nil => simp
  | cons c start =>
    cases start with
    | nil =>
      cases hd : d.text with
      | nil => exact absurd hd (doc_text_ne_nil d)
      | cons e t => simp
    | cons => simp at hstart

/-- A member: its name is a hit, or the search goes on in its value. -/
theorem locates_member (hk : NeedleKey key) (hstart : start.length ≤ 1) {m : Member}
    (h : Locates key start m.2.text m.2.sites) : Locates key start (docMemberText m) ((m, []) :: m.2.sites) := by
  intro post hpost
  have htext : docMemberText m ++ post = 0x22 :: body m.1 ++ 0x22 :: 0x3a :: (m.2.text ++ post) := by
    simp [docMemberText]
  have hhit : hit key start (m, []) = true ↔ 0x22 :: key <:+ 0x22 :: body m.1 ∧ start <+: m.2.text ++ post := by
    rw [start_prefix_iff hstart]
    simp [hit, reads]
  rw [htext, find_after_name hk m.1 (m.2.text ++ post), List.find?_cons]
  by_cases hh : hit key start (m, []) = true
  · rw [if_pos (hhit.1 hh), hh]
    rfl
  · rw [if_neg fun hp => hh (hhit.2 hp), Bool.eq_false_iff.2 hh]
    exact h post hpost

theorem locates_doc (hk : NeedleKey key) (hstart : start.length ≤ 1) (d : Doc) :
    Locates key start d.text d.sites := by
  induction d using Doc.ind with
  | null => exact locates_quiet (by decide)
  | bool b => cases b <;> exact locates_quiet (by decide)
  | number n => exact locates_quiet fun h => (n.number_char h).elim (by decide) (by decide)
  | string ps => exact fun post hpost => find_after_string hk ps hpost
  | array ds ih => exact locates_bracketed (by decide) (.inl rfl) (locates_docs ih)
  | object ms ih =>
    exact locates_bracketed (by decide) (.inr rfl) (locates_members fun m hm => locates_member hk hstart (ih m hm))

theorem find_after_doc (hk : NeedleKey key) (hstart : start.length ≤ 1) (d : Doc) :
    find_after (needle key start) d.text =
      (d.sites.find? (hit key start)).map fun s => (s.1.2.text ++ s.2).drop start.length := by
  have h := locates_doc hk hstart d [] nofun
  rw [List.append_nil] at h
  rw [h]
  cases d.sites.find? (hit key start) with
  | none => rfl
  | some s => simp

end

end TtLive
