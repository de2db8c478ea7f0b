import TtLive.WebDefaults
import TtLive.JavaScript

/-!
# `hybrid-fake-dom.js`: the cookie jar and `XMLHttpRequest`

`__setCookie` and `__getCookies`, which `document.cookie` sets and gets. A `CookieJar` carries what every
assignment keeps of the object behind them, and `mem_cookie_items` reads the cookie string back. Of a
`FakeXMLHttpRequest`, the request that its methods describe.
-/

namespace TtLive.fake_dom
open JavaScript

def setCookie (jar : Object) (str : Str) : Object :=
  if str = [] then jar
  else
    let pair := (str.splitOn 0x3b).headD []
    match pair.findIdx? (· = 0x3d) with
    | none => jar
    | some idx =>
      let key := trim (pair.take idx)
      let val := trim (pair.drop (idx + 1))
      if key ≠ [] then jar.set key val else jar

/-- `k + '=' + __cookieJar[k]`. -/
def pair (e : Str × Str) : Str := e.1 ++ 0x3d :: e.2

def getCookies (jar : Object) : Str := List.intercalate [0x3b, 0x20] (jar.for_in.map pair)

/-- What `__setCookie` stores. -/
structure IsCookie (e : Str × Str) : Prop where
  name_ne_nil : e.1 ≠ []
  name_ne_proto : e.1 ≠ Object.proto
  name_trimmed : Trimmed e.1
  name_no_eq : 0x3d ∉ e.1
  name_no_semicolon : 0x3b ∉ e.1
  value_trimmed : Trimmed e.2
  value_no_semicolon : 0x3b ∉ e.2

theorem findIdx_pair {e : Str × Str} (he : 0x3d ∉ e.1) : (pair e).findIdx? (· = 0x3d) = some e.1.length := by
  have : e.1.findIdx? (· = 0x3d) = none :=
    List.findIdx?_eq_none_iff.2 fun c hc => by simpa using fun h : c = 0x3d => he (h ▸ hc)
  rw [pair, List.findIdx?_append, this]
  simp [List.findIdx?_cons]

/-- A name ends at the first `=`. -/
theorem pair_inj {e f : Str × Str} (he : 0x3d ∉ e.1) (hf : 0x3d ∉ f.1) (h : pair e = pair f) : e = f := by
  have hlen : e.1.length = f.1.length := Option.some.inj (by rw [← findIdx_pair he, h, findIdx_pair hf])
  obtain ⟨h₁, h₂⟩ := List.append_inj h hlen
  exact Prod.ext h₁ (List.cons.inj h₂).2

/-- An assignment whose first `;`-separated piece is `name=value`. -/
theorem setCookie_pair {str name value : Str} (hstr : (str.splitOn 0x3b).headD [] = pair (name, value))
    (hname : 0x3d ∉ name) (jar : Object) :
    setCookie jar str = if trim name ≠ [] then jar.set (trim name) (trim value) else jar := by
  have hne : str ≠ [] := by
    rintro rfl
    exact absurd (congrArg List.length hstr) (by simp [pair])
  have htake : (pair (name, value)).take name.length = name := by simp [pair]
  have hdrop : (pair (name, value)).drop (name.length + 1) = value := by simp [pair, List.drop_append]
  unfold setCookie
  rw [if_neg hne, hstr]
  simp only [findIdx_pair (e := (name, value)) hname, htake, hdrop]

theorem split_head_no_sep (c : UInt8) (s : Str) : c ∉ (s.splitOn c).headD [] := by
  by_cases h : c ∈ s
  · obtain ⟨p, rest, rfl, hp⟩ := List.eq_append_cons_of_mem h
    rw [List.splitOn_append_cons_self_of_not_mem hp]
    exact hp
  · rw [List.splitOn_eq_singleton h]
    exact h

theorem setCookie_cases (jar : Object) (str : Str) :
    setCookie jar str = jar ∨
      ∃ e, (e.1 ≠ Object.proto → IsCookie e) ∧ setCookie jar str = jar.set e.1 e.2 := by
  have hsemi := split_head_no_sep 0x3b str
  by_cases heq : 0x3d ∈ (str.splitOn 0x3b).headD []
  · obtain ⟨name, value, hstr, hname⟩ := List.eq_append_cons_of_mem heq
    rw [setCookie_pair hstr hname]
    rw [hstr] at hsemi
    split
    · next hkey =>
      refine .inr ⟨(trim name, trim value), fun hproto => ?_, rfl⟩
      exact {
        name_ne_nil := hkey
        name_ne_proto := hproto
        name_trimmed := trimmed_trim name
        name_no_eq := fun h => hname (mem_of_mem_trim h)
        name_no_semicolon := fun h => hsemi (List.mem_append_left _ (mem_of_mem_trim h))
        value_trimmed := trimmed_trim value
        value_no_semicolon := fun h => hsemi (by simp [mem_of_mem_trim h]) }
    · exact .inl rfl
  · have hidx : ((str.splitOn 0x3b).headD []).findIdx? (· = 0x3d) = none :=
      List.findIdx?_eq_none_iff.2 fun c hc => by simpa using fun h : c = 0x3d => heq (h ▸ hc)
    unfold setCookie
    split
    · exact .inl rfl
    · simp only [hidx, true_or]

/-- `__cookieJar` with what every assignment keeps. -/
structure CookieJar where
  own : Object
  nodup : (own.map Prod.fst).Nodup
  cookies : ∀ e ∈ own, IsCookie e

def CookieJar.setCookie (jar : CookieJar) (str : Str) : CookieJar where
  own := fake_dom.setCookie jar.own str
  nodup := by
    rcases setCookie_cases jar.own str with h | ⟨e, -, h⟩
    · rw [h]
      exact jar.nodup
    · rw [h, Object.keys_set]
      split
      · exact jar.nodup
      · next hk =>
        refine List.nodup_append.2 ⟨jar.nodup, List.nodup_singleton _, fun k hk' l hl => ?_⟩
        rintro rfl
        exact hk (.inr (List.mem_singleton.1 hl ▸ hk'))
  cookies := by
    rcases setCookie_cases jar.own str with h | ⟨e, he, h⟩
    · rw [h]
      exact jar.cookies
    · rw [h]
      intro f hf
      rcases Object.mem_set.1 hf with ⟨hproto, rfl⟩ | ⟨-, hf⟩
      · exact he hproto
      · exact jar.cookies f hf

/-- The jar of a fresh page, with the two seed cookies. -/
def CookieJar.seeded : CookieJar :=
  ((⟨[], List.nodup_nil, nofun⟩ : CookieJar).setCookie (lit "tiktok_webapp_theme_source=auto")).setCookie
    (lit "tiktok_webapp_theme=light")

/-! ### Reading the cookie string -/

/-- The items of a cookie string. -/
def cookie_items (s : Str) : List Str := (s.splitOn 0x3b).map trim

theorem splitOn_join (x : Str) (xs : List Str) (h : ∀ s ∈ x :: xs, 0x3b ∉ s) :
    (List.intercalate [0x3b, 0x20] (x :: xs)).splitOn 0x3b = x :: xs.map (0x20 :: ·) := by
  induction xs generalizing x with
  | nil => rw [List.intercalate_singleton, List.splitOn_eq_singleton (h x (by simp)), List.map_nil]
  | cons y ys ih =>
    have hy : ∀ s ∈ (0x20 :: y) :: ys, 0x3b ∉ s := by
      intro s hs
      rcases List.mem_cons.1 hs with rfl | hs
      · simpa using h y (by simp)
      · exact h s (by simp [hs])
    rw [List.intercalate_cons_cons, List.append_assoc, List.cons_append, List.singleton_append,
      ← List.intercalate_cons_cons_left, List.splitOn_append_cons_self_of_not_mem (h x (by simp)), ih _ hy,
      List.map_cons]

theorem IsCookie.pair_no_semicolon {e : Str × Str} (h : IsCookie e) : 0x3b ∉ pair e := by
  simp [pair, h.name_no_semicolon, h.value_no_semicolon]

theorem IsCookie.trim_pair {e : Str × Str} (h : IsCookie e) : trim (pair e) = pair e :=
  trim_eq_self (h.name_trimmed.append (by decide) h.value_trimmed)

/-- The items of `document.cookie` are the pairs of the jar. -/
theorem mem_cookie_items (jar : CookieJar) {e : Str × Str} (he : 0x3d ∉ e.1) :
    pair e ∈ cookie_items (getCookies jar.own) ↔ e ∈ jar.own := by
  have hmem : e ∈ jar.own ↔ pair e ∈ jar.own.for_in.map pair := by
    rw [List.mem_map]
    constructor
    · exact fun h => ⟨e, Object.mem_for_in.2 h, rfl⟩
    · rintro ⟨f, hf, hp⟩
      have hf := Object.mem_for_in.1 hf
      exact pair_inj (jar.cookies f hf).name_no_eq he hp ▸ hf
  have hcookie : ∀ f ∈ jar.own.for_in, IsCookie f := fun f hf => jar.cookies f (Object.mem_for_in.1 hf)
  rw [hmem, getCookies, cookie_items]
  cases hl : jar.own.for_in with
  | nil => simp [pair, trim, trim_end, trim_start, strip]
  | cons f fs =>
    rw [hl] at hcookie
    have hsemi : ∀ s ∈ pair f :: fs.map pair, 0x3b ∉ s := by
      intro s hs
      rw [← List.map_cons, List.mem_map] at hs
      obtain ⟨g, hg, rfl⟩ := hs
      exact (hcookie g hg).pair_no_semicolon
    have htrim : (fs.map pair).map (trim ∘ (0x20 :: ·)) = fs.map pair := by
      rw [List.map_map]
      exact List.map_congr_left fun g hg => (trim_space_cons _).trans (hcookie g (by simp [hg])).trim_pair
    rw [List.map_cons, splitOn_join _ _ hsemi, List.map_cons, (hcookie f (by simp)).trim_pair, List.map_map, htrim]

/-! ### `FakeXMLHttpRequest` -/

structure XMLHttpRequest where
  method : Str := lit "GET"
  url : Str := []
  headers : Object := []
  readyState : Nat := 0
  status : Nat := 0
  sent : Bool := false

namespace XMLHttpRequest

def open_ (xhr : XMLHttpRequest) (method url : Str) : XMLHttpRequest :=
  { xhr with method := method, url := url, readyState := 1 }

def setRequestHeader (xhr : XMLHttpRequest) (name value : Str) : XMLHttpRequest :=
  { xhr with headers := xhr.headers.set (to_lower_case name) value }

def send (xhr : XMLHttpRequest) : XMLHttpRequest :=
  { xhr with sent := true, readyState := 4, status := 200 }

end XMLHttpRequest

/-- The names that `Object.prototype` gives an object `{}`. -/
def object_prototype : List Str :=
  [lit "constructor", lit "toString", lit "toLocaleString", lit "valueOf", lit "hasOwnProperty", lit "isPrototypeOf",
    lit "propertyIsEnumerable", lit "__proto__", lit "__defineGetter__", lit "__defineSetter__",
    lit "__lookupGetter__", lit "__lookupSetter__"]

end TtLive.fake_dom
