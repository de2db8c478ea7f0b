import TtLive.FakeDom

/-!
# The cookies of the signer

`HttpClient::cookie_header` writes libcurl's jar as a `Cookie` header, and `QuickJsSigner::set_cookies` assigns
this header, quoted, to `document.cookie`, where an assignment sets a single cookie. `set_cookies_iff` says
which jars the shim then holds.
-/

namespace TtLive
open JavaScript fake_dom

/-! ### libcurl's jar -/

/-- A cookie that libcurl holds: the seven fields of its Netscape line, none with a tab. -/
structure NetscapeCookie where
  domain : Bytes
  flag : Bytes
  path : Bytes
  secure : Bytes
  expiry : Bytes
  name : Bytes
  value : Bytes
  no_tab : ∀ f ∈ [domain, flag, path, secure, expiry, name, value], 0x09 ∉ f
  name_ne_nil : name ≠ []
  name_no_eq : 0x3d ∉ name
  name_no_semicolon : 0x3b ∉ name
  value_no_semicolon : 0x3b ∉ value

namespace NetscapeCookie

def fields (c : NetscapeCookie) : List Bytes := [c.domain, c.flag, c.path, c.secure, c.expiry, c.name, c.value]

def line (c : NetscapeCookie) : Bytes := List.intercalate [0x09] c.fields

def entry (c : NetscapeCookie) : Bytes × Bytes := (c.name, c.value)

end NetscapeCookie

/-- A cookie jar: names are distinct. -/
structure CurlJar where
  cookies : List NetscapeCookie
  distinct : (cookies.map NetscapeCookie.name).Nodup

/-- The lines of `CURLINFO_COOKIELIST`. -/
def CurlJar.lines (jar : CurlJar) : List Bytes := jar.cookies.map NetscapeCookie.line

end TtLive

namespace TtLive.HttpClient
open JavaScript fake_dom

/-! ### `cookie_header` -/

/-- One round of the loop of `cookie_header` on a line of `CURLINFO_COOKIELIST`. -/
def append_cookie (out line : Bytes) : Bytes :=
  let parts := line.splitOn 0x09
  if parts.length ≥ 7 then
    (if out = [] then out else out ++ lit "; ") ++ parts.getD 5 [] ++ lit "=" ++ parts.getD 6 []
  else out

def cookie_header (cookies : List Bytes) : Bytes := cookies.foldl append_cookie []

theorem split_line (c : NetscapeCookie) : c.line.splitOn 0x09 = c.fields :=
  List.splitOn_intercalate _ c.no_tab (by simp [NetscapeCookie.fields])

theorem append_cookie_line (c : NetscapeCookie) (out : Bytes) :
    append_cookie out c.line = (if out = [] then out else out ++ [0x3b, 0x20]) ++ pair c.entry := by
  have hsep : lit "; " = [0x3b, 0x20] ∧ lit "=" = [0x3d] := by decide
  simp [append_cookie, split_line, NetscapeCookie.fields, pair, NetscapeCookie.entry, hsep]

theorem foldl_append_cookie {out : Bytes} (hout : out ≠ []) (cs : List NetscapeCookie) :
    (cs.map NetscapeCookie.line).foldl append_cookie out =
      List.intercalate [0x3b, 0x20] (out :: cs.map fun c => pair c.entry) := by
  induction cs generalizing out with
  | nil => simp
  | cons c cs ih =>
    rw [List.map_cons, List.foldl_cons, append_cookie_line, if_neg hout, ih (by simp [hout])]
    cases cs <;> simp

/-- The header is `name=value` for every cookie, joined by `"; "`. -/
theorem cookie_header_map_line (cs : List NetscapeCookie) :
    cookie_header (cs.map NetscapeCookie.line) = List.intercalate [0x3b, 0x20] (cs.map fun c => pair c.entry) := by
  unfold cookie_header
  cases cs with
  | nil => rfl
  | cons c cs =>
    rw [List.map_cons, List.foldl_cons, append_cookie_line, if_pos rfl, List.nil_append,
      foldl_append_cookie (by simp [pair]), List.map_cons]

end TtLive.HttpClient

namespace TtLive.QuickJsSigner
open JavaScript fake_dom

/-! ### `json_quote` -/

/-- What `json_quote` writes for one byte. -/
def json_quote_byte (c : UInt8) : Bytes :=
  if c = 0x22 then lit "\\\""
  else if c = 0x5c then lit "\\\\"
  else if c = 0x0a then lit "\\n"
  else if c = 0x0d then lit "\\r"
  else if c = 0x09 then lit "\\t"
  else if c < 0x20 then lit "\\u00" ++ [hex_digit (c.toNat / 16), hex_digit (c.toNat % 16)]
  else [c]

def json_quote (s : Bytes) : Bytes := 0x22 :: s.flatMap json_quote_byte ++ [0x22]

theorem literal_body_quoted (c : UInt8) (rest : Bytes) :
    literal_body (json_quote_byte c ++ rest) = (c :: ·) <$> literal_body rest := by
  unfold json_quote_byte
  split_ifs with h₁ h₂ h₃ h₄ h₅ h₆
  · rw [h₁]; exact literal_body_escape rfl rest
  · rw [h₂]; exact literal_body_escape rfl rest
  · rw [h₃]; exact literal_body_escape rfl rest
  · rw [h₄]; exact literal_body_escape rfl rest
  · rw [h₅]; exact literal_body_escape rfl rest
  · exact literal_body_unicode (UInt8.lt_trans h₆ (by decide)) rest
  · exact literal_body_plain ⟨h₁, h₂, h₃, h₄⟩ rest

theorem string_literal_json_quote (s : Bytes) : string_literal (json_quote s) = some s := by
  change literal_body (s.flatMap json_quote_byte ++ [0x22]) = some s
  induction s with
  | nil => rfl
  | cons c s ih => rw [List.flatMap_cons, List.append_assoc, literal_body_quoted, ih]; rfl

/-! ### `set_cookies` -/

/-- The two assignments of the script; both proxies hand them to the setter of `document.cookie`. A script that
does not parse does nothing. -/
def set_cookies (shim : CookieJar) (header : Bytes) : CookieJar :=
  match string_literal (json_quote header) with
  | none => shim
  | some v => (shim.setCookie v).setCookie v

def document_cookie (shim : CookieJar) : Bytes := getCookies shim.own

/-- The items of `document.cookie` after the signer was given the jar. -/
def items_after (shim : CookieJar) (jar : CurlJar) : List Str :=
  cookie_items (document_cookie (set_cookies shim (HttpClient.cookie_header jar.lines)))

/-- The piece that an assignment of the header looks at. -/
theorem split_header {jar : CurlJar} {c : NetscapeCookie} {cs : List NetscapeCookie} (h : jar.cookies = c :: cs) :
    ((HttpClient.cookie_header jar.lines).splitOn 0x3b).headD [] = pair c.entry := by
  have hno : ∀ c : NetscapeCookie, 0x3b ∉ pair c.entry := fun c => by
    simp [pair, NetscapeCookie.entry, c.name_no_semicolon, c.value_no_semicolon]
  rw [CurlJar.lines, HttpClient.cookie_header_map_line, h, List.map_cons, splitOn_join]
  · rfl
  · intro s hs
    rw [← List.map_cons (f := fun c : NetscapeCookie => pair c.entry), List.mem_map] at hs
    obtain ⟨c, -, rfl⟩ := hs
    exact hno c

theorem set_cookies_empty {jar : CurlJar} (h : jar.cookies = []) (shim : CookieJar) :
    (set_cookies shim (HttpClient.cookie_header jar.lines)).own = shim.own := by
  rw [CurlJar.lines, HttpClient.cookie_header_map_line, h, set_cookies, string_literal_json_quote]
  rfl

/-- Of a header only the first cookie is set. -/
theorem set_cookies_own {jar : CurlJar} {c : NetscapeCookie} {cs : List NetscapeCookie} (h : jar.cookies = c :: cs)
    (shim : CookieJar) : (set_cookies shim (HttpClient.cookie_header jar.lines)).own =
      if trim c.name ≠ [] then (shim.own.set (trim c.name) (trim c.value)).set (trim c.name) (trim c.value)
      else shim.own := by
  have hset := setCookie_pair (split_header h) c.name_no_eq
  rw [set_cookies, string_literal_json_quote]
  change setCookie (setCookie shim.own _) _ = _
  rw [hset, hset]
  split <;> simp_all

theorem mem_set_cookies {jar : CurlJar} {c : NetscapeCookie} {cs : List NetscapeCookie} (h : jar.cookies = c :: cs)
    (hc : c.name ≠ Object.proto ∧ Trimmed c.name ∧ Trimmed c.value) (shim : CookieJar) (e : Str × Str) :
    e ∈ (set_cookies shim (HttpClient.cookie_header jar.lines)).own ↔ e = c.entry ∨ e.1 ≠ c.name ∧ e ∈ shim.own := by
  obtain ⟨hproto, hname, hvalue⟩ := hc
  rw [set_cookies_own h, trim_eq_self hname, trim_eq_self hvalue, if_pos c.name_ne_nil, Object.mem_set,
    Object.mem_set]
  simp only [hproto, ne_eq, not_false_eq_true, true_and, false_or, NetscapeCookie.entry]
  constructor
  · rintro (he | ⟨hne, he | ⟨-, he⟩⟩)
    · exact .inl he
    · exact .inl he
    · exact .inr ⟨hne, he⟩
  · rintro (he | ⟨hne, he⟩)
    · exact .inl he
    · exact .inr ⟨hne, .inr ⟨hne, he⟩⟩

/-- Every cookie of the jar is in `document.cookie` exactly if the first one can be set and the others were
there before. -/
theorem set_cookies_iff (shim : CookieJar) (jar : CurlJar) :
    (∀ c ∈ jar.cookies, pair c.entry ∈ items_after shim jar) ↔
      (∀ c ∈ jar.cookies.head?, c.name ≠ Object.proto ∧ Trimmed c.name ∧ Trimmed c.value) ∧
        ∀ c ∈ jar.cookies.tail, c.entry ∈ shim.own := by
  simp only [items_after, document_cookie, fun c : NetscapeCookie =>
    mem_cookie_items (set_cookies shim (HttpClient.cookie_header jar.lines)) (e := c.entry) c.name_no_eq]
  cases h : jar.cookies with
  | nil => simp
  | cons c cs =>
    have hdistinct := jar.distinct
    rw [h, List.map_cons, List.nodup_cons] at hdistinct
    have hne : ∀ c' ∈ cs, c'.name ≠ c.name := fun c' hc' heq => hdistinct.1 (List.mem_map.2 ⟨c', hc', heq⟩)
    rw [List.forall_mem_cons, List.head?_cons, List.tail_cons]
    constructor
    · rintro ⟨hc, hcs⟩
      have hcookie := (set_cookies shim (HttpClient.cookie_header jar.lines)).cookies _ hc
      have hfirst : c.name ≠ Object.proto ∧ Trimmed c.name ∧ Trimmed c.value :=
        ⟨hcookie.name_ne_proto, hcookie.name_trimmed, hcookie.value_trimmed⟩
      refine ⟨fun c' hc' => Option.some.inj hc' ▸ hfirst, fun c' hc' => ?_⟩
      rcases (mem_set_cookies h hfirst shim _).1 (hcs c' hc') with heq | ⟨-, hmem⟩
      · exact absurd (congrArg Prod.fst heq) (hne c' hc')
      · exact hmem
    · rintro ⟨hfirst, hcs⟩
      have hmem := mem_set_cookies h (hfirst c rfl) shim
      exact ⟨(hmem _).2 (.inl rfl), fun c' hc' => (hmem _).2 (.inr ⟨hne c' hc', hcs c' hc'⟩)⟩

/-- Two cookies on a fresh page: the second one is lost. -/
def two_cookies : CurlJar where
  cookies := [
    { domain := lit ".tiktok.com", flag := lit "TRUE", path := lit "/", secure := lit "FALSE", expiry := lit "0",
      name := lit "a", value := lit "1", no_tab := by decide, name_ne_nil := by decide, name_no_eq := by decide,
      name_no_semicolon := by decide, value_no_semicolon := by decide },
    { domain := lit ".tiktok.com", flag := lit "TRUE", path := lit "/", secure := lit "FALSE", expiry := lit "0",
      name := lit "b", value := lit "2", no_tab := by decide, name_ne_nil := by decide, name_no_eq := by decide,
      name_no_semicolon := by decide, value_no_semicolon := by decide }]
  distinct := by decide

theorem second_cookie_lost : ¬ ∀ (shim : CookieJar) (jar : CurlJar),
    (∀ c ∈ jar.cookies, Trimmed c.name ∧ Trimmed c.value) →
      ∀ c ∈ jar.cookies, pair c.entry ∈ items_after shim jar := by
  intro hall
  have hlost : ∃ c ∈ two_cookies.cookies, pair c.entry ∉ items_after CookieJar.seeded two_cookies := by
    decide +kernel
  obtain ⟨c, hc, hno⟩ := hlost
  exact hno (hall CookieJar.seeded two_cookies (by decide) c hc)

end TtLive.QuickJsSigner
