import TtLive.Search
import TtLive.SignerCookies

/-!
# `QuickJsSigner::sign`

The script of `sign` runs an `XMLHttpRequest` under the third-party SDK, which may rewrite its URL and set
headers, and returns the URL with the signature. The shim keeps header names in lower case and the script
looks them up as `X-Bogus` and `X-Gnarly`, so no header is ever found: `sign_eq` says that `sign` returns the
URL that the SDK leaves, whatever the headers say.
-/

namespace TtLive.QuickJsSigner
open JavaScript fake_dom Search

/-- What the SDK does to a request. -/
inductive SdkAct
  | rewrite_url (url : Str)
  | set_header (name value : Str)
  | throws
deriving DecidableEq

/-- What the SDK does in the `open` and in the `send` of one request. -/
structure Sdk where
  during_open : List SdkAct
  during_send : List SdkAct

/-- `none` for an exception. -/
def SdkAct.run (xhr : XMLHttpRequest) : SdkAct → Option XMLHttpRequest
  | .rewrite_url url => some { xhr with url := url }
  | .set_header name value => some (xhr.setRequestHeader name value)
  | .throws => none

def bogus_key : Str := lit "X-Bogus"
def gnarly_key : Str := lit "X-Gnarly"
def bogus_eq : Str := lit "X-Bogus="
def gnarly_eq : Str := lit "X-Gnarly="

/-- `xhr.open('GET', url); xhr.send();`. -/
def Sdk.request (sdk : Sdk) (url : Str) : Option XMLHttpRequest := do
  let xhr ← sdk.during_open.foldlM SdkAct.run (({} : XMLHttpRequest).open_ (lit "GET") url)
  sdk.during_send.foldlM SdkAct.run xhr.send

/-- The group of `/X-Bogus=([^&]*)/` and of its sibling. -/
def match_value (name_eq u : Str) : Option Str := (find_after name_eq u).map (·.takeWhile (· ≠ 0x26))

/-- `var m = u.match(...); if (m) v = decodeURIComponent(m[1]);`. -/
def decoded_or (name_eq u v : Str) : Option Str :=
  match match_value name_eq u with
  | some m => decodeURIComponent m
  | none => some v

/-- The script after the request: `u` is `xhr._url || qurl`. -/
def script_result (headers : Object) (u : Str) : Option Str := do
  let b := headers.get bogus_key
  let g := headers.get gnarly_key
  let (b, g) ←
    if b = [] ∧ contains bogus_eq u then do
      let b ← decoded_or bogus_eq u b
      let g ← decoded_or gnarly_eq u g
      pure (b, g)
    else pure (b, g)
  -- ensure the returned URL carries both params
  if b ≠ [] ∧ ¬ contains bogus_eq u then
    let u := u ++ (if 0x3f ∈ u then lit "&" else lit "?") ++ bogus_eq ++ encodeURIComponent b
    return if g ≠ [] then u ++ lit "&" ++ gnarly_eq ++ encodeURIComponent g else u
  else return u

def script (sdk : Sdk) (url : Str) : Option Str := do
  let xhr ← sdk.request url
  script_result xhr.headers (if xhr.url ≠ [] then xhr.url else url)

/-- `none` for an exception, of `ensure_initialized`, of the script or for an empty result. -/
def sign (initialized : Bool) (sdk : Sdk) (url : Bytes) : Option Bytes :=
  if initialized then
    match string_literal (json_quote url) with
    | none => none
    | some url =>
      match script sdk url with
      | none => none
      | some u => if c_str u = [] then none else some (c_str u)
  else none

/-! ### Headers are never found -/

/-- No name that the shim has stored has an upper-case letter. -/
def LowerNames (headers : Object) : Prop := ∀ e ∈ headers, 0x58 ∉ e.1

theorem to_lower_case_no_upper (s : Str) : 0x58 ∉ to_lower_case s := by
  intro h
  obtain ⟨c, -, hc⟩ := List.mem_map.1 h
  revert hc
  split_ifs with hc
  · intro heq
    have := congrArg (· - 0x20) heq
    simp only [UInt8.add_sub_cancel] at this
    subst this
    exact absurd hc (by decide)
  · rintro rfl
    exact hc (by decide)

theorem LowerNames.set {headers : Object} (h : LowerNames headers) (name value : Str) :
    LowerNames (headers.set (to_lower_case name) value) := by
  intro e he
  rcases Object.mem_set.1 he with ⟨-, rfl⟩ | ⟨-, he⟩
  · exact to_lower_case_no_upper name
  · exact h e he

theorem LowerNames.run {acts : List SdkAct} {xhr xhr' : XMLHttpRequest} (hrun : acts.foldlM SdkAct.run xhr = some xhr')
    (h : LowerNames xhr.headers) : LowerNames xhr'.headers := by
  induction acts generalizing xhr with
  | nil =>
    cases hrun
    exact h
  | cons a acts ih =>
    rw [List.foldlM_cons] at hrun
    obtain ⟨xhr₁, h₁, hrun⟩ := Option.bind_eq_some_iff.1 hrun
    refine ih hrun ?_
    cases a with
    | rewrite_url url =>
      cases h₁
      exact h
    | set_header name value =>
      cases h₁
      exact h.set name value
    | throws => cases h₁

theorem LowerNames.request {sdk : Sdk} {url : Str} {xhr : XMLHttpRequest} (h : sdk.request url = some xhr) :
    LowerNames xhr.headers := by
  obtain ⟨xhr₁, h₁, h₂⟩ := Option.bind_eq_some_iff.1 h
  have hopen : LowerNames xhr₁.headers := LowerNames.run h₁ nofun
  exact LowerNames.run h₂ hopen

theorem LowerNames.get {headers : Object} (h : LowerNames headers) {name : Str} (hname : 0x58 ∈ name) :
    headers.get name = [] := by
  have : headers.lookup name = none := by
    refine List.lookup_eq_none_iff.2 fun e he => bne_iff_ne.2 ?_
    rintro rfl
    exact h e he hname
  rw [Object.get, this]
  rfl

/-! ### The result -/

def SdkAct.url_after (u : Str) : SdkAct → Str
  | .rewrite_url url => url
  | _ => u

def SdkAct.header_value (name : Str) : SdkAct → Option Str
  | .set_header n value => if to_lower_case n = to_lower_case name then some value else none
  | _ => none

def Sdk.acts (sdk : Sdk) : List SdkAct := sdk.during_open ++ sdk.during_send

/-- `xhr._url` after `send`. -/
def Sdk.request_url (sdk : Sdk) (url : Str) : Str := sdk.acts.foldl SdkAct.url_after url

/-- `xhr._url || qurl`. -/
def Sdk.left_url (sdk : Sdk) (url : Str) : Str := if sdk.request_url url ≠ [] then sdk.request_url url else url

/-- A call of `decodeURIComponent` throws. -/
def uri_error (u : Str) : Prop :=
  contains bogus_eq u ∧ (decoded_or bogus_eq u [] = none ∨ decoded_or gnarly_eq u [] = none)

instance (u : Str) : Decidable (uri_error u) :=
  inferInstanceAs
    (Decidable (contains bogus_eq u ∧ (decoded_or bogus_eq u [] = none ∨ decoded_or gnarly_eq u [] = none)))

theorem foldlM_run (acts : List SdkAct) (xhr : XMLHttpRequest) :
    (acts.foldlM SdkAct.run xhr).map XMLHttpRequest.url =
      if .throws ∈ acts then none else some (acts.foldl SdkAct.url_after xhr.url) := by
  induction acts generalizing xhr with
  | nil => rfl
  | cons a acts ih =>
    rw [List.foldlM_cons, List.foldl_cons]
    cases a with
    | rewrite_url url =>
      change (acts.foldlM SdkAct.run { xhr with url := url }).map _ = _
      rw [ih]
      simp [SdkAct.url_after]
    | set_header name value =>
      change (acts.foldlM SdkAct.run (xhr.setRequestHeader name value)).map _ = _
      rw [ih]
      simp [SdkAct.url_after, XMLHttpRequest.setRequestHeader]
    | throws => rfl

theorem url_request (sdk : Sdk) (url : Str) :
    (sdk.request url).map XMLHttpRequest.url = if .throws ∈ sdk.acts then none else some (sdk.request_url url) := by
  have hopen := foldlM_run sdk.during_open (({} : XMLHttpRequest).open_ (lit "GET") url)
  unfold Sdk.request Sdk.request_url Sdk.acts
  simp only [List.mem_append, List.foldl_append]
  cases h : sdk.during_open.foldlM SdkAct.run (({} : XMLHttpRequest).open_ (lit "GET") url) with
  | none =>
    rw [h] at hopen
    by_cases hmem : SdkAct.throws ∈ sdk.during_open
    · rw [if_pos (.inl hmem)]
      rfl
    · rw [if_neg hmem] at hopen
      cases hopen
  | some xhr =>
    rw [h] at hopen
    by_cases hmem : SdkAct.throws ∈ sdk.during_open
    · rw [if_pos hmem] at hopen
      cases hopen
    · rw [if_neg hmem] at hopen
      have hurl : xhr.send.url = sdk.during_open.foldl SdkAct.url_after url := Option.some.inj hopen
      simp only [hmem, false_or, ← hurl]
      exact foldlM_run sdk.during_send xhr.send

theorem script_result_eq {headers : Object} (h : LowerNames headers) (u : Str) :
    script_result headers u = if uri_error u then none else some u := by
  have hb : headers.get bogus_key = [] := h.get (by decide)
  have hg : headers.get gnarly_key = [] := h.get (by decide)
  unfold script_result uri_error
  simp only [hb, hg, true_and]
  by_cases hc : contains bogus_eq u = true
  · simp only [hc, if_pos, true_and]
    cases h₁ : decoded_or bogus_eq u [] with
    | none => simp
    | some b =>
      cases h₂ : decoded_or gnarly_eq u [] with
      | none => simp
      | some g => simp
  · simp [hc]

/-- `sign` returns the URL that the SDK leaves, as a C string, or throws. -/
theorem sign_eq (initialized : Bool) (sdk : Sdk) (url : Bytes) :
    sign initialized sdk url =
      if initialized = false ∨ .throws ∈ sdk.acts ∨ uri_error (sdk.left_url url) ∨ c_str (sdk.left_url url) = [] then
        none
      else some (c_str (sdk.left_url url)) := by
  cases initialized with
  | false => simp [sign]
  | true =>
    have hurl := url_request sdk url
    rw [sign, string_literal_json_quote]
    simp only [script]
    cases h : sdk.request url with
    | none =>
      rw [h] at hurl
      have hmem : SdkAct.throws ∈ sdk.acts := by
        by_contra hno
        rw [if_neg hno] at hurl
        cases hurl
      simp [hmem]
    | some xhr =>
      rw [h] at hurl
      have hno : SdkAct.throws ∉ sdk.acts := by
        intro hmem
        rw [if_pos hmem] at hurl
        cases hurl
      rw [if_neg hno] at hurl
      have hleft : (if xhr.url ≠ [] then xhr.url else url) = sdk.left_url url := by
        rw [Sdk.left_url, ← Option.some.inj hurl]
      change (match script_result xhr.headers (if xhr.url ≠ [] then xhr.url else url) with | none => none | some u => _) = _
      rw [hleft, script_result_eq (.request h)]
      by_cases herr : uri_error (sdk.left_url url)
      · simp [herr]
      · simp [herr, hno]

/-! ### The signature in the URL -/

def signature_params : List Str := [bogus_key, gnarly_key]

/-- The parameters of the query, which ends at the fragment. -/
def query_params (u : Str) : List (Str × Str) :=
  ((((u.takeWhile (· ≠ 0x23)).dropWhile (· ≠ 0x3f)).tail).splitOn 0x26).map fun p =>
    (p.takeWhile (· ≠ 0x3d), (p.dropWhile (· ≠ 0x3d)).tail)

def param_values (u name : Str) : List Str :=
  ((query_params u).filter fun p => p.1 = name).map Prod.snd

/-- The non-empty values that the SDK gives a parameter, in its URL and by the last header of that name. -/
def Sdk.values (sdk : Sdk) (url name : Str) : List Str :=
  ((param_values (sdk.request_url url) name).filterMap decodeURIComponent ++
    (sdk.acts.filterMap (SdkAct.header_value name)).getLast?.toList).filter (· ≠ [])

/-- The SDK supplies `v` for a parameter: on one channel or on both, and nothing else. -/
def Sdk.Supplies (sdk : Sdk) (url name v : Str) : Prop := v ∈ sdk.values url name ∧ ∀ w ∈ sdk.values url name, w = v

/-- A returned URL carries both parameters, and what the SDK supplies for one of them is its only value. -/
def SignedProperly (sdk : Sdk) (url : Bytes) (result : Option Bytes) : Prop :=
  ∀ u ∈ result, ∀ name ∈ signature_params, param_values u name ≠ [] ∧
    ∀ v, sdk.Supplies url name v → (param_values u name).map decodeURIComponent = [some v]

/-- The URL that the SDK leaves has the parameter itself, once where a value is supplied, and no header says
otherwise. -/
def Sdk.InUrl (sdk : Sdk) (url : Bytes) (name : Str) : Prop :=
  ∃ raw rest, param_values (c_str (sdk.left_url url)) name = raw :: rest ∧
    ∀ v, sdk.Supplies url name v → rest = [] ∧ decodeURIComponent raw = some v

/-- `sign` keeps its promise exactly if it throws or the SDK has put both parameters into the URL: it never
adds one. -/
theorem signed_properly_iff (initialized : Bool) (sdk : Sdk) (url : Bytes) :
    SignedProperly sdk url (sign initialized sdk url) ↔
      (initialized = false ∨ .throws ∈ sdk.acts ∨ uri_error (sdk.left_url url) ∨ c_str (sdk.left_url url) = []) ∨
        ∀ name ∈ signature_params, sdk.InUrl url name := by
  rw [sign_eq]
  split
  · next h => exact ⟨fun _ => .inl h, fun _ => nofun⟩
  · next h =>
    rw [or_iff_right h]
    unfold SignedProperly Sdk.InUrl
    simp only [Option.mem_def, Option.some.injEq, forall_eq']
    refine forall₂_congr fun name _ => ?_
    cases param_values (c_str (sdk.left_url url)) name with
    | nil => simp
    | cons raw rest => simp [and_comm]

/-- The SDK hands over the signature in headers: the URL comes back unsigned. -/
theorem header_signature_lost : ¬ ∀ (initialized : Bool) (sdk : Sdk) (url : Bytes),
    SignedProperly sdk url (sign initialized sdk url) := by
  intro hall
  have hrun : sign true ⟨[], [.set_header bogus_key (lit "b"), .set_header gnarly_key (lit "g")]⟩ (lit "https://w/?a=1") =
      some (lit "https://w/?a=1") := by decide +kernel
  have := (hall _ _ _ _ hrun bogus_key (by decide)).1
  exact this (by decide +kernel)

end TtLive.QuickJsSigner
