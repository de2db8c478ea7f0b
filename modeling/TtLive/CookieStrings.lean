import TtLive.Client
import TtLive.GiftWalk
import TtLive.SignerCookies

/-!
# Cookie strings

Two loops read a string of `name=value` pairs: the constructor of `TikTokLiveClient` seeds the cookies of its options,
`HttpClient::cookie` looks a name up in the header that `cookie_header` joins. Both visit the same pairs
(`filterMap_pairs_from`), and these are the ones that were joined (`Joined.entries_eq`).
-/

namespace TtLive
open fake_dom

/-- The pairs that the rounds of the two loops look at from `pos` on, without their leading blanks. -/
def pairs_from (s : Bytes) (pos : Nat) : List Bytes :=
  if _hpos : pos < s.length then
    match hsemi : find s [0x3b] pos with
    | none => [(s.drop pos).dropWhile (· = 0x20)]
    | some semi => ((s.drop pos).take (semi - pos)).dropWhile (· = 0x20) :: pairs_from s (semi + 1)
  else []
termination_by s.length - pos
decreasing_by
  have hle : pos ≤ semi := (find_eq_some (by simp) hsemi).1
  omega

/-- `pair.substr(0, eq)` and `pair.substr(eq + 1)` around the first `=`. -/
def split_pair (pair : Bytes) : Option (Bytes × Bytes) :=
  (find pair [0x3d] 0).map fun eq => (pair.take eq, pair.drop (eq + 1))

/-- The calls of `set_cookie` by the constructor. -/
def TikTokLiveClient.seed_cookies (ck : Bytes) : List (Bytes × Bytes) := (pairs_from ck 0).filterMap split_pair

namespace HttpClient

/-- The loop of `HttpClient::cookie` over the header. -/
def lookup (all name : Bytes) : Bytes :=
  ((pairs_from all 0).findSome? fun pair =>
    (split_pair pair).bind fun e => if e.1 = name then some e.2 else none).getD []

/-- `HttpClient::cookie` on the lines of `CURLINFO_COOKIELIST`. -/
def cookie (cookies : List Bytes) (name : Bytes) : Bytes := lookup (cookie_header cookies) name

end HttpClient

/-! ### The pairs of a string -/

section
variable {s a t : Bytes} {q : UInt8} {pos : Nat}

theorem find_mark (ha : q ∉ a) (h : s.drop pos = a ++ q :: t) : find s [q] pos = some (pos + a.length) := by
  have hlen := congrArg List.length h
  rw [List.length_drop, List.length_append, List.length_cons] at hlen
  have hfind : Search.find_after [q] (s.drop pos) = some t := Search.find_after_mark.2 ⟨a, ha, h⟩
  rw [find, hfind, Option.map_some, List.length_singleton]
  congr 1
  omega

theorem find_mark_none (h : q ∉ s.drop pos) : find s [q] pos = none :=
  find_eq_none.2 (Search.find_after_mark_none.2 h)

theorem lt_length_of_drop_ne_nil (h : s.drop pos ≠ []) : pos < s.length :=
  Nat.lt_of_not_le fun hle => h (List.drop_eq_nil_iff.2 hle)

theorem pairs_from_end (h : s.drop pos = []) : pairs_from s pos = [] := by
  have hlen : s.length ≤ pos := List.drop_eq_nil_iff.1 h
  rw [pairs_from, dif_neg (by omega)]

theorem pairs_from_last (hne : s.drop pos ≠ []) (h : 0x3b ∉ s.drop pos) :
    pairs_from s pos = [(s.drop pos).dropWhile (· = 0x20)] := by
  rw [pairs_from, dif_pos (lt_length_of_drop_ne_nil hne)]
  split
  · rfl
  · next hsemi => simp [find_mark_none h] at hsemi

theorem pairs_from_semi (ha : 0x3b ∉ a) (h : s.drop pos = a ++ 0x3b :: t) :
    pairs_from s pos = a.dropWhile (· = 0x20) :: pairs_from s (pos + a.length + 1) := by
  rw [pairs_from, dif_pos (lt_length_of_drop_ne_nil (by simp [h]))]
  split
  · next hsemi => simp [find_mark ha h] at hsemi
  · next semi hsemi =>
    rw [find_mark ha h, Option.some.injEq] at hsemi
    subst hsemi
    simp [h]

end

/-- Up to pairs that are empty, a loop sees the pieces of the text between the `;`. -/
theorem filterMap_pairs_from {β : Type} {f : Bytes → Option β} (hf : f [] = none) (s : Bytes) (pos : Nat) :
    (pairs_from s pos).filterMap f =
      ((s.drop pos).splitOn 0x3b).filterMap fun pair => f (pair.dropWhile (· = 0x20)) := by
  -- on the length of what is left
  induction hn : s.length - pos using Nat.strong_induction_on generalizing pos with
  | _ n ih =>
    by_cases hsemi : 0x3b ∈ s.drop pos
    · obtain ⟨a, t, ht, ha⟩ := List.eq_append_cons_of_mem hsemi
      have hlen := congrArg List.length ht
      rw [List.length_drop, List.length_append, List.length_cons] at hlen
      have hdrop : s.drop (pos + a.length + 1) = t := by
        rw [Nat.add_assoc, ← List.drop_drop, ht]
        simp
      have hrest := ih _ (by omega) (pos + a.length + 1) rfl
      rw [hdrop] at hrest
      rw [pairs_from_semi ha ht, ht, List.splitOn_append_cons_self_of_not_mem ha, List.filterMap_cons,
        List.filterMap_cons, hrest]
    · rw [List.splitOn_eq_singleton hsemi]
      by_cases hnil : s.drop pos = []
      · rw [pairs_from_end hnil, hnil]
        simp [hf]
      · rw [pairs_from_last hnil hsemi]
        rfl

/-- The `name=value` entries of a string, cut at every `;`. -/
def entries (s : Bytes) : List (Bytes × Bytes) :=
  (s.splitOn 0x3b).filterMap fun pair => split_pair (pair.dropWhile (· = 0x20))

theorem split_pair_none {p : Bytes} (h : 0x3d ∉ p) : split_pair p = none := by
  rw [split_pair, find_mark_none h]
  rfl

theorem split_pair_pair {e : Bytes × Bytes} (h : 0x3d ∉ e.1) : split_pair (pair e) = some e := by
  have hfind : find (pair e) [0x3d] 0 = some (0 + e.1.length) := find_mark h rfl
  rw [split_pair, hfind]
  simp [pair]

namespace TikTokLiveClient

theorem seed_cookies_eq (ck : Bytes) : seed_cookies ck = entries ck := filterMap_pairs_from rfl ck 0

end TikTokLiveClient

namespace HttpClient

theorem findSome?_ite {α β : Type} (p : α → Prop) [DecidablePred p] (f : α → β) (l : List α) :
    l.findSome? (fun x => if p x then some (f x) else none) = (l.find? p).map f := by
  induction l with
  | nil => rfl
  | cons x l ih =>
    by_cases h : p x
    · simp [h]
    · simp [h, ih]

theorem lookup_pieces (all name : Bytes) :
    lookup all name = ((all.splitOn 0x3b).findSome? fun pair =>
      (split_pair (pair.dropWhile (· = 0x20))).bind fun e => if e.1 = name then some e.2 else none).getD [] := by
  have hpairs := filterMap_pairs_from
    (f := fun pair => (split_pair pair).bind fun e => if e.1 = name then some e.2 else none) rfl all 0
  rw [lookup, ← List.head?_filterMap, hpairs, List.head?_filterMap, List.drop_zero]

theorem lookup_eq (all name : Bytes) :
    lookup all name = (((entries all).find? fun e => e.1 = name).map Prod.snd).getD [] := by
  rw [lookup_pieces, ← List.head?_filterMap, ← List.filterMap_filterMap, List.head?_filterMap]
  exact congrArg (Option.getD · []) (findSome?_ite (fun e : Bytes × Bytes => e.1 = name) Prod.snd _)

/-- The scan of a running client is this lookup. -/
theorem cookie_scan_eq (name all : Bytes) : cookie_scan name all = lookup all name := by
  rw [lookup_pieces, cookie_scan]
  congr 1
  refine congrArg (List.findSome? · _) (funext fun pair => ?_)
  by_cases heq : 0x3d ∈ pair.dropWhile (· = 0x20)
  · obtain ⟨n, v, hnv, hn⟩ := List.eq_append_cons_of_mem heq
    have hsplit : split_pair (n ++ 0x3d :: v) = some (n, v) := split_pair_pair (e := (n, v)) hn
    simp only [hnv, Search.takeWhile_mark hn, Search.dropWhile_mark hn, hsplit]
    simp
  · simp [heq, split_pair_none heq]

end HttpClient

/-! ### Joined cookies -/

/-- Cookies whose names and values do not run into the separators. -/
structure IsSeed (c : Bytes × Bytes) : Prop where
  name_ne_nil : c.1 ≠ []
  name_no_eq : 0x3d ∉ c.1
  name_no_semicolon : 0x3b ∉ c.1
  name_no_blank : c.1.head? ≠ some 0x20
  value_no_semicolon : 0x3b ∉ c.2

/-- `name1=value1; name2=value2; ...`: any number of blanks after a `;`, which the last cookie may have or not. -/
inductive Joined : List (Bytes × Bytes) → Bytes → Prop
  | nil : Joined [] []
  | last (c : Bytes × Bytes) : Joined [c] (pair c)
  | semi (c : Bytes × Bytes) (blanks : Nat) {cs : List (Bytes × Bytes)} {s : Bytes} (h : Joined cs s) :
    Joined (c :: cs) (pair c ++ 0x3b :: (List.replicate blanks 0x20 ++ s))

theorem dropWhile_blanks (n : Nat) {s : Bytes} (h : s.head? ≠ some 0x20) :
    (List.replicate n 0x20 ++ s).dropWhile (· = 0x20) = s := by
  induction n with
  | zero =>
    rcases s with _ | ⟨c, s⟩
    · rfl
    · have hc : c ≠ 0x20 := by simpa using h
      simp [hc]
  | succ n ih => simpa [List.replicate_succ] using ih

theorem IsSeed.head_pair {c : Bytes × Bytes} (h : IsSeed c) : (pair c).head? ≠ some 0x20 := by
  obtain ⟨name, value⟩ := c
  rcases name with _ | ⟨a, name⟩
  · exact absurd rfl h.name_ne_nil
  · simpa [pair] using h.name_no_blank

theorem IsSeed.pair_no_semicolon {c : Bytes × Bytes} (h : IsSeed c) : 0x3b ∉ pair c := by
  simp [pair, h.name_no_semicolon, h.value_no_semicolon]

theorem IsSeed.split_piece {c : Bytes × Bytes} (h : IsSeed c) (n : Nat) :
    split_pair ((List.replicate n 0x20 ++ pair c).dropWhile (· = 0x20)) = some c := by
  rw [dropWhile_blanks n h.head_pair, split_pair_pair h.name_no_eq]

/-- What was joined is read back, also behind blanks. -/
theorem Joined.entries_eq {cs : List (Bytes × Bytes)} {s : Bytes} (h : Joined cs s) (hcs : ∀ c ∈ cs, IsSeed c)
    (n : Nat) : entries (List.replicate n 0x20 ++ s) = cs := by
  induction h generalizing n with
  | nil =>
    have hblank : 0x3b ∉ List.replicate n (0x20 : UInt8) ++ [] := by simp
    rw [entries, List.splitOn_eq_singleton hblank, List.filterMap_cons, dropWhile_blanks n (by simp)]
    rfl
  | last c =>
    have hc : IsSeed c := hcs c (by simp)
    have hsemi : 0x3b ∉ List.replicate n 0x20 ++ pair c := by simp [hc.pair_no_semicolon]
    rw [entries, List.splitOn_eq_singleton hsemi, List.filterMap_cons, hc.split_piece n]
    rfl
  | semi c m h ih =>
    have hc : IsSeed c := hcs c (by simp)
    have hsemi : 0x3b ∉ List.replicate n 0x20 ++ pair c := by simp [hc.pair_no_semicolon]
    have hrest := ih (fun c' hc' => hcs c' (by simp [hc'])) m
    rw [entries] at hrest
    rw [entries, ← List.append_assoc, List.splitOn_append_cons_self_of_not_mem hsemi, List.filterMap_cons,
      hc.split_piece n, hrest]

theorem Joined.intercalate (cs : List (Bytes × Bytes)) : Joined cs (List.intercalate [0x3b, 0x20] (cs.map pair)) := by
  induction cs with
  | nil => exact .nil
  | cons c cs ih =>
    rcases cs with _ | ⟨c', cs⟩
    · simpa using Joined.last c
    · simpa [List.intercalate_cons_cons] using Joined.semi c 1 ih

theorem NetscapeCookie.isSeed {c : NetscapeCookie} (h : c.name.head? ≠ some 0x20) : IsSeed c.entry :=
  ⟨c.name_ne_nil, c.name_no_eq, c.name_no_semicolon, h, c.value_no_semicolon⟩

theorem seed_cookies_joined {cs : List (Bytes × Bytes)} {s : Bytes} (h : Joined cs s) (hcs : ∀ c ∈ cs, IsSeed c) :
    TikTokLiveClient.seed_cookies s = cs := by
  rw [TikTokLiveClient.seed_cookies_eq]
  exact h.entries_eq hcs 0

theorem cookie_lines {cs : List NetscapeCookie} (hcs : ∀ c ∈ cs, c.name.head? ≠ some 0x20) (name : Bytes) :
    HttpClient.cookie (cs.map NetscapeCookie.line) name =
      ((cs.find? fun c => c.name = name).map NetscapeCookie.value).getD [] := by
  have hseed : ∀ e ∈ cs.map NetscapeCookie.entry, IsSeed e := by
    intro e he
    rcases List.mem_map.1 he with ⟨c, hc, rfl⟩
    exact c.isSeed (hcs c hc)
  have hread : entries (List.intercalate [0x3b, 0x20] (cs.map fun c => pair c.entry)) =
      cs.map NetscapeCookie.entry := by
    have h := (Joined.intercalate (cs.map NetscapeCookie.entry)).entries_eq hseed 0
    rwa [List.map_map] at h
  rw [HttpClient.cookie, HttpClient.cookie_header_map_line, HttpClient.lookup_eq, hread, List.find?_map,
    Option.map_map]
  rfl

/-- What was joined is parsed back, by the constructor and by the lookup of a name. -/
theorem cookies_read_back :
    (∀ cs s, Joined cs s → (∀ c ∈ cs, IsSeed c) → TikTokLiveClient.seed_cookies s = cs) ∧
      ∀ cs : List NetscapeCookie, (∀ c ∈ cs, c.name.head? ≠ some 0x20) →
        ∀ name, HttpClient.cookie (cs.map NetscapeCookie.line) name =
          ((cs.find? fun c => c.name = name).map NetscapeCookie.value).getD [] :=
  ⟨fun _ _ h hcs => seed_cookies_joined h hcs, fun _ hcs name => cookie_lines hcs name⟩

/-- Two cookies with one name, the first without a value. -/
def repeated_name : List NetscapeCookie := [
  { domain := lit ".tiktok.com", flag := lit "TRUE", path := lit "/", secure := lit "FALSE", expiry := lit "0",
    name := lit "sid", value := [], no_tab := by decide, name_ne_nil := by decide, name_no_eq := by decide,
    name_no_semicolon := by decide, value_no_semicolon := by decide },
  { domain := lit "tiktok.com", flag := lit "TRUE", path := lit "/", secure := lit "FALSE", expiry := lit "0",
    name := lit "sid", value := lit "x=y", no_tab := by decide, name_ne_nil := by decide, name_no_eq := by decide,
    name_no_semicolon := by decide, value_no_semicolon := by decide }]

theorem repeated_name_read_back :
    TikTokLiveClient.seed_cookies (lit "a=;  b=x=y; ") = [(lit "a", []), (lit "b", lit "x=y")] ∧
      HttpClient.cookie (repeated_name.map NetscapeCookie.line) (lit "sid") = [] := by
  have hjoined : Joined [(lit "a", []), (lit "b", lit "x=y")] (lit "a=;  b=x=y; ") :=
    .semi _ 2 (.semi _ 1 .nil)
  refine ⟨cookies_read_back.1 _ _ hjoined ?_, cookies_read_back.2 repeated_name (by decide) (lit "sid")⟩
  intro c hc
  rcases List.mem_cons.1 hc with rfl | hc
  · exact ⟨by decide, by decide, by decide, by decide, by decide⟩
  · rw [List.mem_singleton.1 hc]
    exact ⟨by decide, by decide, by decide, by decide, by decide⟩

end TtLive
