import Mathlib.Data.Bool.AllAny
import TtLive.GiftWalk
import TtLive.WebDefaults

/-!
# The user name of a client

`clean_unique_id` takes a handle out of what a user may paste: blanks, the address of the site, an `@` and `/live`
around it. The trim comes last, so a blank in front hides the `@` (`Decoration.clean_text`).
-/

namespace TtLive
open Search

/-- `pos = s.find(needle)`, and `s.erase(pos, needle.size())` if there is one. -/
def erase_first (s needle : Bytes) : Bytes :=
  match find s needle 0 with
  | none => s
  | some pos => s.take pos ++ s.drop (pos + needle.length)

/-- `std::isspace` in the "C" locale. -/
def is_space (c : UInt8) : Bool := c = 0x20 ∨ 0x09 ≤ c ∧ c ≤ 0x0d

def clean_unique_id (id : Bytes) : Bytes :=
  let app := web_defaults.kAppUrl
  let id := erase_first id (app ++ lit "/")
  let id := erase_first id (lit "/live")
  let id := if id.head? = some 0x40 then id.tail else id
  let id := id.dropWhile is_space
  (id.reverse.dropWhile is_space).reverse

/-! ### Decorated handles -/

def HandleChar (c : UInt8) : Prop :=
  0x30 ≤ c ∧ c ≤ 0x39 ∨ 0x41 ≤ c ∧ c ≤ 0x5a ∨ 0x61 ≤ c ∧ c ≤ 0x7a ∨ c = 0x2e ∨ c = 0x5f

instance (c : UInt8) : Decidable (HandleChar c) := inferInstanceAs (Decidable (_ ∨ _))

structure Handle where
  name : Bytes
  name_ne_nil : name ≠ []
  valid : ∀ c ∈ name, HandleChar c

/-- What stands around a handle. -/
structure Decoration where
  leading : Bytes
  trailing : Bytes
  url : Bool
  at_sign : Bool
  live : Bool
  leading_space : ∀ c ∈ leading, is_space c
  trailing_space : ∀ c ∈ trailing, is_space c

namespace Decoration

def at_text (d : Decoration) : Bytes := if d.at_sign then [0x40] else []

def url_text (d : Decoration) : Bytes := if d.url then web_defaults.kAppUrl ++ lit "/" else []

def live_text (d : Decoration) : Bytes := if d.live then lit "/live" else []

def text (d : Decoration) (h : Handle) : Bytes :=
  d.leading ++ (d.url_text ++ (d.at_text ++ h.name ++ (d.live_text ++ d.trailing)))

end Decoration

/-! ### The steps -/

section
variable {s needle a t : Bytes} {q : UInt8}

theorem erase_first_of_not_mem (hq : q ∈ needle) (hs : q ∉ s) : erase_first s needle = s := by
  have hnone : find s needle 0 = none := by
    rw [find_eq_none, List.drop_zero]
    rcases hfind : find_after needle s with _ | t
    · rfl
    · obtain ⟨x, rfl⟩ := find_after_some hfind
      exact absurd (by simp [hq]) hs
  rw [erase_first, hnone]

theorem erase_first_at (ha : q ∉ a) : erase_first (a ++ (q :: needle ++ t)) (q :: needle) = a ++ t := by
  have hafter : find_after (q :: needle) (a ++ (q :: needle ++ t)) = some t := by
    rw [List.cons_append, find_after_append ha]
    exact find_after_at rfl
  have hfind : find (a ++ (q :: needle ++ t)) (q :: needle) 0 = some a.length := by
    rw [find, List.drop_zero, hafter, Option.map_some]
    simp
    omega
  rw [erase_first, hfind]
  simp [List.drop_append]

theorem dropWhile_space {ws : Bytes} (hws : ∀ c ∈ ws, is_space c) {x : Bytes} (hne : x ≠ [])
    (hx : ∀ c ∈ x, is_space c = false) (y : Bytes) : (ws ++ (x ++ y)).dropWhile is_space = x ++ y := by
  rcases x with _ | ⟨c, x⟩
  · exact absurd rfl hne
  · rw [List.dropWhile_append_of_pos hws, List.cons_append, List.dropWhile_cons_of_neg (by simp [hx c])]

theorem trim_space {ws x ws' : Bytes} (hws : ∀ c ∈ ws, is_space c) (hne : x ≠ []) (hx : ∀ c ∈ x, is_space c = false)
    (hws' : ∀ c ∈ ws', is_space c) :
    (((ws ++ (x ++ ws')).dropWhile is_space).reverse.dropWhile is_space).reverse = x := by
  have hback : (ws'.reverse ++ (x.reverse ++ [])).dropWhile is_space = x.reverse ++ [] :=
    dropWhile_space (by simpa using hws') (by simpa using hne) (by simpa using hx) []
  rw [List.append_nil] at hback
  rw [dropWhile_space hws hne hx, List.reverse_append, hback, List.reverse_reverse]

theorem HandleChar.plain {c : UInt8} (h : HandleChar c) : is_space c = false ∧ c ≠ 0x40 ∧ c ≠ 0x2f ∧ c ≠ 0x3a := by
  simp only [HandleChar, UInt8.le_iff_toNat_le, ← UInt8.toNat_inj] at h
  simp only [is_space, UInt8.le_iff_toNat_le, ← UInt8.toNat_inj, decide_eq_false_iff_not, ne_eq]
  simp at *
  omega

theorem space_ne {b c : UInt8} (hc : is_space c) (hb : is_space b = false) : c ≠ b := by
  rintro rfl
  rw [hb] at hc
  cases hc

theorem not_mem_blanks {ws : Bytes} {b : UInt8} (hws : ∀ c ∈ ws, is_space c) (hb : is_space b = false) : b ∉ ws :=
  fun hmem => space_ne (hws b hmem) hb rfl

end

namespace Decoration

variable (d : Decoration) (h : Handle)

/-- What is left between the blanks once the address and the suffix are gone. -/
def core : Bytes := d.at_text ++ h.name

theorem not_mem_core {c : UInt8} (hc : c = 0x2f ∨ c = 0x3a) : c ∉ d.core h := by
  intro hmem
  rcases List.mem_append.1 hmem with hat | hname
  · rw [at_text] at hat
    rcases hc with rfl | rfl <;> split at hat <;> simp at hat
  · obtain ⟨-, -, hslash, hcolon⟩ := (h.valid c hname).plain
    exact hc.elim hslash hcolon

theorem erase_url : erase_first (d.text h) (web_defaults.kAppUrl ++ lit "/") =
    d.leading ++ (d.core h ++ (d.live_text ++ d.trailing)) := by
  have hneedle : web_defaults.kAppUrl ++ lit "/" = 0x68 :: (web_defaults.kAppUrl ++ lit "/").tail := by decide
  rcases hurl : d.url with _ | _
  · have hcolon : (0x3a : UInt8) ∉ d.live_text ++ d.trailing := by
      intro hmem
      rcases List.mem_append.1 hmem with hlive | htrailing
      · rw [live_text] at hlive
        split at hlive
        · exact absurd hlive (by decide)
        · simp at hlive
      · exact not_mem_blanks d.trailing_space rfl htrailing
    have hleading : (0x3a : UInt8) ∉ d.leading := not_mem_blanks d.leading_space rfl
    have htext : d.text h = d.leading ++ (d.core h ++ (d.live_text ++ d.trailing)) := by
      simp [text, url_text, hurl, core]
    rw [htext, erase_first_of_not_mem (q := 0x3a) (by decide)]
    simp only [List.mem_append, not_or] at hcolon ⊢
    exact ⟨hleading, by simpa using d.not_mem_core h (.inr rfl), hcolon⟩
  · have hleading : (0x68 : UInt8) ∉ d.leading := not_mem_blanks d.leading_space rfl
    have htext : d.text h = d.leading ++ (0x68 :: (web_defaults.kAppUrl ++ lit "/").tail ++
        (d.core h ++ (d.live_text ++ d.trailing))) := by
      rw [← hneedle]
      simp [text, url_text, hurl, core]
    rw [htext, hneedle, List.tail_cons]
    exact erase_first_at hleading

theorem erase_live :
    erase_first (d.leading ++ (d.core h ++ (d.live_text ++ d.trailing))) (lit "/live") =
      d.leading ++ (d.core h ++ d.trailing) := by
  have hfront : (0x2f : UInt8) ∉ d.leading ++ d.core h := by
    rw [List.mem_append, not_or]
    exact ⟨not_mem_blanks d.leading_space rfl, d.not_mem_core h (.inl rfl)⟩
  rcases hlive : d.live with _ | _
  · have htrailing : (0x2f : UInt8) ∉ d.trailing := not_mem_blanks d.trailing_space rfl
    rw [live_text, hlive, erase_first_of_not_mem (q := 0x2f) (by decide)]
    · rfl
    · rw [List.mem_append, not_or] at hfront
      simp [hfront, htrailing]
  · rw [live_text, hlive, ← List.append_assoc]
    exact (erase_first_at hfront).trans (List.append_assoc _ _ _)

/-- The `@` stands behind a blank. -/
def Hidden : Prop := d.leading ≠ [] ∧ d.at_sign = true

instance : Decidable d.Hidden := inferInstanceAs (Decidable (_ ∧ _))

theorem strip_at :
    (if (d.leading ++ (d.core h ++ d.trailing)).head? = some 0x40 then (d.leading ++ (d.core h ++ d.trailing)).tail
      else d.leading ++ (d.core h ++ d.trailing)) =
      d.leading ++ ((if d.Hidden then d.core h else h.name) ++ d.trailing) := by
  rcases hat : d.at_sign with _ | _
  · have hcore : d.core h = h.name := by simp [core, at_text, hat]
    have hhead : (d.leading ++ (h.name ++ d.trailing)).head? ≠ some 0x40 := by
      rcases hleading : d.leading with _ | ⟨c, ws⟩
      · rcases hname : h.name with _ | ⟨c, name⟩
        · exact absurd hname h.name_ne_nil
        · have hc : c ≠ 0x40 := (h.valid c (by simp [hname])).plain.2.1
          simpa using hc
      · have hc : c ≠ 0x40 := space_ne (d.leading_space c (by simp [hleading])) rfl
        simpa using hc
    rw [hcore, if_neg hhead, ite_self]
  · have hcore : d.core h = 0x40 :: h.name := by simp [core, at_text, hat]
    rcases hleading : d.leading with _ | ⟨c, ws⟩
    · simp [hcore, Hidden, hleading]
    · have hc : c ≠ 0x40 := space_ne (d.leading_space c (by simp [hleading])) rfl
      simp [hc, Hidden, hleading, hat]

/-- A handle comes out as it is, or behind its `@` if a blank stood in front. -/
theorem clean_text : clean_unique_id (d.text h) = if d.Hidden then 0x40 :: h.name else h.name := by
  have hspace : ∀ c ∈ h.name, is_space c = false := fun c hc => (h.valid c hc).plain.1
  unfold clean_unique_id
  simp only [d.erase_url h, d.erase_live h, d.strip_at h]
  split
  · next hhidden =>
    have hcore : d.core h = 0x40 :: h.name := by simp [core, at_text, hhidden.2]
    rw [hcore]
    refine trim_space d.leading_space (List.cons_ne_nil _ _) ?_ d.trailing_space
    intro c hc
    rcases List.mem_cons.1 hc with rfl | hc
    · rfl
    · exact hspace c hc
  · exact trim_space d.leading_space h.name_ne_nil hspace d.trailing_space

end Decoration

/-- A decoration without blanks. -/
def Decoration.bare (at_sign : Bool) : Decoration where
  leading := []
  trailing := []
  url := false
  at_sign := at_sign
  live := false
  leading_space := by simp
  trailing_space := by simp

theorem clean_name (h : Handle) : clean_unique_id h.name = h.name := by
  have hbare := (Decoration.bare false).clean_text h
  simpa [Decoration.text, Decoration.bare, Decoration.url_text, Decoration.at_text, Decoration.live_text,
    Decoration.Hidden] using hbare

theorem clean_at_name (h : Handle) : clean_unique_id (0x40 :: h.name) = h.name := by
  have hbare := (Decoration.bare true).clean_text h
  simpa [Decoration.text, Decoration.bare, Decoration.url_text, Decoration.at_text, Decoration.live_text,
    Decoration.Hidden] using hbare

/-- A second call gives the handle in any case. -/
theorem clean_twice (h : Handle) (d : Decoration) : clean_unique_id (clean_unique_id (d.text h)) = h.name := by
  rw [d.clean_text h]
  split_ifs
  · exact clean_at_name h
  · exact clean_name h

/-- A decorated handle is cleaned, and cleaned once and for all, unless its `@` stands behind a blank. -/
theorem clean_unique_id_iff (h : Handle) (d : Decoration) :
    clean_unique_id (d.text h) = h.name ∧ clean_unique_id (clean_unique_id (d.text h)) = clean_unique_id (d.text h) ↔
      ¬ (d.leading ≠ [] ∧ d.at_sign = true) := by
  rw [d.clean_text h]
  by_cases hhidden : d.Hidden
  · have hlen : (0x40 :: h.name : Bytes) ≠ h.name := fun heq => by simpa using congrArg List.length heq
    rw [if_pos hhidden]
    exact iff_of_false (fun hclean => hlen hclean.1) (not_not_intro hhidden)
  · rw [if_neg hhidden]
    exact iff_of_true ⟨rfl, clean_name h⟩ hhidden

def alice : Handle where
  name := lit "alice"
  name_ne_nil := by decide
  valid := List.all_iff_forall_prop.1 (by decide)

def behind_blank : Decoration where
  leading := [0x20]
  trailing := []
  url := false
  at_sign := true
  live := false
  leading_space := List.all_iff_forall_prop.1 (by decide)
  trailing_space := List.all_iff_forall_prop.1 (by decide)

theorem blank_hides_at : ¬ ∀ (h : Handle) (d : Decoration), clean_unique_id (d.text h) = h.name ∧
    clean_unique_id (clean_unique_id (d.text h)) = clean_unique_id (d.text h) := by
  intro hall
  have hclean : clean_unique_id (behind_blank.text alice) = lit "@alice" := by decide
  exact absurd ((hall alice behind_blank).1.symm.trans hclean) (by decide)

end TtLive
