import TtLive.JavaScript
import TtLive.Utf8

/-!
# The tokens of a script

A lexer that takes one character at a time, over bytes or over code points (`CodeUnit`). It covers what generated
scripts are made of: words, string literals, punctuators one character at a time, and regular expressions where
no operand can end. It stops at everything else: comments, templates, divisions, escapes outside ASCII.
-/

namespace JavaScript

/-- Characters with ASCII among them. -/
class CodeUnit (α : Type) where
  code : α → Nat
  of_code : Nat → α
  code_of_code : ∀ n < 0x80, code (of_code n) = n
  of_code_code : ∀ c, code c < 0x80 → of_code (code c) = c

open CodeUnit

instance : CodeUnit UInt8 where
  code := UInt8.toNat
  of_code := UInt8.ofNat
  code_of_code n hn := by
    rw [UInt8.toNat_ofNat']
    exact Nat.mod_eq_of_lt (Nat.lt_trans hn (by decide))
  of_code_code c _ := UInt8.ofNat_toNat

instance : CodeUnit Char where
  code := Char.toNat
  of_code := Char.ofNat
  code_of_code n hn := Utf8.toNat_ofNat (.inl (Nat.lt_trans hn (by decide)))
  of_code_code c _ := Char.ofNat_toNat c

inductive Token (α : Type)
  | word (w : List α)
  | string (v : List α)
  | regex (body : List α)
  | punctuator (c : α)
deriving DecidableEq

/-- What the next character belongs to. A `/` in `code` opens a regular expression if `operand` is false. -/
inductive Mode (α : Type)
  | code (operand : Bool)
  | word (w : List α)
  | string (quote : Nat) (v : List α)
  | escape (quote : Nat) (v : List α)
  | unicode (quote : Nat) (v : List α) (left n : Nat)
  | regex (body : List α) (in_class escaped : Bool)
deriving DecidableEq

/-- The lexer ends between two tokens. -/
def at_boundary {α : Type} : Option (Mode α × List (Token α)) → Bool
  | some (.code _, _) => true
  | _ => false

theorem at_boundary_iff {α : Type} {r : Option (Mode α × List (Token α))} :
    at_boundary r = true ↔ ∃ operand ts, r = some (.code operand, ts) := by
  constructor
  · intro h
    unfold at_boundary at h
    split at h
    · next operand ts => exact ⟨operand, ts, rfl⟩
    · cases h
  · rintro ⟨operand, ts, rfl⟩
    rfl

def word_code (n : Nat) : Bool :=
  (0x30 ≤ n && n ≤ 0x39) || (0x41 ≤ n && n ≤ 0x5a) || (0x61 ≤ n && n ≤ 0x7a) || n == 0x5f || n == 0x24

def space_code (n : Nat) : Bool := n == 0x20 || n == 0x09 || n == 0x0a || n == 0x0d

/-- The characters of the punctuators, the slash apart. -/
def punctuator_code (n : Nat) : Bool :=
  n ∈ [0x28, 0x29, 0x7b, 0x7d, 0x5b, 0x5d, 0x3b, 0x2c, 0x2e, 0x3d, 0x7c, 0x26, 0x21, 0x3c, 0x3e, 0x2b, 0x2d, 0x3f,
    0x3a, 0x2a, 0x25, 0x5e, 0x7e]

def hex_code (n : Nat) : Option Nat := if n < 0x80 then hex_value (UInt8.ofNat n) else none

section
variable {α : Type} [CodeUnit α]

/-- Between two tokens. -/
def step_code (operand : Bool) (c : α) : Option (Mode α × List (Token α)) :=
  if space_code (code c) then some (.code operand, [])
  else if word_code (code c) then some (.word [c], [])
  else if code c = 0x22 ∨ code c = 0x27 then some (.string (code c) [], [])
  else if code c = 0x2f then if operand then none else some (.regex [] false false, [])
  else if punctuator_code (code c) then
    some (.code (code c = 0x29 || code c = 0x5d || code c = 0x7d), [.punctuator c])
  else none

/-- The mode after a character, and the token that it completes. -/
def step : Mode α → α → Option (Mode α × List (Token α))
  | .code operand, c => step_code operand c
  | .word w, c =>
    if word_code (code c) then some (.word (w ++ [c]), [])
    else (step_code true c).map fun r => (r.1, .word w :: r.2)
  | .string quote v, c =>
    if code c = quote then some (.code true, [.string v])
    else if code c = 0x5c then some (.escape quote v, [])
    else if code c = 0x0a ∨ code c = 0x0d then none
    else some (.string quote (v ++ [c]), [])
  | .escape quote v, c =>
    if code c = 0x22 ∨ code c = 0x5c then some (.string quote (v ++ [c]), [])
    else if code c = 0x6e then some (.string quote (v ++ [of_code 0x0a]), [])
    else if code c = 0x72 then some (.string quote (v ++ [of_code 0x0d]), [])
    else if code c = 0x74 then some (.string quote (v ++ [of_code 0x09]), [])
    else if code c = 0x75 then some (.unicode quote v 3 0, [])
    else none
  | .unicode quote v left n, c =>
    match hex_code (code c) with
    | none => none
    | some d =>
      if left ≠ 0 then some (.unicode quote v (left - 1) (16 * n + d), [])
      else if 16 * n + d < 0x80 then some (.string quote (v ++ [of_code (16 * n + d)]), [])
      else none
  | .regex body in_class escaped, c =>
    if code c = 0x0a ∨ code c = 0x0d then none
    else if escaped then some (.regex (body ++ [c]) in_class false, [])
    else if code c = 0x2f ∧ ¬ in_class then if body = [] then none else some (.code true, [.regex body])
    else if body = [] ∧ code c = 0x2a then none
    else some (.regex (body ++ [c]) (if code c = 0x5b then true else if code c = 0x5d then false else in_class)
      (code c = 0x5c), [])

def run (m : Mode α) : List α → Option (Mode α × List (Token α))
  | [] => some (m, [])
  | c :: s =>
    match step m c with
    | none => none
    | some (m₁, ts) => (run m₁ s).map fun r => (r.1, ts ++ r.2)

/-- The tokens of a script. -/
def tokens (s : List α) : Option (List (Token α)) :=
  match run (.code false) s with
  | some (.code _, ts) => some ts
  | some (.word w, ts) => some (ts ++ [.word w])
  | _ => none

theorem run_append {m m₁ : Mode α} {s : List α} {ts : List (Token α)} (h : run m s = some (m₁, ts)) (t : List α) :
    run m (s ++ t) = (run m₁ t).map fun r => (r.1, ts ++ r.2) := by
  induction s generalizing m ts with
  | nil =>
    obtain ⟨rfl, rfl⟩ : m = m₁ ∧ [] = ts := by simpa [run] using h
    cases hr : run m t with
    | none => simp [hr]
    | some r => simp [hr]
  | cons c s ih =>
    rw [List.cons_append, run]
    rw [run] at h
    cases hc : step m c with
    | none =>
      rw [hc] at h
      cases h
    | some r =>
      obtain ⟨m₂, ts₂⟩ := r
      rw [hc] at h
      obtain ⟨r, hr, heq⟩ := Option.map_eq_some_iff.1 h
      obtain ⟨rfl, rfl⟩ : r.1 = m₁ ∧ ts₂ ++ r.2 = ts := by simpa using heq
      show (run m₂ (s ++ t)).map _ = _
      rw [@ih m₂ r.2 hr, Option.map_map]
      simp [Function.comp_def]

theorem run_three {m m₁ m₂ m₃ : Mode α} {s t u : List α} {ts ts' ts'' : List (Token α)} (hs : run m s = some (m₁, ts))
    (ht : run m₁ t = some (m₂, ts')) (hu : run m₂ u = some (m₃, ts'')) :
    run m (s ++ t ++ u) = some (m₃, ts ++ ts' ++ ts'') := by
  have hst : run m (s ++ t) = some (m₂, ts ++ ts') := by rw [run_append hs, ht]; rfl
  rw [run_append hst, hu]
  rfl

/-! ### Quoting -/

theorem hex_digit_ascii {n : Nat} (h : n < 16) : (hex_digit n).toNat < 0x80 := by
  have : ∀ n < 16, (hex_digit n).toNat < 0x80 := by decide
  exact this n h

/-- A character of a string as it stands between double quotes. -/
def quote_unit (c : α) : List α :=
  if code c = 0x22 ∨ code c = 0x5c then [of_code 0x5c, c]
  else if code c = 0x0a then [of_code 0x5c, of_code 0x6e]
  else if code c = 0x0d then [of_code 0x5c, of_code 0x72]
  else if code c = 0x09 then [of_code 0x5c, of_code 0x74]
  else if code c < 0x20 then
    [0x5c, 0x75, 0x30, 0x30, (hex_digit (code c / 16)).toNat, (hex_digit (code c % 16)).toNat].map of_code
  else [c]

theorem quote_unit_plain {c : α} (h₁ : code c ≠ 0x22 ∧ code c ≠ 0x5c) (h₂ : 0x20 ≤ code c) : quote_unit c = [c] := by
  unfold quote_unit
  rw [if_neg (not_or.2 h₁), if_neg (by omega), if_neg (by omega), if_neg (by omega), if_neg (by omega)]

theorem quote_unit_control {c : α} (h₁ : code c ≠ 0x0a ∧ code c ≠ 0x0d ∧ code c ≠ 0x09) (h₂ : code c < 0x20) :
    quote_unit c =
      [0x5c, 0x75, 0x30, 0x30, (hex_digit (code c / 16)).toNat, (hex_digit (code c % 16)).toNat].map of_code := by
  unfold quote_unit
  rw [if_neg (by omega), if_neg h₁.1, if_neg h₁.2.1, if_neg h₁.2.2, if_pos h₂]

/-- Quoting does not depend on the alphabet. -/
theorem quote_unit_map {β : Type} [CodeUnit β] {f : α → β} (hof : ∀ n < 0x80, f (of_code n) = of_code n) {c : α}
    (hc : code (f c) = code c) : (quote_unit c).map f = quote_unit (f c) := by
  unfold quote_unit
  rw [hc]
  split_ifs
  · simp [hof]
  · simp [hof]
  · simp [hof]
  · simp [hof]
  · have hhi := @hex_digit_ascii (code c / 16) (by omega)
    have hlo := @hex_digit_ascii (code c % 16) (by omega)
    simp [hof, hhi, hlo]
  · rfl

/-- A string literal that stands for `s`. -/
def quote (s : List α) : List α := of_code 0x22 :: s.flatMap quote_unit ++ [of_code 0x22]

theorem code_ascii {n : Nat} (hn : n < 0x80 := by decide) : code (of_code n : α) = n := code_of_code n hn

theorem quote_unit_ascii {c : α} (hc : code c < 0x80) : ∀ d ∈ quote_unit c, code d < 0x80 := by
  have hof : ∀ n < 0x80, code (of_code n : α) < 0x80 := fun n hn =>
    (code_of_code n hn).trans_lt hn
  unfold quote_unit
  split_ifs
  · simp [hof, hc]
  · simp [hof]
  · simp [hof]
  · simp [hof]
  · have hhi := @hex_digit_ascii (code c / 16) (by omega)
    have hlo := @hex_digit_ascii (code c % 16) (by omega)
    simp [hof, hhi, hlo]
  · simpa using hc

theorem hex_code_digit {n : Nat} (h : n < 16) :
    hex_code (code (of_code (hex_digit n).toNat : α)) = some n := by
  rw [code_ascii (hex_digit_ascii h), hex_code, if_pos (hex_digit_ascii h), UInt8.ofNat_toNat, hex_value_hex_digit h]

theorem run_cons {m m₁ : Mode α} {c : α} (h : step m c = some (m₁, [])) (s : List α) :
    run m (c :: s) = run m₁ s := by
  rw [run, h]
  show (run m₁ s).map _ = _
  simp

section
variable {c : α} (v s : List α)

theorem run_plain (h : code c ≠ 0x22 ∧ code c ≠ 0x5c ∧ code c ≠ 0x0a ∧ code c ≠ 0x0d) :
    run (.string 0x22 v) (c :: s) = run (.string 0x22 (v ++ [c])) s := by
  refine run_cons ?_ s
  simp [step, h]

theorem run_backslash : run (.string 0x22 v) (of_code 0x5c :: s) = run (.escape 0x22 v) s := by
  refine run_cons ?_ s
  simp [step, @code_ascii α]

theorem run_unicode {n : Nat} (hn : n < 0x80) :
    run (.string 0x22 v)
        ([0x5c, 0x75, 0x30, 0x30, (hex_digit (n / 16)).toNat, (hex_digit (n % 16)).toNat].map of_code ++ s) =
      run (.string 0x22 (v ++ [of_code n])) s := by
  have hzero : hex_code (code (of_code 0x30 : α)) = some 0 := @hex_code_digit α _ 0 (by decide)
  have hhi : hex_code (code (of_code (hex_digit (n / 16)).toNat : α)) = some (n / 16) := hex_code_digit (by omega)
  have hlo : hex_code (code (of_code (hex_digit (n % 16)).toNat : α)) = some (n % 16) := hex_code_digit (by omega)
  have hval : 16 * (n / 16) + n % 16 = n := by omega
  refine (run_backslash v _).trans ?_
  refine (@run_cons _ _ _ (.unicode 0x22 v 3 0) _ ?_ _).trans ?_
  · simp [step, @code_ascii α]
  refine (@run_cons _ _ _ (.unicode 0x22 v 2 0) _ ?_ _).trans ?_
  · simp [step, hzero]
  refine (@run_cons _ _ _ (.unicode 0x22 v 1 0) _ ?_ _).trans ?_
  · simp [step, hzero]
  refine (@run_cons _ _ _ (.unicode 0x22 v 0 (n / 16)) _ ?_ _).trans ?_
  · simp [step, hhi]
  refine (@run_cons _ _ _ (.string 0x22 (v ++ [of_code n])) _ ?_ _).trans ?_
  · simp [step, hlo, hval, hn]
  rfl

/-- In a literal, what is written for a character reads as the character. -/
theorem run_quote_unit (c : α) :
    run (.string 0x22 v) (quote_unit c ++ s) = run (.string 0x22 (v ++ [c])) s := by
  have hof : ∀ n < 0x80, code c = n → of_code n = c := fun n hn h => h ▸ of_code_code c (h ▸ hn)
  unfold quote_unit
  split_ifs with h₁ h₂ h₃ h₄ h₅
  · refine (run_backslash v _).trans (run_cons ?_ _)
    rw [step, if_pos h₁]
  · refine (run_backslash v _).trans (run_cons ?_ _)
    simp [step, @code_ascii α, hof 0x0a (by decide) h₂]
  · refine (run_backslash v _).trans (run_cons ?_ _)
    simp [step, @code_ascii α, hof 0x0d (by decide) h₃]
  · refine (run_backslash v _).trans (run_cons ?_ _)
    simp [step, @code_ascii α, hof 0x09 (by decide) h₄]
  · have hlt : code c < 0x80 := Nat.lt_trans h₅ (by decide)
    have h := run_unicode v s hlt
    rw [of_code_code c hlt] at h
    exact h
  · rw [not_or] at h₁
    exact run_plain v s ⟨h₁.1, h₁.2, h₂, h₃⟩

end

theorem run_quoted (v s rest : List α) :
    run (.string 0x22 v) (s.flatMap quote_unit ++ rest) = run (.string 0x22 (v ++ s)) rest := by
  induction s generalizing v with
  | nil => rw [List.append_nil]; rfl
  | cons c s ih =>
    rw [List.flatMap_cons, List.append_assoc, run_quote_unit, ih, List.append_assoc]
    rfl

/-- A quoted string is one token, and the lexer stands behind it. -/
theorem run_quote (operand : Bool) (s : List α) :
    run (.code operand) (quote s) = some (.code true, [.string s]) := by
  have hopen : step (.code operand) (of_code 0x22 : α) = some (.string 0x22 [], []) := by
    simp [step, step_code, @code_ascii α, space_code, word_code]
  have hclose : step (.string 0x22 s) (of_code 0x22 : α) = some (.code true, [.string s]) := by
    simp [step, @code_ascii α]
  unfold quote
  rw [List.cons_append, run_cons hopen, run_quoted, List.nil_append, run, hclose]
  rfl

/-- In a fixed script around a string that is quoted twice, only the two string tokens depend on the string. -/
theorem tokens_template {a b c : List α} (ha : at_boundary (run (.code false) a) = true)
    (hb : at_boundary (run (.code true) b) = true) (hc : at_boundary (run (.code true) c) = true) :
    ∃ before between behind : List (Token α), ∀ s,
      tokens (a ++ quote s ++ b ++ quote s ++ c) = some (before ++ .string s :: between ++ .string s :: behind) := by
  obtain ⟨m₁, ts, ha⟩ := at_boundary_iff.1 ha
  obtain ⟨m₂, ts', hb⟩ := at_boundary_iff.1 hb
  obtain ⟨m₃, ts'', hc⟩ := at_boundary_iff.1 hc
  refine ⟨ts, ts', ts'', fun s => ?_⟩
  have h := run_three (run_three ha (run_quote m₁ s) hb) (run_quote m₂ s) hc
  unfold tokens
  rw [h]
  simp

end

end JavaScript
