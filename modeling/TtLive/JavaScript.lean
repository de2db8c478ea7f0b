import Mathlib.Data.List.Infix
import Mathlib.Data.List.Sort
import Mathlib.Data.UInt

/-!
# The JavaScript that a browser shim rests on

Strings are kept as their UTF-8 bytes: `trim`, string literals, the URI component functions. An object without
a class is the list of its own properties in the order in which they were created; only string values occur.
-/

namespace JavaScript

abbrev Str := List UInt8

/-! ### `trim`, with white space given as a set of strings -/

section
variable {α : Type} {ws : List (List α)} {s t : List α}

def Starts (ws : List (List α)) (s : List α) : Prop := ∃ w ∈ ws, w <+: s

theorem Starts.mono (h : Starts ws s) (hst : s <+: t) : Starts ws t := by
  obtain ⟨w, hw, hp⟩ := h
  exact ⟨w, hw, hp.trans hst⟩

/-- A character that occurs in no string of `ws` ends the part that can be stripped. -/
theorem not_starts_append {c : α} (hc : ∀ w ∈ ws, c ∉ w) (hs : ¬ Starts ws s) (t : List α) :
    ¬ Starts ws (s ++ c :: t) := by
  rintro ⟨w, hw, hp⟩
  have hsc : s ++ [c] <+: s ++ c :: t := (List.prefix_append_right_inj s).2 (by simp)
  rcases List.prefix_or_prefix_of_prefix hp hsc with h | h
  · rcases List.prefix_concat_iff.1 h with rfl | h
    · exact hc _ hw (by simp)
    · exact hs ⟨w, hw, h⟩
  · exact hc w hw (h.subset (by simp))

variable [DecidableEq α]

/-- Drops strings of `ws` from the front, at most `n` times. -/
def strip (ws : List (List α)) : Nat → List α → List α
  | 0, s => s
  | n + 1, s =>
    match ws.find? (·.isPrefixOf s) with
    | none => s
    | some w => strip ws n (s.drop w.length)

theorem find_prefix_eq_none : ws.find? (·.isPrefixOf s) = none ↔ ¬ Starts ws s := by
  simp [Starts, List.find?_eq_none]

theorem strip_eq_self (h : ¬ Starts ws s) (n : Nat) : strip ws n s = s := by
  cases n with
  | zero => rfl
  | succ n => rw [strip, find_prefix_eq_none.2 h]

theorem strip_suffix (n : Nat) (s : List α) : strip ws n s <:+ s := by
  induction n generalizing s with
  | zero => exact List.suffix_rfl
  | succ n ih =>
    rw [strip]
    split
    · exact List.suffix_rfl
    · exact (ih _).trans (List.drop_suffix _ _)

theorem not_starts_strip (hws : [] ∉ ws) {n : Nat} (hn : s.length ≤ n) : ¬ Starts ws (strip ws n s) := by
  induction n generalizing s with
  | zero =>
    rw [List.eq_nil_of_length_eq_zero (Nat.le_zero.1 hn)]
    rintro ⟨w, hw, hp⟩
    exact hws (List.prefix_nil.1 hp ▸ hw)
  | succ n ih =>
    rw [strip]
    cases hf : ws.find? (·.isPrefixOf s) with
    | none => exact find_prefix_eq_none.1 hf
    | some w =>
      have hne : w ≠ [] := fun h => hws (h ▸ List.mem_of_find?_eq_some hf)
      have := List.length_pos_iff.2 hne
      exact ih (by rw [List.length_drop]; omega)

end

/-- `WhiteSpace` and `LineTerminator` of the language. -/
def white_space : List Str :=
  [[0x09], [0x0a], [0x0b], [0x0c], [0x0d], [0x20], [0xc2, 0xa0], [0xe1, 0x9a, 0x80], [0xe2, 0x80, 0x80],
    [0xe2, 0x80, 0x81], [0xe2, 0x80, 0x82], [0xe2, 0x80, 0x83], [0xe2, 0x80, 0x84], [0xe2, 0x80, 0x85],
    [0xe2, 0x80, 0x86], [0xe2, 0x80, 0x87], [0xe2, 0x80, 0x88], [0xe2, 0x80, 0x89], [0xe2, 0x80, 0x8a],
    [0xe2, 0x80, 0xa8], [0xe2, 0x80, 0xa9], [0xe2, 0x80, 0xaf], [0xe2, 0x81, 0x9f], [0xe3, 0x80, 0x80],
    [0xef, 0xbb, 0xbf]]

def trim_start (s : Str) : Str := strip white_space s.length s

def trim_end (s : Str) : Str := (strip (white_space.map List.reverse) s.length s.reverse).reverse

def trim (s : Str) : Str := trim_end (trim_start s)

/-- No white space at either end. -/
def Trimmed (s : Str) : Prop :=
  ¬ Starts white_space s ∧ ¬ Starts (white_space.map List.reverse) s.reverse

instance (s : Str) : Decidable (Trimmed s) :=
  inferInstanceAs (Decidable (¬ (∃ w ∈ white_space, w <+: s) ∧ ¬ ∃ w ∈ white_space.map List.reverse, w <+: s.reverse))

theorem prefix_trim_end (s : Str) : trim_end s <+: s := by
  rw [← List.reverse_suffix, trim_end, List.reverse_reverse]
  exact strip_suffix _ _

theorem trimmed_trim (s : Str) : Trimmed (trim s) := by
  constructor
  · have : ¬ Starts white_space (trim_start s) := not_starts_strip (by decide) (Nat.le_refl _)
    exact fun h => this (h.mono (prefix_trim_end _))
  · rw [trim, trim_end, List.reverse_reverse]
    exact not_starts_strip (by decide) (by simp)

theorem trim_eq_self {s : Str} (h : Trimmed s) : trim s = s := by
  rw [trim, trim_start, strip_eq_self h.1, trim_end, strip_eq_self h.2, List.reverse_reverse]

theorem mem_of_mem_trim {s : Str} {c : UInt8} (h : c ∈ trim s) : c ∈ s :=
  (strip_suffix _ _).subset ((prefix_trim_end _).subset h)

/-- A trimmed string continued by a printable character and a trimmed string is trimmed. -/
theorem Trimmed.append {s t : Str} {c : UInt8} (hc : ∀ w ∈ white_space, c ∉ w) (hs : Trimmed s) (ht : Trimmed t) :
    Trimmed (s ++ c :: t) := by
  refine ⟨not_starts_append hc hs.1 t, ?_⟩
  rw [List.reverse_append, List.reverse_cons, List.append_assoc, List.singleton_append]
  refine not_starts_append (fun w hw => ?_) ht.2 _
  obtain ⟨v, hv, rfl⟩ := List.mem_map.1 hw
  simpa using hc v hv

theorem trim_space_cons (s : Str) : trim (0x20 :: s) = trim s := by
  have : trim_start (0x20 :: s) = trim_start s := rfl
  rw [trim, this, trim]

/-! ### Objects -/

/-- The own properties, oldest first. -/
abbrev Object := List (Str × Str)

namespace Object

def proto : Str := [0x5f, 0x5f, 0x70, 0x72, 0x6f, 0x74, 0x6f, 0x5f, 0x5f]

/-- `obj[key] = val`. The setter of `__proto__`, inherited by every object, takes no string. -/
def set (obj : Object) (key val : Str) : Object :=
  if key = proto then obj
  else if key ∈ obj.map Prod.fst then obj.map fun e => if e.1 = key then (key, val) else e
  else obj ++ [(key, val)]

/-- The value of a name that reads as an array index. -/
def array_index (key : Str) : Option Nat :=
  let n := key.foldl (fun n c => 10 * n + (c.toNat - 0x30)) 0
  let canonical := key.all (fun c => 0x30 ≤ c ∧ c ≤ 0x39) ∧ (key.head? = some 0x30 → key = [0x30])
  if key ≠ [] ∧ canonical ∧ n < 0xffffffff then some n else none

/-- The properties as `for (k in obj)` meets them: array indices in ascending order, then the others. -/
def for_in (obj : Object) : Object :=
  (obj.filter fun e => (array_index e.1).isSome).insertionSort
      (fun e f => (array_index e.1).getD 0 ≤ (array_index f.1).getD 0) ++
    obj.filter fun e => (array_index e.1).isNone

theorem mem_for_in {obj : Object} {e : Str × Str} : e ∈ for_in obj ↔ e ∈ obj := by
  simp only [for_in, List.mem_append, List.mem_insertionSort, List.mem_filter, ← and_or_left]
  exact and_iff_left (by cases array_index e.1 <;> simp)

theorem keys_set (obj : Object) (key val : Str) :
    (obj.set key val).map Prod.fst =
      if key = proto ∨ key ∈ obj.map Prod.fst then obj.map Prod.fst else obj.map Prod.fst ++ [key] := by
  unfold set
  split
  · next h => rw [if_pos (.inl h)]
  · next h =>
    split
    · next hk =>
      rw [if_pos (.inr hk), List.map_map]
      refine List.map_congr_left fun e _ => ?_
      by_cases he : e.1 = key <;> simp [he]
    · next hk => rw [if_neg (not_or.2 ⟨h, hk⟩), List.map_append, List.map_singleton]

theorem mem_set {obj : Object} {key val : Str} {e : Str × Str} :
    e ∈ obj.set key val ↔ key ≠ proto ∧ e = (key, val) ∨ (key = proto ∨ e.1 ≠ key) ∧ e ∈ obj := by
  unfold set
  split
  · next h => simp [h]
  · next h =>
    split
    · next hk =>
      obtain ⟨e', he', hk'⟩ := List.mem_map.1 hk
      rw [List.mem_map]
      constructor
      · rintro ⟨f, hf, rfl⟩
        by_cases hfk : f.1 = key <;> simp [hfk, h, hf]
      · rintro (⟨-, rfl⟩ | ⟨hor, he⟩)
        · exact ⟨e', he', if_pos hk'⟩
        · exact ⟨e, he, if_neg (hor.resolve_left h)⟩
    · next hk =>
      have hne : ∀ f ∈ obj, f.1 ≠ key := fun f hf h => hk (List.mem_map.2 ⟨f, hf, h⟩)
      rw [List.mem_append, List.mem_singleton]
      constructor
      · rintro (he | rfl)
        · exact .inr ⟨.inr (hne e he), he⟩
        · exact .inl ⟨h, rfl⟩
      · rintro (⟨-, rfl⟩ | ⟨-, he⟩)
        · exact .inr rfl
        · exact .inl he

/-- `obj[key] || ""`, for a name that no prototype has. -/
def get (obj : Object) (key : Str) : Str := (obj.lookup key).getD []

end Object

/-! ### String literals -/

/-- The digit of a value below 16, in lower case. -/
def hex_digit (n : Nat) : UInt8 := if n < 10 then UInt8.ofNat (0x30 + n) else UInt8.ofNat (0x57 + n)

def hex_value (c : UInt8) : Option Nat :=
  if 0x30 ≤ c ∧ c ≤ 0x39 then some (c.toNat - 0x30)
  else if 0x61 ≤ c ∧ c ≤ 0x66 then some (c.toNat - 0x57)
  else if 0x41 ≤ c ∧ c ≤ 0x46 then some (c.toNat - 0x37)
  else none

theorem hex_value_hex_digit {n : Nat} (h : n < 16) : hex_value (hex_digit n) = some n := by
  have : ∀ n < 16, hex_value (hex_digit n) = some n := by decide
  exact this n h

/-- The escapes of one letter. -/
def escape (c : UInt8) : Option UInt8 :=
  if c = 0x22 ∨ c = 0x5c then some c
  else if c = 0x6e then some 0x0a
  else if c = 0x72 then some 0x0d
  else if c = 0x74 then some 0x09
  else none

/-- The value of a string literal after its opening quote. `none` where the literal is malformed, and also on
the escapes that this reading leaves out (of other letters, and of characters outside ASCII). -/
def literal_body : Str → Option Str
  | [] => none
  | c :: rest =>
    if c = 0x22 then if rest = [] then some [] else none
    else if c = 0x0a ∨ c = 0x0d then none
    else if c ≠ 0x5c then (c :: ·) <$> literal_body rest
    else
      match rest with
      | [] => none
      | d :: rest =>
        match escape d with
        | some e => (e :: ·) <$> literal_body rest
        | none =>
          match rest with
          | z :: z' :: hi :: lo :: rest =>
            match hex_value hi, hex_value lo with
            | some hi, some lo =>
              if d = 0x75 ∧ z = 0x30 ∧ z' = 0x30 ∧ hi < 8 then (UInt8.ofNat (16 * hi + lo) :: ·) <$> literal_body rest
              else none
            | _, _ => none
          | _ => none

def string_literal : Str → Option Str
  | 0x22 :: rest => literal_body rest
  | _ => none

section
variable {c e : UInt8}

theorem literal_body_escape (h : escape c = some e) (rest : Str) :
    literal_body (0x5c :: c :: rest) = (e :: ·) <$> literal_body rest := by
  rw [literal_body.eq_def]
  simp [h]

theorem literal_body_unicode (h : c < 0x80) (rest : Str) :
    literal_body (0x5c :: 0x75 :: 0x30 :: 0x30 :: hex_digit (c.toNat / 16) :: hex_digit (c.toNat % 16) :: rest) =
      (c :: ·) <$> literal_body rest := by
  have hlt : c.toNat < 128 := h
  have hhi : hex_value (hex_digit (c.toNat / 16)) = some (c.toNat / 16) := hex_value_hex_digit (by omega)
  have hlo : hex_value (hex_digit (c.toNat % 16)) = some (c.toNat % 16) := hex_value_hex_digit (by omega)
  have hval : 16 * (c.toNat / 16) + c.toNat % 16 = c.toNat := by omega
  rw [literal_body.eq_def]
  simp [escape, hhi, hlo, hval, show c.toNat / 16 < 8 by omega]

theorem literal_body_plain (h : c ≠ 0x22 ∧ c ≠ 0x5c ∧ c ≠ 0x0a ∧ c ≠ 0x0d) (rest : Str) :
    literal_body (c :: rest) = (c :: ·) <$> literal_body rest := by
  rw [literal_body.eq_def]
  simp [h]

end

/-! ### URI components and letter case -/

/-- `toLowerCase` of the ASCII letters. No letter outside ASCII becomes one of those in `X-Bogus` or
`X-Gnarly`. -/
def to_lower_case (s : Str) : Str := s.map fun c => if 0x41 ≤ c ∧ c ≤ 0x5a then c + 0x20 else c

def unreserved (c : UInt8) : Bool :=
  (0x30 ≤ c ∧ c ≤ 0x39) ∨ (0x41 ≤ c ∧ c ≤ 0x5a) ∨ (0x61 ≤ c ∧ c ≤ 0x7a) ∨
    c ∈ [0x2d, 0x5f, 0x2e, 0x21, 0x7e, 0x2a, 0x27, 0x28, 0x29]

def upper_hex_digit (n : Nat) : UInt8 := if n < 10 then UInt8.ofNat (0x30 + n) else UInt8.ofNat (0x37 + n)

def encodeURIComponent (s : Str) : Str :=
  s.flatMap fun c =>
    if unreserved c then [c] else [0x25, upper_hex_digit (c.toNat / 16), upper_hex_digit (c.toNat % 16)]

def hex_pair (a b : UInt8) : Option UInt8 :=
  match hex_value a, hex_value b with
  | some hi, some lo => some (UInt8.ofNat (16 * hi + lo))
  | _, _ => none

/-- After the first byte of a character: how many bytes follow, and the bounds of the next one. -/
def continuation (first : UInt8) : Option (Nat × UInt8 × UInt8) :=
  if 0xc2 ≤ first ∧ first ≤ 0xdf then some (1, 0x80, 0xbf)
  else if first = 0xe0 then some (2, 0xa0, 0xbf)
  else if first = 0xed then some (2, 0x80, 0x9f)
  else if 0xe1 ≤ first ∧ first ≤ 0xef then some (2, 0x80, 0xbf)
  else if first = 0xf0 then some (3, 0x90, 0xbf)
  else if 0xf1 ≤ first ∧ first ≤ 0xf3 then some (3, 0x80, 0xbf)
  else if first = 0xf4 then some (3, 0x80, 0x8f)
  else none

/-- `need` more bytes of a character must come as escapes, the next one between `lo` and `hi`. -/
def decode_from (need : Nat) (lo hi : UInt8) : Str → Option Str
  | [] => if need = 0 then some [] else none
  | c :: rest =>
    if c ≠ 0x25 then if need = 0 then (c :: ·) <$> decode_from 0 0 0 rest else none
    else
      match rest with
      | a :: b :: rest =>
        match hex_pair a b with
        | none => none
        | some d =>
          if need ≠ 0 then
            if lo ≤ d ∧ d ≤ hi then (d :: ·) <$> decode_from (need - 1) 0x80 0xbf rest else none
          else if d < 0x80 then (d :: ·) <$> decode_from 0 0 0 rest
          else
            match continuation d with
            | none => none
            | some (need, lo, hi) => (d :: ·) <$> decode_from need lo hi rest
      | _ => none

/-- `none` for a `URIError`. -/
def decodeURIComponent (s : Str) : Option Str := decode_from 0 0 0 s

end JavaScript
