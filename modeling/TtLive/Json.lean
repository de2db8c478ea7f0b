import Mathlib.Data.List.Basic
import Mathlib.Data.UInt

/-!
# JSON texts without insignificant white space

A `Value` is the syntax tree of a text, down to the escapes of its strings and the digits of its numbers;
`Value.text` writes it. Names have no escapes. `Value.members` lists the members at every depth in document
order.
-/

namespace Json

abbrev Text := List UInt8

/-! ### Strings and numbers -/

def Hex (c : UInt8) : Prop := 0x30 ≤ c ∧ c ≤ 0x39 ∨ 0x61 ≤ c ∧ c ≤ 0x66 ∨ 0x41 ≤ c ∧ c ≤ 0x46

instance (c : UInt8) : Decidable (Hex c) :=
  inferInstanceAs (Decidable (0x30 ≤ c ∧ c ≤ 0x39 ∨ 0x61 ≤ c ∧ c ≤ 0x66 ∨ 0x41 ≤ c ∧ c ≤ 0x46))

/-- A byte that stands for itself in a string. -/
def Plain (c : UInt8) : Prop := 0x20 ≤ c ∧ c ≠ 0x22 ∧ c ≠ 0x5c

instance (c : UInt8) : Decidable (Plain c) := inferInstanceAs (Decidable (0x20 ≤ c ∧ c ≠ 0x22 ∧ c ≠ 0x5c))

/-- A piece of a string: a byte, one of the short escapes, or the escape of a code unit. -/
inductive Piece
  | plain (c : UInt8) (h : Plain c)
  | short (c : UInt8) (h : c ∈ [0x22, 0x5c, 0x2f, 0x62, 0x66, 0x6e, 0x72, 0x74])
  | unicode (a b c d : UInt8) (h : Hex a ∧ Hex b ∧ Hex c ∧ Hex d)

def Piece.text : Piece → Text
  | .plain c _ => [c]
  | .short c _ => [0x5c, c]
  | .unicode a b c d _ => [0x5c, 0x75, a, b, c, d]

/-- The source text of a string between its quotes. -/
def body (ps : List Piece) : Text := ps.flatMap Piece.text

theorem body_cons (p : Piece) (ps : List Piece) : body (p :: ps) = p.text ++ body ps := List.flatMap_cons

theorem Hex.not_special {c : UInt8} (h : Hex c) : c ≠ 0x22 ∧ c ≠ 0x5c := by
  refine ⟨?_, ?_⟩ <;> rintro rfl <;> exact absurd h (by decide)

/-- A piece is a plain byte, or a backslash, what it escapes and plain bytes. -/
theorem Piece.shape (p : Piece) : (∃ c, p.text = [c] ∧ Plain c) ∨
    ∃ c x, p.text = 0x5c :: c :: x ∧ (c = 0x22 → x = []) ∧ ∀ d ∈ x, d ≠ 0x22 ∧ d ≠ 0x5c := by
  cases p with
  | plain c h => exact .inl ⟨c, rfl, h⟩
  | short c h => exact .inr ⟨c, [], rfl, fun _ => rfl, nofun⟩
  | unicode a b c d h =>
    obtain ⟨ha, hb, hc, hd⟩ := h
    exact .inr ⟨0x75, [a, b, c, d], rfl, fun h => absurd h (by decide),
      by simpa using ⟨ha.not_special, hb.not_special, hc.not_special, hd.not_special⟩⟩

structure Name where
  chars : Text
  plain : ∀ c ∈ chars, Plain c

def Digit (c : UInt8) : Prop := 0x30 ≤ c ∧ c ≤ 0x39

instance (c : UInt8) : Decidable (Digit c) := inferInstanceAs (Decidable (0x30 ≤ c ∧ c ≤ 0x39))

structure Digits where
  chars : Text
  ne_nil : chars ≠ []
  digit : ∀ c ∈ chars, Digit c

structure Exponent where
  mark : UInt8
  mark_eq : mark = 0x65 ∨ mark = 0x45
  sign : Option UInt8
  sign_eq : ∀ c ∈ sign, c = 0x2b ∨ c = 0x2d
  digits : Digits

structure Number where
  neg : Bool
  int : Digits
  no_leading_zero : int.chars.head? = some 0x30 → int.chars = [0x30]
  frac : Option Digits
  exp : Option Exponent

def Exponent.text (e : Exponent) : Text := e.mark :: (e.sign.toList ++ e.digits.chars)

def Number.text (n : Number) : Text :=
  (if n.neg then [0x2d] else []) ++ n.int.chars ++ (n.frac.elim [] fun d => 0x2e :: d.chars) ++
    n.exp.elim [] Exponent.text

def Digits.value (d : Digits) : Nat := d.chars.foldl (fun n c => 10 * n + (c.toNat - 0x30)) 0

/-- A text that is a decimal integer. -/
def IntLiteral (t : Text) (n : Int) : Prop :=
  ∃ (neg : Bool) (d : Digits), t = (if neg then [0x2d] else []) ++ d.chars ∧
    n = if neg then -(d.value : Int) else d.value

theorem Digits.mem {d : Digits} {c : UInt8} (h : c ∈ d.chars) : Digit c := d.digit c h

theorem Number.number_char {n : Number} {c : UInt8} (h : c ∈ n.text) :
    Digit c ∨ c ∈ [0x2d, 0x2b, 0x2e, 0x65, 0x45] := by
  simp only [Number.text, List.mem_append] at h
  rcases h with ((h | h) | h) | h
  · split at h
    · rw [List.mem_singleton.1 h]
      exact .inr (by decide)
    · cases h
  · exact .inl (Digits.mem h)
  · cases hf : n.frac with
    | none => rw [hf] at h; cases h
    | some d =>
      rw [hf] at h
      rcases List.mem_cons.1 h with rfl | h
      · exact .inr (by decide)
      · exact .inl (Digits.mem h)
  · cases he : n.exp with
    | none => rw [he] at h; cases h
    | some e =>
      rw [he] at h
      rcases List.mem_cons.1 h with rfl | h
      · rcases e.mark_eq with h | h <;> exact .inr (by rw [h]; decide)
      · rcases List.mem_append.1 h with h | h
        · rcases e.sign_eq c (by simpa using h) with rfl | rfl <;> exact .inr (by decide)
        · exact .inl (Digits.mem h)

/-! ### Values -/

inductive Value
  | null
  | bool (b : Bool)
  | number (n : Number)
  | string (ps : List Piece)
  | array (vs : List Value)
  | object (ms : List (Name × Value))

def comma : Text := [0x2c]

mutual

def Value.text : Value → Text
  | .null => [0x6e, 0x75, 0x6c, 0x6c]
  | .bool true => [0x74, 0x72, 0x75, 0x65]
  | .bool false => [0x66, 0x61, 0x6c, 0x73, 0x65]
  | .number n => n.text
  | .string ps => 0x22 :: body ps ++ [0x22]
  | .array vs => 0x5b :: comma.intercalate (elementTexts vs) ++ [0x5d]
  | .object ms => 0x7b :: comma.intercalate (memberTexts ms) ++ [0x7d]

def elementTexts : List Value → List Text
  | [] => []
  | v :: vs => v.text :: elementTexts vs

def memberTexts : List (Name × Value) → List Text
  | [] => []
  | (n, v) :: ms => (0x22 :: n.chars ++ 0x22 :: 0x3a :: v.text) :: memberTexts ms

end

mutual

/-- The members of the objects in a value, at any depth, in document order. -/
def Value.members : Value → List (Name × Value)
  | .array vs => elementMembers vs
  | .object ms => memberMembers ms
  | _ => []

def elementMembers : List Value → List (Name × Value)
  | [] => []
  | v :: vs => v.members ++ elementMembers vs

def memberMembers : List (Name × Value) → List (Name × Value)
  | [] => []
  | (n, v) :: ms => (n, v) :: v.members ++ memberMembers ms

end

def Value.isObject : Value → Bool
  | .object _ => true
  | _ => false

def Value.isString : Value → Bool
  | .string _ => true
  | _ => false

/-- The source text of a string value between its quotes. -/
def Value.rawBody : Value → Text
  | .string ps => body ps
  | _ => []

/-- An integer literal, or a string with the source text of one. -/
def Value.HoldsInt : Value → Int → Prop
  | .number m, n => IntLiteral m.text n
  | .string ps, n => IntLiteral (body ps) n
  | _, _ => False

/-- The first member, in document order at any depth, with this name and this kind of value. -/
def Value.first (v : Value) (name : Text) (kind : Value → Bool) : Option Value :=
  (v.members.find? fun m => m.1.chars = name && kind m.2).map Prod.snd

/-! ### Induction, and the lists of texts and members -/

/-- Induction over values, with the hypothesis for every element and every member's value. -/
@[elab_as_elim]
theorem Value.ind {P : Value → Prop} (null : P .null) (bool : ∀ b, P (.bool b)) (number : ∀ n, P (.number n))
    (string : ∀ ps, P (.string ps)) (array : ∀ vs, (∀ v ∈ vs, P v) → P (.array vs))
    (object : ∀ ms, (∀ m ∈ ms, P m.2) → P (.object ms)) (v : Value) : P v :=
  @Value.rec P (fun vs => ∀ v ∈ vs, P v) (fun ms => ∀ m ∈ ms, P m.2) (fun m => P m.2) null bool number string array
    object nofun (fun _ _ hv hvs => List.forall_mem_cons.2 ⟨hv, hvs⟩) nofun
    (fun _ _ hm hms => List.forall_mem_cons.2 ⟨hm, hms⟩) (fun _ _ hv => hv) v

def memberText (m : Name × Value) : Text := 0x22 :: m.1.chars ++ 0x22 :: 0x3a :: m.2.text

theorem elementTexts_eq (vs : List Value) : elementTexts vs = vs.map Value.text := by
  induction vs with
  | nil => rfl
  | cons v vs ih => rw [elementTexts, ih, List.map_cons]

theorem memberTexts_eq (ms : List (Name × Value)) : memberTexts ms = ms.map memberText := by
  induction ms with
  | nil => rfl
  | cons m ms ih => rw [memberTexts, ih, List.map_cons, memberText]

theorem elementMembers_eq (vs : List Value) : elementMembers vs = vs.flatMap Value.members := by
  induction vs with
  | nil => rfl
  | cons v vs ih => rw [elementMembers, ih, List.flatMap_cons]

theorem memberMembers_eq (ms : List (Name × Value)) :
    memberMembers ms = ms.flatMap fun m => m :: m.2.members := by
  induction ms with
  | nil => rfl
  | cons m ms ih => rw [memberMembers, ih, List.flatMap_cons, List.cons_append]

theorem text_array (vs : List Value) :
    (Value.array vs).text = 0x5b :: comma.intercalate (vs.map Value.text) ++ [0x5d] := by
  rw [Value.text, elementTexts_eq]

theorem text_object (ms : List (Name × Value)) :
    (Value.object ms).text = 0x7b :: comma.intercalate (ms.map memberText) ++ [0x7d] := by
  rw [Value.text, memberTexts_eq]

theorem members_array (vs : List Value) : (Value.array vs).members = vs.flatMap Value.members := by
  rw [Value.members, elementMembers_eq]

theorem members_object (ms : List (Name × Value)) :
    (Value.object ms).members = ms.flatMap fun m => m :: m.2.members := by
  rw [Value.members, memberMembers_eq]

end Json
