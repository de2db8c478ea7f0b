import Mathlib.Data.Nat.Digits.Lemmas

/-!
# Proto3 files

The part of the proto3 language that needs no imports: enumerations, messages with plain, repeated, optional and map
fields, and `oneof` groups. A file is read in one pass over its characters. The lexer makes tokens, every `;`, `{` and
`}` ends a statement, and `accept` takes one statement; so what is read of a text is what is read of its parts, one
after the other (`reads_append`).
-/

namespace Proto3

abbrev Text := List Char

/-! ### Files -/

inductive Label
  | none
  | repeated
  | optional
deriving DecidableEq

inductive FieldType
  | named (type : Text)
  | map (key value : Text)
deriving DecidableEq

structure Field where
  label : Label
  type : FieldType
  name : Text
  number : Nat
deriving DecidableEq

/-- A member of a `oneof`. -/
structure Choice where
  type : Text
  name : Text
  number : Nat
deriving DecidableEq

inductive Member
  | field (f : Field)
  | oneof (group : Text) (choices : List Choice)
deriving DecidableEq

structure Value where
  name : Text
  number : Int
deriving DecidableEq

inductive Decl
  | enum (name : Text) (allow_alias : Bool) (values : List Value)
  | message (name : Text) (members : List Member)
deriving DecidableEq

structure File where
  package : Text
  decls : List Decl
deriving DecidableEq

/-! ### Tokens -/

inductive Token
  | word (w : Text)
  | quoted (s : Text)
  | equals
  | semicolon
  | opens
  | closes
  | less
  | greater
  | comma
  | minus
deriving DecidableEq

def quote : Char := Char.ofNat 0x22

def word_char (c : Char) : Bool := c.isAlphanum || c = '_' || c = '.'

def space (c : Char) : Bool := c = ' ' || c = '\n' || c = '\t' || c = '\r'

def punctuation (c : Char) : Option Token :=
  if c = '=' then some .equals
  else if c = ';' then some .semicolon
  else if c = Char.ofNat 0x7b then some .opens
  else if c = Char.ofNat 0x7d then some .closes
  else if c = '<' then some .less
  else if c = '>' then some .greater
  else if c = ',' then some .comma
  else if c = '-' then some .minus
  else none

/-- What the lexer is in the middle of. -/
inductive Lexer
  | plain
  | word (w : Text)
  | quoted (s : Text)
  | slash
  | comment

/-- A character that begins something. -/
def begins (c : Char) : Option (List Token × Lexer) :=
  if word_char c then some ([], .word [c])
  else if space c then some ([], .plain)
  else if c = quote then some ([], .quoted [])
  else if c = '/' then some ([], .slash)
  else (punctuation c).map fun t => ([t], .plain)

def Lexer.step (c : Char) : Lexer → Option (List Token × Lexer)
  | plain => begins c
  | word w => if word_char c then some ([], word (w ++ [c])) else (begins c).map fun r => (.word w :: r.1, r.2)
  | quoted s => if c = quote then some ([.quoted s], plain) else some ([], quoted (s ++ [c]))
  | slash => if c = '/' then some ([], comment) else none
  | comment => some ([], if c = '\n' then plain else comment)

/-! ### Statements -/

/-- A letter or an underscore, then letters, digits and underscores. -/
def ident (s : Text) : Bool := s.all (fun c => c.isAlphanum || c = '_') && s.head?.any fun c => c.isAlpha || c = '_'

/-- The words that begin a statement of a message, which no field can have for its type. -/
def keywords : List Text :=
  ["message", "enum", "oneof", "map", "repeated", "optional", "required", "option", "reserved", "extensions", "extend",
    "group"].map String.toList

/-- A decimal number, with no zero in front. -/
def number (s : Text) : Option Nat :=
  if s ≠ [] ∧ s.all Char.isDigit ∧ (s.head? = some '0' → s = ['0']) then
    some (s.foldl (fun n c => 10 * n + (c.toNat - 0x30)) 0)
  else none

def label (s : Text) : Option Label :=
  if s = "repeated".toList then some .repeated else if s = "optional".toList then some .optional else none

/-- What has been read of a file. -/
inductive Reading
  | start
  | head
  | top (f : File)
  | enum (f : File) (name : Text) (allow_alias : Bool) (values : List Value)
  | message (f : File) (name : Text) (members : List Member)
  | oneof (f : File) (name : Text) (members : List Member) (group : Text) (choices : List Choice)
deriving DecidableEq

def File.add (f : File) (d : Decl) : File := { f with decls := f.decls ++ [d] }

def accept : Reading → List Token → Option Reading
  | .start, [.word s, .equals, .quoted v, .semicolon] =>
    if s = "syntax".toList ∧ v = "proto3".toList then some .head else none
  | .head, [.word p, .word x, .semicolon] => if p = "package".toList then some (.top ⟨x, []⟩) else none
  | .top f, [.word k, .word x, .opens] =>
    if ¬ ident x then none
    else if k = "enum".toList then some (.enum f x false [])
    else if k = "message".toList then some (.message f x [])
    else none
  | .enum f x a vs, [.word v, .equals, .word k, .semicolon] => do
    let k ← number k
    if ident v then some (.enum f x a (vs ++ [⟨v, k⟩])) else none
  | .enum f x a vs, [.word v, .equals, .minus, .word k, .semicolon] => do
    let k ← number k
    if ident v then some (.enum f x a (vs ++ [⟨v, -k⟩])) else none
  | .enum f x _ vs, [.word o, .word p, .equals, .word b, .semicolon] =>
    if o = "option".toList ∧ p = "allow_alias".toList ∧ b = "true".toList then some (.enum f x true vs) else none
  | .enum f x a vs, [.closes] => some (.top (f.add (.enum x a vs)))
  | .message f x ms, [.word t, .word v, .equals, .word k, .semicolon] => do
    let k ← number k
    if ident v ∧ t ∉ keywords then some (.message f x (ms ++ [.field ⟨.none, .named t, v, k⟩])) else none
  | .message f x ms, [.word l, .word t, .word v, .equals, .word k, .semicolon] => do
    let l ← label l
    let k ← number k
    if ident v ∧ t ∉ keywords then some (.message f x (ms ++ [.field ⟨l, .named t, v, k⟩])) else none
  | .message f x ms, [.word m, .less, .word s, .comma, .word t, .greater, .word v, .equals, .word k, .semicolon] => do
    let k ← number k
    if m = "map".toList ∧ ident v then some (.message f x (ms ++ [.field ⟨.none, .map s t, v, k⟩])) else none
  | .message f x ms, [.word o, .word g, .opens] =>
    if o = "oneof".toList ∧ ident g then some (.oneof f x ms g []) else none
  | .message f x ms, [.closes] => some (.top (f.add (.message x ms)))
  | .oneof f x ms g cs, [.word t, .word v, .equals, .word k, .semicolon] => do
    let k ← number k
    if ident v ∧ t ∉ keywords then some (.oneof f x ms g (cs ++ [⟨t, v, k⟩])) else none
  | .oneof f x ms g cs, [.closes] => some (.message f x (ms ++ [.oneof g cs]))
  | _, _ => none

/-! ### Reading -/

structure Machine where
  lexer : Lexer
  pending : List Token
  reading : Reading

def ends_statement (t : Token) : Bool := t = .semicolon || t = .opens || t = .closes

def Machine.feed (m : Machine) (t : Token) : Option Machine :=
  if ends_statement t then
    (accept m.reading (m.pending ++ [t])).map fun r => { m with pending := [], reading := r }
  else some { m with pending := m.pending ++ [t] }

def Machine.step (m : Machine) (c : Char) : Option Machine := do
  let r ← m.lexer.step c
  r.1.foldlM Machine.feed { m with lexer := r.2 }

def parse (s : Text) : Option File := do
  let m ← s.foldlM Machine.step ⟨.plain, [], .start⟩
  match m.lexer, m.pending, m.reading with
  | .plain, [], .top f => some f
  | _, _, _ => none

/-! ### Reading a text part by part -/

def Reads (m : Machine) (s : Text) (m' : Machine) : Prop := s.foldlM Machine.step m = some m'

section
variable {m m' m'' : Machine} {s t w : Text} {q : List Token} {r r' : Reading} {c : Char}

theorem reads_nil (m : Machine) : Reads m [] m := rfl

theorem reads_cons (hc : m.step c = some m') (h : Reads m' s m'') : Reads m (c :: s) m'' := by
  rw [Reads, List.foldlM_cons, hc]
  exact h

theorem reads_append (h : Reads m s m') (h' : Reads m' t m'') : Reads m (s ++ t) m'' := by
  rw [Reads, List.foldlM_append, show s.foldlM Machine.step m = some m' from h]
  exact h'

theorem reads_space (hc : space c = true) (hw : word_char c = false) (h : Reads ⟨.plain, q, r⟩ s m') :
    Reads ⟨.plain, q, r⟩ (c :: s) m' := by
  refine reads_cons ?_ h
  simp [Machine.step, Lexer.step, begins, hw, hc]

/-- A character that is a token of its own. -/
def Symbol (c : Char) (t : Token) : Prop := begins c = some ([t], .plain)

theorem reads_symbol {k : Token} (hc : Symbol c k) (hend : ends_statement k = false)
    (h : Reads ⟨.plain, q ++ [k], r⟩ s m') : Reads ⟨.plain, q, r⟩ (c :: s) m' := by
  refine reads_cons ?_ h
  have hbegins : begins c = some ([k], .plain) := hc
  simp [Machine.step, Lexer.step, hbegins, Machine.feed, hend]

/-- The character that ends a statement. -/
theorem reads_end {k : Token} (hc : Symbol c k) (hend : ends_statement k = true)
    (haccept : accept r (q ++ [k]) = some r') (h : Reads ⟨.plain, [], r'⟩ s m') :
    Reads ⟨.plain, q, r⟩ (c :: s) m' := by
  refine reads_cons ?_ h
  have hbegins : begins c = some ([k], .plain) := hc
  simp [Machine.step, Lexer.step, hbegins, Machine.feed, hend, haccept]

/-- A text that is one word. -/
def Word (w : Text) : Prop := w ≠ [] ∧ ∀ c ∈ w, word_char c = true

instance (w : Text) : Decidable (Word w) :=
  decidable_of_iff (w ≠ [] ∧ w.all word_char = true) (and_congr_right' List.all_eq_true)

theorem reads_word_chars (hw : ∀ c ∈ w, word_char c = true) (v : Text) :
    Reads ⟨.word v, q, r⟩ w ⟨.word (v ++ w), q, r⟩ := by
  induction w generalizing v with
  | nil => rw [List.append_nil]; exact reads_nil _
  | cons c w ih =>
    have hc := hw c (by simp)
    refine reads_cons (by simp [Machine.step, Lexer.step, hc]; rfl) ?_
    simpa using ih (fun d hd => hw d (by simp [hd])) (v ++ [c])

/-- A word ends where no more of it can follow. -/
theorem reads_word (hw : Word w) (hc : word_char c = false) (h : Reads ⟨.plain, q ++ [.word w], r⟩ (c :: s) m') :
    Reads ⟨.plain, q, r⟩ (w ++ c :: s) m' := by
  obtain ⟨hne, hall⟩ := hw
  obtain ⟨d, v, rfl⟩ := List.exists_cons_of_ne_nil hne
  have hd := hall d (by simp)
  have hword : Reads ⟨.plain, q, r⟩ (d :: v) ⟨.word (d :: v), q, r⟩ :=
    reads_cons (by simp [Machine.step, Lexer.step, begins, hd])
      (reads_word_chars (fun c hc => hall c (by simp [hc])) [d])
  refine reads_append hword ?_
  have hstep : Machine.step ⟨.word (d :: v), q, r⟩ c = Machine.step ⟨.plain, q ++ [.word (d :: v)], r⟩ c := by
    rcases hb : begins c with _ | ⟨toks, lexer⟩
    · simp [Machine.step, Lexer.step, hc, hb]
    · simp [Machine.step, Lexer.step, hc, hb, Machine.feed, ends_statement]
  rw [Reads, List.foldlM_cons] at h ⊢
  rwa [hstep]

theorem reads_comment {v : Text} (hv : '\n' ∉ v) (h : Reads ⟨.plain, q, r⟩ s m') :
    Reads ⟨.plain, q, r⟩ ('/' :: '/' :: (v ++ '\n' :: s)) m' := by
  have hline : Reads ⟨.comment, q, r⟩ v ⟨.comment, q, r⟩ := by
    clear h
    induction v with
    | nil => exact reads_nil _
    | cons c v ih =>
      rw [List.mem_cons, not_or] at hv
      exact reads_cons (by simp [Machine.step, Lexer.step, Ne.symm hv.1]) (ih hv.2)
  exact reads_cons rfl (reads_cons rfl (reads_append hline (reads_cons rfl h)))

theorem reads_quoted {v : Text} (hv : quote ∉ v) (h : Reads ⟨.plain, q ++ [.quoted v], r⟩ s m') :
    Reads ⟨.plain, q, r⟩ (quote :: (v ++ quote :: s)) m' := by
  have hline : ∀ u, Reads ⟨.quoted u, q, r⟩ v ⟨.quoted (u ++ v), q, r⟩ := by
    clear h
    induction v with
    | nil => intro u; rw [List.append_nil]; exact reads_nil _
    | cons c v ih =>
      rw [List.mem_cons, not_or] at hv
      intro u
      have hstep : Machine.step ⟨.quoted u, q, r⟩ c = some ⟨.quoted (u ++ [c]), q, r⟩ := by
        simp [Machine.step, Lexer.step, Ne.symm hv.1]
      refine reads_cons hstep ?_
      simpa using ih hv.2 (u ++ [c])
  exact reads_cons rfl (reads_append (hline []) (reads_cons rfl h))

end

/-! ### Numbers -/

def decimal (n : Nat) : Text := if n = 0 then ['0'] else (Nat.digits 10 n).reverse.map Nat.digitChar

theorem digitChar_spec {d : Nat} (h : d < 10) :
    (Nat.digitChar d).isDigit = true ∧ (Nat.digitChar d).toNat - 0x30 = d ∧ (Nat.digitChar d = '0' ↔ d = 0) := by
  have : ∀ d < 10, (Nat.digitChar d).isDigit = true ∧ (Nat.digitChar d).toNat - 0x30 = d ∧
      (Nat.digitChar d = '0' ↔ d = 0) := by decide
  exact this d h

theorem digits_decimal (n : Nat) : ∀ c ∈ decimal n, c.isDigit = true := by
  intro c hc
  unfold decimal at hc
  split at hc
  · rw [List.mem_singleton.1 hc]
    rfl
  · obtain ⟨d, hd, rfl⟩ := List.mem_map.1 hc
    exact (digitChar_spec (Nat.digits_lt_base (by omega) (List.mem_reverse.1 hd))).1

theorem decimal_ne_nil (n : Nat) : decimal n ≠ [] := by
  unfold decimal
  split
  · exact List.cons_ne_nil _ _
  · next h => simpa [Nat.digits_eq_nil_iff_eq_zero] using h

theorem word_decimal (n : Nat) : Word (decimal n) :=
  ⟨decimal_ne_nil n, fun c hc => by simp [word_char, Char.isAlphanum, digits_decimal n c hc]⟩

theorem foldl_digits (ds : List Nat) (hds : ∀ d ∈ ds, d < 10) : (ds.reverse.map Nat.digitChar).foldl
    (fun n c => 10 * n + (c.toNat - 0x30)) 0 = Nat.ofDigits 10 ds := by
  induction ds with
  | nil => rfl
  | cons d ds ih =>
    rw [List.reverse_cons, List.map_append, List.foldl_append, ih fun e he => hds e (by simp [he]), List.map_singleton,
      List.foldl_cons, List.foldl_nil, (digitChar_spec (hds d (by simp))).2.1, Nat.ofDigits_cons]
    exact Nat.add_comm _ _

/-- A number is read as it was written. -/
theorem number_decimal (n : Nat) : number (decimal n) = some n := by
  have hlead : (decimal n).head? = some '0' → decimal n = ['0'] := by
    intro h
    unfold decimal at h ⊢
    split at h
    · next hn => rw [if_pos hn]
    · next hn =>
      rw [List.head?_map, List.head?_reverse, List.getLast?_eq_some_getLast (Nat.digits_ne_nil_iff_ne_zero.2 hn)] at h
      have hlast := Nat.getLast_digit_ne_zero 10 hn
      have hlt := Nat.digits_lt_base (b := 10) (by omega) (List.getLast_mem (Nat.digits_ne_nil_iff_ne_zero.2 hn))
      exact absurd ((digitChar_spec hlt).2.2.1 (by simpa using h)) hlast
  rw [number, if_pos ⟨decimal_ne_nil n, List.all_eq_true.2 (digits_decimal n), hlead⟩]
  unfold decimal
  split
  · next hn => rw [hn]; rfl
  · rw [foldl_digits _ fun d hd => Nat.digits_lt_base (by omega) hd, Nat.ofDigits_digits]

end Proto3
