import TtLive.ProtoSchema

/-!
# The generated file is read as the schema of the classes

Every line that the generator writes is one statement, so the text is read line by line (`Line`), as the file that
the generator's own functions give (`generated`), and that is the one described. An `IntEnum` has no two members of
one number, so the branch for `allow_alias` is never taken, and the numbers of an enumeration are distinct in the
file; a zero is put in front only where no member is zero, and a member that is zero stays where it is declared.
-/

namespace TtLive.gen_proto
open Proto3

/-! ### Names -/

theorem word_of_ident {s : Text} (h : ident s = true) : Word s := by
  obtain ⟨hall, hhead⟩ := Bool.and_eq_true_iff.1 h
  refine ⟨?_, fun c hc => ?_⟩
  · rintro rfl
    simp at hhead
  · have := List.all_eq_true.1 hall c hc
    simp only [word_char, this, Bool.true_or]

theorem ident_append {s t : Text} (hs : ident s = true) (ht : t.all (fun c => c.isAlphanum || c = '_') = true) :
    ident (s ++ t) = true := by
  obtain ⟨hall, hhead⟩ := Bool.and_eq_true_iff.1 hs
  obtain ⟨c, s, rfl⟩ := List.exists_cons_of_ne_nil (word_of_ident hs).1
  exact Bool.and_eq_true_iff.2 ⟨by rw [List.all_append, hall, ht]; rfl, hhead⟩

/-- `upper` changes letters into letters and nothing else. -/
theorem toUpper_cases (c : Char) : c.toUpper = c ∨ c.isAlpha = true ∧ c.toUpper.isAlpha = true := by
  by_cases h : 'a'.val ≤ c.val ∧ c.val ≤ 'z'.val
  · have hsmall : ∀ n < 123, 97 ≤ n → (Char.ofNat n).isAlpha = true ∧ (Char.ofNat n).toUpper.isAlpha = true := by
      decide
    have hlow : 97 ≤ c.toNat := UInt32.le_iff_toNat_le.1 h.1
    have hhigh : c.toNat ≤ 122 := UInt32.le_iff_toNat_le.1 h.2
    have := hsmall c.toNat (by omega) hlow
    rw [Char.ofNat_toNat] at this
    exact .inr this
  · exact .inl (dif_neg h)

theorem ident_toUpper {s : Text} (hs : ident s = true) : ident (s.map Char.toUpper) = true := by
  obtain ⟨hall, hhead⟩ := Bool.and_eq_true_iff.1 hs
  refine Bool.and_eq_true_iff.2 ⟨List.all_eq_true.2 fun d hd => ?_, ?_⟩
  · obtain ⟨c, hc, rfl⟩ := List.mem_map.1 hd
    rcases toUpper_cases c with h | ⟨-, h⟩
    · rw [h]
      exact List.all_eq_true.1 hall c hc
    · simp [Char.isAlphanum, h]
  · rcases s with _ | ⟨c, s⟩
    · exact hhead
    · rcases toUpper_cases c with h | ⟨-, h⟩
      · simpa [h] using hhead
      · simp [h]

theorem ident_unspecified {s : Text} (hs : ident s = true) : ident (unspecified s) = true :=
  ident_append (ident_toUpper hs) (by decide)

theorem scalar_word {t : Text} (h : t ∈ scalar_map) : Word t ∧ t ∉ keywords := by
  have : ∀ t ∈ scalar_map, Word t ∧ t ∉ keywords := by decide
  exact this t h

theorem TypeOf.word {classes : List Text} (hclasses : ∀ x ∈ classes, ident x = true ∧ x ∉ keywords)
    {type : Annotation} {p t : Text} (h : TypeOf classes type p t) : Word t ∧ t ∉ keywords := by
  rcases h with h | ⟨-, hx⟩
  · exact scalar_word h
  · have hmem : t ∈ classes := by
      rcases type with ann | name
      · exact hx.1
      · exact hx.1
    exact ⟨word_of_ident (hclasses t hmem).1, (hclasses t hmem).2⟩

/-! ### Lines -/

/-- A line that takes the reading from `r` to `r'`. -/
def Line (r : Reading) (line : Text) (r' : Reading) : Prop :=
  ∀ s m, Reads ⟨.plain, [], r'⟩ s m → Reads ⟨.plain, [], r⟩ (line ++ '\n' :: s) m

theorem reads_newline {ts : List Token} {r : Reading} {s : Text} {m : Machine} (h : Reads ⟨.plain, ts, r⟩ s m) :
    Reads ⟨.plain, ts, r⟩ ('\n' :: s) m := reads_space rfl rfl h

theorem reads_blank {ts : List Token} {r : Reading} {s : Text} {m : Machine} (h : Reads ⟨.plain, ts, r⟩ s m) :
    Reads ⟨.plain, ts, r⟩ (' ' :: s) m := reads_space rfl rfl h

/-- The end of a line: `name = number;`. -/
theorem reads_numbered {q : List Token} {r r' : Reading} {x s : Text} {n : Nat} {m : Machine} (hx : Word x)
    (haccept : accept r (q ++ [.word x, .equals, .word (decimal n), .semicolon]) = some r')
    (h : Reads ⟨.plain, [], r'⟩ s m) : Reads ⟨.plain, q, r⟩ (numbered x n ++ '\n' :: s) m := by
  have hend := reads_end (q := q ++ [.word x, .equals, .word (decimal n)]) (k := .semicolon) (c := ';') rfl rfl
    (by simpa using haccept) (reads_newline h)
  have hnumber := reads_word (q := q ++ [.word x, .equals]) (word_decimal n) rfl (by simpa using hend)
  have heq := reads_symbol (q := q ++ [.word x]) (k := .equals) (c := '=') rfl rfl
    (reads_blank (by simpa using hnumber))
  simpa [numbered] using reads_word hx rfl (reads_blank heq)

section
variable {f : File} {x v t : Text} {a : Bool} {vs : List Value} {ms : List Member} {n : Nat}

theorem line_empty (r : Reading) : Line r [] r := fun _ _ h => reads_newline h

theorem line_enum (hx : ident x = true) : Line (.top f) ("enum ".toList ++ x ++ opens) (.enum f x false []) := by
  intro s m h
  have hopen := reads_end (r := .top f) (q := [.word "enum".toList, .word x]) (k := .opens) (c := Char.ofNat 0x7b)
    rfl rfl (by simp [accept, hx]) (reads_newline h)
  have hname := reads_word (q := [.word "enum".toList]) (word_of_ident hx) rfl (reads_blank hopen)
  have hkey := reads_word (q := []) (w := "enum".toList) (by decide) rfl (reads_blank hname)
  simpa [opens] using hkey

theorem line_message (hx : ident x = true) : Line (.top f) ("message ".toList ++ x ++ opens) (.message f x []) := by
  intro s m h
  have hopen := reads_end (r := .top f) (q := [.word "message".toList, .word x]) (k := .opens)
    (c := Char.ofNat 0x7b) rfl rfl (by simp [accept, hx]) (reads_newline h)
  have hname := reads_word (q := [.word "message".toList]) (word_of_ident hx) rfl (reads_blank hopen)
  have hkey := reads_word (q := []) (w := "message".toList) (by decide) rfl (reads_blank hname)
  simpa [opens] using hkey

theorem line_value (hv : ident v = true) (n : Int) : Line (.enum f x a vs)
    ("  ".toList ++ v ++ " = ".toList ++ integer n ++ ";".toList) (.enum f x a (vs ++ [⟨v, n⟩])) := by
  intro s m h
  rcases lt_or_ge n 0 with hn | hn
  · obtain ⟨k, rfl⟩ : ∃ k : Nat, n = -(k : Int) := ⟨n.natAbs, by omega⟩
    have hend := reads_end (r := .enum f x a vs) (q := [.word v, .equals, .minus, .word (decimal k)])
      (k := .semicolon) (c := ';') rfl rfl (by simp [accept, number_decimal, hv]) (reads_newline h)
    have hnumber := reads_word (q := [.word v, .equals, .minus]) (word_decimal k) rfl (by simpa using hend)
    have hminus := reads_symbol (q := [.word v, .equals]) (k := .minus) (c := '-') rfl rfl (by simpa using hnumber)
    have heq := reads_symbol (q := [.word v]) (k := .equals) (c := '=') rfl rfl (reads_blank hminus)
    have hname := reads_word (q := []) (word_of_ident hv) rfl (reads_blank heq)
    rw [integer, if_pos hn, Int.natAbs_neg, Int.natAbs_natCast]
    simpa using reads_blank (reads_blank hname)
  · obtain ⟨k, rfl⟩ : ∃ k : Nat, n = (k : Int) := ⟨n.natAbs, by omega⟩
    have hline := reads_numbered (q := []) (r := .enum f x a vs) (n := k) (word_of_ident hv)
      (by simp [accept, number_decimal, hv]) h
    rw [integer, if_neg (by omega), Int.natAbs_natCast]
    simpa [numbered] using reads_blank (reads_blank hline)

theorem line_enum_end : Line (.enum f x a vs) closes (.top (f.add (.enum x a vs))) := by
  intro s m h
  exact reads_end (q := []) (k := .closes) (c := Char.ofNat 0x7d) rfl rfl rfl (reads_newline h)

theorem line_plain (hx : ident v = true) (ht : Word t ∧ t ∉ keywords) :
    Line (.message f x ms) ("  ".toList ++ t ++ " ".toList ++ numbered v n)
      (.message f x (ms ++ [.field ⟨.none, .named t, v, n⟩])) := by
  intro s m h
  have hnum := reads_numbered (q := [.word t]) (r := .message f x ms) (n := n) (word_of_ident hx)
    (by simp [accept, number_decimal, hx, ht.2]) h
  have htype := reads_word (q := []) ht.1 rfl (reads_blank hnum)
  simpa using reads_blank (reads_blank htype)

theorem line_labelled {l : Text} {lab : Label} (hl : label l = some lab) (hw : Word l) (hx : ident v = true)
    (ht : Word t ∧ t ∉ keywords) :
    Line (.message f x ms) ("  ".toList ++ l ++ " ".toList ++ t ++ " ".toList ++ numbered v n)
      (.message f x (ms ++ [.field ⟨lab, .named t, v, n⟩])) := by
  intro s m h
  have hnum := reads_numbered (q := [.word l, .word t]) (r := .message f x ms) (n := n) (word_of_ident hx)
    (by simp [accept, number_decimal, hl, hx, ht.2]) h
  have htype := reads_word (q := [.word l]) ht.1 rfl (reads_blank hnum)
  have hlabel := reads_word (q := []) hw rfl (reads_blank htype)
  simpa using reads_blank (reads_blank hlabel)

/-- The label that `pre` writes. -/
def label_of (data : Metadata) : Label :=
  if data.repeated then .repeated else if data.optional then .optional else .none

theorem line_named (hx : ident v = true) (ht : Word t ∧ t ∉ keywords) (data : Metadata) :
    Line (.message f x ms) ("  ".toList ++ pre data ++ t ++ " ".toList ++ numbered v n)
      (.message f x (ms ++ [.field ⟨label_of data, .named t, v, n⟩])) := by
  have hrepeated : "repeated ".toList = "repeated".toList ++ " ".toList := by decide
  have hoptional : "optional ".toList = "optional".toList ++ " ".toList := by decide
  unfold pre label_of
  rcases data.repeated with _ | _
  · rcases data.optional with _ | _
    · simpa using line_plain hx ht
    · simpa [hoptional] using line_labelled (l := "optional".toList) rfl (by decide) hx ht
  · simpa [hrepeated] using line_labelled (l := "repeated".toList) rfl (by decide) hx ht

theorem line_map {k : Text} (hx : ident v = true) (hk : Word k) (ht : Word t) : Line (.message f x ms)
    ("  map<".toList ++ k ++ ", ".toList ++ t ++ "> ".toList ++ numbered v n)
    (.message f x (ms ++ [.field ⟨.none, .map k t, v, n⟩])) := by
  intro s m h
  have hnum := reads_numbered (q := [.word "map".toList, .less, .word k, .comma, .word t, .greater])
    (r := .message f x ms) (n := n) (word_of_ident hx) (by simp [accept, number_decimal, hx]) h
  have hgreater := reads_symbol (q := [.word "map".toList, .less, .word k, .comma, .word t]) (k := .greater)
    (c := '>') rfl rfl (reads_blank hnum)
  have hvalue := reads_word (q := [.word "map".toList, .less, .word k, .comma]) ht rfl hgreater
  have hcomma := reads_symbol (q := [.word "map".toList, .less, .word k]) (k := .comma) (c := ',') rfl rfl
    (reads_blank hvalue)
  have hkey := reads_word (q := [.word "map".toList, .less]) hk rfl hcomma
  have hless := reads_symbol (q := [.word "map".toList]) (k := .less) (c := '<') rfl rfl hkey
  have hmap := reads_word (q := []) (w := "map".toList) (by decide) rfl hless
  simpa using reads_blank (reads_blank hmap)

theorem line_oneof {g : Text} (hg : ident g = true) :
    Line (.message f x ms) ("  oneof ".toList ++ g ++ opens) (.oneof f x ms g []) := by
  intro s m h
  have hopen := reads_end (r := .message f x ms) (q := [.word "oneof".toList, .word g]) (k := .opens)
    (c := Char.ofNat 0x7b) rfl rfl (by simp [accept, hg]) (reads_newline h)
  have hname := reads_word (q := [.word "oneof".toList]) (word_of_ident hg) rfl (reads_blank hopen)
  have hkey := reads_word (q := []) (w := "oneof".toList) (by decide) rfl (reads_blank hname)
  simpa [opens] using reads_blank (reads_blank hkey)

theorem line_choice {g : Text} {cs : List Choice} (hv : ident v = true) (ht : Word t ∧ t ∉ keywords) :
    Line (.oneof f x ms g cs) ("    ".toList ++ t ++ " ".toList ++ numbered v n)
      (.oneof f x ms g (cs ++ [⟨t, v, n⟩])) := by
  intro s m h
  have hnum := reads_numbered (q := [.word t]) (r := .oneof f x ms g cs) (n := n) (word_of_ident hv)
    (by simp [accept, number_decimal, hv, ht.2]) h
  have htype := reads_word (q := []) ht.1 rfl (reads_blank hnum)
  simpa using reads_blank (reads_blank (reads_blank (reads_blank htype)))

theorem line_oneof_end {g : Text} {cs : List Choice} :
    Line (.oneof f x ms g cs) ("  ".toList ++ closes) (.message f x (ms ++ [.oneof g cs])) := by
  intro s m h
  have hclose := reads_end (r := .oneof f x ms g cs) (q := []) (k := .closes) (c := Char.ofNat 0x7d) rfl rfl rfl
    (reads_newline h)
  exact reads_blank (reads_blank hclose)

theorem line_message_end : Line (.message f x ms) closes (.top (f.add (.message x ms))) := by
  intro s m h
  exact reads_end (q := []) (k := .closes) (c := Char.ofNat 0x7d) rfl rfl rfl (reads_newline h)

end

/-! ### The lines of a class -/

/-- Lines that take the reading from `r` to `r'`, one after the other. -/
inductive Lines : Reading → List Text → Reading → Prop
  | nil (r) : Lines r [] r
  | cons {r r' r'' line lines} (h : Line r line r') (hs : Lines r' lines r'') : Lines r (line :: lines) r''

theorem Lines.append {r r' r'' : Reading} {ls ls' : List Text} (h : Lines r ls r') (h' : Lines r' ls' r'') :
    Lines r (ls ++ ls') r'' := by
  induction h with
  | nil => exact h'
  | cons hl _ ih => exact .cons hl (ih h')

theorem Lines.single {r r' : Reading} {line : Text} (h : Line r line r') : Lines r [line] r' := .cons h (.nil _)

def newline (line : Text) : Text := line ++ ['\n']

theorem Lines.reads {r r' : Reading} {ls : List Text} (h : Lines r ls r') :
    Reads ⟨.plain, [], r⟩ (ls.flatMap newline) ⟨.plain, [], r'⟩ := by
  induction h with
  | nil => exact reads_nil _
  | cons hl _ ih =>
    have := hl _ _ ih
    rw [List.flatMap_cons, newline]
    simpa using this

/-- Lines of which each adds one thing to what is being read. -/
theorem lines_map {α β : Type} (state : List β → Reading) (line : α → Text) (out : α → β) (items : List α)
    (h : ∀ a ∈ items, ∀ bs, Line (state bs) (line a) (state (bs ++ [out a]))) (bs : List β) :
    Lines (state bs) (items.map line) (state (bs ++ items.map out)) := by
  induction items generalizing bs with
  | nil => simpa using Lines.nil (state bs)
  | cons a items ih =>
    rw [List.map_cons, List.map_cons]
    refine .cons (h a (by simp) bs) ?_
    simpa using ih (fun b hb => h b (by simp [hb])) (bs ++ [out a])

/-- No two members of an `IntEnum` have the same number. -/
theorem nodup_members (cls : EnumClass) : (cls.members.map Prod.snd).Nodup := by
  suffices ∀ ms written : List (Text × Int), (ms.map Prod.snd).Nodup →
      ((written.foldl (fun ms m => if m.2 ∈ ms.map Prod.snd then ms else ms ++ [m]) ms).map Prod.snd).Nodup from
    this [] cls.written List.nodup_nil
  intro ms written
  induction written generalizing ms with
  | nil => exact id
  | cons m written ih =>
    intro h
    rw [List.foldl_cons]
    refine ih _ ?_
    split
    · exact h
    · next hm =>
      rw [List.map_append, List.map_singleton]
      exact List.nodup_append.2 ⟨h, List.nodup_singleton _, fun a ha b hb hab =>
        hm (List.mem_singleton.1 hb ▸ hab ▸ ha)⟩

theorem members_sublist (cls : EnumClass) : cls.members.Sublist cls.written := by
  suffices ∀ written ms : List (Text × Int),
      (written.foldl (fun ms m => if m.2 ∈ ms.map Prod.snd then ms else ms ++ [m]) ms).Sublist (ms ++ written) from
    this cls.written []
  intro written
  induction written with
  | nil => intro ms; simp
  | cons m written ih =>
    intro ms
    refine (ih _).trans ?_
    dsimp only
    split
    · exact (List.sublist_cons_self m written).append_left ms
    · rw [List.append_assoc]
      rfl

def value_line (name : Text) (m : Text × Int) : Text :=
  "  ".toList ++ (name ++ "_".toList ++ m.1) ++ " = ".toList ++ integer m.2 ++ ";".toList

/-- The numbers seen are those of earlier members, so no member has one of them. -/
theorem foldl_emit_member (name : Text) (ms : List (Text × Int)) (lines : List Text) (seen_values : List Int)
    (h : (ms.map Prod.snd).Nodup) (hseen : ∀ m ∈ ms, m.2 ∉ seen_values) :
    (ms.foldl (emit_member name) (lines, seen_values)).1 = lines ++ ms.map (value_line name) := by
  induction ms generalizing lines seen_values with
  | nil => simp
  | cons m ms ih =>
    obtain ⟨hm, hms⟩ := List.nodup_cons.1 h
    have hstep : emit_member name (lines, seen_values) m = (lines ++ [value_line name m], m.2 :: seen_values) := by
      simp only [emit_member, if_neg (hseen m (by simp)), value_line]
    rw [List.foldl_cons, hstep, ih _ _ hms, List.map_cons, List.append_assoc, List.singleton_append]
    intro n hn
    rw [List.mem_cons, not_or]
    exact ⟨fun heq => hm (heq ▸ List.mem_map_of_mem hn), hseen n (by simp [hn])⟩

theorem enum_lines_eq (cls : EnumClass) : enum_lines cls = ["enum ".toList ++ cls.name ++ opens] ++
    (if cls.members.any fun m => m.2 = 0 then [] else ["  ".toList ++ unspecified cls.name ++ " = 0;".toList]) ++
    cls.members.map (value_line cls.name) ++ [closes] := by
  unfold enum_lines
  split <;> simp [foldl_emit_member _ _ _ _ (nodup_members cls)]

def value_of (cls : EnumClass) (m : Text × Int) : Value := ⟨cls.name ++ "_".toList ++ m.1, m.2⟩

def enum_of (cls : EnumClass) : Decl :=
  .enum cls.name false ((if cls.members.any fun m => m.2 = 0 then [] else [⟨unspecified cls.name, 0⟩]) ++
    cls.members.map (value_of cls))

theorem enum_lines_read {f : File} {cls : EnumClass} (hname : ident cls.name = true)
    (hvalues : ∀ m ∈ cls.members, part_of_ident m.1 = true) :
    Lines (.top f) (enum_lines cls) (.top (f.add (enum_of cls))) := by
  have hprefix : ident (cls.name ++ "_".toList) = true := ident_append hname (by decide)
  rw [enum_lines_eq, enum_of]
  refine ((Lines.append (.single (line_enum hname)) ?_).append (lines_map
    (fun vs => .enum f cls.name false vs) (value_line cls.name) (value_of cls) cls.members
    (fun m hm vs => line_value (ident_append hprefix (hvalues m hm)) m.2) _)).append (.single line_enum_end)
  split
  · exact .nil _
  · have hline : Line (.enum f cls.name false []) _ (.enum f cls.name false _) :=
      line_value (ident_unspecified hname) 0
    have hzero : " = 0;".toList = " = ".toList ++ integer 0 ++ ";".toList := by decide
    rw [hzero, ← List.append_assoc, ← List.append_assoc]
    exact .single hline

theorem described_mem {cls : MessageClass} {g : Metadata × DataField} (h : g ∈ described cls) : g.2 ∈ cls.fields := by
  obtain ⟨field, hmem, hfield⟩ := List.mem_filterMap.1 h
  obtain ⟨data, -, rfl⟩ := Option.map_eq_some_iff.1 hfield
  exact hmem

theorem mem_described {cls : MessageClass} {g : Metadata × DataField} (h : g ∈ described cls) :
    g.2.metadata = some g.1 := by
  obtain ⟨field, -, hfield⟩ := List.mem_filterMap.1 h
  obtain ⟨data, hdata, rfl⟩ := Option.map_eq_some_iff.1 hfield
  exact hdata

theorem foldl_add_choice (fs : List (Metadata × DataField)) : fs.foldl add_choice [] =
    (fs.map fun f => f.1.group).eraseDups.map fun k => (k, fs.filter fun f => f.1.group = k) := by
  induction fs using List.reverseRecOn with
  | nil => rfl
  | append_singleton fs f ih =>
    rw [List.foldl_append, ih, List.foldl_cons, List.foldl_nil, add_choice, List.map_map, List.map_append,
      List.map_singleton, List.eraseDups_append]
    have hnames : ((fs.map fun f => f.1.group).eraseDups.map
        (Prod.fst ∘ fun k => (k, fs.filter fun f => f.1.group = k))) = (fs.map fun f => f.1.group).eraseDups :=
      List.map_id _
    rw [hnames]
    by_cases hmem : f.1.group ∈ fs.map fun f => f.1.group
    · have hnone : [f.1.group].removeAll (fs.map fun f => f.1.group) = [] := by simpa [List.removeAll] using hmem
      rw [if_pos (List.contains_iff_mem.2 (List.mem_eraseDups.2 hmem)), hnone, List.eraseDups_nil, List.append_nil,
        List.map_map]
      refine List.map_congr_left fun k _ => ?_
      by_cases hk : k = f.1.group
      · simp [hk]
      · simp [hk, Ne.symm hk]
    · have hnew : [f.1.group].removeAll (fs.map fun f => f.1.group) = [f.1.group] := by
        simpa [List.removeAll] using hmem
      have hcontains : ¬ (fs.map fun f => f.1.group).eraseDups.contains f.1.group = true := fun h =>
        hmem (List.mem_eraseDups.1 (List.contains_iff_mem.1 h))
      have hnothing : fs.filter (fun g => g.1.group = f.1.group) = [] :=
        List.filter_eq_nil_iff.2 fun g hg heq => hmem (List.mem_map.2 ⟨g, hg, of_decide_eq_true heq⟩)
      rw [if_neg hcontains, hnew, List.map_append]
      congr 1
      · refine List.map_congr_left fun k hk => ?_
        have hne : f.1.group ≠ k := by
          rintro rfl
          exact hmem (List.mem_eraseDups.1 hk)
        simp [hne]
      · simp [List.eraseDups_cons, hnothing]

/-- The fields of a group, by the fields that have it. -/
theorem described_group (cls : MessageClass) (k : Text) : (cls.fields.filter fun f => f.group = some k) =
    ((described cls).filter fun g => g.1.group = k).map Prod.snd := by
  unfold described
  induction cls.fields with
  | nil => rfl
  | cons f fs ih =>
    rcases hdata : f.metadata with _ | data
    · have hgroup : ¬ f.group = some k := by simp [DataField.group, hdata]
      rw [List.filter_cons_of_neg (by simpa using hgroup), List.filterMap_cons, ih]
      simp [hdata]
    · by_cases hk : data.group = k
      · have hgroup : f.group = some k := by simp [DataField.group, hdata, hk]
        rw [List.filter_cons_of_pos (by simpa using hgroup), List.filterMap_cons, ih]
        simp [hdata, hk]
      · have hgroup : ¬ f.group = some k := by simp [DataField.group, hdata, hk]
        rw [List.filter_cons_of_neg (by simpa using hgroup), List.filterMap_cons, ih]
        simp [hdata, hk]

theorem described_groups (cls : MessageClass) :
    ((described cls).filter fun f => f.1.group ≠ []).map (fun f => f.1.group) =
      (cls.fields.filterMap DataField.group).filter (· ≠ []) := by
  have hgroups : (described cls).map (fun f => f.1.group) = cls.fields.filterMap DataField.group := by
    rw [described, List.map_filterMap]
    refine List.filterMap_congr fun f _ => ?_
    rw [Option.map_map]
    rfl
  rw [← hgroups, List.filter_map]
  rfl

/-- A group holds the fields that have it. -/
theorem mem_oneofs {cls : MessageClass} {g : Text × List (Metadata × DataField)} (h : g ∈ oneofs cls) :
    g.1 ≠ [] ∧ g.1 ∈ cls.fields.filterMap DataField.group ∧ g.2 = (described cls).filter fun f => f.1.group = g.1 := by
  rw [oneofs, foldl_add_choice, described_groups] at h
  obtain ⟨k, hk, rfl⟩ := List.mem_map.1 h
  obtain ⟨hmem, hne⟩ := List.mem_filter.1 (List.mem_eraseDups.1 hk)
  have hne : k ≠ [] := of_decide_eq_true hne
  refine ⟨hne, hmem, ?_⟩
  rw [List.filter_filter]
  refine List.filter_congr fun f _ => ?_
  by_cases heq : f.1.group = k
  · simp [heq, hne]
  · simp [heq]

def field_of (classes : List Text) (f : Metadata × DataField) : Proto3.Field :=
  match f.1.map_meta with
  | some km => ⟨.none, .map (map_types km f.2 classes).1 (map_types km f.2 classes).2, f.2.name, f.1.number⟩
  | none => ⟨label_of f.1, .named (type_str f.1 f.2 classes), f.2.name, f.1.number⟩

def choice_of (classes : List Text) (f : Metadata × DataField) : Choice :=
  ⟨choice_type f.1 f.2 classes, f.2.name, f.1.number⟩

def message_of (classes : List Text) (cls : MessageClass) : Decl :=
  .message cls.name ((plain cls).map (fun f => .field (field_of classes f)) ++
    (oneofs cls).map fun g => .oneof g.1 (g.2.map (choice_of classes)))

/-- The file that the text is read as. -/
def generated (messages : List MessageClass) (enums : List EnumClass) : File :=
  ⟨"tiktok".toList, (sorted_enums enums).map enum_of ++
    (sorted_messages messages).map (message_of (known messages enums))⟩

section
variable {f : File} {x : Text} {names : List Text} (hnames : ∀ x ∈ names, ident x = true ∧ x ∉ keywords)
include hnames

theorem field_read {g : Metadata × DataField} (hdata : g.2.metadata = some g.1) (hname : ident g.2.name = true)
    (htype : PlainType names g.2 g.1 (field_of names g).type) (ms : List Member) :
    Line (.message f x ms) (emit_field g.2 names) (.message f x (ms ++ [.field (field_of names g)])) := by
  unfold emit_field
  unfold field_of at htype ⊢
  rw [hdata]
  dsimp only
  rcases h : g.1.map_meta with _ | km
  · rw [h] at htype
    obtain ⟨-, ⟨-, htype⟩ | ⟨-, htype⟩⟩ := htype
    · exact line_named hname (htype.word hnames) g.1
    · have htype : type_str g.1 g.2 names = "bytes".toList := htype
      rw [htype]
      exact line_named hname (scalar_word (by decide)) g.1
  · rw [h] at htype
    obtain ⟨_, _, hvalue, hkey, _⟩ := htype
    exact line_map hname (scalar_word hkey).1 (hvalue.word hnames).1

theorem oneof_read {g : Text × List (Metadata × DataField)} (hgroup : ident g.1 = true)
    (hname : ∀ c ∈ g.2, ident c.2.name = true)
    (htype : ∀ c ∈ g.2, TypeOf names c.2.type c.1.proto_type (choice_type c.1 c.2 names)) (ms : List Member) :
    Lines (.message f x ms) (oneof_lines names g)
      (.message f x (ms ++ [.oneof g.1 (g.2.map (choice_of names))])) := by
  refine .cons (line_oneof hgroup) (Lines.append ?_ (.single line_oneof_end))
  exact lines_map (fun cs => .oneof f x ms g.1 cs) _ (choice_of names) g.2 (fun c hc cs => line_choice (hname c hc)
    ((htype c hc).word hnames)) []

end

theorem emit_field_ne_nil {g : Metadata × DataField} (hdata : g.2.metadata = some g.1) (names : List Text) :
    emit_field g.2 names ≠ [] := by
  unfold emit_field
  rw [hdata]
  dsimp only
  split <;> simp

theorem lines_flatMap {α β : Type} (state : List β → Reading) (lines : α → List Text) (out : α → β) (items : List α)
    (h : ∀ a ∈ items, ∀ bs, Lines (state bs) (lines a) (state (bs ++ [out a]))) (bs : List β) :
    Lines (state bs) (items.flatMap lines) (state (bs ++ items.map out)) := by
  induction items generalizing bs with
  | nil => simpa using Lines.nil (state bs)
  | cons a items ih =>
    rw [List.flatMap_cons, List.map_cons]
    refine (h a (by simp) bs).append ?_
    simpa using ih (fun b hb => h b (by simp [hb])) (bs ++ [out a])

section
variable {messages : List MessageClass} {enums : List EnumClass} (h : Describable messages enums)
include h

theorem field_of_described {cls : MessageClass} (hcls : cls ∈ messages) {g : Metadata × DataField}
    (hg : g ∈ described cls) (hgroup : g.1.group = []) :
    PlainType (known messages enums) g.2 g.1 (field_of (known messages enums) g).type := by
  have hrefers := h.types cls hcls g.2 (described_mem hg) g.1 (mem_described hg)
  unfold field_of
  rcases hmap : g.1.map_meta with _ | km
  · exact type_str_described h.classes hgroup hmap hrefers
  · exact map_types_described h.classes hgroup hmap hrefers

theorem choice_of_described {cls : MessageClass} (hcls : cls ∈ messages) {g : Metadata × DataField}
    (hg : g ∈ described cls) (hgroup : g.1.group ≠ []) :
    TypeOf (known messages enums) g.2.type g.1.proto_type (choice_type g.1 g.2 (known messages enums)) :=
  choice_type_described h.classes hgroup (h.types cls hcls g.2 (described_mem hg) g.1 (mem_described hg))

theorem message_lines_read {f : File} {cls : MessageClass} (hcls : cls ∈ messages) :
    Lines (.top f) (message_lines cls (known messages enums))
      (.top (f.add (message_of (known messages enums) cls))) := by
  have hname : ident cls.name = true :=
    (h.classes cls.name (List.mem_append_left _ (List.mem_map_of_mem hcls))).1
  have hnames : ∀ g ∈ described cls, ident g.2.name = true := fun g hg =>
    h.names cls hcls g.2 (described_mem hg) (by rw [mem_described hg]; rfl)
  have hplain : ∀ g ∈ plain cls, g ∈ described cls ∧ g.1.group = [] := fun g hg => by
    simpa [plain] using hg
  have hfilter : ((plain cls).map fun f => emit_field f.2 (known messages enums)).filter (· ≠ []) =
      (plain cls).map fun f => emit_field f.2 (known messages enums) := by
    refine List.filter_eq_self.2 fun line hline => ?_
    obtain ⟨g, hg, rfl⟩ := List.mem_map.1 hline
    exact decide_eq_true (emit_field_ne_nil (mem_described (hplain g hg).1) _)
  have hfields := lines_map (fun ms => .message f cls.name ms) (fun g => emit_field g.2 (known messages enums))
    (fun g => Member.field (field_of _ g)) (plain cls)
    (fun g hg ms => field_read h.classes (mem_described (hplain g hg).1) (hnames g (hplain g hg).1)
      (field_of_described h hcls (hplain g hg).1 (hplain g hg).2) ms) []
  have hgroups := lines_flatMap (fun ms => .message f cls.name ms) (oneof_lines (known messages enums))
    (fun g => Member.oneof g.1 (g.2.map (choice_of (known messages enums)))) (oneofs cls)
    (fun g hg ms => by
      obtain ⟨hne, hmem, hchoices⟩ := mem_oneofs hg
      have hfields : ∀ c ∈ g.2, c ∈ described cls ∧ c.1.group = g.1 := fun c hc => by
        rw [hchoices] at hc
        simpa using hc
      obtain ⟨field, hfield, hgroup⟩ := List.mem_filterMap.1 hmem
      exact oneof_read h.classes (h.groups cls hcls field hfield g.1 hgroup hne)
        (fun c hc => hnames c (hfields c hc).1)
        (fun c hc => choice_of_described h hcls (hfields c hc).1 ((hfields c hc).2 ▸ hne)) ms)
    ((plain cls).map fun g => .field (field_of (known messages enums) g))
  rw [message_lines, hfilter, message_of]
  exact ((Lines.append (.single (line_message hname)) hfields).append hgroups).append (.single line_message_end)

theorem message_of_described {cls : MessageClass} (hcls : cls ∈ messages) :
    DescribedMessage (known messages enums) cls (message_of (known messages enums) cls) := by
  refine ⟨(plain cls).map (field_of (known messages enums)),
    (oneofs cls).map fun g => (g.1, g.2.map (choice_of (known messages enums))), ?_, ?_, ?_, ?_⟩
  · rw [message_of, List.map_map, List.map_map]
    rfl
  · rw [described_group, List.forall₂_map_left_iff, List.forall₂_map_right_iff, plain, List.forall₂_same]
    intro g hg
    obtain ⟨hdesc, hgroup⟩ : g ∈ described cls ∧ g.1.group = [] := by simpa using hg
    have htype := field_of_described h hcls hdesc hgroup
    refine ⟨g.1, mem_described hdesc, ?_, ?_, ?_, htype⟩ <;> unfold field_of
    · cases g.1.map_meta <;> rfl
    · cases g.1.map_meta <;> rfl
    · unfold LabelOf
      cases g.1.map_meta <;> rfl
  · rw [List.map_map, oneofs, foldl_add_choice, described_groups, List.map_map]
    exact List.map_id _
  · intro g' hg'
    obtain ⟨g, hg, rfl⟩ := List.mem_map.1 hg'
    obtain ⟨hne, -, hchoices⟩ := mem_oneofs hg
    rw [described_group, List.forall₂_map_left_iff, List.forall₂_map_right_iff, hchoices, List.forall₂_same]
    intro c hc
    obtain ⟨hdesc, hgroup⟩ : c ∈ described cls ∧ c.1.group = g.1 := by simpa using hc
    exact ⟨c.1, mem_described hdesc, rfl, rfl, choice_of_described h hcls hdesc (hgroup ▸ hne)⟩

end

theorem enum_of_described (cls : EnumClass) : DescribedEnum cls (enum_of cls) := by
  refine ⟨if cls.members.any fun m => m.2 = 0 then [] else [⟨unspecified cls.name, 0⟩], ?_, fun hzero => ?_,
    fun hzero => ?_⟩
  · rw [enum_of]
    congr 2
    refine List.map_congr_left fun m _ => ?_
    rw [value_of, List.append_assoc]
    rfl
  · obtain ⟨m, hm, hzero⟩ := hzero
    exact if_pos (List.any_eq_true.2 ⟨m, hm, decide_eq_true hzero⟩)
  · refine if_neg fun hany => ?_
    obtain ⟨m, hm, h⟩ := List.any_eq_true.1 hany
    exact hzero m hm (of_decide_eq_true h)

/-! ### The file -/

theorem join_cons (p : Text) (ps : List Text) (h : ps ≠ []) : join (p :: ps) = newline p ++ join ps := by
  rw [join, List.intercalate_cons_of_ne_nil h]
  simp [newline, join]

theorem join_snoc (ps : List Text) : join (ps ++ [[]]) = ps.flatMap newline := by
  induction ps with
  | nil => rfl
  | cons p ps ih => rw [List.cons_append, join_cons _ _ (by simp), ih, List.flatMap_cons]

theorem newline_join (lines : List Text) (h : lines ≠ []) : newline (join lines) = lines.flatMap newline := by
  induction lines with
  | nil => exact absurd rfl h
  | cons l lines ih =>
    rcases lines with _ | ⟨l', lines⟩
    · simp [join, newline]
    · rw [join_cons _ _ (by simp), List.flatMap_cons, ← ih (by simp)]
      simp [newline]

def header : List Text :=
  ["syntax = ".toList ++ quote :: "proto3".toList ++ quote :: ";".toList, "package tiktok;".toList, [],
    "// AUTO-GENERATED from the TikTokLiveProto v3 betterproto2 package.".toList,
    "// Do not edit by hand; regenerate with tools/gen_proto.py.".toList]

/-- Every class is written after an empty line. -/
theorem flatMap_shift (ps : List Text) :
    [] :: ps.flatMap (fun p => [p, []]) = ps.flatMap (fun p => [[], p]) ++ [[]] := by
  induction ps with
  | nil => rfl
  | cons p ps ih =>
    rw [List.flatMap_cons, List.flatMap_cons, List.append_assoc, ← ih]
    rfl

def class_lines (messages : List MessageClass) (enums : List EnumClass) : List (List Text) :=
  (sorted_enums enums).map enum_lines ++
    (sorted_messages messages).map fun cls => message_lines cls (known messages enums)

theorem generate_eq (messages : List MessageClass) (enums : List EnumClass) : generate messages enums =
    (header ++ (class_lines messages enums).flatMap fun lines => [] :: lines).flatMap newline := by
  have hparts : parts messages enums =
      header ++ [] :: ((class_lines messages enums).map join).flatMap fun p => [p, []] := by
    simp [parts, header, class_lines, emit_enum, emit_message, List.flatMap_map]
  have hne : ∀ lines ∈ class_lines messages enums, lines ≠ [] := by
    intro lines hlines
    rcases List.mem_append.1 hlines with h | h <;> obtain ⟨cls, -, rfl⟩ := List.mem_map.1 h
    · simp [enum_lines_eq]
    · simp [message_lines]
  rw [generate, hparts, flatMap_shift, ← List.append_assoc, join_snoc, List.flatMap_append, List.flatMap_append,
    List.flatMap_map, List.flatMap_assoc, List.flatMap_assoc]
  congr 1
  refine List.flatMap_congr fun lines hlines => ?_
  simp only [List.flatMap_cons, List.flatMap_nil, List.append_nil]
  rw [newline_join lines (hne lines hlines)]

theorem line_comment (r : Reading) {v : Text} (hv : '\n' ∉ v) : Line r ("//".toList ++ v) r :=
  fun _ _ h => reads_comment hv h

theorem header_read : Lines .start header (.top ⟨"tiktok".toList, []⟩) := by
  have hsyntax : Line .start ("syntax = ".toList ++ quote :: "proto3".toList ++ quote :: ";".toList) .head := by
    intro s m h
    have hend := reads_end (r := .start) (q := [.word "syntax".toList, .equals, .quoted "proto3".toList]) (c := ';')
      rfl rfl (by decide) (reads_newline h)
    have hquoted := reads_quoted (q := [.word "syntax".toList, .equals]) (v := "proto3".toList) (by decide) hend
    have heq := reads_symbol (q := [.word "syntax".toList]) (c := '=') rfl rfl (reads_blank hquoted)
    have hword := reads_word (q := []) (w := "syntax".toList) (by decide) rfl (reads_blank heq)
    simpa using hword
  have hpackage : Line .head "package tiktok;".toList (.top ⟨"tiktok".toList, []⟩) := by
    intro s m h
    have hend := reads_end (r := .head) (q := [.word "package".toList, .word "tiktok".toList]) (c := ';')
      rfl rfl (by decide) (reads_newline h)
    have hname := reads_word (q := [.word "package".toList]) (w := "tiktok".toList) (by decide) rfl hend
    have hword := reads_word (q := []) (w := "package".toList) (by decide) rfl (reads_blank hname)
    simpa using hword
  exact .cons hsyntax <| .cons hpackage <| .cons (line_empty _) <|
    .cons (line_comment (v := " AUTO-GENERATED from the TikTokLiveProto v3 betterproto2 package.".toList) _
      (by decide)) <|
    .single (line_comment (v := " Do not edit by hand; regenerate with tools/gen_proto.py.".toList) _ (by decide))

/-- The text that is written is a proto3 file. -/
theorem generate_read {messages : List MessageClass} {enums : List EnumClass} (h : Describable messages enums) :
    parse (generate messages enums) = some (generated messages enums) := by
  have henums := lines_flatMap (fun ds => .top ⟨"tiktok".toList, ds⟩) (fun cls => [] :: enum_lines cls) enum_of
    (sorted_enums enums) (fun cls hcls ds => by
      have hcls : cls ∈ enums := (List.mem_insertionSort _).1 hcls
      exact .cons (line_empty _) (enum_lines_read
        (h.classes cls.name (List.mem_append_right _ (List.mem_map_of_mem hcls))).1 (h.values cls hcls))) []
  have hmessages := lines_flatMap (fun ds => .top ⟨"tiktok".toList, ds⟩)
    (fun cls => [] :: message_lines cls (known messages enums)) (message_of (known messages enums))
    (sorted_messages messages) (fun cls hcls ds =>
      .cons (line_empty _) (message_lines_read h ((List.mem_insertionSort _).1 hcls)))
    ((sorted_enums enums).map enum_of)
  have hlines : (class_lines messages enums).flatMap (fun lines => [] :: lines) =
      (sorted_enums enums).flatMap (fun cls => [] :: enum_lines cls) ++
        (sorted_messages messages).flatMap fun cls => [] :: message_lines cls (known messages enums) := by
    rw [class_lines, List.flatMap_append, List.flatMap_map, List.flatMap_map]
  have hread := (header_read.append (henums.append hmessages)).reads
  rw [← hlines, ← generate_eq] at hread
  rw [parse, show List.foldlM Machine.step _ _ = some _ from hread]
  rfl

theorem le_total (s t : Text) : le s t = true ∨ le t s = true := by
  induction s generalizing t with
  | nil => exact .inl rfl
  | cons a s ih =>
    rcases t with _ | ⟨b, t⟩
    · exact .inr rfl
    · by_cases hab : a = b
      · simpa [le, hab] using ih t
      · have hne : a.toNat ≠ b.toNat := fun heq => hab (Char.toNat_inj.1 heq)
        simp only [le, if_neg hab, if_neg (Ne.symm hab), decide_eq_true_eq]
        omega

theorem le_trans {s t u : Text} (hst : le s t = true) (htu : le t u = true) : le s u = true := by
  induction s generalizing t u with
  | nil => rfl
  | cons a s ih =>
    rcases t with _ | ⟨b, t⟩
    · cases hst
    · rcases u with _ | ⟨c, u⟩
      · cases htu
      · simp only [le] at hst htu ⊢
        by_cases hab : a = b
        · rw [if_pos hab] at hst
          by_cases hbc : b = c
          · rw [if_pos hbc] at htu
            rw [if_pos (hab.trans hbc)]
            exact ih hst htu
          · rw [if_neg hbc] at htu
            rw [hab, if_neg hbc]
            exact htu
        · rw [if_neg hab, decide_eq_true_eq] at hst
          by_cases hbc : b = c
          · rw [← hbc, if_neg hab]
            exact decide_eq_true hst
          · rw [if_neg hbc, decide_eq_true_eq] at htu
            have hac : a ≠ c := by
              rintro rfl
              omega
            rw [if_neg hac]
            exact decide_eq_true (Nat.lt_trans hst htu)

theorem sorted_by_name {α : Type} (name : α → Text) (l : List α) :
    (l.insertionSort fun a b => le (name a) (name b)).Pairwise fun a b => le (name a) (name b) = true := by
  have htotal : Std.Total fun a b : α => le (name a) (name b) = true := ⟨fun a b => le_total _ _⟩
  have htrans : IsTrans α fun a b => le (name a) (name b) = true := ⟨fun a b c => le_trans⟩
  exact List.pairwise_insertionSort _ l

theorem generated_described {messages : List MessageClass} {enums : List EnumClass} (h : Describable messages enums) :
    DescribedFile messages enums (generated messages enums) where
  package := rfl
  decls := by
    refine ⟨sorted_enums enums, sorted_messages messages, _, _, rfl,
      ⟨List.perm_insertionSort _ _, sorted_by_name _ _, ?_⟩, List.perm_insertionSort _ _, sorted_by_name _ _, ?_⟩
    · rw [List.forall₂_map_right_iff, List.forall₂_same]
      exact fun cls _ => enum_of_described cls
    · rw [List.forall₂_map_right_iff, List.forall₂_same]
      exact fun cls hcls => message_of_described h ((List.mem_insertionSort _).1 hcls)

/-- The text that is written is a proto3 file, and it is read as the schema that the classes describe. -/
theorem schema_read {messages : List MessageClass} {enums : List EnumClass} (h : Describable messages enums) :
    ∃ f, parse (generate messages enums) = some f ∧ DescribedFile messages enums f :=
  ⟨_, generate_read h, generated_described h⟩

/-- A class with a plain field, a repeated one, a map and a group, and an enumeration without zero. -/
def sample_message : MessageClass where
  name := "Gift".toList
  fields :=
    [⟨"id".toList, .text "int".toList, some { number := 1, proto_type := "int64".toList }⟩,
      ⟨"users".toList, .text "list[User]".toList,
        some { number := 2, proto_type := "message".toList, repeated := true }⟩,
      ⟨"extra".toList, .text "dict[str, str]".toList,
        some { number := 3, proto_type := "map".toList, map_meta := some ⟨none, none⟩ }⟩,
      ⟨"kind".toList, .text "Optional[Kind]".toList,
        some { number := 4, proto_type := "enum".toList, group := "what".toList }⟩,
      ⟨"cached".toList, .text "int".toList, none⟩]

def sample_enum : EnumClass := ⟨"Kind".toList, [("A".toList, 1), ("B".toList, 2), ("C".toList, 1)], by decide⟩

theorem sample_describable : Describable [sample_message, ⟨"User".toList, []⟩] [sample_enum] where
  classes := by decide
  values := by decide
  names := by decide
  groups := by decide
  types := by
    intro cls hcls f hf data hdata hrefers
    rcases List.mem_cons.1 hcls with rfl | hcls
    · have hscalar : ∀ t ∈ ["int64".toList, "string".toList], t ∈ scalar_map ∧ t ∉ references := by decide
      simp only [sample_message, List.mem_cons, List.not_mem_nil, or_false] at hf
      rcases hf with rfl | rfl | rfl | rfl | rfl
      · cases hdata
        exact absurd hrefers (hscalar _ (by decide)).2
      · exact ⟨"User".toList, by decide, by decide, ["]".toList], by decide, .inr ⟨[], "list[".toList, by decide, rfl⟩⟩
      · cases hdata
        exact absurd (hscalar _ (by decide)).1 hrefers
      · exact ⟨"Kind".toList, by decide, by decide, ["]".toList], by decide, .inr ⟨[], "Optional[".toList, by decide, rfl⟩⟩
      · cases hdata
    · rw [List.mem_singleton.1 hcls] at hf
      cases hf

theorem schema_read_sample : ∃ f, parse (generate [sample_message, ⟨"User".toList, []⟩] [sample_enum]) = some f ∧
    DescribedFile [sample_message, ⟨"User".toList, []⟩] [sample_enum] f := schema_read sample_describable

/-! ### Enumerations -/

/-- The value that is put in front takes a member's name where the class name has no small letters. -/
theorem unspecified_eq {name m : Text} : unspecified name = name ++ "_".toList ++ m ↔
    name.map Char.toUpper = name ∧ m = "UNSPECIFIED".toList := by
  have hsplit : "_UNSPECIFIED".toList = "_".toList ++ "UNSPECIFIED".toList := by decide
  rw [unspecified, hsplit, List.append_assoc]
  constructor
  · intro h
    obtain ⟨h₁, h₂⟩ := List.append_inj h (by simp)
    exact ⟨h₁, (List.append_cancel_left h₂).symm⟩
  · rintro ⟨h, rfl⟩
    rw [h]

/-- The reader takes the text of an enumeration for one with these values, wherever a declaration may stand. -/
def ReadAs (cls : EnumClass) (vs : List Value) : Prop :=
  ∀ f, Reads ⟨.plain, [], .top f⟩ (newline (emit_enum cls)) ⟨.plain, [], .top (f.add (.enum cls.name false vs))⟩

/-- Every enumeration that is written has distinct numbers and needs no alias. Its first number is zero, as proto3 has
it, unless a member is zero that is not declared first, and its names are distinct unless the zero put in front takes
one. -/
theorem enum_valid {cls : EnumClass} (hname : ident cls.name = true)
    (hmembers : ∀ m ∈ cls.members, part_of_ident m.1 = true) :
    ∃ vs, ReadAs cls vs ∧ DescribedEnum cls (.enum cls.name false vs) ∧ (vs.map (·.number)).Nodup ∧
      ((vs.map (·.number)).head? = some 0 ↔
        (∀ m ∈ cls.members, m.2 ≠ 0) ∨ (cls.members.map Prod.snd).head? = some 0) ∧
      ((vs.map (·.name)).Nodup ↔ ¬ ((∀ m ∈ cls.members, m.2 ≠ 0) ∧ cls.name.map Char.toUpper = cls.name ∧
        "UNSPECIFIED".toList ∈ cls.members.map Prod.fst)) := by
  refine ⟨_, fun f => ?_, enum_of_described cls, ?_⟩
  · rw [emit_enum, newline_join _ (by simp [enum_lines_eq])]
    exact (enum_lines_read hname hmembers).reads
  have hnumbers : (cls.members.map (value_of cls)).map (·.number) = cls.members.map Prod.snd := by
    rw [List.map_map]
    rfl
  have hnames : (cls.members.map (value_of cls)).map (·.name) =
      (cls.members.map Prod.fst).map fun m => cls.name ++ "_".toList ++ m := by
    rw [List.map_map, List.map_map]
    rfl
  have hnodup : ((cls.members.map Prod.fst).map fun m => cls.name ++ "_".toList ++ m).Nodup :=
    (cls.nodup_names.sublist ((members_sublist cls).map Prod.fst)).map fun _ _ => List.append_cancel_left
  rw [List.map_append, List.map_append, hnumbers, hnames]
  by_cases hall : ∀ m ∈ cls.members, m.2 ≠ 0
  · have hany : ¬ cls.members.any (fun m => m.2 = 0) = true := fun h => by
      obtain ⟨m, hm, hzero⟩ := List.any_eq_true.1 h
      exact hall m hm (of_decide_eq_true hzero)
    rw [if_neg hany]
    refine ⟨List.nodup_cons.2 ⟨fun h => ?_, nodup_members cls⟩, iff_of_true rfl (.inl hall), ?_⟩
    · obtain ⟨m, hm, h⟩ := List.mem_map.1 h
      exact hall m hm h
    · refine List.nodup_cons.trans ((and_iff_left hnodup).trans ?_)
      show unspecified cls.name ∉ (cls.members.map Prod.fst).map (fun m => cls.name ++ "_".toList ++ m) ↔ _
      rw [List.mem_map]
      constructor
      · rintro h ⟨-, hupper, hm⟩
        exact h ⟨_, hm, (unspecified_eq.2 ⟨hupper, rfl⟩).symm⟩
      · rintro h ⟨m, hm, heq⟩
        obtain ⟨hupper, rfl⟩ := unspecified_eq.1 heq.symm
        exact h ⟨hall, hupper, hm⟩
  · have hany : cls.members.any (fun m => m.2 = 0) = true := by
      push Not at hall
      obtain ⟨m, hm, hzero⟩ := hall
      exact List.any_eq_true.2 ⟨m, hm, decide_eq_true hzero⟩
    rw [if_pos hany]
    exact ⟨nodup_members cls, ⟨.inr, fun h => h.resolve_left hall⟩, iff_of_true hnodup fun h => hall h.1⟩

def shouting : EnumClass := ⟨"KIND".toList, [("UNSPECIFIED".toList, 1)], by decide⟩

def zero_last : EnumClass := ⟨"Kind".toList, [("A".toList, 1), ("B".toList, 0)], by decide⟩

theorem enum_valid_sample :
    (∃ vs, ReadAs sample_enum vs ∧ DescribedEnum sample_enum (.enum "Kind".toList false vs) ∧
      (vs.map (·.number)).Nodup ∧ (vs.map (·.number)).head? = some 0 ∧ (vs.map (·.name)).Nodup) ∧
    (∃ vs, ReadAs shouting vs ∧ (vs.map (·.number)).Nodup ∧ ¬ (vs.map (·.name)).Nodup) ∧
    ∃ vs, ReadAs zero_last vs ∧ (vs.map (·.number)).Nodup ∧ (vs.map (·.number)).head? ≠ some 0 ∧
      (vs.map (·.name)).Nodup := by
  refine ⟨?_, ?_, ?_⟩
  · obtain ⟨vs, hread, hdescribed, hnumbers, hfirst, hnames⟩ := @enum_valid sample_enum (by decide) (by decide)
    exact ⟨vs, hread, hdescribed, hnumbers, hfirst.2 (by decide), hnames.2 (by decide)⟩
  · obtain ⟨vs, hread, -, hnumbers, -, hnames⟩ := @enum_valid shouting (by decide) (by decide)
    exact ⟨vs, hread, hnumbers, fun h => hnames.1 h (by decide)⟩
  · obtain ⟨vs, hread, -, hnumbers, hfirst, hnames⟩ := @enum_valid zero_last (by decide) (by decide)
    exact ⟨vs, hread, hnumbers, fun h => absurd (hfirst.1 h) (by decide), hnames.2 (by decide)⟩

end TtLive.gen_proto
