import TtLive.JsonDocument
import TtLive.JsonScan

/-!
# Brace matching

The loops of `json_object_field` and of the gift list count braces outside of strings. In a well-formed text, with
or without white space, every value raises and lowers the count equally often (`passes_spaced`), so they stop at
the closing brace of the object they start at.
-/

namespace TtLive
open Json

/-- With an open brace around it, a piece is passed as a whole. -/
def Passes (x : Bytes) : Prop :=
  ∀ depth : Int, 0 < depth → ∀ s,
    to_closing_brace depth false (x ++ s) = (x ++ ·) <$> to_closing_brace depth false s

theorem passes_nil : Passes [] := fun depth _ s => by simp

theorem Passes.append {x y : Bytes} (hx : Passes x) (hy : Passes y) : Passes (x ++ y) := by
  intro depth hd s
  rw [List.append_assoc, hx depth hd, hy depth hd]
  simp [Function.comp_def]

theorem passes_quiet {x : Bytes} (h : 0x22 ∉ x ∧ 0x7b ∉ x ∧ 0x7d ∉ x) : Passes x := by
  induction x with
  | nil => exact passes_nil
  | cons c x ih =>
    intro depth hd s
    simp only [List.mem_cons, not_or] at h
    obtain ⟨⟨h₁, h₁'⟩, ⟨h₂, h₂'⟩, h₃, h₃'⟩ := h
    have ih := ih ⟨h₁', h₂', h₃'⟩ depth hd s
    rw [List.cons_append, to_closing_brace.eq_def]
    simp [Ne.symm h₁, Ne.symm h₂, Ne.symm h₃, ih, Function.comp_def]

theorem in_string {x : Bytes} (h : ∀ c ∈ x, c ≠ 0x22 ∧ c ≠ 0x5c) (depth : Int) (s : Bytes) :
    to_closing_brace depth true (x ++ s) = (x ++ ·) <$> to_closing_brace depth true s := by
  induction x with
  | nil => simp
  | cons c x ih =>
    obtain ⟨h₁, h₂⟩ := h c (by simp)
    have ih := ih fun d hd => h d (List.mem_cons_of_mem _ hd)
    rw [List.cons_append, to_closing_brace.eq_def]
    simp [h₁, h₂, ih, Function.comp_def]

theorem in_string_escape (c : UInt8) (depth : Int) (s : Bytes) :
    to_closing_brace depth true (0x5c :: c :: s) = (0x5c :: c :: ·) <$> to_closing_brace depth true s := by
  rw [to_closing_brace.eq_def]
  simp

theorem in_string_body (depth : Int) (ps : List Piece) (s : Bytes) :
    to_closing_brace depth true (body ps ++ s) = (body ps ++ ·) <$> to_closing_brace depth true s := by
  induction ps with
  | nil => simp [body]
  | cons p ps ih =>
    rw [body_cons, List.append_assoc]
    rcases p.shape with ⟨c, hp, hc⟩ | ⟨c, x, hp, -, hplain⟩
    · rw [hp, in_string (by simpa using hc.2), ih]
      simp [Function.comp_def]
    · rw [hp]
      refine (in_string_escape c depth (x ++ (body ps ++ s))).trans ?_
      rw [in_string hplain, ih]
      simp [Function.comp_def]

theorem passes_quoted {x : Bytes}
    (h : ∀ depth s, to_closing_brace depth true (x ++ s) = (x ++ ·) <$> to_closing_brace depth true s) :
    Passes (0x22 :: x ++ [0x22]) := by
  intro depth hd s
  have hclose : to_closing_brace depth true (0x22 :: s) = (0x22 :: ·) <$> to_closing_brace depth false s := by
    rw [to_closing_brace.eq_def]
    simp
  rw [List.append_assoc, List.cons_append, to_closing_brace.eq_def]
  simp [h, hclose, Function.comp_def]

theorem passes_intercalate {xs : List Bytes} (h : ∀ x ∈ xs, Passes x) : Passes (Json.comma.intercalate xs) :=
  intercalate_closed passes_nil (passes_quiet (by decide)) Passes.append h

theorem open_brace (depth : Int) (s : Bytes) :
    to_closing_brace depth false (0x7b :: s) = (0x7b :: ·) <$> to_closing_brace (depth + 1) false s := by
  rw [to_closing_brace.eq_def]
  simp

theorem close_brace (depth : Int) (s : Bytes) :
    to_closing_brace depth false (0x7d :: s) =
      if depth - 1 = 0 then some [0x7d] else (0x7d :: ·) <$> to_closing_brace (depth - 1) false s := by
  rw [to_closing_brace.eq_def]
  simp

theorem passes_braces {x : Bytes} (h : Passes x) : Passes (0x7b :: x ++ [0x7d]) := by
  intro depth hd s
  have hclose : to_closing_brace (depth + 1) false ([0x7d] ++ s) = (0x7d :: ·) <$> to_closing_brace depth false s := by
    refine (close_brace (depth + 1) s).trans ?_
    rw [if_neg (by omega), Int.add_sub_cancel]
  rw [List.append_assoc, List.cons_append, open_brace, h _ (by omega), hclose]
  simp [Function.comp_def]

theorem passes_brackets {x : Bytes} (h : Passes x) : Passes (0x5b :: x ++ [0x5d]) :=
  ((passes_quiet (x := [0x5b]) (by decide)).append h).append (passes_quiet (by decide))

theorem passes_space {w : Bytes} (h : Space w) : Passes w := by
  have hno : ∀ c ∉ ([0x20, 0x09, 0x0a, 0x0d] : List UInt8), c ∉ w := fun c hc hw => hc (h c hw)
  exact passes_quiet ⟨hno _ (by decide), hno _ (by decide), hno _ (by decide)⟩

theorem passes_item {i : Item} (hs : i.Spaces) (hv : Passes i.value) : Passes i.text :=
  (passes_space hs.1).append (hv.append (passes_space hs.2))

theorem passes_entry {e : Entry} (hs : e.Spaces) (hv : Passes e.item.value) : Passes e.text := by
  have hname : Passes (0x22 :: body e.name ++ [0x22]) := passes_quoted (in_string_body · e.name)
  have hcolon : Passes [0x3a] := passes_quiet (by decide)
  exact ((passes_space hs.1).append hname).append ((passes_space hs.2.1).append (hcolon.append (passes_item hs.2.2 hv)))

/-- A value raises and lowers the depth equally often. -/
theorem passes_spaced {t : Bytes} (h : Spaced t) : Passes t := by
  induction h with
  | null => exact passes_quiet (by decide)
  | bool b => cases b <;> exact passes_quiet (by decide)
  | number n =>
    have hno : ∀ c, ¬ Digit c ∧ c ∉ [0x2d, 0x2b, 0x2e, 0x65, 0x45] → c ∉ n.text := fun c hc h =>
      (n.number_char h).elim hc.1 hc.2
    exact passes_quiet ⟨hno _ (by decide), hno _ (by decide), hno _ (by decide)⟩
  | string ps => exact passes_quoted (in_string_body · ps)
  | empty_array w hw => exact passes_brackets (passes_space hw)
  | array is hs hv ih =>
    exact passes_brackets (passes_intercalate (List.forall_mem_map.2 fun i hi => passes_item (hs i hi) (ih i hi)))
  | empty_object w hw => exact passes_braces (passes_space hw)
  | object es hs hv ih =>
    exact passes_braces (passes_intercalate (List.forall_mem_map.2 fun e he => passes_entry (hs e he) (ih e he)))

/-- An object is an opening brace, what is passed, and a closing brace. -/
theorem spaced_object {t : Bytes} (h : Spaced t) (hhead : t.head? = some 0x7b) :
    ∃ x, t = 0x7b :: x ++ [0x7d] ∧ Passes x := by
  cases h with
  | null => exact absurd hhead (by decide)
  | bool b => cases b <;> exact absurd hhead (by decide)
  | number n =>
    have hmem : 0x7b ∈ n.text := List.mem_of_mem_head? hhead
    exact absurd (n.number_char hmem) (by decide)
  | string ps => exact absurd hhead (by simp)
  | empty_array w hw => exact absurd hhead (by simp)
  | array is hs hv => exact absurd hhead (by simp)
  | empty_object w hw => exact ⟨w, rfl, passes_space hw⟩
  | object es hs hv =>
    refine ⟨_, rfl, passes_intercalate (List.forall_mem_map.2 fun e he => passes_entry (hs e he) ?_)⟩
    exact passes_spaced (hv e he)

/-- The scan of an object stops at its own closing brace. -/
theorem to_closing_brace_object {t : Bytes} (h : Spaced t) (hhead : t.head? = some 0x7b) (s : Bytes) :
    to_closing_brace 0 false (t ++ s) = some t := by
  obtain ⟨x, rfl, hx⟩ := spaced_object h hhead
  have hclose : to_closing_brace (0 + 1) false ([0x7d] ++ s) = some [0x7d] := close_brace 1 s
  rw [List.append_assoc, List.cons_append, open_brace, hx _ (by decide), hclose]
  simp

end TtLive
