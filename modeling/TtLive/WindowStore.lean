import Mathlib.Data.List.Induction
import TtLive.FakeWindow

/-!
# The window as a store

What is in the three objects after any assignments (`stored_browserAPIs`, `stored_target`), and from that which
names read back what was assigned last (`get_stored_iff`). An assignment that is not plain throws, or its value is
lost behind an accessor (`plain_of_assign`, `proto_not_read`).
-/

namespace TtLive.fake_dom.Window
open OrdinaryObject

variable (w : Window)

/-- An assignment to the name finds no accessor, and no value that is read-only where it writes. -/
structure Plain (prop : PropName) : Prop where
  target_data : ∀ a, w.target.find prop ≠ some (.accessor a)
  writable : if w.browserAPIs.has prop then w.browserAPIs.Writable prop else w.target.Writable prop

/-- The window after a plain assignment. -/
def store (prop : PropName) (value : Value) : Window :=
  if w.browserAPIs.has prop then { w with browserAPIs := w.browserAPIs.define prop value }
  else { w with target := w.target.define prop value }

def stored (assignments : List (PropName × Value)) : Window := assignments.foldl (fun w a => w.store a.1 a.2) w

/-- The value that was assigned last. -/
def last (assignments : List (PropName × Value)) (prop : PropName) : Option Value :=
  (assignments.reverse.find? fun a => a.1 = prop).map Prod.snd

/-- What `safeProxy` hands on as it is. -/
def Passes (v : Value) : Prop := ∃ text, v = .primitive text

/-- A read finds the value `v` that was assigned: in the builtins and in a target that is asked before `browserAPIs`
it has to be there already, and a wrapped stub has to be a primitive value. -/
def Visible (host : JsHost) (prop : PropName) (v : Value) : Prop :=
  if w.nativeBuiltins.has prop then w.nativeBuiltins.get host prop = .ok v
  else if w.browserAPIs.has prop then
    if w.target.has prop then ∃ writable, w.target.find prop = some (.data v writable)
    else prop ∈ safeProxyWrappedAPIs → Passes v
  else True

section
variable {w} {prop : PropName} {value : Value} {assignments : List (PropName × Value)} {host : JsHost}

theorem last_concat (a : PropName × Value) :
    last (assignments ++ [a]) prop = if a.1 = prop then some a.2 else last assignments prop := by
  by_cases h : a.1 = prop <;> simp [last, h]

theorem set_of_plain (h : w.Plain prop) (value : Value) : w.set host prop value = .ok (w.store prop value) := by
  have hwritable := h.writable
  unfold set store
  split_ifs at hwritable ⊢ with hb
  · rw [Obj.set_of_writable hwritable]
    rfl
  · rw [Obj.set_of_writable hwritable]
    rfl

theorem has_store (q : PropName) : (w.store prop value).browserAPIs.has q = w.browserAPIs.has q := by
  unfold store
  split_ifs with h
  · by_cases hq : q = prop
    · subst hq
      simp [Obj.has_define, h]
    · simp [Obj.has_define, hq]
  · rfl

theorem find_store_of_ne {q : PropName} (h : q ≠ prop) :
    (w.store prop value).browserAPIs.find q = w.browserAPIs.find q ∧
      (w.store prop value).target.find q = w.target.find q := by
  unfold store
  split_ifs
  · exact ⟨Obj.find_define_of_ne h, rfl⟩
  · exact ⟨rfl, Obj.find_define_of_ne h⟩

theorem Plain_congr {w' : Window} {q : PropName} (hb : w'.browserAPIs.find q = w.browserAPIs.find q)
    (ht : w'.target.find q = w.target.find q) : w'.Plain q ↔ w.Plain q := by
  have hconv : ∀ w₁ w₂ : Window, w₁.browserAPIs.find q = w₂.browserAPIs.find q →
      w₁.target.find q = w₂.target.find q → w₁.Plain q → w₂.Plain q := by
    intro w₁ w₂ hb ht h
    have hwritable := h.writable
    rw [Obj.has, Obj.Writable, Obj.Writable, hb, ht] at hwritable
    exact ⟨fun a => ht ▸ h.target_data a, hwritable⟩
  exact ⟨hconv _ _ hb ht, hconv _ _ hb.symm ht.symm⟩

theorem Plain.store {q : PropName} (h : w.Plain q) : (w.store prop value).Plain q := by
  by_cases hq : q = prop
  · subst hq
    have hwritable := h.writable
    refine ⟨fun a ha => ?_, ?_⟩
    · unfold Window.store at ha
      split_ifs at ha
      · exact h.target_data a ha
      · simp at ha
    · rw [has_store]
      unfold Window.store
      split_ifs at hwritable ⊢
      all_goals exact hwritable.define
  · obtain ⟨hb, ht⟩ := find_store_of_ne hq
    exact (Plain_congr hb ht).2 h

theorem Plain.of_store {q : PropName} (hq : (w.store prop value).Plain q) (h : w.Plain prop) : w.Plain q := by
  by_cases hne : q = prop
  · exact hne ▸ h
  · obtain ⟨hb, ht⟩ := find_store_of_ne hne
    exact (Plain_congr hb ht).1 hq

/-! ### After all assignments -/

theorem stored_concat (a : PropName × Value) :
    w.stored (assignments ++ [a]) = (w.stored assignments).store a.1 a.2 := by
  simp [stored]

theorem stored_has (q : PropName) : (w.stored assignments).browserAPIs.has q = w.browserAPIs.has q := by
  induction assignments using List.reverseRecOn with
  | nil => rfl
  | append_singleton as a ih => rw [stored_concat, has_store, ih]

theorem stored_nativeBuiltins : (w.stored assignments).nativeBuiltins = w.nativeBuiltins := by
  induction assignments using List.reverseRecOn with
  | nil => rfl
  | append_singleton as a ih =>
    rw [stored_concat, store]
    split_ifs <;> exact ih

theorem stored_browserAPIs (h : w.browserAPIs.has prop = true) :
    (w.stored assignments).browserAPIs.find prop =
      (last assignments prop).elim (w.browserAPIs.find prop) fun v => some (.data v true) := by
  induction assignments using List.reverseRecOn with
  | nil => rfl
  | append_singleton as a ih =>
    rw [stored_concat, last_concat, store, stored_has]
    by_cases ha : a.1 = prop
    · rw [ha, if_pos h]
      simp
    · rw [if_neg ha, ← ih]
      split_ifs
      · exact Obj.find_define_of_ne (Ne.symm ha)
      · rfl

theorem stored_target :
    (w.stored assignments).target.find prop =
      if w.browserAPIs.has prop then w.target.find prop
      else (last assignments prop).elim (w.target.find prop) fun v => some (.data v true) := by
  induction assignments using List.reverseRecOn with
  | nil => simp [stored, last]
  | append_singleton as a ih =>
    rw [stored_concat, last_concat, store, stored_has]
    by_cases ha : a.1 = prop
    · rw [ha, if_pos rfl]
      split_ifs with hb
      · exact ih.trans (if_pos hb)
      · exact Obj.find_define_self
    · rw [if_neg ha, ← ih]
      split_ifs
      · rfl
      · exact Obj.find_define_of_ne (Ne.symm ha)

theorem assign_cons {a : PropName × Value} {w' : Window} :
    w.assign host (a :: assignments) = .ok w' ↔
      ∃ w₁, w.set host a.1 a.2 = .ok w₁ ∧ w₁.assign host assignments = .ok w' := by
  unfold assign
  rw [List.foldlM_cons]
  rcases w.set host a.1 a.2 with e | w₁
  · exact iff_of_false nofun (by simp)
  · exact ⟨fun h => ⟨w₁, rfl, h⟩, fun ⟨w₂, hw₂, h⟩ => Except.ok.inj hw₂ ▸ h⟩

theorem assign_eq (h : ∀ a ∈ assignments, w.Plain a.1) : w.assign host assignments = .ok (w.stored assignments) := by
  induction assignments generalizing w with
  | nil => rfl
  | cons a as ih =>
    refine assign_cons.2 ⟨w.store a.1 a.2, set_of_plain (h a (by simp)) a.2, ?_⟩
    exact ih fun b hb => (h b (by simp [hb])).store

/-! ### Reading back -/

theorem mem_of_last {v : Value} (h : last assignments prop = some v) : (prop, v) ∈ assignments := by
  obtain ⟨a, ha, rfl⟩ := Option.map_eq_some_iff.1 h
  obtain rfl : a.1 = prop := by simpa using List.find?_some ha
  exact List.mem_reverse.1 (List.mem_of_find?_eq_some ha)

theorem exists_last {a : PropName × Value} (h : a ∈ assignments) : ∃ v, last assignments a.1 = some v := by
  have hfound : (assignments.reverse.find? fun b => b.1 = a.1).isSome := by
    rw [List.find?_isSome]
    exact ⟨a, List.mem_reverse.2 h, by simp⟩
  obtain ⟨b, hb⟩ := Option.isSome_iff_exists.1 hfound
  exact ⟨b.2, by rw [last, hb]; rfl⟩

theorem safeProxy_eq_self {v : Value} : safeProxy v = v ↔ Passes v := by
  rcases v with _ | _ | text | f | o | x | _
  case primitive => exact ⟨fun _ => ⟨text, rfl⟩, fun _ => rfl⟩
  case safe_proxy =>
    refine iff_of_false (fun h => ?_) (by simp [Passes])
    have hsize := congrArg sizeOf (Value.safe_proxy.inj h)
    simp at hsize
  all_goals exact iff_of_false (by simp [safeProxy]) (by simp [Passes])

theorem stored_has_name {v : Value} (h : last assignments prop = some v) : (w.stored assignments).has prop = true := by
  rcases hb : w.browserAPIs.has prop with _ | _
  · have hfind : (w.stored assignments).target.find prop = some (.data v true) := by
      rw [stored_target, hb, h]
      rfl
    have htarget : (w.stored assignments).target.has prop = true := by simp [Obj.has, hfind]
    simp [has, htarget]
  · simp [has, stored_has, hb]

theorem get_stored_iff {v : Value} (hself : prop ∉ self_names) (hplain : w.Plain prop)
    (h : last assignments prop = some v) :
    (w.stored assignments).get host prop = .ok v ↔ w.Visible host prop v := by
  have htarget : (w.stored assignments).target.find prop =
      if w.browserAPIs.has prop then w.target.find prop else some (.data v true) := by
    rw [stored_target, h]
    rfl
  unfold get Visible
  rw [if_neg hself, stored_nativeBuiltins, stored_has]
  by_cases hnative : w.nativeBuiltins.has prop = true
  · rw [if_pos hnative, if_pos hnative]
  · rw [if_neg hnative, if_neg hnative]
    by_cases hb : w.browserAPIs.has prop = true
    · rw [if_pos hb] at htarget
      have hhas : (w.stored assignments).target.has prop = w.target.has prop := by rw [Obj.has, Obj.has, htarget]
      rw [hhas, if_pos hb, if_pos hb]
      by_cases ht : w.target.has prop = true
      · -- the target answers before `browserAPIs`
        rw [if_pos ht, if_pos ht]
        rcases hx : w.target.find prop with _ | ⟨u, writable⟩ | a
        · simp [Obj.has, hx] at ht
        · rw [Obj.get_of_data (htarget.trans hx)]
          simp
        · exact absurd hx (hplain.target_data a)
      · have hfind : (w.stored assignments).browserAPIs.find prop = some (.data v true) := by
          rw [stored_browserAPIs hb, h]
          rfl
        rw [if_neg ht, if_neg ht, Obj.get_of_data hfind]
        show Except.ok (if prop ∈ safeProxyWrappedAPIs then safeProxy v else v) = Except.ok v ↔ _
        by_cases hwrap : prop ∈ safeProxyWrappedAPIs
        · simp [hwrap, safeProxy_eq_self]
        · simp [hwrap]
    · rw [if_neg hb] at htarget
      have hhas : (w.stored assignments).target.has prop = true := by simp [Obj.has, htarget]
      rw [if_pos hhas, if_neg hb, Obj.get_of_data htarget]
      simp

/-! ### Only plain assignments succeed -/

/-- An accessor that the name finds is the target's alone, and its setter refuses every value. -/
structure Guarded (host : JsHost) (w : Window) (prop : PropName) : Prop where
  browser_data : ∀ a, w.browserAPIs.find prop ≠ some (.accessor a)
  target_refuses : ∀ a, w.target.find prop = some (.accessor a) →
    w.browserAPIs.has prop = false ∧ ∀ o v o', host.setter a o v ≠ .ok o'

theorem Guarded.store {q : PropName} (h : w.Guarded host q) : (w.store prop value).Guarded host q := by
  by_cases hq : q = prop
  · subst hq
    unfold Window.store
    split_ifs with hb
    · exact ⟨by simp, fun a ha => absurd hb (by simp [(h.target_refuses a ha).1])⟩
    · exact ⟨h.browser_data, by simp⟩
  · obtain ⟨hb, ht⟩ : (w.store prop value).browserAPIs.find q = w.browserAPIs.find q ∧
        (w.store prop value).target.find q = w.target.find q := find_store_of_ne hq
    refine ⟨fun a => hb ▸ h.browser_data a, fun a ha => ?_⟩
    rw [has_store]
    exact h.target_refuses a (ht ▸ ha)

/-- What a successful assignment did. -/
theorem cases_of_set {w' : Window} (h : w.set host prop value = .ok w') :
    (w.browserAPIs.has prop = true ∧
      ∃ o, w.browserAPIs.set host prop value = .ok o ∧ w' = { w with browserAPIs := o }) ∨
    (¬ w.browserAPIs.has prop = true ∧ ∃ o, w.target.set host prop value = .ok o ∧ w' = { w with target := o }) := by
  unfold set at h
  split_ifs at h with hb
  · rcases ho : w.browserAPIs.set host prop value with e | o
    · rw [ho] at h
      cases h
    · rw [ho] at h
      exact .inl ⟨hb, o, rfl, (Except.ok.inj h).symm⟩
  · rcases ho : w.target.set host prop value with e | o
    · rw [ho] at h
      cases h
    · rw [ho] at h
      exact .inr ⟨hb, o, rfl, (Except.ok.inj h).symm⟩

theorem plain_of_set {w' : Window} (hguard : w.Guarded host prop) (h : w.set host prop value = .ok w') :
    w.Plain prop := by
  rcases cases_of_set h with ⟨hb, o, ho, -⟩ | ⟨hb, o, ho, -⟩
  · refine ⟨fun a ha => absurd hb (by simp [(hguard.target_refuses a ha).1]), ?_⟩
    rw [if_pos hb]
    exact Obj.writable_of_set (fun a ha => absurd ha (hguard.browser_data a)) ho
  · have hwritable : w.target.Writable prop :=
      Obj.writable_of_set (fun a ha => (hguard.target_refuses a ha).2 _ _ _) ho
    refine ⟨fun a ha => ?_, by rwa [if_neg hb]⟩
    obtain ⟨v, hv⟩ := hwritable _ ha
    cases hv

theorem plain_of_assign {w' : Window} (hguard : ∀ a ∈ assignments, w.Guarded host a.1)
    (h : w.assign host assignments = .ok w') : ∀ a ∈ assignments, w.Plain a.1 := by
  induction assignments generalizing w with
  | nil => simp
  | cons a as ih =>
    obtain ⟨w₁, hset, hrest⟩ := assign_cons.1 h
    have hplain : w.Plain a.1 := plain_of_set (hguard a (by simp)) hset
    obtain rfl : w.store a.1 a.2 = w₁ := Except.ok.inj ((set_of_plain hplain a.2).symm.trans hset)
    have htail : ∀ b ∈ as, (w.store a.1 a.2).Plain b.1 := ih (fun b hb => (hguard b (by simp [hb])).store) hrest
    intro b hb
    rcases List.mem_cons.1 hb with rfl | hb
    · exact hplain
    · exact (htail b hb).of_store hplain

theorem assign_nativeBuiltins {w' : Window} (h : w.assign host assignments = .ok w') :
    w'.nativeBuiltins = w.nativeBuiltins := by
  induction assignments generalizing w with
  | nil => exact (Except.ok.inj h) ▸ rfl
  | cons a as ih =>
    obtain ⟨w₁, hset, hrest⟩ := assign_cons.1 h
    rw [ih hrest]
    rcases cases_of_set hset with ⟨-, o, -, rfl⟩ | ⟨-, o, -, rfl⟩ <;> rfl

/-! ### Plain runs -/

variable (host) in
theorem assign_of_plain (hself : ∀ a ∈ assignments, a.1 ∉ self_names) (hplain : ∀ a ∈ assignments, w.Plain a.1) :
    ∃ w', w.assign host assignments = .ok w' ∧ ∀ prop v, last assignments prop = some v →
      w'.has prop = true ∧ (w'.get host prop = .ok v ↔ w.Visible host prop v) := by
  refine ⟨_, assign_eq hplain, fun prop v hlast => ⟨stored_has_name hlast, ?_⟩⟩
  have hmem : (prop, v) ∈ assignments := mem_of_last hlast
  exact get_stored_iff (hself _ hmem) (hplain _ hmem) hlast

end

end TtLive.fake_dom.Window

namespace TtLive.fake_dom.Realm
open OrdinaryObject TtLive.fake_dom.Window

/-- What an engine promises of its accessors: `Object.prototype` has `__proto__`, which reads as an object, and the
setters of `Function.prototype` (`caller`, `arguments`) throw. -/
structure Standard (r : Realm) (host : JsHost) : Prop where
  object_accessor : ∀ p a, r.object_prototype p = some (.accessor a) → p = "__proto__"
  proto_reads : ∀ a v, r.object_prototype "__proto__" = some (.accessor a) →
    host.getter a r.window.nativeBuiltins = .ok v → ∃ o, v = .object o
  function_accessor : ∀ p a, r.function_prototype p = some (.accessor a) →
    p ∉ browser_names ∧ r.object_prototype p = none
  function_refuses : ∀ p a o v o', r.function_prototype p = some (.accessor a) → host.setter a o v ≠ .ok o'

section
variable {r : Realm} {host : JsHost} {assignments : List (PropName × Value)} {prop : PropName} {v : Value}

theorem native_proto {a : Accessor} (h : r.object_prototype "__proto__" = some (.accessor a)) :
    r.window.nativeBuiltins.find "__proto__" = some (.accessor a) := by
  have hbuiltin : r.builtin "__proto__" = none := by
    refine if_neg ?_
    rintro (hname | ⟨-, -, hnone⟩)
    · exact absurd hname (by decide)
    · simp [h] at hnone
  have hown : r.native_own "__proto__" = none := by
    rw [native_own, hbuiltin, if_neg fun hshim => absurd hshim.1 (by decide)]
    rfl
  show (r.native_own "__proto__" <|> r.object_prototype "__proto__") = _
  rw [hown, h]
  rfl

theorem browser_own_data (a : Accessor) : r.browser_own prop ≠ some (.accessor a) := by
  unfold browser_own
  split_ifs <;> simp

theorem browser_own_eq_none (h : prop ∉ browser_names) : r.browser_own prop = none := by
  have hself : prop ∉ ["parent", "top"] := by
    intro hmem
    rcases List.mem_cons.1 hmem with rfl | hmem
    · exact h (by decide)
    · obtain rfl := List.mem_singleton.1 hmem
      exact h (by decide)
  rw [browser_own, if_neg hself, if_neg h]

theorem target_own_data (a : Accessor) : target_own prop ≠ some (.accessor a) := by
  unfold target_own
  split <;> simp

theorem guarded (hr : r.Standard host) (h : ∀ a, r.object_prototype prop ≠ some (.accessor a)) :
    r.window.Guarded host prop := by
  refine ⟨fun a ha => ?_, fun a ha => ?_⟩
  · rcases Obj.find_eq_some.1 ha with ha | ⟨-, ha⟩
    · exact browser_own_data a ha
    · exact h a ha
  · have hfunction : r.function_prototype prop = some (.accessor a) := by
      rcases Obj.find_eq_some.1 ha with ha | ⟨-, ha⟩
      · exact absurd ha (target_own_data a)
      · rcases (Option.orElse_eq_some _ _ _).1 ha with ha | ⟨-, ha⟩
        · exact ha
        · exact absurd ha (h a)
    obtain ⟨hname, hnone⟩ := hr.function_accessor prop a hfunction
    have hown : r.browser_own prop = none := browser_own_eq_none hname
    refine ⟨?_, fun o v o' => hr.function_refuses prop a o v o' hfunction⟩
    simp [Obj.has, Obj.find, window, hown, hnone]

theorem proto_not_read {w : Window} {v : Value} (hr : r.Standard host) (hw : r.window.assign host assignments = .ok w)
    {a : Accessor} (ha : r.object_prototype "__proto__" = some (.accessor a)) (hget : w.get host "__proto__" = .ok v) :
    ∃ o, v = .object o := by
  have hfind : r.window.nativeBuiltins.find "__proto__" = some (.accessor a) := native_proto ha
  have hhas : r.window.nativeBuiltins.has "__proto__" = true := by simp [Obj.has, hfind]
  rw [Window.get, if_neg (by decide), assign_nativeBuiltins hw, if_pos hhas, Obj.get, hfind] at hget
  exact hr.proto_reads a v ha hget

/-! ### The names of a fresh page -/

theorem visible_of_builtin {u : Value} (h : r.native_own prop = some (.data u true)) :
    r.window.Visible host prop v ↔ v = u := by
  have hfind : r.window.nativeBuiltins.find prop = some (.data u true) := Obj.find_eq_some.2 (.inl h)
  have hhas : r.window.nativeBuiltins.has prop = true := by simp [Obj.has, hfind]
  rw [Visible, if_pos hhas, Obj.get_of_data hfind]
  simp [eq_comm]

/-- The sweep takes the functions of the script for builtins: no patch of one is ever read. -/
theorem visible_script_iff (hscript : prop ∈ script_globals) (hproto : r.object_prototype prop = none) :
    r.window.Visible host prop v ↔ v = r.global prop := by
  have hspecific : ∀ p ∈ script_globals, p ∉ engineSpecific ∧ p ∉ ["WeakRef", "FinalizationRegistry"] := by decide
  obtain ⟨hspecific, hshim⟩ := hspecific prop hscript
  have hswept : r.Swept prop := ⟨.inr hscript, hspecific, by simp [hproto]⟩
  refine visible_of_builtin ?_
  rw [native_own, if_neg fun h => hshim h.1, builtin, if_pos (.inr hswept)]
  rfl

theorem stub_find (h : prop ∈ browser_names) :
    ∃ u, r.window.browserAPIs.find prop = some (.data u true) := by
  have hown : ∃ u, r.browser_own prop = some (.data u true) := by
    unfold browser_own
    split_ifs
    · exact ⟨_, rfl⟩
    · exact ⟨_, rfl⟩
  obtain ⟨u, hu⟩ := hown
  exact ⟨u, Obj.find_eq_some.2 (.inl hu)⟩

/-- `window.name` reads the name of the target's function. -/
theorem visible_name_iff (hnative : r.native_own "name" = none) (hproto : r.object_prototype "name" = none) :
    r.window.Visible host "name" v ↔ v = .primitive "windowTarget" := by
  have hhas : r.window.nativeBuiltins.has "name" = false := by simp [Obj.has, Obj.find, window, hnative, hproto]
  obtain ⟨u, hstub⟩ : ∃ u, r.window.browserAPIs.find "name" = some (.data u true) := stub_find (by decide)
  have hbrowser : r.window.browserAPIs.has "name" = true := by simp [Obj.has, hstub]
  have hfind : r.window.target.find "name" = some (.data (.primitive "windowTarget") false) := rfl
  have htarget : r.window.target.has "name" = true := rfl
  rw [Visible, hhas, if_neg (by simp), if_pos hbrowser, if_pos htarget, hfind]
  simp [eq_comm]

/-- A browser API that no other object knows. -/
theorem browser_name (hbrowser : prop ∈ browser_names) (hnative : r.native_own prop = none)
    (htarget : target_own prop = none) (hfunction : r.function_prototype prop = none)
    (hobject : r.object_prototype prop = none) :
    r.window.Plain prop ∧ (r.window.Visible host prop v ↔ (prop ∈ safeProxyWrappedAPIs → Passes v)) := by
  have hn : r.window.nativeBuiltins.find prop = none := by simp [Obj.find, window, hnative, hobject]
  obtain ⟨u, hb⟩ := stub_find (r := r) hbrowser
  have ht : r.window.target.find prop = none := by simp [Obj.find, window, htarget, hfunction, hobject]
  constructor
  · exact ⟨by simp [ht], by simp [Obj.has, Obj.Writable, hb]⟩
  · simp [Visible, Obj.has, hn, hb, ht]

/-- What the SDK sets under a name of its own. -/
theorem own_name (hnative : r.native_own prop = none) (hbrowser : prop ∉ browser_names)
    (htarget : target_own prop = none) (hfunction : r.function_prototype prop = none)
    (hobject : r.object_prototype prop = none) : r.window.Plain prop ∧ r.window.Visible host prop v := by
  have hn : r.window.nativeBuiltins.find prop = none := by simp [Obj.find, window, hnative, hobject]
  have hb : r.window.browserAPIs.find prop = none := by
    simp [Obj.find, window, browser_own_eq_none hbrowser, hobject]
  have ht : r.window.target.find prop = none := by simp [Obj.find, window, htarget, hfunction, hobject]
  constructor
  · exact ⟨by simp [ht], by simp [Obj.has, Obj.Writable, hb, ht]⟩
  · simp [Visible, Obj.has, hn, hb]

/-! ### The window as a store -/

/-- The window of a fresh page reads back every value that was assigned last exactly if every assignment is plain and
the last ones are visible. -/
theorem window_store_iff (hr : r.Standard host) (hself : ∀ a ∈ assignments, a.1 ∉ self_names)
    (hvalue : ∀ a ∈ assignments, ∀ o, a.2 ≠ .object o) :
    (∃ w, r.window.assign host assignments = .ok w ∧ ∀ prop v, last assignments prop = some v →
      w.has prop = true ∧ w.get host prop = .ok v) ↔
      ∀ prop v, last assignments prop = some v → r.window.Plain prop ∧ r.window.Visible host prop v := by
  constructor
  · rintro ⟨w, hw, hstore⟩
    have hguard : ∀ a ∈ assignments, r.window.Guarded host a.1 := by
      intro a ha
      refine guarded hr fun acc hacc => ?_
      obtain ⟨v, hv⟩ := exists_last ha
      have hproto : a.1 = "__proto__" := hr.object_accessor a.1 acc hacc
      rw [hproto] at hv hacc
      obtain ⟨o, rfl⟩ := proto_not_read hr hw hacc (hstore "__proto__" v hv).2
      exact hvalue _ (mem_of_last hv) o rfl
    have hplain : ∀ a ∈ assignments, r.window.Plain a.1 := plain_of_assign hguard hw
    obtain ⟨w', hw', hread⟩ := assign_of_plain host hself hplain
    obtain rfl : w = w' := Except.ok.inj (hw.symm.trans hw')
    intro prop v hlast
    exact ⟨hplain _ (mem_of_last hlast), (hread prop v hlast).2.1 (hstore prop v hlast).2⟩
  · intro h
    have hplain : ∀ a ∈ assignments, r.window.Plain a.1 := by
      intro a ha
      obtain ⟨v, hv⟩ := exists_last ha
      exact (h a.1 v hv).1
    obtain ⟨w, hw, hread⟩ := assign_of_plain host hself hplain
    refine ⟨w, hw, fun prop v hlast => ?_⟩
    obtain ⟨hhas, hget⟩ := hread prop v hlast
    exact ⟨hhas, hget.2 (h prop v hlast).2⟩

/-- An engine with a few globals and prototypes. -/
def bare_realm : Realm where
  globals := ["Math", "JSON"]
  global p := if p ∈ ["Math", "JSON"] then .object p else .function p
  object_prototype
    | "toString" => some (.data (.function "toString") true)
    | "__proto__" => some (.accessor "__proto__")
    | _ => none
  function_prototype
    | "apply" => some (.data (.function "apply") true)
    | "caller" => some (.accessor "caller")
    | _ => none
  stub p := if p ∈ safeProxyWrappedAPIs then .object p else .function p

def bare_host : JsHost where
  undefined := .undefined
  type_error := "TypeError"
  getter a _ := if a = "__proto__" then .ok (.object "Object.prototype") else .error "TypeError"
  setter a o _ := if a = "__proto__" then .ok o else .error "TypeError"

theorem bare_standard : bare_realm.Standard bare_host where
  object_accessor p a h := by
    simp only [bare_realm] at h
    split at h <;> simp_all
  proto_reads a v ha hv := by
    obtain rfl : "__proto__" = a := by simpa [bare_realm] using ha
    exact ⟨_, (Except.ok.inj hv).symm⟩
  function_accessor p a h := by
    simp only [bare_realm] at h
    split at h
    · simp at h
    · exact ⟨by decide, rfl⟩
    · simp at h
  function_refuses p a o v o' h := by
    simp only [bare_realm] at h
    split at h
    · simp at h
    · obtain rfl : "caller" = a := by simpa using h
      exact nofun
    · simp at h

def sdk_run : List (PropName × Value) :=
  [("byted_acrawler", .function "signer"), ("fetch", .function "patched"), ("byted_acrawler", .null)]

theorem sdk_run_read_back : ∃ w, bare_realm.window.assign bare_host sdk_run = .ok w ∧ ∀ prop v,
    last sdk_run prop = some v → w.has prop = true ∧ w.get bare_host prop = .ok v := by
  refine (window_store_iff bare_standard (by decide) (by simp [sdk_run])).2 fun prop v hlast => ?_
  have hmem : (prop, v) ∈ sdk_run := mem_of_last hlast
  obtain rfl | rfl : prop = "byted_acrawler" ∨ prop = "fetch" := by
    simp [sdk_run] at hmem
    tauto
  · exact own_name rfl (by decide) rfl rfl rfl
  · have hfetch : bare_realm.window.Plain "fetch" ∧ (bare_realm.window.Visible bare_host "fetch" v ↔
        ("fetch" ∈ safeProxyWrappedAPIs → Passes v)) := browser_name (by decide) rfl rfl rfl rfl
    exact ⟨hfetch.1, hfetch.2.2 fun hwrap => absurd hwrap (by decide)⟩

/-- The SDK's patch of a function of the script is lost. -/
theorem patch_lost : ¬ ∀ (r : Realm) (host : JsHost) (assignments : List (PropName × Value)), r.Standard host →
    (∀ a ∈ assignments, a.1 ∉ self_names) → (∀ a ∈ assignments, ∀ o, a.2 ≠ .object o) →
    ∃ w, r.window.assign host assignments = .ok w ∧ ∀ prop v, last assignments prop = some v →
      w.has prop = true ∧ w.get host prop = .ok v := by
  intro h
  obtain ⟨w, hw, hread⟩ := h bare_realm bare_host [("atob", .function "patched")] bare_standard (by decide) (by simp)
  obtain ⟨-, hget⟩ := hread "atob" (.function "patched") rfl
  have hlost : (bare_realm.window.assign bare_host [("atob", .function "patched")]).bind
      (fun w => w.get bare_host "atob") = .ok (.function "atob") := rfl
  rw [hw] at hlost
  exact absurd (Except.ok.inj (hlost.symm.trans hget)) (by decide)

end

end TtLive.fake_dom.Realm
