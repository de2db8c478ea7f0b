import Mathlib.Data.Option.Basic
import Mathlib.Logic.Function.Basic

/-!
# Ordinary objects

An object with its own properties and those that its prototypes give it. Reading and writing go to the first property
of the name; a write to an inherited value adds a property of the object's own.
-/

namespace OrdinaryObject

inductive Property (Value Accessor : Type)
  | data (value : Value) (writable : Bool)
  | accessor (a : Accessor)

structure Obj (Name Value Accessor : Type) where
  own : Name → Option (Property Value Accessor)
  inherited : Name → Option (Property Value Accessor)

/-- What the language and the functions of accessors do: `undefined`, the error of a write that is not possible, and
the calls of a getter and a setter on an object. -/
structure Host (Name Value Accessor Error : Type) where
  undefined : Value
  type_error : Error
  getter : Accessor → Obj Name Value Accessor → Except Error Value
  setter : Accessor → Obj Name Value Accessor → Value → Except Error (Obj Name Value Accessor)

namespace Obj

variable {Name Value Accessor Error : Type} (host : Host Name Value Accessor Error) (o : Obj Name Value Accessor)

def find (p : Name) : Option (Property Value Accessor) := o.own p <|> o.inherited p

/-- `p in o`. -/
def has (p : Name) : Bool := (o.find p).isSome

/-- `o[p]`. -/
def get (p : Name) : Except Error Value :=
  match o.find p with
  | none => .ok host.undefined
  | some (.data v _) => .ok v
  | some (.accessor a) => host.getter a o

theorem find_eq_some {o : Obj Name Value Accessor} {p : Name} {x : Property Value Accessor} :
    o.find p = some x ↔ o.own p = some x ∨ o.own p = none ∧ o.inherited p = some x :=
  Option.orElse_eq_some _ _ _

theorem get_of_data {host : Host Name Value Accessor Error} {o : Obj Name Value Accessor} {p : Name} {v : Value}
    {writable : Bool} (h : o.find p = some (.data v writable)) : o.get host p = .ok v := by
  rw [get, h]

variable [DecidableEq Name]

def define (p : Name) (v : Value) : Obj Name Value Accessor :=
  { o with own := Function.update o.own p (some (.data v true)) }

/-- `o[p] = v` in strict code. -/
def set (p : Name) (v : Value) : Except Error (Obj Name Value Accessor) :=
  match o.find p with
  | none => .ok (o.define p v)
  | some (.data _ true) => .ok (o.define p v)
  | some (.data _ false) => .error host.type_error
  | some (.accessor a) => host.setter a o v

/-- A write finds no accessor and no value that is read-only. -/
def Writable (p : Name) : Prop := ∀ x ∈ o.find p, ∃ v, x = .data v true

section
variable {host} {o} {p q : Name} {v : Value}

theorem set_of_writable (h : o.Writable p) (v : Value) : o.set host p v = .ok (o.define p v) := by
  rw [set]
  rcases hp : o.find p with _ | x
  · rfl
  · obtain ⟨u, rfl⟩ := h x hp
    rfl

/-- A write that neither the language nor a setter refuses goes to a name that is writable, unless a setter took it. -/
theorem writable_of_set {o' : Obj Name Value Accessor}
    (haccessor : ∀ a, o.find p = some (.accessor a) → host.setter a o v ≠ .ok o') (h : o.set host p v = .ok o') :
    o.Writable p := by
  intro x (hx : o.find p = some x)
  rw [set, hx] at h
  rcases x with ⟨u, _ | _⟩ | a
  · simp at h
  · exact ⟨u, rfl⟩
  · exact absurd h (haccessor a hx)

@[simp] theorem find_define_self : (o.define p v).find p = some (.data v true) := by
  simp [find, define]

theorem find_define_of_ne (h : q ≠ p) : (o.define p v).find q = o.find q := by
  simp [find, define, h]

theorem has_define : (o.define p v).has q = (decide (q = p) || o.has q) := by
  by_cases h : q = p
  · subst h
    simp [has]
  · simp [has, find_define_of_ne h, h]

theorem Writable.define (h : o.Writable q) : (o.define p v).Writable q := by
  intro x hx
  by_cases hq : q = p
  · subst hq
    rw [find_define_self] at hx
    exact ⟨v, (Option.some.inj hx).symm⟩
  · rw [find_define_of_ne hq] at hx
    exact h x hx

end

end Obj

end OrdinaryObject
