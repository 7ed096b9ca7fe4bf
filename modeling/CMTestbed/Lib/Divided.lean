import Mathlib.Logic.Basic
import Mathlib.Data.List.Basic

/-!
# Computations and their divisors

A computation is its result beside the divisors of the integer divisions on the way to it.  It is
safe if none of them is 0.  A fold is safe if each of its steps is, from the states that an
invariant allows (`safe_foldlM`).
-/

namespace CMTestbed.Lib

universe u v

structure Divided (α : Type u) where
  result : α
  divisors : List ℕ

namespace Divided

instance : Monad Divided where
  pure a := ⟨a, []⟩
  bind x f := ⟨(f x.result).result, x.divisors ++ (f x.result).divisors⟩

/-- A division or a remainder with this divisor. -/
def dividedBy {α : Type*} (divisor : ℕ) (result : α) : Divided α := ⟨result, [divisor]⟩

/-- Nothing is divided by 0. -/
def Safe {α : Type*} (x : Divided α) : Prop := 0 ∉ x.divisors

instance {α : Type*} (x : Divided α) : Decidable x.Safe := inferInstanceAs (Decidable (¬ _))

section
variable {α β : Type u}

@[simp] theorem result_pure (a : α) : (pure a : Divided α).result = a := rfl

@[simp] theorem result_bind (x : Divided α) (f : α → Divided β) :
    (x >>= f).result = (f x.result).result := rfl

@[simp] theorem result_dividedBy (divisor : ℕ) (a : α) : (dividedBy divisor a).result = a := rfl

@[simp] theorem result_ite {c : Prop} [Decidable c] (x y : Divided α) :
    (if c then x else y).result = if c then x.result else y.result := apply_ite result c x y

@[simp] theorem safe_pure (a : α) : (pure a : Divided α).Safe := List.not_mem_nil

@[simp] theorem safe_bind (x : Divided α) (f : α → Divided β) :
    (x >>= f).Safe ↔ x.Safe ∧ (f x.result).Safe := by
  show 0 ∉ x.divisors ++ (f x.result).divisors ↔ _
  rw [List.mem_append, not_or]
  rfl

@[simp] theorem safe_dividedBy (divisor : ℕ) (a : α) :
    (dividedBy divisor a).Safe ↔ divisor ≠ 0 := by
  show 0 ∉ [divisor] ↔ _
  rw [List.mem_singleton]
  exact ne_comm

theorem safe_ite {c : Prop} [Decidable c] {x y : Divided α} (hx : c → x.Safe) (hy : ¬ c → y.Safe) :
    (if c then x else y).Safe := by
  split_ifs with h
  · exact hx h
  · exact hy h

end

section Lists
variable {α : Type v} {β : Type u} {f : β → α → Divided β} {g : α → Divided β}

/-- The results for the items of a list, one after the other. -/
def each (g : α → Divided β) : List α → Divided (List β)
  | [] => pure []
  | a :: as => do
    let b ← g a
    let bs ← each g as
    pure (b :: bs)

@[simp] theorem result_each (as : List α) : (each g as).result = as.map fun a => (g a).result := by
  induction as with
  | nil => rfl
  | cons a as ih => rw [each, result_bind, result_bind, result_pure, ih, List.map_cons]

theorem safe_each {as : List α} (h : ∀ a ∈ as, (g a).Safe) : (each g as).Safe := by
  induction as with
  | nil => exact safe_pure _
  | cons a as ih =>
    rw [List.forall_mem_cons] at h
    simp only [each, safe_bind, safe_pure, and_true]
    exact ⟨h.1, ih h.2⟩

/-- A step that is safe and keeps an invariant can be repeated. -/
theorem safe_foldlM {Inv : β → Prop} (hstep : ∀ b a, Inv b → (f b a).Safe ∧ Inv (f b a).result)
    {b : β} (h : Inv b) (as : List α) : (as.foldlM f b).Safe := by
  induction as generalizing b with
  | nil => exact safe_pure _
  | cons a as ih =>
    rw [List.foldlM_cons, safe_bind]
    exact ⟨(hstep b a h).1, ih (hstep b a h).2⟩

end Lists

end Divided

end CMTestbed.Lib
