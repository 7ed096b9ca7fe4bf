import Mathlib.Data.List.Basic
import Mathlib.Data.List.GetD

/-!
# Partly known memory

Of a memory some places are known and the others can hold anything.  A property of all memories that
fit what is known can be asked of those that hold a given value at an unknown place.
-/

namespace CMTestbed.Lib

variable {α : Type*}

/-- The memory has the values that are known, and no other places. -/
structure Fits (known : List (Option α)) (mem : List α) : Prop where
  length : mem.length = known.length
  get {i : ℕ} {a : α} : known[i]? = some (some a) → mem[i]? = some a

variable {known : List (Option α)} {mem : List α} {i : ℕ}

theorem exists_fits [Inhabited α] (known : List (Option α)) : ∃ mem, Fits known mem := by
  refine ⟨known.map fun o => o.getD default, List.length_map _, fun {i a} h => ?_⟩
  rw [List.getElem?_map, h]
  rfl

namespace Fits

theorem known_of_get (h : Fits known mem) {a : α} (hi : mem[i]? = some a) :
    ∃ o, known[i]? = some o := by
  have hlt : i < known.length := h.length ▸ (List.getElem?_eq_some_iff.1 hi).1
  exact ⟨_, List.getElem?_eq_getElem hlt⟩

theorem get_of_known (h : Fits known mem) {o : Option α} (hi : known[i]? = some o) :
    ∃ a, mem[i]? = some a := by
  have hlt : i < mem.length := h.length ▸ (List.getElem?_eq_some_iff.1 hi).1
  exact ⟨_, List.getElem?_eq_getElem hlt⟩

/-- A place that is not known to hold something else can hold the value. -/
theorem set (h : Fits known mem) {o : Option α} (hi : known[i]? = some o) {a : α}
    (ho : ∀ b, o = some b → b = a) : Fits known (mem.set i a) := by
  refine ⟨by rw [List.length_set, h.length], fun {j b} hj => ?_⟩
  rw [List.getElem?_set]
  split_ifs with hij hlt
  · subst hij
    rw [hi, Option.some_inj] at hj
    rw [ho b hj]
  · subst hij
    exact absurd (h.length ▸ (List.getElem?_eq_some_iff.1 hi).1) hlt
  · exact h.get hj

end Fits

/-- What was set can be read. -/
theorem getElem?_set_self_of_known (h : Fits known mem) {o : Option α} (hi : known[i]? = some o)
    (a : α) : (mem.set i a)[i]? = some a := by
  have hlt : i < mem.length := h.length ▸ (List.getElem?_eq_some_iff.1 hi).1
  rw [List.getElem?_set_self hlt]

end CMTestbed.Lib
