import Mathlib.Data.List.Basic

/-!
# Records in a stream

Records of one size are appended to a stream and taken off its front.  Two writes of a record need
not be the same, as when it has bytes that are never assigned.
-/

namespace CMTestbed.Lib

structure Records (α β : Type*) where
  size : ℕ
  size_pos : 0 < size
  read : List β → Option α
  /-- What may be written of a record. -/
  Writes : α → List β → Prop
  length_of_writes : ∀ {a w}, Writes a w → w.length = size
  read_of_writes : ∀ {a w}, Writes a w → read w = some a

namespace Records

variable {α β : Type*} (R : Records α β)

/-- The stream is what has been written of these records. -/
def Holds : List α → List β → Prop
  | [], s => s = []
  | a :: as, s => ∃ w rest, R.Writes a w ∧ s = w ++ rest ∧ Holds as rest

variable {R} {a : α} {as : List α} {s w : List β}

theorem Holds.write (h : R.Holds as s) (hw : R.Writes a w) : R.Holds (as ++ [a]) (s ++ w) := by
  induction as generalizing s with
  | nil =>
    obtain rfl : s = [] := h
    exact ⟨w, [], hw, by simp, rfl⟩
  | cons b as ih =>
    obtain ⟨v, rest, hv, rfl, hrest⟩ := h
    exact ⟨v, rest ++ w, hv, List.append_assoc .., ih hrest⟩

/-- Nothing is left in the stream just if no record is. -/
theorem Holds.eq_nil_iff (h : R.Holds as s) : s = [] ↔ as = [] := by
  rcases as with _ | ⟨a, as⟩
  · exact iff_of_true h rfl
  · obtain ⟨w, rest, hw, rfl, -⟩ := h
    have hlen := R.length_of_writes hw
    have hpos := R.size_pos
    refine iff_of_false (fun hnil => ?_) (List.cons_ne_nil _ _)
    rw [(List.append_eq_nil_iff.1 hnil).1, List.length_nil] at hlen
    omega

/-- The first record is read, and the others are left. -/
theorem Holds.read (h : R.Holds (a :: as) s) :
    (s.take R.size).length = R.size ∧ R.read (s.take R.size) = some a
      ∧ R.Holds as (s.drop R.size) := by
  obtain ⟨w, rest, hw, rfl, hrest⟩ := h
  have hlen := R.length_of_writes hw
  rw [List.take_left' hlen, List.drop_left' hlen]
  exact ⟨hlen, R.read_of_writes hw, hrest⟩

end Records

end CMTestbed.Lib
