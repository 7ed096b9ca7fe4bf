import Mathlib.Data.Nat.Find
import Mathlib.Order.Monotone.Basic

/-!
# Waiting for a reading

A loop takes one reading after the other until one passes its test.  It ends at the first that
does (`pollFrom_eq_some`), which exists if any does (`exists_firstFrom`).

A clock that ticks by single steps and never stops shows every later time (`Ticking.exists_eq`).
-/

namespace CMTestbed.Lib

section Poll

variable {α : Type*} (readings : ℕ → α) (test : α → Bool)

/-- Where the loop ends that starts with reading `i`, if within `fuel` readings. -/
def pollFrom : ℕ → ℕ → Option ℕ
  | 0, _ => none
  | fuel + 1, i => if test (readings i) then some i else pollFrom fuel (i + 1)

/-- Of the readings from `i` on, the one at `j` is the first that passes. -/
structure FirstFrom (i j : ℕ) : Prop where
  le : i ≤ j
  passes : test (readings j) = true
  before : ∀ k, i ≤ k → k < j → test (readings k) = false

variable {readings test} {fuel i j : ℕ}

theorem FirstFrom.succ (h : FirstFrom readings test (i + 1) j) (hi : test (readings i) = false) :
    FirstFrom readings test i j := by
  have hle := h.le
  refine ⟨by omega, h.passes, fun k hik hkj => ?_⟩
  obtain rfl | hlt := Nat.eq_or_lt_of_le hik
  · exact hi
  · exact h.before k hlt hkj

theorem pollFrom_eq_some :
    pollFrom readings test fuel i = some j ↔ FirstFrom readings test i j ∧ j < i + fuel := by
  induction fuel generalizing i with
  | zero =>
    rw [pollFrom]
    refine ⟨nofun, fun h => ?_⟩
    have := h.1.le
    omega
  | succ fuel ih =>
    rw [pollFrom]
    split
    · next hi =>
      rw [Option.some.injEq]
      constructor
      · rintro rfl
        exact ⟨⟨le_rfl, hi, fun k h₁ h₂ => by omega⟩, by omega⟩
      · rintro ⟨h, -⟩
        by_contra hne
        have := h.before i le_rfl (lt_of_le_of_ne h.le hne)
        rw [hi] at this
        cases this
    · next hi =>
      rw [Bool.not_eq_true] at hi
      rw [ih]
      constructor
      · rintro ⟨h, hlt⟩
        exact ⟨h.succ hi, by omega⟩
      · rintro ⟨h, hlt⟩
        have hne : i ≠ j := by
          rintro rfl
          have := h.passes
          rw [hi] at this
          cases this
        have hle := h.le
        exact ⟨⟨by omega, h.passes, fun k hik hkj => h.before k (by omega) hkj⟩, by omega⟩

theorem exists_firstFrom (h : ∃ j, i ≤ j ∧ test (readings j) = true) :
    ∃ j, FirstFrom readings test i j := by
  classical
  have hfind := Nat.find_spec h
  refine ⟨Nat.find h, hfind.1, hfind.2, fun k hik hkj => ?_⟩
  have := Nat.find_min h hkj
  rw [not_and, Bool.not_eq_true] at this
  exact this hik

end Poll

/-- Readings of a clock: they never decrease, grow by at most 1, and never stop for good. -/
structure Ticking (clock : ℕ → ℕ) : Prop where
  mono : ∀ i, clock i ≤ clock (i + 1)
  step : ∀ i, clock (i + 1) ≤ clock i + 1
  moves : ∀ i, ∃ j, i ≤ j ∧ clock j ≠ clock i

namespace Ticking

variable {clock : ℕ → ℕ} {i j : ℕ}

theorem monotone (h : Ticking clock) : Monotone clock := monotone_nat_of_le_succ h.mono

/-- Every later time is shown, after `i` if it is later than the reading there. -/
theorem exists_eq (h : Ticking clock) (i n : ℕ) : ∃ j, i ≤ j ∧ clock j = clock i + n := by
  induction n with
  | zero => exact ⟨i, le_rfl, rfl⟩
  | succ n ih =>
    obtain ⟨j, hij, hj⟩ := ih
    -- the last of the readings that are as early as the one at `j`
    obtain ⟨k, hk⟩ : ∃ k, FirstFrom clock (fun t => decide (t ≠ clock j)) j k :=
      exists_firstFrom (by simpa using h.moves j)
    have hne := of_decide_eq_true hk.passes
    have hjk : j ≠ k := by
      rintro rfl
      exact hne rfl
    obtain ⟨k, rfl⟩ : ∃ m, k = m + 1 := ⟨k - 1, by have := hk.le; omega⟩
    have hle := hk.le
    have hprev : clock k = clock j := by
      by_contra hne'
      have := hk.before k (by omega) (by omega)
      exact of_decide_eq_false this hne'
    have h₁ := h.mono k
    have h₂ := h.step k
    exact ⟨k + 1, by omega, by omega⟩

end Ticking

end CMTestbed.Lib
