import Mathlib.Data.Int.Log
import Mathlib.Data.Rat.Floor
import Mathlib.Tactic.Linarith
import Mathlib.Tactic.Ring
import Mathlib.Tactic.Positivity

/-!
# Rounding to floats

What programs rely on when they round a number to a float: the order is kept, and 0 and 1 are
floats.  Rounding to the nearest number of `p` binary digits, ties to even, is of this kind
(`nearest`), and so is rounding twice (`comp`) and not at all (`exact`).  Exponents are unbounded.
-/

namespace CMTestbed.Lib

structure Rounding where
  round : ℚ → ℚ
  monotone : Monotone round
  zero : round 0 = 0
  one : round 1 = 1

namespace Rounding

def exact : Rounding where
  round := id
  monotone := monotone_id
  zero := rfl
  one := rfl

/-- `R` on the result of `S`. -/
def comp (R S : Rounding) : Rounding where
  round := R.round ∘ S.round
  monotone := R.monotone.comp S.monotone
  zero := by simp [S.zero, R.zero]
  one := by simp [S.one, R.one]

variable (R : Rounding)

theorem nonneg {x : ℚ} (h : 0 ≤ x) : 0 ≤ R.round x := R.zero.symm.le.trans (R.monotone h)

theorem le_one {x : ℚ} (h : x ≤ 1) : R.round x ≤ 1 := (R.monotone h).trans R.one.le

end Rounding

/-! ## To the nearest, ties to even -/

/-- The nearest integer, the even one of two. -/
def nearestInt (x : ℚ) : ℤ :=
  if x - ⌊x⌋ < 1 / 2 ∨ x - ⌊x⌋ = 1 / 2 ∧ 2 ∣ ⌊x⌋ then ⌊x⌋ else ⌊x⌋ + 1

theorem floor_le_nearestInt (x : ℚ) : ⌊x⌋ ≤ nearestInt x := by
  unfold nearestInt
  split_ifs <;> omega

theorem nearestInt_le (x : ℚ) : nearestInt x ≤ ⌊x⌋ + 1 := by
  unfold nearestInt
  split_ifs <;> omega

theorem nearestInt_intCast (n : ℤ) : nearestInt n = n := by simp [nearestInt]

theorem nearestInt_mono {x y : ℚ} (h : x ≤ y) : nearestInt x ≤ nearestInt y := by
  rcases (Int.floor_le_floor h).lt_or_eq with hlt | heq
  · exact (nearestInt_le x).trans ((Int.add_one_le_iff.2 hlt).trans (floor_le_nearestInt y))
  · -- in one unit interval: what rounds `y` down rounds `x` down
    unfold nearestInt
    rw [← heq]
    split_ifs with hx hy hy
    · exact le_rfl
    · omega
    · refine absurd ?_ hx
      rcases hy with hy | ⟨hy, heven⟩
      · exact .inl (by linarith)
      · rcases (show x - ⌊x⌋ ≤ 1 / 2 by linarith).lt_or_eq with hlt | he
        · exact .inl hlt
        · exact .inr ⟨he, heven⟩
    · exact le_rfl

theorem le_nearestInt {x : ℚ} {n : ℤ} (h : n ≤ x) : n ≤ nearestInt x := by
  rw [← nearestInt_intCast n]
  exact nearestInt_mono h

theorem nearestInt_le_of_le {x : ℚ} {n : ℤ} (h : x ≤ n) : nearestInt x ≤ n := by
  rw [← nearestInt_intCast n]
  exact nearestInt_mono h

section Nearest

variable (p : ℕ)

/-- The unit in the last place of `p` binary digits. -/
def ulp (x : ℚ) : ℚ := 2 ^ (Int.log 2 x - p)

theorem ulp_pos (x : ℚ) : 0 < ulp p x := zpow_pos two_pos _

theorem pow_mul_ulp (x : ℚ) : 2 ^ p * ulp p x = 2 ^ Int.log 2 x := by
  unfold ulp
  rw [zpow_sub₀ two_ne_zero, zpow_natCast]
  field_simp

/-- A positive number, rounded to `p + 1` binary digits. -/
def roundPos (x : ℚ) : ℚ := nearestInt (x / ulp p x) * ulp p x

variable {p} {x y : ℚ}

theorem log_le_roundPos (hx : 0 < x) : (2 : ℚ) ^ Int.log 2 x ≤ roundPos p x := by
  have hle : (2 ^ p : ℤ) ≤ nearestInt (x / ulp p x) := by
    have h := Int.zpow_log_le_self (by decide : 1 < 2) hx
    refine le_nearestInt ((le_div_iff₀ (ulp_pos p x)).2 ?_)
    push_cast at h ⊢
    rwa [pow_mul_ulp]
  calc (2 : ℚ) ^ Int.log 2 x = 2 ^ p * ulp p x := (pow_mul_ulp p x).symm
    _ ≤ nearestInt (x / ulp p x) * ulp p x :=
        mul_le_mul_of_nonneg_right (by exact_mod_cast hle) (ulp_pos p x).le

theorem roundPos_le_log (x : ℚ) : roundPos p x ≤ 2 ^ (Int.log 2 x + 1) := by
  have hulp : 2 ^ (p + 1) * ulp p x = 2 ^ (Int.log 2 x + 1) := by
    rw [zpow_add_one₀ two_ne_zero, ← pow_mul_ulp p x]
    ring
  have hle : nearestInt (x / ulp p x) ≤ (2 ^ (p + 1) : ℤ) := by
    have h := Int.lt_zpow_succ_log_self (by decide : 1 < 2) x
    refine nearestInt_le_of_le ((div_le_iff₀ (ulp_pos p x)).2 ?_)
    push_cast at h ⊢
    rw [hulp]
    exact h.le
  calc (nearestInt (x / ulp p x) : ℚ) * ulp p x ≤ 2 ^ (p + 1) * ulp p x :=
        mul_le_mul_of_nonneg_right (by exact_mod_cast hle) (ulp_pos p x).le
    _ = 2 ^ (Int.log 2 x + 1) := hulp

theorem roundPos_mono (hx : 0 < x) (h : x ≤ y) : roundPos p x ≤ roundPos p y := by
  rcases (Int.log_mono_right hx h : Int.log 2 x ≤ Int.log 2 y).lt_or_eq with hlt | heq
  · -- a power of two lies between them
    calc roundPos p x ≤ 2 ^ (Int.log 2 x + 1) := roundPos_le_log x
      _ ≤ 2 ^ Int.log 2 y := zpow_le_zpow_right₀ one_le_two (by omega)
      _ ≤ roundPos p y := log_le_roundPos (hx.trans_le h)
  · have hu : ulp p x = ulp p y := by rw [ulp, ulp, heq]
    rw [roundPos, roundPos, hu]
    refine mul_le_mul_of_nonneg_right ?_ (ulp_pos p y).le
    exact_mod_cast nearestInt_mono (div_le_div_of_nonneg_right h (ulp_pos p y).le)

theorem roundPos_pos (hx : 0 < x) : 0 < roundPos p x :=
  (zpow_pos two_pos _).trans_le (log_le_roundPos hx)

end Nearest

namespace Rounding

variable (p : ℕ)

def nearestTo (x : ℚ) : ℚ :=
  if 0 < x then roundPos p x else if x < 0 then -roundPos p (-x) else 0

theorem nearestTo_mono : Monotone (nearestTo p) := by
  intro x y h
  unfold nearestTo
  split_ifs with hx hy hy hx' hy hy' hy hy'
  · exact roundPos_mono hx h
  · linarith
  · linarith
  · linarith [roundPos_pos (p := p) hy, roundPos_pos (p := p) (neg_pos.2 hx')]
  · exact neg_le_neg (roundPos_mono (neg_pos.2 hy') (neg_le_neg h))
  · linarith [roundPos_pos (p := p) (neg_pos.2 hx')]
  · exact (roundPos_pos hy).le
  · linarith
  · exact le_rfl

/-- To the nearest number of `p + 1` binary digits. -/
def nearest : Rounding where
  round := nearestTo p
  monotone := nearestTo_mono p
  zero := by simp [nearestTo]
  one := by
    have hulp : ulp p 1 = 2 ^ (-(p : ℤ)) := by rw [ulp, Int.log_one_right, zero_sub]
    have hone : (1 : ℚ) / ulp p 1 = ((2 ^ p : ℤ) : ℚ) := by simp [hulp]
    rw [nearestTo, if_pos one_pos, roundPos, hone, nearestInt_intCast, hulp]
    simp

/-- A `double`, and then a `float`. -/
def float : Rounding := (nearest 23).comp (nearest 52)

example : float.round (1 / 3) = 11184811 / 2 ^ 25 := by decide +kernel

end Rounding

end CMTestbed.Lib
