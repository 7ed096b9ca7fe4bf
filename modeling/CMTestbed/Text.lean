import Mathlib.Algebra.Group.Int.Defs
import Mathlib.Data.List.Basic
import Mathlib.Data.UInt

/-!
# Lines of text

The task file and the generator's input are split by `str_split` and read by `strtol` and `strtoul`.
A string is its bytes without the 0 at its end.
-/

namespace CMTestbed

/-- The tokens that `strtok` finds: the longest stretches without the delimiter. -/
def strtok (aStr : List UInt8) (aDelim : UInt8) : List (List UInt8) :=
  (aStr.splitOn aDelim).filter fun token => !token.isEmpty

/-- `str_split`, or nothing where its assertion fails: as many tokens are expected as there are
delimiters, and one more if a delimiter does not come last. -/
def strSplit (aStr : List UInt8) (aDelim : UInt8) : Option (List (List UInt8)) :=
  let count := aStr.count aDelim + if aStr.getLast? = some aDelim then 0 else 1
  let tokens := strtok aStr aDelim
  if tokens.length = count then some tokens else none

def isspace (c : UInt8) : Bool := c = 32 ∨ 9 ≤ c ∧ c ≤ 13

def isdigit (c : UInt8) : Bool := 48 ≤ c ∧ c ≤ 57

/-- The number that the leading digits spell. -/
def digits (s : List UInt8) : ℕ :=
  (s.takeWhile isdigit).foldl (fun n c => n * 10 + (c.toNat - 48)) 0

/-- `strtol` in base 10; a `long` has 64 bits. -/
def strtol (s : List UInt8) : ℤ :=
  match s.dropWhile isspace with
  | 45 :: s => max (-2 ^ 63) (-digits s)
  | 43 :: s => min (2 ^ 63 - 1) (digits s)
  | s => min (2 ^ 63 - 1) (digits s)

/-- `strtoul` in base 10. -/
def strtoul (s : List UInt8) : UInt64 :=
  let bounded (n : ℕ) : UInt64 := if n < 2 ^ 64 then n.toUInt64 else 2 ^ 64 - 1
  match s.dropWhile isspace with
  | 45 :: s => if digits s < 2 ^ 64 then -(digits s).toUInt64 else 2 ^ 64 - 1
  | 43 :: s => bounded (digits s)
  | s => bounded (digits s)

/-- The bytes of a string. -/
def chars (s : String) : List UInt8 := s.toUTF8.toList

example : strSplit (chars "1 1 7 4 6") 32
    = some [chars "1", chars "1", chars "7", chars "4", chars "6"] := by decide +kernel

/-! ## Numbers and the newline behind them -/

theorem takeWhile_isdigit_newline (s : List UInt8) :
    (s ++ [10]).takeWhile isdigit = s.takeWhile isdigit := by
  rw [List.takeWhile_append, List.takeWhile_cons_of_neg (by decide), List.append_nil]
  split_ifs with h
  · exact ((List.takeWhile_prefix isdigit).eq_of_length h).symm
  · rfl

/-- Digits are read up to the newline. -/
theorem digits_append_newline (s : List UInt8) : digits (s ++ [10]) = digits s := by
  rw [digits, digits, takeWhile_isdigit_newline]

theorem not_isspace_of_isdigit {c : UInt8} (hc : isdigit c = true) : ¬ isspace c = true := by
  rw [isdigit, decide_eq_true_iff, UInt8.le_iff_toNat_le, UInt8.le_iff_toNat_le] at hc
  rw [isspace, decide_eq_true_iff, UInt8.le_iff_toNat_le, UInt8.le_iff_toNat_le,
    ← UInt8.toNat_inj]
  simp only [UInt8.reduceToNat] at hc ⊢
  omega

theorem strtol_of_isdigit {c : UInt8} {s : List UInt8} (hc : isdigit c = true) :
    strtol (c :: s) = min (2 ^ 63 - 1) (digits (c :: s) : ℤ) := by
  rw [strtol, List.dropWhile_cons_of_neg (not_isspace_of_isdigit hc)]
  split
  · next h => cases h; cases hc
  · next h => cases h; cases hc
  · rfl

theorem strtoul_of_isdigit {c : UInt8} {s : List UInt8} (hc : isdigit c = true) :
    strtoul (c :: s)
      = if digits (c :: s) < 2 ^ 64 then (digits (c :: s)).toUInt64 else 2 ^ 64 - 1 := by
  rw [strtoul, List.dropWhile_cons_of_neg (not_isspace_of_isdigit hc)]
  dsimp only
  split
  · next h => cases h; cases hc
  · next h => cases h; cases hc
  · rfl

end CMTestbed
