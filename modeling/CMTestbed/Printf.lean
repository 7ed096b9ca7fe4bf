import CMTestbed.Text
import Mathlib.Algebra.Order.Floor.Ring
import Mathlib.Data.List.TakeWhile
import Mathlib.Data.Nat.Digits.Defs
import Mathlib.Data.Rat.Floor

/-!
# Printed numbers

What `fprintf` writes for an integer and for a `double`.
-/

namespace CMTestbed

/-- `%u` and `%lu` -/
def formatNat (n : ℕ) : List UInt8 :=
  if n = 0 then [48] else (Nat.digits 10 n).reverse.map fun d => UInt8.ofNat (48 + d)

/-- `%d` -/
def formatInt (n : ℤ) : List UInt8 :=
  if n < 0 then 45 :: formatNat n.natAbs else formatNat n.natAbs

/-- The nearest number, of two the even one. -/
def roundHalfEven (q : ℚ) : ℕ :=
  let n := ⌊q⌋.toNat
  if q - n < 1 / 2 ∨ q - n = 1 / 2 ∧ n % 2 = 0 then n else n + 1

/-- `%f` -/
def formatFloat (q : ℚ) : List UInt8 :=
  let n := roundHalfEven (|q| * 10 ^ 6)
  (if q < 0 then [45] else []) ++ formatNat (n / 10 ^ 6) ++ [46]
    ++ (formatNat (n % 10 ^ 6)).leftpad 6 48

section Digits
variable {s t : List UInt8}

/-- The digits' number, more digits to the right of `n`. -/
def digitsFrom (n : ℕ) (s : List UInt8) : ℕ := s.foldl (fun n c => n * 10 + (c.toNat - 48)) n

theorem digits_eq (h : ∀ c ∈ s, isdigit c = true) : digits s = digitsFrom 0 s := by
  have hall : s.takeWhile isdigit = s := by
    rw [List.takeWhile_eq_self_iff]
    exact h
  rw [digits, hall, digitsFrom]

theorem toNat_digit {d : ℕ} (hd : d < 10) : (UInt8.ofNat (48 + d)).toNat = 48 + d := by
  rw [UInt8.toNat_ofNat']
  omega

theorem isdigit_digit {d : ℕ} (hd : d < 10) : isdigit (UInt8.ofNat (48 + d)) = true := by
  rw [isdigit, decide_eq_true_iff, UInt8.le_iff_toNat_le, UInt8.le_iff_toNat_le, toNat_digit hd]
  simp only [UInt8.reduceToNat]
  omega

theorem isdigit_formatNat (n : ℕ) : ∀ c ∈ formatNat n, isdigit c = true := by
  rw [formatNat]
  intro c
  split_ifs
  · rintro hc
    rw [List.mem_singleton.1 hc]
    rfl
  · intro hc
    obtain ⟨d, hd, rfl⟩ := List.mem_map.1 hc
    exact isdigit_digit (Nat.digits_lt_base (by omega) (List.mem_reverse.1 hd))

theorem formatNat_ne_nil (n : ℕ) : formatNat n ≠ [] := by
  rw [formatNat]
  split_ifs with h
  · exact List.cons_ne_nil _ _
  · simpa using Nat.digits_ne_nil_iff_ne_zero.2 h

/-- What is printed is read back. -/
@[simp] theorem digits_formatNat (n : ℕ) : digits (formatNat n) = n := by
  rw [digits_eq (isdigit_formatNat n), formatNat]
  split_ifs with h
  · rw [h]
    rfl
  · have hfold : ∀ l : List ℕ, (∀ d ∈ l, d < 10) →
        digitsFrom 0 (l.reverse.map fun d => UInt8.ofNat (48 + d)) = Nat.ofDigits 10 l := by
      intro l hl
      induction l with
      | nil => rfl
      | cons d l ih =>
        rw [List.forall_mem_cons] at hl
        have ih := ih hl.2
        rw [digitsFrom] at ih ⊢
        rw [List.reverse_cons, List.map_append, List.foldl_append, ih, List.map_singleton,
          List.foldl_cons, List.foldl_nil, toNat_digit hl.1, Nat.ofDigits_cons]
        omega
    rw [hfold _ fun d hd => Nat.digits_lt_base (by omega) hd, Nat.ofDigits_digits]

theorem formatNat_inj {m n : ℕ} (h : formatNat m = formatNat n) : m = n := by
  rw [← digits_formatNat m, h, digits_formatNat]

theorem formatInt_of_nonneg {n : ℤ} (h : 0 ≤ n) : formatInt n = formatNat n.toNat := by
  rw [formatInt, if_neg (by omega), ← Int.toNat_of_nonneg h, Int.natAbs_natCast, Int.toNat_natCast]

/-- A number that is not negative is printed with a point between digits. -/
theorem formatFloat_of_nonneg {q : ℚ} (h : 0 ≤ q) : ∃ whole decimals,
    formatFloat q = whole ++ 46 :: decimals ∧ whole ≠ [] ∧ (∀ c ∈ whole, isdigit c = true)
      ∧ decimals ≠ [] ∧ ∀ c ∈ decimals, isdigit c = true := by
  let n := roundHalfEven (|q| * 10 ^ 6)
  refine ⟨formatNat (n / 10 ^ 6), (formatNat (n % 10 ^ 6)).leftpad 6 48, ?_, formatNat_ne_nil _,
    isdigit_formatNat _, ?_, fun c hc => ?_⟩
  · rw [formatFloat, if_neg (not_lt.2 h), List.nil_append, List.append_assoc, List.singleton_append]
  · simp [List.leftpad, formatNat_ne_nil]
  · rcases List.mem_append.1 hc with hc | hc
    · rw [List.eq_of_mem_replicate hc]
      rfl
    · exact isdigit_formatNat _ c hc

end Digits

/-! ## The decimals of `toString` -/

theorem formatNat_of_lt {n : ℕ} (h : n < 10) : formatNat n = [UInt8.ofNat (48 + n)] := by
  rw [formatNat]
  split_ifs with h₀
  · rw [h₀]
    rfl
  · rw [Nat.digits_of_lt 10 n h₀ h]
    rfl

theorem formatNat_of_le {n : ℕ} (h : 10 ≤ n) :
    formatNat n = formatNat (n / 10) ++ [UInt8.ofNat (48 + n % 10)] := by
  have h₀ : n ≠ 0 := by omega
  have h₁ : n / 10 ≠ 0 := by omega
  rw [formatNat, formatNat, if_neg h₀, if_neg h₁, Nat.digits_def' (by decide) (by omega)]
  simp

/-- What `ByteArray.toList` has still to take. -/
theorem toList_loop (bs : ByteArray) (i : ℕ) (r : List UInt8) :
    ByteArray.toList.loop bs i r = r.reverse ++ bs.data.toList.drop i := by
  induction hn : bs.size - i generalizing i r with
  | zero =>
    have hi : bs.data.toList.length ≤ i := by
      rw [Array.length_toList]
      exact Nat.le_of_sub_eq_zero hn
    rw [ByteArray.toList.loop, if_neg (by omega), List.drop_eq_nil_of_le hi, List.append_nil]
  | succ n ih =>
    have hi : i < bs.data.toList.length := by
      rw [Array.length_toList]
      have : bs.data.size = bs.size := rfl
      omega
    have hget : bs.get! i = bs.data.toList[i] := by
      rw [Array.getElem_toList, ByteArray.get!]
      exact getElem!_pos bs.data i (by simpa using hi)
    rw [ByteArray.toList.loop, if_pos (by omega), ih (i + 1) _ (by omega), hget,
      List.reverse_cons, List.append_assoc, List.singleton_append, List.getElem_cons_drop]

theorem chars_ofList (l : List Char) :
    chars (String.ofList l) = l.flatMap String.utf8EncodeChar := by
  rw [chars, String.toUTF8, String.toByteArray_ofList, ByteArray.toList, toList_loop,
    List.utf8Encode, List.toList_data_toByteArray]
  rfl

/-- A number is written alike by the scripts and by `printf`. -/
theorem chars_toString (n : ℕ) : chars (toString n) = formatNat n := by
  have hdigit : ∀ d < 10, String.utf8EncodeChar d.digitChar = [UInt8.ofNat (48 + d)] := by
    decide
  have hdigits : (Nat.toDigits 10 n).flatMap String.utf8EncodeChar = formatNat n := by
    induction n using Nat.strongRecOn with
    | ind n ih =>
      rw [Nat.toDigits_eq_if (by decide)]
      split
      · next h => rw [formatNat_of_lt h, List.flatMap_singleton, hdigit n h]
      · next h =>
        rw [List.flatMap_append, ih (n / 10) (by omega), formatNat_of_le (n := n) (by omega),
          List.flatMap_singleton, hdigit _ (by omega)]
  rw [Nat.toString_eq_ofList_toDigits, chars_ofList, hdigits]

example : formatFloat (7 / 500) = chars "0.014000" := by decide +kernel

end CMTestbed
