import Mathlib.Algebra.Order.Field.Basic
import Mathlib.Data.Set.Card
import Mathlib.Tactic.Positivity

/-!
# Tallies of verdicts

Items are judged one by one, and each is left out, missed, or captured with some accuracy.  A tally
counts them; its ratios are shares of what was not left out (`ratio_mem`), and its average is one of
accuracies (`average_mem`).
-/

namespace CMTestbed.Lib

/-- What is made of an item. -/
inductive Verdict (K : Type*) where
  | out
  | missed
  | captured (accuracy : K)

namespace Verdict

variable {K : Type*}

def isSeen : Verdict K → Bool
  | out => false
  | _ => true

def isMissed : Verdict K → Bool
  | missed => true
  | _ => false

end Verdict

structure Tally (K : Type*) where
  all : ℕ
  missed : ℕ
  captured : ℕ
  accuracySum : K

namespace Tally

section Count

variable {K : Type*} [AddZeroClass K]

def zero : Tally K := ⟨0, 0, 0, 0⟩

def add (t : Tally K) : Verdict K → Tally K
  | .out => t
  | .missed => { t with all := t.all + 1, missed := t.missed + 1 }
  | .captured accuracy => { t with
      all := t.all + 1
      captured := t.captured + 1
      accuracySum := t.accuracySum + accuracy }

def of (vs : List (Verdict K)) : Tally K := vs.foldl add zero

theorem of_append (vs : List (Verdict K)) (v : Verdict K) : of (vs ++ [v]) = (of vs).add v := by
  rw [of, List.foldl_append]
  rfl

/-- A counter that each verdict of a kind adds to counts the verdicts of that kind. -/
theorem countP_of {count : Tally K → ℕ} {p : Verdict K → Bool} (hzero : count zero = 0)
    (hadd : ∀ t v, count (t.add v) = count t + [v].countP p) (vs : List (Verdict K)) :
    count (of vs) = vs.countP p := by
  induction vs using List.reverseRecOn with
  | nil => exact hzero
  | append_singleton vs v ih => rw [of_append, hadd, List.countP_append, ih]

theorem all_of (vs : List (Verdict K)) : (of vs).all = vs.countP Verdict.isSeen :=
  countP_of rfl (fun t v => by cases v <;> rfl) vs

theorem missed_of (vs : List (Verdict K)) : (of vs).missed = vs.countP Verdict.isMissed :=
  countP_of rfl (fun t v => by cases v <;> rfl) vs

/-- What is not left out is either missed or captured. -/
theorem all_of_eq_add (vs : List (Verdict K)) :
    (of vs).all = (of vs).missed + (of vs).captured := by
  induction vs using List.reverseRecOn with
  | nil => rfl
  | append_singleton vs v ih =>
    rw [of_append]
    cases v with
    | out => exact ih
    | missed => exact (congrArg Nat.succ ih).trans (Nat.succ_add _ _).symm
    | captured _ => exact congrArg Nat.succ ih

theorem missed_le_all (vs : List (Verdict K)) : (of vs).missed ≤ (of vs).all := by
  rw [all_of_eq_add]
  exact Nat.le_add_right _ _

theorem captured_of (vs : List (Verdict K)) :
    (of vs).captured = vs.countP fun v => v.isSeen && !v.isMissed :=
  countP_of rfl (fun t v => by cases v <;> rfl) vs

/-- Nothing is captured where all but what is left out is missed. -/
theorem captured_of_eq_zero (vs : List (Verdict K)) : (of vs).captured = 0
    ↔ ∀ v ∈ vs, v.isSeen = true → v.isMissed = true := by
  rw [captured_of, List.countP_eq_zero]
  refine forall₂_congr fun v _ => ?_
  rw [Bool.and_eq_true, not_and, Bool.not_eq_true', Bool.not_eq_false]

end Count

section Ratios

variable {K : Type*} [Field K] [LinearOrder K] [IsStrictOrderedRing K]

/-- A share is between 0 and 1. -/
theorem ratio_mem {a b : ℕ} (h : a ≤ b) : 0 ≤ (a : K) / b ∧ (a : K) / b ≤ 1 :=
  ⟨by positivity, div_le_one_of_le₀ (Nat.cast_le.2 h) (Nat.cast_nonneg b)⟩

theorem accuracySum_of {vs : List (Verdict K)} (hvs : ∀ a, .captured a ∈ vs → 0 ≤ a ∧ a ≤ 1) :
    0 ≤ (of vs).accuracySum ∧ (of vs).accuracySum ≤ (of vs).captured := by
  induction vs using List.reverseRecOn with
  | nil => exact ⟨le_rfl, Nat.cast_nonneg 0⟩
  | append_singleton vs v ih =>
    obtain ⟨h₀, h₁⟩ := ih fun a ha => hvs a (List.mem_append_left _ ha)
    rw [of_append]
    cases v with
    | out => exact ⟨h₀, h₁⟩
    | missed => exact ⟨h₀, h₁⟩
    | captured a =>
      obtain ⟨ha₀, ha₁⟩ := hvs a (List.mem_append_right _ List.mem_cons_self)
      refine ⟨add_nonneg h₀ ha₀, ?_⟩
      show (of vs).accuracySum + a ≤ (((of vs).captured + 1 : ℕ) : K)
      rw [Nat.cast_succ]
      exact add_le_add h₁ ha₁

/-- The average of accuracies between 0 and 1 is between 0 and 1. -/
theorem average_mem {vs : List (Verdict K)} (hvs : ∀ a, .captured a ∈ vs → 0 ≤ a ∧ a ≤ 1) :
    0 ≤ (of vs).accuracySum / ((of vs).captured : K)
      ∧ (of vs).accuracySum / ((of vs).captured : K) ≤ 1 := by
  obtain ⟨h₀, h₁⟩ := accuracySum_of hvs
  exact ⟨div_nonneg h₀ (Nat.cast_nonneg _), div_le_one_of_le₀ h₁ (Nat.cast_nonneg _)⟩

end Ratios

end Tally

/-- How many keys of a list, each there once, have a property. -/
theorem ncard_eq_countP {α κ : Type*} {l : List α} {key : α → κ} (h : (l.map key).Nodup)
    (p : α → Bool) : {k | ∃ a ∈ l, p a = true ∧ key a = k}.ncard = l.countP p := by
  classical
  have hset : {k | ∃ a ∈ l, p a = true ∧ key a = k}
      = (((l.filter p).map key).toFinset : Set κ) := by
    ext k
    simp only [List.coe_toFinset, Set.mem_ofPred_eq, List.mem_map, List.mem_filter, and_assoc]
  have hnodup : ((l.filter p).map key).Nodup := h.sublist (List.filter_sublist.map key)
  rw [hset, Set.ncard_coe_finset, List.toFinset_card_of_nodup hnodup, List.length_map,
    List.countP_eq_length_filter]

end CMTestbed.Lib
