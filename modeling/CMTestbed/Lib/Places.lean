import Mathlib.Data.List.Nodup
import Mathlib.Logic.Function.Basic

/-!
# Places that hold pointers

A place holds a null pointer, or the address of a cell allocated for it.  To free the cell leaves
the place as it is: it dangles until something else is stored there, and to free its cell again is
undefined.  Addresses are never reused.

Places are renewed by freeing all their cells and then allocating new ones, up to the first
allocation that fails.  What dangles afterwards are the places that were not reached, unless they
were null before (`dangles_renew`).
-/

namespace CMTestbed.Lib

/-- What each place holds, and the allocated addresses. -/
structure Places (P : Type*) where
  live : List ℕ
  next : ℕ
  pointer : P → Option ℕ
  nodup : live.Nodup
  live_lt : ∀ t ∈ live, t < next
  pointer_lt : ∀ p, ∀ t ∈ pointer p, t < next
  apart : ∀ p q, ∀ t ∈ pointer p, t ∈ pointer q → p = q

namespace Places

variable {P : Type*}

def null : Places P where
  live := []
  next := 0
  pointer _ := none
  nodup := List.nodup_nil
  live_lt := nofun
  pointer_lt := nofun
  apart := nofun

/-- The place holds the address of a cell that was freed. -/
def Dangles (s : Places P) (p : P) : Prop := ∃ t ∈ s.pointer p, t ∉ s.live

instance (s : Places P) (p : P) : Decidable (s.Dangles p) :=
  inferInstanceAs (Decidable (∃ t ∈ s.pointer p, t ∉ s.live))

/-- Frees a cell. -/
def erase (s : Places P) (t : ℕ) : Places P where
  live := s.live.erase t
  next := s.next
  pointer := s.pointer
  nodup := s.nodup.erase t
  live_lt := fun u hu => s.live_lt u (List.mem_of_mem_erase hu)
  pointer_lt := s.pointer_lt
  apart := s.apart

/-- Frees the cell of a place; `none` where that is undefined. -/
def free (s : Places P) (p : P) : Option (Places P) :=
  match s.pointer p with
  | none => some s
  | some t => if t ∈ s.live then some (s.erase t) else none

def freeAll : List P → Places P → Option (Places P)
  | [], s => some s
  | p :: ps, s => (s.free p).bind (freeAll ps)

/-- The places that come after the first allocation that fails. -/
def unreached (fails : P → Bool) : List P → List P
  | [] => []
  | p :: ps => if fails p then ps else unreached fails ps

section Alloc
variable [DecidableEq P]

/-- Stores a null pointer. -/
def clear (s : Places P) (p : P) : Places P where
  live := s.live
  next := s.next
  pointer := Function.update s.pointer p none
  nodup := s.nodup
  live_lt := s.live_lt
  pointer_lt := by
    intro q t ht
    rw [Function.update_apply] at ht
    split at ht
    · cases ht
    · exact s.pointer_lt q t ht
  apart := by
    intro q r t hq hr
    rw [Function.update_apply] at hq hr
    split at hq
    · cases hq
    · split at hr
      · cases hr
      · exact s.apart q r t hq hr

/-- Stores the address of a new cell. -/
def alloc (s : Places P) (p : P) : Places P where
  live := s.next :: s.live
  next := s.next + 1
  pointer := Function.update s.pointer p (some s.next)
  nodup := List.nodup_cons.2 ⟨fun h => Nat.lt_irrefl _ (s.live_lt _ h), s.nodup⟩
  live_lt := by
    intro t ht
    rcases List.mem_cons.1 ht with rfl | ht
    · exact Nat.lt_succ_self _
    · exact Nat.lt_succ_of_lt (s.live_lt t ht)
  pointer_lt := by
    intro q t ht
    rw [Function.update_apply] at ht
    split at ht
    · cases ht
      exact Nat.lt_succ_self _
    · exact Nat.lt_succ_of_lt (s.pointer_lt q t ht)
  apart := by
    intro q r t hq hr
    rw [Function.update_apply] at hq hr
    split at hq <;> split at hr
    · next hqp hrp => rw [hqp, hrp]
    · cases hq
      exact absurd (s.pointer_lt r _ hr) (Nat.lt_irrefl _)
    · cases hr
      exact absurd (s.pointer_lt q _ hq) (Nat.lt_irrefl _)
    · exact s.apart q r t hq hr

/-- Allocates a cell for each of the places, until an allocation fails; whether none did. -/
def allocAll (fails : P → Bool) : List P → Places P → Places P × Bool
  | [], s => (s, true)
  | p :: ps, s => if fails p then (s.clear p, false) else allocAll fails ps (s.alloc p)

end Alloc

variable {s s' : Places P} {p q : P} {ps : List P} {fails : P → Bool}

theorem dangles_null : ¬ (null : Places P).Dangles p := nofun

theorem dangles_erase {t : ℕ} (ht : t ∈ s.pointer p) :
    (s.erase t).Dangles q ↔ s.Dangles q ∨ q = p := by
  constructor
  · rintro ⟨u, hu, hlive⟩
    by_cases hut : u = t
    · subst hut
      exact .inr (s.apart q p u hu ht)
    · exact .inl ⟨u, hu, fun h => hlive ((List.mem_erase_of_ne hut).2 h)⟩
  · rintro (⟨u, hu, hlive⟩ | rfl)
    · exact ⟨u, hu, fun h => hlive (List.mem_of_mem_erase h)⟩
    · exact ⟨t, ht, s.nodup.not_mem_erase⟩

theorem free_eq_none : s.free p = none ↔ s.Dangles p := by
  unfold free Dangles
  split
  · next h => simp [h]
  · next t h => simp [h]

theorem pointer_free (h : s.free p = some s') : s'.pointer = s.pointer := by
  unfold free at h
  split at h
  · cases h
    rfl
  · split at h <;> cases h
    rfl

theorem dangles_free (h : s.free p = some s') :
    s'.Dangles q ↔ s.Dangles q ∨ q = p ∧ s.pointer q ≠ none := by
  unfold free at h
  split at h
  · next hp =>
    cases h
    constructor
    · exact .inl
    · rintro (h | ⟨rfl, h⟩)
      · exact h
      · exact absurd hp h
  · next t hp =>
    split at h <;> cases h
    rw [dangles_erase hp, and_iff_left_of_imp]
    rintro rfl
    simp [hp]

theorem dangles_freeAll (h : s.freeAll ps = some s') :
    s'.Dangles q ↔ s.Dangles q ∨ q ∈ ps ∧ s.pointer q ≠ none := by
  induction ps generalizing s with
  | nil =>
    cases h
    simp
  | cons p ps ih =>
    obtain ⟨s₁, h₁, h⟩ := Option.bind_eq_some_iff.1 h
    rw [ih h, dangles_free h₁, pointer_free h₁, List.mem_cons, or_and_right, or_assoc]

theorem not_dangles_of_freeAll (h : s.freeAll ps = some s') (hp : p ∈ ps) : ¬ s.Dangles p := by
  induction ps generalizing s with
  | nil => cases hp
  | cons q ps ih =>
    obtain ⟨s₁, h₁, h⟩ := Option.bind_eq_some_iff.1 h
    intro hd
    rcases List.mem_cons.1 hp with rfl | hp
    · rw [free_eq_none.2 hd] at h₁
      cases h₁
    · exact ih h hp ((dangles_free h₁).2 (.inl hd))

/-- Cells that no place has lost can all be freed. -/
theorem exists_freeAll (hps : ps.Nodup) (h : ∀ p ∈ ps, ¬ s.Dangles p) :
    ∃ s', s.freeAll ps = some s' := by
  induction ps generalizing s with
  | nil => exact ⟨s, rfl⟩
  | cons p ps ih =>
    rw [List.nodup_cons] at hps
    rw [List.forall_mem_cons] at h
    obtain ⟨s₁, h₁⟩ := Option.ne_none_iff_exists'.1 (mt free_eq_none.1 h.1)
    have hs₁ : ∀ q ∈ ps, ¬ s₁.Dangles q := by
      intro q hq hd
      rcases (dangles_free h₁).1 hd with hd | ⟨rfl, -⟩
      · exact h.2 q hq hd
      · exact hps.1 hq
    rw [freeAll, h₁]
    exact ih hps.2 hs₁

theorem unreached_subset (fails : P → Bool) (ps : List P) : unreached fails ps ⊆ ps := by
  intro q h
  induction ps with
  | nil => exact h
  | cons p ps ih =>
    unfold unreached at h
    split at h
    · exact List.mem_cons_of_mem _ h
    · exact List.mem_cons_of_mem _ (ih h)

variable [DecidableEq P]

theorem dangles_clear : (s.clear p).Dangles q ↔ q ≠ p ∧ s.Dangles q := by
  by_cases hqp : q = p
  · subst hqp
    simp [Dangles, clear]
  · simp [Dangles, clear, hqp]

theorem dangles_alloc : (s.alloc p).Dangles q ↔ q ≠ p ∧ s.Dangles q := by
  by_cases hqp : q = p
  · subst hqp
    simp [Dangles, alloc]
  · have hnext : ∀ t ∈ s.pointer q, (t ∉ s.next :: s.live ↔ t ∉ s.live) := fun t ht => by
      rw [List.mem_cons, or_iff_right (Nat.ne_of_lt (s.pointer_lt q t ht))]
    simp only [Dangles, alloc, Function.update_of_ne hqp, ne_eq, hqp, not_false_iff, true_and]
    exact exists_congr fun t => and_congr_right (hnext t)

theorem dangles_allocAll (hps : ps.Nodup) : (s.allocAll fails ps).1.Dangles q
    ↔ s.Dangles q ∧ (q ∈ ps → q ∈ unreached fails ps) := by
  induction ps generalizing s with
  | nil => simp [allocAll]
  | cons p ps ih =>
    rw [List.nodup_cons] at hps
    have hne : q ∈ ps → q ≠ p := by
      rintro hq rfl
      exact hps.1 hq
    rw [allocAll, unreached, List.mem_cons]
    split_ifs
    · rw [dangles_clear]
      tauto
    · have hun : q ∈ unreached fails ps → q ∈ ps := fun h => unreached_subset fails ps h
      rw [ih hps.2, dangles_alloc]
      tauto

/-- Frees the places in one order and allocates them in another. -/
def renew (fails : P → Bool) (old new : List P) (s : Places P) : Option (Places P × Bool) :=
  (s.freeAll old).map (allocAll fails new)

/-- Renewing places, none of which dangles: what dangles afterwards. -/
theorem dangles_renew (fails : P → Bool) {old new : List P} (hold : old.Nodup)
    (hperm : old.Perm new) (h : ∀ p, ¬ s.Dangles p) : ∃ r, s.renew fails old new = some r
      ∧ ∀ q, r.1.Dangles q ↔ q ∈ unreached fails new ∧ s.pointer q ≠ none := by
  obtain ⟨s₁, h₁⟩ := exists_freeAll hold fun p _ => h p
  refine ⟨_, by rw [renew, h₁, Option.map_some], fun q => ?_⟩
  have hun : q ∈ unreached fails new → q ∈ new := fun h => unreached_subset fails new h
  rw [dangles_allocAll (hperm.nodup_iff.1 hold), dangles_freeAll h₁, hperm.mem_iff]
  have hq := h q
  tauto

/-- A place that dangles is not among those that could be renewed. -/
theorem Dangles.renew {old new : List P} {r : Places P × Bool} (hp : s.Dangles p)
    (hnew : new.Nodup) (hperm : old.Perm new) (h : s.renew fails old new = some r) :
    r.1.Dangles p := by
  obtain ⟨s₁, h₁, rfl⟩ := Option.map_eq_some_iff.1 h
  refine (dangles_allocAll hnew).2 ⟨(dangles_freeAll h₁).2 (.inl hp), fun hmem => ?_⟩
  exact absurd hp (not_dangles_of_freeAll h₁ (hperm.mem_iff.2 hmem))

end Places

end CMTestbed.Lib
