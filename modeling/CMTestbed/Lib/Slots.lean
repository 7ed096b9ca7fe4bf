import Mathlib.Data.List.Nodup
import Mathlib.Data.Option.Basic
import Mathlib.Order.Basic

/-!
# Tables with one slot per bin

Each key has one bin that it may be stored in, and each bin has room for one entry.  An operation
for a key touches that key's bin alone.  If no other key is there it may fill or clear the bin;
otherwise it may put an entry of its own in the other's place, where the two entries allow it.
-/

namespace CMTestbed.Lib

variable {K E I : Type*} [DecidableEq I]

/-- Every entry is in the bin of its own key. -/
def Placed (bin : K → I) (key : E → K) (t : I → Option E) : Prop :=
  ∀ i e, t i = some e → bin (key e) = i

/-- What an operation for the key `k` may do, if `Evicts` says which entries give way to which. -/
inductive SlotStep (bin : K → I) (key : E → K) (Evicts : E → E → Prop) (k : K)
    (t : I → Option E) : (I → Option E) → Prop
  | keep : SlotStep bin key Evicts k t t
  | own (slot : Option E) (hfree : ∀ e, t (bin k) = some e → key e = k)
      (hslot : ∀ e, slot = some e → key e = k) :
    SlotStep bin key Evicts k t (Function.update t (bin k) slot)
  | evict (old e : E) (hold : t (bin k) = some old) (hne : key old ≠ k) (hkey : key e = k)
      (hevicts : Evicts old e) :
    SlotStep bin key Evicts k t (Function.update t (bin k) (some e))

section SlotStep
variable {bin : K → I} {key : E → K} {Evicts : E → E → Prop} {k : K} {t t' : I → Option E}
  {i : I} {e : E}

theorem Placed.step (h : Placed bin key t) (hstep : SlotStep bin key Evicts k t t') :
    Placed bin key t' := by
  intro i e he
  cases hstep with
  | keep => exact h i e he
  | own slot hfree hslot =>
    by_cases hi : i = bin k
    · rw [hi, Function.update_self] at he
      rw [hslot e he, hi]
    · rw [Function.update_of_ne hi] at he
      exact h i e he
  | evict old e' hold hne hkey hevicts =>
    by_cases hi : i = bin k
    · rw [hi, Function.update_self, Option.some.injEq] at he
      rw [← he, hkey, hi]
    · rw [Function.update_of_ne hi] at he
      exact h i e he

/-- The other bins stay as they are. -/
theorem SlotStep.eq_of_ne (hstep : SlotStep bin key Evicts k t t') (hi : i ≠ bin k) :
    t' i = t i := by
  cases hstep with
  | keep => rfl
  | own slot hfree hslot => exact Function.update_of_ne hi _ _
  | evict old e' hold hne hkey hevicts => exact Function.update_of_ne hi _ _

/-- Another key's entry stays, or gives way in the bin of `k` to an entry of `k`. -/
theorem SlotStep.frame (hstep : SlotStep bin key Evicts k t t') (he : t i = some e)
    (hne : key e ≠ k) :
    t' i = some e ∨ i = bin k ∧ ∃ e', t' i = some e' ∧ key e' = k ∧ Evicts e e' := by
  cases hstep with
  | keep => exact .inl he
  | own slot hfree hslot =>
    have hi : i ≠ bin k := by
      rintro rfl
      exact hne (hfree e he)
    exact .inl (by rwa [Function.update_of_ne hi])
  | evict old e' hold hold_ne hkey hevicts =>
    by_cases hi : i = bin k
    · subst hi
      rw [hold, Option.some.injEq] at he
      subst he
      exact .inr ⟨rfl, e', Function.update_self _ _ _, hkey, hevicts⟩
    · exact .inl (by rwa [Function.update_of_ne hi])

/-- No entry of another key appears. -/
theorem SlotStep.back (hstep : SlotStep bin key Evicts k t t') (he : t' i = some e)
    (hne : key e ≠ k) : t i = some e := by
  cases hstep with
  | keep => exact he
  | own slot hfree hslot =>
    by_cases hi : i = bin k
    · rw [hi, Function.update_self] at he
      exact absurd (hslot e he) hne
    · rwa [Function.update_of_ne hi] at he
  | evict old e' hold hold_ne hkey hevicts =>
    by_cases hi : i = bin k
    · rw [hi, Function.update_self, Option.some.injEq] at he
      exact absurd (he ▸ hkey) hne
    · rwa [Function.update_of_ne hi] at he

/-- What gives way to entries that are no less leaves no less in the bin. -/
theorem SlotStep.exists_le {L : Type*} [Preorder L] {level : E → L}
    (hlevel : ∀ e e', Evicts e e' → level e ≤ level e') (hstep : SlotStep bin key Evicts k t t')
    (he : t i = some e) (hne : key e ≠ k) : ∃ e', t' i = some e' ∧ level e ≤ level e' := by
  rcases hstep.frame he hne with hsame | ⟨-, e', he', -, hevicts⟩
  · exact ⟨e, hsame, le_rfl⟩
  · exact ⟨e', he', hlevel e e' hevicts⟩

/-- An entry that gave way to one of another key gave way to one of `k`. -/
theorem SlotStep.evicts {e' : E} (hstep : SlotStep bin key Evicts k t t') (he : t i = some e)
    (he' : t' i = some e') (hne : key e' ≠ key e) : Evicts e e' := by
  by_cases hk : key e = k
  · -- an entry of another key in its place would be new
    have hback := hstep.back he' (hk ▸ hne)
    rw [he, Option.some.injEq] at hback
    exact absurd (congrArg key hback).symm hne
  · rcases hstep.frame he hk with hsame | ⟨-, e'', he'', -, hevicts⟩
    · rw [he', Option.some.injEq] at hsame
      exact absurd (congrArg key hsame) hne
    · rw [he', Option.some.injEq] at he''
      exact he'' ▸ hevicts

end SlotStep

/-! ## What is stored -/

/-- The entries of the `n` bins from `a` on. -/
def contents (t : ℕ → Option E) (a n : ℕ) : List E := (List.range' a n).filterMap t

section contents
variable {t : ℕ → Option E} {a n : ℕ} {e : E}

theorem contents_succ_none (h : t a = none) : contents t a (n + 1) = contents t (a + 1) n := by
  rw [contents, List.range'_succ, List.filterMap_cons_none h, contents]

theorem contents_succ_some (h : t a = some e) :
    contents t a (n + 1) = e :: contents t (a + 1) n := by
  rw [contents, List.range'_succ, List.filterMap_cons_some h, contents]

theorem mem_contents : e ∈ contents t 0 n ↔ ∃ i < n, t i = some e := by
  simp [contents, List.mem_range']

theorem Placed.nodup_contents {bin : K → ℕ} {key : E → K} (h : Placed bin key t) :
    (contents t a n).Nodup := by
  refine List.Nodup.filterMap (fun i j e hi hj => ?_) List.nodup_range'
  rw [← h i e hi, ← h j e hj]

end contents

end CMTestbed.Lib
