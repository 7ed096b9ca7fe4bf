import Mathlib.Data.Int.CardIntervalMod

/-!
# Numbering in order of appearance

A list's elements get their numbers in the order in which they first appear.  Dealt out in turn,
no two of `r` hands get numbers of elements that differ by more than one.
-/

namespace CMTestbed.Lib

variable {α : Type*} [DecidableEq α]

/-- An element not seen before comes last. -/
def note (seen : List α) (a : α) : List α := if a ∈ seen then seen else seen ++ [a]

/-- The elements in the order of their first appearance. -/
def firstSeen (as : List α) : List α := as.foldl note []

theorem mem_note {seen : List α} {a b : α} : b ∈ note seen a ↔ b ∈ seen ∨ b = a := by
  unfold note
  split_ifs with h
  · exact ⟨.inl, fun hb => hb.elim id fun he => he ▸ h⟩
  · simp

theorem nodup_note {seen : List α} (h : seen.Nodup) (a : α) : (note seen a).Nodup := by
  unfold note
  split_ifs with ha
  · exact h
  · exact List.nodup_append.2 ⟨h, List.nodup_singleton a, by simp; grind⟩

theorem prefix_note (seen : List α) (a : α) : seen <+: note seen a := by
  unfold note
  split_ifs
  · exact List.prefix_rfl
  · exact List.prefix_append _ _

theorem prefix_foldl_note : ∀ (as seen : List α), seen <+: as.foldl note seen
  | [], _ => List.prefix_rfl
  | a :: as, seen => (prefix_note seen a).trans (prefix_foldl_note as (note seen a))

theorem mem_foldl_note {b : α} : ∀ {as seen : List α},
    b ∈ as.foldl note seen ↔ b ∈ seen ∨ b ∈ as
  | [], seen => by simp
  | a :: as, seen => by
    rw [List.foldl_cons, mem_foldl_note, mem_note, List.mem_cons, or_assoc]

theorem nodup_foldl_note : ∀ (as : List α) {seen : List α}, seen.Nodup →
    (as.foldl note seen).Nodup
  | [], _, h => h
  | a :: as, _, h => nodup_foldl_note as (nodup_note h a)

theorem length_firstSeen (as : List α) : (firstSeen as).length = as.toFinset.card := by
  rw [firstSeen, ← List.toFinset_card_of_nodup (nodup_foldl_note as List.nodup_nil)]
  congr 1
  ext b
  simp [mem_foldl_note]

/-- An element keeps its number. -/
theorem idxOf_of_prefix {l l' : List α} (h : l <+: l') {a : α} (ha : a ∈ l) :
    l'.idxOf a = l.idxOf a := by
  obtain ⟨t, rfl⟩ := h
  exact List.idxOf_append_of_mem ha

/-- Elements with a property of their numbers are as many as the numbers. -/
theorem card_filter_idxOf {l : List α} (h : l.Nodup) (p : ℕ → Prop) [DecidablePred p] :
    (l.toFinset.filter fun a => p (l.idxOf a)).card = l.length.count p := by
  rw [Nat.count_eq_card_filter_range]
  refine Finset.card_bij (fun a _ => l.idxOf a) ?_ ?_ ?_
  · intro a ha
    simp only [Finset.mem_filter, List.mem_toFinset, Finset.mem_range] at ha ⊢
    exact ⟨List.idxOf_lt_length_of_mem ha.1, ha.2⟩
  · intro a ha b _ hab
    simp only [Finset.mem_filter, List.mem_toFinset] at ha
    exact (List.idxOf_inj ha.1).1 hab
  · intro n hn
    simp only [Finset.mem_filter, Finset.mem_range] at hn
    have hidx : l.idxOf l[n] = n := h.idxOf_getElem n hn.1
    refine ⟨l[n], ?_, hidx⟩
    simp [hidx, hn.2]

theorem succ_mod_eq_iff {n r v : ℕ} (hv : v < r) :
    (n + 1) % r = v ↔ n ≡ v + (r - 1) [MOD r] := by
  have hsucc : v + (r - 1) + 1 = v + r := by omega
  rw [← Nat.ModEq.add_iff_right (Nat.ModEq.refl 1), hsucc, Nat.ModEq, Nat.add_mod_right,
    Nat.mod_eq_of_lt hv]

/-- Two hands get the same number of elements, or one of them one more. -/
theorem card_dealt_le {l : List α} (h : l.Nodup) {r v w : ℕ} (hv : v < r) (hw : w < r) :
    (l.toFinset.filter fun a => (l.idxOf a + 1) % r = v).card
      ≤ (l.toFinset.filter fun a => (l.idxOf a + 1) % r = w).card + 1 := by
  have hcount : ∀ u < r, (l.toFinset.filter fun a => (l.idxOf a + 1) % r = u).card
      = l.length / r + if (u + (r - 1)) % r < l.length % r then 1 else 0 := by
    intro u hu
    rw [card_filter_idxOf h fun n => (n + 1) % r = u, ← Nat.count_modEq_card _ (by omega)]
    simp only [succ_mod_eq_iff hu]
  rw [hcount v hv, hcount w hw]
  split_ifs <;> omega

end CMTestbed.Lib
