import Mathlib.Data.List.Perm.Basic
import Mathlib.Data.List.Lattice

/-!
# Merging blocks of records

The records are merged one after the other, but an entry is made only by a record that `wakes` it:
what comes before is dropped.  A block is a list of records, and the blocks may come in any order.
If merging does not depend on the order of the records, the order of the blocks matters only in
what is dropped: the head of the block that wakes the entry, and the blocks before it
(`merge_perm_iff`).
-/

namespace CMTestbed.Lib

variable {R V : Type*} (wakes : R → Bool) (first : R → V) (later : V → R → V)

def mergeStep : Option V → R → Option V
  | none, r => if wakes r then some (first r) else none
  | some v, r => some (later v r)

/-- The entry made by a list of records. -/
def merge (rs : List R) : Option V := rs.foldl (mergeStep wakes first later) none

/-- The records that are merged when `b` is the first block to wake the entry, the blocks that do
not wake it left out. -/
def kept (b : List R) (others : List (List R)) : List R :=
  b.dropWhile (fun r => !wakes r) ++ (others.filter (·.any wakes)).flatten

variable {wakes first later}

theorem foldl_mergeStep_some (v : V) (rs : List R) :
    rs.foldl (mergeStep wakes first later) (some v) = some (rs.foldl later v) := by
  induction rs generalizing v with
  | nil => rfl
  | cons r rs ih => exact ih (later v r)

theorem merge_append (rs rs' : List R) :
    merge wakes first later (rs ++ rs')
      = rs'.foldl (mergeStep wakes first later) (merge wakes first later rs) :=
  List.foldl_append

theorem merge_dropWhile (rs : List R) :
    merge wakes first later (rs.dropWhile fun r => !wakes r) = merge wakes first later rs := by
  induction rs with
  | nil => rfl
  | cons r rs ih =>
    by_cases hr : wakes r
    · rw [List.dropWhile_cons_of_neg (by simp [hr])]
    · rw [List.dropWhile_cons_of_pos (by simp [hr]), ih]
      simp [merge, mergeStep, hr]

theorem merge_eq_none {rs : List R} : merge wakes first later rs = none ↔ rs.any wakes = false := by
  induction rs with
  | nil => exact iff_of_true rfl rfl
  | cons r rs ih =>
    rw [List.any_cons]
    by_cases hr : wakes r
    · rw [merge, List.foldl_cons, mergeStep, if_pos hr, foldl_mergeStep_some]
      simp [hr]
    · rw [Bool.eq_false_iff.2 hr, Bool.false_or, ← ih, merge, List.foldl_cons, mergeStep,
        if_neg hr]
      rfl

/-- Records that do not wake an entry add nothing before there is one. -/
theorem merge_append_of_none {rs : List R} (h : rs.any wakes = false) (rs' : List R) :
    merge wakes first later (rs ++ rs') = merge wakes first later rs' := by
  rw [merge_append, merge_eq_none.2 h, merge]

theorem merge_kept (b : List R) (bs : List (List R)) :
    merge wakes first later (kept wakes b bs)
      = merge wakes first later (b :: bs.filter (·.any wakes)).flatten := by
  rw [kept, merge_append, merge_dropWhile, List.flatten_cons, merge_append]

/-- The block that makes the entry, from the record that does. -/
theorem exists_kept_eq {b : List R} (h : b.any wakes = true) (bs : List (List R)) :
    ∃ r rs, kept wakes b bs = r :: rs ∧ wakes r = true := by
  induction b with
  | nil => cases h
  | cons r b ih =>
    by_cases hr : wakes r = true
    · refine ⟨r, b ++ (bs.filter (·.any wakes)).flatten, ?_, hr⟩
      rw [kept, List.dropWhile_cons_of_neg (by simp [hr]), List.cons_append]
    · obtain ⟨r', rs, hk, hr'⟩ := ih (by simpa [hr] using h)
      refine ⟨r', rs, ?_, hr'⟩
      rwa [kept, List.dropWhile_cons_of_pos (by simp [hr])]

variable (first later) in
/-- The blocks that do not wake the entry, put before the others, are dropped. -/
theorem merge_quiet_append {quiet : List (List R)} (h : ∀ c ∈ quiet, c.any wakes = false)
    (bs : List (List R)) :
    merge wakes first later (quiet ++ bs).flatten = merge wakes first later bs.flatten := by
  rw [List.flatten_append, merge_append_of_none]
  rw [List.any_flatten]
  exact List.any_eq_false.2 fun c hc => by rw [h c hc]; exact Bool.false_ne_true

theorem foldl_mergeStep_quiet {o : Option V} {bs : List (List R)}
    (h : ∀ c ∈ bs, c.foldl (mergeStep wakes first later) o = o) :
    bs.flatten.foldl (mergeStep wakes first later) o = o := by
  induction bs with
  | nil => rfl
  | cons c bs ih =>
    rw [List.forall_mem_cons] at h
    rw [List.flatten_cons, List.foldl_append, h.1, ih h.2]

/-- The first block that wakes the entry. -/
theorem exists_first_waking {bs : List (List R)} (h : ∃ b ∈ bs, b.any wakes = true) :
    ∃ A b B, bs = A ++ b :: B ∧ (∀ c ∈ A, c.any wakes = false) ∧ b.any wakes = true := by
  induction bs with
  | nil =>
    obtain ⟨b, hb, -⟩ := h
    cases hb
  | cons c bs ih =>
    by_cases hc : c.any wakes = true
    · exact ⟨[], c, bs, rfl, List.forall_mem_nil _, hc⟩
    · obtain ⟨b, hb, hw⟩ := h
      obtain rfl | hb := List.mem_cons.1 hb
      · exact absurd hw hc
      · obtain ⟨A, b, B, rfl, hA, hb⟩ := ih ⟨b, hb, hw⟩
        exact ⟨c :: A, b, B, rfl, List.forall_mem_cons.2 ⟨Bool.eq_false_iff.2 hc, hA⟩, hb⟩

section Order

variable [RightCommutative later]

theorem foldl_mergeStep_perm {o : Option V} (ho : o ≠ none) {rs rs' : List R} (h : rs.Perm rs') :
    rs.foldl (mergeStep wakes first later) o = rs'.foldl (mergeStep wakes first later) o := by
  obtain ⟨v, rfl⟩ := Option.ne_none_iff_exists'.1 ho
  rw [foldl_mergeStep_some, foldl_mergeStep_some, h.foldl_eq]

/-- After a block that wakes the entry, the order of the others does not matter. -/
theorem merge_flatten_cons_perm {b : List R} {bs bs' : List (List R)} (hb : b.any wakes = true)
    (h : bs.Perm bs') :
    merge wakes first later (b :: bs).flatten = merge wakes first later (b :: bs').flatten := by
  rw [List.flatten_cons, List.flatten_cons, merge_append, merge_append]
  refine foldl_mergeStep_perm (fun hn => ?_) h.flatten
  rw [merge_eq_none.1 hn] at hb
  cases hb

variable [DecidableEq R]

/-- In any order, the entry is what the first waking block and the other waking ones make of it,
with the records of the blocks after it that do not wake an entry. -/
theorem merge_of_first {bs A B : List (List R)} {b : List R} (h : (A ++ b :: B).Perm bs)
    (hA : ∀ c ∈ A, c.any wakes = false) (hb : b.any wakes = true) :
    merge wakes first later (A ++ b :: B).flatten
      = (B.filter fun c => !c.any wakes).flatten.foldl (mergeStep wakes first later)
          (merge wakes first later (kept wakes b (bs.erase b))) := by
  have hsplit : B.Perm (B.filter (·.any wakes) ++ B.filter fun c => !c.any wakes) :=
    (List.filter_append_perm _ B).symm
  have hrest : (B.filter (·.any wakes)).Perm ((bs.erase b).filter (·.any wakes)) := by
    have hAB : (A ++ B).Perm (bs.erase b) := by
      have := (List.perm_middle.symm.trans h).erase b
      rwa [List.erase_cons_head] at this
    have hAnil : A.filter (·.any wakes) = [] :=
      List.filter_eq_nil_iff.2 fun c hc => by rw [hA c hc]; exact Bool.false_ne_true
    have := hAB.filter (·.any wakes)
    rwa [List.filter_append, hAnil, List.nil_append] at this
  rw [merge_quiet_append first later hA, merge_flatten_cons_perm hb hsplit, ← List.cons_append,
    List.flatten_append, merge_append, merge_flatten_cons_perm hb hrest, ← merge_kept]

variable (wakes first later) in
/-- Whichever waking block comes first, the waking ones make the same entry, and the others add
nothing to it. -/
def OrderFree (bs : List (List R)) : Prop :=
  ∀ b ∈ bs, b.any wakes = true →
    (∀ c ∈ bs, c.any wakes = true → merge wakes first later (kept wakes b (bs.erase b))
      = merge wakes first later (kept wakes c (bs.erase c)))
    ∧ ∀ c ∈ bs, c.any wakes = false →
      c.foldl (mergeStep wakes first later) (merge wakes first later (kept wakes b (bs.erase b)))
        = merge wakes first later (kept wakes b (bs.erase b))

theorem OrderFree.merge_eq {bs bs' : List (List R)} (h : OrderFree wakes first later bs)
    (hp : bs'.Perm bs) {b : List R} (hb : b ∈ bs) (hw : b.any wakes = true) :
    merge wakes first later bs'.flatten
      = merge wakes first later (kept wakes b (bs.erase b)) := by
  obtain ⟨A, c, B, rfl, hA, hc⟩ := exists_first_waking ⟨b, hp.mem_iff.2 hb, hw⟩
  have hmem : ∀ d ∈ c :: B, d ∈ bs := fun d hd => hp.mem_iff.1 (List.mem_append_right A hd)
  obtain ⟨hall, hquiet⟩ := h c (hmem c List.mem_cons_self) hc
  rw [merge_of_first hp hA hc, foldl_mergeStep_quiet, hall b hb hw]
  intro d hd
  rw [List.mem_filter, Bool.not_eq_true'] at hd
  exact hquiet d (hmem d (List.mem_cons_of_mem c hd.1)) hd.2

variable (first later) in
/-- An order in which `b` comes first of the waking blocks, and some quiet ones come last. -/
theorem merge_bringing_first {bs rest last : List (List R)} {b : List R}
    (h : (b :: (rest ++ last)).Perm bs) (hw : b.any wakes = true)
    (hlast : ∀ c ∈ last, c.any wakes = false) :
    ∃ bs' : List (List R), bs'.Perm bs ∧ merge wakes first later bs'.flatten
      = last.flatten.foldl (mergeStep wakes first later)
          (merge wakes first later (kept wakes b (bs.erase b))) := by
  have hrest := List.filter_append_perm (fun c => !c.any wakes) rest
  simp only [Bool.not_not] at hrest
  have hp : (rest.filter (fun c => !c.any wakes) ++ b :: (rest.filter (·.any wakes) ++ last)).Perm
      bs := by
    refine (List.perm_middle.trans (List.Perm.cons b ?_)).trans h
    rw [← List.append_assoc]
    exact hrest.append_right last
  refine ⟨_, hp, ?_⟩
  have hnil : (rest.filter (·.any wakes)).filter (fun c => !c.any wakes) = [] := by
    simp
  have hself : last.filter (fun c => !c.any wakes) = last :=
    List.filter_eq_self.2 fun c hc => by simp [hlast c hc]
  rw [merge_of_first hp (fun c hc => by simpa using (List.mem_filter.1 hc).2) hw,
    List.filter_append, hnil, hself, List.nil_append]

theorem merge_perm_iff (bs : List (List R)) :
    (∀ bs' : List (List R), bs'.Perm bs →
        merge wakes first later bs'.flatten = merge wakes first later bs.flatten)
      ↔ OrderFree wakes first later bs := by
  constructor
  · intro h b hb hw
    have hfirst : ∀ b ∈ bs, b.any wakes = true → merge wakes first later bs.flatten
        = merge wakes first later (kept wakes b (bs.erase b)) := by
      intro b hb hw
      have hp : (b :: (bs.erase b ++ [])).Perm bs := by
        rw [List.append_nil]
        exact (List.perm_cons_erase hb).symm
      obtain ⟨bs', hp', he⟩ := merge_bringing_first first later hp hw
        (List.forall_mem_nil _)
      rw [← h bs' hp', he]
      rfl
    refine ⟨fun c hc hwc => (hfirst b hb hw).symm.trans (hfirst c hc hwc), fun c hc hq => ?_⟩
    have hcb : c ∈ bs.erase b := by
      refine (List.mem_erase_of_ne fun hbc => ?_).2 hc
      rw [hbc, hw] at hq
      cases hq
    have hp : (b :: ((bs.erase b).erase c ++ [c])).Perm bs := by
      refine (List.Perm.cons b ?_).trans (List.perm_cons_erase hb).symm
      exact (List.perm_append_singleton c _).trans (List.perm_cons_erase hcb).symm
    obtain ⟨bs', hp', he⟩ := merge_bringing_first first later hp hw
      (List.forall_mem_singleton.2 hq)
    rw [List.flatten_singleton] at he
    rw [← he, h bs' hp', hfirst b hb hw]
  · intro h bs' hp
    by_cases hw : ∃ b ∈ bs, b.any wakes = true
    · obtain ⟨b, hb, hw⟩ := hw
      rw [h.merge_eq hp hb hw, h.merge_eq (.refl bs) hb hw]
    · -- no block wakes the entry
      have hquiet : ∀ c ∈ bs, c.any wakes = false := fun c hc =>
        Bool.eq_false_iff.2 fun hwc => hw ⟨c, hc, hwc⟩
      have hnone := merge_quiet_append first later hquiet []
      have hnone' := merge_quiet_append first later
        (fun c hc => hquiet c (hp.mem_iff.1 hc)) []
      rw [List.append_nil] at hnone hnone'
      rw [hnone, hnone']

end Order

end CMTestbed.Lib
