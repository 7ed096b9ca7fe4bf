import CMTestbed.Proofs.Priority
import Mathlib.Algebra.BigOperators.Group.Finset.Basic
import Mathlib.Algebra.BigOperators.Group.Finset.Piecewise
import Mathlib.Algebra.Order.BigOperators.Group.Finset
import Mathlib.Data.List.Induction

/-!
# What an entry of the fixed-size table has counted

An entry's value and level come from the operations for its key since the entry was installed.
-/

namespace CMTestbed

namespace FixSizeOp

/-- What the operation may add to its key's value. -/
def delta : FixSizeOp → UInt32
  | addValue _ deltaValue | addValueAndUpdateSelectedLevelInfo _ deltaValue _ => deltaValue
  | setSelectedLevel _ _ | del _ | refresh => 0

def deltaFor (key : FlowSrc) (op : FixSizeOp) : UInt32 := if op.key? = some key then op.delta else 0

def levelFor (key : FlowSrc) (op : FixSizeOp) : Option ℤ :=
  if op.key? = some key then op.level? else none

end FixSizeOp

open FixSizeOp

section Lookups

variable {replacement : Bool} {hashtable : HtKfsFixSize} {key : FlowSrc} {next e : EntryKfsFixSize}

theorem htKfsFixSizeGet_eq_some : htKfsFixSizeGet hashtable key = some e ↔
    hashtable.table (hashtable.bin key) = some e ∧ e.key = key := by
  unfold htKfsFixSizeGet
  split
  · next pair hpair =>
    rw [hpair]
    split_ifs with hkey
    · rw [Ne, flowSrcCompare_eq_zero] at hkey
      refine iff_of_false not_false fun h => hkey ?_
      rw [Option.some.injEq] at h
      rw [h.1, h.2]
    · rw [not_not, flowSrcCompare_eq_zero] at hkey
      refine ⟨fun h => ⟨h, ?_⟩, And.left⟩
      rw [← Option.some.inj h, hkey]
  · next hnone => simp [hnone]

theorem get_of_own (hnext : hashtable.table (hashtable.bin key) = some next)
    (hkey : flowSrcCompare key next.key = 0) : htKfsFixSizeGet hashtable key = some next :=
  htKfsFixSizeGet_eq_some.2 ⟨hnext, (flowSrcCompare_eq_zero.1 hkey).symm⟩

theorem get_of_other (hnext : hashtable.table (hashtable.bin key) = some next)
    (hkey : ¬ flowSrcCompare key next.key = 0) : htKfsFixSizeGet hashtable key = none := by
  rw [htKfsFixSizeGet, hnext]
  exact if_pos hkey

theorem get_of_empty (hempty : hashtable.table (hashtable.bin key) = none) :
    htKfsFixSizeGet hashtable key = none := by
  rw [htKfsFixSizeGet, hempty]

theorem get_setBin {pair : Option EntryKfsFixSize}
    (h : htKfsFixSizeGet (hashtable.setBin key pair) key = some e) : pair = some e := by
  have htable : Function.update hashtable.table (hashtable.bin key) pair (hashtable.bin key)
      = some e := (htKfsFixSizeGet_eq_some.1 h).1
  rwa [Function.update_self] at htable

/-- The value and the level that the key had, 0 if it had no entry. -/
def oldValue (hashtable : HtKfsFixSize) (key : FlowSrc) : UInt32 :=
  (htKfsFixSizeGet hashtable key).elim 0 EntryKfsFixSize.value

def oldLevel (hashtable : HtKfsFixSize) (key : FlowSrc) : ℤ :=
  (htKfsFixSizeGet hashtable key).elim 0 EntryKfsFixSize.selectedLevel

/-- What is found after an operation for the key. -/
structure Counted (hashtable : HtKfsFixSize) (key : FlowSrc) (delta : UInt32) (level? : Option ℤ)
    (e : EntryKfsFixSize) : Prop where
  value : e.value = oldValue hashtable key + delta
  level : e.selectedLevel = level?.getD (oldLevel hashtable key)

theorem counted_own {delta : UInt32} {level? : Option ℤ}
    (hold : htKfsFixSizeGet hashtable key = some next) (hvalue : e.value = next.value + delta)
    (hlevel : e.selectedLevel = level?.getD next.selectedLevel) :
    Counted hashtable key delta level? e := by
  refine ⟨?_, ?_⟩
  · rw [oldValue, hold, hvalue]
    rfl
  · rw [oldLevel, hold, hlevel]
    rfl

theorem counted_new {delta : UInt32} {level? : Option ℤ}
    (hold : htKfsFixSizeGet hashtable key = none) (hvalue : e.value = delta)
    (hlevel : e.selectedLevel = level?.getD 0) : Counted hashtable key delta level? e := by
  refine ⟨?_, ?_⟩
  · rw [oldValue, hold, hvalue]
    exact (UInt32.zero_add _).symm
  · rw [oldLevel, hold, hlevel]
    rfl

theorem counted_addValue {deltaValue : UInt32}
    (h : htKfsFixSizeGet (htKfsFixSizeAddValue hashtable key deltaValue) key = some e) :
    Counted hashtable key deltaValue none e := by
  unfold htKfsFixSizeAddValue at h
  split at h
  · next next hnext =>
    split_ifs at h with hkey
    · have he := Option.some.inj (get_setBin h)
      exact counted_own (get_of_own hnext hkey) (by rw [← he]) (by rw [← he]; rfl)
    · exact absurd ((get_of_other hnext hkey).symm.trans h) (by simp)
  · next hempty =>
    have he := Option.some.inj (get_setBin h)
    exact counted_new (get_of_empty hempty) (by rw [← he]) (by rw [← he]; rfl)

theorem counted_addValueAndUpdate {deltaValue : UInt32} {selectedLevel : ℤ}
    (h : htKfsFixSizeGet (htKfsFixSizeAddValueAndUpdateSelectedLevelInfo replacement hashtable key
      deltaValue selectedLevel) key = some e) :
    Counted hashtable key deltaValue (some selectedLevel) e := by
  unfold htKfsFixSizeAddValueAndUpdateSelectedLevelInfo at h
  split at h
  · next next hnext =>
    split_ifs at h with hkey hreplacement hlevel
    · have he := Option.some.inj (get_setBin h)
      exact counted_own (get_of_own hnext hkey) (by rw [← he]) (by rw [← he]; rfl)
    · exact absurd ((get_of_other hnext hkey).symm.trans h) (by simp)
    · have he := Option.some.inj (get_setBin h)
      exact counted_new (get_of_other hnext hkey) (by rw [← he]; rfl) (by rw [← he]; rfl)
    · exact absurd ((get_of_other hnext hkey).symm.trans h) (by simp)
  · next hempty =>
    have he := Option.some.inj (get_setBin h)
    exact counted_new (get_of_empty hempty) (by rw [← he]; rfl) (by rw [← he]; rfl)

theorem counted_setSelectedLevel {selectedLevel : ℤ}
    (h : htKfsFixSizeGet (htKfsFixSizeSetSelectedLevel replacement hashtable key selectedLevel) key
      = some e) : Counted hashtable key 0 (some selectedLevel) e := by
  unfold htKfsFixSizeSetSelectedLevel at h
  split at h
  · next next hnext =>
    split_ifs at h with hkey hzero hreplacement hkeeps hlevel
    · have he := Option.some.inj (get_setBin h)
      exact counted_own (get_of_own hnext hkey) (by rw [← he, UInt32.add_zero]) (by rw [← he]; rfl)
    · exact absurd ((get_of_other hnext hkey).symm.trans h) (by simp)
    · exact absurd ((get_of_other hnext hkey).symm.trans h) (by simp)
    · have he := Option.some.inj (get_setBin h)
      exact counted_new (get_of_other hnext hkey) (by rw [← he]; rfl) (by rw [← he]; rfl)
    · exact absurd ((get_of_other hnext hkey).symm.trans h) (by simp)
    · exact absurd ((get_of_other hnext hkey).symm.trans h) (by simp)
  · next hempty =>
    split_ifs at h
    · have he := Option.some.inj (get_setBin h)
      exact counted_new (get_of_empty hempty) (by rw [← he]; rfl) (by rw [← he]; rfl)
    · exact absurd ((get_of_empty hempty).symm.trans h) (by simp)

/-- No entry is found after the key was deleted. -/
theorem get_del_self : htKfsFixSizeGet (htKfsFixSizeDel hashtable key) key = none := by
  unfold htKfsFixSizeDel
  split
  · next next hnext =>
    split_ifs with hkey
    · exact get_of_empty (Function.update_self _ _ _)
    · exact get_of_other hnext hkey
  · next hempty => exact get_of_empty hempty

/-- An operation that is not for the key leaves what is found, or nothing is found. -/
theorem get_exec_of_ne {op : FixSizeOp} (hop : op.key? ≠ some key)
    (h : htKfsFixSizeGet (op.exec replacement hashtable) key = some e) :
    htKfsFixSizeGet hashtable key = some e := by
  obtain ⟨htable, hkey⟩ := htKfsFixSizeGet_eq_some.1 h
  rw [bin_exec] at htable
  refine htKfsFixSizeGet_eq_some.2 ⟨?_, hkey⟩
  cases hk : op.key? with
  | none =>
    cases op <;> cases hk
    exact table_refresh htable
  | some k =>
    refine (step_exec hk).back htable fun h => hop ?_
    rw [hk, ← h, hkey]

theorem counted_exec {op : FixSizeOp}
    (h : htKfsFixSizeGet (op.exec replacement hashtable) key = some e) :
    Counted hashtable key (op.deltaFor key) (op.levelFor key) e := by
  by_cases hop : op.key? = some key
  · rw [deltaFor, if_pos hop, levelFor, if_pos hop]
    cases op with
    | addValue k deltaValue =>
      cases hop
      exact counted_addValue h
    | addValueAndUpdateSelectedLevelInfo k deltaValue selectedLevel =>
      cases hop
      exact counted_addValueAndUpdate h
    | setSelectedLevel k selectedLevel =>
      cases hop
      exact counted_setSelectedLevel h
    | del k =>
      cases hop
      exact absurd (get_del_self.symm.trans h) (by simp)
    | refresh => cases hop
  · rw [deltaFor, if_neg hop, levelFor, if_neg hop]
    exact counted_own (get_exec_of_ne hop h) (UInt32.add_zero _).symm rfl

end Lookups

/-! ## Since the entry was installed -/

/-- The table after the operations. -/
def FixSizeOp.run (replacement : Bool) (size : UInt32) (ops : List FixSizeOp) : HtKfsFixSize :=
  ops.foldl (FixSizeOp.exec replacement) (htKfsFixSizeCreate size)

/-- The key's present entry was installed by the first of the operations `since`, and those before
it were `pre`. -/
structure InstalledAfter (replacement : Bool) (size : UInt32) (key : FlowSrc)
    (pre since : List FixSizeOp) : Prop where
  absent : htKfsFixSizeGet (run replacement size pre) key = none
  present : ∀ mid, mid <+: since → mid ≠ [] →
    (htKfsFixSizeGet (run replacement size (pre ++ mid)) key).isSome

/-- The level of the last operation for the key that carries one, 0 if there is none. -/
def lastLevel (key : FlowSrc) (ops : List FixSizeOp) : ℤ :=
  ((ops.filterMap (levelFor key)).getLast?).getD 0

/-- What the deltas for the key add up to. -/
def sumFor (key : FlowSrc) (ops : List FixSizeOp) : ℕ :=
  (ops.map fun op => (op.deltaFor key).toNat).sum

section Runs

variable {replacement : Bool} {size : UInt32} {key : FlowSrc}

theorem run_append (ops : List FixSizeOp) (op : FixSizeOp) :
    run replacement size (ops ++ [op]) = op.exec replacement (run replacement size ops) := by
  rw [run, List.foldl_append]
  rfl

theorem lastLevel_append (ops : List FixSizeOp) (op : FixSizeOp) :
    lastLevel key (ops ++ [op]) = (op.levelFor key).getD (lastLevel key ops) := by
  rw [lastLevel, List.filterMap_append]
  cases h : op.levelFor key <;> simp [lastLevel, h]

theorem sumFor_append (ops : List FixSizeOp) (op : FixSizeOp) :
    sumFor key (ops ++ [op]) = sumFor key ops + (op.deltaFor key).toNat := by
  simp [sumFor]

/-- What the entry that is found has counted. -/
structure CountedSince (replacement : Bool) (size : UInt32) (key : FlowSrc)
    (ops : List FixSizeOp) (e : EntryKfsFixSize) (pre since : List FixSizeOp) : Prop where
  split : ops = pre ++ since
  installed : InstalledAfter replacement size key pre since
  value : e.value.toNat = sumFor key since % 2 ^ 32
  level : e.selectedLevel = lastLevel key since

theorem exists_countedSince {ops : List FixSizeOp} {e : EntryKfsFixSize}
    (h : htKfsFixSizeGet (run replacement size ops) key = some e) :
    ∃ pre since, CountedSince replacement size key ops e pre since := by
  induction ops using List.reverseRecOn generalizing e with
  | nil => cases h
  | append_singleton ops op ih =>
    have hcounted := counted_exec (run_append ops op ▸ h)
    cases hold : htKfsFixSizeGet (run replacement size ops) key with
    | none =>
      have hvalue := hcounted.value
      have hlevel := hcounted.level
      rw [oldValue, hold, Option.elim_none, UInt32.zero_add] at hvalue
      rw [oldLevel, hold, Option.elim_none] at hlevel
      refine ⟨ops, [op], rfl, ⟨hold, fun mid hmid hne => ?_⟩, ?_, ?_⟩
      · obtain ⟨t, rfl, ht⟩ := (List.prefix_cons_iff.1 hmid).resolve_left hne
        rw [List.prefix_nil.1 ht, h]
        rfl
      · rw [hvalue, sumFor, List.map_singleton, List.sum_singleton,
          Nat.mod_eq_of_lt (op.deltaFor key).toNat_lt]
      · rw [hlevel, ← List.nil_append [op], lastLevel_append]
        rfl
    | some old =>
      have hvalue := hcounted.value
      have hlevel := hcounted.level
      rw [oldValue, hold, Option.elim_some] at hvalue
      rw [oldLevel, hold, Option.elim_some] at hlevel
      obtain ⟨pre, since, rfl, ⟨habsent, hpresent⟩, hsum, hlast⟩ := ih hold
      refine ⟨pre, since ++ [op], List.append_assoc _ _ _, ⟨habsent, fun mid hmid hne => ?_⟩,
        ?_, ?_⟩
      · obtain hmid | rfl := (List.prefix_concat_iff.1 hmid).symm
        · exact hpresent mid hmid hne
        · rw [← List.append_assoc, h]
          rfl
      · rw [hvalue, UInt32.toNat_add, sumFor_append, hsum]
        omega
      · rw [hlevel, lastLevel_append, hlast]

end Runs

/-! ## The sum of the values -/

/-- The value in a bin, 0 if it is empty. -/
def HtKfsFixSize.binValue (hashtable : HtKfsFixSize) (i : ℕ) : ℕ :=
  (hashtable.table i).elim 0 fun pair => pair.value.toNat

/-- The sum of the values in the table's bins. -/
def HtKfsFixSize.totalValue (hashtable : HtKfsFixSize) : ℕ :=
  ∑ i ∈ Finset.range hashtable.size.toNat, hashtable.binValue i

/-- The operations since the table was last cleared. -/
def sinceRefresh (ops : List FixSizeOp) : List FixSizeOp :=
  (ops.reverse.takeWhile fun op => op ≠ .refresh).reverse

section Total

variable {replacement : Bool} {hashtable : HtKfsFixSize}

theorem oldValue_le (key : FlowSrc) :
    (oldValue hashtable key).toNat ≤ hashtable.binValue (hashtable.bin key) := by
  rw [oldValue]
  cases h : htKfsFixSizeGet hashtable key with
  | none => exact Nat.zero_le _
  | some pair =>
    rw [HtKfsFixSize.binValue, (htKfsFixSizeGet_eq_some.1 h).1]
    rfl

/-- The bin of the operation's key gains the delta at most. -/
theorem binValue_exec_le {op : FixSizeOp} {key : FlowSrc} (hop : op.key? = some key) :
    (op.exec replacement hashtable).binValue (hashtable.bin key)
      ≤ hashtable.binValue (hashtable.bin key) + op.delta.toNat := by
  rw [HtKfsFixSize.binValue]
  cases htable : (op.exec replacement hashtable).table (hashtable.bin key) with
  | none => exact Nat.zero_le _
  | some e =>
    rw [Option.elim_some]
    by_cases hkey : e.key = key
    · have hget : htKfsFixSizeGet (op.exec replacement hashtable) key = some e :=
        htKfsFixSizeGet_eq_some.2 ⟨by rw [bin_exec, htable], hkey⟩
      have hvalue := (counted_exec hget).value
      have hle : (oldValue hashtable key).toNat ≤ _ := oldValue_le key
      rw [deltaFor, if_pos hop] at hvalue
      rw [hvalue, UInt32.toNat_add]
      have hmod := Nat.mod_le ((oldValue hashtable key).toNat + op.delta.toNat) (2 ^ 32)
      omega
    · rw [HtKfsFixSize.binValue, (step_exec hop).back htable hkey]
      exact Nat.le_add_right _ _

theorem totalValue_refresh : (htKfsFixSizeRefresh hashtable).totalValue = 0 := by
  refine Finset.sum_eq_zero fun i hi => ?_
  have hbin : (htKfsFixSizeRefresh hashtable).table i = none := if_pos (Finset.mem_range.1 hi)
  rw [HtKfsFixSize.binValue, hbin]
  rfl

theorem totalValue_exec_le (op : FixSizeOp) :
    (op.exec replacement hashtable).totalValue ≤ hashtable.totalValue + op.delta.toNat := by
  cases hop : op.key? with
  | none =>
    cases op <;> cases hop
    exact totalValue_refresh.le.trans (Nat.zero_le _)
  | some key =>
    have hbin : ∀ i, (op.exec replacement hashtable).binValue i ≤ hashtable.binValue i
        + if i = hashtable.bin key then op.delta.toNat else 0 := by
      intro i
      split_ifs with hi
      · exact hi ▸ binValue_exec_le hop
      · rw [HtKfsFixSize.binValue, (step_exec hop).eq_of_ne hi]
        exact Nat.le_add_right _ _
    rw [HtKfsFixSize.totalValue, size_exec]
    refine (Finset.sum_le_sum fun i _ => hbin i).trans ?_
    rw [Finset.sum_add_distrib, Finset.sum_ite_eq']
    refine Nat.add_le_add_left ?_ _
    split_ifs
    · exact le_rfl
    · exact Nat.zero_le _

theorem sinceRefresh_append (ops : List FixSizeOp) (op : FixSizeOp) :
    sinceRefresh (ops ++ [op]) = if op = .refresh then [] else sinceRefresh ops ++ [op] := by
  rw [sinceRefresh, List.reverse_append, List.reverse_singleton, List.singleton_append,
    List.takeWhile_cons]
  split_ifs <;> simp_all [sinceRefresh]

theorem totalValue_run_le (size : UInt32) (ops : List FixSizeOp) :
    (run replacement size ops).totalValue
      ≤ ((sinceRefresh ops).map fun op => op.delta.toNat).sum := by
  induction ops using List.reverseRecOn with
  | nil => simp [run, HtKfsFixSize.totalValue, HtKfsFixSize.binValue, htKfsFixSizeCreate]
  | append_singleton ops op ih =>
    rw [run_append, sinceRefresh_append]
    split_ifs with hop
    · subst hop
      exact totalValue_refresh.le
    · have hle : (op.exec replacement (run replacement size ops)).totalValue ≤ _ :=
        totalValue_exec_le op
      rw [List.map_append, List.sum_append, List.map_singleton, List.sum_singleton]
      omega

end Total

/-- Captured volume is exact since installation: in every state that any operations lead to, an
entry that is found has the value and the level that the operations for its key give it since it
was installed, and the values do not add up to more than the deltas since the last refresh. -/
theorem captured_since_installed (replacement : Bool) (size : UInt32) (ops : List FixSizeOp) :
    (∀ key e, htKfsFixSizeGet (run replacement size ops) key = some e →
      ∃ pre since, CountedSince replacement size key ops e pre since)
    ∧ (run replacement size ops).totalValue
      ≤ ((sinceRefresh ops).map fun op => op.delta.toNat).sum :=
  ⟨fun _ _ h => exists_countedSince h, totalValue_run_le size ops⟩

end CMTestbed
