import CMTestbed.Proofs.FiniteMap

/-!
# Iterating over a table that changes

`ht_kfs_vi_del` moves a cursor that is on the deleted node onto the next one, and `ht_kfs_vi_next`
then goes on behind that node, which it has not returned.  A pass during which no deletion does so
returns every key that stays in the table exactly once.
-/

namespace CMTestbed

/-- What a pass of `ht_kfs_vi_next` should give its caller: each key in the table throughout is
returned exactly once, what is returned is in the table at that moment, and the next pass starts
from the first bin. -/
structure Iterates (hashtable : HtKfsVi) (cs : List HtKfsViCall) (l : List (FlowSrc × UInt32)) :
    Prop where
  once : ∀ key, hashtable.Stays key cs → (l.map Prod.fst).count key = 1
  present : ∀ cs₁ cs₂ key value, cs = cs₁ ++ .next :: cs₂ →
    (htKfsViNext (hashtable.calls cs₁)).2 = some (key, value) →
      (hashtable.calls cs₁).get key = some value
  restarts : (htKfsViNext (hashtable.calls cs)).1.AtReset

theorem count_key (l : List (FlowSrc × UInt32)) (key : FlowSrc) : (l.map Prod.fst).count key
    = l.countP fun e => decide (flowSrcKeying.rank e.1 = flowSrcKeying.rank key) := by
  rw [List.count, List.countP_map]
  refine List.countP_congr fun e _ => ?_
  simp [flowSrcKeying_rank]

/-! ## Deleting the entry just returned -/

section Skipped

/-- Two flows of one bin. -/
def skipFirst : FlowSrc := ⟨0x0a000001, 0x0b00007c⟩
def skipSecond : FlowSrc := ⟨0x0a000001, 0x0b000110⟩

/-- A table of the two flows. -/
def skipTable : HtKfsVi := htKfsViSet (htKfsViSet htKfsViCreate skipFirst 1) skipSecond 1

theorem skip_bin : flowSrcKeying.bin skipSecond = flowSrcKeying.bin skipFirst := by decide +kernel

theorem skip_rank : flowSrcKeying.rank skipFirst < flowSrcKeying.rank skipSecond := by decide

theorem skip_ne : skipFirst ≠ skipSecond := by decide

theorem skipTable_get (f : FlowSrc) : skipTable.get f
    = if f = skipSecond then some 1 else if f = skipFirst then some 1 else none := by
  rw [skipTable, htKfsViSet, get_set, htKfsViSet, get_set, htKfsViCreate, Lib.Table.get_create]

theorem skipTable_atReset : skipTable.AtReset :=
  (Lib.Table.atReset_create.set skipFirst 1).set skipSecond 1

/-- The pass returns the first of the two flows first. -/
theorem skipTable_next : skipTable.next.2 = some (skipFirst, 1) := by
  obtain ⟨k, hk, hrank⟩ := Lib.Table.next_eq_some (v := 1) (by simp [skipTable_get, skip_ne])
    (Lib.Table.not_passed_of_atReset skipTable_atReset skipFirst) fun f hf _ => by
      rw [skipTable_get] at hf
      split_ifs at hf with hs hf'
      · exact .inr ⟨hs ▸ skip_bin.symm, hs ▸ skip_rank.le⟩
      · exact .inr ⟨hf' ▸ rfl, hf' ▸ le_rfl⟩
      · exact absurd rfl hf
  rw [hk, flowSrcKeying_rank.1 hrank]

/-- Deleting the flow just returned takes the cursor past the other one. -/
theorem skipTable_passed : (htKfsViDel (htKfsViNext skipTable).1 skipFirst).Passed skipSecond := by
  have hsecond : skipTable.get skipSecond ≠ none := by simp [skipTable_get]
  have hskips := Lib.Table.skips_of_next skipTable_next hsecond skip_bin skip_rank
  obtain ⟨k, hk, hnp, hp⟩ := Lib.Table.exists_passed_del hskips
  rw [Lib.Table.get_next, skipTable_get] at hk
  split_ifs at hk with hs hf
  · rwa [hs] at hp
  · subst hf
    obtain ⟨-, -, hbefore, -⟩ := Lib.Table.next_some skipTable_next
    exact absurd ((hbefore skipFirst).2 (.inr ⟨rfl, le_rfl⟩)) hnp
  · exact absurd rfl hk

theorem skipTable_pass : skipTable.Pass [.next, .del skipFirst] [(skipFirst, 1)] where
  reset := skipTable_atReset
  returned := by simp [Lib.Table.returned, skipTable_next]
  last := by
    have hget : ∀ f, (htKfsViDel (htKfsViNext skipTable).1 skipFirst).get f
        = if f = skipFirst then none else skipTable.get f := fun f => by
      rw [htKfsViDel, get_del, htKfsViNext, Lib.Table.get_next]
    change (htKfsViDel (htKfsViNext skipTable).1 skipFirst).next.2 = none
    rcases hn : (htKfsViDel (htKfsViNext skipTable).1 skipFirst).next.2 with _ | ⟨k, v⟩
    · rfl
    · obtain ⟨hk, hnp, -⟩ := Lib.Table.next_some hn
      rw [hget, skipTable_get] at hk
      split_ifs at hk with hf hs
      exact absurd (hs ▸ skipTable_passed) hnp

/-- The second flow stays in the table and is never returned. -/
theorem pass_skips_flow : skipTable.Pass [.next, .del skipFirst] [(skipFirst, 1)]
    ∧ ¬ Iterates skipTable [.next, .del skipFirst] [(skipFirst, 1)] := by
  refine ⟨skipTable_pass, fun h => ?_⟩
  have hget : ∀ f, ((skipTable.apply .next).apply (.del skipFirst)).get f
      = if f = skipFirst then none else skipTable.get f := fun f => by
    rw [Lib.Table.apply, get_del, Lib.Table.apply, Lib.Table.get_next]
  have hstay : skipTable.Stays skipSecond [.next, .del skipFirst] := by
    refine ⟨by simp [skipTable_get], ?_, ?_⟩
    · rw [Lib.Table.apply, Lib.Table.get_next]
      simp [skipTable_get]
    · change ((skipTable.apply .next).apply (.del skipFirst)).get skipSecond ≠ none
      rw [hget, if_neg skip_ne.symm]
      simp [skipTable_get]
  have hcount := h.once skipSecond hstay
  simp [skip_ne] at hcount

end Skipped

/-- A pass during which no deletion takes away the node under the cursor while another follows it
in its bin iterates as it should, whatever else is called meanwhile. -/
theorem iteration_survives_updates (hashtable : HtKfsVi) (cs : List HtKfsViCall)
    (l : List (FlowSrc × UInt32)) (hpass : hashtable.Pass cs l)
    (hskip : hashtable.NoSkips cs) : Iterates hashtable cs l where
  once := fun key hstay => by
    rw [count_key]
    exact hpass.once hskip hstay
  present := fun _ _ _ _ _ h => Lib.Table.get_of_next h
  restarts := by
    rw [HtKfsVi.calls_eq_run]
    exact hpass.atReset

/-- The table after its first flow is returned and set anew. -/
theorem skipTable_set_get (f : FlowSrc) :
    (htKfsViSet (htKfsViNext skipTable).1 skipFirst 7).get f
      = if f = skipFirst then some 7 else skipTable.get f := by
  rw [htKfsViSet, get_set, htKfsViNext, Lib.Table.get_next]

theorem skipTable_set_next :
    (htKfsViSet (htKfsViNext skipTable).1 skipFirst 7).next.2 = some (skipSecond, 1) := by
  obtain ⟨-, -, hbefore, -, honly⟩ := Lib.Table.next_some skipTable_next
  have hsecond : skipTable.get skipSecond ≠ none := by simp [skipTable_get]
  have hnp : ¬ (htKfsViSet (htKfsViNext skipTable).1 skipFirst 7).Passed skipSecond := by
    rw [htKfsViSet, Lib.Table.passed_set]
    intro h
    rcases honly _ hsecond h with h | h
    · exact Lib.Table.not_passed_of_atReset skipTable_atReset _ h
    · exact skip_rank.ne' h
  rcases hn : (htKfsViSet (htKfsViNext skipTable).1 skipFirst 7).next.2 with _ | ⟨k, v⟩
  · refine absurd ((Lib.Table.next_none hn).1 skipSecond ?_) hnp
    rwa [skipTable_set_get, if_neg skip_ne.symm]
  · obtain ⟨hget, hk, -⟩ := Lib.Table.next_some hn
    rw [skipTable_set_get] at hget
    split_ifs at hget with hf
    · subst hf
      refine absurd ?_ hk
      rw [htKfsViSet, Lib.Table.passed_set]
      exact (hbefore skipFirst).2 (.inr ⟨rfl, le_rfl⟩)
    · rw [skipTable_get, if_neg hf] at hget
      split_ifs at hget with hs
      cases hget
      rw [hs]

/-- The first flow is set anew under the cursor; both flows are returned. -/
theorem iteration_survives_set : Iterates skipTable [.next, .set skipFirst 7, .next]
    [(skipFirst, 1), (skipSecond, 1)] := by
  refine iteration_survives_updates _ _ _ ⟨skipTable_atReset, ?_, ?_⟩ (by simp [Lib.Table.NoSkips])
  · have hnext := skipTable_set_next
    simp only [htKfsViSet, htKfsViNext] at hnext
    simp [Lib.Table.returned, Lib.Table.apply, skipTable_next, hnext]
  · change (htKfsViSet (htKfsViNext skipTable).1 skipFirst 7).next.1.next.2 = none
    obtain ⟨-, -, hbefore, -⟩ := Lib.Table.next_some skipTable_set_next
    rcases hn : (htKfsViSet (htKfsViNext skipTable).1 skipFirst 7).next.1.next.2 with _ | ⟨k, v⟩
    · rfl
    · obtain ⟨hget, hk, -⟩ := Lib.Table.next_some hn
      rw [hbefore] at hk
      rw [Lib.Table.get_next, skipTable_set_get, skipTable_get] at hget
      split_ifs at hget with hf hs
      · exact absurd (.inr ⟨by rw [hf, skip_bin], by rw [hf]; exact skip_rank.le⟩) hk
      · exact absurd (.inr ⟨by rw [hs], by rw [hs]⟩) hk

end CMTestbed
