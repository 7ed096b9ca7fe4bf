import CMTestbed.Proofs.Totals

/-!
# Where a flow's volume starts again

The volume is stored as a `uint32_t` and read back as an `int`.  From 2^31 on it reads as negative,
which the update takes for a flow that has no volume yet.
-/

namespace CMTestbed

namespace UpdateCall

/-- What the calls add to the volume of `f`, one number for each call. -/
def volumesOf (f : FlowSrc) (calls : List UpdateCall) : List ℤ :=
  calls.filterMap fun
    | normal g n => if g = f then some n else none
    | loss _ _ _ => none

end UpdateCall

/-- The value stored for a flow, 0 if there is none. -/
def DataWarehouse.storedVolume (w : DataWarehouse) (f : FlowSrc) : UInt32 :=
  (w.active.flowVolumeMap.get f).getD 0

section Stored

open UpdateCall

variable {setting : CmExperimentSetting} {w : DataWarehouse} {f : FlowSrc}

theorem volumesOf_append (calls calls' : List UpdateCall) :
    volumesOf f (calls ++ calls') = volumesOf f calls ++ volumesOf f calls' :=
  List.filterMap_append

theorem toUInt_eq_iff {m n : ℤ} : toUInt m = toUInt n ↔ m % 2 ^ 32 = n % 2 ^ 32 := by
  rw [← UInt32.toNat_inj, toUInt, toUInt, UInt32.ofInt, UInt32.ofInt, UInt32.toNat_ofNat',
    UInt32.toNat_ofNat']
  omega

/-- What a stored volume is added to. -/
def keptVolume (value : UInt32) : ℤ := if value.toNat < 2 ^ 31 then value.toNat else 0

theorem orZero_get (value : Option UInt32) :
    orZero (value.elim (-1) toInt) = keptVolume (value.getD 0) := by
  unfold keptVolume
  cases value with
  | none => rfl
  | some v =>
    rw [Option.elim_some, Option.getD_some]
    split_ifs with hv
    · rw [toInt_eq_toNat hv, orZero_of_nonneg (Int.natCast_nonneg _)]
    · exact if_pos (toInt_lt_zero (not_lt.1 hv))

theorem storedVolume_normal {n : ℤ} (hn : 0 < n) :
    ((normal f n).exec setting w).storedVolume f
      = toUInt (keptVolume (w.storedVolume f) + n) := by
  have hget : ∀ b : Buffer, orZero (htKfsViGet b.flowVolumeMap f)
      = keptVolume ((b.flowVolumeMap.get f).getD 0) := fun b => by
    rw [← orZero_get, htKfsViGet]
    cases b.flowVolumeMap.get f <;> rfl
  rw [exec, DataWarehouse.storedVolume, updateFlowNormalVolume,
    DataWarehouse.active_modifyActive, Buffer.updateFlowNormalVolume, if_pos hn]
  dsimp only [Buffer.updateRateAndLevel]
  rw [htKfsViSet, get_set, if_pos rfl, Option.getD_some, hget, intAdd, toUInt_toInt,
    DataWarehouse.storedVolume]

/-- The other calls leave the flow's volume alone. -/
theorem storedVolume_other {c : UpdateCall} (hc : volumesOf f [c] = []) :
    (c.exec setting w).storedVolume f = w.storedVolume f := by
  cases c with
  | loss g n rand =>
    rw [exec, DataWarehouse.storedVolume, updateFlowLossVolume,
      DataWarehouse.active_modifyActive, Buffer.flowVolumeMap_updateFlowLossVolume,
      DataWarehouse.storedVolume]
  | normal g n =>
    have hg : f ≠ g := by
      rintro rfl
      simp [volumesOf] at hc
    rw [exec, DataWarehouse.storedVolume, updateFlowNormalVolume,
      DataWarehouse.active_modifyActive, Buffer.updateFlowNormalVolume]
    split_ifs
    · dsimp only [Buffer.updateRateAndLevel]
      rw [htKfsViSet, get_set, if_neg hg, DataWarehouse.storedVolume]
    · rw [DataWarehouse.storedVolume]

theorem sum_nonneg_of_pos {ns : List ℤ} (h : ∀ n ∈ ns, 0 < n) : 0 ≤ ns.sum :=
  List.sum_nonneg fun n hn => (h n hn).le

/-- A stored sum is added to as long as it fits in an `int`. -/
theorem keptVolume_toUInt {n : ℤ} (h₀ : 0 ≤ n) (h : n < 2 ^ 32) :
    keptVolume (toUInt n) = if n < 2 ^ 31 then n else 0 := by
  have hnat := toNat_toUInt h₀ h
  unfold keptVolume
  split_ifs <;> omega

theorem sum_dropLast_le {ns : List ℤ} (h : ∀ n ∈ ns, 0 < n) : ns.dropLast.sum ≤ ns.sum :=
  (List.dropLast_sublist ns).sum_le_sum fun n hn => (h n hn).le

/-- The volumes before the last one, of the calls so far. -/
theorem sum_dropLast_le_append {ns ms : List ℤ} (h : ∀ n ∈ ns ++ ms, 0 < n) :
    ns.dropLast.sum ≤ (ns ++ ms).dropLast.sum := by
  rw [List.forall_mem_append] at h
  obtain rfl | hms := eq_or_ne ms []
  · rw [List.append_nil]
  · rw [List.dropLast_append_of_ne_nil hms, List.sum_append]
    have hle := sum_dropLast_le h.1
    have h₀ := sum_nonneg_of_pos fun n hn => h.2 n (List.mem_of_mem_dropLast hn)
    omega

theorem sum_lt_of_dropLast {ns : List ℤ} (h : ∀ n ∈ ns, n < 2 ^ 31)
    (hsum : ns.dropLast.sum < 2 ^ 31) : ns.sum < 2 ^ 32 := by
  obtain rfl | ⟨ns, n, rfl⟩ := ns.eq_nil_or_concat'
  · simp
  · rw [List.dropLast_concat] at hsum
    have hn := h n (by simp)
    rw [List.sum_append, List.sum_singleton]
    omega

theorem volumesOf_normal (n : ℤ) : volumesOf f [.normal f n] = [n] := by simp [volumesOf]

theorem exists_normal_of_volumesOf_ne_nil {c : UpdateCall} (hc : volumesOf f [c] ≠ []) :
    ∃ n, c = .normal f n := by
  cases c with
  | loss g n rand => exact absurd rfl hc
  | normal g n =>
    by_cases hg : g = f
    · exact ⟨n, by rw [hg]⟩
    · exact absurd (by simp [volumesOf, hg]) hc

theorem mem_volumesOf {calls : List UpdateCall} {n : ℤ} :
    n ∈ volumesOf f calls ↔ .normal f n ∈ calls := by
  rw [volumesOf, List.mem_filterMap]
  constructor
  · rintro ⟨c, hc, h⟩
    cases c with
    | loss g m rand => cases h
    | normal g m =>
      dsimp only at h
      split_ifs at h with hg
      cases h
      exact hg ▸ hc
  · exact fun h => ⟨_, h, if_pos rfl⟩

variable {calls : List UpdateCall}

/-- The calls of a flow whose volumes before the last one fit in an `int`. -/
theorem storedVolume_eq_sum (hw : w.storedVolume f = 0)
    (hpos : ∀ n ∈ volumesOf f calls, 0 < n)
    (hsum : (volumesOf f calls).dropLast.sum < 2 ^ 31) :
    (calls.foldl (exec setting) w).storedVolume f = toUInt (volumesOf f calls).sum := by
  induction calls using List.reverseRecOn with
  | nil => exact hw
  | append_singleton calls c ih =>
    rw [volumesOf_append] at hpos hsum ⊢
    rw [List.foldl_append, List.foldl_cons, List.foldl_nil]
    rw [List.forall_mem_append] at hpos
    by_cases hc : volumesOf f [c] = []
    · rw [hc, List.append_nil] at hsum ⊢
      rw [storedVolume_other hc]
      exact ih hpos.1 hsum
    · obtain ⟨n, rfl⟩ := exists_normal_of_volumesOf_ne_nil hc
      rw [volumesOf_normal] at hpos hsum ⊢
      rw [List.dropLast_concat] at hsum
      have h₀ := sum_nonneg_of_pos hpos.1
      have hle := sum_dropLast_le hpos.1
      rw [storedVolume_normal (hpos.2 n (List.mem_singleton_self n)),
        ih hpos.1 (hle.trans_lt hsum), keptVolume_toUInt h₀ (by omega), if_pos hsum,
        List.sum_append, List.sum_singleton]

/-- After every call so far, the value stored for a flow is the sum of its volumes mod 2^32, if and
only if the volumes before the last one add up to less than 2^31. -/
theorem volumes_never_restart (hw : w.active.flowVolumeMap.get f = none)
    (hint : ∀ n, .normal f n ∈ calls → 0 < n ∧ n < 2 ^ 31) :
    (∀ pre, pre <+: calls →
        (pre.foldl (exec setting) w).storedVolume f = toUInt (volumesOf f pre).sum)
      ↔ (volumesOf f calls).dropLast.sum < 2 ^ 31 := by
  have hw : w.storedVolume f = 0 := by rw [DataWarehouse.storedVolume, hw, Option.getD_none]
  have hpos : ∀ n ∈ volumesOf f calls, 0 < n ∧ n < 2 ^ 31 := fun n hn =>
    hint n (mem_volumesOf.1 hn)
  clear hint
  constructor
  · intro h
    induction calls using List.reverseRecOn with
    | nil => simp [volumesOf]
    | append_singleton calls c ih =>
      have hall := h _ (List.prefix_refl _)
      have hcalls := h _ (List.prefix_append calls [c])
      rw [volumesOf_append] at hpos hall ⊢
      rw [List.forall_mem_append] at hpos
      have hsum := ih hpos.1 fun pre hpre => h pre (hpre.trans (List.prefix_append _ _))
      by_cases hc : volumesOf f [c] = []
      · rwa [hc, List.append_nil]
      · obtain ⟨n, rfl⟩ := exists_normal_of_volumesOf_ne_nil hc
        rw [volumesOf_normal] at hpos hall ⊢
        rw [List.dropLast_concat]
        -- The sum was right before this call, so from 2^31 on it is lost.
        by_contra hlarge
        have hn := hpos.2 n (List.mem_singleton_self n)
        have h₀ := sum_nonneg_of_pos fun m hm => (hpos.1 m hm).1
        have hlt := sum_lt_of_dropLast (fun m hm => (hpos.1 m hm).2) hsum
        rw [List.foldl_append, List.foldl_cons, List.foldl_nil, storedVolume_normal hn.1, hcalls,
          keptVolume_toUInt (by omega) hlt, if_neg hlarge, List.sum_append,
          List.sum_singleton] at hall
        have hmod := toUInt_eq_iff.1 hall
        omega
  · intro hsum pre hpre
    obtain ⟨rest, rfl⟩ := hpre
    rw [volumesOf_append] at hpos hsum
    refine storedVolume_eq_sum hw (fun n hn => (hpos n (List.mem_append_left _ hn)).1) ?_
    exact (sum_dropLast_le_append fun n hn => (hpos n hn).1).trans_lt hsum

end Stored

/-- Two calls for a flow, and one for another. -/
def exampleCalls : List UpdateCall :=
  [.normal ⟨1, 2⟩ 100, .normal ⟨3, 4⟩ 60, .normal ⟨1, 2⟩ (2 ^ 31 - 1)]

theorem volumes_never_restart_example :
    (∀ pre, pre <+: exampleCalls →
        (pre.foldl (UpdateCall.exec exampleSetting)
          (dataWarehouseInit exampleSetting [])).storedVolume ⟨1, 2⟩
        = toUInt (UpdateCall.volumesOf ⟨1, 2⟩ pre).sum)
      ↔ (UpdateCall.volumesOf ⟨1, 2⟩ exampleCalls).dropLast.sum < 2 ^ 31 :=
  volumes_never_restart (Lib.Table.get_create _) (by simp [exampleCalls])

/-- Three packets of which the first two have 2^31 bytes: the third is counted alone. -/
theorem volume_restarts :
    ([.normal ⟨1, 2⟩ (2 ^ 31 - 1), .normal ⟨1, 2⟩ 1, .normal ⟨1, 2⟩ 1].foldl
        (UpdateCall.exec exampleSetting) (dataWarehouseInit exampleSetting [])).storedVolume ⟨1, 2⟩
      = 1
    ∧ (toUInt (UpdateCall.volumesOf ⟨1, 2⟩
        [.normal ⟨1, 2⟩ (2 ^ 31 - 1), .normal ⟨1, 2⟩ 1, .normal ⟨1, 2⟩ 1]).sum).toNat
      = 2 ^ 31 + 1 := by
  decide +kernel

end CMTestbed
