import CMTestbed.Proofs.Intervals
import Mathlib.Algebra.BigOperators.Group.Finset.Piecewise
import Mathlib.Data.FinEnum
import Mathlib.Data.Fintype.Prod

/-!
# The counter of lost volume

A loss is added to its buffer's counter before it is known whether its flow has a volume there, and
to the flow's entry only if it has.  The counter is a `uint64_t`.
-/

namespace CMTestbed

instance : Fintype FlowSrc :=
  Fintype.ofEquiv (UInt32 × UInt32)
    ⟨fun p => ⟨p.1, p.2⟩, fun f => (f.srcip, f.dstip), fun _ => rfl, fun _ => rfl⟩

namespace Buffer

variable {setting : CmExperimentSetting} (b : Buffer) (f : FlowSrc)

/-- The loss volumes of all flows. -/
def totalLoss : ℤ := ∑ g : FlowSrc, b.lossVolume g

/-- The counter is the sum over the flows. -/
def LossCounted : Prop := b.volumeLost = UInt64.ofInt b.totalLoss

theorem lossCounted_create : (create setting).LossCounted := by
  have hzero : (create setting).totalLoss = 0 := by simp [totalLoss]
  rw [LossCounted, hzero]
  rfl

theorem totalLoss_updateFlowLossVolume {n : ℤ} (hn : 0 ≤ n) (hlt : b.lossVolume f + n < 2 ^ 31)
    (rand : ℚ) : (b.updateFlowLossVolume setting f n rand).totalLoss
      = b.totalLoss + if 0 ≤ htKfsViGet b.flowVolumeMap f then n else 0 := by
  have hflow : ∀ g, (b.updateFlowLossVolume setting f n rand).lossVolume g = b.lossVolume g
      + if g = f then (if 0 ≤ htKfsViGet b.flowVolumeMap f then n else 0) else 0 := by
    intro g
    rw [b.lossVolume_updateFlowLossVolume f g hn hlt rand, ite_and]
  simp only [totalLoss, hflow, Finset.sum_add_distrib, Finset.sum_ite_eq', Finset.mem_univ,
    if_true]

theorem volumeLost_updateFlowLossVolume (n : ℤ) (rand : ℚ) :
    (b.updateFlowLossVolume setting f n rand).volumeLost = b.volumeLost + UInt64.ofInt n := by
  unfold updateFlowLossVolume
  dsimp only
  split_ifs <;> rfl

/-- A loss is counted once, exactly if it is none or its flow has a volume. -/
theorem lossCounted_updateFlowLossVolume (h : b.LossCounted) {n : ℤ} (hn : 0 ≤ n)
    (hlt : b.lossVolume f + n < 2 ^ 31) (rand : ℚ) :
    (b.updateFlowLossVolume setting f n rand).LossCounted
      ↔ (0 < n → 0 ≤ htKfsViGet b.flowVolumeMap f) := by
  rw [LossCounted, b.totalLoss_updateFlowLossVolume f hn hlt, volumeLost_updateFlowLossVolume,
    h, ← UInt64.ofInt_add]
  by_cases hvol : 0 ≤ htKfsViGet b.flowVolumeMap f
  · simp [hvol]
  · rw [if_neg hvol, add_zero]
    constructor
    · intro he hpos
      have h₀ := b.lossVolume_nonneg f
      have hn64 : (UInt64.ofInt n).toNat = n := by
        rw [UInt64.ofInt, UInt64.toNat_ofNat']
        omega
      have hnat := congrArg UInt64.toNat he
      rw [UInt64.ofInt_add, UInt64.toNat_add] at hnat
      have := (UInt64.ofInt b.totalLoss).toNat_lt
      omega
    · intro hzero
      have : n = 0 := by
        by_contra hne
        exact hvol (hzero (by omega))
      rw [this, add_zero]

@[simp] theorem volumeLost_updateFlowNormalVolume (n : ℤ) :
    (b.updateFlowNormalVolume setting f n).volumeLost = b.volumeLost := by
  unfold Buffer.updateFlowNormalVolume
  split_ifs <;> rfl

theorem LossCounted.updateFlowNormalVolume (h : b.LossCounted) (n : ℤ) :
    (b.updateFlowNormalVolume setting f n).LossCounted := by
  simp only [LossCounted, totalLoss, volumeLost_updateFlowNormalVolume,
    lossVolume_updateFlowNormalVolume]
  exact h

end Buffer

/-! ## Runs -/

theorem DataWarehouse.forall_buffer (w : DataWarehouse) {P : Buffer → Prop} :
    (∀ i, P (w.buffer i)) ↔ P w.active ∧ P w.unactive := by
  refine ⟨fun h => ⟨h _, h _⟩, fun h i => ?_⟩
  have hi : i = w.activeIdx ∨ i = w.activeIdx + 1 := by
    generalize w.activeIdx = j
    revert i j
    decide
  rcases hi with rfl | rfl
  · exact h.1
  · exact h.2

namespace Intervals

/-- A loss's flow has a volume in the active buffer. -/
def VolumeKnown (s : Intervals) : Event → Prop
  | .update (.loss pFlow n _) => 0 < n → 0 ≤ htKfsViGet s.warehouse.active.flowVolumeMap pFlow
  | _ => True

/-- A loss is not negative, and its flow's total in the interval fits in an `int`. -/
def LossFits (s : Intervals) : Event → Prop
  | .update (.loss pFlow n _) => 0 ≤ n ∧ s.warehouse.active.lossVolume pFlow + n < 2 ^ 31
  | _ => True

instance (s : Intervals) : DecidablePred s.VolumeKnown
  | .update (.loss _ _ _) => inferInstanceAs (Decidable (_ → _))
  | .update (.normal _ _) | .rotate | .visit _ | .reset => inferInstanceAs (Decidable True)

instance (s : Intervals) : DecidablePred s.LossFits
  | .update (.loss _ _ _) => inferInstanceAs (Decidable (_ ∧ _))
  | .update (.normal _ _) | .rotate | .visit _ | .reset => inferInstanceAs (Decidable True)

variable {setting : CmExperimentSetting}

theorem lossCounted_step (s : Intervals) (e : Event) (s' : Intervals)
    (h : s.warehouse.active.LossCounted ∧ s.warehouse.unactive.LossCounted)
    (hok : s.LossFits e ∧ s.VolumeKnown e) (hs : (system setting).step s e = some s') :
    s'.warehouse.active.LossCounted ∧ s'.warehouse.unactive.LossCounted := by
  cases e with
  | update c =>
    simp only [system, step] at hs
    split_ifs at hs with hfits
    cases hs
    rw [UpdateCall.unactive_exec]
    refine ⟨?_, h.2⟩
    cases c with
    | normal f n =>
      show Buffer.LossCounted (updateFlowNormalVolume _ _ _ _).active
      rw [updateFlowNormalVolume, DataWarehouse.active_modifyActive]
      exact h.1.updateFlowNormalVolume _ f n
    | loss f n rand =>
      obtain ⟨⟨hn, hlt⟩, hknown⟩ := hok
      show Buffer.LossCounted (updateFlowLossVolume _ _ _ _ _).active
      rw [updateFlowLossVolume, DataWarehouse.active_modifyActive]
      exact (Buffer.lossCounted_updateFlowLossVolume _ f h.1 hn hlt rand).2 hknown
  | rotate =>
    simp only [system, step] at hs
    split_ifs at hs
    cases hs
    rw [DataWarehouse.active_rotate, DataWarehouse.unactive_rotate]
    exact h.symm
  | visit m =>
    simp only [system, step] at hs
    split_ifs at hs
    cases hs
    rw [DataWarehouse.active_modifyUnactive, DataWarehouse.unactive_modifyUnactive]
    refine ⟨h.1, ?_⟩
    cases m <;> exact h.2
  | reset =>
    simp only [system, step] at hs
    split_ifs at hs
    cases hs
    rw [DataWarehouse.active_reset, DataWarehouse.unactive_reset]
    exact ⟨h.1, Buffer.lossCounted_create⟩

theorem lossCounted_init (tasks : List Task) :
    (init setting tasks).warehouse.active.LossCounted
      ∧ (init setting tasks).warehouse.unactive.LossCounted :=
  ⟨Buffer.lossCounted_create, Buffer.lossCounted_create⟩

/-- In a run whose losses are all of flows with a volume in the current interval, each buffer's
counter is the sum of its loss volumes. -/
theorem volume_lost_counted (setting : CmExperimentSetting) (tasks : List Task) (es : List Event)
    (s : Intervals) (hfits : (system setting).Meets LossFits (init setting tasks) es)
    (hknown : (system setting).Meets VolumeKnown (init setting tasks) es)
    (hrun : (system setting).run (init setting tasks) es = some s) (i : Fin 2) :
    (s.warehouse.buffer i).volumeLost
      = UInt64.ofInt (∑ f : FlowSrc, (s.warehouse.buffer i).lossVolume f) := by
  have h := Lib.System.run_inv_of lossCounted_step (lossCounted_init tasks) (hfits.and hknown) hrun
  exact s.warehouse.forall_buffer.2 h i

/-- 40 of the flow's 100 bytes are found lost in the interval in which they were sent. -/
theorem volume_lost_counted_example : ∃ s, (system exampleSetting).run (init exampleSetting [])
      [.update (.normal ⟨1, 2⟩ 100), .update (.loss ⟨1, 2⟩ 40 0), .rotate, .reset] = some s
    ∧ ∀ i, (s.warehouse.buffer i).volumeLost
      = UInt64.ofInt (∑ f : FlowSrc, (s.warehouse.buffer i).lossVolume f) := by
  obtain ⟨s, hs⟩ : ∃ s, (system exampleSetting).run (init exampleSetting [])
      [.update (.normal ⟨1, 2⟩ 100), .update (.loss ⟨1, 2⟩ 40 0), .rotate, .reset] = some s :=
    Option.isSome_iff_exists.1 (by decide +kernel)
  exact ⟨s, hs,
    volume_lost_counted exampleSetting [] _ s (by decide +kernel) (by decide +kernel) hs⟩

/-- The same 40 bytes, found lost in the next interval, are in the counter alone. -/
theorem unknown_loss_counted : ∃ s, (system exampleSetting).run (init exampleSetting [])
      [.update (.normal ⟨1, 2⟩ 100), .rotate, .reset, .update (.loss ⟨1, 2⟩ 40 0)] = some s
    ∧ s.warehouse.active.volumeLost = 40
    ∧ s.warehouse.active.volumeLost
      ≠ UInt64.ofInt (∑ f : FlowSrc, s.warehouse.active.lossVolume f) := by
  let before : List Event := [.update (.normal ⟨1, 2⟩ 100), .rotate, .reset]
  obtain ⟨s, hs⟩ : ∃ s, (system exampleSetting).run (init exampleSetting []) before = some s :=
    Option.isSome_iff_exists.1 (by decide +kernel)
  have hcounted := Lib.System.run_inv_of lossCounted_step (lossCounted_init [])
    (show (system exampleSetting).Meets _ _ before by decide +kernel) hs
  have hbefore : ((system exampleSetting).run (init exampleSetting []) before).map (fun s =>
      (s.warehouse.active.volumeLost, s.warehouse.active.lossVolume ⟨1, 2⟩,
        htKfsViGet s.warehouse.active.flowVolumeMap ⟨1, 2⟩)) = some (0, 0, -1) := by
    decide +kernel
  rw [hs, Option.map_some, Option.some.injEq, Prod.mk.injEq, Prod.mk.injEq] at hbefore
  obtain ⟨hlost, hloss, hvolume⟩ := hbefore
  have hactive : (updateFlowLossVolume exampleSetting s.warehouse ⟨1, 2⟩ 40 0).active
      = s.warehouse.active.updateFlowLossVolume exampleSetting ⟨1, 2⟩ 40 0 :=
    DataWarehouse.active_modifyActive _ _
  have hstep : (system exampleSetting).step s (.update (.loss ⟨1, 2⟩ 40 0)) = some { s with
      warehouse := updateFlowLossVolume exampleSetting s.warehouse ⟨1, 2⟩ 40 0
      sent := fun f => s.sent f + 0 } := by
    simp only [system, step]
    exact if_pos trivial
  refine ⟨_, Lib.System.run_append.2 ⟨s, hs, Lib.System.run_cons.2 ⟨_, hstep, rfl⟩⟩, ?_⟩
  simp only [hactive]
  refine ⟨by rw [Buffer.volumeLost_updateFlowLossVolume, hlost]; rfl, fun he => ?_⟩
  have hknown := (Buffer.lossCounted_updateFlowLossVolume _ ⟨1, 2⟩ hcounted.1 (by omega)
    (by rw [hloss]; omega) 0).1 he (by omega)
  omega

end Intervals

end CMTestbed
