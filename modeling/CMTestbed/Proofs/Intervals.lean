import CMTestbed.Proofs.Levels

/-!
# Intervals partition the traffic

While the rotating thread waits, the non-active buffer is as good as new.  While it reports, the
non-active buffer holds what was active when it rotated: updates go to the other one.
-/

namespace CMTestbed

namespace Buffer

/-- Seven empty maps and four counters at zero. -/
structure Empty (b : Buffer) : Prop where
  flowVolumeMap : ∀ f, htKfsViGet b.flowVolumeMap f = -1
  fixedFlowLossVolumeMap : ∀ f, htKfsFixSizeGet b.fixedFlowLossVolumeMap f = none
  flowLossVolumeMap : ∀ f, htKfsViGet b.flowLossVolumeMap f = -1
  flowLossRateMap : ∀ f, htKfsVfGet b.flowLossRateMap f = -1
  flowSelectedLevelMap : ∀ f, htKfsViGet b.flowSelectedLevelMap f = -1
  flowSampleMap : ∀ f, htKfsViGet b.flowSampleMap f = -1
  flowNotSampledVolumeMap : ∀ f, htKfsViGet b.flowNotSampledVolumeMap f = -1
  counters : b.pktNumSent = 0 ∧ b.volumeSent = 0 ∧ b.conditionPktNumSent = 0 ∧ b.volumeLost = 0

/-- The same contents, wherever the iterations over them are. -/
structure Same (b b' : Buffer) : Prop where
  flowVolumeMap : ∀ f, b.flowVolumeMap.get f = b'.flowVolumeMap.get f
  fixedFlowLossVolumeMap : b.fixedFlowLossVolumeMap = b'.fixedFlowLossVolumeMap
  flowLossVolumeMap : ∀ f, b.flowLossVolumeMap.get f = b'.flowLossVolumeMap.get f
  flowLossRateMap : ∀ f, b.flowLossRateMap.get f = b'.flowLossRateMap.get f
  flowSelectedLevelMap : ∀ f, b.flowSelectedLevelMap.get f = b'.flowSelectedLevelMap.get f
  flowSampleMap : ∀ f, b.flowSampleMap.get f = b'.flowSampleMap.get f
  flowNotSampledVolumeMap :
    ∀ f, b.flowNotSampledVolumeMap.get f = b'.flowNotSampledVolumeMap.get f
  counters : b.pktNumSent = b'.pktNumSent ∧ b.volumeSent = b'.volumeSent
    ∧ b.conditionPktNumSent = b'.conditionPktNumSent ∧ b.volumeLost = b'.volumeLost

theorem empty_create (setting : CmExperimentSetting) : (create setting).Empty where
  flowVolumeMap := htKfsViGet_create
  fixedFlowLossVolumeMap := htKfsFixSizeGet_create _
  flowLossVolumeMap := htKfsViGet_create
  flowLossRateMap := htKfsVfGet_create
  flowSelectedLevelMap := htKfsViGet_create
  flowSampleMap := htKfsViGet_create
  flowNotSampledVolumeMap := htKfsViGet_create
  counters := ⟨rfl, rfl, rfl, rfl⟩

theorem Same.refl (b : Buffer) : b.Same b :=
  ⟨fun _ => rfl, rfl, fun _ => rfl, fun _ => rfl, fun _ => rfl, fun _ => rfl, fun _ => rfl,
    rfl, rfl, rfl, rfl⟩

/-- Iterating changes no contents. -/
theorem Same.visit {b b' : Buffer} (h : b.Same b') (m : ReportMap) : (b.visit m).Same b' := by
  cases m with
  | flowSelectedLevel =>
    refine { h with flowSelectedLevelMap := fun f => ?_ }
    exact (Lib.Table.get_next _ f).trans (h.flowSelectedLevelMap f)
  | flowVolume =>
    refine { h with flowVolumeMap := fun f => ?_ }
    exact (Lib.Table.get_next _ f).trans (h.flowVolumeMap f)
  | flowLossRate =>
    refine { h with flowLossRateMap := fun f => ?_ }
    exact (Lib.Table.get_next _ f).trans (h.flowLossRateMap f)

end Buffer

theorem UpdateCall.active_exec (setting : CmExperimentSetting) (w : DataWarehouse)
    (c : UpdateCall) (f : FlowSrc)
    (hfits : ∀ g n, c = .normal g n → 0 ≤ n ∧ w.active.volume g + n < 2 ^ 31) :
    (c.exec setting w).active.volume f = w.active.volume f + c.sent f := by
  cases c with
  | normal g n =>
    obtain ⟨hn, hlt⟩ := hfits g n rfl
    rw [exec, updateFlowNormalVolume, DataWarehouse.active_modifyActive,
      w.active.volume_updateFlowNormalVolume g f hn hlt, sent]
  | loss g n rand =>
    rw [exec, updateFlowLossVolume, DataWarehouse.active_modifyActive, Buffer.volume,
      Buffer.flowVolumeMap_updateFlowLossVolume, sent, add_zero, Buffer.volume]

/-- An update leaves the non-active buffer alone. -/
theorem UpdateCall.unactive_exec (setting : CmExperimentSetting) (w : DataWarehouse)
    (c : UpdateCall) : (c.exec setting w).unactive = w.unactive := by
  cases c <;> exact DataWarehouse.unactive_modifyActive _ _

namespace Intervals

/-- The volume of a flow in all the snapshots. -/
def reported (s : Intervals) (f : FlowSrc) : ℤ := (s.snapshots.map fun b => b.volume f).sum

structure Inv (setting : CmExperimentSetting) (s : Intervals) : Prop where
  waiting : s.phase = .waiting → s.warehouse.unactive = Buffer.create setting
  reporting : s.phase = .reporting → ∃ b, s.snapshots.head? = some b ∧ s.warehouse.unactive.Same b
  partition : ∀ f, s.reported f + s.warehouse.active.volume f = s.sent f

variable {setting : CmExperimentSetting}

theorem inv_init (tasks : List Task) : (init setting tasks).Inv setting where
  waiting := fun _ => rfl
  reporting := fun h => by cases h
  partition := fun f => by
    change 0 + (Buffer.create setting).volume f = 0
    rw [Buffer.volume_create, add_zero]

theorem inv_step (s : Intervals) (e : Event) (s' : Intervals) (h : s.Inv setting)
    (hs : (system setting).step s e = some s') : s'.Inv setting := by
  cases e with
  | update c =>
    simp only [system, step] at hs
    split_ifs at hs with hfits
    cases hs
    refine ⟨fun hp => ?_, fun hp => ?_, fun f => ?_⟩
    · rw [UpdateCall.unactive_exec, h.waiting hp]
    · rw [UpdateCall.unactive_exec]
      exact h.reporting hp
    · have hpart := h.partition f
      rw [UpdateCall.active_exec setting _ c f (by rintro g n rfl; exact hfits)]
      change s.reported f + (s.warehouse.active.volume f + c.sent f) = s.sent f + c.sent f
      omega
  | rotate =>
    simp only [system, step] at hs
    split_ifs at hs with hp
    cases hs
    refine ⟨fun hp' => (by cases hp'), fun _ => ⟨_, rfl, ?_⟩, fun f => ?_⟩
    · rw [DataWarehouse.unactive_rotate]
      exact Buffer.Same.refl _
    · have hpart := h.partition f
      rw [DataWarehouse.active_rotate, h.waiting hp, Buffer.volume_create, add_zero, ← hpart]
      exact add_comm _ _
  | visit m =>
    simp only [system, step] at hs
    split_ifs at hs with hp
    cases hs
    refine ⟨fun hp' => (by rw [hp] at hp'; cases hp'), fun _ => ?_, fun f => ?_⟩
    · obtain ⟨b, hb, hsame⟩ := h.reporting hp
      refine ⟨b, hb, ?_⟩
      rw [DataWarehouse.unactive_modifyUnactive]
      exact hsame.visit m
    · rw [DataWarehouse.active_modifyUnactive]
      exact h.partition f
  | reset =>
    simp only [system, step] at hs
    split_ifs at hs with hp
    cases hs
    refine ⟨fun _ => DataWarehouse.unactive_reset _ _, fun hp' => (by cases hp'), fun f => ?_⟩
    rw [DataWarehouse.active_reset]
    exact h.partition f

/-- Intervals partition the traffic: a rotation activates an empty buffer, the buffer being reported
stays as it was rotated out, the reset leaves the active buffer alone, and the snapshots and the
active buffer together hold each flow's whole volume. -/
theorem intervals_partition_traffic (setting : CmExperimentSetting) (tasks : List Task)
    (es : List Event) (s : Intervals)
    (hrun : (system setting).run (init setting tasks) es = some s) :
    (∀ s', (system setting).step s .rotate = some s' → s'.warehouse.active.Empty)
      ∧ (s.phase = .reporting → ∃ b, s.snapshots.head? = some b ∧ s.warehouse.unactive.Same b)
      ∧ (∀ s', (system setting).step s .reset = some s' →
          s'.warehouse.active = s.warehouse.active)
      ∧ ∀ f, (s.snapshots.map fun b => b.volume f).sum + s.warehouse.active.volume f
          = s.sent f := by
  have h : s.Inv setting := Lib.System.run_inv inv_step (inv_init tasks) hrun
  refine ⟨fun s' hs => ?_, h.reporting, fun s' hs => ?_, h.partition⟩
  · simp only [system, step] at hs
    split_ifs at hs with hp
    cases hs
    rw [DataWarehouse.active_rotate, h.waiting hp]
    exact Buffer.empty_create setting
  · simp only [system, step] at hs
    split_ifs at hs with hp
    cases hs
    exact DataWarehouse.active_reset _ _

/-- A packet between the swap and the clearing counts for the new interval. -/
def exampleRun : List Event :=
  [.update (.normal ⟨1, 2⟩ 100), .rotate, .update (.normal ⟨1, 2⟩ 50), .visit .flowVolume, .reset]

theorem intervals_partition_example :
    ∃ s, (system exampleSetting).run (init exampleSetting []) exampleRun = some s
      ∧ (s.snapshots.map fun b => b.volume ⟨1, 2⟩).sum + s.warehouse.active.volume ⟨1, 2⟩
        = 150 := by
  obtain ⟨s, hs⟩ : ∃ s, (system exampleSetting).run (init exampleSetting []) exampleRun = some s :=
    Option.isSome_iff_exists.1 (by decide +kernel)
  refine ⟨s, hs, ?_⟩
  rw [(intervals_partition_traffic _ _ _ s hs).2.2.2 ⟨1, 2⟩]
  have hsent : ((system exampleSetting).run (init exampleSetting []) exampleRun).map
      (fun s => s.sent ⟨1, 2⟩) = some 150 := by decide +kernel
  rw [hs] at hsent
  simpa using hsent

end Intervals

end CMTestbed
