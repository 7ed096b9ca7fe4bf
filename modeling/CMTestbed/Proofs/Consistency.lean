import CMTestbed.Intervals
import CMTestbed.Proofs.Reports
import CMTestbed.Settings

/-!
# The numbers of a report

A flow is made a target with a volume and a loss rate, as a `float`, that are at least the
thresholds, and is counted among the flows that meet a threshold if it is above it; volumes are
counted without a sign.  So the targets are no more than the flows counted exactly if no more of
them sit on the threshold than other flows are above it (`report_consistent_iff`).
-/

namespace CMTestbed

/-! ## The numbers -/

section Numbers

variable (setting : ReportSetting) (w : DataWarehouse)

def AboveVolume (volume : UInt32) : Bool :=
  volume > toUInt setting.targetFlowSetting.volumeThreshold

def AboveRate (lossRate : ℚ) : Bool := lossRate > setting.targetFlowSetting.lossRateThreshold

def targetFlowNum : ℕ := (reportedFlows w).length

def volumeOkFlowNum : ℕ := w.unactive.flowVolumeMap.pass.2.countP fun e => AboveVolume setting e.2

def lossRateOkFlowNum : ℕ := w.unactive.flowLossRateMap.pass.2.countP fun e => AboveRate setting e.2

def uniqueFlowNumSent : ℕ := w.unactive.flowVolumeMap.pass.2.length

/-- How many rows the third writer writes after the two others. -/
def rowNum (currentMsec : UInt64) : ℕ :=
  let info := writeIntervalInfoToFile setting w currentMsec
  let lost := writeLastSentFlowSelectedLevelMapLostTargetFlow info.1
  (writeTargetFlowsToFile setting lost.1).2.count 10

/-- The numbers of a report agree with one another. -/
structure Consistent (currentMsec : UInt64) : Prop where
  target_le_volumeOk : targetFlowNum w ≤ volumeOkFlowNum setting w
  target_le_lossRateOk : targetFlowNum w ≤ lossRateOkFlowNum setting w
  volumeOk_le_unique : volumeOkFlowNum setting w ≤ uniqueFlowNumSent w
  rows : rowNum setting w currentMsec = targetFlowNum w

/-- The volume is the threshold, or a threshold below 0 is compared with it. -/
def OnVolumeThreshold (f : FlowSrc) : Prop :=
  let volume := htKfsViGet w.unactive.flowVolumeMap f
  let threshold := setting.targetFlowSetting.volumeThreshold
  volume = threshold ∨ threshold < 0 ∧ 0 ≤ volume

def OverVolumeThreshold (f : FlowSrc) : Prop :=
  ∃ volume, w.unactive.flowVolumeMap.get f = some volume ∧ AboveVolume setting volume

/-- The recorded loss rate, which is rounded, is the threshold. -/
def OnRateThreshold (f : FlowSrc) : Prop :=
  htKfsVfGet w.unactive.flowLossRateMap f = setting.targetFlowSetting.lossRateThreshold

def OverRateThreshold (f : FlowSrc) : Prop :=
  ∃ lossRate, w.unactive.flowLossRateMap.get f = some lossRate ∧ AboveRate setting lossRate

/-- The target flows on a threshold are no more than the other flows above it. -/
structure FewOnThresholds : Prop where
  volume : {f | IsTargetFlow w f ∧ OnVolumeThreshold setting w f}.ncard
    ≤ {f | ¬ IsTargetFlow w f ∧ OverVolumeThreshold setting w f}.ncard
  rate : {f | IsTargetFlow w f ∧ OnRateThreshold setting w f}.ncard
    ≤ {f | ¬ IsTargetFlow w f ∧ OverRateThreshold setting w f}.ncard

end Numbers

variable {setting : ReportSetting} {w : DataWarehouse}

/-- The lines in which the numbers stand. -/
theorem numbers_written (h : w.unactive.CursorsReset) (currentMsec : UInt64) :
    let info := writeIntervalInfoToFile setting w currentMsec
    (∃ before : List (List UInt8), info.2 = (before ++
        [nameValue "loss_rate_ok_flow_num" (formatInt (lossRateOkFlowNum setting w)),
          nameValue "volume_ok_flow_num" (formatInt (volumeOkFlowNum setting w)),
          nameValue "unique_flow_num_sent" (formatInt (uniqueFlowNumSent w))]).flatten)
      ∧ chars "target_flow_num:" ++ formatInt (targetFlowNum w)
        <+: (writeLastSentFlowSelectedLevelMapLostTargetFlow info.1).2 := by
  dsimp only
  rw [writeIntervalInfoToFile_fst h, writeIntervalInfoToFile_snd, writeLastSent_snd]
  constructor
  · exact ⟨_, congrArg List.flatten (List.append_assoc (roundLine currentMsec :: _) [_] _).symm⟩
  · rw [lostLine]
    simp only [List.append_assoc]
    rw [← List.append_assoc]
    exact List.prefix_append _ _

/-! ## The rows -/

/-- A row is a line. -/
theorem count_targetFlowRow (f : FlowSrc) : (targetFlowRow setting w f).count 10 = 1 := by
  have hnat : ∀ n, (formatNat n).count 10 = 0 :=
    fun n => List.count_eq_zero.2 (not_mem_formatNat rfl n)
  have hint : ∀ n, (formatInt n).count 10 = 0 :=
    fun n => List.count_eq_zero.2 (not_mem_formatInt rfl (by decide) n)
  have hfloat : ∀ q, (formatFloat q).count 10 = 0 :=
    fun q => List.count_eq_zero.2 (not_mem_formatFloat rfl (by decide) (by decide) q)
  have htab : ([9] : List UInt8).count 10 = 0 := by decide
  have hend : ([10] : List UInt8).count 10 = 1 := by decide
  simp only [targetFlowRow, List.count_append, hnat, hint, hfloat, htab, hend]

theorem rowNum_eq (h : w.unactive.CursorsReset) (currentMsec : UInt64) :
    rowNum setting w currentMsec = targetFlowNum w := by
  rw [rowNum, writeIntervalInfoToFile_fst h, writeLastSent_fst h, writeTargetFlowsToFile,
    targetFlowNum]
  induction reportedFlows w with
  | nil => rfl
  | cons f fs ih =>
    rw [List.flatMap_cons, List.count_append, count_targetFlowRow, ih, List.length_cons]
    omega

/-! ## Targets and thresholds -/

namespace Buffer

variable {s : CmExperimentSetting} {b : Buffer} {f g : FlowSrc}

/-- A target has a volume and a loss rate that are at least the thresholds. -/
def TargetOk (s : CmExperimentSetting) (b : Buffer) (f : FlowSrc) : Prop :=
  htKfsViGet b.flowSelectedLevelMap f = targetLevel →
    (∃ v, b.flowVolumeMap.get f = some v ∧ s.targetFlowSetting.volumeThreshold ≤ toInt v)
      ∧ ∃ r, b.flowLossRateMap.get f = some r ∧ s.targetFlowSetting.lossRateThreshold ≤ r

theorem targetOk_create : (create s).TargetOk s f := by
  intro h
  rw [create, htKfsViGet_create] at h
  cases h

theorem levelOf_eq_target {volume lossVolume : ℤ} {lossRate : ℚ}
    (h : levelOf s volume lossVolume lossRate = targetLevel) :
    s.targetFlowSetting.volumeThreshold ≤ volume
      ∧ s.targetFlowSetting.lossRateThreshold ≤ lossRate := by
  unfold levelOf at h
  dsimp only at h
  split_ifs at h with h₁ <;> first | exact h₁ | exact absurd h (by decide)

/-- The flow updated gets its level from the volume that is stored for it. -/
theorem targetOk_updateRateAndLevel {v : UInt32} {volume : ℤ}
    (hv : b.flowVolumeMap.get g = some v) (hvolume : toInt v = volume)
    (h : f ≠ g → b.TargetOk s f) (lossVolume : ℤ) :
    (b.updateRateAndLevel s g volume lossVolume).TargetOk s f := by
  unfold TargetOk updateRateAndLevel
  dsimp only
  rw [htKfsViGet_updateFlowSelectedLevelMap, htKfsVfSet, get_set]
  by_cases hfg : f = g
  · subst hfg
    rw [if_pos rfl, if_pos rfl]
    intro hlevel
    obtain ⟨hvolume', hrate⟩ := levelOf_eq_target hlevel
    exact ⟨⟨v, hv, by rw [hvolume]; exact hvolume'⟩, _, rfl, hrate⟩
  · rw [if_neg hfg, if_neg hfg]
    exact h hfg

theorem TargetOk.updateFlowNormalVolume (h : b.TargetOk s f) (n : ℤ) :
    (b.updateFlowNormalVolume s g n).TargetOk s f := by
  unfold Buffer.updateFlowNormalVolume
  split_ifs with hn
  · generalize hvolume : intAdd (orZero (htKfsViGet b.flowVolumeMap g)) n = volume
    have hstored : toInt (toUInt volume) = volume := by rw [← hvolume, intAdd, toUInt_toInt]
    refine targetOk_updateRateAndLevel ?_ hstored (fun hfg => ?_) _
    · dsimp only
      rw [htKfsViSet, get_set, if_pos rfl]
    · unfold TargetOk
      dsimp only
      rw [htKfsViSet, get_set, if_neg hfg]
      exact h
  · exact h

theorem TargetOk.updateFlowLossVolume (h : b.TargetOk s f) (n : ℤ) (rand : ℚ) :
    (b.updateFlowLossVolume s g n rand).TargetOk s f := by
  unfold Buffer.updateFlowLossVolume
  dsimp only
  split_ifs with hn hvolume
  · exact h
  · -- the volume of a flow whose loss is recorded is known
    obtain ⟨v, hv⟩ : ∃ v, b.flowVolumeMap.get g = some v := by
      rw [← Option.isSome_iff_exists, Option.isSome_iff_ne_none]
      intro hnone
      rw [htKfsViGet, hnone] at hvolume
      exact hvolume (by decide)
    have hget : toInt v = htKfsViGet b.flowVolumeMap g := by rw [htKfsViGet, hv]
    exact targetOk_updateRateAndLevel hv hget (fun _ => h) _
  · exact h

end Buffer

/-! ## Runs of intervals -/

/-- The calls of an interval. -/
def runUpdates (setting : CmExperimentSetting) (w : DataWarehouse) (calls : List UpdateCall) :
    DataWarehouse :=
  calls.foldl (UpdateCall.exec setting) w

/-- Intervals, each with its calls and the time of the rotation that ends it. -/
def runIntervals (setting : ReportSetting) (w : DataWarehouse)
    (intervals : List (List UpdateCall × UInt64)) : DataWarehouse :=
  intervals.foldl (fun w interval =>
    (rotateInterval setting (runUpdates setting.toCmExperimentSetting w interval.1) interval.2).1) w

/-- What holds of the active buffer in an interval. -/
structure Buffer.Reached (s : CmExperimentSetting) (b : Buffer) : Prop where
  cursors : b.CursorsReset
  targets : ∀ f, b.TargetOk s f

theorem Buffer.reached_create (s : CmExperimentSetting) : (Buffer.create s).Reached s where
  cursors := CursorsReset.create
  targets _ := targetOk_create

theorem reached_exec {s : CmExperimentSetting} (h : w.active.Reached s) (c : UpdateCall) :
    (c.exec s w).active.Reached s := by
  cases c with
  | normal g n =>
    rw [UpdateCall.exec, updateFlowNormalVolume, DataWarehouse.active_modifyActive]
    exact ⟨h.cursors.updateFlowNormalVolume g n, fun f => (h.targets f).updateFlowNormalVolume n⟩
  | loss g n rand =>
    rw [UpdateCall.exec, updateFlowLossVolume, DataWarehouse.active_modifyActive]
    exact ⟨h.cursors.updateFlowLossVolume g n rand,
      fun f => (h.targets f).updateFlowLossVolume n rand⟩

theorem unactive_exec {s : CmExperimentSetting} (c : UpdateCall) :
    (c.exec s w).unactive = w.unactive := by
  cases c <;> exact DataWarehouse.unactive_modifyActive _ _

theorem reached_runUpdates {s : CmExperimentSetting} (h : w.active.Reached s)
    (calls : List UpdateCall) : (runUpdates s w calls).active.Reached s
      ∧ (runUpdates s w calls).unactive = w.unactive := by
  induction calls generalizing w with
  | nil => exact ⟨h, rfl⟩
  | cons c calls ih =>
    obtain ⟨hactive, hunactive⟩ := ih (reached_exec h c)
    exact ⟨hactive, hunactive.trans (unactive_exec c)⟩

/-- Between the intervals both buffers are empty. -/
theorem active_writers (currentMsec : UInt64) :
    (reportInterval setting w currentMsec).1.active = w.active := by
  unfold reportInterval writeTargetFlowsToFile writeLastSentFlowSelectedLevelMapLostTargetFlow
    writeIntervalInfoToFile
  simp only [DataWarehouse.active_modifyUnactive]

theorem fresh_rotateInterval {s : ReportSetting}
    (h : w.unactive = Buffer.create s.toCmExperimentSetting) (currentMsec : UInt64) :
    (rotateInterval s w currentMsec).1.active = Buffer.create s.toCmExperimentSetting
      ∧ (rotateInterval s w currentMsec).1.unactive = Buffer.create s.toCmExperimentSetting := by
  unfold rotateInterval
  dsimp only
  rw [DataWarehouse.active_reset, DataWarehouse.unactive_reset, active_writers,
    DataWarehouse.active_rotate]
  exact ⟨h, rfl⟩

theorem fresh_runIntervals {s : ReportSetting}
    (hactive : w.active = Buffer.create s.toCmExperimentSetting)
    (hunactive : w.unactive = Buffer.create s.toCmExperimentSetting)
    (intervals : List (List UpdateCall × UInt64)) :
    (runIntervals s w intervals).active = Buffer.create s.toCmExperimentSetting := by
  induction intervals generalizing w with
  | nil => exact hactive
  | cons interval intervals ih =>
    have hreached : w.active.Reached s.toCmExperimentSetting := by
      rw [hactive]
      exact Buffer.reached_create _
    have hrun := (reached_runUpdates hreached interval.1).2
    obtain ⟨hactive', hunactive'⟩ := fresh_rotateInterval (hrun.trans hunactive) interval.2
    exact ih hactive' hunactive'

/-! ## Counting -/

theorem toInt_cond (v : UInt32) :
    toInt v = if v.toNat < 2 ^ 31 then (v.toNat : ℤ) else v.toNat - 2 ^ 32 := by
  have hint : toInt v = v.toBitVec.toInt := rfl
  have hnat : v.toBitVec.toNat = v.toNat := rfl
  rw [hint, BitVec.toInt_eq_toNat_cond, hnat]
  split_ifs <;> omega

/-- Volumes that reach the threshold and are not counted. -/
theorem not_aboveVolume_iff {v : UInt32}
    (hthreshold : IsInt setting.targetFlowSetting.volumeThreshold)
    (hle : setting.targetFlowSetting.volumeThreshold ≤ toInt v) :
    AboveVolume setting v = false ↔ toInt v = setting.targetFlowSetting.volumeThreshold
      ∨ setting.targetFlowSetting.volumeThreshold < 0 ∧ 0 ≤ toInt v := by
  have hlt := v.toNat_lt
  have h₁ := hthreshold.1
  have h₂ := hthreshold.2
  have hnat : ((toUInt setting.targetFlowSetting.volumeThreshold).toNat : ℤ)
      = setting.targetFlowSetting.volumeThreshold % 2 ^ 32 := by
    rw [toUInt, UInt32.ofInt, UInt32.toNat_ofNat']
    omega
  rw [AboveVolume, decide_eq_false_iff_not, gt_iff_lt, UInt32.lt_iff_toNat_lt]
  rw [toInt_cond] at hle ⊢
  split_ifs at hle ⊢ <;> omega

theorem not_aboveRate_iff {r : ℚ} (hle : setting.targetFlowSetting.lossRateThreshold ≤ r) :
    AboveRate setting r = false ↔ r = setting.targetFlowSetting.lossRateThreshold := by
  rw [AboveRate, decide_eq_false_iff_not, gt_iff_lt, not_lt]
  exact ⟨fun h => le_antisymm h hle, fun h => h.le⟩

section Tables

variable {V : Type*} {t : Lib.Table flowSrcKeying V}

/-- The entries that a loop over a table of flows visits have different keys. -/
theorem nodup_keys_pass (h : t.AtReset) : (t.pass.2.map Prod.fst).Nodup := by
  obtain ⟨-, -, -, hnodup⟩ := Lib.Table.pass_spec h
  refine List.Nodup.of_map flowSrcKeying.rank ?_
  rwa [List.map_map]

theorem mem_pass_iff (h : t.AtReset) {f : FlowSrc} {v : V} :
    (f, v) ∈ t.pass.2 ↔ t.get f = some v := by
  obtain ⟨-, hmem, hcomplete, -⟩ := Lib.Table.pass_spec h
  refine ⟨fun he => hmem (f, v) he, fun hv => ?_⟩
  obtain ⟨⟨k, v'⟩, he, hrank, rfl⟩ := hcomplete f v hv
  obtain rfl : k = f := flowSrcKeying_rank.1 hrank
  exact he

/-- Flows of a table are no more than its entries with `p`, exactly if no more of them are without
`p` than other flows have it. -/
theorem length_le_countP_pass_iff (h : t.AtReset) {flows : List FlowSrc} (hflows : flows.Nodup)
    {value : FlowSrc → V} (hvalue : ∀ f ∈ flows, t.get f = some (value f)) (p : V → Bool) :
    flows.length ≤ t.pass.2.countP (fun e => p e.2)
      ↔ {f | f ∈ flows ∧ p (value f) = false}.ncard
        ≤ {f | f ∉ flows ∧ ∃ v, t.get f = some v ∧ p v}.ncard := by
  have hkeys := nodup_keys_pass h
  rw [Lib.length_le_countP_iff hkeys hflows (fun f hf => (mem_pass_iff h).2 (hvalue f hf)),
    Lib.countP_eq_ncard hflows, Lib.countP_entries_eq_ncard hkeys]
  refine iff_of_eq (congrArg₂ (· ≤ ·) (congrArg _ ?_) (congrArg _ ?_))
  · ext f
    simp
  · ext f
    simp only [Set.mem_ofPred_eq, mem_pass_iff h, Bool.and_eq_true, Bool.not_eq_true',
      decide_eq_false_iff_not]
    exact ⟨fun ⟨v, hv, hp, hf⟩ => ⟨hf, v, hv, hp⟩, fun ⟨hf, v, hv, hp⟩ => ⟨v, hv, hp, hf⟩⟩

end Tables

variable {s : CmExperimentSetting}

theorem targetOk_reported (h : w.unactive.Reached s) {f : FlowSrc} (hf : f ∈ reportedFlows w) :
    (∃ v, w.unactive.flowVolumeMap.get f = some v
        ∧ s.targetFlowSetting.volumeThreshold ≤ toInt v)
      ∧ ∃ r, w.unactive.flowLossRateMap.get f = some r
        ∧ s.targetFlowSetting.lossRateThreshold ≤ r :=
  h.targets f ((mem_reportedFlows h.cursors.level).1 hf).1

theorem target_le_volumeOk_iff (h : w.unactive.Reached setting.toCmExperimentSetting)
    (hthreshold : IsInt setting.targetFlowSetting.volumeThreshold) :
    targetFlowNum w ≤ volumeOkFlowNum setting w
      ↔ {f | IsTargetFlow w f ∧ OnVolumeThreshold setting w f}.ncard
        ≤ {f | ¬ IsTargetFlow w f ∧ OverVolumeThreshold setting w f}.ncard := by
  have hvalue : ∀ f ∈ reportedFlows w, w.unactive.flowVolumeMap.get f
      = some ((w.unactive.flowVolumeMap.get f).getD 0) := by
    intro f hf
    obtain ⟨⟨v, hv, -⟩, -⟩ := targetOk_reported h hf
    rw [hv]
    rfl
  rw [targetFlowNum, volumeOkFlowNum, length_le_countP_pass_iff h.cursors.volume
    (reportedFlows_nodup h.cursors.level) hvalue]
  simp only [mem_reportedFlows h.cursors.level, OverVolumeThreshold]
  refine iff_of_eq (congrArg (· ≤ _) (congrArg _ (Set.ext fun f => and_congr_right fun hf => ?_)))
  obtain ⟨⟨v, hv, hle⟩, -⟩ := targetOk_reported h ((mem_reportedFlows h.cursors.level).2 hf)
  have hget : htKfsViGet w.unactive.flowVolumeMap f = toInt v := by rw [htKfsViGet, hv]
  rw [hv, Option.getD_some, not_aboveVolume_iff hthreshold hle, OnVolumeThreshold, hget]

theorem target_le_lossRateOk_iff (h : w.unactive.Reached setting.toCmExperimentSetting) :
    targetFlowNum w ≤ lossRateOkFlowNum setting w
      ↔ {f | IsTargetFlow w f ∧ OnRateThreshold setting w f}.ncard
        ≤ {f | ¬ IsTargetFlow w f ∧ OverRateThreshold setting w f}.ncard := by
  have hvalue : ∀ f ∈ reportedFlows w, w.unactive.flowLossRateMap.get f
      = some (htKfsVfGet w.unactive.flowLossRateMap f) := by
    intro f hf
    obtain ⟨-, r, hr, -⟩ := targetOk_reported h hf
    rw [htKfsVfGet, hr]
    rfl
  rw [targetFlowNum, lossRateOkFlowNum, length_le_countP_pass_iff h.cursors.rate
    (reportedFlows_nodup h.cursors.level) hvalue]
  simp only [mem_reportedFlows h.cursors.level, OverRateThreshold]
  refine iff_of_eq (congrArg (· ≤ _) (congrArg _ (Set.ext fun f => and_congr_right fun hf => ?_)))
  obtain ⟨-, r, hr, hle⟩ := targetOk_reported h ((mem_reportedFlows h.cursors.level).2 hf)
  have hget : htKfsVfGet w.unactive.flowLossRateMap f = r := by rw [htKfsVfGet, hr]; rfl
  rw [hget, not_aboveRate_iff hle, OnRateThreshold, hget]

/-- After any intervals and the calls of one more, the numbers of its report agree exactly if few
target flows sit on the thresholds. -/
theorem report_consistent_iff (setting : ReportSetting)
    (hthreshold : IsInt setting.targetFlowSetting.volumeThreshold) (tasks : List Task)
    (past : List (List UpdateCall × UInt64)) (calls : List UpdateCall) (currentMsec : UInt64) :
    let s := setting.toCmExperimentSetting
    let w := dataWareRotateBuffer
      (runUpdates s (runIntervals setting (dataWarehouseInit s tasks) past) calls)
    Consistent setting w currentMsec ↔ FewOnThresholds setting w := by
  intro s w
  have hactive : (runIntervals setting (dataWarehouseInit s tasks) past).active
      = Buffer.create s := fresh_runIntervals rfl rfl past
  have hreached : w.unactive.Reached s := by
    rw [DataWarehouse.unactive_rotate]
    refine (reached_runUpdates ?_ calls).1
    rw [hactive]
    exact Buffer.reached_create s
  have hvolume := target_le_volumeOk_iff hreached hthreshold
  have hrate := target_le_lossRateOk_iff hreached
  constructor
  · intro h
    exact ⟨hvolume.1 h.target_le_volumeOk, hrate.1 h.target_le_lossRateOk⟩
  · intro h
    refine ⟨hvolume.2 h.volume, hrate.2 h.rate, ?_, rowNum_eq hreached.cursors currentMsec⟩
    exact List.countP_le_length

/-- A rate above the threshold of 1/4 can be recorded as 1/4. -/
example : exampleSetting.lossRate 67108864 16777217 = 1 / 4 := by decide +kernel

/-! ## A report of one flow -/

section Example

open Sampling (exampleFlow exampleTask)

def exampleInterval (sent lost : ℤ) : List UpdateCall :=
  [.normal exampleFlow sent, .loss exampleFlow lost 0]

/-- After the rotation that ends the first interval. -/
def exampleEnd (sent lost : ℤ) : DataWarehouse :=
  dataWareRotateBuffer (runUpdates exampleSetting
    (runIntervals exampleReportSetting (dataWarehouseInit exampleSetting [exampleTask]) [])
    (exampleInterval sent lost))

theorem unactive_exampleEnd (sent lost : ℤ) : (exampleEnd sent lost).unactive
    = Buffer.updateFlowLossVolume exampleSetting exampleFlow lost 0
      (Buffer.updateFlowNormalVolume exampleSetting exampleFlow sent
        (Buffer.create exampleSetting)) := by
  rw [exampleEnd, DataWarehouse.unactive_rotate, runUpdates, exampleInterval, List.foldl_cons,
    List.foldl_cons, List.foldl_nil, UpdateCall.exec, UpdateCall.exec, updateFlowLossVolume,
    DataWarehouse.active_modifyActive, updateFlowNormalVolume, DataWarehouse.active_modifyActive]
  rfl

theorem reached_exampleEnd (sent lost : ℤ) :
    (exampleEnd sent lost).unactive.Reached exampleSetting := by
  rw [exampleEnd, DataWarehouse.unactive_rotate]
  exact (reached_runUpdates (Buffer.reached_create _) _).1

theorem eq_of_isTargetFlow {sent lost : ℤ} {f : FlowSrc}
    (h : IsTargetFlow (exampleEnd sent lost) f) : f = exampleFlow := by
  have hlevel := h.1
  by_contra hf
  rw [unactive_exampleEnd, Buffer.level_updateFlowLossVolume, if_neg hf,
    Buffer.level_updateFlowNormalVolume, if_neg hf, Buffer.create, htKfsViGet_create] at hlevel
  cases hlevel

/-- Of 150 bytes 60 were lost; the threshold is at 100 bytes and a loss rate of 1/4. -/
theorem report_consistent_example :
    Consistent exampleReportSetting (exampleEnd 150 60) 3600000 := by
  have hnone : ∀ {p : FlowSrc → Prop}, ¬ p exampleFlow →
      {f | IsTargetFlow (exampleEnd 150 60) f ∧ p f}.ncard = 0 := by
    intro p hp
    have hempty : {f | IsTargetFlow (exampleEnd 150 60) f ∧ p f} = ∅ := by
      refine Set.eq_empty_iff_forall_notMem.2 ?_
      rintro f ⟨htarget, hf⟩
      exact hp (eq_of_isTargetFlow htarget ▸ hf)
    rw [hempty, Set.ncard_empty]
  refine (report_consistent_iff exampleReportSetting (by decide) [exampleTask] []
    (exampleInterval 150 60) 3600000).2 ⟨?_, ?_⟩
  · refine (hnone ?_).le.trans (Nat.zero_le _)
    unfold OnVolumeThreshold
    decide +kernel
  · refine (hnone ?_).le.trans (Nat.zero_le _)
    unfold OnRateThreshold
    decide +kernel

/-- A flow of exactly 100 bytes is a target, and no flow is counted. -/
theorem report_inconsistent :
    ¬ Consistent exampleReportSetting (exampleEnd 100 40) 3600000 := by
  have hcursors := (reached_exampleEnd 100 40).cursors
  have hmem : exampleFlow ∈ reportedFlows (exampleEnd 100 40) := by
    rw [mem_reportedFlows hcursors.level]
    unfold IsTargetFlow
    decide +kernel
  have hvolume : volumeOkFlowNum exampleReportSetting (exampleEnd 100 40) = 0 := by
    refine List.countP_eq_zero.2 fun e he => ?_
    have hget := (Lib.Table.pass_spec hcursors.volume).2.1 e he
    by_cases hf : e.1 = exampleFlow
    · have hvalue : (exampleEnd 100 40).unactive.flowVolumeMap.get exampleFlow = some 100 := by
        decide +kernel
      rw [hf, hvalue, Option.some.injEq] at hget
      rw [← hget]
      decide
    · rw [unactive_exampleEnd, Buffer.flowVolumeMap_updateFlowLossVolume,
        Buffer.updateFlowNormalVolume, if_pos (by decide)] at hget
      dsimp only [Buffer.updateRateAndLevel] at hget
      rw [htKfsViSet, get_set, if_neg hf, Buffer.create, htKfsViCreate,
        Lib.Table.get_create] at hget
      cases hget
  intro h
  have hle := h.target_le_volumeOk
  rw [hvolume, Nat.le_zero, targetFlowNum, List.length_eq_zero_iff] at hle
  rw [hle] at hmem
  cases hmem

end Example

end CMTestbed
