import CMTestbed.Divisions
import CMTestbed.Proofs.Consistency
import CMTestbed.Proofs.Counters
import CMTestbed.Proofs.Levels
import CMTestbed.Proofs.Priority

/-!
# No division by zero

Every divisor is a constant, but one: the size of the table of fixed size, which is the setting it
was created with.  The table is used only with `FIXED`, and then by every packet, so the runs are
safe exactly if that size is not 0; the check of the settings lets it be 0
(`no_division_by_zero_iff`).
-/

namespace CMTestbed.Divisions

open Lib (Divided)

/-! ## The results -/

section Results
variable {setting : CmExperimentSetting}

@[simp] theorem result_inTable {α : Type} (key : FlowSrc) (a : α) :
    (inTable key a).result = a := rfl

@[simp] theorem result_inFixSize {α : Type} (t : HtKfsFixSize) (key : FlowSrc) (a : α) :
    (inFixSize t key a).result = a := rfl

@[simp] theorem result_inLedger {α : Type} (key : FlowS) (a : α) :
    (inLedger key a).result = a := rfl

@[simp] theorem result_nextIdx {α : Type} (a : α) : (nextIdx a).result = a := rfl

theorem result_flowSrcHashBin (f : FlowSrc) (mapSize : UInt32) :
    (flowSrcHashBin f mapSize).result = CMTestbed.flowSrcHashBin f mapSize := rfl

@[simp] theorem result_updateFlowSelectedLevelMap (map : HtKfsVi) (f : FlowSrc)
    (volume lossVolume : ℤ) (lossRate : ℚ) :
    (updateFlowSelectedLevelMap setting map f volume lossVolume lossRate).result
      = CMTestbed.updateFlowSelectedLevelMap setting map f volume lossVolume lossRate := by
  unfold updateFlowSelectedLevelMap CMTestbed.updateFlowSelectedLevelMap
  dsimp only
  split_ifs <;> rfl

@[simp] theorem result_updateRateAndLevel (f : FlowSrc) (volume lossVolume : ℤ) (b : Buffer) :
    (updateRateAndLevel setting f volume lossVolume b).result
      = b.updateRateAndLevel setting f volume lossVolume := by
  unfold updateRateAndLevel Buffer.updateRateAndLevel
  simp only [Divided.result_bind, Divided.result_pure, result_updateFlowSelectedLevelMap]
  rfl

@[simp] theorem result_lossVolumeUsed (f : FlowSrc) (lossVolume : ℤ) (b : Buffer) :
    (lossVolumeUsed setting f lossVolume b).result = b.lossVolumeUsed setting f lossVolume := by
  unfold lossVolumeUsed Buffer.lossVolumeUsed
  cases setting.senderSetting.lossMapMemType <;> rfl

theorem result_addFixedLoss (f : FlowSrc) (n : ℤ) (rand : ℚ) (lossVolume : ℤ) (b : Buffer) :
    (addFixedLoss setting f n rand lossVolume b).result
      = if setting.senderSetting.lossMapMemType = SenderMemType.fixed
          ∧ CMTestbed.samplePacketFixSizeMapSender setting f lossVolume rand
            b.fixedFlowLossVolumeMap then
          CMTestbed.htKfsFixSizeAddValue b.fixedFlowLossVolumeMap f (toUInt n)
        else b.fixedFlowLossVolumeMap := by
  unfold addFixedLoss
  by_cases hfixed : setting.senderSetting.lossMapMemType = SenderMemType.fixed
  · simp only [hfixed, true_and, Divided.result_bind, Divided.result_ite]
    rfl
  · rw [if_neg hfixed, if_neg fun h => hfixed h.1]
    rfl

@[simp] theorem result_recordLoss (f : FlowSrc) (n : ℤ) (rand : ℚ) (volume : ℤ) (b : Buffer) :
    (recordLoss setting f n rand volume b).result = b.recordLoss setting f n rand volume := by
  unfold recordLoss Buffer.recordLoss
  simp only [Divided.result_bind, result_addFixedLoss, result_lossVolumeUsed,
    result_updateRateAndLevel]
  rfl

@[simp] theorem result_updateFlowLossVolume (f : FlowSrc) (n : ℤ) (rand : ℚ) (b : Buffer) :
    (updateFlowLossVolume setting f n rand b).result = b.updateFlowLossVolume setting f n rand := by
  unfold updateFlowLossVolume Buffer.updateFlowLossVolume
  simp only [Divided.result_bind, Divided.result_ite, Divided.result_pure, result_recordLoss]
  rfl

@[simp] theorem result_updateFlowNormalVolume (f : FlowSrc) (n : ℤ) (b : Buffer) :
    (updateFlowNormalVolume setting f n b).result = b.updateFlowNormalVolume setting f n := by
  unfold updateFlowNormalVolume Buffer.updateFlowNormalVolume
  simp only [Divided.result_bind, Divided.result_ite, Divided.result_pure, result_lossVolumeUsed,
    result_updateRateAndLevel]
  rfl

theorem result_samplePacket (f : FlowSrc) (totalPktLen : ℤ) (rand : ℚ) (map : HtKfsVi) :
    (samplePacket setting f totalPktLen rand map).result
      = CMTestbed.samplePacket setting f totalPktLen rand map := by
  unfold samplePacket CMTestbed.samplePacket
  simp only [Divided.result_bind, Divided.result_ite, Divided.result_pure]
  rfl

theorem result_updateFlowNotSampledVolume (f : FlowSrc) (b : Buffer) :
    (updateFlowNotSampledVolume f b).result = b.updateFlowNotSampledVolume f := by
  unfold updateFlowNotSampledVolume Buffer.updateFlowNotSampledVolume
  simp only [Divided.result_bind, Divided.result_ite, Divided.result_pure]
  rfl

theorem result_sampleFlow (f : FlowSrc) (totalPktLen : ℤ) (rand : ℚ) (b : Buffer) :
    (sampleFlow setting f totalPktLen rand b).result
      = if CMTestbed.htKfsViGet b.flowSelectedLevelMap f > noSelectedLevel then
          (b.flowSampleMap, true)
        else CMTestbed.samplePacket setting f totalPktLen rand b.flowSampleMap := by
  unfold sampleFlow
  simp only [Divided.result_bind, Divided.result_ite, Divided.result_pure, result_samplePacket]
  rfl

theorem result_sampleAtHost (f : FlowSrc) (totalPktLen : ℤ) (rand : ℚ) (b : Buffer) :
    (sampleAtHost setting f totalPktLen rand b).result
      = b.sampleAtHost setting f totalPktLen rand := by
  unfold sampleAtHost Buffer.sampleAtHost
  simp only [Divided.result_bind, Divided.result_ite, Divided.result_pure, result_sampleFlow,
    result_updateFlowNotSampledVolume]
  generalize (if CMTestbed.htKfsViGet b.flowSelectedLevelMap f > noSelectedLevel then
    (b.flowSampleMap, true)
    else CMTestbed.samplePacket setting f totalPktLen rand b.flowSampleMap) = r
  obtain ⟨map, sampled⟩ := r
  cases sampled <;> rfl

theorem result_tagPacket (task : Task) (f : FlowSrc) (totalPktLen : ℤ) (rand : ℚ) (b : Buffer) :
    (tagPacket setting task f totalPktLen rand b).result
      = b.tagPacket setting task f totalPktLen rand := by
  unfold tagPacket Buffer.tagPacket sampleInMode
  cases setting.hostOrSwitchSample with
  | hostSample =>
    simp only [Divided.result_bind, Divided.result_ite, Divided.result_pure, result_sampleAtHost,
      true_and]
    cases setting.injectOrTagPacket with
    | injectPktAsCondition => rfl
    | tagPktAsCondition =>
      have hlevel : ∀ level : ℤ, (if level > noSelectedLevel then some level else none)
          = if InjectTagPkt.tagPktAsCondition = .tagPktAsCondition ∧ level > noSelectedLevel then
              some level else none := by
        intro level
        simp only [true_and]
      rw [if_pos rfl, hlevel]
      rfl
  | switchSample => rfl

theorem result_tagIfMonitored (tasks : List Task) (f : FlowSrc) (totalPktLen : ℤ) (rand : ℚ)
    (b : Buffer) : (tagIfMonitored setting tasks f totalPktLen rand b).result
      = b.tagIfMonitored setting tasks f totalPktLen rand := by
  unfold tagIfMonitored Buffer.tagIfMonitored
  cases getTaskOfTraffic tasks f with
  | none => rfl
  | some task => exact result_tagPacket task f totalPktLen rand b

theorem result_handleHeaders (w : DataWarehouse) (flow : FlowS) (seqid totalPktLen : UInt32)
    (rand : ℚ) : (handleHeaders setting w flow seqid totalPktLen rand).result
      = CMTestbed.handleHeaders setting w flow seqid totalPktLen rand := by
  unfold handleHeaders CMTestbed.handleHeaders
  simp only [Divided.result_bind, Divided.result_pure, result_tagIfMonitored,
    result_updateFlowNormalVolume]
  rfl

theorem result_cmHandleIpv4Packet (w : DataWarehouse) (p : Handling.Packet) :
    (cmHandleIpv4Packet setting w p).result
      = CMTestbed.cmHandleIpv4Packet setting w p.packetBuf p.totalPktLen p.datalink p.rand := by
  unfold cmHandleIpv4Packet CMTestbed.cmHandleIpv4Packet Handling.Packet.headers
  cases sentHeaders p.packetBuf p.totalPktLen p.datalink with
  | none => rfl
  | some headers => exact result_handleHeaders _ _ _ _ _

theorem result_flowInforUpdate (w : DataWarehouse) (flow : FlowS) (receSeqid : UInt32) (rand : ℚ) :
    (flowInforUpdate setting w flow receSeqid rand).result
      = CMTestbed.flowInforUpdate setting w flow receSeqid rand := by
  unfold flowInforUpdate CMTestbed.flowInforUpdate CMTestbed.updateFlowLossVolume
  simp only [Divided.result_bind, Divided.result_ite, Divided.result_pure,
    result_updateFlowLossVolume]
  rfl

end Results

section Rotations
variable {setting : ReportSetting}

theorem result_targetFlowRow (w : DataWarehouse) (f : FlowSrc) :
    (targetFlowRow setting w f).result = CMTestbed.targetFlowRow setting w f := by
  unfold targetFlowRow CMTestbed.targetFlowRow writtenLossVolume lossVolumeUsed
  simp only [Divided.result_bind, Divided.result_pure]
  cases setting.senderSetting.lossMapMemType <;> rfl

theorem result_writeTargetFlowsToFile (w : DataWarehouse) :
    (writeTargetFlowsToFile setting w).result = CMTestbed.writeTargetFlowsToFile setting w := by
  unfold writeTargetFlowsToFile CMTestbed.writeTargetFlowsToFile
  simp only [Divided.result_bind, Divided.result_pure, Divided.result_each, result_targetFlowRow,
    List.flatMap_def]

theorem result_rotateInterval (w : DataWarehouse) (currentMsec afterRotateMsec : UInt64) :
    (rotateInterval setting w currentMsec afterRotateMsec).result
      = CMTestbed.rotateInterval setting w currentMsec := by
  unfold rotateInterval CMTestbed.rotateInterval reportInterval
  simp only [Divided.result_bind, Divided.result_pure, result_writeTargetFlowsToFile]
  rfl

/-- The events without their divisors. -/
def stepResult (setting : ReportSetting) (w : DataWarehouse) : Event → DataWarehouse
  | .packet p => (CMTestbed.cmHandleIpv4Packet setting.toCmExperimentSetting w p.packetBuf
      p.totalPktLen p.datalink p.rand).1
  | .report flow receSeqid rand =>
    CMTestbed.flowInforUpdate setting.toCmExperimentSetting w flow receSeqid rand
  | .rotate currentMsec _ => (CMTestbed.rotateInterval setting w currentMsec).1

theorem result_step (w : DataWarehouse) (e : Event) :
    (step setting w e).result = stepResult setting w e := by
  cases e with
  | packet p =>
    rw [step, Divided.result_bind, Divided.result_pure, result_cmHandleIpv4Packet]
    rfl
  | report flow receSeqid rand => exact result_flowInforUpdate w flow receSeqid rand
  | rotate currentMsec afterRotateMsec =>
    rw [step, Divided.result_bind, Divided.result_pure, result_rotateInterval]
    rfl

end Rotations

/-! ## What is safe -/

section Tables
variable {α : Type}

@[simp] theorem safe_flowSrcHashBin (f : FlowSrc) (mapSize : UInt32) :
    (flowSrcHashBin f mapSize).Safe ↔ mapSize.toNat ≠ 0 := by
  simp only [flowSrcHashBin, Divided.safe_bind, Divided.safe_dividedBy, Divided.safe_pure, and_true]

@[simp] theorem safe_inTable (key : FlowSrc) (a : α) : (inTable key a).Safe := by
  have hsize : hashMapSize.toNat ≠ 0 := by decide
  simp only [inTable, Divided.safe_bind, safe_flowSrcHashBin, Divided.safe_pure, and_true]
  exact hsize

@[simp] theorem safe_inFixSize (t : HtKfsFixSize) (key : FlowSrc) (a : α) :
    (inFixSize t key a).Safe ↔ t.size.toNat ≠ 0 := by
  have hsize : hashMapMutexSize.toNat ≠ 0 := by decide
  simp only [inFixSize, Divided.safe_bind, safe_flowSrcHashBin, Divided.safe_dividedBy,
    Divided.safe_pure, and_true]
  exact ⟨fun h => h.1, fun h => ⟨h, hsize, hsize⟩⟩

@[simp] theorem safe_inLedger (key : FlowS) (a : α) : (inLedger key a).Safe := by
  have hsize : hashMapSize.toNat ≠ 0 := by decide
  simp only [inLedger, Divided.safe_bind, Divided.safe_dividedBy, Divided.safe_pure, and_true]
  exact hsize

@[simp] theorem safe_nextIdx (a : α) : (nextIdx a).Safe :=
  (Divided.safe_dividedBy _ _).2 (by decide)

@[simp] theorem safe_readMsec (msec : UInt64) : (readMsec msec).Safe :=
  (Divided.safe_dividedBy _ _).2 (by decide)

@[simp] theorem safe_htKfsViGet (t : HtKfsVi) (key : FlowSrc) : (htKfsViGet t key).Safe :=
  safe_inTable _ _

@[simp] theorem safe_htKfsViSet (t : HtKfsVi) (key : FlowSrc) (value : UInt32) :
    (htKfsViSet t key value).Safe := safe_inTable _ _

@[simp] theorem safe_htKfsVfGet (t : HtKfsVf) (key : FlowSrc) : (htKfsVfGet t key).Safe :=
  safe_inTable _ _

@[simp] theorem safe_htKfsVfSet (t : HtKfsVf) (key : FlowSrc) (value : ℚ) :
    (htKfsVfSet t key value).Safe := safe_inTable _ _

end Tables

/-- The size may be divided by, where the table of fixed size is used. -/
def SizeOk (setting : CmExperimentSetting) (b : Buffer) : Prop :=
  setting.senderSetting.lossMapMemType = .fixed → b.fixedFlowLossVolumeMap.size.toNat ≠ 0

section Updates
variable {setting : CmExperimentSetting} {b : Buffer}

@[simp] theorem safe_updateFlowSelectedLevelMap (map : HtKfsVi) (f : FlowSrc)
    (volume lossVolume : ℤ) (lossRate : ℚ) :
    (updateFlowSelectedLevelMap setting map f volume lossVolume lossRate).Safe := by
  unfold updateFlowSelectedLevelMap
  dsimp only
  split_ifs <;> exact safe_inTable _ _

@[simp] theorem safe_updateRateAndLevel (f : FlowSrc) (volume lossVolume : ℤ) :
    (updateRateAndLevel setting f volume lossVolume b).Safe := by
  simp [updateRateAndLevel]

@[simp] theorem safe_lossVolumeUsed (f : FlowSrc) (lossVolume : ℤ) :
    (lossVolumeUsed setting f lossVolume b).Safe ↔ SizeOk setting b := by
  unfold lossVolumeUsed SizeOk htKfsFixSizeValue
  cases setting.senderSetting.lossMapMemType with
  | infinite => exact iff_of_true (Divided.safe_pure _) nofun
  | fixed => simp only [safe_inFixSize, true_imp_iff]

theorem safe_addFixedLoss (h : SizeOk setting b) (f : FlowSrc) (n : ℤ) (rand : ℚ)
    (lossVolume : ℤ) : (addFixedLoss setting f n rand lossVolume b).Safe := by
  unfold addFixedLoss samplePacketFixSizeMapSender htKfsFixSizeIsSampled htKfsFixSizeAddValue
  refine Divided.safe_ite (fun hfixed => ?_) fun _ => Divided.safe_pure _
  have hsize := h hfixed
  simp only [Divided.safe_bind, safe_inFixSize, Divided.safe_pure, and_true]
  exact ⟨hsize, Divided.safe_ite (fun _ => (safe_inFixSize _ _ _).2 hsize)
    fun _ => Divided.safe_pure _⟩

theorem size_htKfsFixSizeAddValue (t : HtKfsFixSize) (f : FlowSrc) (delta : UInt32) :
    (CMTestbed.htKfsFixSizeAddValue t f delta).size = t.size := by
  show (FixSizeOp.exec true t (.addValue f delta)).size = t.size
  exact size_exec _

theorem size_addFixedLoss (f : FlowSrc) (n : ℤ) (rand : ℚ) (lossVolume : ℤ) :
    (addFixedLoss setting f n rand lossVolume b).result.size = b.fixedFlowLossVolumeMap.size := by
  rw [result_addFixedLoss]
  split_ifs
  · exact size_htKfsFixSizeAddValue _ _ _
  · rfl

theorem safe_recordLoss (h : SizeOk setting b) (f : FlowSrc) (n : ℤ) (rand : ℚ) (volume : ℤ) :
    (recordLoss setting f n rand volume b).Safe := by
  simp only [recordLoss, Divided.safe_bind, safe_htKfsViGet, safe_htKfsViSet, true_and,
    safe_updateRateAndLevel, and_true, safe_lossVolumeUsed]
  refine ⟨safe_addFixedLoss h f n rand _, fun hfixed => ?_⟩
  dsimp only
  rw [size_addFixedLoss]
  exact h hfixed

theorem safe_updateFlowLossVolume (h : SizeOk setting b) (f : FlowSrc) (n : ℤ) (rand : ℚ) :
    (updateFlowLossVolume setting f n rand b).Safe := by
  have hsize : hashMapSize.toNat ≠ 0 := by decide
  simp only [updateFlowLossVolume, Divided.safe_bind, safe_flowSrcHashBin]
  refine ⟨hsize, Divided.safe_ite (fun _ => ?_) fun _ => Divided.safe_pure _⟩
  simp only [Divided.safe_bind, safe_htKfsViGet, true_and]
  exact Divided.safe_ite (fun _ => Divided.safe_pure _) fun _ => safe_recordLoss h f n rand _

/-- Every packet that is not empty looks into the table of fixed size. -/
theorem safe_updateFlowNormalVolume (f : FlowSrc) (n : ℤ) :
    (updateFlowNormalVolume setting f n b).Safe ↔ (0 < n → SizeOk setting b) := by
  have hsize : hashMapSize.toNat ≠ 0 := by decide
  simp only [updateFlowNormalVolume, Divided.safe_bind, safe_flowSrcHashBin]
  by_cases hn : 0 < n
  · simp only [if_pos hn, Divided.safe_bind, safe_htKfsViGet, safe_htKfsViSet, true_and,
      safe_updateRateAndLevel, and_true, safe_lossVolumeUsed]
    exact ⟨fun h _ => h.2, fun h => ⟨hsize, h hn⟩⟩
  · simp only [if_neg hn, Divided.safe_pure, and_true]
    exact ⟨fun _ h => absurd h hn, fun _ => hsize⟩

end Updates

section Packets
variable {setting : CmExperimentSetting} {b : Buffer} {w : DataWarehouse}

theorem safe_updateFlowNotSampledVolume (f : FlowSrc) : (updateFlowNotSampledVolume f b).Safe := by
  simp only [updateFlowNotSampledVolume, Divided.safe_bind, safe_htKfsViGet, true_and]
  refine Divided.safe_ite (fun _ => ?_) fun _ => Divided.safe_pure _
  simp only [Divided.safe_bind, safe_htKfsViGet, safe_htKfsViSet, Divided.safe_pure, and_self]

theorem safe_samplePacket (f : FlowSrc) (n : ℤ) (rand : ℚ) (map : HtKfsVi) :
    (samplePacket setting f n rand map).Safe := by
  simp only [samplePacket, flowSrcAlreadySampled, Divided.safe_bind, safe_htKfsViGet,
    Divided.safe_pure, true_and]
  refine Divided.safe_ite (fun _ => Divided.safe_pure _) fun _ =>
    Divided.safe_ite (fun _ => ?_) fun _ => Divided.safe_pure _
  simp only [Divided.safe_bind, safe_htKfsViSet, Divided.safe_pure, and_self]

theorem safe_sampleAtHost (f : FlowSrc) (n : ℤ) (rand : ℚ) :
    (sampleAtHost setting f n rand b).Safe := by
  simp only [sampleAtHost, sampleFlow, Divided.safe_bind, safe_htKfsViGet, true_and]
  refine ⟨Divided.safe_ite (fun _ => Divided.safe_pure _) fun _ => safe_samplePacket f n rand _,
    Divided.safe_ite (fun _ => ?_) fun _ => Divided.safe_pure _⟩
  simp only [Divided.safe_bind, Divided.safe_pure, and_true]
  exact safe_updateFlowNotSampledVolume f

theorem safe_sampleInMode (f : FlowSrc) (n : ℤ) (rand : ℚ) :
    (sampleInMode setting f n rand b).Safe := by
  unfold sampleInMode
  cases setting.hostOrSwitchSample with
  | hostSample => exact safe_sampleAtHost f n rand
  | switchSample => exact Divided.safe_pure _

theorem safe_tagPacket (task : Task) (f : FlowSrc) (n : ℤ) (rand : ℚ) :
    (tagPacket setting task f n rand b).Safe := by
  rw [tagPacket, Divided.safe_bind]
  refine ⟨safe_sampleInMode f n rand, Divided.safe_ite (fun _ => ?_) fun _ => Divided.safe_pure _⟩
  simp only [Divided.safe_bind, safe_htKfsViGet, Divided.safe_pure, and_self]

theorem safe_tagIfMonitored (tasks : List Task) (f : FlowSrc) (n : ℤ) (rand : ℚ) :
    (tagIfMonitored setting tasks f n rand b).Safe := by
  unfold tagIfMonitored
  cases getTaskOfTraffic tasks f with
  | none => exact Divided.safe_pure _
  | some task => exact safe_tagPacket task f n rand

theorem safe_handleHeaders (flow : FlowS) (seqid totalPktLen : UInt32) (rand : ℚ) :
    (handleHeaders setting w flow seqid totalPktLen rand).Safe
      ↔ (0 < toInt totalPktLen → SizeOk setting w.active) := by
  obtain ⟨m, k, hframe⟩ := w.active.tagIfMonitored_frame setting flow.src w.taskManager
    (toInt totalPktLen) rand
  simp only [handleHeaders, Divided.safe_bind, safe_inLedger, safe_tagIfMonitored, true_and,
    Divided.safe_pure, and_true, safe_updateFlowNormalVolume, result_tagIfMonitored,
    result_inLedger]
  refine imp_congr_right fun _ => ?_
  show SizeOk setting (Buffer.tagIfMonitored setting w.taskManager flow.src (toInt totalPktLen) rand
    w.active).1 ↔ _
  rw [hframe]
  rfl

theorem safe_cmHandleIpv4Packet (p : Handling.Packet) : (cmHandleIpv4Packet setting w p).Safe
    ↔ (p.headers.isSome → 0 < toInt p.totalPktLen → SizeOk setting w.active) := by
  unfold cmHandleIpv4Packet
  split
  · next flow seqid h =>
    rw [safe_handleHeaders, h]
    simp
  · next h =>
    rw [h]
    exact iff_of_true (Divided.safe_pure _) nofun

theorem safe_flowInforUpdate (h : SizeOk setting w.active) (flow : FlowS) (receSeqid : UInt32)
    (rand : ℚ) : (flowInforUpdate setting w flow receSeqid rand).Safe := by
  simp only [flowInforUpdate, Divided.safe_bind, safe_inLedger, true_and]
  refine Divided.safe_ite (fun _ => ?_) fun _ => Divided.safe_pure _
  simp only [Divided.safe_bind, Divided.safe_pure, and_true]
  exact safe_updateFlowLossVolume h flow.src _ rand

end Packets

section Rotations
variable {setting : ReportSetting} {w : DataWarehouse}

theorem safe_targetFlowRow (h : SizeOk setting.toCmExperimentSetting w.unactive) (f : FlowSrc) :
    (targetFlowRow setting w f).Safe := by
  simp only [targetFlowRow, Divided.safe_bind, safe_htKfsViGet, safe_htKfsVfGet, true_and,
    safe_lossVolumeUsed, Divided.safe_pure, and_true]
  exact h

theorem safe_rotateInterval (h : SizeOk setting.toCmExperimentSetting w.active)
    (currentMsec afterRotateMsec : UInt64) :
    (rotateInterval setting w currentMsec afterRotateMsec).Safe := by
  have hthousand : (1000 : ℕ) ≠ 0 := by decide
  simp only [rotateInterval, writeIntervalInfoToFile,
    writeLastSentFlowSelectedLevelMapLostTargetFlow, writeTargetFlowsToFile, Divided.safe_bind,
    safe_nextIdx, safe_readMsec, Divided.safe_dividedBy, Divided.safe_pure, and_true, true_and,
    Divided.result_bind, result_nextIdx, Divided.result_pure]
  refine ⟨Divided.safe_each fun f _ => safe_htKfsViGet _ f,
    ⟨Divided.safe_each fun _ _ => safe_nextIdx _, Divided.safe_each fun f _ => ?_⟩, hthousand,
    hthousand⟩
  refine safe_targetFlowRow ?_ f
  -- the two other writers only move cursors
  intro hfixed
  have hsize := h hfixed
  unfold CMTestbed.writeLastSentFlowSelectedLevelMapLostTargetFlow
    CMTestbed.writeIntervalInfoToFile
  simp only [DataWarehouse.unactive_modifyUnactive, DataWarehouse.unactive_rotate]
  exact hsize

end Rotations

/-! ## Runs -/

/-- The tables of fixed size of both buffers have the size of the setting. -/
structure Sized (setting : CmExperimentSetting) (w : DataWarehouse) : Prop where
  active : w.active.fixedFlowLossVolumeMap.size = setting.senderSetting.fixLossMapBucketSize
  unactive : w.unactive.fixedFlowLossVolumeMap.size = setting.senderSetting.fixLossMapBucketSize

theorem sized_init (setting : CmExperimentSetting) (tasks : List Task) :
    Sized setting (dataWarehouseInit setting tasks) := ⟨rfl, rfl⟩

section Sizes
variable {setting : CmExperimentSetting} {b : Buffer} {w : DataWarehouse}

theorem size_updateFlowNormalVolume (f : FlowSrc) (n : ℤ) :
    (b.updateFlowNormalVolume setting f n).fixedFlowLossVolumeMap.size
      = b.fixedFlowLossVolumeMap.size := by
  unfold Buffer.updateFlowNormalVolume
  split_ifs <;> rfl

theorem size_updateFlowLossVolume (f : FlowSrc) (n : ℤ) (rand : ℚ) :
    (b.updateFlowLossVolume setting f n rand).fixedFlowLossVolumeMap.size
      = b.fixedFlowLossVolumeMap.size := by
  by_cases h : 0 < n ∧ 0 ≤ CMTestbed.htKfsViGet b.flowVolumeMap f
  · rw [Buffer.fixedFlowLossVolumeMap_updateFlowLossVolume b f h.1 h.2]
    split_ifs
    · exact size_htKfsFixSizeAddValue _ _ _
    · rfl
  · rw [Buffer.fixedFlowLossVolumeMap_updateFlowLossVolume_of_not h]

/-- A change of the active buffer that keeps the size. -/
theorem Sized.modifyActive (h : Sized setting w) {f : Buffer → Buffer}
    (hf : (f w.active).fixedFlowLossVolumeMap.size = w.active.fixedFlowLossVolumeMap.size) :
    Sized setting (w.modifyActive f) := by
  refine ⟨?_, ?_⟩
  · rw [DataWarehouse.active_modifyActive, hf, h.active]
  · rw [DataWarehouse.unactive_modifyActive, h.unactive]

theorem Sized.handleHeaders (h : Sized setting w) (flow : FlowS) (seqid totalPktLen : UInt32)
    (rand : ℚ) :
    Sized setting (CMTestbed.handleHeaders setting w flow seqid totalPktLen rand).1 := by
  obtain ⟨m, k, hframe⟩ := w.active.tagIfMonitored_frame setting flow.src w.taskManager
    (toInt totalPktLen) rand
  have htagged : (w.active.tagIfMonitored setting w.taskManager flow.src (toInt totalPktLen)
      rand).1.fixedFlowLossVolumeMap = w.active.fixedFlowLossVolumeMap := by rw [hframe]
  have hledger : Sized setting { w with
      flowRecePktListMap := htVlSet w.flowRecePktListMap flow seqid
        totalPktLen.toUInt16.toUInt32 } := ⟨h.active, h.unactive⟩
  exact hledger.modifyActive (f := fun _ => Buffer.countPacket totalPktLen.toUInt16
      (Buffer.updateFlowNormalVolume setting flow.src (toInt totalPktLen)
        (w.active.tagIfMonitored setting w.taskManager flow.src (toInt totalPktLen) rand).1))
    ((size_updateFlowNormalVolume _ _).trans (congrArg HtKfsFixSize.size htagged))

theorem Sized.cmHandleIpv4Packet (h : Sized setting w) (p : Handling.Packet) :
    Sized setting (CMTestbed.cmHandleIpv4Packet setting w p.packetBuf p.totalPktLen p.datalink
      p.rand).1 := by
  unfold CMTestbed.cmHandleIpv4Packet
  split
  · exact h.handleHeaders _ _ _ _
  · exact h

theorem Sized.flowInforUpdate (h : Sized setting w) (flow : FlowS) (receSeqid : UInt32)
    (rand : ℚ) : Sized setting (CMTestbed.flowInforUpdate setting w flow receSeqid rand) := by
  have hledger : Sized setting { w with
      flowRecePktListMap :=
        (htVlGetReceLostVolume w.flowRecePktListMap flow receSeqid).1 } := ⟨h.active, h.unactive⟩
  unfold CMTestbed.flowInforUpdate
  dsimp only
  split_ifs
  · exact hledger.modifyActive (size_updateFlowLossVolume _ _ _)
  · exact hledger

end Sizes

variable {setting : ReportSetting} {w : DataWarehouse}

theorem Sized.rotateInterval (h : Sized setting.toCmExperimentSetting w) (currentMsec : UInt64) :
    Sized setting.toCmExperimentSetting (CMTestbed.rotateInterval setting w currentMsec).1 := by
  unfold CMTestbed.rotateInterval
  refine ⟨?_, ?_⟩
  · dsimp only
    rw [DataWarehouse.active_reset, active_writers, DataWarehouse.active_rotate]
    exact h.unactive
  · dsimp only
    rw [DataWarehouse.unactive_reset]
    rfl

theorem Sized.step (h : Sized setting.toCmExperimentSetting w) (e : Event) :
    Sized setting.toCmExperimentSetting (step setting w e).result := by
  rw [result_step]
  cases e with
  | packet p => exact h.cmHandleIpv4Packet p
  | report flow receSeqid rand => exact h.flowInforUpdate flow receSeqid rand
  | rotate currentMsec _ => exact h.rotateInterval currentMsec

/-- The table of fixed size has no bin, and it is used. -/
def NoBins (setting : CmExperimentSetting) : Prop :=
  setting.senderSetting.lossMapMemType = .fixed ∧ setting.senderSetting.fixLossMapBucketSize = 0

theorem Sized.sizeOk (h : Sized setting.toCmExperimentSetting w)
    (hbins : ¬ NoBins setting.toCmExperimentSetting) :
    SizeOk setting.toCmExperimentSetting w.active := by
  intro hfixed hzero
  rw [h.active] at hzero
  exact hbins ⟨hfixed, UInt32.toNat_inj.1 hzero⟩

theorem safe_step (h : Sized setting.toCmExperimentSetting w)
    (hbins : ¬ NoBins setting.toCmExperimentSetting) (e : Event) : (step setting w e).Safe := by
  have hsize := h.sizeOk hbins
  cases e with
  | packet p =>
    simp only [step, Divided.safe_bind, Divided.safe_pure, and_true]
    exact (safe_cmHandleIpv4Packet p).2 fun _ _ => hsize
  | report flow receSeqid rand => exact safe_flowInforUpdate hsize flow receSeqid rand
  | rotate currentMsec afterRotateMsec =>
    simp only [step, Divided.safe_bind, Divided.safe_pure, and_true]
    exact safe_rotateInterval hsize currentMsec afterRotateMsec

theorem safe_run (hbins : ¬ NoBins setting.toCmExperimentSetting) (tasks : List Task)
    (events : List Event) : (run setting tasks events).Safe := by
  simp only [run, Divided.safe_bind, Divided.safe_pure, true_and]
  have hstep : ∀ w e, Sized setting.toCmExperimentSetting w →
      (step setting w e).Safe ∧ Sized setting.toCmExperimentSetting (step setting w e).result :=
    fun w e hw => ⟨safe_step hw hbins e, hw.step e⟩
  exact Divided.safe_foldlM hstep (sized_init _ tasks) events

/-- A frame of 54 bytes. -/
def examplePacket : Handling.Packet := ⟨exampleFrame [], 54, dltEn10mb, 0⟩

/-- Without bins the first packet divides by 0. -/
theorem not_safe_run (hbins : NoBins setting.toCmExperimentSetting) :
    ¬ (run setting [] [.packet examplePacket]).Safe := by
  intro h
  have hheaders : examplePacket.headers.isSome = true := by decide +kernel
  have hlen : 0 < toInt examplePacket.totalPktLen := by decide
  simp only [run, step, List.foldlM_cons, List.foldlM_nil, Divided.safe_bind, Divided.safe_pure,
    true_and, and_true, safe_cmHandleIpv4Packet] at h
  refine h hheaders hlen hbins.1 ?_
  show setting.senderSetting.fixLossMapBucketSize.toNat = 0
  rw [hbins.2]
  rfl

/-- With settings read from a file that is accepted, no run divides by 0, unless the table of fixed
size is used and has the size 0. -/
theorem no_division_by_zero_iff (floats : Lib.Rounding) (round : ℚ → ℚ)
    (lines : List (List UInt8)) (setting : ExperimentSetting)
    (_haccepted : initCmExperimentSetting floats round lines = some setting) :
    (∀ tasks events, (run setting.toReportSetting tasks events).Safe)
      ↔ ¬ NoBins setting.toCmExperimentSetting := by
  refine ⟨fun h hbins => not_safe_run hbins (h [] [.packet examplePacket]),
    fun h tasks events => ?_⟩
  exact safe_run h tasks events

theorem no_division_by_zero_example : ∃ setting,
    initCmExperimentSetting .float id (exampleLines "500" "1" "4166") = some setting
      ∧ ∀ tasks events, (run setting.toReportSetting tasks events).Safe := by
  obtain ⟨setting, hsetting, -, -, hsize⟩ := exampleLines_accepted
  refine ⟨setting, hsetting, (no_division_by_zero_iff .float id _ setting hsetting).2 fun h => ?_⟩
  have hzero := h.2
  rw [hsize] at hzero
  cases hzero

/-- A file with `sender_loss_map_mem_type:1` and `fix_loss_map_bucket_size:0` is accepted. -/
theorem divides_by_zero : ∃ setting,
    initCmExperimentSetting .float id (exampleLines "500" "1" "0") = some setting
      ∧ ¬ (run setting.toReportSetting [] [.packet examplePacket]).Safe := by
  obtain ⟨setting, hsetting, hfixed, hsize⟩ :
      ∃ setting ∈ initCmExperimentSetting .float id (exampleLines "500" "1" "0"),
        setting.senderSetting.lossMapMemType = .fixed
          ∧ setting.senderSetting.fixLossMapBucketSize = 0 := by decide +kernel
  exact ⟨setting, hsetting, not_safe_run ⟨hfixed, hsize⟩⟩

end CMTestbed.Divisions
