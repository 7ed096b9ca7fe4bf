import CMTestbed.Sampling
import CMTestbed.Intervals

/-!
# When a sampled flow is held

A flow that has had a packet tagged is held as long as it is in the map of sampled flows or has a
selected level.  The map keeps what it has, but a packet sampled for its flow's level does not put
the flow there.  So the flow is held as long as no update takes the level of such a flow away.
-/

namespace CMTestbed

namespace Buffer

variable {setting : CmExperimentSetting} (b : Buffer) (f g : FlowSrc)

/-! ## The level that an update leaves -/

/-- The loss volume that the level is made of, with a loss counted. -/
def countedLoss (setting : CmExperimentSetting) (n : ℤ) (rand : ℚ) : ℤ :=
  let lossVolume := intAdd (orZero (htKfsViGet b.flowLossVolumeMap f)) n
  match setting.senderSetting.lossMapMemType with
  | .infinite => lossVolume
  | .fixed =>
    if samplePacketFixSizeMapSender setting f lossVolume rand b.fixedFlowLossVolumeMap then
      (htKfsFixSizeAddValue b.fixedFlowLossVolumeMap f (toUInt n)).value f
    else b.fixedFlowLossVolumeMap.value f

/-- The level of the updated flow, with the update counted. -/
def countedLevel (setting : CmExperimentSetting) : UpdateCall → ℤ
  | .normal f n =>
    if 0 < n then
      let volume := intAdd (orZero (htKfsViGet b.flowVolumeMap f)) n
      let lossVolume := b.lossVolumeUsed setting f (orZero (htKfsViGet b.flowLossVolumeMap f))
      levelOf setting volume lossVolume (setting.lossRate volume lossVolume)
    else htKfsViGet b.flowSelectedLevelMap f
  | .loss f n rand =>
    if 0 < n ∧ 0 ≤ htKfsViGet b.flowVolumeMap f then
      let volume := htKfsViGet b.flowVolumeMap f
      let lossVolume := b.countedLoss f setting n rand
      levelOf setting volume lossVolume (setting.lossRate volume lossVolume)
    else htKfsViGet b.flowSelectedLevelMap f

theorem level_updateFlowNormalVolume (n : ℤ) :
    htKfsViGet (b.updateFlowNormalVolume setting f n).flowSelectedLevelMap g
      = if g = f then b.countedLevel setting (.normal f n)
        else htKfsViGet b.flowSelectedLevelMap g := by
  unfold updateFlowNormalVolume countedLevel
  by_cases hn : 0 < n
  · simp only [if_pos hn, updateRateAndLevel]
    exact htKfsViGet_updateFlowSelectedLevelMap _ _ _ _ _ _ _
  · simp only [if_neg hn]
    split_ifs with hg
    · rw [hg]
    · rfl

theorem lossVolumeUsed_recordLoss (n : ℤ) (rand : ℚ) (m : HtKfsVi) :
    lossVolumeUsed setting f (intAdd (orZero (htKfsViGet b.flowLossVolumeMap f)) n) { b with
      flowLossVolumeMap := m
      fixedFlowLossVolumeMap :=
        if setting.senderSetting.lossMapMemType = SenderMemType.fixed
            ∧ samplePacketFixSizeMapSender setting f
              (intAdd (orZero (htKfsViGet b.flowLossVolumeMap f)) n) rand
              b.fixedFlowLossVolumeMap then
          htKfsFixSizeAddValue b.fixedFlowLossVolumeMap f (toUInt n)
        else b.fixedFlowLossVolumeMap } = b.countedLoss f setting n rand := by
  unfold lossVolumeUsed countedLoss
  cases setting.senderSetting.lossMapMemType with
  | infinite => rfl
  | fixed =>
    simp only [true_and]
    split_ifs <;> rfl

theorem level_recordLoss (n : ℤ) (rand : ℚ) (volume : ℤ) :
    htKfsViGet (b.recordLoss setting f n rand volume).flowSelectedLevelMap g
      = if g = f then levelOf setting volume (b.countedLoss f setting n rand)
          (setting.lossRate volume (b.countedLoss f setting n rand))
        else htKfsViGet b.flowSelectedLevelMap g := by
  unfold recordLoss updateRateAndLevel
  dsimp only
  rw [htKfsViGet_updateFlowSelectedLevelMap, lossVolumeUsed_recordLoss]

theorem level_updateFlowLossVolume (n : ℤ) (rand : ℚ) :
    htKfsViGet (b.updateFlowLossVolume setting f n rand).flowSelectedLevelMap g
      = if g = f then b.countedLevel setting (.loss f n rand)
        else htKfsViGet b.flowSelectedLevelMap g := by
  unfold updateFlowLossVolume countedLevel
  dsimp only
  by_cases hcounted : 0 < n ∧ 0 ≤ htKfsViGet b.flowVolumeMap f
  · have hvol : ¬ htKfsViGet b.flowVolumeMap f < 0 := by omega
    rw [if_pos hcounted, if_pos hcounted.1, if_neg hvol, level_recordLoss]
    rfl
  · rw [if_neg hcounted]
    have hsame : (if g = f then htKfsViGet b.flowSelectedLevelMap f
        else htKfsViGet b.flowSelectedLevelMap g) = htKfsViGet b.flowSelectedLevelMap g := by
      split_ifs with hg
      · rw [hg]
      · rfl
    rw [hsame]
    by_cases hn : 0 < n
    · have hvol : htKfsViGet b.flowVolumeMap f < 0 := by omega
      rw [if_pos hn, if_pos hvol]
    · rw [if_neg hn]

@[simp] theorem flowSampleMap_updateFlowNormalVolume (n : ℤ) :
    (b.updateFlowNormalVolume setting f n).flowSampleMap = b.flowSampleMap := by
  unfold updateFlowNormalVolume
  split_ifs <;> rfl

@[simp] theorem flowSampleMap_updateFlowLossVolume (n : ℤ) (rand : ℚ) :
    (b.updateFlowLossVolume setting f n rand).flowSampleMap = b.flowSampleMap := by
  unfold updateFlowLossVolume recordLoss
  dsimp only
  split_ifs <;> rfl

/-! ## Sampling a packet -/

/-- The flow is in the map of sampled flows or has a selected level. -/
def Held (f : FlowSrc) : Prop :=
  flowSrcAlreadySampled f b.flowSampleMap = true
    ∨ noSelectedLevel < htKfsViGet b.flowSelectedLevelMap f

/-- Sampling changes the map of sampled flows and the volumes not sampled, nothing else. -/
theorem sampleAtHost_frame (setting : CmExperimentSetting) (n : ℤ) (rand : ℚ) :
    ∃ m k, (b.sampleAtHost setting f n rand).1
      = { b with flowSampleMap := m, flowNotSampledVolumeMap := k } := by
  unfold sampleAtHost updateFlowNotSampledVolume
  dsimp only
  split_ifs <;> exact ⟨_, _, rfl⟩

/-- Which flows are in the map of sampled flows afterwards. -/
theorem sampled_sampleAtHost (setting : CmExperimentSetting) (n : ℤ) (rand : ℚ) :
    flowSrcAlreadySampled g (b.sampleAtHost setting f n rand).1.flowSampleMap = true ↔
      flowSrcAlreadySampled g b.flowSampleMap = true ∨ g = f
        ∧ ¬ noSelectedLevel < htKfsViGet b.flowSelectedLevelMap f
        ∧ (b.sampleAtHost setting f n rand).2 = true := by
  have hkeep : ∀ m : HtKfsVi, ∀ s : Bool,
      (if s then Buffer.updateFlowNotSampledVolume f { b with flowSampleMap := m }
        else { b with flowSampleMap := m }).flowSampleMap = m := by
    intro m s
    unfold updateFlowNotSampledVolume
    split_ifs <;> rfl
  unfold sampleAtHost
  dsimp only
  rw [hkeep]
  by_cases hlevel : htKfsViGet b.flowSelectedLevelMap f > noSelectedLevel
  · rw [if_pos hlevel]
    exact ⟨.inl, fun h => h.resolve_right fun h' => h'.2.1 hlevel⟩
  · simp only [if_neg hlevel]
    unfold samplePacket
    by_cases halready : flowSrcAlreadySampled f b.flowSampleMap = true
    · simp only [if_pos halready]
      constructor
      · exact .inl
      · rintro (h | ⟨rfl, -⟩)
        · exact h
        · exact halready
    · simp only [if_neg halready]
      split_ifs
      · have hset : flowSrcAlreadySampled g (htKfsViSet b.flowSampleMap f 1) = true ↔
            flowSrcAlreadySampled g b.flowSampleMap = true ∨ g = f := by
          unfold flowSrcAlreadySampled
          rw [htKfsViGet_set, decide_eq_true_iff, decide_eq_true_iff]
          by_cases hg : g = f
          · rw [if_pos hg]
            exact ⟨fun _ => .inr hg, fun _ => by decide⟩
          · rw [if_neg hg]
            exact ⟨.inl, fun h => h.resolve_right hg⟩
        rw [hset]
        simp [hlevel]
      · simp

/-- A flow that is held has its packet tagged. -/
theorem Held.sampled {b : Buffer} {f : FlowSrc} (h : b.Held f) (n : ℤ) (rand : ℚ) :
    (b.sampleAtHost setting f n rand).2 = true := by
  unfold sampleAtHost
  dsimp only
  by_cases hlevel : htKfsViGet b.flowSelectedLevelMap f > noSelectedLevel
  · rw [if_pos hlevel]
  · rw [if_neg hlevel]
    unfold samplePacket
    rw [if_pos (h.resolve_right hlevel)]

end Buffer

/-! ## Runs -/

namespace Sampling

variable {setting : CmExperimentSetting}

/-- No update takes the level of a tagged flow away, unless the flow is in the map of sampled flows.
A packet is tagged before it is counted. -/
def KeepsLevel (setting : CmExperimentSetting) (s : Sampling) (e : Event) : Prop :=
  let b := s.warehouse.active
  let keeps (f : FlowSrc) (c : UpdateCall) : Prop :=
    flowSrcAlreadySampled f b.flowSampleMap = false →
      noSelectedLevel < htKfsViGet b.flowSelectedLevelMap f →
        noSelectedLevel < b.countedLevel setting c
  match e with
  | .packet packetBuf totalPktLen datalink _ =>
    ∀ r ∈ sentHeaders packetBuf totalPktLen datalink,
      getTaskOfTraffic s.warehouse.taskManager r.1.src ≠ none →
        keeps r.1.src (.normal r.1.src (toInt totalPktLen))
  | .loss f n rand => s.tagged f = true → keeps f (.loss f n rand)

instance (s : Sampling) : ∀ e, Decidable (s.KeepsLevel setting e)
  | .packet packetBuf totalPktLen datalink _ =>
    inferInstanceAs (Decidable (∀ r ∈ sentHeaders packetBuf totalPktLen datalink, _ → _ → _ → _))
  | .loss _ _ _ => inferInstanceAs (Decidable (_ → _ → _ → _))

/-- A tagged flow belongs to a task and is held. -/
def Inv (s : Sampling) : Prop :=
  ∀ f, s.tagged f = true →
    getTaskOfTraffic s.warehouse.taskManager f ≠ none ∧ s.warehouse.active.Held f

theorem inv_start (w : DataWarehouse) : (start w).Inv := fun _ h => by cases h

/-- An update of a flow that is held leaves it held if it leaves its level. -/
theorem held_of_level {b b' : Buffer} {f g : FlowSrc} {level : ℤ} (h : b.Held f)
    (hmap : b'.flowSampleMap = b.flowSampleMap)
    (hlevel : htKfsViGet b'.flowSelectedLevelMap f
      = if f = g then level else htKfsViGet b.flowSelectedLevelMap f)
    (hkeeps : f = g → flowSrcAlreadySampled f b.flowSampleMap = false →
      noSelectedLevel < htKfsViGet b.flowSelectedLevelMap f → noSelectedLevel < level) :
    b'.Held f := by
  unfold Buffer.Held at h ⊢
  rw [hmap, hlevel]
  by_cases halready : flowSrcAlreadySampled f b.flowSampleMap = true
  · exact .inl halready
  · have hpos := h.resolve_left halready
    split_ifs with hg
    · exact .inr (hkeeps hg (Bool.eq_false_of_not_eq_true halready) hpos)
    · exact .inr hpos

theorem inv_loss {s : Sampling} (h : s.Inv) (f : FlowSrc) (n : ℤ) (rand : ℚ)
    (hok : s.KeepsLevel setting (.loss f n rand)) :
    Inv { s with warehouse := updateFlowLossVolume setting s.warehouse f n rand } := by
  intro g hg
  obtain ⟨htask, hheld⟩ := h g hg
  refine ⟨htask, ?_⟩
  dsimp only [updateFlowLossVolume]
  rw [DataWarehouse.active_modifyActive]
  refine held_of_level hheld (Buffer.flowSampleMap_updateFlowLossVolume _ _ _ _)
    (Buffer.level_updateFlowLossVolume _ f g n rand) ?_
  rintro rfl
  exact hok hg

section Packet
variable {s : Sampling} {packetBuf : Frame} {totalPktLen : UInt32} {datalink : ℤ} {rand : ℚ}
  {flow : FlowS} {seqid : UInt32}

theorem active_handleHeaders (w : DataWarehouse) :
    (handleHeaders setting w flow seqid totalPktLen rand).1.active = Buffer.countPacket
      totalPktLen.toUInt16 (Buffer.updateFlowNormalVolume setting flow.src (toInt totalPktLen)
        (w.active.tagIfMonitored setting w.taskManager flow.src (toInt totalPktLen) rand).1) :=
  DataWarehouse.active_modifyActive _ _

theorem taskManager_handleHeaders (w : DataWarehouse) :
    (handleHeaders setting w flow seqid totalPktLen rand).1.taskManager = w.taskManager := rfl

/-- A packet of another flow leaves a flow held. -/
theorem held_of_other {w : DataWarehouse} {g : FlowSrc} (hg : g ≠ flow.src)
    (h : w.active.Held g) (hmode : setting.hostOrSwitchSample = .hostSample) :
    (handleHeaders setting w flow seqid totalPktLen rand).1.active.Held g := by
  obtain ⟨m, k, hframe⟩ := w.active.sampleAtHost_frame flow.src setting (toInt totalPktLen) rand
  have hmap := w.active.sampled_sampleAtHost flow.src g setting (toInt totalPktLen)
    rand
  rw [active_handleHeaders]
  unfold Buffer.Held Buffer.countPacket
  dsimp only
  rw [Buffer.flowSampleMap_updateFlowNormalVolume, Buffer.level_updateFlowNormalVolume, if_neg hg]
  unfold Buffer.tagIfMonitored
  split
  · unfold Buffer.tagPacket
    simp only [hmode]
    rw [hmap, hframe]
    exact h.imp_left .inl
  · exact h

theorem sampled_handleHeaders (w : DataWarehouse)
    (hmode : setting.hostOrSwitchSample = .hostSample) :
    (handleHeaders setting w flow seqid totalPktLen rand).2.sampled = true ↔
      getTaskOfTraffic w.taskManager flow.src ≠ none
        ∧ (w.active.sampleAtHost setting flow.src (toInt totalPktLen) rand).2 = true := by
  change (w.active.tagIfMonitored setting w.taskManager flow.src (toInt totalPktLen)
    rand).2.sampled = true ↔ _
  unfold Buffer.tagIfMonitored
  split
  · next task htask =>
    unfold Buffer.tagPacket
    simp [hmode, htask]
  · next htask => simp [PacketTags.none, htask]

/-- A flow whose packet was tagged is held, if the packet leaves its level. -/
theorem held_of_sampled {w : DataWarehouse} (hmode : setting.hostOrSwitchSample = .hostSample)
    (hkeeps : flowSrcAlreadySampled flow.src w.active.flowSampleMap = false →
      noSelectedLevel < htKfsViGet w.active.flowSelectedLevelMap flow.src →
        noSelectedLevel
          < w.active.countedLevel setting (.normal flow.src (toInt totalPktLen)))
    (hsampled : (handleHeaders setting w flow seqid totalPktLen rand).2.sampled = true) :
    (handleHeaders setting w flow seqid totalPktLen rand).1.active.Held flow.src := by
  obtain ⟨htask, hs⟩ := (sampled_handleHeaders w hmode).1 hsampled
  obtain ⟨m, k, hframe⟩ := w.active.sampleAtHost_frame flow.src setting (toInt totalPktLen) rand
  have hmap := w.active.sampled_sampleAtHost flow.src flow.src setting
    (toInt totalPktLen) rand
  rw [active_handleHeaders]
  unfold Buffer.Held Buffer.countPacket
  dsimp only
  rw [Buffer.flowSampleMap_updateFlowNormalVolume, Buffer.level_updateFlowNormalVolume,
    if_pos rfl]
  unfold Buffer.tagIfMonitored
  split
  swap
  · next hnone => exact absurd hnone htask
  unfold Buffer.tagPacket
  simp only [hmode]
  rw [hmap]
  by_cases halready : flowSrcAlreadySampled flow.src w.active.flowSampleMap = true
  · exact .inl (.inl halready)
  by_cases hlevel : noSelectedLevel < htKfsViGet w.active.flowSelectedLevelMap flow.src
  · rw [hframe]
    exact .inr (hkeeps (Bool.eq_false_of_not_eq_true halready) hlevel)
  · exact .inl (.inr ⟨rfl, hlevel, hs⟩)

theorem inv_packet (hmode : setting.hostOrSwitchSample = .hostSample) (h : s.Inv)
    (hsent : sentHeaders packetBuf totalPktLen datalink = some (flow, seqid))
    (hok : s.KeepsLevel setting (.packet packetBuf totalPktLen datalink rand)) :
    Inv {
      warehouse := (handleHeaders setting s.warehouse flow seqid totalPktLen rand).1
      tagged := fun f => s.tagged f
        || (handleHeaders setting s.warehouse flow seqid totalPktLen rand).2.sampled
          && decide (flow.src = f) } := by
  intro g hg
  simp only [Bool.or_eq_true, Bool.and_eq_true, decide_eq_true_eq] at hg
  dsimp only
  rw [taskManager_handleHeaders]
  by_cases hflow : g = flow.src
  · subst hflow
    have hsampled : (handleHeaders setting s.warehouse flow seqid totalPktLen rand).2.sampled
        = true := by
      rcases hg with hg | hg
      · obtain ⟨htask, hheld⟩ := h _ hg
        exact (sampled_handleHeaders s.warehouse hmode).2 ⟨htask, hheld.sampled _ _⟩
      · exact hg.1
    have htask := ((sampled_handleHeaders s.warehouse hmode).1 hsampled).1
    have hkeeps := hok (flow, seqid) hsent htask
    exact ⟨htask, held_of_sampled hmode hkeeps hsampled⟩
  · obtain ⟨htask, hheld⟩ := h g (hg.resolve_right fun h' => hflow h'.2.symm)
    exact ⟨htask, held_of_other hflow hheld hmode⟩

end Packet

theorem inv_step (hmode : setting.hostOrSwitchSample = .hostSample) (s : Sampling) (e : Event)
    (s' : Sampling) (h : s.Inv) (hok : s.KeepsLevel setting e)
    (hs : (system setting).step s e = some s') : s'.Inv := by
  cases e with
  | packet packetBuf totalPktLen datalink rand =>
    rcases hsent : sentHeaders packetBuf totalPktLen datalink with _ | ⟨flow, seqid⟩
    · simp only [system, step, cmHandleIpv4Packet, hsent, Option.any_none, Bool.and_false,
        Bool.or_false, Option.some.injEq] at hs
      exact hs ▸ h
    · simp only [system, step, cmHandleIpv4Packet, hsent, Option.any_some, Option.some.injEq] at hs
      exact hs ▸ inv_packet hmode h hsent hok
  | loss f n rand =>
    cases hs
    exact inv_loss h f n rand hok

/-- Once sampled, always held: in a run whose updates leave the levels of the tagged flows that are
not in the map of sampled flows, each packet of a flow that has had one tagged is tagged. -/
theorem sampled_flows_held (setting : CmExperimentSetting)
    (hmode : setting.hostOrSwitchSample = .hostSample) (w : DataWarehouse) (es : List Event)
    (hok : (system setting).Meets (KeepsLevel setting) (start w) es) (s : Sampling)
    (hrun : (system setting).run (start w) es = some s) (packetBuf : Frame)
    (totalPktLen : UInt32) (datalink : ℤ) (rand : ℚ) (flow : FlowS) (seqid : UInt32)
    (hsent : sentHeaders packetBuf totalPktLen datalink = some (flow, seqid))
    (htagged : s.tagged flow.src = true) :
    (cmHandleIpv4Packet setting s.warehouse packetBuf totalPktLen datalink rand).2.sampled
      = true := by
  obtain ⟨htask, hheld⟩ := Lib.System.run_inv_of (inv_step hmode) (inv_start w) hok hrun _ htagged
  rw [cmHandleIpv4Packet, hsent]
  exact (sampled_handleHeaders s.warehouse hmode).2 ⟨htask, hheld.sampled _ _⟩

/-- The flow of `exampleFrame`, and a task for it. -/
def exampleFlow : FlowSrc := ⟨0x0a000001, 0x0b000002⟩
def exampleTask : Task := ⟨[1], 0x0a000000, 0x0b000000⟩

/-- Two packets of 100 bytes, with a loss in between. -/
def exampleRun (lost : ℤ) : List Event :=
  [.packet (exampleFrame []) 100 dltEn10mb 0, .loss exampleFlow lost 0,
    .packet (exampleFrame []) 100 dltEn10mb 0]

/-- With 90 bytes lost the flow keeps its level, and so its third packet is tagged too. -/
theorem sampled_flows_held_example : ∃ s,
    (system exampleSetting).run (start (dataWarehouseInit exampleSetting [exampleTask]))
        (exampleRun 90) = some s
      ∧ s.tagged exampleFlow = true
      ∧ (cmHandleIpv4Packet exampleSetting s.warehouse (exampleFrame []) 100 dltEn10mb 0).2.sampled
        = true := by
  have hok : (system exampleSetting).Meets (KeepsLevel exampleSetting)
      (start (dataWarehouseInit exampleSetting [exampleTask])) (exampleRun 90) := by
    decide +kernel
  have htagged : ((system exampleSetting).run
      (start (dataWarehouseInit exampleSetting [exampleTask])) (exampleRun 90)).any
        (fun s => s.tagged exampleFlow) = true := by
    decide +kernel
  obtain ⟨s, hs, hd⟩ := (Option.any_eq_true _ _).1 htagged
  have hsent : sentHeaders (exampleFrame []) 100 dltEn10mb
      = some (⟨0x0a000001, 0x0b000002, 80, 8080, 6⟩, 7) := by
    decide
  exact ⟨s, hs, hd, sampled_flows_held _ rfl _ _ hok s hs _ _ _ 0 _ _ hsent hd⟩

/-- With 40 bytes lost the second packet, tagged for its flow's level, takes the level away: the
third packet is not tagged. -/
theorem sampled_flow_dropped : ∃ s,
    (system exampleSetting).run (start (dataWarehouseInit exampleSetting [exampleTask]))
        (exampleRun 40) = some s
      ∧ s.tagged exampleFlow = true
      ∧ (cmHandleIpv4Packet exampleSetting s.warehouse (exampleFrame []) 100 dltEn10mb 0).2.sampled
        = false := by
  have hrun : ((system exampleSetting).run
      (start (dataWarehouseInit exampleSetting [exampleTask])) (exampleRun 40)).any (fun s =>
        s.tagged exampleFlow && !(cmHandleIpv4Packet exampleSetting s.warehouse (exampleFrame [])
          100 dltEn10mb 0).2.sampled) = true := by
    decide +kernel
  obtain ⟨s, hs, hd⟩ := (Option.any_eq_true _ _).1 hrun
  simp only [Bool.and_eq_true, Bool.not_eq_true'] at hd
  exact ⟨s, hs, hd⟩

end Sampling

end CMTestbed
