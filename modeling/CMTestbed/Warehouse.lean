import CMTestbed.Ledger
import CMTestbed.Lib.Floats

/-!
# The data warehouse

Per interval the sender keeps, for each `<srcip, dstip>` flow, the volume sent, the volume lost,
the loss rate and the selected level.  These are double-buffered: `data_ware_rotate_buffer` swaps
the two buffers, and `data_warehouse_reset_noactive_buf` clears the one that was reported.  The
ledger has a single buffer.  Allocation is taken to succeed.

The source's arrays of `BUFFER_NUM` maps are here one `Buffer` per index.  A loss rate is a quotient
rounded to a `float`; how, the settings say, so that rates read as exact are a case of it.  The
sampling rates are read as exact.
-/

namespace CMTestbed

/-! ## Settings -/

inductive SenderMemType where
  | infinite
  | fixed
  deriving DecidableEq, Repr

inductive HostSwitchSample where
  | hostSample
  | switchSample
  deriving DecidableEq, Repr

inductive InjectTagPkt where
  | injectPktAsCondition
  | tagPktAsCondition
  deriving DecidableEq, Repr

structure TargetFlowSetting where
  volumeThreshold : ℤ
  lossRateThreshold : ℚ
  lossVolumeThreshold : ℤ
  selectedLossVolumeThreshold : ℤ

structure SenderSetting where
  lossMapMemType : SenderMemType
  fixLossMapBucketSize : UInt32
  defaultLossByteSamplingRate : ℚ

/-- The part of `cm_experiment_setting_t` that the sender's bookkeeping reads, and how the machine
rounds to a `float`. -/
structure CmExperimentSetting where
  floats : Lib.Rounding
  hostOrSwitchSample : HostSwitchSample
  injectOrTagPacket : InjectTagPkt
  defaultByteSamplingRate : ℚ
  targetFlowSetting : TargetFlowSetting
  senderSetting : SenderSetting

/-- `1.0 * loss_volume / volume`, in a `float`. -/
def CmExperimentSetting.lossRate (setting : CmExperimentSetting) (volume lossVolume : ℤ) : ℚ :=
  setting.floats.round (lossVolume / volume)

def noSelectedLevel : ℤ := 0
def selectedLevel : ℤ := 1
def targetLevel : ℤ := 2

/-! ## Buffers -/

/-- The maps and counters of one buffer index. -/
structure Buffer where
  flowVolumeMap : HtKfsVi
  fixedFlowLossVolumeMap : HtKfsFixSize
  flowLossVolumeMap : HtKfsVi
  flowLossRateMap : HtKfsVf
  flowSelectedLevelMap : HtKfsVi
  flowSampleMap : HtKfsVi
  flowNotSampledVolumeMap : HtKfsVi
  pktNumSent : UInt64
  volumeSent : UInt64
  conditionPktNumSent : UInt64
  volumeLost : UInt64

def Buffer.create (setting : CmExperimentSetting) : Buffer where
  flowVolumeMap := htKfsViCreate
  fixedFlowLossVolumeMap := htKfsFixSizeCreate setting.senderSetting.fixLossMapBucketSize
  flowLossVolumeMap := htKfsViCreate
  flowLossRateMap := htKfsVfCreate
  flowSelectedLevelMap := htKfsViCreate
  flowSampleMap := htKfsViCreate
  flowNotSampledVolumeMap := htKfsViCreate
  pktNumSent := 0
  volumeSent := 0
  conditionPktNumSent := 0
  volumeLost := 0

/-- `int` addition, which wraps around. -/
def intAdd (a b : ℤ) : ℤ := toInt (toUInt (a + b))

/-- A value looked up, 0 for the -1 of a missing one. -/
def orZero (value : ℤ) : ℤ := if value < 0 then 0 else value

/-- `pkt_sample_rate_trad` and `pkt_sample_rate_trad_sender`, at their byte sampling rates. -/
def pktSampleRate (byteSamplingRate : ℚ) (totalPktLen : ℤ) : ℚ :=
  let rate := byteSamplingRate * totalPktLen
  if rate > 1 then 1 else rate

/-- `rand` is what `drand48_r` draws. -/
def samplePacketFixSizeMapSender (setting : CmExperimentSetting) (pFlowSrc : FlowSrc)
    (totalPktLen : ℤ) (rand : ℚ) (flowSampleMap : HtKfsFixSize) : Bool :=
  if htKfsFixSizeIsSampled flowSampleMap pFlowSrc then true
  else decide (rand < pktSampleRate setting.senderSetting.defaultLossByteSamplingRate totalPktLen)

def updateFlowSelectedLevelMap (setting : CmExperimentSetting) (flowSelectedLevelMap : HtKfsVi)
    (pFlow : FlowSrc) (volume lossVolume : ℤ) (lossRate : ℚ) : HtKfsVi :=
  let target := setting.targetFlowSetting
  if target.volumeThreshold ≤ volume ∧ target.lossRateThreshold ≤ lossRate then
    if target.lossVolumeThreshold ≤ lossVolume then
      htKfsViSet flowSelectedLevelMap pFlow (toUInt targetLevel)
    else if target.selectedLossVolumeThreshold ≤ lossVolume then
      htKfsViSet flowSelectedLevelMap pFlow (toUInt selectedLevel)
    else htKfsViDel flowSelectedLevelMap pFlow
  else htKfsViDel flowSelectedLevelMap pFlow

namespace Buffer

variable (setting : CmExperimentSetting)

/-- The end of both updates: the loss rate, and the selected level. -/
def updateRateAndLevel (pFlow : FlowSrc) (volume lossVolume : ℤ) (b : Buffer) : Buffer :=
  let lossRate := setting.lossRate volume lossVolume
  { b with
    flowLossRateMap := htKfsVfSet b.flowLossRateMap pFlow lossRate
    flowSelectedLevelMap :=
      updateFlowSelectedLevelMap setting b.flowSelectedLevelMap pFlow volume lossVolume lossRate }

/-- With a loss map of fixed size, the loss volume is read back from it. -/
def lossVolumeUsed (pFlow : FlowSrc) (lossVolume : ℤ) (b : Buffer) : ℤ :=
  match setting.senderSetting.lossMapMemType with
  | .infinite => lossVolume
  | .fixed => b.fixedFlowLossVolumeMap.value pFlow

/-- A loss of a flow whose volume is known. -/
def recordLoss (pFlow : FlowSrc) (addedLossVolume : ℤ) (rand : ℚ) (volume : ℤ) (b : Buffer) :
    Buffer :=
  let lossVolume := intAdd (orZero (htKfsViGet b.flowLossVolumeMap pFlow)) addedLossVolume
  let b := { b with
    flowLossVolumeMap := htKfsViSet b.flowLossVolumeMap pFlow (toUInt lossVolume) }
  let b := { b with
    fixedFlowLossVolumeMap :=
      if setting.senderSetting.lossMapMemType = SenderMemType.fixed
          ∧ samplePacketFixSizeMapSender setting pFlow lossVolume rand
            b.fixedFlowLossVolumeMap then
        htKfsFixSizeAddValue b.fixedFlowLossVolumeMap pFlow (toUInt addedLossVolume)
      else b.fixedFlowLossVolumeMap }
  b.updateRateAndLevel setting pFlow volume (b.lossVolumeUsed setting pFlow lossVolume)

def updateFlowLossVolume (pFlow : FlowSrc) (addedLossVolume : ℤ) (rand : ℚ) (b : Buffer) :
    Buffer :=
  let b := { b with volumeLost := b.volumeLost + UInt64.ofInt addedLossVolume }
  if 0 < addedLossVolume then
    let volume := htKfsViGet b.flowVolumeMap pFlow
    if volume < 0 then b else b.recordLoss setting pFlow addedLossVolume rand volume
  else b

def updateFlowNormalVolume (pFlow : FlowSrc) (addedVolume : ℤ) (b : Buffer) : Buffer :=
  if 0 < addedVolume then
    let volume := intAdd (orZero (htKfsViGet b.flowVolumeMap pFlow)) addedVolume
    let b := { b with flowVolumeMap := htKfsViSet b.flowVolumeMap pFlow (toUInt volume) }
    let lossVolume := orZero (htKfsViGet b.flowLossVolumeMap pFlow)
    b.updateRateAndLevel setting pFlow volume (b.lossVolumeUsed setting pFlow lossVolume)
  else b

end Buffer

/-! ## The warehouse -/

/-- What `get_task_of_traffic` and its caller read of a `task_t`. -/
structure Task where
  monitorSwitchIds : List ℤ
  srcipPrefix : UInt32
  dstipPrefix : UInt32

structure DataWarehouse where
  taskManager : List Task
  flowRecePktListMap : HtVl
  activeIdx : Fin 2
  buffer : Fin 2 → Buffer
  lastSentFlowSelectedLevelMap : HtKfsVi

def dataWarehouseInit (setting : CmExperimentSetting) (tasks : List Task) : DataWarehouse where
  taskManager := tasks
  flowRecePktListMap := htVlCreate
  activeIdx := 0
  buffer := fun _ => Buffer.create setting
  lastSentFlowSelectedLevelMap := htKfsViCreate

namespace DataWarehouse

/-- The buffer that the `data_warehouse_get_*` functions read. -/
def active (w : DataWarehouse) : Buffer := w.buffer w.activeIdx

def unactive (w : DataWarehouse) : Buffer := w.buffer (w.activeIdx + 1)

def modifyActive (w : DataWarehouse) (f : Buffer → Buffer) : DataWarehouse :=
  { w with buffer := Function.update w.buffer w.activeIdx (f w.active) }

def modifyUnactive (w : DataWarehouse) (f : Buffer → Buffer) : DataWarehouse :=
  { w with buffer := Function.update w.buffer (w.activeIdx + 1) (f w.unactive) }

end DataWarehouse

def updateFlowLossVolume (setting : CmExperimentSetting) (w : DataWarehouse) (pFlow : FlowSrc)
    (addedLossVolume : ℤ) (rand : ℚ) : DataWarehouse :=
  w.modifyActive (Buffer.updateFlowLossVolume setting pFlow addedLossVolume rand)

def updateFlowNormalVolume (setting : CmExperimentSetting) (w : DataWarehouse) (pFlow : FlowSrc)
    (addedVolume : ℤ) : DataWarehouse :=
  w.modifyActive (Buffer.updateFlowNormalVolume setting pFlow addedVolume)

def dataWareRotateBuffer (w : DataWarehouse) : DataWarehouse :=
  { w with activeIdx := w.activeIdx + 1 }

/-- The index after `k` rotations. -/
def rotatedIdx (i : Fin 2) (k : ℕ) : Fin 2 := Fin.ofNat 2 (i.val + k)

def dataWarehouseResetNoactiveBuf (setting : CmExperimentSetting) (w : DataWarehouse) :
    DataWarehouse :=
  let naIdx := w.activeIdx + 1
  { w with
    buffer := Function.update w.buffer naIdx (Buffer.create setting)
    lastSentFlowSelectedLevelMap := htKfsViCreate }

/-- Settings for small runs: a flow of 100 bytes of which 40 are lost is a target. -/
def exampleSetting : CmExperimentSetting where
  floats := .float
  hostOrSwitchSample := .hostSample
  injectOrTagPacket := .injectPktAsCondition
  defaultByteSamplingRate := 0
  targetFlowSetting := ⟨100, 1 / 4, 40, 20⟩
  senderSetting := ⟨.infinite, 16, 0⟩

/-! ## What an update changes -/

theorem intAdd_eq {a b : ℤ} (h₀ : 0 ≤ a + b) (h : a + b < 2 ^ 31) : intAdd a b = a + b :=
  toInt_toUInt h₀ h

theorem orZero_nonneg (value : ℤ) : 0 ≤ orZero value := by
  unfold orZero
  split_ifs <;> omega

theorem orZero_of_nonneg {value : ℤ} (h : 0 ≤ value) : orZero value = value :=
  if_neg (by omega)

/-- The level that the thresholds give a flow, -1 for none. -/
def levelOf (setting : CmExperimentSetting) (volume lossVolume : ℤ) (lossRate : ℚ) : ℤ :=
  let target := setting.targetFlowSetting
  if target.volumeThreshold ≤ volume ∧ target.lossRateThreshold ≤ lossRate then
    if target.lossVolumeThreshold ≤ lossVolume then targetLevel
    else if target.selectedLossVolumeThreshold ≤ lossVolume then selectedLevel
    else -1
  else -1

theorem htKfsViGet_updateFlowSelectedLevelMap (setting : CmExperimentSetting) (map : HtKfsVi)
    (f g : FlowSrc) (volume lossVolume : ℤ) (lossRate : ℚ) :
    htKfsViGet (updateFlowSelectedLevelMap setting map f volume lossVolume lossRate) g
      = if g = f then levelOf setting volume lossVolume lossRate else htKfsViGet map g := by
  unfold updateFlowSelectedLevelMap levelOf
  dsimp only
  have h₁ : toInt (toUInt selectedLevel) = selectedLevel := by decide
  have h₂ : toInt (toUInt targetLevel) = targetLevel := by decide
  split_ifs <;> simp only [htKfsViGet_set, htKfsViGet_del, h₁, h₂] <;> simp [*]

namespace Buffer

variable {setting : CmExperimentSetting} (b : Buffer) (f g : FlowSrc)

/-- The volume sent of a flow, 0 if none. -/
def volume : ℤ := orZero (htKfsViGet b.flowVolumeMap f)

/-- The volume lost of a flow, 0 if none. -/
def lossVolume : ℤ := orZero (htKfsViGet b.flowLossVolumeMap f)

theorem volume_nonneg : 0 ≤ b.volume f := orZero_nonneg _

theorem lossVolume_nonneg : 0 ≤ b.lossVolume f := orZero_nonneg _

theorem intAdd_volume {added : ℤ} (hadded : 0 ≤ added) (h : b.volume f + added < 2 ^ 31) :
    intAdd (orZero (htKfsViGet b.flowVolumeMap f)) added = b.volume f + added :=
  intAdd_eq (add_nonneg (b.volume_nonneg f) hadded) h

theorem intAdd_lossVolume {added : ℤ} (hadded : 0 ≤ added)
    (h : b.lossVolume f + added < 2 ^ 31) :
    intAdd (orZero (htKfsViGet b.flowLossVolumeMap f)) added = b.lossVolume f + added :=
  intAdd_eq (add_nonneg (b.lossVolume_nonneg f) hadded) h

@[simp] theorem volume_create : (create setting).volume f = 0 := by
  rw [volume, create, htKfsViGet_create]
  rfl

@[simp] theorem lossVolume_create : (create setting).lossVolume f = 0 := by
  rw [lossVolume, create, htKfsViGet_create]
  rfl

/-- A packet adds its length to its flow's volume. -/
theorem get_flowVolumeMap_updateFlowNormalVolume {added : ℤ} (hadded : 0 < added)
    (h : b.volume f + added < 2 ^ 31) :
    htKfsViGet (b.updateFlowNormalVolume setting f added).flowVolumeMap g
      = if g = f then b.volume f + added else htKfsViGet b.flowVolumeMap g := by
  have h₀ := b.volume_nonneg f
  have hadd := b.intAdd_volume f hadded.le h
  rw [updateFlowNormalVolume, if_pos hadded]
  dsimp only [updateRateAndLevel]
  rw [htKfsViGet_set, hadd, toInt_toUInt (by omega) h]

theorem volume_updateFlowNormalVolume {added : ℤ} (hadded : 0 ≤ added)
    (h : b.volume f + added < 2 ^ 31) :
    (b.updateFlowNormalVolume setting f added).volume g
      = b.volume g + if g = f then added else 0 := by
  have h₀ := b.volume_nonneg f
  rcases hadded.eq_or_lt with rfl | hpos
  · rw [updateFlowNormalVolume, if_neg (by omega), ite_self, add_zero]
  · rw [volume, b.get_flowVolumeMap_updateFlowNormalVolume f g hpos h]
    split_ifs with hg
    · rw [orZero_of_nonneg (by omega), hg]
    · rw [add_zero, volume]

/-- A packet changes no loss volume. -/
@[simp] theorem lossVolume_updateFlowNormalVolume (added : ℤ) :
    (b.updateFlowNormalVolume setting f added).lossVolume g = b.lossVolume g := by
  unfold updateFlowNormalVolume
  split_ifs <;> rfl

/-- A loss changes no volume. -/
@[simp] theorem flowVolumeMap_updateFlowLossVolume (added : ℤ) (rand : ℚ) :
    (b.updateFlowLossVolume setting f added rand).flowVolumeMap = b.flowVolumeMap := by
  unfold updateFlowLossVolume
  dsimp only
  by_cases hadded : 0 < added
  · rw [if_pos hadded]
    by_cases hvol : htKfsViGet b.flowVolumeMap f < 0
    · rw [if_pos hvol]
    · rw [if_neg hvol]
      rfl
  · rw [if_neg hadded]

/-- The loss map after a loss: the flow's entry grows if its volume is known. -/
theorem get_flowLossVolumeMap_updateFlowLossVolume {added : ℤ} (hadded : 0 < added)
    (h : b.lossVolume f + added < 2 ^ 31) (rand : ℚ) :
    htKfsViGet (b.updateFlowLossVolume setting f added rand).flowLossVolumeMap g
      = if g = f ∧ 0 ≤ htKfsViGet b.flowVolumeMap f then b.lossVolume f + added
        else htKfsViGet b.flowLossVolumeMap g := by
  have h₀ := b.lossVolume_nonneg f
  have hadd := b.intAdd_lossVolume f hadded.le h
  by_cases hvol : htKfsViGet b.flowVolumeMap f < 0
  · simp only [updateFlowLossVolume, if_pos hadded, if_pos hvol]
    rw [if_neg (by omega)]
  · simp only [updateFlowLossVolume, if_pos hadded, if_neg hvol, recordLoss, hadd,
      updateRateAndLevel]
    rw [htKfsViGet_set, toInt_toUInt (by omega) h]
    exact if_congr (iff_self_and.2 fun _ => by omega) rfl rfl

theorem lossVolume_updateFlowLossVolume {added : ℤ} (hadded : 0 ≤ added)
    (h : b.lossVolume f + added < 2 ^ 31) (rand : ℚ) :
    (b.updateFlowLossVolume setting f added rand).lossVolume g = b.lossVolume g
      + if g = f ∧ 0 ≤ htKfsViGet b.flowVolumeMap f then added else 0 := by
  have h₀ := b.lossVolume_nonneg f
  rcases hadded.eq_or_lt with rfl | hpos
  · rw [updateFlowLossVolume, if_neg (by omega), ite_self, add_zero]
    rfl
  rw [lossVolume, b.get_flowLossVolumeMap_updateFlowLossVolume f g hpos h]
  split_ifs with hg
  · rw [orZero_of_nonneg (by omega), hg.1]
  · rw [add_zero, lossVolume]

end Buffer

namespace DataWarehouse

variable (w : DataWarehouse) (f : Buffer → Buffer)

@[simp] theorem active_modifyActive : (w.modifyActive f).active = f w.active := by
  simp [modifyActive, active]

theorem idx_add_one_ne (i : Fin 2) : i + 1 ≠ i := by
  revert i
  decide

@[simp] theorem unactive_modifyActive : (w.modifyActive f).unactive = w.unactive :=
  Function.update_of_ne (idx_add_one_ne _) _ _

@[simp] theorem active_modifyUnactive : (w.modifyUnactive f).active = w.active :=
  Function.update_of_ne (idx_add_one_ne _).symm _ _

@[simp] theorem unactive_modifyUnactive : (w.modifyUnactive f).unactive = f w.unactive :=
  Function.update_self _ _ _

@[simp] theorem active_rotate : (dataWareRotateBuffer w).active = w.unactive := rfl

@[simp] theorem unactive_rotate : (dataWareRotateBuffer w).unactive = w.active := by
  have : w.activeIdx + 1 + 1 = w.activeIdx := by
    generalize w.activeIdx = i
    revert i
    decide
  rw [unactive, dataWareRotateBuffer, active, this]

@[simp] theorem active_reset (setting : CmExperimentSetting) :
    (dataWarehouseResetNoactiveBuf setting w).active = w.active := by
  rw [active, dataWarehouseResetNoactiveBuf]
  exact Function.update_of_ne (idx_add_one_ne _).symm _ _

@[simp] theorem unactive_reset (setting : CmExperimentSetting) :
    (dataWarehouseResetNoactiveBuf setting w).unactive = Buffer.create setting := by
  rw [unactive, dataWarehouseResetNoactiveBuf]
  exact Function.update_self _ _ _

end DataWarehouse

end CMTestbed
