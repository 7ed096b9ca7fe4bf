import CMTestbed.Lib.Divided
import CMTestbed.Clock
import CMTestbed.Counters
import CMTestbed.Losses

/-!
# The divisions of the sender

The functions that handle packets and losses and that rotate the buffers, with the divisors of their
integer divisions.  A table finds the bin of a key by a division; the table of fixed size divides
by the size it was created with, and its bins share the mutexes.  Quotients of floats are left out.
-/

namespace CMTestbed.Divisions

open Lib (Divided)

/-- `HASH_MAP_MUTEX_SIZE` -/
def hashMapMutexSize : UInt32 := 100

/-- `BUFFER_NUM` -/
def bufferNum : ℕ := 2

/-! ## Tables -/

def flowSrcHashBin (flowSrc : FlowSrc) (mapSize : UInt32) : Divided UInt32 := do
  let hash := murmurHash3X8632 [flowSrc.srcip, flowSrc.dstip] 42
  let quotient ← Divided.dividedBy mapSize.toNat (hash / mapSize)
  pure (hash - mapSize * quotient)

/-- A call on a table with `HASH_MAP_SIZE` bins. -/
def inTable {α : Type} (key : FlowSrc) (call : α) : Divided α := do
  let _ ← flowSrcHashBin key hashMapSize
  pure call

def htKfsViGet (hashtable : HtKfsVi) (key : FlowSrc) : Divided ℤ :=
  inTable key (CMTestbed.htKfsViGet hashtable key)

def htKfsViSet (hashtable : HtKfsVi) (key : FlowSrc) (value : UInt32) : Divided HtKfsVi :=
  inTable key (CMTestbed.htKfsViSet hashtable key value)

def htKfsViDel (hashtable : HtKfsVi) (key : FlowSrc) : Divided HtKfsVi :=
  inTable key (CMTestbed.htKfsViDel hashtable key)

def htKfsVfGet (hashtable : HtKfsVf) (key : FlowSrc) : Divided ℚ :=
  inTable key (CMTestbed.htKfsVfGet hashtable key)

def htKfsVfSet (hashtable : HtKfsVf) (key : FlowSrc) (value : ℚ) : Divided HtKfsVf :=
  inTable key (CMTestbed.htKfsVfSet hashtable key value)

/-- A call on the table of fixed size: the bin, and its mutex locked and unlocked. -/
def inFixSize {α : Type} (hashtable : HtKfsFixSize) (key : FlowSrc) (call : α) : Divided α := do
  let bin ← flowSrcHashBin key hashtable.size
  let _ ← Divided.dividedBy hashMapMutexSize.toNat (bin % hashMapMutexSize)
  let _ ← Divided.dividedBy hashMapMutexSize.toNat (bin % hashMapMutexSize)
  pure call

def htKfsFixSizeValue (hashtable : HtKfsFixSize) (key : FlowSrc) : Divided ℤ :=
  inFixSize hashtable key (hashtable.value key)

def htKfsFixSizeIsSampled (hashtable : HtKfsFixSize) (key : FlowSrc) : Divided Bool :=
  inFixSize hashtable key (CMTestbed.htKfsFixSizeIsSampled hashtable key)

def htKfsFixSizeAddValue (hashtable : HtKfsFixSize) (key : FlowSrc) (deltaValue : UInt32) :
    Divided HtKfsFixSize :=
  inFixSize hashtable key (CMTestbed.htKfsFixSizeAddValue hashtable key deltaValue)

/-- A call on the ledger. -/
def inLedger {α : Type} (key : FlowS) (call : α) : Divided α := do
  let _ ← Divided.dividedBy hashMapSize.toNat (htViHash key)
  pure call

/-! ## The two updates -/

section Updates
variable (setting : CmExperimentSetting)

def samplePacketFixSizeMapSender (pFlowSrc : FlowSrc) (totalPktLen : ℤ) (rand : ℚ)
    (flowSampleMap : HtKfsFixSize) : Divided Bool := do
  let sampled ← htKfsFixSizeIsSampled flowSampleMap pFlowSrc
  pure (if sampled then true
    else
      decide (rand < pktSampleRate setting.senderSetting.defaultLossByteSamplingRate totalPktLen))

def updateFlowSelectedLevelMap (flowSelectedLevelMap : HtKfsVi) (pFlow : FlowSrc)
    (volume lossVolume : ℤ) (lossRate : ℚ) : Divided HtKfsVi :=
  let target := setting.targetFlowSetting
  if target.volumeThreshold ≤ volume ∧ target.lossRateThreshold ≤ lossRate then
    if target.lossVolumeThreshold ≤ lossVolume then
      htKfsViSet flowSelectedLevelMap pFlow (toUInt targetLevel)
    else if target.selectedLossVolumeThreshold ≤ lossVolume then
      htKfsViSet flowSelectedLevelMap pFlow (toUInt selectedLevel)
    else htKfsViDel flowSelectedLevelMap pFlow
  else htKfsViDel flowSelectedLevelMap pFlow

def updateRateAndLevel (pFlow : FlowSrc) (volume lossVolume : ℤ) (b : Buffer) :
    Divided Buffer := do
  let lossRate := setting.lossRate volume lossVolume
  let flowLossRateMap ← htKfsVfSet b.flowLossRateMap pFlow lossRate
  let flowSelectedLevelMap ←
    updateFlowSelectedLevelMap setting b.flowSelectedLevelMap pFlow volume lossVolume lossRate
  pure { b with
    flowLossRateMap := flowLossRateMap
    flowSelectedLevelMap := flowSelectedLevelMap }

def lossVolumeUsed (pFlow : FlowSrc) (lossVolume : ℤ) (b : Buffer) : Divided ℤ :=
  match setting.senderSetting.lossMapMemType with
  | .infinite => pure lossVolume
  | .fixed => htKfsFixSizeValue b.fixedFlowLossVolumeMap pFlow

/-- The loss, in the table of fixed size if its flow is sampled there. -/
def addFixedLoss (pFlow : FlowSrc) (addedLossVolume : ℤ) (rand : ℚ) (lossVolume : ℤ)
    (b : Buffer) : Divided HtKfsFixSize :=
  if setting.senderSetting.lossMapMemType = SenderMemType.fixed then do
    let sampled ←
      samplePacketFixSizeMapSender setting pFlow lossVolume rand b.fixedFlowLossVolumeMap
    if sampled then htKfsFixSizeAddValue b.fixedFlowLossVolumeMap pFlow (toUInt addedLossVolume)
    else pure b.fixedFlowLossVolumeMap
  else pure b.fixedFlowLossVolumeMap

def recordLoss (pFlow : FlowSrc) (addedLossVolume : ℤ) (rand : ℚ) (volume : ℤ) (b : Buffer) :
    Divided Buffer := do
  let lossVolume ← htKfsViGet b.flowLossVolumeMap pFlow
  let lossVolume := intAdd (orZero lossVolume) addedLossVolume
  let flowLossVolumeMap ← htKfsViSet b.flowLossVolumeMap pFlow (toUInt lossVolume)
  let b := { b with flowLossVolumeMap := flowLossVolumeMap }
  let fixedFlowLossVolumeMap ← addFixedLoss setting pFlow addedLossVolume rand lossVolume b
  let b := { b with fixedFlowLossVolumeMap := fixedFlowLossVolumeMap }
  let used ← lossVolumeUsed setting pFlow lossVolume b
  updateRateAndLevel setting pFlow volume used b

def updateFlowLossVolume (pFlow : FlowSrc) (addedLossVolume : ℤ) (rand : ℚ) (b : Buffer) :
    Divided Buffer := do
  let _ ← flowSrcHashBin pFlow hashMapSize
  let b := { b with volumeLost := b.volumeLost + UInt64.ofInt addedLossVolume }
  if 0 < addedLossVolume then
    let volume ← htKfsViGet b.flowVolumeMap pFlow
    if volume < 0 then pure b else recordLoss setting pFlow addedLossVolume rand volume b
  else pure b

def updateFlowNormalVolume (pFlow : FlowSrc) (addedVolume : ℤ) (b : Buffer) :
    Divided Buffer := do
  let _ ← flowSrcHashBin pFlow hashMapSize
  if 0 < addedVolume then
    let volume ← htKfsViGet b.flowVolumeMap pFlow
    let volume := intAdd (orZero volume) addedVolume
    let flowVolumeMap ← htKfsViSet b.flowVolumeMap pFlow (toUInt volume)
    let b := { b with flowVolumeMap := flowVolumeMap }
    let lossVolume ← htKfsViGet b.flowLossVolumeMap pFlow
    let used ← lossVolumeUsed setting pFlow (orZero lossVolume) b
    updateRateAndLevel setting pFlow volume used b
  else pure b

end Updates

/-! ## Packets -/

section Packets
variable (setting : CmExperimentSetting)

def flowSrcAlreadySampled (pFlow : FlowSrc) (flowSampleMap : HtKfsVi) : Divided Bool := do
  let value ← htKfsViGet flowSampleMap pFlow
  pure (decide (0 ≤ value))

def samplePacket (flowSrc : FlowSrc) (totalPktLen : ℤ) (rand : ℚ) (flowSampleMap : HtKfsVi) :
    Divided (HtKfsVi × Bool) := do
  let already ← flowSrcAlreadySampled flowSrc flowSampleMap
  if already then pure (flowSampleMap, true)
  else if rand < pktSampleRate setting.defaultByteSamplingRate totalPktLen then do
    let flowSampleMap ← htKfsViSet flowSampleMap flowSrc 1
    pure (flowSampleMap, true)
  else pure (flowSampleMap, false)

def updateFlowNotSampledVolume (pFlow : FlowSrc) (b : Buffer) : Divided Buffer := do
  let notSampled ← htKfsViGet b.flowNotSampledVolumeMap pFlow
  if notSampled < 0 then do
    let volume ← htKfsViGet b.flowVolumeMap pFlow
    let flowNotSampledVolumeMap ←
      htKfsViSet b.flowNotSampledVolumeMap pFlow (toUInt (orZero volume))
    pure { b with flowNotSampledVolumeMap := flowNotSampledVolumeMap }
  else pure b

/-- Whether the packet is sampled, and the flows that are. -/
def sampleFlow (flowSrc : FlowSrc) (totalPktLen : ℤ) (rand : ℚ) (b : Buffer) :
    Divided (HtKfsVi × Bool) := do
  let level ← htKfsViGet b.flowSelectedLevelMap flowSrc
  if level > noSelectedLevel then pure (b.flowSampleMap, true)
  else samplePacket setting flowSrc totalPktLen rand b.flowSampleMap

def sampleAtHost (flowSrc : FlowSrc) (totalPktLen : ℤ) (rand : ℚ) (b : Buffer) :
    Divided (Buffer × Bool) := do
  let r ← sampleFlow setting flowSrc totalPktLen rand b
  let b := { b with flowSampleMap := r.1 }
  if r.2 then do
    let b ← updateFlowNotSampledVolume flowSrc b
    pure (b, true)
  else pure (b, false)

/-- Only in `HOST_SAMPLE` mode. -/
def sampleInMode (flowSrc : FlowSrc) (totalPktLen : ℤ) (rand : ℚ) (b : Buffer) :
    Divided (Buffer × Bool) :=
  match setting.hostOrSwitchSample with
  | .hostSample => sampleAtHost setting flowSrc totalPktLen rand b
  | .switchSample => pure (b, false)

/-- The level is looked up only where it may be tagged. -/
def tagPacket (task : Task) (flowSrc : FlowSrc) (totalPktLen : ℤ) (rand : ℚ) (b : Buffer) :
    Divided (Buffer × PacketTags) := do
  let r ← sampleInMode setting flowSrc totalPktLen rand b
  if setting.hostOrSwitchSample = .hostSample
      ∧ setting.injectOrTagPacket = .tagPktAsCondition then do
    let selectedLevel ← htKfsViGet r.1.flowSelectedLevelMap flowSrc
    pure (r.1, ⟨task.monitorSwitchIds, r.2,
      if selectedLevel > noSelectedLevel then some selectedLevel else none⟩)
  else pure (r.1, ⟨task.monitorSwitchIds, r.2, none⟩)

def tagIfMonitored (tasks : List Task) (flowSrc : FlowSrc) (totalPktLen : ℤ) (rand : ℚ)
    (b : Buffer) : Divided (Buffer × PacketTags) :=
  match getTaskOfTraffic tasks flowSrc with
  | some task => tagPacket setting task flowSrc totalPktLen rand b
  | none => pure (b, .none)

def handleHeaders (w : DataWarehouse) (flow : FlowS) (seqid totalPktLen : UInt32) (rand : ℚ) :
    Divided (DataWarehouse × PacketTags) := do
  let len := totalPktLen.toUInt16
  let flowRecePktListMap ←
    inLedger flow (htVlSet w.flowRecePktListMap flow seqid len.toUInt32)
  let w := { w with flowRecePktListMap := flowRecePktListMap }
  let (b, tags) ←
    tagIfMonitored setting w.taskManager flow.src (toInt totalPktLen) rand w.active
  let b ← updateFlowNormalVolume setting flow.src (toInt totalPktLen) b
  pure (w.modifyActive fun _ => b.countPacket len, tags)

def cmHandleIpv4Packet (w : DataWarehouse) (p : Handling.Packet) :
    Divided (DataWarehouse × PacketTags) :=
  match p.headers with
  | some (flow, seqid) => handleHeaders setting w flow seqid p.totalPktLen p.rand
  | none => pure (w, .none)

end Packets

/-! ## Losses -/

def flowInforUpdate (setting : CmExperimentSetting) (w : DataWarehouse) (flow : FlowS)
    (receSeqid : UInt32) (rand : ℚ) : Divided DataWarehouse := do
  let (flowRecePktListMap, receVLostV) ←
    inLedger flow (htVlGetReceLostVolume w.flowRecePktListMap flow receSeqid)
  let w := { w with flowRecePktListMap := flowRecePktListMap }
  if 0 < receVLostV.lostVolume then do
    let b ← updateFlowLossVolume setting flow.src (toInt receVLostV.lostVolume) rand w.active
    pure (w.modifyActive fun _ => b)
  else pure w

/-! ## Rotations -/

/-- A member of the buffer that is not active, or a change of the active index. -/
def nextIdx {α : Type} (a : α) : Divided α := Divided.dividedBy bufferNum a

/-- A reading of the clock in milliseconds. -/
def readMsec (msec : UInt64) : Divided UInt64 := Divided.dividedBy 1000000 msec

section Rotations
variable (setting : ReportSetting)

/-- `na_idx` and two maps. -/
def writeIntervalInfoToFile (w : DataWarehouse) (currentMsec : UInt64) :
    Divided (DataWarehouse × List UInt8) := do
  let b ← nextIdx w.unactive
  let _ ← nextIdx b.flowLossRateMap
  let _ ← nextIdx b.flowVolumeMap
  pure (CMTestbed.writeIntervalInfoToFile setting w currentMsec)

/-- Each target flow is looked up among those sent last. -/
def writeLastSentFlowSelectedLevelMapLostTargetFlow (w : DataWarehouse) :
    Divided (DataWarehouse × List UInt8) := do
  let _ ← nextIdx w.unactive.flowSelectedLevelMap
  let _ ← Divided.each (fun f => htKfsViGet w.lastSentFlowSelectedLevelMap f) (reportedFlows w)
  pure (CMTestbed.writeLastSentFlowSelectedLevelMapLostTargetFlow w)

def targetFlowRow (w : DataWarehouse) (pFlow : FlowSrc) : Divided (List UInt8) := do
  let b := w.unactive
  let volume ← htKfsViGet b.flowVolumeMap pFlow
  let lossRate ← htKfsVfGet b.flowLossRateMap pFlow
  let lossVolume ← htKfsViGet b.flowLossVolumeMap pFlow
  let lossVolume ← lossVolumeUsed setting.toCmExperimentSetting pFlow lossVolume b
  let notSampledVolume ← htKfsViGet b.flowNotSampledVolumeMap pFlow
  let targetFlowSentOut ← htKfsViGet w.lastSentFlowSelectedLevelMap pFlow
  pure (formatNat pFlow.srcip.toNat ++ [9] ++ formatNat pFlow.dstip.toNat
    ++ [9] ++ formatInt volume ++ [9] ++ formatFloat lossRate ++ [9] ++ formatInt lossVolume
    ++ [9] ++ formatInt notSampledVolume ++ [9] ++ formatInt targetFlowSentOut ++ [10])

/-- Six maps, and the rows. -/
def writeTargetFlowsToFile (w : DataWarehouse) : Divided (DataWarehouse × List UInt8) := do
  let _ ← Divided.each (fun _ => nextIdx ()) (List.range 6)
  let rows ← Divided.each (targetFlowRow setting w) (reportedFlows w)
  let levels := w.unactive.flowSelectedLevelMap.pass
  pure (w.modifyUnactive fun b => { b with flowSelectedLevelMap := levels.1 }, rows.flatten)

/-- A pass of the loop of `rotate_interval`: the work, the readings of the clock and the sleep. -/
def rotateInterval (w : DataWarehouse) (currentMsec afterRotateMsec : UInt64) :
    Divided (DataWarehouse × List UInt8) := do
  let w ← nextIdx (dataWareRotateBuffer w)
  let info ← writeIntervalInfoToFile setting w currentMsec
  let lost ← writeLastSentFlowSelectedLevelMapLostTargetFlow info.1
  let rows ← writeTargetFlowsToFile setting lost.1
  let w ← nextIdx (dataWarehouseResetNoactiveBuf setting.toCmExperimentSetting rows.1)
  let _ ← readMsec afterRotateMsec
  let after ← readMsec afterRotateMsec
  let toSleepMsec := toSleepMsec setting.intervalMsecLen currentMsec after
  let _ ← Divided.dividedBy 1000 (toSleepMsec / 1000)
  let _ ← Divided.dividedBy 1000 (toSleepMsec % 1000)
  let _ ← readMsec afterRotateMsec
  pure (w, info.2 ++ lost.2 ++ rows.2)

end Rotations

/-! ## Runs -/

inductive Event where
  | packet (p : Handling.Packet)
  | report (flow : FlowS) (receSeqid : UInt32) (rand : ℚ)
  | rotate (currentMsec afterRotateMsec : UInt64)

def step (setting : ReportSetting) (w : DataWarehouse) : Event → Divided DataWarehouse
  | .packet p => do
    let r ← cmHandleIpv4Packet setting.toCmExperimentSetting w p
    pure r.1
  | .report flow receSeqid rand =>
    flowInforUpdate setting.toCmExperimentSetting w flow receSeqid rand
  | .rotate currentMsec afterRotateMsec => do
    let r ← rotateInterval setting w currentMsec afterRotateMsec
    pure r.1

/-- From `data_warehouse_init`, which divides nothing. -/
def run (setting : ReportSetting) (tasks : List Task) (events : List Event) :
    Divided DataWarehouse := do
  let w ← pure (dataWarehouseInit setting.toCmExperimentSetting tasks)
  events.foldlM (step setting) w

end CMTestbed.Divisions
