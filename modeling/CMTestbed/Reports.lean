import CMTestbed.Packets
import CMTestbed.Printf
import CMTestbed.Lib.Entries

/-!
# The report of an interval

After each rotation `rotate_interval` writes the counters and the target flows of the past interval
to the sender's file, and then resets the buffer.  The writers iterate over tables of that buffer,
and so move their cursors.
-/

namespace CMTestbed

/-- What the report shows of the settings, beside those of the bookkeeping. -/
structure ReportSetting extends CmExperimentSetting where
  intervalMsecLen : ℤ
  conditionMsecFreq : ℤ
  replacement : Bool
  switchMemType : ℤ
  switchDropRate : ℚ

/-- The number of an enumerator. -/
def HostSwitchSample.toInt : HostSwitchSample → ℤ
  | hostSample => 0
  | switchSample => 1

/-- A line with a name and a value. -/
def nameValue (name : String) (value : List UInt8) : List UInt8 :=
  chars name ++ [58] ++ value ++ [10]

/-- The file's first line. -/
def initTargetFlowFile : List UInt8 := chars "srcip\tdstip\n"

/-- The flows of the entries at the target level that a task on this host is interested in. -/
def targetFlows (taskManager : List Task) (entries : List (FlowSrc × UInt32)) : List FlowSrc :=
  (entries.filter fun e =>
    e.2 = toUInt targetLevel && (getTaskOfTraffic taskManager e.1).isSome).map Prod.fst

/-- The flows that are reported. -/
def reportedFlows (w : DataWarehouse) : List FlowSrc :=
  targetFlows w.taskManager w.unactive.flowSelectedLevelMap.pass.2

section Writers
variable (setting : ReportSetting) (w : DataWarehouse)

def writeIntervalInfoToFile (currentMsec : UInt64) : DataWarehouse × List UInt8 :=
  let target := setting.targetFlowSetting
  let b := w.unactive
  let rates := b.flowLossRateMap.pass
  let volumes := b.flowVolumeMap.pass
  let lossRateOkFlowNum := rates.2.countP fun e => e.2 > target.lossRateThreshold
  let volumeOkFlowNum := volumes.2.countP fun e => e.2 > toUInt target.volumeThreshold
  let volumeLostRate : ℚ := b.volumeLost.toNat / b.volumeSent.toNat
  (w.modifyUnactive fun b =>
      { b with flowLossRateMap := rates.1, flowVolumeMap := volumes.1 },
    chars "=====time-" ++ formatNat currentMsec.toNat ++ chars " milliseconds=====\n"
      ++ nameValue "interval_msec_len" (formatInt setting.intervalMsecLen)
      ++ nameValue "condition_msec_freq" (formatInt setting.conditionMsecFreq)
      ++ nameValue "replacement" (formatInt setting.replacement.toNat)
      ++ nameValue "switch_mem_type" (formatInt setting.switchMemType)
      ++ nameValue "host_or_switch_sample" (formatInt setting.hostOrSwitchSample.toInt)
      ++ nameValue "switch_drop_rate" (formatFloat setting.switchDropRate)
      ++ nameValue "target_flow_volume_threshold" (formatInt target.volumeThreshold)
      ++ nameValue "target_flow_loss_rate_threshold" (formatFloat target.lossRateThreshold)
      ++ nameValue "target_flow_loss_volume_threshold" (formatInt target.lossVolumeThreshold)
      ++ nameValue "pkt_num_sent" (formatNat b.pktNumSent.toNat)
      ++ nameValue "volume_sent" (formatNat b.volumeSent.toNat)
      ++ nameValue "volume_lost_detected" (formatNat b.volumeLost.toNat)
      ++ (if b.volumeSent > 0 then
          nameValue "volume_lost_rate_detected" (formatFloat volumeLostRate) else [])
      ++ nameValue "condition_pkt_num_sent" (formatNat b.conditionPktNumSent.toNat)
      ++ nameValue "loss_rate_ok_flow_num" (formatInt lossRateOkFlowNum)
      ++ nameValue "volume_ok_flow_num" (formatInt volumeOkFlowNum)
      ++ nameValue "unique_flow_num_sent" (formatInt volumes.2.length))

def writeLastSentFlowSelectedLevelMapLostTargetFlow : DataWarehouse × List UInt8 :=
  let levels := w.unactive.flowSelectedLevelMap.pass
  let flows := reportedFlows w
  let lost := flows.filter fun pFlow =>
    htKfsViGet w.lastSentFlowSelectedLevelMap pFlow ≠ targetLevel
  (w.modifyUnactive fun b => { b with flowSelectedLevelMap := levels.1 },
    chars "target_flow_num:" ++ formatInt flows.length
      ++ chars ", lost_target_flow_num_last_sent_conditionmap:" ++ formatInt lost.length ++ [10])

/-- The loss volume written for a flow. -/
def writtenLossVolume (pFlow : FlowSrc) : ℤ :=
  match setting.senderSetting.lossMapMemType with
  | .infinite => htKfsViGet w.unactive.flowLossVolumeMap pFlow
  | .fixed => w.unactive.fixedFlowLossVolumeMap.value pFlow

/-- The row of a flow. -/
def targetFlowRow (pFlow : FlowSrc) : List UInt8 :=
  let b := w.unactive
  formatNat pFlow.srcip.toNat ++ [9] ++ formatNat pFlow.dstip.toNat
    ++ [9] ++ formatInt (htKfsViGet b.flowVolumeMap pFlow)
    ++ [9] ++ formatFloat (htKfsVfGet b.flowLossRateMap pFlow)
    ++ [9] ++ formatInt (writtenLossVolume setting w pFlow)
    ++ [9] ++ formatInt (htKfsViGet b.flowNotSampledVolumeMap pFlow)
    ++ [9] ++ formatInt (htKfsViGet w.lastSentFlowSelectedLevelMap pFlow) ++ [10]

def writeTargetFlowsToFile : DataWarehouse × List UInt8 :=
  let levels := w.unactive.flowSelectedLevelMap.pass
  (w.modifyUnactive fun b => { b with flowSelectedLevelMap := levels.1 },
    (reportedFlows w).flatMap (targetFlowRow setting w))

/-- What is written between a rotation and the reset of the buffer. -/
def reportInterval (currentMsec : UInt64) : DataWarehouse × List UInt8 :=
  let info := writeIntervalInfoToFile setting w currentMsec
  let lost := writeLastSentFlowSelectedLevelMapLostTargetFlow info.1
  let rows := writeTargetFlowsToFile setting lost.1
  (rows.1, info.2 ++ lost.2 ++ rows.2)

/-- An iteration of the loop of `rotate_interval`. -/
def rotateInterval (currentMsec : UInt64) : DataWarehouse × List UInt8 :=
  let report := reportInterval setting (dataWareRotateBuffer w) currentMsec
  (dataWarehouseResetNoactiveBuf setting.toCmExperimentSetting report.1, report.2)

end Writers

end CMTestbed
