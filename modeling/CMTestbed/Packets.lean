import CMTestbed.Frame
import CMTestbed.Warehouse
import CMTestbed.Lib.System

/-!
# Handling a packet

`cm_handle_ipv4_packet`: the packet is recorded in the ledger, tagged if its flow belongs to a task,
and counted in its flow's volume.  In `HOST_SAMPLE` mode a packet is sampled if its flow has a
selected level, and else by sample and hold.

The tags are the arguments of the three calls that set bits in the packet's first VLAN tag.
-/

namespace CMTestbed

/-- `IP_MASK` -/
def ipMask : UInt32 := 0xFF000000

def getTaskOfTraffic (tasks : List Task) (pFlow : FlowSrc) : Option Task :=
  tasks.find? fun task => pFlow.srcip &&& ipMask = task.srcipPrefix
    ∧ pFlow.dstip &&& ipMask = task.dstipPrefix

/-! ## Sample and hold -/

def flowSrcAlreadySampled (pFlow : FlowSrc) (flowSampleMap : HtKfsVi) : Bool :=
  decide (0 ≤ htKfsViGet flowSampleMap pFlow)

/-- `rand` is what `drand48_r` draws. -/
def samplePacket (setting : CmExperimentSetting) (flowSrc : FlowSrc) (totalPktLen : ℤ) (rand : ℚ)
    (flowSampleMap : HtKfsVi) : HtKfsVi × Bool :=
  if flowSrcAlreadySampled flowSrc flowSampleMap then (flowSampleMap, true)
  else if rand < pktSampleRate setting.defaultByteSamplingRate totalPktLen then
    (htKfsViSet flowSampleMap flowSrc 1, true)
  else (flowSampleMap, false)

def Buffer.updateFlowNotSampledVolume (pFlow : FlowSrc) (b : Buffer) : Buffer :=
  if htKfsViGet b.flowNotSampledVolumeMap pFlow < 0 then
    let volume := orZero (htKfsViGet b.flowVolumeMap pFlow)
    { b with
      flowNotSampledVolumeMap := htKfsViSet b.flowNotSampledVolumeMap pFlow (toUInt volume) }
  else b

/-- Sampling at the sender's side: whether the packet is tagged, and the maps. -/
def Buffer.sampleAtHost (setting : CmExperimentSetting) (flowSrc : FlowSrc) (totalPktLen : ℤ)
    (rand : ℚ) (b : Buffer) : Buffer × Bool :=
  let (flowSampleMap, sampled) :=
    if htKfsViGet b.flowSelectedLevelMap flowSrc > noSelectedLevel then (b.flowSampleMap, true)
    else samplePacket setting flowSrc totalPktLen rand b.flowSampleMap
  let b := { b with flowSampleMap := flowSampleMap }
  (if sampled then b.updateFlowNotSampledVolume flowSrc else b, sampled)

/-! ## The packet -/

/-- What `tag_packet_for_switches`, `tag_packet_as_sampled` and
`tag_selected_flow_level_in_normal_packet` are called with. -/
structure PacketTags where
  monitorSwitchIds : List ℤ
  sampled : Bool
  selectedLevel : Option ℤ
  deriving DecidableEq, Repr

def PacketTags.none : PacketTags := ⟨[], false, .none⟩

/-- A packet of a flow that belongs to `task`. -/
def Buffer.tagPacket (setting : CmExperimentSetting) (task : Task) (flowSrc : FlowSrc)
    (totalPktLen : ℤ) (rand : ℚ) (b : Buffer) : Buffer × PacketTags :=
  let (b, sampled) := match setting.hostOrSwitchSample with
    | .hostSample => b.sampleAtHost setting flowSrc totalPktLen rand
    | .switchSample => (b, false)
  let selectedLevel := htKfsViGet b.flowSelectedLevelMap flowSrc
  let tagged := setting.hostOrSwitchSample = .hostSample
    ∧ setting.injectOrTagPacket = .tagPktAsCondition ∧ selectedLevel > noSelectedLevel
  (b, {
    monitorSwitchIds := task.monitorSwitchIds
    sampled := sampled
    selectedLevel := if tagged then some selectedLevel else .none })

/-- No action on a packet that no task on this host is interested in. -/
def Buffer.tagIfMonitored (setting : CmExperimentSetting) (tasks : List Task) (flowSrc : FlowSrc)
    (totalPktLen : ℤ) (rand : ℚ) (b : Buffer) : Buffer × PacketTags :=
  match getTaskOfTraffic tasks flowSrc with
  | some task => b.tagPacket setting task flowSrc totalPktLen rand
  | none => (b, .none)

/-- What follows the update of the volume. -/
def Buffer.countPacket (len : UInt16) (b : Buffer) : Buffer :=
  { b with pktNumSent := b.pktNumSent + 1, volumeSent := b.volumeSent + len.toUInt64 }

/-- A packet whose headers were read; `packet.len` has 16 bits. -/
def handleHeaders (setting : CmExperimentSetting) (w : DataWarehouse) (flow : FlowS)
    (seqid totalPktLen : UInt32) (rand : ℚ) : DataWarehouse × PacketTags :=
  let len := totalPktLen.toUInt16
  let w := { w with
    flowRecePktListMap := htVlSet w.flowRecePktListMap flow seqid len.toUInt32 }
  let (b, tags) :=
    w.active.tagIfMonitored setting w.taskManager flow.src (toInt totalPktLen) rand
  (w.modifyActive fun _ =>
    (b.updateFlowNormalVolume setting flow.src (toInt totalPktLen)).countPacket len, tags)

def cmHandleIpv4Packet (setting : CmExperimentSetting) (w : DataWarehouse) (packetBuf : Frame)
    (totalPktLen : UInt32) (datalink : ℤ) (rand : ℚ) : DataWarehouse × PacketTags :=
  match sentHeaders packetBuf totalPktLen datalink with
  | some (flow, seqid) => handleHeaders setting w flow seqid totalPktLen rand
  | none => (w, .none)

end CMTestbed
