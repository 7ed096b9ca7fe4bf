import CMTestbed.Counters
import CMTestbed.Reports

/-!
# A sender and its file

A sender handles packets and losses, tells the switches, and reports its intervals to its file.  A
rotation and the report that follows it are two steps, with packets and losses between them.  Of
each flow the packets of the interval are kept, with whether they were tagged as sampled.
-/

namespace CMTestbed

/-- A packet that was handled. -/
structure SentPacket where
  len : ℕ
  sampled : Bool
  deriving DecidableEq, Repr

def bytes (packets : List SentPacket) : ℕ := (packets.map SentPacket.len).sum

def wasSampled (packets : List SentPacket) : Bool := packets.any SentPacket.sampled

/-- The bytes from the first sampled packet on. -/
def bytesFromSampled (packets : List SentPacket) : ℕ :=
  bytes (packets.dropWhile fun p => !p.sampled)

structure Sender where
  warehouse : DataWarehouse
  /-- The past interval is still to be reported. -/
  rotated : Bool
  /-- The packets of the current interval, by flow. -/
  sent : FlowSrc → List SentPacket
  /-- The packets of the interval to be reported. -/
  past : FlowSrc → List SentPacket
  file : List UInt8
  /-- The packets of the flows that were reported. -/
  reported : List (List SentPacket)

namespace Sender

inductive Event where
  | packet (p : Handling.Packet)
  | loss (pFlow : FlowSrc) (addedLossVolume : ℤ) (rand : ℚ)
  /-- A round of `send_condition_to_network`: the levels it has sent, and how many packets. -/
  | conditions (lastSent : HtKfsVi) (packets : UInt64)
  | rotate
  | report (currentMsec : UInt64)

def init (setting : ReportSetting) (tasks : List Task) : Sender where
  warehouse := dataWarehouseInit setting.toCmExperimentSetting tasks
  rotated := false
  sent := fun _ => []
  past := fun _ => []
  file := initTargetFlowFile
  reported := []

/-- The flow's total stays below 2^31. -/
def PacketFits (w : DataWarehouse) (p : Handling.Packet) : Prop :=
  p.totalPktLen.toNat < 2 ^ 31
    ∧ ∀ h ∈ p.headers, w.active.volume h.1.src + p.totalPktLen.toNat < 2 ^ 31

instance (w : DataWarehouse) : DecidablePred (PacketFits w) :=
  fun _ => inferInstanceAs (Decidable (_ ∧ ∀ h ∈ _, _))

def step (setting : ReportSetting) (s : Sender) : Event → Option Sender
  | .packet p =>
    if PacketFits s.warehouse p then
      let r := cmHandleIpv4Packet setting.toCmExperimentSetting s.warehouse p.packetBuf
        p.totalPktLen p.datalink p.rand
      some { s with
        warehouse := r.1
        sent := fun f => if p.headers.map (fun h => h.1.src) = some f then
          s.sent f ++ [⟨p.totalPktLen.toNat, r.2.sampled⟩] else s.sent f }
    else none
  | .loss pFlow addedLossVolume rand =>
    if s.warehouse.active.lossVolume pFlow + addedLossVolume < 2 ^ 31 then
      some { s with
        warehouse := updateFlowLossVolume setting.toCmExperimentSetting s.warehouse pFlow
          addedLossVolume rand }
    else none
  | .conditions lastSent packets =>
    if s.rotated then none
    else
      let w := { s.warehouse with lastSentFlowSelectedLevelMap := lastSent }
      some { s with warehouse := w.modifyActive fun b =>
        { b with conditionPktNumSent := b.conditionPktNumSent + packets } }
  | .rotate =>
    if s.rotated then none
    else some { s with
      warehouse := dataWareRotateBuffer s.warehouse
      rotated := true
      sent := fun _ => []
      past := s.sent }
  | .report currentMsec =>
    if s.rotated then
      let report := reportInterval setting s.warehouse currentMsec
      some { s with
        warehouse := dataWarehouseResetNoactiveBuf setting.toCmExperimentSetting report.1
        rotated := false
        past := fun _ => []
        file := s.file ++ report.2
        reported := s.reported ++ (reportedFlows s.warehouse).map s.past }
    else none

def system (setting : ReportSetting) : Lib.System Sender Event := ⟨step setting⟩

end Sender

end CMTestbed
