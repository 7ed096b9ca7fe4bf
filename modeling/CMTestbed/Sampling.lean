import CMTestbed.Packets

/-!
# Sampled flows within an interval

The packets handled and the losses counted in one interval, and which flows have had a packet tagged
as sampled.
-/

namespace CMTestbed

structure Sampling where
  warehouse : DataWarehouse
  /-- Some packet of the flow was tagged as sampled. -/
  tagged : FlowSrc → Bool

namespace Sampling

inductive Event where
  | packet (packetBuf : Frame) (totalPktLen : UInt32) (datalink : ℤ) (rand : ℚ)
  | loss (pFlow : FlowSrc) (addedLossVolume : ℤ) (rand : ℚ)

def start (w : DataWarehouse) : Sampling := ⟨w, fun _ => false⟩

/-- The flow that a handled packet belongs to. -/
def Event.flow : Event → Option FlowSrc
  | packet packetBuf totalPktLen datalink _ =>
    (sentHeaders packetBuf totalPktLen datalink).map fun r => r.1.src
  | loss pFlow _ _ => some pFlow

def step (setting : CmExperimentSetting) (s : Sampling) : Event → Option Sampling
  | .packet packetBuf totalPktLen datalink rand =>
    let r := cmHandleIpv4Packet setting s.warehouse packetBuf totalPktLen datalink rand
    some {
      warehouse := r.1
      tagged := fun f => s.tagged f
        || r.2.sampled && (sentHeaders packetBuf totalPktLen datalink).any fun h => h.1.src = f }
  | .loss pFlow addedLossVolume rand =>
    some { s with
      warehouse := updateFlowLossVolume setting s.warehouse pFlow addedLossVolume rand }

def system (setting : CmExperimentSetting) : Lib.System Sampling Event := ⟨step setting⟩

end Sampling

end CMTestbed
