import CMTestbed.Losses
import CMTestbed.Packets

/-!
# The counters of an interval

The packets handled in one interval, with the number of those that carry IPv4.
-/

namespace CMTestbed

structure Handling where
  warehouse : DataWarehouse
  /-- The IPv4 packets handled. -/
  ipv4Packets : ℕ

namespace Handling

/-- The arguments of a call of `cm_handle_ipv4_packet`. -/
structure Packet where
  packetBuf : Frame
  totalPktLen : UInt32
  datalink : ℤ
  rand : ℚ

/-- The headers of the packet, if it is handled. -/
def Packet.headers (p : Packet) : Option (FlowS × UInt32) :=
  sentHeaders p.packetBuf p.totalPktLen p.datalink

def start (w : DataWarehouse) : Handling := ⟨w, 0⟩

/-- The length is a positive `int` of at least an IPv4 header, and the flow's total stays below
2^31. -/
def Fits (s : Handling) (p : Packet) : Prop :=
  20 ≤ p.totalPktLen.toNat ∧ p.totalPktLen.toNat < 2 ^ 31
    ∧ ∀ h ∈ p.headers, s.warehouse.active.volume h.1.src + p.totalPktLen.toNat < 2 ^ 31

instance (s : Handling) : DecidablePred s.Fits :=
  fun _ => inferInstanceAs (Decidable (_ ∧ _ ∧ ∀ h ∈ _, _))

def step (setting : CmExperimentSetting) (s : Handling) (p : Packet) : Option Handling :=
  if s.Fits p then
    some {
      warehouse :=
        (cmHandleIpv4Packet setting s.warehouse p.packetBuf p.totalPktLen p.datalink p.rand).1
      ipv4Packets := s.ipv4Packets + if p.headers.isSome then 1 else 0 }
  else none

def system (setting : CmExperimentSetting) : Lib.System Handling Packet := ⟨step setting⟩

end Handling

end CMTestbed
