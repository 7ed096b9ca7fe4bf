import CMTestbed.Conditions
import CMTestbed.Forwarding
import CMTestbed.Generate

/-!
# Condition packets on the wire

`send_udp_condition_pkt` writes 46 bytes: an Ethernet header with a VLAN tag, an IPv4 and a UDP
header.  Its headers are locals, and some of their fields are never assigned.
-/

namespace CMTestbed

/-- The fields that are sent as the stack holds them. -/
structure Unassigned where
  ipTos : UInt8
  ipId : UInt16
  ipSum : UInt16
  uhSum : UInt16

/-- The fragment field `0x4000` is in the byte order of the host. -/
def conditionIpHeader (stack : Unassigned) (condition : Condition) : Frame :=
  [0x45, stack.ipTos] ++ netBytes16 28 ++ netBytes16 stack.ipId ++ [0x00, 0x40, 0x40, 0x11]
    ++ netBytes16 stack.ipSum ++ netBytes32 condition.flow.srcip ++ netBytes32 condition.flow.dstip

/-- The ports are in the byte order of the host. -/
def conditionUdpHeader (stack : Unassigned) : Frame :=
  [0x01, 0x00, 0x01, 0x00] ++ netBytes16 8 ++ netBytes16 stack.uhSum

def sendUdpConditionPkt (stack : Unassigned) (condition : Condition) : Frame :=
  tagPacketSelectedLevel ethernetHeaderVlan 0 condition.selectedLevel
    ++ conditionIpHeader stack condition ++ conditionUdpHeader stack

/-- The flow and the level that a switch finds in a condition packet. -/
def Frame.condition (packetBuf : Frame) : Option Condition := do
  let p ← packetBuf.header
  let vlanVal ← packetBuf.hostU16 14
  return ⟨⟨p.nwSrc, p.nwDst⟩, (getVlanSelectedFlowVal vlanVal).toNat⟩

end CMTestbed
