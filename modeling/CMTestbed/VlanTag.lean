import CMTestbed.Frame

/-!
# Tagging a packet

The functions of `vlan_tag.c` put their marks into one field of 16 bits, that of the outermost VLAN
tag: whether the packet is sampled, the selected level of its flow, and the switches that are to
look at it.  The field is written in the byte order of the host, the low byte first.
-/

namespace CMTestbed

/-- A `uint16_t` in the byte order of the host. -/
def Frame.hostU16 (packetBuf : Frame) (i : ℕ) : Option UInt16 := do
  let low ← packetBuf.u8 i
  let high ← packetBuf.u8 (i + 1)
  return UInt16.ofNat (low.toNat + 256 * high.toNat)

def Frame.setHostU16 (packetBuf : Frame) (i : ℕ) (v : UInt16) : Frame :=
  (packetBuf.set i v.toUInt8).set (i + 1) (v >>> 8).toUInt8

/-- `TAG_VLAN_PACKET_SAMPLED_VAL` -/
def tagVlanPacketSampledVal : UInt16 := 1

/-- `SELECTED_FLOW_VAL_MASK` -/
def selectedFlowValMask : UInt16 := 6

/-- `TAG_VLAN_SELECTED_FLOW_VAL` -/
def tagVlanSelectedFlowVal (selectedLevel : ℤ) : UInt16 :=
  UInt16.ofInt (selectedLevel * 2) &&& selectedFlowValMask

/-- `GET_VLAN_SELECTED_FLOW_VAL` -/
def getVlanSelectedFlowVal (vlanVal : UInt16) : UInt16 := (vlanVal &&& selectedFlowValMask) >>> 1

/-- `TAG_VLAN_FOR_SWITCH_I`, as far as it fits in the field.  Nothing if the shift is undefined for
an `int`. -/
def tagVlanForSwitchI (i : ℤ) : Option UInt16 :=
  let n := if i < 1 then i + 3 else i + 4
  if 0 ≤ n ∧ n < 32 then some (UInt16.ofNat (2 ^ n.toNat)) else none

/-- The place of the tag field in the outer Ethernet header, if its type is VLAN. -/
def vlanField (packetBuf : Frame) (datalink : ℤ) : Option (Option ℕ) := do
  let l2Len ← l2Start packetBuf datalink
  let etherType ← packetBuf.u16 (l2Len + 12)
  return if etherType = ethertypeVlan then some (l2Len + 14) else none

/-- What the functions that tag have in common; `tag` is what they do to the field. -/
def tagVlan (packetBuf : Frame) (datalink : ℤ) (tag : UInt16 → Option UInt16) : Option Frame := do
  match ← vlanField packetBuf datalink with
  | some i => do
    let vid ← packetBuf.hostU16 i
    let vid ← tag vid
    return packetBuf.setHostU16 i vid
  | none => return packetBuf

def tagPacketAsSampled (packetBuf : Frame) (datalink : ℤ) : Option Frame :=
  tagVlan packetBuf datalink fun vid => some (vid ||| tagVlanPacketSampledVal)

def checkPacketTaggedAsSampled (packetBuf : Frame) (datalink : ℤ) : Option Bool := do
  match ← vlanField packetBuf datalink with
  | some i => do
    let vid ← packetBuf.hostU16 i
    return vid &&& tagVlanPacketSampledVal != 0
  | none => return false

def tagSelectedFlowLevelInNormalPacket (packetBuf : Frame) (datalink selectedLevel : ℤ) :
    Option Frame :=
  tagVlan packetBuf datalink fun vid => some (vid ||| tagVlanSelectedFlowVal selectedLevel)

/-- The loop over the switches. -/
def tagSwitches (switchides : List ℤ) (vid : UInt16) : Option UInt16 :=
  switchides.foldlM (fun vid switchid => (tagVlanForSwitchI (switchid - 1)).map (vid ||| ·)) vid

def tagPacketForSwitches (packetBuf : Frame) (datalink : ℤ) (switchides : List ℤ) : Option Frame :=
  tagVlan packetBuf datalink (tagSwitches switchides)

/-- For a condition packet, whose Ethernet header is at `header`. -/
def tagPacketSelectedLevel (packetBuf : Frame) (header : ℕ) (selectedLevel : ℤ) : Frame :=
  packetBuf.setHostU16 (header + 14) (tagVlanSelectedFlowVal selectedLevel)

def tagPacketAsUnselected (packetBuf : Frame) (header : ℕ) : Frame :=
  tagPacketSelectedLevel packetBuf header 0

end CMTestbed
