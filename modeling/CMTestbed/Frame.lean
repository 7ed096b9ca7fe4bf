import CMTestbed.Flow
import CMTestbed.Lib.Bytes

/-!
# Reading a frame's headers

The sender's `cm_handle_ipv4_packet` and the receiver's `got_packet` each walk an Ethernet frame to
the headers of its packet.  The sender goes through all VLAN tags, asks for IPv4 and takes the IPv4
header to have 20 bytes.  The receiver goes through one tag at most, does not look at the type
behind it, and goes by the header's own length.

A frame is its bytes, and a walk that leaves them yields nothing.
-/

namespace CMTestbed

abbrev Frame := List UInt8

def Frame.u8 (packetBuf : Frame) (i : ℕ) : Option UInt8 := packetBuf[i]?

/-- `ntohs` of two bytes. -/
def Frame.u16 (packetBuf : Frame) (i : ℕ) : Option UInt16 :=
  (Lib.readBE packetBuf i 2).map UInt16.ofNat

/-- `ntohl` of four bytes. -/
def Frame.u32 (packetBuf : Frame) (i : ℕ) : Option UInt32 :=
  (Lib.readBE packetBuf i 4).map UInt32.ofNat

def dltEn10mb : ℤ := 1
def dltJuniperEther : ℤ := 178

def ethertypeIp : UInt16 := 0x0800
def ethertypeVlan : UInt16 := 0x8100

/-- `sizeof(eth_hdr_t)` -/
def ethHdrLen : ℕ := 14

/-- `TCPR_IPV4_H`, which is also `sizeof(ipv4_hdr_t)`. -/
def ipv4HdrLen : ℕ := 20

/-- The fields that both sides read, of an IPv4 header at `ip` and a TCP header at `tcp`. -/
def Frame.headersAt (packetBuf : Frame) (ip tcp : ℕ) : Option (FlowS × UInt32) := do
  let srcip ← packetBuf.u32 (ip + 12)
  let dstip ← packetBuf.u32 (ip + 16)
  let protocol ← packetBuf.u8 (ip + 9)
  let srcPort ← packetBuf.u16 tcp
  let dstPort ← packetBuf.u16 (tcp + 2)
  let seqid ← packetBuf.u32 (tcp + 4)
  return (⟨srcip, dstip, srcPort, dstPort, protocol⟩, seqid)

/-! ## The sender -/

/-- The loop over VLAN tags: where the Ethernet header would be without them, and its type. -/
def vlanLoop (packetBuf : Frame) : ℕ → ℕ → UInt16 → Option (ℕ × UInt16)
  | 0, _, _ => none
  | fuel + 1, l2Len, etherType =>
    if etherType = ethertypeVlan then do
      let etherType ← packetBuf.u16 (l2Len + 16)
      vlanLoop packetBuf fuel (l2Len + 4) etherType
    else some (l2Len, etherType)

def l2Start (packetBuf : Frame) (datalink : ℤ) : Option ℕ :=
  if datalink = dltJuniperEther then do
    let flags ← packetBuf.u8 3
    if flags &&& 0x80 = 0x80 then do
      let l2Len ← packetBuf.u16 4
      return l2Len.toNat + 6
    else return 4
  else return 0

/-- The flow and the seqid under which `cm_handle_ipv4_packet` records a frame. -/
def sentHeaders (packetBuf : Frame) (totalPktLen : UInt32) (datalink : ℤ) :
    Option (FlowS × UInt32) :=
  if totalPktLen.toNat < ipv4HdrLen then none
  else do
    let l2Len ← l2Start packetBuf datalink
    let etherType ← packetBuf.u16 (l2Len + 12)
    let (l2Len, etherType) ← vlanLoop packetBuf packetBuf.length l2Len etherType
    let l2Len := l2Len + ethHdrLen
    if etherType = ethertypeIp then
      packetBuf.headersAt l2Len (l2Len + ipv4HdrLen)
    else none

/-! ## The receiver -/

def getEthernetHeaderLen (packet : Frame) : Option ℕ :=
  (packet.u16 12).map fun etherType => if etherType = ethertypeVlan then 18 else 14

def getNetIdentity (ip : UInt32) : UInt32 := ip >>> 24

/-- What `got_packet` writes to the sender's FIFO. -/
def gotPacket (netIdentity : UInt32) (packetBuffer : Frame) : Option (FlowS × UInt32) := do
  let ip ← getEthernetHeaderLen packetBuffer
  let ipHl := (← packetBuffer.u8 ip).toNat % 16
  let sizeIp := ipHl * 4
  if sizeIp < 20 then none
  else do
    let ipP ← packetBuffer.u8 (ip + 9)
    if ipP = 0x06 then do
      let tcp := ip + sizeIp
      let thOff := (← packetBuffer.u8 (tcp + 12)).toNat / 16
      if thOff * 4 < 20 then none
      else do
        let packet ← packetBuffer.headersAt ip tcp
        if getNetIdentity packet.1.srcip = netIdentity then none else some packet
    else none

/-- An untagged frame from 10.0.0.1:80 to 11.0.0.2:8080 with seqid 7 and these IP options. -/
def exampleFrame (options : List UInt8) : Frame :=
  [0, 0, 0, 0, 0, 2, 0, 0, 0, 0, 0, 1, 0x08, 0x00]
    ++ [0x45 + (options.length / 4).toUInt8, 0, 0, 40, 0, 0, 0, 0, 64, 0x06, 0, 0,
      10, 0, 0, 1, 11, 0, 0, 2] ++ options
    ++ [0, 80, 0x1f, 0x90, 0, 0, 0, 7, 0, 0, 0, 0, 0x50, 0x10, 0, 0, 0, 0, 0, 0]

end CMTestbed
