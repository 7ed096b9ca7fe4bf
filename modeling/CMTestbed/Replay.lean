import CMTestbed.Packets

/-!
# The buffer of a replayed packet

`send_packets` copies each captured packet into one buffer, and behind it 4 bytes with the packet's
length.  What else is in the buffer is left of earlier packets.
-/

namespace CMTestbed

/-- The size of `g_pkt_temporary_buffer`. -/
def pktTemporaryBufferSize : ℕ := 15000

/-- A packet as `pcap` hands it out: `caplen` bytes, and the length `len` it had on the wire. -/
structure CapturedPacket where
  pktdata : Frame
  len : UInt32

/-- A `uint32_t` in memory, the low byte first. -/
def hostBytes (v : UInt32) : Frame :=
  [v.toUInt8, (v >>> 8).toUInt8, (v >>> 16).toUInt8, (v >>> 24).toUInt8]

def CapturedPacket.ownBytes (p : CapturedPacket) : Frame := p.pktdata ++ hostBytes p.len

/-- The buffer after the two calls of `memcpy`. -/
def copyPacket (buffer : Frame) (p : CapturedPacket) : Frame :=
  p.ownBytes ++ buffer.drop p.ownBytes.length

/-- What `cm_handle_ipv4_packet` makes of the packet at the start of the memory: the flow key, the
seqid and the volume that it records, or that it ignores the packet (`some none`).  Nothing checks
the reads; one that leaves the memory has no value (`none`). -/
def recordIn (memory : Frame) (totalPktLen : UInt32) (datalink : ℤ) :
    Option (Option (FlowS × UInt32 × UInt16)) :=
  if totalPktLen.toNat < ipv4HdrLen then some none
  else do
    let l2Len ← l2Start memory datalink
    let etherType ← memory.u16 (l2Len + 12)
    let (l2Len, etherType) ← vlanLoop memory memory.length l2Len etherType
    let l2Len := l2Len + ethHdrLen
    if etherType = ethertypeIp then do
      let (flow, seqid) ← memory.headersAt l2Len (l2Len + ipv4HdrLen)
      return some (flow, seqid, totalPktLen.toUInt16)
    else return none

/-- What it records, where it does. -/
def recordOf (packetBuf : Frame) (totalPktLen : UInt32) (datalink : ℤ) :
    Option (FlowS × UInt32 × UInt16) :=
  (recordIn packetBuf totalPktLen datalink).join

/-- What is recorded of a packet that `send_packets` copies into the buffer, when the program's
memory goes on with `behind` after the buffer.  The copy is not checked either. -/
def replayed (buffer behind : Frame) (p : CapturedPacket) (datalink : ℤ) :
    Option (Option (FlowS × UInt32 × UInt16)) :=
  let memory := buffer ++ behind
  if p.ownBytes.length ≤ memory.length then recordIn (copyPacket memory p) p.len datalink
  else none

/-- A packet of which only the Ethernet header was captured. -/
def examplePacket : CapturedPacket :=
  ⟨[0, 0, 0, 0, 0, 2, 0, 0, 0, 0, 0, 1, 0x08, 0x00], 60⟩

end CMTestbed
