import CMTestbed.Mapping
import CMTestbed.Replay
import CMTestbed.VlanTag

/-!
# The packets of the generator

`generate_one_packet` writes 58 bytes: an Ethernet header with a VLAN tag, an IPv4 and a TCP header.
The payload is only a number in the file's record, and the sender's replay counts it in.
-/

namespace CMTestbed

/-- `htons` and `htonl`, in memory. -/
def netBytes16 (v : UInt16) : Frame := Lib.beBytes 2 v.toNat

def netBytes32 (v : UInt32) : Frame := Lib.beBytes 4 v.toNat

/-- Both MAC addresses. -/
def generatedMac : Frame := [0x7c, 0x7a, 0x91, 0x86, 0xb3, 0xe8]

def ethernetHeaderVlan : Frame :=
  generatedMac ++ generatedMac ++ netBytes16 0x8100 ++ [0, 0] ++ netBytes16 0x0800

/-- The fragment field `0x4000` is in the byte order of the host. -/
def ipHeader (pPacket : PacketS) : Frame :=
  [0x45, 0] ++ netBytes16 40 ++ [0, 0, 0x00, 0x40, 0x40, 0x06, 0, 0]
    ++ netBytes32 pPacket.srcip ++ netBytes32 pPacket.dstip

def tcpHeader (pPacket : PacketS) (seqid : UInt32) : Frame :=
  netBytes16 pPacket.srcPort ++ netBytes16 pPacket.dstPort ++ netBytes32 seqid
    ++ [0, 0, 0, 0, 0x50, 0, 0, 0, 0, 0, 0, 0]

/-- `seqid` is what `get_seqid_of_flow` returns. -/
def generateOnePacket (pPacket : PacketS) (seqid : UInt32) : Frame :=
  ethernetHeaderVlan ++ ipHeader pPacket ++ tcpHeader pPacket seqid

/-- The record written to the file. -/
def generateOnePcapPkt (pPacket : PacketS) (seqid : UInt32) : CapturedPacket where
  pktdata := generateOnePacket pPacket seqid
  len := 58 + pPacket.len.toUInt32

/-- What the functions of `vlan_tag.c` can make of a packet in the sender's buffer. -/
inductive TaggedFrom (packetBuf : Frame) : Frame → Prop
  | untagged : TaggedFrom packetBuf packetBuf
  | sampled {b b' : Frame} (h : TaggedFrom packetBuf b)
      (ht : tagPacketAsSampled b dltEn10mb = some b') : TaggedFrom packetBuf b'
  | level {b b' : Frame} (selectedLevel : ℤ) (h : TaggedFrom packetBuf b)
      (ht : tagSelectedFlowLevelInNormalPacket b dltEn10mb selectedLevel = some b') :
      TaggedFrom packetBuf b'
  | switches {b b' : Frame} (switchides : List ℤ) (h : TaggedFrom packetBuf b)
      (ht : tagPacketForSwitches b dltEn10mb switchides = some b') : TaggedFrom packetBuf b'
  | condition {b : Frame} (selectedLevel : ℤ) (h : TaggedFrom packetBuf b) :
      TaggedFrom packetBuf (tagPacketSelectedLevel b 0 selectedLevel)
  | unselected {b : Frame} (h : TaggedFrom packetBuf b) :
      TaggedFrom packetBuf (tagPacketAsUnselected b 0)

end CMTestbed
