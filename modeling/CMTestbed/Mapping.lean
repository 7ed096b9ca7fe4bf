import CMTestbed.Packets
import CMTestbed.Text

/-!
# The pcap file generator

The generator deals the addresses of a trace out to the senders, in the order in which they appear:
each sender has a /8 of its own, and `get_mapped_info` gives an address the next free one of its
sender.  A packet between two senders is written to the file of the one it comes from.
-/

namespace CMTestbed

/-- `NUM_SENDERS` -/
def numSenders : UInt32 := 12

/-- `START_IP`, which is also `FIRST_SENDER_IP_PREFIX`. -/
def startIp : UInt32 := 0x0A000000

/-- `ONE_SENDER_IP_NUM` -/
def oneSenderIpNum : UInt32 := 0x01000000

/-- `ITH_SENDER_START_IP` -/
def ithSenderStartIp (i : UInt32) : UInt32 := startIp + oneSenderIpNum * i

/-- `GET_SENDER_IDX` -/
def getSenderIdx (ip : UInt32) : UInt32 := ((ip &&& ipMask) >>> 24) - (startIp >>> 24)

/-- `MAX_PAYLOAD_SIZE` -/
def maxPayloadSize : UInt16 := 5000 - 58

/-! ## The mapping -/

structure Mapping where
  srcipToNodeIdxMap : HtKfsVi
  srcipToNodeSrcipMap : HtKfsVi
  uniqueIpNum : UInt64

/-- `init_srcip_dstip_to_b4_srcip_dstip` -/
def Mapping.init : Mapping where
  srcipToNodeIdxMap := htKfsViCreate
  srcipToNodeSrcipMap := htKfsViCreate
  uniqueIpNum := 0

/-- What a call of `get_mapped_info` is given, and what it hands back. -/
structure MappedInfo where
  ip : UInt32
  mappedNodeid : UInt32
  mappedIp : UInt32
  deriving DecidableEq, Repr

def getMappedInfo (m : Mapping) (ip : UInt32) : Mapping × MappedInfo :=
  let flow : FlowSrc := ⟨ip, 0⟩
  let ret := htKfsViGet m.srcipToNodeIdxMap flow
  if ret < 0 then
    let uniqueIpNum := m.uniqueIpNum + 1
    let mappedNodeid := (uniqueIpNum % numSenders.toUInt64).toUInt32
    let numIpPerNode := ((uniqueIpNum - 1) / numSenders.toUInt64).toUInt32
    let mappedIp := ithSenderStartIp mappedNodeid + numIpPerNode
    ({ srcipToNodeIdxMap := htKfsViSet m.srcipToNodeIdxMap flow mappedNodeid
       srcipToNodeSrcipMap := htKfsViSet m.srcipToNodeSrcipMap flow mappedIp
       uniqueIpNum := uniqueIpNum }, ⟨ip, mappedNodeid, mappedIp⟩)
  else (m, ⟨ip, toUInt ret, toUInt (htKfsViGet m.srcipToNodeSrcipMap flow)⟩)

/-- Calls one after the other. -/
def getMappedInfos (m : Mapping) : List UInt32 → Mapping × List MappedInfo
  | [] => (m, [])
  | ip :: ips =>
    let (m, info) := getMappedInfo m ip
    let (m, infos) := getMappedInfos m ips
    (m, info :: infos)

/-- The addresses that the calls gave to a node. -/
def ipsOfNode (infos : List MappedInfo) (nodeid : UInt32) : Finset UInt32 :=
  ((infos.filter fun info => info.mappedNodeid = nodeid).map MappedInfo.ip).toFinset

/-! ## The main loop -/

/-- The fields of a `packet_s` that the generator sets. -/
structure PacketS where
  srcip : UInt32
  dstip : UInt32
  srcPort : UInt16
  dstPort : UInt16
  protocol : UInt8
  len : UInt16
  deriving DecidableEq, Repr

/-- The packet of a line that was split, or nothing for -1. -/
def packetOfTokens : List (List UInt8) → Option PacketS
  | _ :: srcip :: dstip :: srcPort :: dstPort :: protocol :: len :: _ =>
    let packet : PacketS := {
      srcip := (strtoul srcip).toUInt32
      dstip := (strtoul dstip).toUInt32
      srcPort := UInt16.ofInt (strtol srcPort)
      dstPort := UInt16.ofInt (strtol dstPort)
      protocol := UInt8.ofInt (strtol protocol)
      len := (strtoul len).toUInt16 }
    if packet.len > maxPayloadSize then none else some packet
  | _ => none

/-- A line of the trace, and the two draws of `rand() % 65536` made for it. -/
structure TraceLine where
  lineBuffer : List UInt8
  srcPort : UInt16
  dstPort : UInt16

/-- `parse_one_line`; the outer option is nothing if `str_split` aborts. -/
def parseOneLine (line : TraceLine) : Option (Option PacketS) :=
  (strSplit line.lineBuffer 44).map packetOfTokens

structure Generator where
  mapping : Mapping
  /-- The packets written, with their `node_idx`, the last one first. -/
  written : List (UInt32 × PacketS)

namespace Generator

def init : Generator := ⟨Mapping.init, []⟩

/-- The loop body of `main` for a packet that was parsed. -/
def mapPacket (g : Generator) (packet : PacketS) (srcPort dstPort : UInt16) : Generator :=
  let (m, src) := getMappedInfo g.mapping packet.srcip
  let (m, dst) := getMappedInfo m packet.dstip
  if getSenderIdx src.mappedIp ^^^ getSenderIdx dst.mappedIp = 0 then { g with mapping := m }
  else
    let packet := { packet with
      srcip := src.mappedIp, dstip := dst.mappedIp, srcPort := srcPort, dstPort := dstPort }
    { mapping := m, written := (src.mappedNodeid, packet) :: g.written }

def step (g : Generator) (line : TraceLine) : Option Generator :=
  (parseOneLine line).map fun
    | some packet => g.mapPacket packet line.srcPort line.dstPort
    | none => g

def system : Lib.System Generator TraceLine := ⟨step⟩

end Generator

/-- The addresses that the lines of a trace have in them. -/
def traceIps (lines : List TraceLine) : List UInt32 :=
  lines.flatMap fun line => match parseOneLine line with
    | some (some packet) => [packet.srcip, packet.dstip]
    | _ => []

end CMTestbed
