import CMTestbed.Savefile
import CMTestbed.SeqIds

/-!
# The generator's files

`main` has a savefile open for each node, and writes a packet to that of the node it comes from.
The packets of all nodes are numbered by one table.  The sender of a host replays the file that is
called like the host.
-/

namespace CMTestbed

/-- The globals of `writePacketToPcapFile.c`. -/
structure PcapWriter where
  flowSeqidHashmap : HtKf
  /-- What has been written for each node. -/
  pdumper : UInt32 → Frame

/-- The header of a packet that is written; its time is the same for all. -/
def CapturedPacket.pcapHeader (packet : CapturedPacket) : PcapPkthdr :=
  ⟨0xAA779F47, 0x90A20400, packet.pktdata.length.toUInt32, packet.len⟩

namespace PcapWriter

/-- `init_write_pkts_to_files` -/
def initWritePktsToFiles : Option PcapWriter :=
  (pcapDumpOpen .little pcapTstampPrecisionMicro dltEn10mb 65535).map fun header =>
    ⟨htKfCreate, fun _ => header⟩

/-- `generate_one_pcap_pkt`; nothing if there is no file for the node. -/
def generateOnePcapPkt (w : PcapWriter) (nodeIdx : UInt32) (call : PacketCall) :
    Option PcapWriter :=
  if nodeIdx < numSenders then
    let (flowSeqidHashmap, seqid) := getSeqidOfFlow w.flowSeqidHashmap call.flow
    let packet := CMTestbed.generateOnePcapPkt call.pPacket seqid
    some {
      flowSeqidHashmap := flowSeqidHashmap
      pdumper := Function.update w.pdumper nodeIdx
        (w.pdumper nodeIdx ++ pcapDump .little packet.pcapHeader packet.pktdata) }
  else none

/-- Calls one after the other. -/
def generatePcapPkts (w : PcapWriter) (calls : List (UInt32 × PacketCall)) : Option PcapWriter :=
  calls.foldlM (fun w call => w.generateOnePcapPkt call.1 call.2) w

end PcapWriter

/-- The calls of `generate_one_pcap_pkt` in a run of `main`, where the stack holds the same at each
of them. -/
def Generator.calls (g : Generator) (stack : FlowS) : List (UInt32 × PacketCall) :=
  g.written.reverse.map fun w => (w.1, ⟨w.2, stack⟩)

/-- The name of a node's file, in the 100 bytes of `fname`. -/
def pcapFname (outFpath : List UInt8) (nodeIdx : UInt32) : List UInt8 :=
  (outFpath ++ chars "/h" ++ formatNat (nodeIdx.toNat + 1) ++ chars ".pcap").take 99

/-- The name of the file of a directory that is replayed on a host. -/
def replayedFname (path : List UInt8) (host : Name) : List UInt8 :=
  path ++ chars "/" ++ host ++ chars ".pcap"

/-- The packets of a file, as `send_packets` gets them; nothing for a file of `pcap-ng`. -/
def replayedPackets (file : Frame) :
    Except (List UInt8) (Option (List CapturedPacket × Option Stop)) :=
  (pcapOpenOffline file pcapTstampPrecisionMicro).map fun opened => opened.map fun p =>
    let r := nextPackets p.1 p.2
    (r.1.map fun x => ⟨x.2, x.1.len⟩, r.2)

end CMTestbed
