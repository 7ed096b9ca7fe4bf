import CMTestbed.Mapping
import CMTestbed.Generate
import CMTestbed.TasksInfo

/-!
# The reports of the receivers

A receiver writes what it has got of a packet to the FIFO of the packet's sender, and the sender's
`flow_infor_update` reads it there.  A `recv_2_send_proto_t` is written as it is in memory: 20
bytes, with the numbers in the byte order of the host and three bytes of padding.

A write of so few bytes is not split, whoever else writes to the FIFO, and a read takes what there
is, up to 20 bytes.
-/

namespace CMTestbed

structure Recv2SendProto extends FlowS where
  receSeqid : UInt32
  deriving DecidableEq, Repr

/-- A `uint16_t` in memory, the low byte first. -/
def hostBytes16 (v : UInt16) : Frame := [v.toUInt8, (v >>> 8).toUInt8]

/-- A `uint32_t` in the byte order of the host. -/
def Frame.hostU32 (packetBuf : Frame) (i : ℕ) : Option UInt32 := do
  let low ← packetBuf.hostU16 i
  let high ← packetBuf.hostU16 (i + 2)
  return UInt32.ofNat (low.toNat + 2 ^ 16 * high.toNat)

namespace Recv2SendProto

/-- `sizeof(recv_2_send_proto_t)` -/
def size : ℕ := 20

/-- What the three bytes of padding hold. -/
abbrev Padding := UInt8 × UInt8 × UInt8

def bytes (p : Recv2SendProto) (padding : Padding) : Frame :=
  hostBytes p.srcip ++ hostBytes p.dstip ++ hostBytes16 p.srcPort ++ hostBytes16 p.dstPort
    ++ [p.protocol, padding.1, padding.2.1, padding.2.2] ++ hostBytes p.receSeqid

def ofBytes (buf : Frame) : Option Recv2SendProto := do
  let srcip ← buf.hostU32 0
  let dstip ← buf.hostU32 4
  let srcPort ← buf.hostU16 8
  let dstPort ← buf.hostU16 10
  let protocol ← buf.u8 12
  let receSeqid ← buf.hostU32 16
  return ⟨⟨srcip, dstip, srcPort, dstPort, protocol⟩, receSeqid⟩

end Recv2SendProto

def writeConditionToFIFO (fifo : List UInt8) (p : Recv2SendProto)
    (padding : Recv2SendProto.Padding) : List UInt8 :=
  fifo ++ p.bytes padding

/-- What is read, if that is a whole report, and what is left.  A FIFO that is empty is waited
for. -/
def readConditionFromFIFO (fifo : List UInt8) : Option Recv2SendProto × List UInt8 :=
  let buf := fifo.take Recv2SendProto.size
  (if buf.length = Recv2SendProto.size then Recv2SendProto.ofBytes buf else none,
    fifo.drop Recv2SendProto.size)

/-! ## The FIFOs -/

/-- `snprintf` into 100 bytes. -/
def getSenderFifoFname (ithSender : ℕ) : List UInt8 :=
  (chars "/tmp/fifo/h" ++ formatNat ithSender ++ chars "_fifo").take 99

def senderGetFifoFname (hostname : Name) : List UInt8 :=
  (chars "/tmp/fifo/" ++ hostname ++ chars "_fifo").take 99

/-- The name of the FIFO that is open at the index of `fifo_handlers` for the address; nothing if
the array has no such index. -/
def getSenderFifoHandler (srcip : UInt32) : Option (List UInt8) :=
  if getSenderIdx srcip < numSenders then some (getSenderFifoFname ((getSenderIdx srcip).toNat + 1))
  else none

/-- All FIFOs, by their names. -/
abbrev Fifos := List UInt8 → List UInt8

/-- `atoi` of the prefix that the receiver is started with. -/
def netIdentityOf (ipPrefixStr : List UInt8) : UInt32 := toUInt (intOfLong (strtol ipPrefixStr))

/-- `got_packet`, with what it writes; nothing if the index is not in the array. -/
def receive (netIdentity : UInt32) (packetBuffer : Frame) (padding : Recv2SendProto.Padding)
    (fifos : Fifos) : Option Fifos :=
  match gotPacket netIdentity packetBuffer with
  | some (flow, seqid) => do
    let fname ← getSenderFifoHandler flow.srcip
    return Function.update fifos fname (writeConditionToFIFO (fifos fname) ⟨flow, seqid⟩ padding)
  | none => some fifos

/-- The FIFOs, while receivers write to them and senders read them. -/
structure Reporting where
  fifos : Fifos
  /-- What the sender of each number has read. -/
  read : ℕ → List (Option Recv2SendProto)

namespace Reporting

def init : Reporting := ⟨fun _ => [], fun _ => []⟩

inductive Event where
  | receive (netIdentity : UInt32) (packetBuffer : Frame) (padding : Recv2SendProto.Padding)
  | read (n : ℕ)

/-- A sender waits for something to read. -/
def step (s : Reporting) : Event → Option Reporting
  | .receive netIdentity packetBuffer padding =>
    (CMTestbed.receive netIdentity packetBuffer padding s.fifos).map fun fifos =>
      { s with fifos := fifos }
  | .read n =>
    let fname := senderGetFifoFname (hostName n)
    if 1 ≤ n ∧ n ≤ numSenders.toNat ∧ s.fifos fname ≠ [] then
      let (report, rest) := readConditionFromFIFO (s.fifos fname)
      some {
        fifos := Function.update s.fifos fname rest
        read := Function.update s.read n (s.read n ++ [report]) }
    else none

def system : Lib.System Reporting Event := ⟨step⟩

end Reporting

end CMTestbed
