import CMTestbed.Generate

/-!
# The sequence numbers of the generator

`generate_one_packet` numbers the packets by a counter in a table of 5-tuples.  The key of the
lookup is a local `flow_t` of which only the source address is assigned; the rest of it is whatever
the stack holds at the call.
-/

namespace CMTestbed

/-- `hashtable_kf_t` -/
abbrev HtKf := Lib.Table flowKeying UInt32

def htKfCreate : HtKf := Lib.Table.create

def htKfGet (hashtable : HtKf) (key : FlowS) : ℤ :=
  match hashtable.get key with
  | some value => toInt value
  | none => -1

def htKfSet (hashtable : HtKf) (key : FlowS) (value : UInt32) : HtKf := hashtable.set key value

/-- A packet that is passed to `generate_one_packet`, and what the fields of the local `flow_t`
hold at the call. -/
structure PacketCall where
  pPacket : PacketS
  stack : FlowS

/-- The local `flow_t`. -/
def PacketCall.flow (c : PacketCall) : FlowS := { c.stack with srcip := c.pPacket.srcip }

def getSeqidOfFlow (flowSeqidHashmap : HtKf) (flow : FlowS) : HtKf × UInt32 :=
  let flowSeqidHashmap :=
    if htKfGet flowSeqidHashmap flow < 0 then htKfSet flowSeqidHashmap flow 0
    else flowSeqidHashmap
  let seqid := toUInt (htKfGet flowSeqidHashmap flow + 1)
  (htKfSet flowSeqidHashmap flow seqid, seqid)

/-- The table and the packets' bytes after the calls. -/
def generatePackets (calls : List PacketCall) : HtKf × List Frame :=
  calls.foldl (fun s c =>
    let r := getSeqidOfFlow s.1 c.flow
    (r.1, s.2 ++ [generateOnePacket c.pPacket r.2])) (htKfCreate, [])

/-- Two packets of one TCP flow. -/
def PacketS.SameFlow (p q : PacketS) : Prop :=
  p.srcip = q.srcip ∧ p.dstip = q.dstip ∧ p.srcPort = q.srcPort ∧ p.dstPort = q.dstPort

/-- The TCP sequence number of a packet that the generator wrote. -/
def Frame.seqid (packetBuf : Frame) : Option UInt32 := packetBuf.u32 42

end CMTestbed
