import CMTestbed.Frame
import CMTestbed.Mapping

/-!
# The bytes that the receiver reads

`got_packet` is given a pointer and does not look at `caplen`: what it reads may lie behind the
captured bytes.  Each read is noted here with its offset.
-/

namespace CMTestbed

/-- Reading a memory, with the offsets that have been read. -/
abbrev Reading := StateM (List ℕ)

namespace Reading

variable (mem : ℕ → UInt8)

def byte (i : ℕ) : Reading UInt8 := do
  modify (· ++ [i])
  return mem i

/-- `ntohs` of two bytes. -/
def short (i : ℕ) : Reading UInt16 := do
  let a ← byte mem i
  let b ← byte mem (i + 1)
  return UInt16.ofNat (a.toNat * 256 + b.toNat)

/-- `ntohl` of four bytes. -/
def long (i : ℕ) : Reading UInt32 := do
  let a ← byte mem i
  let b ← byte mem (i + 1)
  let c ← byte mem (i + 2)
  let d ← byte mem (i + 3)
  return UInt32.ofNat (((a.toNat * 256 + b.toNat) * 256 + c.toNat) * 256 + d.toNat)

end Reading

/-- What becomes of a frame. -/
inductive Handled where
  | ignored
  /-- Counted in `g_received_condition_pkts`. -/
  | condition
  /-- Written to `fifo_handlers[fifoIdx]`. -/
  | reported (packet : FlowS) (seqid : UInt32) (fifoIdx : ℤ)
  deriving DecidableEq, Repr

open Reading in
/-- `got_packet` -/
def handlePacket (netIdentity : UInt32) (mem : ℕ → UInt8) : Reading Handled := do
  let etherType ← short mem 12
  let ip := if etherType = ethertypeVlan then 18 else 14
  let ipHl := (← byte mem ip).toNat % 16
  let sizeIp := ipHl * 4
  if sizeIp < 20 then return .ignored
  let ipP ← byte mem (ip + 9)
  if ipP = 0x06 then
    let tcp := ip + sizeIp
    let thOff := (← byte mem (tcp + 12)).toNat / 16
    if thOff * 4 < 20 then return .ignored
    let srcip ← long mem (ip + 12)
    let dstip ← long mem (ip + 16)
    let srcPort ← short mem tcp
    let dstPort ← short mem (tcp + 2)
    let seqid ← long mem (tcp + 4)
    if getNetIdentity srcip = netIdentity then return .ignored
    return .reported ⟨srcip, dstip, srcPort, dstPort, ipP⟩ seqid (toInt (getSenderIdx srcip))
  else if ipP = 0x11 then return .condition
  else return .ignored

/-- What becomes of a frame, and the offsets that are read. -/
def gotPacketReads (netIdentity : UInt32) (mem : ℕ → UInt8) : Handled × List ℕ :=
  (handlePacket netIdentity mem).run []

end CMTestbed
