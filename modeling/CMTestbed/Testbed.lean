import CMTestbed.ConditionPackets
import CMTestbed.Fifo
import CMTestbed.Losses
import Mathlib.Logic.Relation

/-!
# The whole testbed

On each host a sender replays its file and reads the reports about its packets, and a receiver
writes reports until it has handled its 90000000 packets.  Between them the switches carry the
packets by their rules, or lose them.  The steps of the hosts and of the network come in any order,
but the packets of one flow do not overtake each other: a bundle picks the slave by the flow.
-/

namespace CMTestbed

/-! ## Packets -/

/-- The flow of a generated packet. -/
def PacketS.flow (pPacket : PacketS) : FlowS :=
  ⟨pPacket.srcip, pPacket.dstip, pPacket.srcPort, pPacket.dstPort, 6⟩

/-- A packet that is generated with this seqid, as the ledger counts it. -/
def PacketS.sentAs (pPacket : PacketS) (seqid : UInt32) : FlowS × PktVolume :=
  (pPacket.flow, ⟨seqid, (generateOnePcapPkt pPacket seqid).len.toUInt16.toUInt32⟩)

/-- The packet that a replayed frame has in it, by the headers of the generator and by the length
that the replay has put behind them.  A condition packet ends before that. -/
def Frame.sentAs (packetBuf : Frame) : Option (FlowS × PktVolume) := do
  let headers ← packetBuf.headersAt 18 38
  let len ← packetBuf.hostU32 58
  return (headers.1, ⟨headers.2, len.toUInt16.toUInt32⟩)

/-- Two packets of one flow. -/
def Frame.SameFlow (a b : Frame) : Prop :=
  ∃ p q, a.sentAs = some p ∧ b.sentAs = some q ∧ p.1.rank = q.1.rank

/-! ## Hosts -/

/-- What runs on a host. -/
structure Station where
  /-- The records of its file that are not replayed yet, by what they were generated from. -/
  file : List (PacketS × UInt32)
  pktTemporaryBuffer : Frame
  /-- The packet that has been handled and is sent next. -/
  pending : Option Frame
  warehouse : DataWarehouse
  /-- Whether the loop of `flow_infor_update` goes on. -/
  reading : Bool
  /-- What the loop has read, and what the ledger has returned for it. -/
  answers : List (Recv2SendProto × ReceVLostV)

namespace Station

variable (setting : CmExperimentSetting)

/-- The loop of `send_packets` up to `sendpacket`. -/
def replay (s : Station) (rand : ℚ) : Option Station :=
  match s.file with
  | [] => none
  | (pPacket, seqid) :: file => do
    let packet := generateOnePcapPkt pPacket seqid
    let packetBuf := copyPacket s.pktTemporaryBuffer packet
    let handled := cmHandleIpv4Packet setting s.warehouse packetBuf packet.len dltEn10mb rand
    let packetBuf ← handled.2.apply packetBuf dltEn10mb
    return { s with
      file := file
      pktTemporaryBuffer := packetBuf
      pending := some (packetBuf.take packet.ownBytes.length)
      warehouse := handled.1 }

/-- The loop of `flow_infor_update`, for what has been read. -/
def update (s : Station) (report : Option Recv2SendProto) (rand : ℚ) : Station :=
  match report with
  | some p => { s with
    warehouse := flowInforUpdate setting s.warehouse p.toFlowS p.receSeqid rand
    answers := s.answers ++
      [(p, (htVlGetReceLostVolume s.warehouse.flowRecePktListMap p.toFlowS p.receSeqid).2)] }
  | none => { s with reading := false }

/-- What is known of a flow. -/
def answersOf (s : Station) (flow : FlowS) : List (Recv2SendProto × ReceVLostV) :=
  s.answers.filter (·.1.rank = flow.rank)

end Station

/-! ## Receivers -/

/-- How many packets `pcap_loop` of a receiver handles before it ends. -/
def pcapLoopCnt : ℕ := 90000000

/-- The receivers of all hosts. -/
structure Receivers where
  fifos : Fifos
  /-- How many packets the receiver of a host has handled. -/
  received : Name → ℕ

/-- One packet more for the receiver of the host, unless its loop has ended. -/
def countPacket (received : Name → ℕ) (host : Name) : Name → ℕ :=
  if received host < pcapLoopCnt then Function.update received host (received host + 1)
  else received

/-- A turn of `pcap_loop` on the host.  The packets of the testbed all pass the filter of the
receiver, also those that the host sends itself. -/
def Receivers.handle (receivers : Receivers) (netIdentity : UInt32) (host : Name)
    (packetBuffer : Frame) (padding : Recv2SendProto.Padding) : Option Receivers :=
  if receivers.received host < pcapLoopCnt then do
    let fifos ← receive netIdentity packetBuffer padding receivers.fifos
    return ⟨fifos, countPacket receivers.received host⟩
  else some receivers

/-! ## The testbed -/

/-- What the testbed is set up with. -/
structure Setup where
  topo : GenerateRulesIntoTables
  table : List FlowRule
  setting : CmExperimentSetting

structure Testbed extends Receivers where
  station : Name → Station
  /-- The frames on their way, with the hosts that they come from. -/
  net : List (Name × Frame)
  /-- The frames that have come to the receivers, and those that were lost, also those that came to
  a receiver that had ended. -/
  arrived : List (Name × Frame)
  dropped : List (Name × Frame)

/-- The receivers on those of the nodes that are hosts get a packet. -/
def GenerateRulesIntoTables.receiveAt (t : GenerateRulesIntoTables) (nodes : List Name)
    (packetBuffer : Frame) (padding : Name → Recv2SendProto.Padding) (receivers : Receivers) :
    Option Receivers :=
  (nodes.filter (· ∈ t.hosts)).foldlM (fun receivers host =>
    receivers.handle (netIdentityOf ((t.hostIpprefixMap.lookup host).getD [])) host packetBuffer
      (padding host)) receivers

namespace Testbed

def setStation (s : Testbed) (u : Name) (station : Station) : Testbed :=
  { s with station := Function.update s.station u station }

/-- The packets that the host has sent, of those in a list. -/
def sentBy (u : Name) (frames : List (Name × Frame)) : List (FlowS × PktVolume) :=
  (frames.filter (·.1 = u)).filterMap (·.2.sentAs)

/-- The packets of a flow. -/
def ofRank (rank : ℕ) (packets : List (FlowS × PktVolume)) : List PktVolume :=
  (packets.filter (·.1.rank = rank)).map Prod.snd

inductive Step (c : Setup) : Testbed → Testbed → Prop
  | replay {s : Testbed} {u : Name} {station : Station} (rand : ℚ) (hu : u ∈ c.topo.hosts)
      (hpending : (s.station u).pending = none)
      (hreplay : (s.station u).replay c.setting rand = some station) :
      Step c s (s.setStation u station)
  | send {s : Testbed} {u : Name} {packetBuf : Frame} (hu : u ∈ c.topo.hosts)
      (hpending : (s.station u).pending = some packetBuf) :
      Step c s { s.setStation u { s.station u with pending := none } with
        net := s.net ++ [(u, packetBuf)] }
  /-- The sender of condition packets sends one about a flow of its host. -/
  | condition {s : Testbed} {u : Name} (stack : Unassigned) {condition : Condition}
      (hu : u ∈ c.topo.hosts) (hown : c.topo.ownsIp u condition.flow.srcip) :
      Step c s { s with net := s.net ++ [(u, sendUdpConditionPkt stack condition)] }
  /-- A packet is lost.  Receivers may have handled it before that, as the one of its own host. -/
  | drop {s : Testbed} {before after : List (Name × Frame)} {x : Name × Frame}
      {received : Name → ℕ} (hnet : s.net = before ++ x :: after)
      (hreceived : ∀ w, received w = s.received w ∨ received w = countPacket s.received w w) :
      Step c s { s with
        received := received, net := before ++ after, dropped := s.dropped ++ [x] }
  /-- A packet comes to all nodes on its way; it has not overtaken an earlier one of its flow. -/
  | arrive {s : Testbed} {before after : List (Name × Frame)} {u : Name} {packetBuf : Frame}
      {p : Header} {rs : List Located} {receivers : Receivers}
      (padding : Name → Recv2SendProto.Padding) (hnet : s.net = before ++ (u, packetBuf) :: after)
      (hfirst : ∀ x ∈ before, ¬ x.2.SameFlow packetBuf) (hp : packetBuf.header = some p)
      (hrs : c.topo.Sent c.table p u c.topo.turns rs)
      (hreceive : c.topo.receiveAt (u :: rs.map Located.entity) packetBuf padding s.toReceivers
        = some receivers)
      (hgoing : ∀ v ∈ rs.map Located.entity, v ∈ c.topo.hosts → s.received v < pcapLoopCnt) :
      Step c s { s with
        toReceivers := receivers, net := before ++ after
        arrived := s.arrived ++ [(u, packetBuf)] }
  /-- A packet comes to a host whose receiver has ended. -/
  | miss {s : Testbed} {before after : List (Name × Frame)} {u v : Name} {packetBuf : Frame}
      {p : Header} {rs : List Located} {receivers : Receivers}
      (padding : Name → Recv2SendProto.Padding) (hnet : s.net = before ++ (u, packetBuf) :: after)
      (hfirst : ∀ x ∈ before, ¬ x.2.SameFlow packetBuf) (hp : packetBuf.header = some p)
      (hrs : c.topo.Sent c.table p u c.topo.turns rs)
      (hreceive : c.topo.receiveAt (u :: rs.map Located.entity) packetBuf padding s.toReceivers
        = some receivers)
      (hv : v ∈ rs.map Located.entity) (hhost : v ∈ c.topo.hosts)
      (hended : pcapLoopCnt ≤ s.received v) :
      Step c s { s with
        toReceivers := receivers, net := before ++ after
        dropped := s.dropped ++ [(u, packetBuf)] }
  | report {s : Testbed} {u : Name} (rand : ℚ) (hu : u ∈ c.topo.hosts)
      (hreading : (s.station u).reading = true)
      (hwaiting : s.fifos (senderGetFifoFname u) ≠ []) :
      Step c s { s.setStation u ((s.station u).update c.setting
          (readConditionFromFIFO (s.fifos (senderGetFifoFname u))).1 rand) with
        fifos := Function.update s.fifos (senderGetFifoFname u)
          (readConditionFromFIFO (s.fifos (senderGetFifoFname u))).2 }
  | rotate {s : Testbed} {u : Name} (hu : u ∈ c.topo.hosts) :
      Step c s (s.setStation u { s.station u with
        warehouse := dataWareRotateBuffer (s.station u).warehouse })
  | reset {s : Testbed} {u : Name} (hu : u ∈ c.topo.hosts) :
      Step c s (s.setStation u { s.station u with
        warehouse := dataWarehouseResetNoactiveBuf c.setting (s.station u).warehouse })

/-- The testbed as it starts, with these files and tasks. -/
structure Starts (c : Setup) (files : Name → List (PacketS × UInt32))
    (tasks : List GenerateRulesIntoTables.MonitorTask) (s : Testbed) : Prop where
  file : ∀ u ∈ c.topo.hosts, (s.station u).file = files u
  pending : ∀ u ∈ c.topo.hosts, (s.station u).pending = none
  warehouse : ∀ u ∈ c.topo.hosts, ∃ stored, initTasksInfo (taskFile tasks) u = .ok stored
    ∧ (s.station u).warehouse = dataWarehouseInit c.setting stored
  reading : ∀ u ∈ c.topo.hosts, (s.station u).reading = true
  answers : ∀ u ∈ c.topo.hosts, (s.station u).answers = []
  net : s.net = []
  fifos : ∀ fname, s.fifos fname = []
  received : ∀ u, s.received u = 0
  arrived : s.arrived = []
  dropped : s.dropped = []

abbrev Runs (c : Setup) : Testbed → Testbed → Prop := Relation.ReflTransGen (Step c)

/-- The packets of a flow that were lost before the last one that is reported. -/
def lost (s : Testbed) (u : Name) (flow : FlowS) : List PktVolume :=
  (ofRank flow.rank (sentBy u s.dropped)).filter fun pkt =>
    ((s.station u).answersOf flow).getLast?.any fun answer => pkt.seqid < answer.1.receSeqid

end Testbed

end CMTestbed
