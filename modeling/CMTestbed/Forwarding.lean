import CMTestbed.Frame
import CMTestbed.Lib.FlowTable
import CMTestbed.Rules

/-!
# The data plane

A switch looks a packet up in its flow table, which holds the rules that the script has added, and
sends it on as one of the rules says that match with the highest priority.  A prefix is an address
in dotted decimals, with the number of its bits behind a slash.

The switches are those of Open vSwitch, which is not part of the repository.  `flowTables`,
`Handled` and `Carried` state what is assumed of it, as its manuals have it: a rule that is added
replaces the one with its match and priority, one of those with the highest priority is followed, a
bundle picks any one of its slaves, and a packet that no rule matches is dropped.
-/

namespace CMTestbed

/-- `inet_pton` reads a decimal without leading zeros. -/
def parseOctet (s : List UInt8) : Option ℕ :=
  if s ≠ [] ∧ s.all isdigit ∧ (s.head? = some 48 → s.length = 1) ∧ digits s < 256 then
    some (digits s)
  else none

def parseIp (s : List UInt8) : Option UInt32 :=
  match (s.splitOn 46).mapM parseOctet with
  | some [a, b, c, d] => some (UInt32.ofNat (((a * 256 + b) * 256 + c) * 256 + d))
  | _ => none

/-- The addresses that agree with one in their first bits. -/
structure Cidr where
  addr : UInt32
  len : ℕ
  len_le : len ≤ 32
  deriving DecidableEq

namespace Cidr

def covers (c : Cidr) (ip : UInt32) : Bool :=
  ip.toNat / 2 ^ (32 - c.len) = c.addr.toNat / 2 ^ (32 - c.len)

/-- `ip[/netmask]`, where the mask is a number of bits. -/
def parse (s : List UInt8) : Option Cidr :=
  match s.splitOn 47 with
  | [ip] => (parseIp ip).map fun addr => ⟨addr, 32, le_rfl⟩
  | [ip, bits] =>
    if h : digits bits ≤ 32 then
      if bits ≠ [] ∧ bits.all isdigit then (parseIp ip).map fun addr => ⟨addr, digits bits, h⟩
      else none
    else none
  | _ => none

end Cidr

def inPrefix (ipPrefix : List UInt8) (ip : UInt32) : Bool :=
  (Cidr.parse ipPrefix).any (·.covers ip)

/-- What the rules read of a packet.  For an ARP packet `nwSrc` and `nwDst` are the addresses that
it asks from and for. -/
structure Header where
  dlType : ℕ
  nwProto : ℕ
  nwSrc : UInt32
  nwDst : UInt32
  deriving DecidableEq, Repr

/-- What a switch makes of an IPv4 frame; the type is the one behind a VLAN tag. -/
def Frame.header (packetBuf : Frame) : Option Header := do
  let outerType ← packetBuf.u16 12
  let etherType ← if outerType = ethertypeVlan then packetBuf.u16 16 else some outerType
  let ip := if outerType = ethertypeVlan then 18 else 14
  if etherType = ethertypeIp then do
    let nwProto ← packetBuf.u8 (ip + 9)
    let nwSrc ← packetBuf.u32 (ip + 12)
    let nwDst ← packetBuf.u32 (ip + 16)
    return ⟨etherType.toNat, nwProto.toNat, nwSrc, nwDst⟩
  else none

namespace FlowRule

/-- `OFP_DEFAULT_PRIORITY`, which `ovs-ofctl` gives a rule without one. -/
def DEFAULT_PRIORITY : ℕ := 32768

def prio (r : FlowRule) : ℕ := r.priority.getD DEFAULT_PRIORITY

/-- Whether the rule is of the switch and matches the packet. -/
def hits (r : FlowRule) (at_ : Name × Header) : Bool :=
  r.entity == at_.1 && r.dlType == at_.2.dlType && r.nwProto.all (· == at_.2.nwProto)
    && r.nwSrc.all (inPrefix · at_.2.nwSrc) && r.nwDst.all (inPrefix · at_.2.nwDst)

/-- A rule that is added replaces the one of the switch with its match and priority. -/
def key (r : FlowRule) : FlowRule := { r with priority := some r.prio, action := .output [] }

end FlowRule

/-- The flow tables of all switches, as they are documented. -/
def flowTables : Lib.FlowTable FlowRule (Name × Header) FlowRule where
  key := FlowRule.key
  hits := FlowRule.hits
  priority := FlowRule.prio
  hits_of_key := by
    rintro ⟨_, _, _, _, _, _, _⟩ ⟨_, _, _, _, _, _, _⟩ p h
    simp only [FlowRule.key, FlowRule.mk.injEq] at h
    obtain ⟨rfl, rfl, rfl, rfl, rfl, -⟩ := h
    rfl

/-- The ports that a packet is sent out at: all of them, or one slave of a bundle. -/
def Action.portLists : Action → List (List ℕ)
  | output ports => [ports]
  | bundle slaves => slaves.map ([·])

/-- A copy of a packet: the node that it is at, and the port that it came in by. -/
structure Located where
  entity : Name
  inPort : ℕ
  deriving DecidableEq, Repr

/-- The other end of a link. -/
def NeighborNode.located (neigh : NeighborNode) : Located := ⟨neigh.neighName, neigh.neighEthid⟩

namespace GenerateRulesIntoTables

variable (t : GenerateRulesIntoTables)

/-- What leaves by a port; no packet leaves by the one that it came in by. -/
def sendTo (l : Located) (port : ℕ) : List Located :=
  if port = l.inPort then [] else
    (((t.graph.lookup l.entity).getD []).filter (·.ethid == port)).map NeighborNode.located

/-- What the node of `l` may make of the packet; without a rule for it, nothing. -/
def Handled (table : List FlowRule) (p : Header) (l : Located) (ls : List Located) : Prop :=
  flowTables.handlers table (l.entity, p) = [] ∧ ls = [] ∨
    ∃ r ∈ flowTables.handlers table (l.entity, p), ∃ ports ∈ r.action.portLists,
      ls = ports.flatMap (t.sendTo l)

/-- The copies that come of the one at `l` in fewer than `n` hops, that one included. -/
def Carried (table : List FlowRule) (p : Header) : ℕ → Located → List Located → Prop
  | 0, _, rs => rs = []
  | n + 1, l, rs => ∃ ls, t.Handled table p l ls ∧
    ∃ rss, List.Forall₂ (Carried table p n) ls rss ∧ rs = l :: rss.flatten

/-- The copies of a packet of the host, within `n` hops: it puts the packet on its links. -/
def Sent (table : List FlowRule) (p : Header) (src : Name) (n : ℕ) (rs : List Located) : Prop :=
  ∃ rss, List.Forall₂ (t.Carried table p n)
    (((t.graph.lookup src).getD []).map NeighborNode.located) rss ∧ rs = rss.flatten

/-- Whether the address is one of the host's. -/
def ownsIp (host : Name) (ip : UInt32) : Bool := (t.hostIpprefixMap.lookup host).any (inPrefix · ip)

/-- A packet that the rules for condition packets match. -/
def isConditionOf (p : Header) (src : Name) : Prop :=
  p.dlType = 0x0800 ∧ p.nwProto = 17 ∧ t.ownsIp src p.nwSrc = true

/-- The rules of rules_to_add_flow_table.sh. -/
def installForwardingRule (installRuleType : ℕ) : Except PyError (List FlowRule) := do
  let normalRules ← t.generateRulesForNormalPackets installRuleType
  let conditionRules ← t.generateRulesForConditionPackets
  return flowTables.install (normalRules ++ conditionRules)

end GenerateRulesIntoTables

end CMTestbed
