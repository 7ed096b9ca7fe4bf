import CMTestbed.Lib.Flood
import CMTestbed.Topology

/-!
# Forwarding rules

The rules that the generators write for `ovs-ofctl add-flow`, and how switches forward by them: a
port leads to the neighbour that the graph has at it.
-/

namespace CMTestbed

open Dict (getItem)

/-- What a switch does with a packet: send it out at every port, or at one of the slaves, which
depends on the packet's flow. -/
inductive Action
  | output (ports : List ℕ)
  | bundle (slaves : List ℕ)
  deriving DecidableEq, Repr

def Action.ports : Action → List ℕ
  | output ports => ports
  | bundle slaves => slaves

/-- The same up to the order of the ports. -/
def Action.Agree : Action → Action → Prop
  | output ports, output ports' => ports.Perm ports'
  | bundle slaves, bundle slaves' => slaves.Perm slaves'
  | _, _ => False

/-- A rule as it is given to `ovs-ofctl add-flow`; what is left out of the match is `none`. -/
structure FlowRule where
  entity : Name
  dlType : ℕ
  nwProto : Option ℕ
  nwSrc : Option (List UInt8)
  nwDst : Option (List UInt8)
  priority : Option ℕ
  action : Action
  deriving DecidableEq, Repr

namespace FlowRule

/-- The same match and priority, and the same action up to the order of the ports. -/
def Agree (r r' : FlowRule) : Prop := { r with action := r'.action } = r' ∧ r.action.Agree r'.action

def joinPorts (ports : List ℕ) : List UInt8 :=
  (chars ",").intercalate (ports.map fun port => chars (toString port))

/-- The line that adds the rule, without the newline. -/
def line (r : FlowRule) : List UInt8 :=
  let field (name : String) (value : Option (List UInt8)) : List UInt8 :=
    value.elim [] fun v => chars name ++ v ++ chars ","
  let decimal (n : ℕ) : List UInt8 := chars (toString n)
  chars "sudo ovs-ofctl add-flow " ++ r.entity ++ chars " 'dl_type=0x0"
    ++ chars (String.ofList (Nat.toDigits 16 r.dlType)) ++ chars ","
    ++ field "nw_proto=" (r.nwProto.map decimal) ++ field "nw_src=" r.nwSrc
    ++ field "nw_dst=" r.nwDst ++ field "priority=" (r.priority.map decimal)
    ++ match r.action with
      | .output ports => chars "action=output:" ++ joinPorts ports ++ chars "'"
      | .bundle slaves =>
        chars "action=bundle(symmetric_l4,50,hrw,ofport,slaves:" ++ joinPorts slaves ++ chars ")'"

end FlowRule

namespace GenerateRulesIntoTables

variable (t : GenerateRulesIntoTables)

/-- The ports of the next nodes: the first neighbour of each one's name has it. -/
def portsOf (neighbors : List NeighborNode) (nextNodes : List Name) : List ℕ :=
  nextNodes.flatMap fun nextNode =>
    ((neighbors.find? fun neighbor => nextNode == neighbor.neighName).map (·.ethid)).toList

/-- `ports[len(ports)-1]` is read when the ports are joined. -/
def joinable (ports : List ℕ) : Except PyError (List ℕ) :=
  if ports = [] then .error .indexError else .ok ports

/-- The port of `next_nodes[0]`, which is read once for each neighbour. -/
def portidOf (neighbors : List NeighborNode) (nextNodes : List Name) : Except PyError ℕ :=
  neighbors.foldlM (fun portid neighbor =>
    match nextNodes with
    | [] => .error .indexError
    | nextNode :: _ => .ok (if neighbor.neighName = nextNode then neighbor.ethid else portid)) 1

/-- The rules for packets to `host` at one entity of the path, as mininet_script/ writes them. -/
def normalRulesAt (installRuleType : ℕ) (host : Name) (entity : Name) (nextNodes : List Name) :
    Except PyError (List FlowRule) := do
  if isHost entity then
    return []
  else if installRuleType ≠ ONLY_SINGLE_PATH_RULE ∧ 1 < nextNodes.length then
    let neighbors ← t.graph.getItem entity
    let ports ← joinable (portsOf neighbors nextNodes)
    let ipPrefix ← t.hostIpprefixMap.getItem host
    return [⟨entity, 0x0800, none, none, some ipPrefix, some LOW_PRIORITY, .bundle ports⟩,
      ⟨entity, 0x0806, none, none, some ipPrefix, none, .bundle ports⟩]
  else if installRuleType ≠ ONLY_ECMP_PATH_RULE then
    let neighbors ← t.graph.getItem entity
    let portid ← portidOf neighbors nextNodes
    let ipPrefix ← t.hostIpprefixMap.getItem host
    return [⟨entity, 0x0800, none, none, some ipPrefix, some LOW_PRIORITY, .output [portid]⟩,
      ⟨entity, 0x0806, none, none, some ipPrefix, none, .output [portid]⟩]
  else
    return []

/-- The rules for every entity of a path. -/
def rulesAlong (rulesAt : Name → List Name → Except PyError (List FlowRule))
    (path : Dict Name (List Name)) : Except PyError (List FlowRule) := do
  return (← path.items.mapM fun e => rulesAt e.1 e.2).flatten

def generateRulesForNormalPackets (installRuleType : ℕ) : Except PyError (List FlowRule) := do
  let rules ← t.hosts.mapM fun host => do
    rulesAlong (t.normalRulesAt installRuleType host) (← t.getReversePreNodes host)
  return rules.flatten

/-- The rule for condition packets of `host` at one entity of the path. -/
def conditionRulesAt (host : Name) (entity : Name) (nextNodes : List Name) :
    Except PyError (List FlowRule) := do
  let rule (action : Action) : Except PyError (List FlowRule) := do
    let ipPrefix ← t.hostIpprefixMap.getItem host
    return [⟨entity, 0x0800, some 17, some ipPrefix, none, some HIGH_PRIORITY, action⟩]
  if isHost entity then
    return []
  else if 1 < nextNodes.length then
    let neighbors ← t.graph.getItem entity
    rule (.output (← joinable (portsOf neighbors nextNodes)))
  else
    let neighbors ← t.graph.getItem entity
    rule (.output [← portidOf neighbors nextNodes])

def generateRulesForConditionPackets : Except PyError (List FlowRule) := do
  let rules ← t.hosts.mapM fun host => do
    rulesAlong (t.conditionRulesAt host) (← t.getForwardNextNodes host)
  return rules.flatten

/-- The rules for packets to `entity2` at one entity of the path, as topology/ writes them. -/
def pairRulesAt (entity2 : Name) (entity : Name) (nextNodes : List Name) :
    Except PyError (List FlowRule) := do
  if isHost entity then
    return []
  else if 1 < nextNodes.length then
    let neighbors ← t.graph.getItem entity
    let ports ← joinable (portsOf neighbors nextNodes)
    let ipPrefix ← t.hostIpprefixMap.getItem entity2
    return [⟨entity, 0x0800, some 17, none, some ipPrefix, some HIGH_PRIORITY, .output ports⟩,
      ⟨entity, 0x0800, none, none, some ipPrefix, some LOW_PRIORITY, .bundle ports⟩,
      ⟨entity, 0x0806, none, none, some ipPrefix, none, .bundle ports⟩]
  else
    let neighbors ← t.graph.getItem entity
    let portid ← portidOf neighbors nextNodes
    let ipPrefix ← t.hostIpprefixMap.getItem entity2
    return [⟨entity, 0x0800, none, none, some ipPrefix, none, .output [portid]⟩,
      ⟨entity, 0x0806, none, none, some ipPrefix, none, .output [portid]⟩]

/-- topology/'s rules from `entity1` to `entity2`. -/
def pairRules (entity1 entity2 : Name) : Except PyError (List FlowRule) := do
  rulesAlong (t.pairRulesAt entity2) (← t.getShortestPathsFromSrcToDst entity1 entity2)

/-! ## Forwarding -/

/-- What `entity`'s ports lead to. -/
def behind (entity : Name) (ports : List ℕ) : List Name :=
  ports.flatMap fun port =>
    (((t.graph.lookup entity).getD []).filter (·.ethid == port)).map (·.neighName)

/-- The rules of a node for IP packets to the prefix. -/
def ipRules (rules : List FlowRule) (ipPrefix : List UInt8) (entity : Name) : List FlowRule :=
  rules.filter fun r => r.entity = entity ∧ r.dlType = 0x0800 ∧ r.nwDst = some ipPrefix

/-- From `entity` a packet to the prefix is at `dst` after `n` hops, whichever port each rule on its
way picks. -/
def Arrives (rules : List FlowRule) (ipPrefix : List UInt8) (dst : Name) : ℕ → Name → Prop
  | 0, entity => entity = dst
  | n + 1, entity => (∃ r ∈ ipRules rules ipPrefix entity, r.action.ports ≠ []) ∧
    ∀ r ∈ ipRules rules ipPrefix entity, ∀ port ∈ r.action.ports,
      ∃ next, t.behind entity [port] = [next] ∧ Arrives rules ipPrefix dst n next

/-- The rules of a node for the condition packets from the prefix. -/
def conditionRules (rules : List FlowRule) (ipPrefix : List UInt8) (entity : Name) :
    List FlowRule :=
  rules.filter fun r =>
    r.entity = entity ∧ r.dlType = 0x0800 ∧ r.nwProto = some 17 ∧ r.nwSrc = some ipPrefix

/-- Where `entity` sends a condition packet that it receives; no rule is for a host. -/
def forwards (rules : List FlowRule) (ipPrefix : List UInt8) (entity : Name) : List Name :=
  (conditionRules rules ipPrefix entity).flatMap fun r => t.behind entity r.action.ports

/-- The nodes that receive a condition packet of `src`, once for each time, within `n` hops: it
sends the packet on its link. -/
def receivers (rules : List FlowRule) (ipPrefix : List UInt8) (src : Name) (n : ℕ) : List Name :=
  (((t.graph.lookup src).getD []).map (·.neighName)).flatMap
    (Lib.flood (t.forwards rules ipPrefix) n)

end GenerateRulesIntoTables

end CMTestbed
