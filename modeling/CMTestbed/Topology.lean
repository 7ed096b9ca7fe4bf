import CMTestbed.Lib.Worklist
import CMTestbed.Python
import CMTestbed.Text

/-!
# The rule generators

`GenerateRulesIntoTables` of mininet_script/ and topology/: a topology file becomes a graph, a
breadth-first search over it says which neighbours come next towards a host, and the forwarding
rules are written from that.
-/

namespace CMTestbed

open Lib (worklist)

abbrev Name := List UInt8

instance : LawfulBEq Name := inferInstance

/-- `re.match("^h(\d+)", name) != None`. -/
def isHost : Name → Bool
  | 104 :: c :: _ => isdigit c
  | _ => false

structure NeighborNode where
  ethid : ℕ
  neighName : Name
  neighEthid : ℕ
  deriving DecidableEq, Repr

structure GenerateRulesIntoTables where
  hosts : List Name
  switches : List Name
  switchEthNameIdMap : Dict Name ℕ
  graph : Dict Name (List NeighborNode)
  hostIpprefixMap : Dict Name (List UInt8)

namespace GenerateRulesIntoTables

def HIGH_PRIORITY : ℕ := 32769
def LOW_PRIORITY : ℕ := 32768

def ONLY_SINGLE_PATH_RULE : ℕ := 1
def ONLY_ECMP_PATH_RULE : ℕ := 2
def BOTH_SINGLE_AND_ECMP_PATH_RULE : ℕ := 3

/-! ## Reading the topology -/

/-- `"{0}-eth{1}".format(entity, ethid)`. -/
def ethStr (entity : Name) (ethid : ℕ) : Name := entity ++ chars "-eth" ++ chars (toString ethid)

/-- The port of the interface, 0 at a host. -/
def ethPortid (ids : Dict Name ℕ) (entity : Name) (ethid : ℕ) : Except PyError ℕ :=
  if isHost entity then .ok 0 else ids.getItem (ethStr entity ethid)

/-- The next interface of the entity, with the numbers given out so far. -/
def nextEthid (ethNum : Dict Name ℕ) (entity : Name) : ℕ × Dict Name ℕ :=
  let ethid := match ethNum.lookup entity with
    | some n => n + 1
    | none => 1
  (ethid, ethNum.insert entity ethid)

def addNeighbor (graph : Dict Name (List NeighborNode)) (entity : Name) (neigh : NeighborNode) :
    Dict Name (List NeighborNode) :=
  graph.insert entity ((graph.lookup entity).getD [] ++ [neigh])

/-- One line of a connection. -/
def connect (ids : Dict Name ℕ) (s : Dict Name ℕ × Dict Name (List NeighborNode))
    (link : Name × Name) : Except PyError (Dict Name ℕ × Dict Name (List NeighborNode)) := do
  let (entity1, entity2) := link
  let (entity1Ethid, ethNum) := nextEthid s.1 entity1
  let (entity2Ethid, ethNum) := nextEthid ethNum entity2
  let eth1Portid ← ethPortid ids entity1 entity1Ethid
  let eth2Portid ← ethPortid ids entity2 entity2Ethid
  let graph := addNeighbor s.2 entity1 ⟨eth1Portid, entity2, eth2Portid⟩
  return (ethNum, addNeighbor graph entity2 ⟨eth2Portid, entity1, eth1Portid⟩)

/-- `line[0] == '#'`. -/
def isComment : List UInt8 → Except PyError Bool
  | [] => .error .indexError
  | c :: _ => .ok (c == 35)

/-- The lines from the first one on that is no comment. -/
def skipComments : List (List UInt8) → Except PyError (List (List UInt8))
  | [] => .ok []
  | line :: lines => do
    if ← isComment line then skipComments lines else return line :: lines

/-- The line at the index, and those after it. -/
def nextLine : List (List UInt8) → Except PyError (List UInt8 × List (List UInt8))
  | [] => .error .indexError
  | line :: lines => .ok (line, lines)

/-- The prefix lines up to the next comment, and the lines from there on. -/
def readPrefixes : Dict Name (List UInt8) → List (List UInt8) →
    Except PyError (Dict Name (List UInt8) × List (List UInt8))
  | prefixes, [] => .ok (prefixes, [])
  | prefixes, line :: lines => do
    if ← isComment line then
      return (prefixes, line :: lines)
    else
      match line.splitOn 32 with
      | host :: ipPrefix :: _ => readPrefixes (prefixes.insert host ipPrefix) lines
      | _ => .error .indexError

/-- The connections on the remaining lines. -/
def readLinks : List (List UInt8) → Except PyError (List (Name × Name))
  | [] => .ok []
  | line :: lines => do
    if ← isComment line then
      readLinks lines
    else
      match line.splitOn 32 with
      | [entity1, entity2] => return (entity1, entity2) :: (← readLinks lines)
      | _ => .error .assertionError

/-- `read_topo` on the lines of the file, without their newlines. -/
def readTopo (ids : Dict Name ℕ) (lines : List (List UInt8)) :
    Except PyError GenerateRulesIntoTables := do
  let (hosts, lines) ← nextLine (← skipComments lines)
  let (switches, lines) ← nextLine (← skipComments lines)
  let (prefixes, lines) ← readPrefixes ∅ (← skipComments lines)
  let links ← readLinks lines
  let (_, graph) ← links.foldlM (connect ids) (∅, ∅)
  return ⟨hosts.splitOn 32, switches.splitOn 32, ids, graph, prefixes⟩

/-! ## Searching it -/

variable (t : GenerateRulesIntoTables)

structure Search where
  visitedNameIdMap : Dict Name ℕ
  expandNameList : List Name

/-- The neighbours that are not visited are; the script of topology/ stops at `dst`. -/
def visit (dst : Option Name) (nowId : ℕ) : List NeighborNode → Search → Search × Bool
  | [], s => (s, false)
  | neigh :: neighbors, s =>
    if neigh.neighName ∈ s.visitedNameIdMap then
      visit dst nowId neighbors s
    else
      let s' : Search := {
        visitedNameIdMap := s.visitedNameIdMap.insert neigh.neighName (nowId + 1)
        expandNameList := s.expandNameList ++ [neigh.neighName] }
      if some neigh.neighName = dst then (s', true) else visit dst nowId neighbors s'

def expandNow (dst : Option Name) (now : Name) (s : Search) : Except PyError (Search × Bool) := do
  let nowId ← s.visitedNameIdMap.getItem now
  let neighbors ← t.graph.getItem now
  return visit dst nowId neighbors s

/-- A turn is for a key of the graph, so one turn more than it has keys is never reached. -/
def turns : ℕ := t.graph.keys.length + 1

/-- The first loop of the three functions below: the distance of the visited nodes from `root`. -/
def visitedFrom (root : Name) (dst : Option Name) : Except PyError (Dict Name ℕ) := do
  let s ← worklist .endless Search.expandNameList (t.expandNow dst) t.turns 0
    ⟨AList.insert root 0 ∅, [root]⟩
  return s.visitedNameIdMap

structure PreWalk where
  path : Dict Name (List Name)
  expandNameList : List Name

/-- The link `neigh_name => now_name` of a path. -/
def addPreNode (now : Name) (neighName : Name) (s : PreWalk) : PreWalk where
  path := s.path.insert neighName ((s.path.lookup neighName).getD [] ++ [now])
  expandNameList :=
    if neighName ∈ s.expandNameList then s.expandNameList else s.expandNameList ++ [neighName]

/-- The turn of the second loop that collects predecessors, for the script's own test of a link. -/
def collectNow (isLink : ℕ → Name → Except PyError Bool) (ids : Dict Name ℕ) (now : Name)
    (s : PreWalk) : Except PyError (PreWalk × Bool) := do
  let nowId ← ids.getItem now
  let neighbors ← t.graph.getItem now
  let s ← neighbors.foldlM (fun s neigh => do
    return if ← isLink nowId neigh.neighName then addPreNode now neigh.neighName s else s) s
  return (s, false)

def collectFrom (isLink : ℕ → Name → Except PyError Bool) (ids : Dict Name ℕ) (root : Name) :
    Except PyError (Dict Name (List Name)) := do
  let s ← worklist .endless PreWalk.expandNameList (t.collectNow isLink ids) t.turns 0 ⟨∅, [root]⟩
  return s.path

/-- mininet_script/'s test, away from the root of the search. -/
def isFarther (ids : Dict Name ℕ) (nowId : ℕ) (neighName : Name) : Except PyError Bool := do
  return (← ids.getItem neighName) == nowId + 1

/-- topology/'s test, back to the root of the search, over what is visited. -/
def isNearer (ids : Dict Name ℕ) (nowId : ℕ) (neighName : Name) : Except PyError Bool :=
  match ids.lookup neighName with
  | none => .ok false
  | some neighId => .ok (neighId + 1 == nowId)

/-- Every predecessor of every node on the way to `dst`. -/
def getReversePreNodes (dst : Name) : Except PyError (Dict Name (List Name)) := do
  let ids ← t.visitedFrom dst none
  t.collectFrom (isFarther ids) ids dst

/-- topology/'s search from `src` that ends at `dst`, and the walk back. -/
def getShortestPathsFromSrcToDst (src dst : Name) : Except PyError (Dict Name (List Name)) := do
  let ids ← t.visitedFrom src (some dst)
  t.collectFrom (isNearer ids) ids dst

structure ForwardWalk where
  path : Dict Name (List Name)
  nodeIncluded : Dict Name ℕ
  expandNameList : List Name

/-- The link `now_name => neigh_name`, unless the node is in another one's next list. -/
def addNextNode (now : Name) (neighName : Name) (s : ForwardWalk) :
    Except PyError ForwardWalk := do
  let s ← if neighName ∈ s.nodeIncluded then pure s else do
    let next ← s.path.getItem now
    pure { s with
      path := s.path.insert now (next ++ [neighName])
      nodeIncluded := s.nodeIncluded.insert neighName 1 }
  return { s with
    expandNameList :=
      if neighName ∈ s.expandNameList then s.expandNameList else s.expandNameList ++ [neighName] }

def forwardNow (ids : Dict Name ℕ) (now : Name) (s : ForwardWalk) :
    Except PyError (ForwardWalk × Bool) := do
  let nowId ← ids.getItem now
  let s := { s with path := s.path.insert now [] }
  let neighbors ← t.graph.getItem now
  let s ← neighbors.foldlM (fun s neigh => do
    let neighId ← ids.getItem neigh.neighName
    if neighId = nowId + 1 then addNextNode now neigh.neighName s else return s) s
  return (s, false)

/-- A tree from `src`: a node with several parents is in the next list of the first. -/
def getForwardNextNodes (src : Name) : Except PyError (Dict Name (List Name)) := do
  let ids ← t.visitedFrom src none
  let s ← worklist .endless ForwardWalk.expandNameList (t.forwardNow ids) t.turns 0 ⟨∅, ∅, [src]⟩
  return s.path

end GenerateRulesIntoTables

end CMTestbed
