import CMTestbed.Topology
import Mathlib.Data.List.ProdSigma

/-!
# The monitors of the tasks

generate_monitor_tasks.py gives each pair of hosts a task.  For the first query the monitors are the
nodes between the two, if there is a single path; for the third they are the next nodes where the
paths first part.  Pairs are left out once a node has been a monitor too often.
-/

namespace CMTestbed

namespace GenerateRulesIntoTables

variable (t : GenerateRulesIntoTables)

/-! ## The nodes between two hosts -/

/-- The loop from `cur_node` on. -/
def walkSinglePath (nextHopsMap : Dict Name (List Name)) (dst : Name) :
    ℕ → Name → List Name → Except PyError (Bool × List Name)
  | 0, _, _ => .error .endless
  | fuel + 1, curNode, singlePathNodes => do
    match ← nextHopsMap.getItem curNode with
    | [] => .error .indexError
    | [nextNode] =>
      if nextNode = dst then return (true, singlePathNodes)
      else walkSinglePath nextHopsMap dst fuel nextNode (singlePathNodes ++ [nextNode])
    | _ => return (false, [])

def getSinglePathBetweenNodes (src dst : Name) : Except PyError (Bool × List Name) := do
  let nextHopsMap ← t.getReversePreNodes dst
  walkSinglePath nextHopsMap dst t.turns src []

/-- The loop over `node_queue`. -/
def walkEcmpPaths (nextHopsMap : Dict Name (List Name)) (dst : Name) :
    ℕ → List Name → Except PyError (Bool × List Name)
  | _, [] => .ok (false, [])
  | 0, _ => .error .endless
  | fuel + 1, curNode :: nodeQueue => do
    match ← nextHopsMap.getItem curNode with
    | [] => .error .indexError
    | [nextNode] =>
      walkEcmpPaths nextHopsMap dst fuel
        (if nextNode ≠ dst then nodeQueue ++ [nextNode] else nodeQueue)
    | nextHops => return (true, nextHops)

def getEcmpPathsBetweenNodes (src dst : Name) : Except PyError (Bool × List Name) := do
  let nextHopsMap ← t.getReversePreNodes dst
  walkEcmpPaths nextHopsMap dst t.turns [src]

/-! ## The task files -/

/-- A task, with its monitors by name. -/
structure MonitorTask where
  taskid : ℕ
  src : Name
  dst : Name
  monitors : List Name
  deriving DecidableEq, Repr

/-- `"{0} {1} {2} {3}\n"`, the first letter of each name left out. -/
def MonitorTask.line (task : MonitorTask) : List UInt8 :=
  chars (toString task.taskid) ++ [32] ++ task.src.drop 1 ++ [32] ++ task.dst.drop 1 ++ [32]
    ++ [32].intercalate (task.monitors.map (·.drop 1)) ++ [10]

structure Generating where
  nodeAppearTimes : Dict Name ℕ
  numTasks : ℕ
  tasks : List MonitorTask

def Generating.init : Generating := ⟨∅, 0, []⟩

def Generating.write (s : Generating) (times : Dict Name ℕ) (src dst : Name)
    (monitors : List Name) : Generating where
  nodeAppearTimes := times
  numTasks := s.numTasks + 1
  tasks := s.tasks ++ [⟨s.numTasks + 1, src, dst, monitors⟩]

/-- `d[node] = 0` for a node that is not counted yet. -/
def enter (times : Dict Name ℕ) (node : Name) : Dict Name ℕ :=
  if node ∈ times then times else times.insert node 0

/-- `d[node] += 1`. -/
def countNode (times : Dict Name ℕ) (node : Name) : Except PyError (Dict Name ℕ) := do
  let n ← times.getItem node
  return times.insert node (n + 1)

/-- `max_node_appear_times` of the first query. -/
def maxTimesQuery1 : ℕ := 12

/-- `max_node_appear_times` of the third query. -/
def maxTimesQuery3 : ℕ := 14

/-- The first query's test: whether a node has been a monitor too often; it ends there. -/
def anyExceeds : List Name → Dict Name ℕ → Except PyError (Dict Name ℕ × Bool)
  | [], times => .ok (times, false)
  | node :: nodes, times => do
    let times := enter times node
    let n ← times.getItem node
    if n > maxTimesQuery1 then return (times, true) else anyExceeds nodes times

def query1Pair (s : Generating) (pair : Name × Name) : Except PyError Generating := do
  let (src, dst) := pair
  if src = dst then return s
  else
    let (singlePathExist, singlePathNodes) ← t.getSinglePathBetweenNodes src dst
    if !singlePathExist then return s
    else
      let (times, exceeds) ← anyExceeds singlePathNodes s.nodeAppearTimes
      if exceeds then return { s with nodeAppearTimes := times }
      else
        let times ← singlePathNodes.foldlM countNode times
        return s.write times src dst singlePathNodes

/-- The tasks of the file query1_task_info.txt. -/
def generateTasksForQuery1 : Except PyError (List MonitorTask) := do
  let s ← (t.hosts ×ˢ t.hosts).foldlM t.query1Pair Generating.init
  return s.tasks

def ecmpNodeSet : List Name := ["s4", "s6", "s10", "s11"].map chars

/-- The third query counts each of the nodes, and then tests whether it has been one too often. -/
def countAndTest (r : Dict Name ℕ × Bool) (node : Name) : Except PyError (Dict Name ℕ × Bool) := do
  let times ← countNode (enter r.1 node) node
  let n ← times.getItem node
  return (times, r.2 || decide (n > maxTimesQuery3))

def query3Pair (s : Generating) (pair : Name × Name) : Except PyError Generating := do
  let (src, dst) := pair
  if src = dst then return s
  else
    let (multipathExist, disjointNodes) ← t.getEcmpPathsBetweenNodes src dst
    if disjointNodes.length > 2 then return s
    else if !multipathExist then return s
    else if ∃ node ∈ disjointNodes, node ∉ ecmpNodeSet then return s
    else
      let (times, exceeds) ← disjointNodes.foldlM countAndTest (s.nodeAppearTimes, false)
      if exceeds then return { s with nodeAppearTimes := times }
      else return s.write times src dst disjointNodes

/-- The tasks of the file query3_task_info.txt. -/
def generateTasksForQuery3 : Except PyError (List MonitorTask) := do
  let s ← (t.hosts ×ˢ t.hosts).foldlM t.query3Pair Generating.init
  return s.tasks

end GenerateRulesIntoTables

end CMTestbed
