import CMTestbed.Mapping
import CMTestbed.Monitors
import CMTestbed.Printf
import CMTestbed.TaskFiles
import CMTestbed.VlanTag

/-!
# The tasks of a sender

A host is `h` and its number, a switch `s` and its number.  A sender reads the tasks of its own
number from the file of the generator, and gives each the address ranges of its two hosts.  It sends
a packet out with the tags of its task.
-/

namespace CMTestbed

open GenerateRulesIntoTables (MonitorTask)

def hostName (n : ℕ) : Name := 104 :: formatNat n

def switchName (n : ℕ) : Name := 115 :: formatNat n

/-- The number in a name. -/
def numberOf (name : Name) : ℕ := digits (name.drop 1)

/-- What the generator of the tasks writes. -/
def taskFile (tasks : List MonitorTask) : List UInt8 := tasks.flatMap MonitorTask.line

/-- The task that is stored for a line of the generator. -/
def GenerateRulesIntoTables.MonitorTask.stored (task : MonitorTask) : TaskS where
  taskid := task.taskid
  senderHost := numberOf task.src
  receiverHost := numberOf task.dst
  monitorSwitchIds := task.monitors.map fun node => (numberOf node : ℤ)

/-- `init_task_srcip_dstip_prefixes` for one task; the ranges are computed as `int`s, which do not
overflow for hosts below 118. -/
def TaskS.withPrefixes (task : TaskS) : Task where
  monitorSwitchIds := task.monitorSwitchIds
  srcipPrefix := ithSenderStartIp (toUInt (task.senderHost - 1))
  dstipPrefix := ithSenderStartIp (toUInt (task.receiverHost - 1))

/-- `init_tasks_info`, with the name that `get_mininet_host_name` finds. -/
def initTasksInfo (content : List UInt8) (hostname : Name) : Except ReadTask (List Task) := do
  let hostid := intOfLong (strtol (hostname.drop 1))
  let tasks ← readTasksFromFile content hostid
  return tasks.map TaskS.withPrefixes

/-- The calls that tag a packet, in the order of `cm_handle_ipv4_packet`; a packet without a task is
left alone. -/
def PacketTags.apply (tags : PacketTags) (packetBuf : Frame) (datalink : ℤ) : Option Frame :=
  if tags.monitorSwitchIds = [] then some packetBuf
  else do
    let packetBuf ← tagPacketForSwitches packetBuf datalink tags.monitorSwitchIds
    let packetBuf ← if tags.sampled then tagPacketAsSampled packetBuf datalink else some packetBuf
    match tags.selectedLevel with
    | some level => tagSelectedFlowLevelInNormalPacket packetBuf datalink level
    | .none => some packetBuf

/-- The packet as `send_packets` sends it. -/
def sentPacket (setting : CmExperimentSetting) (w : DataWarehouse) (packetBuf : Frame)
    (totalPktLen : UInt32) (datalink : ℤ) (rand : ℚ) : Option Frame :=
  (cmHandleIpv4Packet setting w packetBuf totalPktLen datalink rand).2.apply packetBuf datalink

end CMTestbed
