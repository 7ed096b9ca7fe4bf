import CMTestbed.Tables
import CMTestbed.Text
import CMTestbed.VlanTag

/-!
# Reading a task

A task is one line of numbers: its id, the sender's and the receiver's host, and the switches that
monitor it.  The line is split at its blanks, and a token that is not a number reads as 0.
-/

namespace CMTestbed

/-- The fields of a `task_t` that `read_one_task_from_one_line` sets. -/
structure TaskS where
  taskid : ℤ
  senderHost : ℤ
  receiverHost : ℤ
  monitorSwitchIds : List ℤ
  deriving DecidableEq, Repr

/-- The length of the array `monitor_switch_ids`. -/
def maxMonitors : ℕ := 12

inductive ReadTask where
  /-- The assertion in `str_split` fails. -/
  | aborted
  /-- A switch is stored past the end of the array. -/
  | overrun
  /-- The return value -1. -/
  | failed
  | task (t : TaskS)
  deriving DecidableEq, Repr

/-- A `long` that is stored in an `int`. -/
def intOfLong (value : ℤ) : ℤ := toInt (toUInt value)

def readOneTaskFromOneLine (lineBuffer : List UInt8) : ReadTask :=
  match strSplit lineBuffer 32 with
  | none => .aborted
  | some tokens =>
    let numbers := tokens.map fun token => intOfLong (strtol token)
    let monitors := numbers.drop 3
    if maxMonitors < monitors.length then .overrun
    else if monitors.length = 0 then .failed
    else .task {
      taskid := numbers.getD 0 0
      senderHost := numbers.getD 1 0
      receiverHost := numbers.getD 2 0
      monitorSwitchIds := monitors }

/-- The line is read to its end, and there is a switch in it. -/
def Accepted (lineBuffer : List UInt8) : Prop :=
  readOneTaskFromOneLine lineBuffer ≠ .aborted ∧ readOneTaskFromOneLine lineBuffer ≠ .failed

instance : DecidablePred Accepted := fun _ => inferInstanceAs (Decidable (_ ∧ _))

example : readOneTaskFromOneLine (chars "1 1 7 4 6\n") = .task ⟨1, 1, 7, [4, 6]⟩ := by
  decide +kernel

/-! ## Tagging the packets of a task -/

/-- The three calls that tag a packet. -/
inductive Tagging where
  | forSwitches
  | asSampled
  | withLevel
  deriving DecidableEq, Repr

namespace Tagging

variable (t : TaskS) (selectedLevel datalink : ℤ)

def apply (packetBuf : Frame) : Tagging → Option Frame
  | forSwitches => tagPacketForSwitches packetBuf datalink t.monitorSwitchIds
  | asSampled => tagPacketAsSampled packetBuf datalink
  | withLevel => tagSelectedFlowLevelInNormalPacket packetBuf datalink selectedLevel

def applyAll (packetBuf : Frame) (calls : List Tagging) : Option Frame :=
  calls.foldlM (apply t selectedLevel datalink) packetBuf

/-- The calls that a packet of a task needs. -/
def needed (sampled : Bool) : List Tagging :=
  forSwitches :: withLevel :: if sampled then [asSampled] else []

end Tagging

end CMTestbed
