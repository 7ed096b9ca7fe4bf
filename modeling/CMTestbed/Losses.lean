import CMTestbed.Warehouse
import CMTestbed.Delivery
import Mathlib.Algebra.BigOperators.Group.Finset.Basic
import Mathlib.Data.FinEnum
import Mathlib.Data.Fintype.Prod

/-!
# Losses across intervals

A packet handled is recorded in the ledger and counted in its flow's volume.  A report handled takes
packets off the ledger and counts those found lost.  The ledger lives on when the buffers are
rotated, so a report can find packets lost that were counted in an earlier interval.
-/

namespace CMTestbed

/-- The loop body of `flow_infor_update`, for the report of `receSeqid`. -/
def flowInforUpdate (setting : CmExperimentSetting) (w : DataWarehouse) (flow : FlowS)
    (receSeqid : UInt32) (rand : ℚ) : DataWarehouse :=
  let (flowRecePktListMap, receVLostV) :=
    htVlGetReceLostVolume w.flowRecePktListMap flow receSeqid
  let w := { w with flowRecePktListMap := flowRecePktListMap }
  if 0 < receVLostV.lostVolume then
    updateFlowLossVolume setting w flow.src (toInt receVLostV.lostVolume) rand
  else w

/-- `ht_vl_set`, and then `update_flow_normal_volume` with the same length. -/
def recordAndUpdate (setting : CmExperimentSetting) (w : DataWarehouse) (flow : FlowS)
    (seqid len : UInt32) : DataWarehouse :=
  let w := { w with flowRecePktListMap := htVlSet w.flowRecePktListMap flow seqid len }
  updateFlowNormalVolume setting w flow.src len.toNat

/-- The 5-tuple of `f` with these ports. -/
def FlowSrc.withPorts (f : FlowSrc) (ports : UInt16 × UInt16) : FlowS :=
  ⟨f.srcip, f.dstip, ports.1, ports.2, 0⟩

/-- The volume of a flow's packets that the ledger still holds. -/
def HtVl.heldVolume (hashtable : HtVl) (f : FlowSrc) : ℕ :=
  ∑ ports : UInt16 × UInt16, totalVolume (hashtable.queue (f.withPorts ports))

structure Losses where
  warehouse : DataWarehouse
  /-- The ledger as it was when the interval began. -/
  carried : HtVl
  /-- The volume of all packets handled. -/
  sent : FlowSrc → ℕ

namespace Losses

inductive Event where
  | packet (flow : FlowS) (seqid len : UInt32)
  | report (flow : FlowS) (receSeqid : UInt32) (rand : ℚ)
  | rotate

def init (setting : CmExperimentSetting) (tasks : List Task) : Losses where
  warehouse := dataWarehouseInit setting tasks
  carried := htVlCreate
  sent := fun _ => 0

/-- A packet is handled if its flow's total stays below 2^31. -/
def step (setting : CmExperimentSetting) (s : Losses) : Event → Option Losses
  | .packet flow seqid len =>
    if s.sent flow.src + len.toNat < 2 ^ 31 then
      some { s with
        warehouse := recordAndUpdate setting s.warehouse flow seqid len
        sent := fun f => s.sent f + if f = flow.src then len.toNat else 0 }
    else none
  | .report flow receSeqid rand =>
    some { s with warehouse := flowInforUpdate setting s.warehouse flow receSeqid rand }
  | .rotate =>
    some { s with
      warehouse := dataWarehouseResetNoactiveBuf setting (dataWareRotateBuffer s.warehouse)
      carried := s.warehouse.flowRecePktListMap }

def system (setting : CmExperimentSetting) : Lib.System Losses Event := ⟨step setting⟩

end Losses

end CMTestbed
