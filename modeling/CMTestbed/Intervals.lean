import CMTestbed.Warehouse
import CMTestbed.Lib.System

/-!
# Updates and intervals

The sending thread and the flow-info thread update the active buffer.  The rotating thread swaps
the buffers, reads the one that was active into its report, and clears it.
-/

namespace CMTestbed

/-- A call of one of the two updates; `rand` is the draw that sampling a loss makes. -/
inductive UpdateCall where
  | normal (pFlow : FlowSrc) (addedVolume : ℤ)
  | loss (pFlow : FlowSrc) (addedLossVolume : ℤ) (rand : ℚ)

namespace UpdateCall

def added : UpdateCall → ℤ
  | normal _ n | loss _ n _ => n

/-- What the call adds to the volume sent of `f`. -/
def sent (f : FlowSrc) : UpdateCall → ℤ
  | normal g n => if f = g then n else 0
  | loss _ _ _ => 0

/-- What the call reports lost of `f`. -/
def lost (f : FlowSrc) : UpdateCall → ℤ
  | normal _ _ => 0
  | loss g n _ => if f = g then n else 0

def exec (setting : CmExperimentSetting) (w : DataWarehouse) : UpdateCall → DataWarehouse
  | normal pFlow n => updateFlowNormalVolume setting w pFlow n
  | loss pFlow n rand => updateFlowLossVolume setting w pFlow n rand

end UpdateCall

/-- Where the rotating thread is. -/
inductive RotatePhase where
  | waiting
  | reporting
  deriving DecidableEq, Repr

/-- The maps that the report iterates over. -/
inductive ReportMap where
  | flowSelectedLevel
  | flowVolume
  | flowLossRate
  deriving DecidableEq, Repr

/-- One step of an iteration over a map of the buffer. -/
def Buffer.visit (b : Buffer) : ReportMap → Buffer
  | .flowSelectedLevel =>
    { b with flowSelectedLevelMap := (htKfsViNext b.flowSelectedLevelMap).1 }
  | .flowVolume => { b with flowVolumeMap := (htKfsViNext b.flowVolumeMap).1 }
  | .flowLossRate => { b with flowLossRateMap := b.flowLossRateMap.next.1 }

structure Intervals where
  warehouse : DataWarehouse
  phase : RotatePhase
  /-- The buffers rotated out so far, the last one first. -/
  snapshots : List Buffer
  /-- All that was given to `update_flow_normal_volume`. -/
  sent : FlowSrc → ℤ

namespace Intervals

inductive Event where
  | update (c : UpdateCall)
  | rotate
  | visit (m : ReportMap)
  | reset

def init (setting : CmExperimentSetting) (tasks : List Task) : Intervals where
  warehouse := dataWarehouseInit setting tasks
  phase := .waiting
  snapshots := []
  sent := fun _ => 0

/-- A packet's length is not negative, and its flow's total in the interval fits in an `int`. -/
def Fits (s : Intervals) : UpdateCall → Prop
  | .normal pFlow n => 0 ≤ n ∧ s.warehouse.active.volume pFlow + n < 2 ^ 31
  | .loss _ _ _ => True

instance (s : Intervals) : DecidablePred s.Fits
  | .normal _ _ => inferInstanceAs (Decidable (_ ∧ _))
  | .loss _ _ _ => inferInstanceAs (Decidable True)

def step (setting : CmExperimentSetting) (s : Intervals) : Event → Option Intervals
  | .update c =>
    if s.Fits c then
      some { s with
        warehouse := c.exec setting s.warehouse, sent := fun f => s.sent f + c.sent f }
    else none
  | .rotate =>
    if s.phase = .waiting then
      some { s with
        warehouse := dataWareRotateBuffer s.warehouse
        phase := .reporting
        snapshots := s.warehouse.active :: s.snapshots }
    else none
  | .visit m =>
    if s.phase = .reporting then
      some { s with warehouse := s.warehouse.modifyUnactive fun b => b.visit m }
    else none
  | .reset =>
    if s.phase = .reporting then
      some { s with
        warehouse := dataWarehouseResetNoactiveBuf setting s.warehouse, phase := .waiting }
    else none

def system (setting : CmExperimentSetting) : Lib.System Intervals Event := ⟨step setting⟩

end Intervals

end CMTestbed
