import CMTestbed.Warehouse
import CMTestbed.Lib.System

/-!
# Telling the switches

`send_condition_to_network` goes round by round.  A round sends the flows whose level differs from
the one last sent, then those last sent that have none any more, and then copies the levels into
`last_sent_flow_selected_level_map`.  Each `ht_kfs_vi_next`, `ht_kfs_vi_get` and `ht_kfs_vi_set` of
it, and each packet sent, is an atomic step.

A round and a rotation exclude each other by `data_warehouse_mutex`.  The updates of the levels do
not take it and come between any two steps.
-/

namespace CMTestbed

/-- A condition packet. -/
structure Condition where
  flow : FlowSrc
  selectedLevel : ℤ
  deriving DecidableEq, Repr

/-- What a switch does on a condition packet; -1 is no level, as in `ht_kfs_vi_get`. -/
def install (levels : FlowSrc → ℤ) (condition : Condition) : FlowSrc → ℤ :=
  Function.update levels condition.flow
    (if noSelectedLevel < condition.selectedLevel then condition.selectedLevel else -1)

/-- The levels of a switch that got these packets. -/
def switchLevels (conditions : List Condition) : FlowSrc → ℤ :=
  conditions.foldl install fun _ => -1

/-- Where the condition sender is: before which of its calls, with what its locals hold.
`rotated` is between the two halves of a rotation. -/
inductive ConditionPhase where
  | waiting
  | rotated
  | plusNext
  | plusGet (key : FlowSrc) (selectedLevel : ℤ)
  | plusSend (key : FlowSrc) (selectedLevel : ℤ)
  | minusNext
  | minusGet (key : FlowSrc)
  | minusSend (key : FlowSrc)
  | recreate
  | copyNext
  | copySet (key : FlowSrc) (value : UInt32)
  deriving DecidableEq, Repr

structure Conditions where
  warehouse : DataWarehouse
  phase : ConditionPhase
  /-- The condition packets of the interval, in their order. -/
  sent : List Condition

namespace Conditions

def init (setting : CmExperimentSetting) (tasks : List Task) : Conditions where
  warehouse := dataWarehouseInit setting tasks
  phase := .waiting
  sent := []

variable (s : Conditions)

def levelMap : HtKfsVi := s.warehouse.active.flowSelectedLevelMap

def lastSentMap : HtKfsVi := s.warehouse.lastSentFlowSelectedLevelMap

def setLevelMap (levelMap : HtKfsVi) : Conditions :=
  { s with warehouse :=
      s.warehouse.modifyActive fun b => { b with flowSelectedLevelMap := levelMap } }

def setLastSentMap (lastSentMap : HtKfsVi) : Conditions :=
  { s with warehouse := { s.warehouse with lastSentFlowSelectedLevelMap := lastSentMap } }

/-- Sends a packet and counts it. -/
def send (key : FlowSrc) (selectedLevel : ℤ) : Conditions where
  warehouse :=
    s.warehouse.modifyActive fun b => { b with conditionPktNumSent := b.conditionPktNumSent + 1 }
  phase := s.phase
  sent := s.sent ++ [⟨key, selectedLevel⟩]

def goto (phase : ConditionPhase) : Conditions := { s with phase := phase }

/-- The sender's next step. -/
def advance : Conditions :=
  match s.phase with
  | .waiting => s.goto .plusNext
  | .plusNext =>
    let (levelMap, retEntry) := htKfsViNext s.levelMap
    match retEntry with
    | some (key, value) => (s.setLevelMap levelMap).goto (.plusGet key (toInt value))
    | none => (s.setLevelMap levelMap).goto .minusNext
  | .plusGet key selectedLevel =>
    let preSelectedLevel := htKfsViGet s.lastSentMap key
    if preSelectedLevel = selectedLevel then s.goto .plusNext
    else s.goto (.plusSend key selectedLevel)
  | .plusSend key selectedLevel => (s.send key selectedLevel).goto .plusNext
  | .minusNext =>
    let (lastSentMap, retEntry) := htKfsViNext s.lastSentMap
    match retEntry with
    | some (key, _) => (s.setLastSentMap lastSentMap).goto (.minusGet key)
    | none => (s.setLastSentMap lastSentMap).goto .recreate
  | .minusGet key =>
    if 0 < htKfsViGet s.levelMap key then s.goto .minusNext else s.goto (.minusSend key)
  | .minusSend key => (s.send key noSelectedLevel).goto .minusNext
  | .recreate => (s.setLastSentMap htKfsViCreate).goto .copyNext
  | .copyNext =>
    let (levelMap, retEntry) := htKfsViNext s.levelMap
    match retEntry with
    | some (key, value) => (s.setLevelMap levelMap).goto (.copySet key value)
    | none => (s.setLevelMap levelMap).goto .waiting
  | .copySet key value =>
    (s.setLastSentMap (htKfsViSet s.lastSentMap key value)).goto .copyNext
  | .rotated => s

inductive Event where
  | advance
  | update (pFlow : FlowSrc) (volume lossVolume : ℤ) (lossRate : ℚ)
  | rotate
  | reset

def step (setting : CmExperimentSetting) (s : Conditions) : Event → Option Conditions
  | .advance => if s.phase = .rotated then none else some s.advance
  | .update pFlow volume lossVolume lossRate =>
    some (s.setLevelMap
      (updateFlowSelectedLevelMap setting s.levelMap pFlow volume lossVolume lossRate))
  | .rotate =>
    if s.phase = .waiting then
      some { warehouse := dataWareRotateBuffer s.warehouse, phase := .rotated, sent := [] }
    else none
  | .reset =>
    if s.phase = .rotated then
      some { s with
        warehouse := dataWarehouseResetNoactiveBuf setting s.warehouse, phase := .waiting }
    else none

def system (setting : CmExperimentSetting) : Lib.System Conditions Event := ⟨step setting⟩

/-! ## What the steps read and write -/

section Fields
variable (m : HtKfsVi) (p : ConditionPhase) (key : FlowSrc) (n : ℤ)

@[simp] theorem levelMap_setLevelMap : (s.setLevelMap m).levelMap = m := by
  simp [levelMap, setLevelMap]

@[simp] theorem lastSentMap_setLevelMap : (s.setLevelMap m).lastSentMap = s.lastSentMap := rfl

@[simp] theorem phase_setLevelMap : (s.setLevelMap m).phase = s.phase := rfl

@[simp] theorem sent_setLevelMap : (s.setLevelMap m).sent = s.sent := rfl

@[simp] theorem unactive_setLevelMap :
    (s.setLevelMap m).warehouse.unactive = s.warehouse.unactive :=
  DataWarehouse.unactive_modifyActive _ _

@[simp] theorem levelMap_setLastSentMap : (s.setLastSentMap m).levelMap = s.levelMap := rfl

@[simp] theorem lastSentMap_setLastSentMap : (s.setLastSentMap m).lastSentMap = m := rfl

@[simp] theorem sent_setLastSentMap : (s.setLastSentMap m).sent = s.sent := rfl

@[simp] theorem unactive_setLastSentMap :
    (s.setLastSentMap m).warehouse.unactive = s.warehouse.unactive := rfl

@[simp] theorem levelMap_send : (s.send key n).levelMap = s.levelMap := by
  simp [levelMap, send]

@[simp] theorem lastSentMap_send : (s.send key n).lastSentMap = s.lastSentMap := rfl

@[simp] theorem sent_send : (s.send key n).sent = s.sent ++ [⟨key, n⟩] := rfl

@[simp] theorem unactive_send : (s.send key n).warehouse.unactive = s.warehouse.unactive :=
  DataWarehouse.unactive_modifyActive _ _

@[simp] theorem levelMap_goto : (s.goto p).levelMap = s.levelMap := rfl

@[simp] theorem lastSentMap_goto : (s.goto p).lastSentMap = s.lastSentMap := rfl

@[simp] theorem phase_goto : (s.goto p).phase = p := rfl

@[simp] theorem sent_goto : (s.goto p).sent = s.sent := rfl

@[simp] theorem warehouse_goto : (s.goto p).warehouse = s.warehouse := rfl

end Fields

end Conditions

theorem switchLevels_concat (conditions : List Condition) (key f : FlowSrc) (n : ℤ) :
    switchLevels (conditions ++ [⟨key, n⟩]) f
      = if f = key then if noSelectedLevel < n then n else -1 else switchLevels conditions f := by
  rw [switchLevels, List.foldl_append, List.foldl_cons, List.foldl_nil, install,
    Function.update_apply, switchLevels]

end CMTestbed
