import CMTestbed.Intervals
import CMTestbed.Lib.Prog
import Mathlib.Algebra.BigOperators.Intervals

/-!
# Updates step by step

`update_flow_normal_volume` and `update_flow_loss_volume` as they run beside the rotating thread.
Each read of `active_idx` is an atomic step of its own, as is each table operation.  The mutex that
an update holds is not the one that the rotating thread takes, so a rotation can come before any
step.
-/

namespace CMTestbed

/-- What an update writes to. -/
inductive Written where
  | flowVolumeMap
  | fixedFlowLossVolumeMap
  | flowLossVolumeMap
  | flowLossRateMap
  | flowSelectedLevelMap
  | volumeLost
  deriving DecidableEq, Repr

def DataWarehouse.modifyAt (w : DataWarehouse) (i : Fin 2) (f : Buffer → Buffer) : DataWarehouse :=
  { w with buffer := Function.update w.buffer i (f (w.buffer i)) }

/-- A call in progress; each write is an event with the index it goes to. -/
abbrev Call := Lib.Prog DataWarehouse (Written × Fin 2)

namespace Call

/-- One of the `data_warehouse_get_*` functions, or the index of a counter. -/
def readIdx (k : Fin 2 → Call) : Call :=
  .atom id (fun _ => none) fun w => k w.activeIdx

/-- A lookup in a table of the buffer `i`. -/
def get {α : Type} (i : Fin 2) (read : Buffer → α) (k : α → Call) : Call :=
  .atom id (fun _ => none) fun w => k (read (w.buffer i))

/-- A write to a table or a counter of the buffer `i`. -/
def write (i : Fin 2) (m : Written) (f : Buffer → Buffer) (k : Call) : Call :=
  .atom (fun w => w.modifyAt i f) (fun _ => some (m, i)) fun _ => k

end Call

open Call

section Steps
variable (setting : CmExperimentSetting) (pFlow : FlowSrc)

def updateFlowSelectedLevelMapSteps (volume lossVolume : ℤ) (lossRate : ℚ) : Call :=
  readIdx fun levelIdx =>
  write levelIdx .flowSelectedLevelMap (fun b => { b with
    flowSelectedLevelMap := updateFlowSelectedLevelMap setting b.flowSelectedLevelMap pFlow volume
      lossVolume lossRate }) .done

/-- With a loss map of fixed size, the loss volume is read back from it; then the loss rate and the
level. -/
def updateRateAndLevelSteps (fixedIdx rateIdx : Fin 2) (volume lossVolume : ℤ) : Call :=
  let finish (lossVolume : ℤ) : Call :=
    let lossRate := setting.lossRate volume lossVolume
    write rateIdx .flowLossRateMap
      (fun b => { b with flowLossRateMap := htKfsVfSet b.flowLossRateMap pFlow lossRate }) <|
    updateFlowSelectedLevelMapSteps setting pFlow volume lossVolume lossRate
  match setting.senderSetting.lossMapMemType with
  | .infinite => finish lossVolume
  | .fixed => get fixedIdx (fun b => b.fixedFlowLossVolumeMap.value pFlow) finish

def updateFlowNormalVolumeSteps (addedVolume : ℤ) : Call :=
  readIdx fun volumeIdx =>
  readIdx fun lossIdx =>
  readIdx fun fixedIdx =>
  readIdx fun rateIdx =>
  if 0 < addedVolume then
    get volumeIdx (fun b => htKfsViGet b.flowVolumeMap pFlow) fun volume =>
    let volume := intAdd (orZero volume) addedVolume
    write volumeIdx .flowVolumeMap
      (fun b => { b with flowVolumeMap := htKfsViSet b.flowVolumeMap pFlow (toUInt volume) }) <|
    get lossIdx (fun b => htKfsViGet b.flowLossVolumeMap pFlow) fun lossVolume =>
    updateRateAndLevelSteps setting pFlow fixedIdx rateIdx volume (orZero lossVolume)
  else .done

/-- A loss of a flow whose volume is known. -/
def recordLossSteps (fixedIdx lossIdx rateIdx : Fin 2) (addedLossVolume : ℤ) (rand : ℚ)
    (volume : ℤ) : Call :=
  get lossIdx (fun b => htKfsViGet b.flowLossVolumeMap pFlow) fun lossVolume =>
  let lossVolume := intAdd (orZero lossVolume) addedLossVolume
  write lossIdx .flowLossVolumeMap (fun b => { b with
    flowLossVolumeMap := htKfsViSet b.flowLossVolumeMap pFlow (toUInt lossVolume) }) <|
  let finish := updateRateAndLevelSteps setting pFlow fixedIdx rateIdx volume lossVolume
  match setting.senderSetting.lossMapMemType with
  | .infinite => finish
  | .fixed =>
    get fixedIdx (fun b => samplePacketFixSizeMapSender setting pFlow lossVolume rand
      b.fixedFlowLossVolumeMap) fun sampled =>
    if sampled then
      write fixedIdx .fixedFlowLossVolumeMap (fun b => { b with
        fixedFlowLossVolumeMap := htKfsFixSizeAddValue b.fixedFlowLossVolumeMap pFlow
          (toUInt addedLossVolume) }) finish
    else finish

def updateFlowLossVolumeSteps (addedLossVolume : ℤ) (rand : ℚ) : Call :=
  readIdx fun volumeIdx =>
  readIdx fun fixedIdx =>
  readIdx fun lossIdx =>
  readIdx fun rateIdx =>
  readIdx fun counterIdx =>
  write counterIdx .volumeLost
    (fun b => { b with volumeLost := b.volumeLost + UInt64.ofInt addedLossVolume }) <|
  if 0 < addedLossVolume then
    get volumeIdx (fun b => htKfsViGet b.flowVolumeMap pFlow) fun volume =>
    if volume < 0 then .done
    else recordLossSteps setting pFlow fixedIdx lossIdx rateIdx addedLossVolume rand volume
  else .done

end Steps

def UpdateCall.steps (setting : CmExperimentSetting) : UpdateCall → Call
  | normal pFlow n => updateFlowNormalVolumeSteps setting pFlow n
  | loss pFlow n rand => updateFlowLossVolumeSteps setting pFlow n rand

/-! ## Rotations in between -/

/-- `rotations n` rotations come before step `n`. -/
def rotating (rotations : ℕ → ℕ) (n : ℕ) (w : DataWarehouse) : DataWarehouse :=
  dataWareRotateBuffer^[rotations n] w

/-- The writes of a call, with the indexes they go to. -/
def UpdateCall.writes (setting : CmExperimentSetting) (c : UpdateCall) (rotations : ℕ → ℕ)
    (w : DataWarehouse) : List (Written × Fin 2) :=
  ((c.steps setting).exec (rotating rotations) 0 w).2

/-- All writes go to one index. -/
def OneIndex (writes : List (Written × Fin 2)) : Prop := ∃ i, ∀ e ∈ writes, e.2 = i

end CMTestbed
