import CMTestbed.Lib.Places
import CMTestbed.Locking

/-!
# The pointers of the data warehouse

Which tables the sender's threads find behind the pointers of the data warehouse, call after call.
The mutex of the data warehouse keeps the calls that change a pointer apart, so each is one step
here; which of its creations fail is left to choice.  A function that follows a null pointer
returns at once.  To follow a pointer to a destroyed table, or to destroy it again, is undefined.
-/

namespace CMTestbed.Pointers

open Locking (Map)

/-- The members of the data warehouse that point to a table. -/
inductive Place where
  | flowRecePktListMap
  | lastSentFlowSelectedLevelMap
  | buffer (m : Map) (i : Fin 2)
  deriving DecidableEq

structure Warehouse where
  tables : Lib.Places Place
  activeIdx : Fin 2

namespace Warehouse

def naIdx (w : Warehouse) : Fin 2 := rotatedIdx w.activeIdx 1

/-- The place holds `NULL` or a table that is not destroyed. -/
def NullOrLive (w : Warehouse) (p : Place) : Prop :=
  w.tables.pointer p = none ∨ ∃ t ∈ w.tables.pointer p, t ∈ w.tables.live

/-- The warehouse as the threads share it. -/
def toLocking (w : Warehouse) : Locking.Warehouse where
  live := w.tables.live
  next := w.tables.next
  flowRecePktListMap := w.tables.pointer .flowRecePktListMap
  lastSentFlowSelectedLevelMap := w.tables.pointer .lastSentFlowSelectedLevelMap
  maps m i := w.tables.pointer (.buffer m i)
  activeIdx := w.activeIdx

end Warehouse

/-- The tables of a buffer, in the order in which they are created. -/
def createdMaps (i : Fin 2) : List Place :=
  [.buffer .flowVolumeMap i,
    .buffer .fixedFlowLossVolumeMap i,
    .buffer .flowLossVolumeMap i,
    .buffer .flowLossRateMap i,
    .buffer .flowSelectedLevelMap i,
    .buffer .flowSampleMap i,
    .buffer .flowNotSampledVolumeMap i]

/-- Every table, in the order in which the warehouse creates and destroys them. -/
def allMaps : List Place :=
  [.flowRecePktListMap, .lastSentFlowSelectedLevelMap]
    ++ createdMaps ⟨0, Nat.two_pos⟩ ++ createdMaps ⟨1, Nat.one_lt_two⟩

def status (created : Bool) : ℤ := if created then 0 else -1

/-- The warehouse once the tasks have been read, where the creations `fails` fail. -/
def dataWarehouseInit (fails : Place → Bool) : Warehouse × ℤ :=
  let (tables, created) := Lib.Places.null.allocAll fails allMaps
  (⟨tables, ⟨0, Nat.two_pos⟩⟩, status created)

def dataWarehouseDestroy (w : Warehouse) : Option Warehouse :=
  (w.tables.freeAll allMaps).map fun tables => { w with tables }

def dataWareRotateBuffer (w : Warehouse) : Warehouse :=
  { w with activeIdx := rotatedIdx w.activeIdx 1 }

/-- What a reset destroys, in its order. -/
def destroyedByReset (naIdx : Fin 2) : List Place :=
  [.buffer .flowVolumeMap naIdx,
    .buffer .fixedFlowLossVolumeMap naIdx,
    .buffer .flowLossVolumeMap naIdx,
    .buffer .flowSelectedLevelMap naIdx,
    .buffer .flowLossRateMap naIdx,
    .buffer .flowSampleMap naIdx,
    .buffer .flowNotSampledVolumeMap naIdx,
    .lastSentFlowSelectedLevelMap]

/-- What a reset creates, in its order. -/
def createdByReset (naIdx : Fin 2) : List Place :=
  createdMaps naIdx ++ [.lastSentFlowSelectedLevelMap]

/-- Destroys the tables first; a creation that fails ends the function. -/
def dataWarehouseResetNoactiveBuf (fails : Place → Bool) (w : Warehouse) :
    Option (Warehouse × ℤ) :=
  (w.tables.renew fails (destroyedByReset w.naIdx) (createdByReset w.naIdx)).map
    fun (tables, created) => ({ w with tables }, status created)

/-- The sender's copy of the conditions it has sent: the old one is destroyed. -/
def renewLastSent (fails : Bool) (w : Warehouse) : Option Warehouse :=
  let p := Place.lastSentFlowSelectedLevelMap
  (w.tables.free p).map fun tables =>
    { w with tables := if fails then tables.clear p else tables.alloc p }

/-- What is called on the warehouse. -/
inductive Call where
  /-- an update follows the pointer to the received packets or to a table of the active buffer, a
  report or the sender of conditions to one of either buffer or of the conditions sent -/
  | follow (p : Place)
  | rotate
  | reset (fails : Place → Bool)
  | sendConditions (fails : Bool)

def Call.exec (w : Warehouse) : Call → Option Warehouse
  | .follow p => if w.tables.Dangles p then none else some w
  | .rotate => some (dataWareRotateBuffer w)
  | .reset fails => (dataWarehouseResetNoactiveBuf fails w).map Prod.fst
  | .sendConditions fails => renewLastSent fails w

/-- The sender, call after call. -/
def sender : Lib.System Warehouse Call := ⟨Call.exec⟩

/-- Nothing that the reset leaves as it is points to a table: each creation after the first that
fails would replace a null pointer. -/
def Spared (fails : Place → Bool) (w : Warehouse) : Prop :=
  ∀ p ∈ Lib.Places.unreached fails (createdByReset w.naIdx), w.tables.pointer p = none

/-- A reset, where it is one, meets `Spared`. -/
def Call.Spares (w : Warehouse) : Call → Prop
  | .reset fails => Spared fails w
  | _ => True

end CMTestbed.Pointers
