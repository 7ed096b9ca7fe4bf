import Mathlib.Data.Finset.Insert
import CMTestbed.Warehouse
import CMTestbed.Lib.Locks

/-!
# The locks of the sender's threads

The sending, flow-info, rotating and condition-sending threads with the mutexes they take.  Of the
shared memory the model keeps what decides where a thread may run on: the pointers to the tables
of the data warehouse, and which tables are allocated.  Whatever else a branch depends on (the
packets, the entries of a table, the settings, the time) is left to choice.

To follow a null pointer, or one to a freed table, is undefined.
-/

namespace CMTestbed.Locking

open Lib.Locks (Machine start process)
open Lib.Locks.Code

/-- A null pointer, or the table allocated under a number. -/
abbrev Pointer := Option ℕ

/-- The tables that every buffer has. -/
inductive Map where
  | flowVolumeMap
  | fixedFlowLossVolumeMap
  | flowLossVolumeMap
  | flowLossRateMap
  | flowSelectedLevelMap
  | flowSampleMap
  | flowNotSampledVolumeMap
  deriving DecidableEq

structure Warehouse where
  /-- the tables that are allocated -/
  live : List ℕ
  /-- what the next allocation returns -/
  next : ℕ
  flowRecePktListMap : Pointer
  lastSentFlowSelectedLevelMap : Pointer
  maps : Map → Fin 2 → Pointer
  activeIdx : Fin 2

inductive Mutex where
  | packetSendMutex
  | dataWarehouseMutex
  | mutexs (lockBin : ℕ)
  | table (t bin : ℕ)
  deriving DecidableEq

/-- The calls of `malloc`, and those of the functions that create a table by the pointer they
set. -/
inductive Site where
  | newPktVolume
  | htVlNewpair
  | htKfsViNewpair
  | htKfsVfNewpair
  | htKfsFixSizeNewpair
  | fixSizeTable
  | noactiveBuf (m : Map)
  | lastSentByRotating
  | lastSentBySender
  deriving DecidableEq

abbrev Code := Lib.Locks.Code Warehouse Mutex Site

def Warehouse.setMap (m : Map) (i : Fin 2) (p : Pointer) (w : Warehouse) : Warehouse :=
  { w with maps := fun m' i' => if m' = m ∧ i' = i then p else w.maps m' i' }

def Warehouse.setLastSent (p : Pointer) (w : Warehouse) : Warehouse :=
  { w with lastSentFlowSelectedLevelMap := p }

/-- Code that follows a pointer to the table `t`. -/
def access (t : ℕ) (c : Code) : Code := .read fun w => if t ∈ w.live then c else undefined

/-- `while (next(..) == 0) body` -/
def whileNext (next body : Code) : Code := .block [next, .loop (.block [body, next])]

section Tables

/-- A table function: on a null pointer it returns at once; else it takes the mutex of a bin and
goes on with the code that releases it. -/
def onBin (p : Pointer) (body : Code → Code) : Code :=
  .call (match p with
    | none => .ret
    | some t => access t (.pick fun bin =>
        .block [.lock (.table t bin), access t (body (access t (.unlock (.table t bin))))]))

/-- A lookup releases the mutex before each of its returns. -/
def lookup (p : Pointer) : Code :=
  onBin p fun unlock => .either (.block [unlock, .ret]) (.block [unlock, .ret])

/-- `*_set`.  The new pair of an unknown key is not checked: a null one is linked in at the end of
a list, and followed elsewhere. -/
def set (newpair : Site) (p : Pointer) : Code :=
  onBin p fun unlock =>
    .block [.either .skip (.malloc newpair .skip (.either .skip .undefined)), unlock]

/-- The next bin of an iteration: where it has an entry, the function returns. -/
def nextBin (t : ℕ) : Code :=
  .block [
    .either .ret .skip,
    .pick fun bin => access t (.block [
      .lock (.table t bin),
      access t (.either (.block [.unlock (.table t bin), .ret]) (.unlock (.table t bin)))])]

/-- `*_next`.  One thread at a time iterates over a table, so the bin it unlocks is the one it
locked. -/
def next (p : Pointer) : Code :=
  .call (match p with
    | none => .ret
    | some t => access t (.block [
        .either .ret .skip,
        -- the rest of the bin of the last call
        .either
          (.pick fun bin => .block [
            .lock (.table t bin),
            access t (.either (.block [.unlock (.table t bin), .ret]) (.unlock (.table t bin)))])
          .skip,
        .forever (nextBin t)]))

/-- `*_create`, with what is done with the pointer it returns. -/
def create (site : Site) (inner : Code) (then' : Pointer → Code) : Code :=
  .malloc site
    (.block [
      inner,
      .exchange (fun w => (w.next, { w with live := w.next :: w.live, next := w.next + 1 }))
        fun t => then' (some t)])
    (then' none)

/-- `*_destory`: the pointer itself stays as it is. -/
def destory (p : Pointer) : Code :=
  .call (match p with
    | none => .ret
    | some t => access t (.write fun w => { w with live := w.live.erase t }))

/-- `*_refresh` clears one bin after the other. -/
def refresh (p : Pointer) : Code :=
  .call (match p with
    | none => .ret
    | some t => .loop (.pick fun bin => access t (.block [
        .lock (.table t bin), access t (.unlock (.table t bin))])))

def htKfsViCreate (site : Site) (then' : Pointer → Code) : Code := create site .skip then'
def htKfsViDestory (p : Pointer) : Code := destory p
def htKfsViRefresh (p : Pointer) : Code := refresh p
def htKfsViGet (p : Pointer) : Code := lookup p
def htKfsViSet (p : Pointer) : Code := set .htKfsViNewpair p
def htKfsViDel (p : Pointer) : Code := onBin p fun unlock => unlock
def htKfsViNext (p : Pointer) : Code := next p

def htKfsVfCreate (site : Site) (then' : Pointer → Code) : Code := create site .skip then'
def htKfsVfDestory (p : Pointer) : Code := destory p
def htKfsVfGet (p : Pointer) : Code := lookup p
def htKfsVfSet (p : Pointer) : Code := set .htKfsVfNewpair p
def htKfsVfNext (p : Pointer) : Code := next p

/-- The bins are allocated apart, unchecked, and then cleared. -/
def htKfsFixSizeCreate (site : Site) (then' : Pointer → Code) : Code :=
  create site (.malloc .fixSizeTable .skip (.either .skip .undefined)) then'
def htKfsFixSizeDestory (p : Pointer) : Code := destory p
def htKfsFixSizeRefresh (p : Pointer) : Code := refresh p
def htKfsFixSizeGet (p : Pointer) : Code := lookup p
def htKfsFixSizeIsSampled (p : Pointer) : Code := .call (.block [htKfsFixSizeGet p, .ret])

/-- A failed allocation leaves the bin empty. -/
def htKfsFixSizeNewpair : Code := .malloc .htKfsFixSizeNewpair .skip .skip

def htKfsFixSizeAddValue (p : Pointer) : Code :=
  onBin p fun unlock => .block [
    .either (.either .skip .skip) htKfsFixSizeNewpair,
    unlock]

def htKfsFixSizeAddValueAndUpdateSelectedLevelInfo (p : Pointer) : Code :=
  onBin p fun unlock => .block [
    .either
      (.either .skip (.either (.either .skip htKfsFixSizeNewpair) .skip))
      htKfsFixSizeNewpair,
    unlock]

def htKfsFixSizeSetSelectedLevel (p : Pointer) : Code :=
  onBin p fun unlock => .block [
    .either
      (.either .skip (.block [
        -- the signal to forget a flow that is not the one in the bin
        .either (.block [unlock, .ret]) .skip,
        .either (.either .skip (.either htKfsFixSizeNewpair .skip)) .skip]))
      (.either htKfsFixSizeNewpair .skip),
    unlock]

def htKfsFixSizeDel (p : Pointer) : Code := onBin p fun unlock => unlock
def htKfsFixSizeNext (p : Pointer) : Code := next p

/-- A packet that could not be allocated ends its list, and is followed by the next one. -/
def htVlSet (p : Pointer) : Code :=
  onBin p fun unlock => .block [
    .malloc .newPktVolume
      (.either
        (.either .skip (.either .skip .undefined))
        (.malloc .htVlNewpair .skip (.either .skip .undefined)))
      (.either
        (.either .skip (.either .skip .undefined))
        -- `assert(pkt_volume != NULL)`
        .undefined),
    unlock]

def htVlGetReceLostVolume (p : Pointer) : Code :=
  onBin p fun unlock => .block [.either .skip (.either .skip .skip), unlock, .ret]

end Tables

section Updates

def flowSrcAlreadySampled (flowSampleMap : Pointer) : Code :=
  .call (.block [htKfsViGet flowSampleMap, .ret])

def samplePacket (flowSampleMap : Pointer) : Code :=
  .call (.block [
    flowSrcAlreadySampled flowSampleMap,
    .either .ret .skip,
    .either (.block [htKfsViSet flowSampleMap, .ret]) .skip,
    .ret])

def samplePacketFixSizeMapSender (flowSampleMap : Pointer) : Code :=
  .call (.block [htKfsFixSizeIsSampled flowSampleMap, .ret])

def updateFlowSelectedLevelMap : Code :=
  .call (.read fun w =>
    let flowSelectedLevelMap := w.maps .flowSelectedLevelMap w.activeIdx
    .either
      (.either (htKfsViSet flowSelectedLevelMap)
        (.either (htKfsViSet flowSelectedLevelMap) (htKfsViDel flowSelectedLevelMap)))
      (htKfsViDel flowSelectedLevelMap))

def updateFlowNotSampledVolume : Code :=
  .call (.read fun w =>
    let flowVolumeMap := w.maps .flowVolumeMap w.activeIdx
    .read fun w =>
    let flowNotSampledVolumeMap := w.maps .flowNotSampledVolumeMap w.activeIdx
    .block [
      htKfsViGet flowNotSampledVolumeMap,
      .either (.block [htKfsViGet flowVolumeMap, htKfsViSet flowNotSampledVolumeMap]) .skip])

def updateFlowNormalVolume : Code :=
  .call (.pick fun lockBin => .block [
    .lock (.mutexs lockBin),
    .read fun w =>
    let flowVolumeMap := w.maps .flowVolumeMap w.activeIdx
    .read fun w =>
    let flowLossVolumeMap := w.maps .flowLossVolumeMap w.activeIdx
    .read fun w =>
    let fixedFlowLossVolumeMap := w.maps .fixedFlowLossVolumeMap w.activeIdx
    .read fun w =>
    let flowLossRateMap := w.maps .flowLossRateMap w.activeIdx
    .either
      (.block [
        htKfsViGet flowVolumeMap,
        htKfsViSet flowVolumeMap,
        htKfsViGet flowLossVolumeMap,
        .either (htKfsFixSizeGet fixedFlowLossVolumeMap) .skip,
        htKfsVfSet flowLossRateMap,
        updateFlowSelectedLevelMap])
      .skip,
    .unlock (.mutexs lockBin)])

def updateFlowLossVolume : Code :=
  .call (.pick fun lockBin => .block [
    .lock (.mutexs lockBin),
    .read fun w =>
    let flowVolumeMap := w.maps .flowVolumeMap w.activeIdx
    .read fun w =>
    let fixedFlowLossVolumeMap := w.maps .fixedFlowLossVolumeMap w.activeIdx
    .read fun w =>
    let flowLossVolumeMap := w.maps .flowLossVolumeMap w.activeIdx
    .read fun w =>
    let flowLossRateMap := w.maps .flowLossRateMap w.activeIdx
    .either
      (.block [
        htKfsViGet flowVolumeMap,
        -- a loss of a flow without volume
        .either (.block [.unlock (.mutexs lockBin), .ret]) .skip,
        htKfsViGet flowLossVolumeMap,
        htKfsViSet flowLossVolumeMap,
        .either
          (.block [
            samplePacketFixSizeMapSender fixedFlowLossVolumeMap,
            .either (htKfsFixSizeAddValue fixedFlowLossVolumeMap) .skip,
            htKfsFixSizeGet fixedFlowLossVolumeMap])
          .skip,
        htKfsVfSet flowLossRateMap,
        updateFlowSelectedLevelMap])
      .skip,
    .unlock (.mutexs lockBin)])

end Updates

section Threads

def cmHandleIpv4Packet : Code :=
  .call (.block [
    -- no handler for the frame
    .either .ret .skip,
    .read fun w => htVlSet w.flowRecePktListMap,
    -- a task is interested in the packet
    .either
      (.read fun w =>
        let flowSelectedLevelMap := w.maps .flowSelectedLevelMap w.activeIdx
        .block [
          .either
            (.block [
              htKfsViGet flowSelectedLevelMap,
              .either .skip (.read fun w => samplePacket (w.maps .flowSampleMap w.activeIdx)),
              .either updateFlowNotSampledVolume .skip])
            .skip,
          .either (htKfsViGet flowSelectedLevelMap) .skip])
      .skip,
    updateFlowNormalVolume])

def sendPackets : Code :=
  .loop (.block [cmHandleIpv4Packet, .lock .packetSendMutex, .unlock .packetSendMutex])

def flowInforUpdate : Code :=
  .block [
    -- no name for the FIFO, or it cannot be opened
    .either .ret .skip,
    .either .ret .skip,
    .loop (.block [
      .read fun w => htVlGetReceLostVolume w.flowRecePktListMap,
      .either updateFlowLossVolume .skip]),
    .ret]

def writeIntervalInfoToFile : Code :=
  .call (.block [
    .either .ret .skip,
    .read fun w =>
      whileNext (htKfsVfNext (w.maps .flowLossRateMap (rotatedIdx w.activeIdx 1))) .skip,
    .read fun w =>
      whileNext (htKfsViNext (w.maps .flowVolumeMap (rotatedIdx w.activeIdx 1))) .skip])

def writeLastSentFlowSelectedLevelMapLostTargetFlow : Code :=
  .call (.read fun w =>
    whileNext (htKfsViNext (w.maps .flowSelectedLevelMap (rotatedIdx w.activeIdx 1)))
      (.either .skip (htKfsViGet w.lastSentFlowSelectedLevelMap)))

def writeTargetFlowsToFile : Code :=
  .call (.block [
    .either .ret .skip,
    .read fun w =>
      let unactive := fun m => w.maps m (rotatedIdx w.activeIdx 1)
      whileNext (htKfsViNext (unactive .flowSelectedLevelMap))
        (.either .skip (.block [
          htKfsViGet (unactive .flowVolumeMap),
          htKfsVfGet (unactive .flowLossRateMap),
          htKfsViGet (unactive .flowLossVolumeMap),
          .either (htKfsFixSizeGet (unactive .fixedFlowLossVolumeMap)) .skip,
          htKfsViGet (unactive .flowNotSampledVolumeMap),
          htKfsViGet w.lastSentFlowSelectedLevelMap]))])

def dataWareRotateBuffer : Code :=
  .call (.write fun w => { w with activeIdx := rotatedIdx w.activeIdx 1 })

/-- The pointer that was created is stored; a null one ends the function.  The mutex of the data
warehouse is held, so what is compared with `NULL` is what was stored. -/
def storeOrReturn (store : Pointer → Warehouse → Warehouse) (p : Pointer) : Code :=
  .block [.write (store p), match p with | none => .ret | some _ => .skip]

def dataWarehouseResetNoactiveBuf : Code :=
  .call (.read fun w =>
    let naIdx := rotatedIdx w.activeIdx 1
    let createMap := fun (create : Site → (Pointer → Code) → Code) m =>
      create (.noactiveBuf m) (storeOrReturn (.setMap m naIdx))
    .block [
      .read fun w => htKfsViDestory (w.maps .flowVolumeMap naIdx),
      .read fun w => htKfsFixSizeDestory (w.maps .fixedFlowLossVolumeMap naIdx),
      .read fun w => htKfsViDestory (w.maps .flowLossVolumeMap naIdx),
      .read fun w => htKfsViDestory (w.maps .flowSelectedLevelMap naIdx),
      .read fun w => htKfsVfDestory (w.maps .flowLossRateMap naIdx),
      .read fun w => htKfsViDestory (w.maps .flowSampleMap naIdx),
      .read fun w => htKfsViDestory (w.maps .flowNotSampledVolumeMap naIdx),
      .read fun w => htKfsViDestory w.lastSentFlowSelectedLevelMap,
      createMap htKfsViCreate .flowVolumeMap,
      createMap htKfsFixSizeCreate .fixedFlowLossVolumeMap,
      createMap htKfsViCreate .flowLossVolumeMap,
      createMap htKfsVfCreate .flowLossRateMap,
      createMap htKfsViCreate .flowSelectedLevelMap,
      createMap htKfsViCreate .flowSampleMap,
      createMap htKfsViCreate .flowNotSampledVolumeMap,
      htKfsViCreate .lastSentByRotating (storeOrReturn .setLastSent),
      .ret])

def rotateInterval : Code :=
  .block [
    -- the file of target flows cannot be opened
    .either .ret .skip,
    .forever (.block [
      .lock .dataWarehouseMutex,
      dataWareRotateBuffer,
      writeIntervalInfoToFile,
      writeLastSentFlowSelectedLevelMapLostTargetFlow,
      writeTargetFlowsToFile,
      dataWarehouseResetNoactiveBuf,
      .unlock .dataWarehouseMutex])]

def sendConditionToNetwork : Code :=
  .forever (.block [
    .lock .packetSendMutex,
    .lock .dataWarehouseMutex,
    .read fun w =>
      let flowSelectedLevelMap := w.maps .flowSelectedLevelMap w.activeIdx
      .block [
        whileNext (htKfsViNext flowSelectedLevelMap)
          (.read fun w => htKfsViGet w.lastSentFlowSelectedLevelMap),
        whileNext (.read fun w => htKfsViNext w.lastSentFlowSelectedLevelMap)
          (htKfsViGet flowSelectedLevelMap),
        .read fun w => htKfsViDestory w.lastSentFlowSelectedLevelMap,
        -- returns with both mutexes held
        htKfsViCreate .lastSentBySender (storeOrReturn .setLastSent),
        whileNext (htKfsViNext flowSelectedLevelMap)
          (.read fun w => htKfsViSet w.lastSentFlowSelectedLevelMap)],
    .unlock .dataWarehouseMutex,
    .unlock .packetSendMutex])

inductive ThreadName where
  | sending
  | flowInfo
  | rotating
  | conditionSending
  deriving DecidableEq

instance : Fintype ThreadName where
  elems := {.sending, .flowInfo, .rotating, .conditionSending}
  complete i := by cases i <;> decide

def main : ThreadName → Code
  | .sending => sendPackets
  | .flowInfo => flowInforUpdate
  | .rotating => rotateInterval
  | .conditionSending => sendConditionToNetwork

/-- The data warehouse as `data_warehouse_init` leaves it. -/
def dataWarehouseInit : Warehouse where
  live := List.range 16
  next := 16
  flowRecePktListMap := some 0
  lastSentFlowSelectedLevelMap := some 1
  maps m i := some (2 + 7 * i + m.ctorIdx)
  activeIdx := ⟨0, Nat.two_pos⟩

end Threads

end CMTestbed.Locking
