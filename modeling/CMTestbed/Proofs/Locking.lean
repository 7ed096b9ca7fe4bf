import CMTestbed.Locking

/-!
# No lock is held by a thread that has returned

The mutexes are ranked: packets, data warehouse, updates, tables.  Each table function takes and
releases one mutex of the highest rank, so it leaves the locks as they were; the functions above
follow from those they call.  Only the thread that sends the conditions can return between a lock
and its release, when the map of the sent conditions cannot be allocated.
-/

namespace CMTestbed.Locking

open Lib.Locks (Machine Choice Item start process Below below_cons advance runAlone runAlone_append
  runAlone_flatMap unwind)
open Lib.Locks.Code (block)

/-- The order in which a thread takes the mutexes it holds together. -/
def Mutex.rank : Mutex → ℕ
  | packetSendMutex => 0
  | dataWarehouseMutex => 1
  | mutexs _ => 2
  | table _ _ => 3

/-- Every allocation may fail, but that of the map of the sent conditions. -/
def MayFail (site : Site) : Prop := site ≠ .lastSentBySender

variable {p : Pointer} {N R : List Mutex → Prop} {H : List Mutex} {c d : Code}

/-- The code is balanced where the allocations of `MayFail` fail. -/
abbrev Keeps (c : Code) (N R : List Mutex → Prop) (H : List Mutex) : Prop :=
  c.Balanced Mutex.rank MayFail N R H

@[simp] theorem keeps_access {t : ℕ} : Keeps (access t c) N R H ↔ Keeps c N R H := by
  constructor
  · intro h
    have hc : Keeps (if t ∈ [t] then c else .undefined) N R H :=
      h { dataWarehouseInit with live := [t] }
    rwa [if_pos (List.mem_singleton_self t)] at hc
  · intro h w
    change Keeps (if t ∈ w.live then c else .undefined) N R H
    split
    · exact h
    · trivial

section Tables

/-- A table function, from what its body does once it holds the mutex of the bin. -/
theorem keeps_onBin {body : Code → Code} (hH : Below Mutex.rank 3 H)
    (hb : ∀ t bin, Keeps (body (access t (.unlock (.table t bin)))) (· = H) (· = H)
      (.table t bin :: H)) : Keeps (onBin p body) N R H ↔ N H := by
  refine ⟨fun h => h.2, fun hN => ⟨?_, hN⟩⟩
  cases p with
  | none => exact rfl
  | some t => exact keeps_access.2 fun bin => ⟨hH, keeps_access.2 (hb t bin)⟩

theorem keeps_lookup (hH : Below Mutex.rank 3 H) : Keeps (lookup p) N R H ↔ N H :=
  keeps_onBin hH fun t bin => by simp

theorem keeps_set {newpair : Site} (hH : Below Mutex.rank 3 H) :
    Keeps (set newpair p) N R H ↔ N H :=
  keeps_onBin hH fun t bin => by simp

theorem keeps_next (hH : Below Mutex.rank 3 H) : Keeps (next p) N R H ↔ N H := by
  refine ⟨fun h => h.2, fun hN => ⟨?_, hN⟩⟩
  cases p with
  | none => exact rfl
  | some t => simp [nextBin, Mutex.rank, hH]

theorem keeps_refresh (hH : Below Mutex.rank 3 H) : Keeps (refresh p) N R H ↔ N H := by
  refine ⟨fun h => h.2, fun hN => ⟨?_, hN⟩⟩
  cases p with
  | none => exact rfl
  | some t => simp [Mutex.rank, hH]

@[simp] theorem keeps_destory : Keeps (destory p) N R H ↔ N H := by
  refine ⟨fun h => h.2, fun hN => ⟨?_, hN⟩⟩
  cases p with
  | none => exact rfl
  | some t => exact keeps_access.2 rfl

theorem keeps_htKfsFixSizeAddValue (hH : Below Mutex.rank 3 H) :
    Keeps (htKfsFixSizeAddValue p) N R H ↔ N H :=
  keeps_onBin hH fun t bin => by simp [htKfsFixSizeNewpair]

theorem keeps_htKfsFixSizeAddValueAndUpdateSelectedLevelInfo (hH : Below Mutex.rank 3 H) :
    Keeps (htKfsFixSizeAddValueAndUpdateSelectedLevelInfo p) N R H ↔ N H :=
  keeps_onBin hH fun t bin => by simp [htKfsFixSizeNewpair]

theorem keeps_htKfsFixSizeSetSelectedLevel (hH : Below Mutex.rank 3 H) :
    Keeps (htKfsFixSizeSetSelectedLevel p) N R H ↔ N H :=
  keeps_onBin hH fun t bin => by simp [htKfsFixSizeNewpair]

theorem keeps_del (hH : Below Mutex.rank 3 H) : Keeps (onBin p fun unlock => unlock) N R H ↔ N H :=
  keeps_onBin hH fun t bin => by simp

theorem keeps_htVlSet (hH : Below Mutex.rank 3 H) : Keeps (htVlSet p) N R H ↔ N H :=
  keeps_onBin hH fun t bin => by simp

theorem keeps_htVlGetReceLostVolume (hH : Below Mutex.rank 3 H) :
    Keeps (htVlGetReceLostVolume p) N R H ↔ N H :=
  keeps_onBin hH fun t bin => by simp

theorem keeps_htKfsFixSizeIsSampled (hH : Below Mutex.rank 3 H) :
    Keeps (htKfsFixSizeIsSampled p) N R H ↔ N H := by
  simp [htKfsFixSizeIsSampled, htKfsFixSizeGet, keeps_lookup hH]

end Tables

section Updates

theorem keeps_samplePacket (hH : Below Mutex.rank 3 H) : Keeps (samplePacket p) N R H ↔ N H := by
  simp [samplePacket, flowSrcAlreadySampled, htKfsViGet, htKfsViSet,
    keeps_lookup hH, keeps_set hH]

theorem keeps_samplePacketFixSizeMapSender (hH : Below Mutex.rank 3 H) :
    Keeps (samplePacketFixSizeMapSender p) N R H ↔ N H := by
  simp [samplePacketFixSizeMapSender, keeps_htKfsFixSizeIsSampled hH]

theorem keeps_updateFlowSelectedLevelMap (hH : Below Mutex.rank 3 H) :
    Keeps updateFlowSelectedLevelMap N R H ↔ N H := by
  simp [updateFlowSelectedLevelMap, htKfsViSet, htKfsViDel, keeps_set hH, keeps_del hH]

theorem keeps_updateFlowNotSampledVolume (hH : Below Mutex.rank 3 H) :
    Keeps updateFlowNotSampledVolume N R H ↔ N H := by
  simp [updateFlowNotSampledVolume, htKfsViGet, htKfsViSet, keeps_lookup hH,
    keeps_set hH]

/-- A flow's mutex of the warehouse comes before the mutexes of the tables. -/
theorem below_mutexs (hH : Below Mutex.rank 2 H) (bin : ℕ) :
    Below Mutex.rank 3 (.mutexs bin :: H) :=
  below_cons.2 ⟨Nat.lt_succ_self 2, hH.mono (Nat.le_succ 2)⟩

theorem keeps_updateFlowNormalVolume (hH : Below Mutex.rank 2 H) :
    Keeps updateFlowNormalVolume N R H ↔ N H := by
  have h3 := below_mutexs hH
  simp [updateFlowNormalVolume, htKfsViGet, htKfsViSet, htKfsVfSet, htKfsFixSizeGet,
    Mutex.rank, hH, keeps_lookup (h3 _), keeps_set (h3 _), keeps_updateFlowSelectedLevelMap (h3 _)]

theorem keeps_updateFlowLossVolume (hH : Below Mutex.rank 2 H) :
    Keeps updateFlowLossVolume N R H ↔ N H := by
  have h3 := below_mutexs hH
  simp [updateFlowLossVolume, htKfsViGet, htKfsViSet, htKfsVfSet, htKfsFixSizeGet,
    Mutex.rank, hH, keeps_lookup (h3 _), keeps_set (h3 _), keeps_updateFlowSelectedLevelMap (h3 _),
    keeps_samplePacketFixSizeMapSender (h3 _), keeps_htKfsFixSizeAddValue (h3 _)]

end Updates

section Threads

/-- A table that is created and stored: when it cannot be allocated, the function returns. -/
theorem keeps_create {site : Site} {inner : Code} {store : Pointer → Warehouse → Warehouse}
    (hi : ∀ N, Keeps inner N R H ↔ N H) :
    Keeps (create site inner (storeOrReturn store)) N R H ↔ N H ∧ (MayFail site → R H) := by
  simp [create, storeOrReturn, hi]

theorem keeps_htKfsFixSizeCreate {site : Site} {store : Pointer → Warehouse → Warehouse} :
    Keeps (htKfsFixSizeCreate site (storeOrReturn store)) N R H ↔ N H ∧ (MayFail site → R H) :=
  keeps_create fun N => by
    simpa using fun hN (_ : MayFail .fixSizeTable) => hN

theorem keeps_cmHandleIpv4Packet (hH : Below Mutex.rank 2 H) :
    Keeps cmHandleIpv4Packet N R H ↔ N H := by
  have h3 : Below Mutex.rank 3 H := hH.mono (Nat.le_succ 2)
  simp [cmHandleIpv4Packet, htKfsViGet, keeps_lookup h3, keeps_htVlSet h3, keeps_samplePacket h3,
    keeps_updateFlowNotSampledVolume h3, keeps_updateFlowNormalVolume hH]

theorem keeps_sendPackets : Keeps sendPackets (· = []) (· = []) [] := by
  simp [sendPackets, keeps_cmHandleIpv4Packet]

theorem keeps_flowInforUpdate : Keeps flowInforUpdate (· = []) (· = []) [] := by
  simp [flowInforUpdate, keeps_htVlGetReceLostVolume, keeps_updateFlowLossVolume]

theorem keeps_writeIntervalInfoToFile (hH : Below Mutex.rank 3 H) :
    Keeps writeIntervalInfoToFile N R H ↔ N H := by
  simp [writeIntervalInfoToFile, whileNext, htKfsVfNext, htKfsViNext, keeps_next hH]

theorem keeps_writeLastSentFlowSelectedLevelMapLostTargetFlow (hH : Below Mutex.rank 3 H) :
    Keeps writeLastSentFlowSelectedLevelMapLostTargetFlow N R H ↔ N H := by
  simp [writeLastSentFlowSelectedLevelMapLostTargetFlow, whileNext, htKfsViNext, htKfsViGet,
    keeps_next hH, keeps_lookup hH]

theorem keeps_writeTargetFlowsToFile (hH : Below Mutex.rank 3 H) :
    Keeps writeTargetFlowsToFile N R H ↔ N H := by
  simp [writeTargetFlowsToFile, whileNext, htKfsViNext, htKfsViGet, htKfsVfGet, htKfsFixSizeGet,
    keeps_next hH, keeps_lookup hH]

theorem keeps_dataWarehouseResetNoactiveBuf :
    Keeps dataWarehouseResetNoactiveBuf N R H ↔ N H := by
  simp [dataWarehouseResetNoactiveBuf, htKfsViDestory, htKfsVfDestory, htKfsFixSizeDestory,
    htKfsViCreate, htKfsVfCreate, keeps_create, keeps_htKfsFixSizeCreate]

theorem keeps_rotateInterval : Keeps rotateInterval (· = []) (· = []) [] := by
  have h3 : Below Mutex.rank 3 [.dataWarehouseMutex] := by simp [Mutex.rank]
  simp [rotateInterval, dataWareRotateBuffer, keeps_writeIntervalInfoToFile h3,
    keeps_writeLastSentFlowSelectedLevelMapLostTargetFlow h3, keeps_writeTargetFlowsToFile h3,
    keeps_dataWarehouseResetNoactiveBuf]

/-- The condition-sending thread never returns, unless the map of the sent conditions cannot be
allocated. -/
theorem keeps_sendConditionToNetwork :
    Keeps sendConditionToNetwork (fun _ => False) (fun _ => False) [] := by
  have h3 : Below Mutex.rank 3 [.dataWarehouseMutex, .packetSendMutex] := by simp [Mutex.rank]
  simp [sendConditionToNetwork, whileNext, htKfsViNext, htKfsViGet, htKfsViSet, htKfsViDestory,
    htKfsViCreate, keeps_next h3, keeps_lookup h3, keeps_set h3, keeps_create, Mutex.rank, MayFail]

/-- What the locks of a thread satisfy when it has returned. -/
def AtReturn : ThreadName → List Mutex → Prop
  | .conditionSending => fun _ => False
  | _ => (· = [])

theorem keeps_main (i : ThreadName) : Keeps (main i) (AtReturn i) (AtReturn i) [] := by
  cases i with
  | sending => exact keeps_sendPackets
  | flowInfo => exact keeps_flowInforUpdate
  | rotating => exact keeps_rotateInterval
  | conditionSending => exact keeps_sendConditionToNetwork

end Threads

theorem Mutex.rank_lt (m : Mutex) : m.rank < 4 := by
  cases m <;> simp [rank]

/-- The sender's process, from the warehouse that `data_warehouse_init` builds. -/
abbrev sender : Machine ThreadName Warehouse Mutex Site := start dataWarehouseInit main

variable {s : Machine ThreadName Warehouse Mutex Site} {es : List (ThreadName × Choice)}

/-- Where no step is undefined and the map of the sent conditions is allocated, every function
returns with the locks it was entered with, no thread returns with a lock, and some thread can
always take a step. -/
theorem locks_released (hr : process.run sender es = some s)
    (hok : process.Meets (Machine.Allowed MayFail) sender es) :
    (∀ i entry rest, (s.threads i).todo = .leave entry :: rest → (s.threads i).held = entry)
      ∧ (∀ i, s.Returned i → (s.threads i).held = [])
      ∧ ∃ e s', process.step s e = some s' := by
  have hI := Machine.sound keeps_main hok hr
  have hnil : ∀ i H, AtReturn i H → H = [] := by
    intro i H h
    cases i with
    | conditionSending => exact h.elim
    | _ => exact h
  refine ⟨fun i entry rest hi => hI.held_of_leave hi,
    fun i hi => hnil i _ (hI.held_of_returned hi), ?_⟩
  exact hI.exists_step Mutex.rank_lt hnil (i := .conditionSending) hI.held_of_returned

/-- The condition-sending thread enters its loop and takes the first mutex. -/
def intoLoop : List (ThreadName × Choice) := List.replicate 3 (.conditionSending, .go)

theorem locks_released_intoLoop : ∃ s, process.run sender intoLoop = some s
    ∧ (s.threads .conditionSending).held = [.packetSendMutex]
    ∧ (∀ i, s.Returned i → (s.threads i).held = [])
    ∧ ∃ e s', process.step s e = some s' := by
  have hok : process.Meets (Machine.Allowed MayFail) sender intoLoop := by
    refine ⟨⟨nofun, nofun⟩, fun s₁ h₁ => ?_⟩
    cases h₁
    refine ⟨⟨nofun, nofun⟩, fun s₂ h₂ => ?_⟩
    cases h₂
    exact ⟨⟨nofun, nofun⟩, fun _ _ => trivial⟩
  obtain ⟨s, hr, hheld⟩ : ∃ s, process.run sender intoLoop = some s
      ∧ (s.threads .conditionSending).held = [.packetSendMutex] := ⟨_, rfl, rfl⟩
  exact ⟨s, hr, hheld, (locks_released hr hok).2⟩

/-- An iteration meets an empty bin. -/
def emptyBin (bin : ℕ) : List Choice :=
  [.go, .go, .right, .go, .nth bin, .go, .go, .go, .go, .right, .go]

/-- An iteration over a table without entries: the call, each of the bins, and the return. -/
def emptyTable : List Choice :=
  ([.go, .go, .go, .right, .go, .go, .right, .go] : List Choice)
    ++ ((List.range hashMapSize.toNat).flatMap emptyBin
    ++ ([.go, .go, .left, .go, .go] : List Choice))

/-- Two empty maps of conditions are compared, and the copy of the current one cannot be
allocated. -/
def failingCopy : List Choice :=
  ([.go, .go, .go, .go, .go, .go, .go, .go, .go] : List Choice)
    ++ (emptyTable ++ (([.left, .go, .go, .go] : List Choice) ++ (emptyTable
    ++ ([.left, .go, .go, .go, .go, .go, .go, .go, .right, .go, .go, .go] : List Choice))))

/-- The condition-sending thread's mutexes while it compares the maps. -/
abbrev sendingMutexes : List Mutex := [.dataWarehouseMutex, .packetSendMutex]

theorem runAlone_emptyTable {t : ℕ} (ht : t ∈ dataWarehouseInit.live)
    (rest : List (Item Warehouse Mutex Site)) :
    runAlone dataWarehouseInit ⟨.code (next (some t)) :: rest, sendingMutexes⟩ emptyTable
      = some (dataWarehouseInit, ⟨rest, sendingMutexes⟩) := by
  have hcall : runAlone dataWarehouseInit ⟨.code (next (some t)) :: rest, sendingMutexes⟩
      [.go, .go, .go, .right, .go, .go, .right, .go] = some (dataWarehouseInit,
        ⟨.code (.forever (nextBin t)) :: .leave sendingMutexes :: rest, sendingMutexes⟩) := by
    simp [runAlone, advance, next, access, block, ht]
  have hbin : ∀ bin, runAlone dataWarehouseInit
      ⟨.code (.forever (nextBin t)) :: .leave sendingMutexes :: rest, sendingMutexes⟩
      (emptyBin bin) = some (dataWarehouseInit,
        ⟨.code (.forever (nextBin t)) :: .leave sendingMutexes :: rest, sendingMutexes⟩) := by
    intro bin
    simp [emptyBin, runAlone, advance, nextBin, access, block, ht]
  rw [emptyTable, runAlone_append hcall, runAlone_append (runAlone_flatMap hbin _)]
  rfl

theorem runAlone_failingCopy :
    runAlone dataWarehouseInit ⟨[.code sendConditionToNetwork], []⟩ failingCopy
      = some ({ dataWarehouseInit with live := (List.range 16).erase 1,
                                       lastSentFlowSelectedLevelMap := none },
          ⟨[], sendingMutexes⟩) := by
  have h6 := runAlone_emptyTable (t := 6) (by decide)
  have h1 := runAlone_emptyTable (t := 1) (by decide)
  calc runAlone dataWarehouseInit ⟨[.code sendConditionToNetwork], []⟩ failingCopy
    _ = runAlone dataWarehouseInit ⟨.code (next (some 6)) :: _, sendingMutexes⟩ _ :=
      runAlone_append rfl _
    _ = _ := runAlone_append (h6 _) _
    _ = runAlone dataWarehouseInit ⟨.code (next (some 1)) :: _, sendingMutexes⟩ _ :=
      runAlone_append rfl _
    _ = _ := runAlone_append (h1 _) _
    _ = _ := rfl

/-- The condition-sending thread returns with both of its mutexes. -/
theorem failingCopy_locks : ∃ s, process.run sender
      (failingCopy.map fun x => (ThreadName.conditionSending, x)) = some s
    ∧ s.Returned .conditionSending ∧ (s.threads .conditionSending).held = sendingMutexes :=
  ⟨_, Machine.run_alone rfl (fun _ _ => rfl) runAlone_failingCopy, rfl, rfl⟩

end CMTestbed.Locking
