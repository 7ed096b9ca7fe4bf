import CMTestbed.HostLogs
import CMTestbed.TaskFiles
import Mathlib.Data.List.Sort

/-!
# The results of the calculators

What the calculators of the queries and of methods 2, 3 and 4 make of the target flows of the hosts
and the flows of the switches.  The quotients are floats, read as exact.
-/

namespace CMTestbed

/-- `sorted(d.items(), key=lambda pair: pair[0])` -/
def Dict.sortedItems {V : Type*} (d : Dict ℕ V) : List (ℕ × V) :=
  d.items.insertionSort fun a b => a.1 ≤ b.1

namespace Dict

variable {V : Type*} {d : Dict ℕ V}

theorem mem_sortedItems {k : ℕ} {v : V} : (k, v) ∈ d.sortedItems ↔ d.lookup k = some v := by
  rw [sortedItems, List.mem_insertionSort, mem_items]

theorem sortedItems_keys_nodup (d : Dict ℕ V) : (d.sortedItems.map Prod.fst).Nodup :=
  ((List.perm_insertionSort _ d.items).map Prod.fst).nodup_iff.2 d.items_keys_nodup

theorem sortedItems_increasing (d : Dict ℕ V) :
    d.sortedItems.Pairwise fun a b => a.1 < b.1 := by
  have hle : d.sortedItems.Pairwise fun a b => a.1 ≤ b.1 :=
    List.pairwise_insertionSort (fun a b : ℕ × V => a.1 ≤ b.1) d.items
  have hne := List.pairwise_map.1 d.sortedItems_keys_nodup
  exact (hle.and hne).imp fun h => lt_of_le_of_ne h.1 h.2

/-- The rounds but the first are those with an earlier one. -/
theorem mem_drop_sortedItems {k : ℕ} {v : V} : (k, v) ∈ d.sortedItems.drop 1
    ↔ d.lookup k = some v ∧ ∃ first ∈ d, first < k := by
  have hinc := d.sortedItems_increasing
  have hmem : ∀ first, first ∈ d ↔ ∃ x ∈ d.sortedItems, x.1 = first := by
    intro first
    rw [← AList.lookup_isSome, Option.isSome_iff_exists]
    constructor
    · rintro ⟨w, hw⟩
      exact ⟨(first, w), mem_sortedItems.2 hw, rfl⟩
    · rintro ⟨⟨k, w⟩, hx, rfl⟩
      exact ⟨w, mem_sortedItems.1 hx⟩
  simp only [← mem_sortedItems, hmem]
  cases hl : d.sortedItems with
  | nil => simp
  | cons a l =>
    rw [hl, List.pairwise_cons] at hinc
    rw [List.drop_one, List.tail_cons]
    constructor
    · exact fun hk => ⟨List.mem_cons_of_mem _ hk, a.1, ⟨a, List.mem_cons_self, rfl⟩, hinc.1 _ hk⟩
    · rintro ⟨hk, first, ⟨x, hx, rfl⟩, hlt⟩
      rcases List.mem_cons.1 hk with rfl | hk
      · rcases List.mem_cons.1 hx with rfl | hx
        · exact absurd hlt (lt_irrefl _)
        · exact absurd hlt (hinc.1 x hx).asymm
      · exact hk

end Dict

section Collect

variable {K V W : Type} [DecidableEq K]

/-- A dictionary that a loop fills, with an entry for each item. -/
def collect (f : K × V → Except PyError W) (l : List (K × V)) (d : Dict K W) :
    Except PyError (Dict K W) :=
  l.foldlM (fun d item => do
    let w ← f item
    return d.insert item.1 w) d

variable {f : K × V → Except PyError W} {l : List (K × V)} {d : Dict K W}

theorem exists_of_collect {d' : Dict K W} (h : collect f l d = .ok d') {item : K × V}
    (hitem : item ∈ l) : ∃ w, f item = .ok w := by
  obtain ⟨c, c', hc⟩ := exists_of_foldlM_eq_ok h hitem
  obtain ⟨w, hw, -⟩ := bind_eq_ok.1 hc
  exact ⟨w, hw⟩

theorem collect_spec (hl : (l.map Prod.fst).Nodup) (h : ∀ item ∈ l, ∃ w, f item = .ok w) :
    ∃ d', collect f l d = .ok d'
      ∧ (∀ item ∈ l, ∃ w, f item = .ok w ∧ d'.lookup item.1 = some w)
      ∧ ∀ k ∉ l.map Prod.fst, d'.lookup k = d.lookup k := by
  induction l generalizing d with
  | nil => exact ⟨d, rfl, nofun, fun _ _ => rfl⟩
  | cons item l ih =>
    rw [List.map_cons, List.nodup_cons] at hl
    rw [List.forall_mem_cons] at h
    obtain ⟨w, hw⟩ := h.1
    obtain ⟨d', hd', hitems, hothers⟩ := ih (d := d.insert item.1 w) hl.2 h.2
    refine ⟨d', ?_, List.forall_mem_cons.2 ⟨⟨w, hw, ?_⟩, hitems⟩, fun k hk => ?_⟩
    · rw [collect, List.foldlM_cons, hw]
      exact hd'
    · rw [hothers _ hl.1, AList.lookup_insert]
    · rw [List.map_cons, List.mem_cons, not_or] at hk
      rw [hothers k hk.2, AList.lookup_insert_ne hk.1]

theorem exists_of_lookup_collect (hl : (l.map Prod.fst).Nodup) {d' : Dict K W}
    (h : collect f l ∅ = .ok d') {k : K} {w : W} (hk : d'.lookup k = some w) :
    ∃ v, (k, v) ∈ l ∧ f (k, v) = .ok w := by
  obtain ⟨d₁, hd₁, hitems, hothers⟩ :=
    collect_spec (d := ∅) hl fun _ hitem => exists_of_collect h hitem
  rw [h] at hd₁
  cases hd₁
  by_cases hmem : k ∈ l.map Prod.fst
  · obtain ⟨⟨k, v⟩, hitem, rfl⟩ := List.mem_map.1 hmem
    obtain ⟨w', hw', hlookup⟩ := hitems _ hitem
    rw [hk] at hlookup
    cases hlookup
    exact ⟨v, hitem, hw'⟩
  · rw [hothers k hmem] at hk
    cases hk

end Collect

/-- `1.0 * a / b` -/
def pyDiv (a b : ℚ) : Except PyError ℚ :=
  if b = 0 then .error .zeroDivisionError else .ok (a / b)

/-- The same where `b > 0`, and the 0 it starts from elsewhere. -/
def divOrZero (a b : ℚ) : Except PyError ℚ := if b > 0 then pyDiv a b else .ok 0

theorem divOrZero_eq_ok (a b : ℚ) : divOrZero a b = .ok (if b > 0 then a / b else 0) := by
  rw [divOrZero]
  split
  · next hpos => exact if_neg hpos.ne'
  · rfl

/-- A share, or 0 of nothing. -/
theorem divOrZero_cast (a : ℚ) (n : ℕ) : divOrZero a n = .ok (a / n) := by
  rw [divOrZero_eq_ok]
  split
  · rfl
  · next hpos =>
    have hzero : n = 0 := by
      by_contra hne
      exact hpos (Nat.cast_pos.2 (Nat.pos_of_ne_zero hne))
    rw [hzero, Nat.cast_zero, div_zero]

/-! ## The queries -/

namespace Query

/-- `switch_flow_info_c` of the queries' calculator. -/
structure SwitchFlowInfo where
  realVolume : ℤ
  capturedVolume : ℤ
  deriving DecidableEq, Repr

/-- `switch_rounds_flow_map` -/
abbrev SwitchRounds := Dict ℕ (Dict (List UInt8) SwitchFlowInfo)

/-- `one_task_result_c` -/
structure OneTaskResult where
  targetFlowNum : ℕ
  fnNum : ℕ
  fn : ℚ
  accuracy : ℚ
  deriving DecidableEq, Repr

def SENDERS_START_IP_PREFIX : ℕ := 0x0a000000
def ONE_SENDER_IP_NUM : ℕ := 0x01000000
def IP_MASK : ℕ := 0xff000000

def flowBelongsToTask (oneTask : ScriptTask) (srcip dstip : ℕ) : Bool :=
  let taskSenderIpPrefix : ℤ :=
    SENDERS_START_IP_PREFIX + (oneTask.senderHostid - 1) * ONE_SENDER_IP_NUM
  let taskReceIpPrefix : ℤ :=
    SENDERS_START_IP_PREFIX + (oneTask.receHostid - 1) * ONE_SENDER_IP_NUM
  let srcipPrefix : ℤ := (srcip &&& IP_MASK : ℕ)
  let dstipPrefix : ℤ := (dstip &&& IP_MASK : ℕ)
  srcipPrefix == taskSenderIpPrefix && dstipPrefix == taskReceIpPrefix

/-- What the switches have of a flow. -/
structure FlowTotals where
  flowTotalVolume : ℤ
  flowTotalCapturedVolume : ℤ
  capturedByAllObservedSwitches : Bool

def addSwitch (oneTask : ScriptTask) (roundSec : ℕ) (flowKey : List UInt8) (s : FlowTotals)
    (switch : ℤ × SwitchRounds) : Except PyError FlowTotals :=
  let (switchid, switchRoundsFlowMap) := switch
  if switchid ∉ oneTask.selectorsSwitchIdMap then return s
  else do
    let roundFlowMapOfSwitch ← switchRoundsFlowMap.getItem roundSec
    match roundFlowMapOfSwitch.lookup flowKey with
    | none => return s
    | some switchFlowInfo => return {
        flowTotalVolume := s.flowTotalVolume + switchFlowInfo.realVolume
        flowTotalCapturedVolume := s.flowTotalCapturedVolume + switchFlowInfo.capturedVolume
        capturedByAllObservedSwitches :=
          if switchFlowInfo.realVolume > 0 ∧ switchFlowInfo.capturedVolume ≤ 0 then false
          else s.capturedByAllObservedSwitches }

/-- What is added up over the target flows of a task. -/
structure TaskTotals where
  allTargetFlowNum : ℕ
  falseNegativeTargetFlowNum : ℕ
  truePositiveTargetFlowNum : ℕ
  truePositiveTargetFlowAccuracySum : ℚ

def TaskTotals.zero : TaskTotals := ⟨0, 0, 0, 0⟩

def addTargetFlow (oneTask : ScriptTask) (switchesRoundsFlowInfo : Dict ℤ SwitchRounds)
    (roundSec : ℕ) (s : TaskTotals) (flow : List UInt8 × HostTargetFlowInfo) :
    Except PyError TaskTotals := do
  let (flowKey, hostTargetFlow) := flow
  if !flowBelongsToTask oneTask hostTargetFlow.srcip hostTargetFlow.dstip then return s
  else
    let totals ←
      switchesRoundsFlowInfo.items.foldlM (addSwitch oneTask roundSec flowKey) ⟨0, 0, true⟩
    if totals.flowTotalVolume = 0 then
      -- the message names `switchid`, the variable of the loop
      if switchesRoundsFlowInfo.items = [] then .error .unboundLocalError else return s
    else if !totals.capturedByAllObservedSwitches then
      return { s with
        allTargetFlowNum := s.allTargetFlowNum + 1
        falseNegativeTargetFlowNum := s.falseNegativeTargetFlowNum + 1 }
    else
      let accuracy ← pyDiv totals.flowTotalCapturedVolume totals.flowTotalVolume
      return { s with
        allTargetFlowNum := s.allTargetFlowNum + 1
        truePositiveTargetFlowNum := s.truePositiveTargetFlowNum + 1
        truePositiveTargetFlowAccuracySum := s.truePositiveTargetFlowAccuracySum + accuracy }

def addRound (oneTask : ScriptTask) (switchesRoundsFlowInfo : Dict ℤ SwitchRounds)
    (s : TaskTotals) (round : ℕ × Dict (List UInt8) HostTargetFlowInfo) :
    Except PyError TaskTotals :=
  round.2.items.foldlM (addTargetFlow oneTask switchesRoundsFlowInfo round.1) s

def TaskTotals.result (s : TaskTotals) : Except PyError OneTaskResult := do
  let avgAccuracy ← divOrZero s.truePositiveTargetFlowAccuracySum s.truePositiveTargetFlowNum
  let falseNegativeRatio ← divOrZero s.falseNegativeTargetFlowNum s.allTargetFlowNum
  return {
    targetFlowNum := s.allTargetFlowNum
    fnNum := s.falseNegativeTargetFlowNum
    fn := falseNegativeRatio
    accuracy := avgAccuracy }

/-- A task's turn; the first round is left out. -/
def calculateMetricsForTask (hostsRoundsTargetFlowsMap : Dict ℤ HostRounds)
    (switchesRoundsFlowInfo : Dict ℤ SwitchRounds) (oneTask : ScriptTask) :
    Except PyError OneTaskResult := do
  let roundsTargetFlowsMap ← hostsRoundsTargetFlowsMap.getItem oneTask.senderHostid
  let s ← (roundsTargetFlowsMap.sortedItems.drop 1).foldlM
    (addRound oneTask switchesRoundsFlowInfo) TaskTotals.zero
  s.result

/-- `calculate_metrics_for_tasks`, with the results in `task_result_map`. -/
def calculateMetricsForTasks (taskMap : Dict (List Char) ScriptTask)
    (hostsRoundsTargetFlowsMap : Dict ℤ HostRounds)
    (switchesRoundsFlowInfo : Dict ℤ SwitchRounds) :
    Except PyError (Dict (List Char) OneTaskResult) :=
  collect (fun task =>
    calculateMetricsForTask hostsRoundsTargetFlowsMap switchesRoundsFlowInfo task.2)
    taskMap.items ∅

end Query

/-! ## Method 4 -/

/-- `global_target_flow_map` -/
abbrev TargetFlows := Dict (List UInt8) ℕ

namespace Method4

/-- What the switches have of a source. -/
structure SrcipTotals where
  isTargetFlowThroughSwitches : Bool
  isFalseNegative : Bool
  srcipVolumeAmongSwitches : ℕ
  srcipCapturedVolumeAmongSwitches : ℤ

/-- The loop over the switches, which ends at one that has missed the flow. -/
def throughSwitches (sec : ℕ) (srcip : List UInt8) :
    List (ℕ × Rounds) → SrcipTotals → SrcipTotals
  | [], s => s
  | (_, switchRoundsFlowMap) :: switches, s =>
    match switchRoundsFlowMap.lookup sec with
    | none => throughSwitches sec srcip switches s
    | some switchSecFlowMap =>
      match switchSecFlowMap.lookup srcip with
      | none => throughSwitches sec srcip switches s
      | some flowInfo =>
        if flowInfo.realVolume ≤ 0 then throughSwitches sec srcip switches s
        else if flowInfo.capturedVolume ≤ 0 then
          { s with isTargetFlowThroughSwitches := true, isFalseNegative := true }
        else throughSwitches sec srcip switches { s with
          isTargetFlowThroughSwitches := true
          srcipVolumeAmongSwitches := s.srcipVolumeAmongSwitches + flowInfo.realVolume
          srcipCapturedVolumeAmongSwitches :=
            s.srcipCapturedVolumeAmongSwitches + flowInfo.capturedVolume }

/-- What is added up over the target flows of a round. -/
structure RoundTotals where
  allTargetFlowNum : ℕ
  falseNegativeNum : ℕ
  allAccuracy : ℚ
  allCapturedTargetFlowNum : ℕ

def RoundTotals.zero : RoundTotals := ⟨0, 0, 0, 0⟩

def addSrcip (switchesRoundsFlowInfo : Dict ℕ Rounds) (sec : ℕ) (s : RoundTotals)
    (srcip : List UInt8) : Except PyError RoundTotals := do
  let totals := throughSwitches sec srcip switchesRoundsFlowInfo.items ⟨false, false, 0, 0⟩
  if !totals.isTargetFlowThroughSwitches then return s
  else if totals.isFalseNegative then
    return { s with
      allTargetFlowNum := s.allTargetFlowNum + 1
      falseNegativeNum := s.falseNegativeNum + 1 }
  else
    let accuracy ← pyDiv totals.srcipCapturedVolumeAmongSwitches totals.srcipVolumeAmongSwitches
    return { s with
      allTargetFlowNum := s.allTargetFlowNum + 1
      allCapturedTargetFlowNum := s.allCapturedTargetFlowNum + 1
      allAccuracy := s.allAccuracy + accuracy }

/-- The ratios of a round, as they are printed and go into `fn_list` and `accuracy_list`. -/
structure RoundRatios where
  sec : ℕ
  allTargetFlowNum : ℕ
  falseNegativeRatio : ℚ
  capturedFlowsAvgAccuracy : ℚ
  deriving DecidableEq, Repr

def ratiosOfRound (switchesRoundsFlowInfo : Dict ℕ Rounds) (sec : ℕ)
    (globalTargetFlowMap : TargetFlows) : Except PyError RoundRatios := do
  let s ← globalTargetFlowMap.keys.foldlM (addSrcip switchesRoundsFlowInfo sec) RoundTotals.zero
  let falseNegativeRatio ← pyDiv s.falseNegativeNum s.allTargetFlowNum
  let capturedFlowsAvgAccuracy ← pyDiv s.allAccuracy s.allCapturedTargetFlowNum
  return ⟨sec, s.allTargetFlowNum, falseNegativeRatio, capturedFlowsAvgAccuracy⟩

/-- The loop of `calculate_result_method4`; a round with few target flows is left out. -/
def calculateResultMethod4 (globalRoundsTargetFlows : Dict ℕ TargetFlows)
    (switchesRoundsFlowInfo : Dict ℕ Rounds) : Except PyError (List RoundRatios) :=
  globalRoundsTargetFlows.sortedItems.foldlM (fun rounds round => do
    if round.2.keys.length < 800 then return rounds
    else
      let ratios ← ratiosOfRound switchesRoundsFlowInfo round.1 round.2
      return rounds ++ [ratios]) []

end Method4

/-! ## Methods 2 and 3 -/

/-- `switch_one_round_result_c` -/
structure SwitchOneRoundResult where
  allVolumeOneInterval : ℕ
  allFlowNumOneInterval : ℕ
  realTargetFlowNum : ℕ
  fn : ℚ
  fp : ℚ
  accuracy : ℚ
  fnNum : ℕ
  fnNumNotTargetflow : ℕ
  fnNumNotCaptured : ℕ
  conditionPktNum : ℕ
  deriving DecidableEq, Repr

/-- The counters of the flows of a round. -/
structure RoundCounters where
  allVolumeOneInterval : ℕ
  realTargetFlowNum : ℕ
  falseNegativeNum : ℕ
  fnNumNotTargetflow : ℕ
  fnNumNotCaptured : ℕ
  fnNumNotSentOutAtSender : ℕ
  fnNumReceivedAndHashmapCollision : ℕ
  fnNumSentNotReceive : ℕ

def RoundCounters.zero : RoundCounters := ⟨0, 0, 0, 0, 0, 0, 0, 0⟩

/-- Method 2's loop over the flows. -/
def RoundCounters.count (globalTargetFlowMap globalNotSentOutTargetflowMap : TargetFlows)
    (s : RoundCounters) (flow : List UInt8 × SwitchFlowInfo) : RoundCounters :=
  let (srcip, flowInfo) := flow
  let s := { s with allVolumeOneInterval := s.allVolumeOneInterval + flowInfo.realVolume }
  if srcip ∉ globalTargetFlowMap then s
  else
    let s := { s with realTargetFlowNum := s.realTargetFlowNum + 1 }
    let s :=
      if flowInfo.signedTarget ≤ 0 then
        let s := { s with fnNumNotTargetflow := s.fnNumNotTargetflow + 1 }
        if srcip ∈ globalNotSentOutTargetflowMap then
          { s with fnNumNotSentOutAtSender := s.fnNumNotSentOutAtSender + 1 }
        else if flowInfo.targetSwitchReceived = 1 then
          { s with fnNumReceivedAndHashmapCollision := s.fnNumReceivedAndHashmapCollision + 1 }
        else { s with fnNumSentNotReceive := s.fnNumSentNotReceive + 1 }
      else s
    let s :=
      if flowInfo.capturedVolume ≤ 0 then { s with fnNumNotCaptured := s.fnNumNotCaptured + 1 }
      else s
    if flowInfo.capturedVolume ≤ 0 ∨ flowInfo.signedTarget ≤ 0 then
      { s with falseNegativeNum := s.falseNegativeNum + 1 }
    else s

/-- Method 3's loop over the target flows. -/
def isFn (switchFlowInfoMap : Dict (List UInt8) SwitchFlowInfo) (srcip : List UInt8) : Bool :=
  match switchFlowInfoMap.lookup srcip with
  | some flowInfo => !decide (flowInfo.capturedVolume > 0)
  | none => true

/-- The counters and the false negative ratio.  Method 3 has method 2's loop in a string. -/
def Method.falseNegatives (m : Method)
    (globalTargetFlowMap globalNotSentOutTargetflowMap : TargetFlows)
    (switchFlowInfoMap : Dict (List UInt8) SwitchFlowInfo) :
    Except PyError (RoundCounters × ℚ) :=
  match m with
  | method2 => do
    let s := switchFlowInfoMap.items.foldl
      (RoundCounters.count globalTargetFlowMap globalNotSentOutTargetflowMap) RoundCounters.zero
    let falseNegativeRatio ← divOrZero s.falseNegativeNum s.realTargetFlowNum
    return (s, falseNegativeRatio)
  | method3 => do
    let falseNegativeNum := globalTargetFlowMap.keys.countP (isFn switchFlowInfoMap)
    let falseNegativeRatio ← pyDiv falseNegativeNum globalTargetFlowMap.keys.length
    return ({ RoundCounters.zero with falseNegativeNum := falseNegativeNum }, falseNegativeRatio)

/-- Whether the accuracy of a target flow counts. -/
def Method.toReport (m : Method) (flowInfo : SwitchFlowInfo) : Bool :=
  match m with
  | method2 => decide (flowInfo.capturedVolume > 0) && decide (flowInfo.signedTarget > 0)
  | method3 => decide (flowInfo.capturedVolume > 0)

def Method.addAccuracy (m : Method) (globalTargetFlowMap : TargetFlows) (s : ℚ × ℕ)
    (flow : List UInt8 × SwitchFlowInfo) : Except PyError (ℚ × ℕ) := do
  let (srcip, flowInfo) := flow
  if srcip ∈ globalTargetFlowMap ∧ m.toReport flowInfo then
    let oneFlowAccuracy ← pyDiv flowInfo.capturedVolume flowInfo.realVolume
    return (s.1 + oneFlowAccuracy, s.2 + 1)
  else return s

/-- The result of a round, and `all_to_report_target_flow_num`. -/
def Method.oneRound (m : Method) (globalTargetFlowMap globalNotSentOutTargetflowMap : TargetFlows)
    (switchFlowInfoMap : Dict (List UInt8) SwitchFlowInfo) (conditionPktNum : ℕ) :
    Except PyError (SwitchOneRoundResult × ℕ) := do
  let allFlowNumOneInterval := switchFlowInfoMap.items.length
  let (s, falseNegativeRatio) ←
    m.falseNegatives globalTargetFlowMap globalNotSentOutTargetflowMap switchFlowInfoMap
  let notTargetFlowNum : ℤ := allFlowNumOneInterval - s.realTargetFlowNum
  let falsePositiveNum := switchFlowInfoMap.items.countP fun flow =>
    flow.1 ∉ globalTargetFlowMap ∧ flow.2.capturedVolume > 0 ∧ flow.2.signedTarget > 0
  let falsePositiveRatio ← divOrZero falsePositiveNum notTargetFlowNum
  let (accuracySum, allToReportTargetFlowNum) ←
    switchFlowInfoMap.items.foldlM (m.addAccuracy globalTargetFlowMap) (0, 0)
  let accuracy ← divOrZero accuracySum allToReportTargetFlowNum
  return ({
    allVolumeOneInterval := s.allVolumeOneInterval
    allFlowNumOneInterval := allFlowNumOneInterval
    realTargetFlowNum := s.realTargetFlowNum
    fn := falseNegativeRatio
    fp := falsePositiveRatio
    accuracy := accuracy
    fnNum := s.falseNegativeNum
    fnNumNotTargetflow := s.fnNumNotTargetflow
    fnNumNotCaptured := s.fnNumNotCaptured
    conditionPktNum := conditionPktNum }, allToReportTargetFlowNum)

/-- A round's turn; a result with few flows is not stored. -/
def Method.addRound (m : Method) (allswitchesConditionPktNum : Dict ℕ ℕ)
    (globalRoundsTargetFlows globalRoundsNotSentOutTargetflows : Dict ℕ TargetFlows)
    (oneSwitchRoundsMap : Dict ℕ SwitchOneRoundResult)
    (round : ℕ × Dict (List UInt8) SwitchFlowInfo) :
    Except PyError (Dict ℕ SwitchOneRoundResult) := do
  let (sec, switchFlowInfoMap) := round
  let conditionPktNum ← allswitchesConditionPktNum.getItem sec
  match globalRoundsTargetFlows.lookup sec with
  | none => return oneSwitchRoundsMap
  | some globalTargetFlowMap =>
    let globalNotSentOutTargetflowMap ← globalRoundsNotSentOutTargetflows.getItem sec
    let (oneResult, allToReportTargetFlowNum) ←
      m.oneRound globalTargetFlowMap globalNotSentOutTargetflowMap switchFlowInfoMap conditionPktNum
    if allToReportTargetFlowNum ≥ 10 then return oneSwitchRoundsMap.insert sec oneResult
    else return oneSwitchRoundsMap

/-- `calculate_rounds_per_switch_result`, with the results in `switches_rounds_result`. -/
def Method.calculateRoundsPerSwitchResult (m : Method) (allswitchesConditionPktNum : Dict ℕ ℕ)
    (globalRoundsTargetFlows : Dict ℕ TargetFlows) (switchesRoundsFlowInfo : Dict ℕ Rounds)
    (globalRoundsNotSentOutTargetflows : Dict ℕ TargetFlows) :
    Except PyError (Dict ℕ (Dict ℕ SwitchOneRoundResult)) :=
  collect (fun switch => switch.2.sortedItems.foldlM
    (m.addRound allswitchesConditionPktNum globalRoundsTargetFlows
      globalRoundsNotSentOutTargetflows) ∅)
    switchesRoundsFlowInfo.items ∅

end CMTestbed
