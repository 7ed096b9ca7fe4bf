import CMTestbed.Lib.Tally
import CMTestbed.Results

/-!
# The metrics of the tasks

A target flow of a task is judged by the volumes that its monitors have of it (`verdict`), and the
loops over the rounds and the flows tally the verdicts.  They raise an error where a monitor has no
record of a round, and where there is no switch to name (`metrics_defined_iff`).
-/

namespace CMTestbed

open Lib (Verdict Tally)

namespace Query

/-- A monitor of the task has this of the flow in the round. -/
def Observed (oneTask : ScriptTask) (switches : Dict ℤ SwitchRounds) (roundSec : ℕ)
    (flowKey : List UInt8) (info : SwitchFlowInfo) : Prop :=
  ∃ switchid rounds flows, switches.lookup switchid = some rounds
    ∧ switchid ∈ oneTask.selectorsSwitchIdMap ∧ rounds.lookup roundSec = some flows
    ∧ flows.lookup flowKey = some info

/-- A target flow of the task in a round but the first. -/
def IsTaskFlow (oneTask : ScriptTask) (rounds : HostRounds) (flow : ℕ × List UInt8) : Prop :=
  (∃ first ∈ rounds, first < flow.1) ∧ ∃ flows info, rounds.lookup flow.1 = some flows
    ∧ flows.lookup flow.2 = some info ∧ flowBelongsToTask oneTask info.srcip info.dstip = true

/-- The target flows of the task that a monitor has seen. -/
def seenFlows (oneTask : ScriptTask) (switches : Dict ℤ SwitchRounds) (rounds : HostRounds) :
    Set (ℕ × List UInt8) :=
  {flow | IsTaskFlow oneTask rounds flow ∧ ∃ info, Observed oneTask switches flow.1 flow.2 info
    ∧ 0 < info.realVolume}

/-- Those of which a monitor that has seen them has captured nothing. -/
def missedFlows (oneTask : ScriptTask) (switches : Dict ℤ SwitchRounds) (rounds : HostRounds) :
    Set (ℕ × List UInt8) :=
  {flow | IsTaskFlow oneTask rounds flow ∧ ∃ info, Observed oneTask switches flow.1 flow.2 info
    ∧ 0 < info.realVolume ∧ info.capturedVolume = 0}

/-- No switch captures more of a flow than went through it. -/
def Bounded (switches : Dict ℤ SwitchRounds) : Prop :=
  ∀ switchid rounds sec flows key info, switches.lookup switchid = some rounds →
    rounds.lookup sec = some flows → flows.lookup key = some info →
    0 ≤ info.capturedVolume ∧ info.capturedVolume ≤ info.realVolume

/-- There is a switch, and every monitor of the task has a record of the round. -/
def HasRound (oneTask : ScriptTask) (switches : Dict ℤ SwitchRounds) (roundSec : ℕ) : Prop :=
  switches ≠ ∅ ∧ ∀ switchid rounds, switches.lookup switchid = some rounds →
    switchid ∈ oneTask.selectorsSwitchIdMap → roundSec ∈ rounds

/-! ## What the switches have of a flow -/

section Observations

variable {oneTask : ScriptTask} {switches : Dict ℤ SwitchRounds} {roundSec : ℕ}
  {flowKey : List UInt8}

/-- What a switch has of a flow, if the task has a monitor on it. -/
def observation (oneTask : ScriptTask) (roundSec : ℕ) (flowKey : List UInt8)
    (switch : ℤ × SwitchRounds) : Option SwitchFlowInfo :=
  if switch.1 ∈ oneTask.selectorsSwitchIdMap then switch.2.entry roundSec flowKey else none

def observations (oneTask : ScriptTask) (switches : Dict ℤ SwitchRounds) (roundSec : ℕ)
    (flowKey : List UInt8) : List SwitchFlowInfo :=
  switches.items.filterMap (observation oneTask roundSec flowKey)

theorem mem_observations {info : SwitchFlowInfo} :
    info ∈ observations oneTask switches roundSec flowKey
      ↔ Observed oneTask switches roundSec flowKey info := by
  rw [observations, List.mem_filterMap]
  constructor
  · rintro ⟨⟨switchid, rounds⟩, hswitch, hobs⟩
    rw [observation] at hobs
    split at hobs
    · next hmem =>
      obtain ⟨flows, hflows, hinfo⟩ := Option.bind_eq_some_iff.1 hobs
      exact ⟨switchid, rounds, flows, Dict.mem_items.1 hswitch, hmem, hflows, hinfo⟩
    · cases hobs
  · rintro ⟨switchid, rounds, flows, hswitch, hmem, hflows, hinfo⟩
    refine ⟨(switchid, rounds), Dict.mem_items.2 hswitch, ?_⟩
    rw [observation, if_pos hmem]
    exact Option.bind_eq_some_iff.2 ⟨flows, hflows, hinfo⟩

def FlowTotals.add (s : FlowTotals) (info : SwitchFlowInfo) : FlowTotals where
  flowTotalVolume := s.flowTotalVolume + info.realVolume
  flowTotalCapturedVolume := s.flowTotalCapturedVolume + info.capturedVolume
  capturedByAllObservedSwitches :=
    if info.realVolume > 0 ∧ info.capturedVolume ≤ 0 then false
    else s.capturedByAllObservedSwitches

/-- A switch adds what it has of the flow; it may have no record of the round. -/
theorem addSwitch_spec (oneTask : ScriptTask) (roundSec : ℕ) (flowKey : List UInt8)
    (s : FlowTotals) (switch : ℤ × SwitchRounds) :
    ((switch.1 ∈ oneTask.selectorsSwitchIdMap → roundSec ∈ switch.2) ∧
      addSwitch oneTask roundSec flowKey s switch
        = .ok ((observation oneTask roundSec flowKey switch).elim s s.add))
    ∨ (switch.1 ∈ oneTask.selectorsSwitchIdMap ∧ roundSec ∉ switch.2) ∧
      addSwitch oneTask roundSec flowKey s switch = .error .keyError := by
  obtain ⟨switchid, rounds⟩ := switch
  by_cases hmem : switchid ∈ oneTask.selectorsSwitchIdMap
  · by_cases hround : roundSec ∈ rounds
    · refine .inl ⟨fun _ => hround, ?_⟩
      obtain ⟨flows, hflows⟩ := Option.isSome_iff_exists.1 (AList.lookup_isSome.2 hround)
      have hget : rounds.getItem roundSec = .ok flows := Dict.getItem_eq_ok.2 hflows
      rw [addSwitch, observation, if_pos hmem, Dict.entry_of_lookup hflows]
      simp only [not_not.2 hmem, if_false, hget]
      cases hinfo : flows.lookup flowKey with
      | none => simp [hinfo, bind, Except.bind, pure, Except.pure]
      | some info => simp [hinfo, bind, Except.bind, pure, Except.pure, FlowTotals.add]
    · refine .inr ⟨⟨hmem, hround⟩, ?_⟩
      have hget : rounds.getItem roundSec = .error .keyError := by
        rw [Dict.getItem, AList.lookup_eq_none.2 hround]
      rw [addSwitch]
      simp only [not_not.2 hmem, if_false, hget]
      rfl
  · refine .inl ⟨fun h => absurd h hmem, ?_⟩
    rw [observation, if_neg hmem]
    exact if_pos hmem

/-- The totals are those of what the monitors have of the flow. -/
theorem foldlM_addSwitch_spec (s : FlowTotals)
    (h : ∀ switchid rounds, switches.lookup switchid = some rounds →
      switchid ∈ oneTask.selectorsSwitchIdMap → roundSec ∈ rounds) :
    switches.items.foldlM (addSwitch oneTask roundSec flowKey) s
      = .ok ((observations oneTask switches roundSec flowKey).foldl FlowTotals.add s) := by
  rw [observations, List.foldl_filterMap]
  refine foldlM_eq_ok (fun switch hswitch s => ?_) s
  rcases addSwitch_spec oneTask roundSec flowKey s switch with ⟨-, hok⟩ | ⟨⟨hmem, hround⟩, -⟩
  · rw [hok]
    cases observation oneTask roundSec flowKey switch <;> rfl
  · exact absurd (h switch.1 switch.2 (Dict.mem_items.1 hswitch) hmem) hround

theorem hasRound_of_foldlM_addSwitch {s s' : FlowTotals}
    (h : switches.items.foldlM (addSwitch oneTask roundSec flowKey) s = .ok s') (switchid : ℤ)
    (rounds : SwitchRounds) (hswitch : switches.lookup switchid = some rounds)
    (hmem : switchid ∈ oneTask.selectorsSwitchIdMap) : roundSec ∈ rounds := by
  obtain ⟨c, c', hc⟩ := exists_of_foldlM_eq_ok h (Dict.mem_items.2 hswitch)
  rcases addSwitch_spec oneTask roundSec flowKey c (switchid, rounds) with
    ⟨hround, -⟩ | ⟨-, herr⟩
  · exact hround hmem
  · rw [herr] at hc
    cases hc

end Observations

/-! ## The verdict on a flow -/

def judge (infos : List SwitchFlowInfo) : Verdict ℚ :=
  let totals := infos.foldl FlowTotals.add ⟨0, 0, true⟩
  if totals.flowTotalVolume = 0 then .out
  else if !totals.capturedByAllObservedSwitches then .missed
  else .captured (totals.flowTotalCapturedVolume / totals.flowTotalVolume)

section Judge

variable {infos : List SwitchFlowInfo}

/-- The totals over volumes that are not negative. -/
theorem foldl_add_spec (h : ∀ i ∈ infos, 0 ≤ i.capturedVolume ∧ i.capturedVolume ≤ i.realVolume)
    {s : FlowTotals}
    (hs : 0 ≤ s.flowTotalCapturedVolume ∧ s.flowTotalCapturedVolume ≤ s.flowTotalVolume) :
    (0 ≤ (infos.foldl FlowTotals.add s).flowTotalCapturedVolume
      ∧ (infos.foldl FlowTotals.add s).flowTotalCapturedVolume
        ≤ (infos.foldl FlowTotals.add s).flowTotalVolume)
    ∧ ((infos.foldl FlowTotals.add s).flowTotalVolume = 0
      ↔ s.flowTotalVolume = 0 ∧ ∀ i ∈ infos, i.realVolume = 0)
    ∧ ((infos.foldl FlowTotals.add s).capturedByAllObservedSwitches = true
      ↔ s.capturedByAllObservedSwitches = true
        ∧ ∀ i ∈ infos, ¬ (0 < i.realVolume ∧ i.capturedVolume = 0)) := by
  induction infos generalizing s with
  | nil => exact ⟨hs, by simp, by simp⟩
  | cons i infos ih =>
    rw [List.forall_mem_cons] at h
    obtain ⟨⟨h₀, h₁⟩, hrest⟩ := h
    obtain ⟨hvol, hzero, hflag⟩ := ih hrest (s := s.add i)
      ⟨add_nonneg hs.1 h₀, add_le_add hs.2 h₁⟩
    refine ⟨hvol, hzero.trans ?_, hflag.trans ?_⟩
    · have hsum : (s.add i).flowTotalVolume = 0 ↔ s.flowTotalVolume = 0 ∧ i.realVolume = 0 := by
        show s.flowTotalVolume + i.realVolume = 0 ↔ _
        omega
      rw [hsum, List.forall_mem_cons, and_assoc]
    · have hone : (s.add i).capturedByAllObservedSwitches = true
          ↔ s.capturedByAllObservedSwitches = true
            ∧ ¬ (0 < i.realVolume ∧ i.capturedVolume = 0) := by
        rw [FlowTotals.add]
        by_cases hmiss : i.realVolume > 0 ∧ i.capturedVolume ≤ 0
        · have : 0 < i.realVolume ∧ i.capturedVolume = 0 := ⟨hmiss.1, by omega⟩
          simp [hmiss, this]
        · have : ¬ (0 < i.realVolume ∧ i.capturedVolume = 0) := fun hm =>
            hmiss ⟨hm.1, hm.2.le⟩
          simp only [if_neg hmiss, this, not_false_eq_true, and_true]
      rw [hone, List.forall_mem_cons, and_assoc]

theorem judge_spec (h : ∀ i ∈ infos, 0 ≤ i.capturedVolume ∧ i.capturedVolume ≤ i.realVolume) :
    ((judge infos).isSeen = true ↔ ∃ i ∈ infos, 0 < i.realVolume)
    ∧ ((judge infos).isMissed = true ↔ ∃ i ∈ infos, 0 < i.realVolume ∧ i.capturedVolume = 0)
    ∧ ∀ a, judge infos = .captured a → 0 ≤ a ∧ a ≤ 1 := by
  obtain ⟨⟨h₀, h₁⟩, hzero, hflag⟩ := foldl_add_spec h (s := ⟨0, 0, true⟩) ⟨le_rfl, le_rfl⟩
  have hseen : (¬ ∀ i ∈ infos, i.realVolume = 0) ↔ ∃ i ∈ infos, 0 < i.realVolume := by
    rw [not_forall]
    constructor
    · rintro ⟨i, hi⟩
      rw [Classical.not_imp] at hi
      have := h i hi.1
      exact ⟨i, hi.1, by omega⟩
    · rintro ⟨i, hi, hpos⟩
      exact ⟨i, fun hz => hpos.ne' (hz hi)⟩
  rw [judge]
  by_cases hvol : (infos.foldl FlowTotals.add ⟨0, 0, true⟩).flowTotalVolume = 0
  · have hall := (hzero.1 hvol).2
    simp only [if_pos hvol]
    refine ⟨iff_of_false nofun (fun hex => hseen.2 hex hall), iff_of_false nofun ?_, nofun⟩
    rintro ⟨i, hi, hpos, -⟩
    exact hpos.ne' (hall i hi)
  · have hex := hseen.1 fun hall => hvol (hzero.2 ⟨rfl, hall⟩)
    simp only [if_neg hvol]
    by_cases hcap : (infos.foldl FlowTotals.add ⟨0, 0, true⟩).capturedByAllObservedSwitches = true
    · have hno := (hflag.1 hcap).2
      simp only [hcap, Bool.not_true, Bool.false_eq_true, if_false]
      refine ⟨iff_of_true rfl hex, iff_of_false nofun ?_, ?_⟩
      · rintro ⟨i, hi, hmiss⟩
        exact hno i hi hmiss
      · rintro a ha
        cases ha
        have h₀' : (0 : ℚ) ≤ (infos.foldl FlowTotals.add ⟨0, 0, true⟩).flowTotalCapturedVolume :=
          Int.cast_nonneg h₀
        have h₁' := Int.cast_le (R := ℚ).2 h₁
        exact ⟨div_nonneg h₀' (h₀'.trans h₁'), div_le_one_of_le₀ h₁' (h₀'.trans h₁')⟩
    · have hmiss : ∃ i ∈ infos, 0 < i.realVolume ∧ i.capturedVolume = 0 := by
        by_contra hno
        exact hcap (hflag.2 ⟨rfl, fun i hi hm => hno ⟨i, hi, hm⟩⟩)
      rw [Bool.not_eq_true] at hcap
      simp only [hcap, Bool.not_false, if_true]
      exact ⟨iff_of_true rfl hex, iff_of_true rfl hmiss, nofun⟩

end Judge

/-! ## A task -/

section Task

variable {oneTask : ScriptTask} {switches : Dict ℤ SwitchRounds}

/-- What is made of a flow of a round. -/
def verdict (oneTask : ScriptTask) (switches : Dict ℤ SwitchRounds)
    (flow : ℕ × List UInt8 × HostTargetFlowInfo) : Verdict ℚ :=
  if flowBelongsToTask oneTask flow.2.2.srcip flow.2.2.dstip then
    judge (observations oneTask switches flow.1 flow.2.1)
  else .out

def TaskTotals.add (s : TaskTotals) : Verdict ℚ → TaskTotals
  | .out => s
  | .missed => { s with
      allTargetFlowNum := s.allTargetFlowNum + 1
      falseNegativeTargetFlowNum := s.falseNegativeTargetFlowNum + 1 }
  | .captured accuracy => { s with
      allTargetFlowNum := s.allTargetFlowNum + 1
      truePositiveTargetFlowNum := s.truePositiveTargetFlowNum + 1
      truePositiveTargetFlowAccuracySum := s.truePositiveTargetFlowAccuracySum + accuracy }

def TaskTotals.tally (s : TaskTotals) : Tally ℚ :=
  ⟨s.allTargetFlowNum, s.falseNegativeTargetFlowNum, s.truePositiveTargetFlowNum,
    s.truePositiveTargetFlowAccuracySum⟩

theorem TaskTotals.tally_foldl (vs : List (Verdict ℚ)) :
    (vs.foldl TaskTotals.add TaskTotals.zero).tally = Tally.of vs :=
  (List.foldl_hom TaskTotals.tally fun s v => by cases v <;> rfl).symm

/-- The flow is not the task's, or the switches have its round. -/
def Covered (oneTask : ScriptTask) (switches : Dict ℤ SwitchRounds)
    (flow : ℕ × List UInt8 × HostTargetFlowInfo) : Prop :=
  flowBelongsToTask oneTask flow.2.2.srcip flow.2.2.dstip = true →
    HasRound oneTask switches flow.1

theorem addTargetFlow_eq_ok {flow : ℕ × List UInt8 × HostTargetFlowInfo}
    (h : Covered oneTask switches flow) (s : TaskTotals) :
    addTargetFlow oneTask switches flow.1 s flow.2
      = .ok (s.add (verdict oneTask switches flow)) := by
  obtain ⟨roundSec, flowKey, info⟩ := flow
  rw [addTargetFlow, verdict]
  by_cases hbelongs : flowBelongsToTask oneTask info.srcip info.dstip = true
  · obtain ⟨hne, hrounds⟩ := h hbelongs
    have hitems : switches.items ≠ [] := fun hnil => hne (by
      rw [Dict.items, List.map_eq_nil_iff] at hnil
      exact AList.ext hnil)
    simp only [hbelongs, Bool.not_true, Bool.false_eq_true, if_false, if_true,
      foldlM_addSwitch_spec _ hrounds]
    rw [judge]
    set totals := (observations oneTask switches roundSec flowKey).foldl FlowTotals.add
      ⟨0, 0, true⟩
    show (if totals.flowTotalVolume = 0 then _ else _) = _
    by_cases hvol : totals.flowTotalVolume = 0
    · simp only [if_pos hvol, if_neg hitems]
      rfl
    · simp only [if_neg hvol]
      cases hcap : totals.capturedByAllObservedSwitches with
      | false => rfl
      | true =>
        have hcast : (totals.flowTotalVolume : ℚ) ≠ 0 := Int.cast_ne_zero.2 hvol
        have hdiv : pyDiv totals.flowTotalCapturedVolume totals.flowTotalVolume
            = .ok (totals.flowTotalCapturedVolume / totals.flowTotalVolume) := if_neg hcast
        simp only [Bool.not_true, Bool.false_eq_true, if_false, hdiv]
        rfl
  · simp only [Bool.not_eq_true] at hbelongs
    simp only [hbelongs, Bool.not_false, if_true]
    rfl

theorem covered_of_addTargetFlow {flow : ℕ × List UInt8 × HostTargetFlowInfo} {s s' : TaskTotals}
    (h : addTargetFlow oneTask switches flow.1 s flow.2 = .ok s') :
    Covered oneTask switches flow := by
  obtain ⟨roundSec, flowKey, info⟩ := flow
  intro hbelongs
  rw [addTargetFlow] at h
  simp only [hbelongs, Bool.not_true, Bool.false_eq_true, if_false] at h
  obtain ⟨totals, htotals, h⟩ := bind_eq_ok.1 h
  refine ⟨?_, hasRound_of_foldlM_addSwitch htotals⟩
  rintro rfl
  cases htotals
  cases h

/-- The flows of rounds, in the order of the loops. -/
def flowsOf (rounds : List (ℕ × Dict (List UInt8) HostTargetFlowInfo)) :
    List (ℕ × List UInt8 × HostTargetFlowInfo) :=
  rounds.flatMap fun round => round.2.items.map fun flow => (round.1, flow)

theorem foldlM_addRound_eq_ok {rounds : List (ℕ × Dict (List UInt8) HostTargetFlowInfo)}
    (h : ∀ flow ∈ flowsOf rounds, Covered oneTask switches flow) (s : TaskTotals) :
    rounds.foldlM (addRound oneTask switches) s
      = .ok (((flowsOf rounds).map (verdict oneTask switches)).foldl TaskTotals.add s) := by
  rw [List.foldl_map, flowsOf, List.foldl_flatMap]
  refine foldlM_eq_ok (fun round hround s => ?_) s
  rw [addRound, List.foldl_map]
  refine foldlM_eq_ok (fun flow hflow s => ?_) s
  show addTargetFlow oneTask switches (round.1, flow).1 s (round.1, flow).2 = _
  refine addTargetFlow_eq_ok (h _ ?_) s
  exact List.mem_flatMap.2 ⟨round, hround, List.mem_map.2 ⟨flow, hflow, rfl⟩⟩

theorem covered_of_foldlM_addRound {rounds : List (ℕ × Dict (List UInt8) HostTargetFlowInfo)}
    {s s' : TaskTotals} (h : rounds.foldlM (addRound oneTask switches) s = .ok s') :
    ∀ flow ∈ flowsOf rounds, Covered oneTask switches flow := by
  intro flow hflow
  obtain ⟨round, hround, hflow⟩ := List.mem_flatMap.1 hflow
  obtain ⟨flow', hflow', rfl⟩ := List.mem_map.1 hflow
  obtain ⟨c, c', hc⟩ := exists_of_foldlM_eq_ok h hround
  obtain ⟨b, b', hb⟩ := exists_of_foldlM_eq_ok hc hflow'
  exact covered_of_addTargetFlow hb

theorem mem_flowsOf {rounds : HostRounds} {roundSec : ℕ} {flowKey : List UInt8}
    {info : HostTargetFlowInfo} :
    (roundSec, flowKey, info) ∈ flowsOf (rounds.sortedItems.drop 1)
      ↔ (∃ first ∈ rounds, first < roundSec)
        ∧ ∃ flows, rounds.lookup roundSec = some flows ∧ flows.lookup flowKey = some info := by
  rw [flowsOf, List.mem_flatMap]
  constructor
  · rintro ⟨⟨sec, flows⟩, hround, hflow⟩
    obtain ⟨⟨key, info'⟩, hflow, heq⟩ := List.mem_map.1 hflow
    cases heq
    obtain ⟨hlookup, hfirst⟩ := Dict.mem_drop_sortedItems.1 hround
    exact ⟨hfirst, flows, hlookup, Dict.mem_items.1 hflow⟩
  · rintro ⟨hfirst, flows, hlookup, hinfo⟩
    refine ⟨(roundSec, flows), Dict.mem_drop_sortedItems.2 ⟨hlookup, hfirst⟩, ?_⟩
    exact List.mem_map.2 ⟨(flowKey, info), Dict.mem_items.2 hinfo, rfl⟩

theorem flowsOf_nodup (rounds : HostRounds) :
    ((flowsOf (rounds.sortedItems.drop 1)).map fun flow => (flow.1, flow.2.1)).Nodup := by
  have hkeys : ((rounds.sortedItems.drop 1).map Prod.fst).Nodup :=
    rounds.sortedItems_keys_nodup.sublist ((List.drop_sublist 1 _).map Prod.fst)
  rw [flowsOf, List.map_flatMap, List.nodup_flatMap]
  constructor
  · intro round _
    have hround := round.2.items_keys_nodup.map (Prod.mk_right_injective round.1)
    rw [List.map_map] at hround ⊢
    exact hround
  · refine (List.pairwise_map.1 hkeys).imp fun {a b} hne x ha hb => hne ?_
    simp only [List.mem_map, exists_exists_and_eq_and] at ha hb
    obtain ⟨_, -, rfl⟩ := ha
    obtain ⟨_, -, heq⟩ := hb
    exact (Prod.mk.inj heq).1.symm

/-- Every flow of the task has its round. -/
theorem covered_iff {rounds : HostRounds} :
    (∀ flow ∈ flowsOf (rounds.sortedItems.drop 1), Covered oneTask switches flow)
      ↔ ∀ flow, IsTaskFlow oneTask rounds flow → HasRound oneTask switches flow.1 := by
  constructor
  · rintro h ⟨roundSec, flowKey⟩ ⟨hfirst, flows, info, hflows, hinfo, hbelongs⟩
    exact h (roundSec, flowKey, info) (mem_flowsOf.2 ⟨hfirst, flows, hflows, hinfo⟩) hbelongs
  · rintro h ⟨roundSec, flowKey, info⟩ hflow hbelongs
    obtain ⟨hfirst, flows, hflows, hinfo⟩ := mem_flowsOf.1 hflow
    exact h (roundSec, flowKey) ⟨hfirst, flows, info, hflows, hinfo, hbelongs⟩

theorem TaskTotals.result_eq_ok (s : TaskTotals) : s.result = .ok {
    targetFlowNum := s.allTargetFlowNum
    fnNum := s.falseNegativeTargetFlowNum
    fn := s.falseNegativeTargetFlowNum / s.allTargetFlowNum
    accuracy := s.truePositiveTargetFlowAccuracySum / s.truePositiveTargetFlowNum } := by
  rw [TaskTotals.result, divOrZero_cast, divOrZero_cast]
  rfl

/-- The task's flows of which a monitor has such a record are those with such a verdict. -/
theorem ncard_taskFlows {rounds : HostRounds} {q : SwitchFlowInfo → Prop} {p : Verdict ℚ → Bool}
    (hout : p .out = false)
    (hjudge : ∀ roundSec flowKey, p (judge (observations oneTask switches roundSec flowKey)) = true
      ↔ ∃ i ∈ observations oneTask switches roundSec flowKey, q i) :
    {flow | IsTaskFlow oneTask rounds flow ∧ ∃ info, Observed oneTask switches flow.1 flow.2 info
      ∧ q info}.ncard
      = ((flowsOf (rounds.sortedItems.drop 1)).map (verdict oneTask switches)).countP p := by
  rw [List.countP_map, ← Lib.ncard_eq_countP (flowsOf_nodup rounds)]
  congr 1
  ext ⟨roundSec, flowKey⟩
  constructor
  · rintro ⟨⟨hfirst, flows, info, hflows, hinfo, hbelongs⟩, obs, hobs, hq⟩
    refine ⟨(roundSec, flowKey, info), mem_flowsOf.2 ⟨hfirst, flows, hflows, hinfo⟩, ?_, rfl⟩
    rw [Function.comp_apply, verdict, if_pos hbelongs]
    exact (hjudge roundSec flowKey).2 ⟨obs, mem_observations.2 hobs, hq⟩
  · rintro ⟨⟨roundSec', flowKey', info⟩, hflow, hp, heq⟩
    cases heq
    obtain ⟨hfirst, flows, hflows, hinfo⟩ := mem_flowsOf.1 hflow
    rw [Function.comp_apply, verdict] at hp
    split at hp
    · next hbelongs =>
      obtain ⟨obs, hobs, hq⟩ := (hjudge _ _).1 hp
      exact ⟨⟨hfirst, flows, info, hflows, hinfo, hbelongs⟩, obs, mem_observations.1 hobs, hq⟩
    · rw [hout] at hp
      cases hp

/-- The result has the task's numbers and ratios. -/
structure Right (oneTask : ScriptTask) (switches : Dict ℤ SwitchRounds) (rounds : HostRounds)
    (result : OneTaskResult) : Prop where
  targetFlowNum : result.targetFlowNum = (seenFlows oneTask switches rounds).ncard
  fnNum : result.fnNum = (missedFlows oneTask switches rounds).ncard
  fn : result.fn = result.fnNum / result.targetFlowNum
  fn_mem : 0 ≤ result.fn ∧ result.fn ≤ 1
  accuracy_mem : 0 ≤ result.accuracy ∧ result.accuracy ≤ 1

theorem bounded_observations (hb : Bounded switches) (oneTask : ScriptTask) (roundSec : ℕ)
    (flowKey : List UInt8) : ∀ i ∈ observations oneTask switches roundSec flowKey,
      0 ≤ i.capturedVolume ∧ i.capturedVolume ≤ i.realVolume := by
  intro i hi
  obtain ⟨switchid, rounds, flows, hrounds, -, hflows, hinfo⟩ := mem_observations.1 hi
  exact hb switchid rounds roundSec flows flowKey i hrounds hflows hinfo

/-- The result of the tallied verdicts. -/
theorem right_result (hb : Bounded switches) (oneTask : ScriptTask) (rounds : HostRounds) :
    ∃ result,
    (((flowsOf (rounds.sortedItems.drop 1)).map (verdict oneTask switches)).foldl
      TaskTotals.add TaskTotals.zero).result = .ok result
      ∧ Right oneTask switches rounds result := by
  set vs := (flowsOf (rounds.sortedItems.drop 1)).map (verdict oneTask switches) with hvs
  set s := vs.foldl TaskTotals.add TaskTotals.zero
  have htally : s.tally = Tally.of vs := TaskTotals.tally_foldl vs
  have hall : s.allTargetFlowNum = vs.countP Verdict.isSeen :=
    (congrArg Tally.all htally).trans (Tally.all_of vs)
  have hmissed : s.falseNegativeTargetFlowNum = vs.countP Verdict.isMissed :=
    (congrArg Tally.missed htally).trans (Tally.missed_of vs)
  have hjudge := fun r k => judge_spec (bounded_observations hb oneTask r k)
  have hmem : ∀ a, .captured a ∈ vs → 0 ≤ a ∧ a ≤ 1 := by
    intro a ha
    obtain ⟨flow, -, hflow⟩ := List.mem_map.1 ha
    rw [verdict] at hflow
    split at hflow
    · exact (hjudge flow.1 flow.2.1).2.2 a hflow
    · cases hflow
  have havg := Tally.average_mem hmem
  rw [← htally] at havg
  refine ⟨_, s.result_eq_ok, ?_, ?_, rfl, ?_, havg⟩
  · exact hall.trans (ncard_taskFlows rfl fun r k => (hjudge r k).1).symm
  · exact hmissed.trans (ncard_taskFlows rfl fun r k => (hjudge r k).2.1).symm
  · have hle := Tally.missed_le_all vs
    rw [← htally] at hle
    exact Tally.ratio_mem hle

end Task

/-! ## All tasks -/

section AllTasks

variable {hosts : Dict ℤ HostRounds} {switches : Dict ℤ SwitchRounds} {oneTask : ScriptTask}

theorem calculateMetricsForTask_right (hb : Bounded switches) {rounds : HostRounds}
    (hrounds : hosts.lookup oneTask.senderHostid = some rounds)
    (h : ∀ flow, IsTaskFlow oneTask rounds flow → HasRound oneTask switches flow.1) :
    ∃ result, calculateMetricsForTask hosts switches oneTask = .ok result
      ∧ Right oneTask switches rounds result := by
  obtain ⟨result, hresult, hright⟩ := right_result hb oneTask rounds
  refine ⟨result, ?_, hright⟩
  rw [calculateMetricsForTask, Dict.getItem_eq_ok.2 hrounds]
  show ((rounds.sortedItems.drop 1).foldlM (addRound oneTask switches) TaskTotals.zero >>= _) = _
  rw [foldlM_addRound_eq_ok (covered_iff.2 h)]
  exact hresult

theorem calculateMetricsForTask_covered {result : OneTaskResult}
    (h : calculateMetricsForTask hosts switches oneTask = .ok result) :
    ∃ rounds, hosts.lookup oneTask.senderHostid = some rounds
      ∧ ∀ flow, IsTaskFlow oneTask rounds flow → HasRound oneTask switches flow.1 := by
  rw [calculateMetricsForTask] at h
  obtain ⟨rounds, hrounds, h⟩ := bind_eq_ok.1 h
  obtain ⟨s, hs, -⟩ := bind_eq_ok.1 h
  exact ⟨rounds, Dict.getItem_eq_ok.1 hrounds, covered_iff.1 (covered_of_foldlM_addRound hs)⟩

/-- Every task gets its numbers and ratios exactly if its sender has rounds, there is a switch, and
its monitors have a record of every round but the first in which it has a target flow. -/
theorem metrics_defined_iff (taskMap : Dict (List Char) ScriptTask) (hosts : Dict ℤ HostRounds)
    (switches : Dict ℤ SwitchRounds) (hb : Bounded switches) :
    (∃ results, calculateMetricsForTasks taskMap hosts switches = .ok results ∧
      ∀ taskid oneTask, taskMap.lookup taskid = some oneTask → ∃ rounds result,
        hosts.lookup oneTask.senderHostid = some rounds ∧ results.lookup taskid = some result
          ∧ Right oneTask switches rounds result)
    ↔ ∀ taskid oneTask, taskMap.lookup taskid = some oneTask → ∃ rounds,
        hosts.lookup oneTask.senderHostid = some rounds
          ∧ ∀ flow, IsTaskFlow oneTask rounds flow → HasRound oneTask switches flow.1 := by
  constructor
  · rintro ⟨results, hresults, -⟩ taskid oneTask htask
    obtain ⟨result, hresult⟩ := exists_of_collect hresults (Dict.mem_items.2 htask)
    exact calculateMetricsForTask_covered hresult
  · intro h
    obtain ⟨results, hresults, hitems, -⟩ := collect_spec (d := ∅)
      (f := fun task => calculateMetricsForTask hosts switches task.2) taskMap.items_keys_nodup
      (fun task htask => by
        obtain ⟨rounds, hrounds, hcov⟩ := h task.1 task.2 (Dict.mem_items.1 htask)
        obtain ⟨result, hresult, -⟩ := calculateMetricsForTask_right hb hrounds hcov
        exact ⟨result, hresult⟩)
    refine ⟨results, hresults, fun taskid oneTask htask => ?_⟩
    obtain ⟨rounds, hrounds, hcov⟩ := h taskid oneTask htask
    obtain ⟨result, hresult, hright⟩ := calculateMetricsForTask_right hb hrounds hcov
    obtain ⟨result', hresult', hlookup⟩ := hitems _ (Dict.mem_items.2 htask)
    rw [hresult] at hresult'
    cases hresult'
    exact ⟨rounds, result, hrounds, hlookup, hright⟩

end AllTasks

/-! ## A switch whose clock is late -/

/-- A task from h1 to h2 with a monitor on s1. -/
def exampleTaskMap : Dict (List Char) ScriptTask :=
  AList.insert ['1'] ⟨['1'], 1, 2, AList.insert 1 1 ∅⟩ ∅

/-- h1 has one target flow, in its second round. -/
def exampleHosts : Dict ℤ HostRounds :=
  AList.insert 1 (AList.insert 7 ∅ (AList.insert 8 (AList.insert (chars "167772161_184549377")
    (HostTargetFlowInfo.init (chars "167772161") (chars "184549377") (chars "100") (chars "40")
      (chars "0.4")) ∅) ∅)) ∅

/-- s1 has seen the flow, and has the round at this second. -/
def exampleSwitches (roundSec : ℕ) : Dict ℤ SwitchRounds :=
  AList.insert 1 (AList.insert roundSec
    (AList.insert (chars "167772161_184549377") ⟨60, 30⟩ ∅) ∅) ∅

theorem bounded_of_items {switches : Dict ℤ SwitchRounds}
    (h : ∀ switch ∈ switches.items, ∀ round ∈ switch.2.items, ∀ flow ∈ round.2.items,
      0 ≤ flow.2.capturedVolume ∧ flow.2.capturedVolume ≤ flow.2.realVolume) :
    Bounded switches := by
  intro switchid rounds sec flows key info hrounds hflows hinfo
  exact h (switchid, rounds) (Dict.mem_items.2 hrounds) (sec, flows) (Dict.mem_items.2 hflows)
    (key, info) (Dict.mem_items.2 hinfo)

theorem metrics_example : ∃ results rounds result,
    calculateMetricsForTasks exampleTaskMap exampleHosts (exampleSwitches 8) = .ok results
      ∧ results.lookup ['1'] = some result
      ∧ Right ⟨['1'], 1, 2, AList.insert 1 1 ∅⟩ (exampleSwitches 8) rounds result := by
  obtain ⟨results, hresults, hright⟩ := (metrics_defined_iff exampleTaskMap exampleHosts
    (exampleSwitches 8) (bounded_of_items (by decide +kernel))).2 (by
      intro taskid oneTask htask
      rw [exampleTaskMap, Dict.lookup_insert_if] at htask
      split at htask
      · cases htask
        refine ⟨_, AList.lookup_insert _, covered_iff.1 fun flow hflow _ => ?_⟩
        rw [(by decide +kernel : ∀ flow ∈ flowsOf _, flow.1 = 8) flow hflow]
        refine ⟨fun heq => List.cons_ne_nil _ _ (congrArg AList.entries heq),
          fun switchid rounds hrounds _ => ?_⟩
        rw [exampleSwitches, Dict.lookup_insert_if] at hrounds
        split at hrounds
        · cases hrounds
          exact (AList.mem_insert _).2 (.inl rfl)
        · cases hrounds
      · cases htask)
  obtain ⟨rounds, result, -, hlookup, hresult⟩ := hright _ _ (AList.lookup_insert _)
  exact ⟨results, rounds, result, hresults, hlookup, hresult⟩

/-- The host has a second round that the switch lacks. -/
theorem metrics_undefined : Bounded (exampleSwitches 9)
    ∧ calculateMetricsForTasks exampleTaskMap exampleHosts (exampleSwitches 9)
      = .error .keyError :=
  ⟨bounded_of_items (by decide +kernel), by decide +kernel⟩

end Query

end CMTestbed
