import CMTestbed.Results

/-!
# The false positives of methods 2 and 3

The calculator of method 3 has the loop that counts the target flows of a round in a string.  Its
counters stay 0, and so it divides the false positives by all flows (`methods_agree_iff`).
-/

namespace CMTestbed

variable {m : Method} {targets notSent : TargetFlows} {flows : Dict (List UInt8) SwitchFlowInfo}

/-! ## The counters -/

theorem RoundCounters.foldl_count (targets notSent : TargetFlows)
    (l : List (List UInt8 × SwitchFlowInfo)) (s : RoundCounters) :
    (l.foldl (RoundCounters.count targets notSent) s).allVolumeOneInterval
        = s.allVolumeOneInterval + (l.map fun flow => flow.2.realVolume).sum
      ∧ (l.foldl (RoundCounters.count targets notSent) s).realTargetFlowNum
        = s.realTargetFlowNum + l.countP fun flow => flow.1 ∈ targets := by
  induction l generalizing s with
  | nil => exact ⟨rfl, rfl⟩
  | cons flow l ih =>
    have hcount : (s.count targets notSent flow).allVolumeOneInterval
          = s.allVolumeOneInterval + flow.2.realVolume
        ∧ (s.count targets notSent flow).realTargetFlowNum
          = s.realTargetFlowNum + if flow.1 ∈ targets then 1 else 0 := by
      obtain ⟨srcip, info⟩ := flow
      rw [RoundCounters.count]
      by_cases hmem : srcip ∈ targets
      · simp only [not_not.2 hmem, if_false, if_pos hmem]
        split_ifs <;> exact ⟨rfl, rfl⟩
      · exact ⟨by simp only [if_pos hmem], by simp only [if_pos hmem, if_neg hmem, Nat.add_zero]⟩
    obtain ⟨hvolume, hnum⟩ := ih (s.count targets notSent flow)
    rw [List.foldl_cons, hvolume, hnum, hcount.1, hcount.2, List.map_cons, List.sum_cons,
      List.countP_cons]
    simp only [decide_eq_true_eq]
    omega

/-- The target flows of the round that the method counts. -/
def Method.countedTargets (m : Method) (targets : TargetFlows)
    (flows : Dict (List UInt8) SwitchFlowInfo) : ℕ :=
  match m with
  | method2 => flows.items.countP fun flow => flow.1 ∈ targets
  | method3 => 0

/-- The volume of the round that the method counts. -/
def Method.countedVolume (m : Method) (flows : Dict (List UInt8) SwitchFlowInfo) : ℕ :=
  match m with
  | method2 => (flows.items.map fun flow => flow.2.realVolume).sum
  | method3 => 0

theorem keys_length_eq_zero : targets.keys.length = 0 ↔ targets = ∅ := by
  rw [List.length_eq_zero_iff]
  constructor
  · intro h
    refine AList.ext ?_
    rw [AList.keys, List.keys, List.map_eq_nil_iff] at h
    exact h
  · rintro rfl
    rfl

theorem falseNegatives_spec {s : RoundCounters} {q : ℚ}
    (h : m.falseNegatives targets notSent flows = .ok (s, q)) :
    s.allVolumeOneInterval = m.countedVolume flows
      ∧ s.realTargetFlowNum = m.countedTargets targets flows
      ∧ (m = .method3 → targets ≠ ∅) := by
  cases m with
  | method2 =>
    rw [Method.falseNegatives] at h
    obtain ⟨ratio, -, h⟩ := bind_eq_ok.1 h
    cases h
    obtain ⟨hvolume, hnum⟩ :=
      RoundCounters.foldl_count targets notSent flows.items RoundCounters.zero
    exact ⟨hvolume.trans (Nat.zero_add _), hnum.trans (Nat.zero_add _), nofun⟩
  | method3 =>
    rw [Method.falseNegatives] at h
    obtain ⟨ratio, hratio, h⟩ := bind_eq_ok.1 h
    cases h
    refine ⟨rfl, rfl, ?_⟩
    rintro - rfl
    cases hratio

theorem exists_falseNegatives (m : Method) (notSent : TargetFlows)
    (flows : Dict (List UInt8) SwitchFlowInfo) (h : targets ≠ ∅) :
    ∃ r, m.falseNegatives targets notSent flows = .ok r := by
  cases m with
  | method2 =>
    rw [Method.falseNegatives]
    simp only [divOrZero_eq_ok]
    exact ⟨_, rfl⟩
  | method3 =>
    have hcast : (targets.keys.length : ℚ) ≠ 0 :=
      Nat.cast_ne_zero.2 fun hzero => h (keys_length_eq_zero.1 hzero)
    rw [Method.falseNegatives]
    simp only [pyDiv, if_neg hcast]
    exact ⟨_, rfl⟩

/-! ## A round -/

/-- The flows that are no targets, and those of them that are captured and signed. -/
def notTargets (targets : TargetFlows) (flows : Dict (List UInt8) SwitchFlowInfo) : ℕ :=
  flows.items.countP fun flow => flow.1 ∉ targets

def falsePositives (targets : TargetFlows) (flows : Dict (List UInt8) SwitchFlowInfo) : ℕ :=
  flows.items.countP fun flow =>
    flow.1 ∉ targets ∧ flow.2.capturedVolume > 0 ∧ flow.2.signedTarget > 0

theorem Method.countedTargets_le (m : Method) (targets : TargetFlows)
    (flows : Dict (List UInt8) SwitchFlowInfo) :
    m.countedTargets targets flows ≤ flows.items.length := by
  cases m with
  | method2 => exact List.countP_le_length
  | method3 => exact Nat.zero_le _

theorem oneRound_spec {conditionPktNum n : ℕ} {r : SwitchOneRoundResult}
    (h : m.oneRound targets notSent flows conditionPktNum = .ok (r, n)) :
    r.allVolumeOneInterval = m.countedVolume flows
      ∧ r.realTargetFlowNum = m.countedTargets targets flows
      ∧ r.fp = falsePositives targets flows
        / (flows.items.length - m.countedTargets targets flows : ℕ)
      ∧ (m = .method3 → targets ≠ ∅) := by
  rw [Method.oneRound] at h
  obtain ⟨⟨s, q⟩, hs, h⟩ := bind_eq_ok.1 h
  obtain ⟨hvolume, hnum, hne⟩ := falseNegatives_spec hs
  have hcast : (((flows.items.length - s.realTargetFlowNum : ℤ) : ℤ) : ℚ)
      = (flows.items.length - m.countedTargets targets flows : ℕ) := by
    rw [hnum, ← Nat.cast_sub (m.countedTargets_le targets flows), Int.cast_natCast]
  simp only [hcast, divOrZero_cast] at h
  obtain ⟨fp, hfp, h⟩ := bind_eq_ok.1 h
  obtain ⟨acc, hacc, h⟩ := bind_eq_ok.1 h
  cases hfp
  cases h
  exact ⟨hvolume, hnum, rfl, hne⟩

/-- Without target flows among the flows no accuracy is divided. -/
theorem exists_oneRound (m : Method) (notSent : TargetFlows) (conditionPktNum : ℕ)
    (hne : targets ≠ ∅) (hnone : ∀ flow ∈ flows.items, flow.1 ∉ targets) :
    ∃ r n, m.oneRound targets notSent flows conditionPktNum = .ok (r, n) := by
  obtain ⟨⟨s, q⟩, hs⟩ := exists_falseNegatives m notSent flows hne
  have hacc : flows.items.foldlM (m.addAccuracy targets) (0, 0) = .ok (0, 0) := by
    have hfold := foldlM_eq_ok (f := m.addAccuracy targets) (g := fun s _ => s)
      (fun flow hflow s => if_neg fun hmem => hnone flow hflow hmem.1) ((0, 0) : ℚ × ℕ)
    rw [hfold, List.foldl_fixed]
  rw [Method.oneRound, hs]
  simp only [divOrZero_eq_ok, hacc]
  exact ⟨_, _, rfl⟩

/-- The numbers of a round are the same under both methods, and the ratio of false positives is
among the flows that are no targets. -/
def SameRound (targets notSent : TargetFlows) (flows : Dict (List UInt8) SwitchFlowInfo)
    (conditionPktNum : ℕ) : Prop :=
  ∃ r₂ n₂ r₃ n₃, Method.method2.oneRound targets notSent flows conditionPktNum = .ok (r₂, n₂)
    ∧ Method.method3.oneRound targets notSent flows conditionPktNum = .ok (r₃, n₃)
    ∧ r₃.realTargetFlowNum = r₂.realTargetFlowNum
    ∧ r₃.allVolumeOneInterval = r₂.allVolumeOneInterval ∧ r₃.fp = r₂.fp
    ∧ r₂.fp = falsePositives targets flows / notTargets targets flows

theorem length_sub_countedTargets (targets : TargetFlows)
    (flows : Dict (List UInt8) SwitchFlowInfo) :
    flows.items.length - Method.method2.countedTargets targets flows
      = notTargets targets flows := by
  have h := flows.items.length_eq_countP_add_countP fun flow => flow.1 ∈ targets
  rw [h, Method.countedTargets, Nat.add_sub_cancel_left, notTargets]
  refine List.countP_congr fun flow _ => ?_
  simp

/-- The methods agree exactly on a round without volume none of whose flows is a target, if there
are target flows at all. -/
theorem methods_agree_iff (targets notSent : TargetFlows)
    (flows : Dict (List UInt8) SwitchFlowInfo) (conditionPktNum : ℕ) :
    SameRound targets notSent flows conditionPktNum
      ↔ targets ≠ ∅ ∧ ∀ srcip flowInfo, flows.lookup srcip = some flowInfo →
          srcip ∉ targets ∧ flowInfo.realVolume = 0 := by
  constructor
  · rintro ⟨r₂, n₂, r₃, n₃, h₂, h₃, hnum, hvolume, -⟩
    obtain ⟨hvolume₂, hnum₂, -⟩ := oneRound_spec h₂
    obtain ⟨hvolume₃, hnum₃, -, hne⟩ := oneRound_spec h₃
    rw [hnum₂, hnum₃] at hnum
    rw [hvolume₂, hvolume₃] at hvolume
    have hnone := List.countP_eq_zero.1 hnum.symm
    have hzero := List.sum_eq_zero_iff_forall_eq_nat.1 hvolume.symm
    refine ⟨hne rfl, fun srcip flowInfo hflow => ?_⟩
    have hmem := Dict.mem_items.2 hflow
    exact ⟨fun ht => hnone _ hmem (decide_eq_true ht), hzero _ (List.mem_map.2 ⟨_, hmem, rfl⟩)⟩
  · rintro ⟨hne, hall⟩
    have hnone : ∀ flow ∈ flows.items, flow.1 ∉ targets := fun flow hflow =>
      (hall flow.1 flow.2 (Dict.mem_items.1 hflow)).1
    have hcounted : Method.method2.countedTargets targets flows = 0 :=
      List.countP_eq_zero.2 fun flow hflow => by simpa using hnone flow hflow
    have hvolume : Method.method2.countedVolume flows = 0 := by
      refine List.sum_eq_zero_iff_forall_eq_nat.2 fun v hv => ?_
      obtain ⟨flow, hflow, rfl⟩ := List.mem_map.1 hv
      exact (hall flow.1 flow.2 (Dict.mem_items.1 hflow)).2
    obtain ⟨r₂, n₂, h₂⟩ := exists_oneRound .method2 notSent conditionPktNum hne hnone
    obtain ⟨r₃, n₃, h₃⟩ := exists_oneRound .method3 notSent conditionPktNum hne hnone
    obtain ⟨hvolume₂, hnum₂, hfp₂, -⟩ := oneRound_spec h₂
    obtain ⟨hvolume₃, hnum₃, hfp₃, -⟩ := oneRound_spec h₃
    refine ⟨r₂, n₂, r₃, n₃, h₂, h₃, ?_, ?_, ?_, ?_⟩
    · rw [hnum₂, hnum₃, hcounted]
      rfl
    · rw [hvolume₂, hvolume₃, hvolume]
      rfl
    · rw [hfp₂, hfp₃, hcounted]
      rfl
    · rw [hfp₂, length_sub_countedTargets]

/-- A round of twelve flows; the last but one is captured and signed. -/
def exampleFlows : Dict (List UInt8) SwitchFlowInfo :=
  (["11", "12", "13", "14", "15", "16", "17", "18", "19", "20", "21"].map chars).foldl
    (fun d srcip => AList.insert srcip ⟨100, 50, 1, 1⟩ d)
    (AList.insert (chars "22") ⟨100, 0, 0, 0⟩ ∅)

/-- The first ten of them are targets. -/
def exampleTargets : TargetFlows :=
  (["11", "12", "13", "14", "15", "16", "17", "18", "19", "20"].map chars).foldl
    (fun d srcip => AList.insert srcip 1 d) ∅

/-- What a method stores for the round. -/
def exampleResult (m : Method) : Except PyError (Option (ℕ × ℕ × ℚ)) := do
  let results ← m.calculateRoundsPerSwitchResult (AList.insert 8 0 ∅)
    (AList.insert 8 exampleTargets ∅) (AList.insert 0 (AList.insert 8 exampleFlows ∅) ∅)
    (AList.insert 8 ∅ ∅)
  return (results.entry 0 8).map fun r => (r.realTargetFlowNum, r.allVolumeOneInterval, r.fp)

theorem methods_disagree : exampleResult .method2 = .ok (some (10, 1200, 1 / 2))
    ∧ exampleResult .method3 = .ok (some (0, 0, 1 / 12)) := by
  constructor <;> decide +kernel

/-! ## The stored results -/

/-- The accuracies that are added up are those of target flows. -/
theorem addAccuracy_le {s : ℚ × ℕ} {l : List (List UInt8 × SwitchFlowInfo)} {s' : ℚ × ℕ}
    (h : l.foldlM (m.addAccuracy targets) s = .ok s') :
    s'.2 ≤ s.2 + l.countP fun flow => flow.1 ∈ targets := by
  induction l generalizing s with
  | nil =>
    cases h
    exact le_rfl
  | cons flow l ih =>
    rw [List.foldlM_cons] at h
    obtain ⟨s₁, hs₁, h⟩ := bind_eq_ok.1 h
    have hle := ih h
    rw [Method.addAccuracy] at hs₁
    rw [List.countP_cons]
    split at hs₁
    · next hmem =>
      obtain ⟨accuracy, -, hs₁⟩ := bind_eq_ok.1 hs₁
      cases hs₁
      rw [if_pos (decide_eq_true hmem.1)]
      simp only [] at hle
      omega
    · cases hs₁
      omega

theorem toReport_le {conditionPktNum n : ℕ} {r : SwitchOneRoundResult}
    (h : m.oneRound targets notSent flows conditionPktNum = .ok (r, n)) :
    n ≤ flows.items.countP fun flow => flow.1 ∈ targets := by
  rw [Method.oneRound] at h
  obtain ⟨⟨s, q⟩, -, h⟩ := bind_eq_ok.1 h
  obtain ⟨fp, -, h⟩ := bind_eq_ok.1 h
  obtain ⟨acc, hacc, h⟩ := bind_eq_ok.1 h
  obtain ⟨accuracy, -, h⟩ := bind_eq_ok.1 h
  cases h
  exact (addAccuracy_le hacc).trans (Nat.zero_add _).le

/-- A round's result that has enough flows. -/
def IsResult (m : Method) (rounds : Dict ℕ TargetFlows) (infos : Rounds) (sec : ℕ)
    (r : SwitchOneRoundResult) : Prop :=
  ∃ flows targets notSent conditionPktNum n, infos.lookup sec = some flows
    ∧ rounds.lookup sec = some targets
    ∧ m.oneRound targets notSent flows conditionPktNum = .ok (r, n) ∧ 10 ≤ n

section Stored

variable {conditionPktNums : Dict ℕ ℕ} {rounds notSentOut : Dict ℕ TargetFlows}
  {switches : Dict ℕ Rounds} {results : Dict ℕ (Dict ℕ SwitchOneRoundResult)}
  {switchid sec : ℕ} {r : SwitchOneRoundResult}

theorem addRound_isResult {infos : Rounds} {map map' : Dict ℕ SwitchOneRoundResult}
    {flows : Dict (List UInt8) SwitchFlowInfo} (hround : infos.lookup sec = some flows)
    (hmap : ∀ sec r, map.lookup sec = some r → IsResult m rounds infos sec r)
    (hstep : m.addRound conditionPktNums rounds notSentOut map (sec, flows) = .ok map') :
    ∀ sec r, map'.lookup sec = some r → IsResult m rounds infos sec r := by
  rw [Method.addRound] at hstep
  obtain ⟨c, -, hstep⟩ := bind_eq_ok.1 hstep
  split at hstep
  · cases hstep
    exact hmap
  · next targets htargets =>
    obtain ⟨notSent, -, hstep⟩ := bind_eq_ok.1 hstep
    obtain ⟨⟨r, n⟩, hone, hstep⟩ := bind_eq_ok.1 hstep
    simp only [] at hstep
    split at hstep
    · next hn =>
      cases hstep
      intro sec' r' hlookup
      rw [Dict.lookup_insert_if] at hlookup
      split at hlookup
      · next heq =>
        cases hlookup
        subst heq
        exact ⟨flows, targets, notSent, c, n, hround, htargets, hone, hn⟩
      · exact hmap sec' r' hlookup
    · cases hstep
      exact hmap

/-- What is stored for a round of a switch is its result. -/
theorem stored_isResult
    (h : m.calculateRoundsPerSwitchResult conditionPktNums rounds switches notSentOut = .ok results)
    (hr : results.entry switchid sec = some r) :
    ∃ infos, switches.lookup switchid = some infos ∧ IsResult m rounds infos sec r := by
  obtain ⟨stored, hstored, hr⟩ := Option.bind_eq_some_iff.1 hr
  obtain ⟨infos, hinfos, hfold⟩ :=
    exists_of_lookup_collect switches.items_keys_nodup h hstored
  refine ⟨infos, Dict.mem_items.1 hinfos, ?_⟩
  refine foldlM_inv (P := fun stored : Dict ℕ SwitchOneRoundResult =>
    ∀ sec r, stored.lookup sec = some r → IsResult m rounds infos sec r) ?_ ?_ hfold sec r hr
  · exact fun round hround _ _ hmap hstep =>
      addRound_isResult (Dict.mem_sortedItems.1 hround) hmap hstep
  · exact fun _ _ hnone => nomatch hnone

/-- No round that both methods store has the same number of target flows. -/
theorem stored_never_agree {results₂ results₃ : Dict ℕ (Dict ℕ SwitchOneRoundResult)}
    {r₂ r₃ : SwitchOneRoundResult}
    (h₂ : Method.method2.calculateRoundsPerSwitchResult conditionPktNums rounds switches notSentOut
      = .ok results₂)
    (h₃ : Method.method3.calculateRoundsPerSwitchResult conditionPktNums rounds switches notSentOut
      = .ok results₃)
    (hr₂ : results₂.entry switchid sec = some r₂) (hr₃ : results₃.entry switchid sec = some r₃) :
    10 ≤ r₂.realTargetFlowNum ∧ r₃.realTargetFlowNum = 0 ∧ r₃.allVolumeOneInterval = 0 := by
  obtain ⟨_, -, flows, targets, notSent, c, n, -, -, hone₂, hn⟩ := stored_isResult h₂ hr₂
  obtain ⟨_, -, flows', targets', notSent', c', n', -, -, hone₃, -⟩ := stored_isResult h₃ hr₃
  obtain ⟨-, hnum₂, -⟩ := oneRound_spec hone₂
  obtain ⟨hvolume₃, hnum₃, -⟩ := oneRound_spec hone₃
  refine ⟨?_, hnum₃, hvolume₃⟩
  have hle := toReport_le hone₂
  rw [hnum₂]
  exact hn.trans hle

end Stored

end CMTestbed
