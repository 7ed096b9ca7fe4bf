import CMTestbed.Proofs.Metrics

/-!
# The ratios of a round

Method 4 judges a target flow by the switches it went through, up to the first that has missed it.
The false negative ratio divides by the flows that were seen, the average accuracy by those that
were captured, and neither is tested for 0 (`method4_ratios_iff`).
-/

namespace CMTestbed

open Lib (Verdict Tally)

namespace Method4

/-- A switch has seen the flow in the round. -/
def Seen (switches : Dict ℕ Rounds) (sec : ℕ) (srcip : List UInt8) (info : SwitchFlowInfo) :
    Prop :=
  ∃ switchid rounds, switches.lookup switchid = some rounds ∧ rounds.entry sec srcip = some info
    ∧ 0 < info.realVolume

/-- The target flows of a round that a switch has seen. -/
def seenTargets (switches : Dict ℕ Rounds) (sec : ℕ) (targets : TargetFlows) : Set (List UInt8) :=
  {srcip | srcip ∈ targets ∧ ∃ info, Seen switches sec srcip info}

/-- Those that a switch that has seen them has not captured. -/
def missedTargets (switches : Dict ℕ Rounds) (sec : ℕ) (targets : TargetFlows) :
    Set (List UInt8) :=
  {srcip | srcip ∈ targets ∧ ∃ info, Seen switches sec srcip info ∧ info.capturedVolume ≤ 0}

/-! ## The verdict on a flow -/

section Through

variable {switches : Dict ℕ Rounds} {sec : ℕ} {srcip : List UInt8}

/-- The loop has met a switch that has seen the flow, and one that has missed it, if there is
one. -/
structure ThroughSpec (sec : ℕ) (srcip : List UInt8) (l : List (ℕ × Rounds))
    (s s' : SrcipTotals) : Prop where
  through : s'.isTargetFlowThroughSwitches = true ↔ s.isTargetFlowThroughSwitches = true
    ∨ ∃ switch ∈ l, ∃ info, switch.2.entry sec srcip = some info ∧ 0 < info.realVolume
  missed : s'.isFalseNegative = true ↔ s.isFalseNegative = true
    ∨ ∃ switch ∈ l, ∃ info, switch.2.entry sec srcip = some info ∧ 0 < info.realVolume
      ∧ info.capturedVolume ≤ 0
  volume : (s.isTargetFlowThroughSwitches = true → 0 < s.srcipVolumeAmongSwitches) →
    s'.isTargetFlowThroughSwitches = true → s'.isFalseNegative = false →
      0 < s'.srcipVolumeAmongSwitches

variable {l : List (ℕ × Rounds)} {s s' : SrcipTotals} {switch : ℕ × Rounds}

/-- A switch that has not seen the flow changes nothing. -/
theorem ThroughSpec.skip (h : ThroughSpec sec srcip l s s')
    (hno : ∀ info, switch.2.entry sec srcip = some info → ¬ 0 < info.realVolume) :
    ThroughSpec sec srcip (switch :: l) s s' := by
  refine ⟨h.through.trans (or_congr_right ?_), h.missed.trans (or_congr_right ?_), h.volume⟩
  · rw [List.exists_mem_cons_iff]
    exact (or_iff_right fun ⟨info, hinfo, hpos⟩ => hno info hinfo hpos).symm
  · rw [List.exists_mem_cons_iff]
    exact (or_iff_right fun ⟨info, hinfo, hpos, _⟩ => hno info hinfo hpos).symm

theorem throughSwitches_spec (sec : ℕ) (srcip : List UInt8) : ∀ (l : List (ℕ × Rounds))
    (s : SrcipTotals), ThroughSpec sec srcip l s (throughSwitches sec srcip l s) := by
  intro l
  induction l with
  | nil =>
    intro s
    rw [throughSwitches]
    exact ⟨by simp, by simp, fun h hs _ => h hs⟩
  | cons switch l ih =>
    intro s
    obtain ⟨switchid, rounds⟩ := switch
    rw [throughSwitches]
    cases hround : rounds.lookup sec with
    | none =>
      refine (ih s).skip fun info hinfo => ?_
      rw [Rounds.entry, hround] at hinfo
      cases hinfo
    | some flows =>
      have hentry : Rounds.entry rounds sec srcip = flows.lookup srcip := by
        rw [Rounds.entry, hround, Option.bind_some]
      simp only []
      cases hflow : flows.lookup srcip with
      | none =>
        refine (ih s).skip fun info hinfo => ?_
        rw [hentry, hflow] at hinfo
        cases hinfo
      | some info =>
        rw [hflow] at hentry
        simp only []
        by_cases hreal : info.realVolume ≤ 0
        · rw [if_pos hreal]
          refine (ih s).skip fun info' hinfo' => ?_
          rw [hentry] at hinfo'
          cases hinfo'
          exact Nat.not_lt.2 hreal
        · have hpos := Nat.not_le.1 hreal
          rw [if_neg hreal]
          have hhere : ∃ switch ∈ (switchid, rounds) :: l, ∃ info,
              switch.2.entry sec srcip = some info ∧ 0 < info.realVolume :=
            ⟨_, List.mem_cons_self, info, hentry, hpos⟩
          by_cases hcap : info.capturedVolume ≤ 0
          · rw [if_pos hcap]
            have hmiss : ∃ switch ∈ (switchid, rounds) :: l, ∃ info,
                switch.2.entry sec srcip = some info ∧ 0 < info.realVolume
                  ∧ info.capturedVolume ≤ 0 :=
              ⟨_, List.mem_cons_self, info, hentry, hpos, hcap⟩
            exact ⟨iff_of_true rfl (.inr hhere), iff_of_true rfl (.inr hmiss), fun _ _ => nofun⟩
          · rw [if_neg hcap]
            obtain ⟨hthrough, hmissed, hvolume⟩ := ih { s with
              isTargetFlowThroughSwitches := true
              srcipVolumeAmongSwitches := s.srcipVolumeAmongSwitches + info.realVolume
              srcipCapturedVolumeAmongSwitches :=
                s.srcipCapturedVolumeAmongSwitches + info.capturedVolume }
            refine ⟨iff_of_true (hthrough.2 (.inl rfl)) (.inr hhere),
              hmissed.trans (or_congr_right ?_),
              fun _ => hvolume fun _ => Nat.add_pos_right _ hpos⟩
            rw [List.exists_mem_cons_iff]
            refine (or_iff_right ?_).symm
            rintro ⟨info', hinfo', -, hcap'⟩
            rw [hentry] at hinfo'
            cases hinfo'
            exact hcap hcap'

end Through

/-! ## A round -/

section Round

variable {switches : Dict ℕ Rounds} {sec : ℕ} {srcip : List UInt8} {targets : TargetFlows}

/-- What is made of a target flow. -/
def verdict (switches : Dict ℕ Rounds) (sec : ℕ) (srcip : List UInt8) : Verdict ℚ :=
  let totals := throughSwitches sec srcip switches.items ⟨false, false, 0, 0⟩
  if !totals.isTargetFlowThroughSwitches then .out
  else if totals.isFalseNegative then .missed
  else .captured (totals.srcipCapturedVolumeAmongSwitches / totals.srcipVolumeAmongSwitches)

def RoundTotals.add (s : RoundTotals) : Verdict ℚ → RoundTotals
  | .out => s
  | .missed => { s with
      allTargetFlowNum := s.allTargetFlowNum + 1
      falseNegativeNum := s.falseNegativeNum + 1 }
  | .captured accuracy => { s with
      allTargetFlowNum := s.allTargetFlowNum + 1
      allCapturedTargetFlowNum := s.allCapturedTargetFlowNum + 1
      allAccuracy := s.allAccuracy + accuracy }

def RoundTotals.tally (s : RoundTotals) : Tally ℚ :=
  ⟨s.allTargetFlowNum, s.falseNegativeNum, s.allCapturedTargetFlowNum, s.allAccuracy⟩

theorem RoundTotals.tally_foldl (vs : List (Verdict ℚ)) :
    (vs.foldl RoundTotals.add RoundTotals.zero).tally = Tally.of vs :=
  (List.foldl_hom RoundTotals.tally fun s v => by cases v <;> rfl).symm

/-- The accuracy of a flow divides by a positive volume. -/
theorem addSrcip_eq_ok (s : RoundTotals) (srcip : List UInt8) :
    addSrcip switches sec s srcip = .ok (s.add (verdict switches sec srcip)) := by
  have hspec := throughSwitches_spec sec srcip switches.items ⟨false, false, 0, 0⟩
  rw [addSrcip, verdict]
  set totals := throughSwitches sec srcip switches.items ⟨false, false, 0, 0⟩
  cases hthrough : totals.isTargetFlowThroughSwitches with
  | false => rfl
  | true =>
    cases hmissed : totals.isFalseNegative with
    | true => rfl
    | false =>
      have hpos := hspec.volume nofun hthrough hmissed
      have hcast : (totals.srcipVolumeAmongSwitches : ℚ) ≠ 0 := Nat.cast_ne_zero.2 hpos.ne'
      have hdiv : pyDiv totals.srcipCapturedVolumeAmongSwitches totals.srcipVolumeAmongSwitches
          = .ok (totals.srcipCapturedVolumeAmongSwitches / totals.srcipVolumeAmongSwitches) :=
        if_neg hcast
      simp only [Bool.not_true, Bool.false_eq_true, if_false, hdiv]
      rfl

theorem exists_items_iff (switches : Dict ℕ Rounds) (sec : ℕ) (srcip : List UInt8)
    (q : SwitchFlowInfo → Prop) :
    (∃ switch ∈ switches.items, ∃ info, switch.2.entry sec srcip = some info
        ∧ 0 < info.realVolume ∧ q info)
      ↔ ∃ info, Seen switches sec srcip info ∧ q info := by
  constructor
  · rintro ⟨⟨switchid, rounds⟩, hswitch, info, hinfo, hpos, hq⟩
    exact ⟨info, ⟨switchid, rounds, Dict.mem_items.1 hswitch, hinfo, hpos⟩, hq⟩
  · rintro ⟨info, ⟨switchid, rounds, hswitch, hinfo, hpos⟩, hq⟩
    exact ⟨(switchid, rounds), Dict.mem_items.2 hswitch, info, hinfo, hpos, hq⟩

theorem isMissed_verdict : (verdict switches sec srcip).isMissed = true
    ↔ ∃ info, Seen switches sec srcip info ∧ info.capturedVolume ≤ 0 := by
  obtain ⟨hthrough, hmissed, -⟩ := throughSwitches_spec sec srcip switches.items
    ⟨false, false, 0, 0⟩
  rw [← exists_items_iff, verdict]
  rw [or_iff_right nofun] at hthrough hmissed
  rw [← hmissed]
  set totals := throughSwitches sec srcip switches.items ⟨false, false, 0, 0⟩
  cases hm : totals.isFalseNegative with
  | false => cases totals.isTargetFlowThroughSwitches <;> exact iff_of_false nofun nofun
  | true =>
    obtain ⟨switch, hswitch, info, hinfo, hpos, -⟩ := hmissed.1 hm
    rw [hthrough.2 ⟨switch, hswitch, info, hinfo, hpos⟩]
    exact iff_of_true rfl rfl

theorem isSeen_verdict : (verdict switches sec srcip).isSeen = true
    ↔ ∃ info, Seen switches sec srcip info := by
  obtain ⟨hthrough, -, -⟩ := throughSwitches_spec sec srcip switches.items
    ⟨false, false, 0, 0⟩
  have hseen := exists_items_iff switches sec srcip fun _ => True
  simp only [and_true] at hseen
  rw [← hseen, verdict]
  rw [or_iff_right nofun] at hthrough
  rw [← hthrough]
  cases (throughSwitches sec srcip switches.items
    ⟨false, false, 0, 0⟩).isTargetFlowThroughSwitches with
  | false => exact iff_of_false nofun nofun
  | true =>
    refine iff_of_true ?_ rfl
    cases (throughSwitches sec srcip switches.items ⟨false, false, 0, 0⟩).isFalseNegative <;> rfl

/-- The target flows on which there is such a verdict. -/
theorem ncard_targets (targets : TargetFlows) {q : List UInt8 → Prop} {p : Verdict ℚ → Bool}
    (h : ∀ srcip, p (verdict switches sec srcip) = true ↔ q srcip) :
    {srcip | srcip ∈ targets ∧ q srcip}.ncard
      = (targets.keys.map (verdict switches sec)).countP p := by
  have hkeys : (targets.keys.map id).Nodup := by
    rw [List.map_id]
    exact targets.keys_nodup
  rw [List.countP_map, ← Lib.ncard_eq_countP hkeys]
  congr 1
  ext srcip
  simp only [Set.mem_ofPred_eq, Function.comp_apply, h, id_eq, AList.mem_keys]
  constructor
  · rintro ⟨hmem, hq⟩
    exact ⟨srcip, hmem, hq, rfl⟩
  · rintro ⟨_, hmem, hq, rfl⟩
    exact ⟨hmem, hq⟩

/-- A target flow that was seen, and captured wherever it was. -/
def Captured (switches : Dict ℕ Rounds) (sec : ℕ) (srcip : List UInt8) : Prop :=
  (∃ info, Seen switches sec srcip info)
    ∧ ∀ info, Seen switches sec srcip info → 0 < info.capturedVolume

/-- The ratio is the share of the missed flows. -/
structure Right (switches : Dict ℕ Rounds) (targets : TargetFlows) (ratios : RoundRatios) :
    Prop where
  fn : ratios.falseNegativeRatio = (missedTargets switches ratios.sec targets).ncard
    / (seenTargets switches ratios.sec targets).ncard
  fn_mem : 0 ≤ ratios.falseNegativeRatio ∧ ratios.falseNegativeRatio ≤ 1

/-- A round divides by 0 exactly if no target flow is captured. -/
theorem ratiosOfRound_spec (switches : Dict ℕ Rounds) (sec : ℕ) (targets : TargetFlows) :
    ((∃ srcip ∈ targets, Captured switches sec srcip) ∧ ∃ ratios,
      ratiosOfRound switches sec targets = .ok ratios ∧ ratios.sec = sec
        ∧ Right switches targets ratios)
    ∨ (¬ ∃ srcip ∈ targets, Captured switches sec srcip)
      ∧ ratiosOfRound switches sec targets = .error .zeroDivisionError := by
  set vs := targets.keys.map (verdict switches sec) with hvs
  set s := vs.foldl RoundTotals.add RoundTotals.zero with hs
  have hfold : targets.keys.foldlM (addSrcip switches sec) RoundTotals.zero = .ok s := by
    rw [hs, hvs, List.foldl_map]
    exact foldlM_eq_ok (fun srcip _ s => addSrcip_eq_ok s srcip) RoundTotals.zero
  have htally : s.tally = Tally.of vs := RoundTotals.tally_foldl vs
  have hall : s.allTargetFlowNum = vs.countP Verdict.isSeen :=
    (congrArg Tally.all htally).trans (Tally.all_of vs)
  have hmissed : s.falseNegativeNum = vs.countP Verdict.isMissed :=
    (congrArg Tally.missed htally).trans (Tally.missed_of vs)
  have hadd : s.allTargetFlowNum = s.falseNegativeNum + s.allCapturedTargetFlowNum := by
    have h := Tally.all_of_eq_add vs
    rw [← htally] at h
    exact h
  have hzero : s.allCapturedTargetFlowNum = 0
      ↔ ¬ ∃ srcip ∈ targets, Captured switches sec srcip := by
    have h := Tally.captured_of_eq_zero vs
    rw [← htally] at h
    refine h.trans ?_
    rw [hvs, List.forall_mem_map, not_exists]
    refine forall_congr' fun srcip => ?_
    rw [isSeen_verdict, isMissed_verdict, not_and, Captured, not_and, AList.mem_keys]
    refine imp_congr_right fun _ => imp_congr_right fun _ => ?_
    simp only [not_forall, not_lt, exists_prop]
  have hrun : ratiosOfRound switches sec targets = (do
      let falseNegativeRatio ← pyDiv s.falseNegativeNum s.allTargetFlowNum
      let capturedFlowsAvgAccuracy ← pyDiv s.allAccuracy s.allCapturedTargetFlowNum
      return ⟨sec, s.allTargetFlowNum, falseNegativeRatio, capturedFlowsAvgAccuracy⟩) := by
    rw [ratiosOfRound, hfold]
    rfl
  by_cases hcap : s.allCapturedTargetFlowNum = 0
  · refine .inr ⟨hzero.1 hcap, ?_⟩
    have hdiv : pyDiv s.allAccuracy s.allCapturedTargetFlowNum = .error .zeroDivisionError :=
      if_pos (by rw [hcap, Nat.cast_zero])
    rw [hrun, hdiv, pyDiv]
    split <;> rfl
  · have hallne : (s.allTargetFlowNum : ℚ) ≠ 0 := Nat.cast_ne_zero.2 (by omega)
    have hfn : pyDiv s.falseNegativeNum s.allTargetFlowNum
        = .ok (s.falseNegativeNum / s.allTargetFlowNum) := if_neg hallne
    have hacc : pyDiv s.allAccuracy s.allCapturedTargetFlowNum
        = .ok (s.allAccuracy / s.allCapturedTargetFlowNum) := if_neg (Nat.cast_ne_zero.2 hcap)
    rw [hfn, hacc] at hrun
    refine .inl ⟨not_not.1 fun hno => hcap (hzero.2 hno), _, hrun, rfl, ?_, Tally.ratio_mem ?_⟩
    · have hseen : (seenTargets switches sec targets).ncard = s.allTargetFlowNum :=
        (ncard_targets targets fun _ => isSeen_verdict).trans hall.symm
      have hmiss : (missedTargets switches sec targets).ncard = s.falseNegativeNum :=
        (ncard_targets targets fun _ => isMissed_verdict).trans hmissed.symm
      rw [hseen, hmiss]
    · omega

end Round

/-! ## All rounds -/

section Rounds

variable {switches : Dict ℕ Rounds}

/-- A round's turn. -/
def addRatios (switches : Dict ℕ Rounds) (rounds : List RoundRatios) (round : ℕ × TargetFlows) :
    Except PyError (List RoundRatios) := do
  if round.2.keys.length < 800 then return rounds
  else
    let ratios ← ratiosOfRound switches round.1 round.2
    return rounds ++ [ratios]

/-- A round with enough target flows has one that is captured. -/
def HasCaptured (switches : Dict ℕ Rounds) (round : ℕ × TargetFlows) : Prop :=
  800 ≤ round.2.keys.length → ∃ srcip ∈ round.2, Captured switches round.1 srcip

theorem hasCaptured_of_addRatios {rounds rounds' : List RoundRatios} {round : ℕ × TargetFlows}
    (h : addRatios switches rounds round = .ok rounds') : HasCaptured switches round := by
  intro hlarge
  rw [addRatios, if_neg (Nat.not_lt.2 hlarge)] at h
  obtain ⟨ratios, hratios, -⟩ := bind_eq_ok.1 h
  rcases ratiosOfRound_spec switches round.1 round.2 with ⟨hex, -⟩ | ⟨-, herr⟩
  · exact hex
  · rw [herr] at hratios
    cases hratios

/-- Each round with enough target flows gets its ratios. -/
theorem foldlM_addRatios_spec : ∀ {l : List (ℕ × TargetFlows)},
    (∀ round ∈ l, HasCaptured switches round) → ∀ rounds, ∃ new,
      l.foldlM (addRatios switches) rounds = .ok (rounds ++ new)
        ∧ new.map (·.sec) = (l.filter fun round => 800 ≤ round.2.keys.length).map Prod.fst
        ∧ ∀ ratios ∈ new, ∃ targets, (ratios.sec, targets) ∈ l
          ∧ Right switches targets ratios := by
  intro l
  induction l with
  | nil => exact fun _ rounds => ⟨[], by rw [List.append_nil]; rfl, rfl, nofun⟩
  | cons round l ih =>
    intro h rounds
    rw [List.forall_mem_cons] at h
    by_cases hlarge : 800 ≤ round.2.keys.length
    · rcases ratiosOfRound_spec switches round.1 round.2 with
        ⟨-, ratios, hratios, hsec, hright⟩ | ⟨hno, -⟩
      · obtain ⟨new, hnew, hsecs, hmem⟩ := ih h.2 (rounds ++ [ratios])
        have hstep : addRatios switches rounds round = .ok (rounds ++ [ratios]) := by
          rw [addRatios, if_neg (Nat.not_lt.2 hlarge), hratios]
          rfl
        refine ⟨ratios :: new, ?_, ?_, List.forall_mem_cons.2 ⟨⟨round.2, ?_, hright⟩, ?_⟩⟩
        · rw [List.append_assoc, List.singleton_append] at hnew
          rw [List.foldlM_cons, hstep]
          exact hnew
        · rw [List.map_cons, hsecs, hsec, List.filter_cons, if_pos (decide_eq_true hlarge),
            List.map_cons]
        · rw [hsec]
          exact List.mem_cons_self
        · intro r hr
          obtain ⟨targets, ht, hr⟩ := hmem r hr
          exact ⟨targets, List.mem_cons_of_mem _ ht, hr⟩
      · exact absurd (h.1 hlarge) hno
    · obtain ⟨new, hnew, hsecs, hmem⟩ := ih h.2 rounds
      have hstep : addRatios switches rounds round = .ok rounds := if_pos (Nat.not_le.1 hlarge)
      refine ⟨new, ?_, ?_, fun r hr => ?_⟩
      · rw [List.foldlM_cons, hstep]
        exact hnew
      · rw [hsecs, List.filter_cons_of_neg (by simpa using hlarge)]
      · obtain ⟨targets, ht, hr⟩ := hmem r hr
        exact ⟨targets, List.mem_cons_of_mem _ ht, hr⟩

/-- Every round with enough target flows gets its share of missed flows, exactly if each such round
has a target flow that was seen and captured wherever it was seen. -/
theorem method4_ratios_iff (globalRoundsTargetFlows : Dict ℕ TargetFlows)
    (switches : Dict ℕ Rounds) :
    (∃ rounds, calculateResultMethod4 globalRoundsTargetFlows switches = .ok rounds
      ∧ rounds.map (·.sec) = (globalRoundsTargetFlows.sortedItems.filter
        fun round => 800 ≤ round.2.keys.length).map Prod.fst
      ∧ ∀ ratios ∈ rounds, ∃ targets, globalRoundsTargetFlows.lookup ratios.sec = some targets
        ∧ ratios.falseNegativeRatio = (missedTargets switches ratios.sec targets).ncard
          / (seenTargets switches ratios.sec targets).ncard
        ∧ 0 ≤ ratios.falseNegativeRatio ∧ ratios.falseNegativeRatio ≤ 1)
    ↔ ∀ sec targets, globalRoundsTargetFlows.lookup sec = some targets →
        800 ≤ targets.keys.length → ∃ srcip ∈ targets, Captured switches sec srcip := by
  constructor
  · rintro ⟨rounds, hrounds, -⟩ sec targets htargets
    obtain ⟨c, c', hc⟩ := exists_of_foldlM_eq_ok (f := addRatios switches) hrounds
      (Dict.mem_sortedItems.2 htargets)
    exact hasCaptured_of_addRatios hc
  · intro h
    obtain ⟨rounds, hrounds, hsecs, hmem⟩ := foldlM_addRatios_spec
      (fun round hround => h round.1 round.2 (Dict.mem_sortedItems.1 hround)) []
    refine ⟨rounds, hrounds, hsecs, fun ratios hratios => ?_⟩
    obtain ⟨targets, ht, hright⟩ := hmem ratios hratios
    exact ⟨targets, Dict.mem_sortedItems.1 ht, hright.fn, hright.fn_mem⟩

/-- 10.0.3.72 and the addresses after it, as they are written. -/
def exampleSrcip (i : ℕ) : List UInt8 :=
  chars "167773" ++ [i / 100, i / 10 % 10, i % 10].map fun d => UInt8.ofNat (48 + d)

theorem exampleSrcip_inj {i j : ℕ} (hi : i < 1000) (hj : j < 1000)
    (h : exampleSrcip i = exampleSrcip j) : i = j := by
  have hdigit : ∀ {d d' : ℕ}, d < 10 → d' < 10 → UInt8.ofNat (48 + d) = UInt8.ofNat (48 + d') →
      d = d' := by
    intro d d' hd hd' heq
    have hnat := congrArg UInt8.toNat heq
    rw [UInt8.toNat_ofNat', UInt8.toNat_ofNat'] at hnat
    omega
  have h := List.append_cancel_left h
  simp only [List.map_cons, List.map_nil, List.cons.injEq, and_true] at h
  have h₁ := hdigit (by omega) (by omega) h.1
  have h₂ := hdigit (by omega) (by omega) h.2.1
  have h₃ := hdigit (by omega) (by omega) h.2.2
  omega

/-- A round with 800 target flows. -/
def exampleTargets : TargetFlows where
  entries := (List.range 800).map fun i => ⟨exampleSrcip i, 1⟩
  nodupKeys := by
    rw [List.NodupKeys, List.keys, List.map_map]
    refine List.nodup_range.map_on fun i hi j hj h => exampleSrcip_inj ?_ ?_ h
    · rw [List.mem_range] at hi
      omega
    · rw [List.mem_range] at hj
      omega

/-- s1 has seen one of them and has captured nothing of it. -/
def exampleSwitches : Dict ℕ Rounds :=
  AList.insert 1 (AList.insert 8 (AList.insert (exampleSrcip 0) ⟨60, 0, 1, 1⟩ ∅) ∅) ∅

theorem not_captured_exampleSwitches (srcip : List UInt8) : ¬ Captured exampleSwitches 8 srcip := by
  rintro ⟨⟨info, hseen⟩, hcap⟩
  have hpos := hcap info hseen
  obtain ⟨switchid, rounds, hrounds, hinfo, -⟩ := hseen
  rw [exampleSwitches, Dict.lookup_insert_if] at hrounds
  split at hrounds
  · cases hrounds
    rw [Rounds.entry, AList.lookup_insert, Option.bind_some, Dict.lookup_insert_if] at hinfo
    split at hinfo
    · cases hinfo
      exact absurd hpos (lt_irrefl _)
    · cases hinfo
  · cases hrounds

/-- Every target flow that was seen is missed, which is an error. -/
theorem method4_divides_by_zero :
    calculateResultMethod4 (AList.insert 8 exampleTargets ∅) exampleSwitches
      = .error .zeroDivisionError := by
  have hlarge : ¬ exampleTargets.keys.length < 800 := by
    simp [exampleTargets, AList.keys, List.keys]
  have hround : ratiosOfRound exampleSwitches 8 exampleTargets = .error .zeroDivisionError := by
    rcases ratiosOfRound_spec exampleSwitches 8 exampleTargets with ⟨⟨srcip, -, hcap⟩, -⟩ | ⟨-, h⟩
    · exact absurd hcap (not_captured_exampleSwitches srcip)
    · exact h
  have hsorted : Dict.sortedItems (AList.insert 8 exampleTargets ∅) = [(8, exampleTargets)] := rfl
  rw [calculateResultMethod4, hsorted, List.foldlM_cons]
  simp only [if_neg hlarge, hround]
  rfl

end Rounds

end Method4

end CMTestbed
