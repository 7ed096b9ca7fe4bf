import CMTestbed.Reports
import CMTestbed.Proofs.HostLogs
import CMTestbed.Proofs.Sampling

/-!
# Reports read back

Each row of a report is taken for what it is, and no other line for a row or a round.  What is
stored has the row's volume for its loss volume, and a row without volume ends the reading.
-/

namespace CMTestbed

variable {setting : ReportSetting} {w : DataWarehouse}

/-! ## What the writers leave -/

/-- The cursors of the tables that the writers iterate over are reset. -/
structure Buffer.CursorsReset (b : Buffer) : Prop where
  level : b.flowSelectedLevelMap.AtReset
  rate : b.flowLossRateMap.AtReset
  volume : b.flowVolumeMap.AtReset

namespace Buffer.CursorsReset

variable {s : CmExperimentSetting} {b : Buffer}

theorem create : (Buffer.create s).CursorsReset :=
  ⟨Lib.Table.atReset_create, Lib.Table.atReset_create, Lib.Table.atReset_create⟩

theorem updateRateAndLevel (h : b.CursorsReset) (f : FlowSrc) (volume lossVolume : ℤ) :
    (b.updateRateAndLevel s f volume lossVolume).CursorsReset := by
  refine ⟨?_, h.rate.set _ _, h.volume⟩
  show (updateFlowSelectedLevelMap s _ _ _ _ _).AtReset
  unfold updateFlowSelectedLevelMap
  dsimp only
  split_ifs
  · exact h.level.set _ _
  · exact h.level.set _ _
  · exact h.level.del _
  · exact h.level.del _

/-- The updates set and delete entries, which moves no reset cursor. -/
theorem updateFlowNormalVolume (h : b.CursorsReset) (f : FlowSrc) (n : ℤ) :
    (b.updateFlowNormalVolume s f n).CursorsReset := by
  unfold Buffer.updateFlowNormalVolume
  split_ifs
  · refine updateRateAndLevel ?_ f _ _
    exact ⟨h.level, h.rate, h.volume.set _ _⟩
  · exact h

theorem updateFlowLossVolume (h : b.CursorsReset) (f : FlowSrc) (n : ℤ) (rand : ℚ) :
    (b.updateFlowLossVolume s f n rand).CursorsReset := by
  have hloss : ∀ volume, (recordLoss s f n rand volume
      { b with volumeLost := b.volumeLost + UInt64.ofInt n }).CursorsReset := by
    intro volume
    refine updateRateAndLevel ?_ f _ _
    exact ⟨h.level, h.rate, h.volume⟩
  unfold Buffer.updateFlowLossVolume
  dsimp only
  split_ifs
  · exact ⟨h.level, h.rate, h.volume⟩
  · exact hloss _
  · exact ⟨h.level, h.rate, h.volume⟩

end Buffer.CursorsReset

theorem DataWarehouse.modifyUnactive_eq_self {f : Buffer → Buffer} (h : f w.unactive = w.unactive) :
    w.modifyUnactive f = w := by
  rw [modifyUnactive, h, unactive, Function.update_eq_self]

theorem writeIntervalInfoToFile_fst (h : w.unactive.CursorsReset) (currentMsec : UInt64) :
    (writeIntervalInfoToFile setting w currentMsec).1 = w := by
  unfold writeIntervalInfoToFile
  dsimp only
  refine DataWarehouse.modifyUnactive_eq_self ?_
  rw [(Lib.Table.pass_spec h.rate).1, (Lib.Table.pass_spec h.volume).1]

theorem writeLastSent_fst (h : w.unactive.CursorsReset) :
    (writeLastSentFlowSelectedLevelMapLostTargetFlow w).1 = w := by
  unfold writeLastSentFlowSelectedLevelMapLostTargetFlow
  dsimp only
  refine DataWarehouse.modifyUnactive_eq_self ?_
  rw [(Lib.Table.pass_spec h.level).1]

/-! ## The target flows -/

/-- The flow has the target level and belongs to a task. -/
def IsTargetFlow (w : DataWarehouse) (f : FlowSrc) : Prop :=
  htKfsViGet w.unactive.flowSelectedLevelMap f = targetLevel
    ∧ getTaskOfTraffic w.taskManager f ≠ none

theorem htKfsViGet_eq_iff {hashtable : HtKfsVi} {f : FlowSrc} {n : ℤ} (h₀ : 0 ≤ n)
    (h : n < 2 ^ 31) : htKfsViGet hashtable f = n ↔ hashtable.get f = some (toUInt n) := by
  have hn := toInt_toUInt h₀ h
  rw [htKfsViGet]
  split
  · next value hvalue =>
    rw [hvalue, Option.some.injEq]
    refine ⟨fun he => ?_, fun he => by rw [he, hn]⟩
    rw [← hn, toInt, toInt] at he
    have h32 := congrArg Int32.toUInt32 (Int32.toInt_inj.1 he)
    rwa [UInt32.toUInt32_toInt32, UInt32.toUInt32_toInt32] at h32
  · next hnone =>
    rw [hnone]
    simp
    omega

theorem mem_reportedFlows (h : w.unactive.flowSelectedLevelMap.AtReset) {f : FlowSrc} :
    f ∈ reportedFlows w ↔ IsTargetFlow w f := by
  obtain ⟨-, hmem, hcomplete, -⟩ := Lib.Table.pass_spec h
  rw [IsTargetFlow, htKfsViGet_eq_iff (by decide) (by decide), reportedFlows, targetFlows,
    List.mem_map, Option.isSome_iff_ne_none.symm]
  constructor
  · rintro ⟨e, he, rfl⟩
    rw [List.mem_filter, Bool.and_eq_true, decide_eq_true_eq] at he
    exact ⟨(hmem e he.1).trans (by rw [he.2.1]), he.2.2⟩
  · rintro ⟨hlevel, htask⟩
    obtain ⟨⟨k, v⟩, he, hrank, hv⟩ := hcomplete f _ hlevel
    obtain rfl : k = f := flowSrcKeying_rank.1 hrank
    exact ⟨_, List.mem_filter.2 ⟨he, by rw [hv, htask]; rfl⟩, rfl⟩

theorem reportedFlows_nodup (h : w.unactive.flowSelectedLevelMap.AtReset) :
    (reportedFlows w).Nodup := by
  obtain ⟨-, -, -, hnodup⟩ := Lib.Table.pass_spec h
  have hkeys : (w.unactive.flowSelectedLevelMap.pass.2.map Prod.fst).Nodup := by
    refine List.Nodup.of_map flowSrcKeying.rank ?_
    rwa [List.map_map]
  exact hkeys.sublist (List.filter_sublist.map _)

/-! ## The lines of a report -/

/-- The name of a line is taken for no row and for no round. -/
def LabelOk (label : List UInt8) : Bool :=
  decide (Unbroken label) && label.head?.any fun c => c ≠ 61 && !isdigit c

theorem other_line {label rest : List UInt8} (hlabel : LabelOk label = true)
    (hrest : Unbroken rest) :
    IsLine (label ++ rest ++ [10]) ∧ parseHostLine (label ++ rest ++ [10]) = .other := by
  simp only [LabelOk, Bool.and_eq_true, decide_eq_true_eq, Bool.not_eq_true',
    Option.any_eq_true] at hlabel
  obtain ⟨hunbroken, c, hc, hequals, hdigit⟩ := hlabel
  obtain ⟨s, rfl⟩ := List.head?_eq_some_iff.1 hc
  refine ⟨⟨_, rfl, ?_⟩, parseHostLine_other ?_ (stops_cons hdigit _)⟩
  · exact unbroken_append.2 ⟨hunbroken, hrest⟩
  · intro h
    exact hequals (Option.some.inj h)

/-- A line of the counters. -/
theorem nameValue_line {name : String} {value : List UInt8} (hname : LabelOk (chars name) = true)
    (hvalue : Unbroken value) :
    IsLine (nameValue name value) ∧ parseHostLine (nameValue name value) = .other := by
  have hrest : Unbroken (58 :: value) := by simp [hvalue]
  have h := other_line hname hrest
  have htext : nameValue name value = chars name ++ 58 :: value ++ [10] := by
    simp [nameValue]
  rwa [htext]

/-- The lines of the counters. -/
def counterLines (setting : ReportSetting) (w : DataWarehouse) : List (List UInt8) :=
  let target := setting.targetFlowSetting
  let b := w.unactive
  let rates := b.flowLossRateMap.pass.2
  let volumes := b.flowVolumeMap.pass.2
  [nameValue "interval_msec_len" (formatInt setting.intervalMsecLen),
    nameValue "condition_msec_freq" (formatInt setting.conditionMsecFreq),
    nameValue "replacement" (formatInt setting.replacement.toNat),
    nameValue "switch_mem_type" (formatInt setting.switchMemType),
    nameValue "host_or_switch_sample" (formatInt setting.hostOrSwitchSample.toInt),
    nameValue "switch_drop_rate" (formatFloat setting.switchDropRate),
    nameValue "target_flow_volume_threshold" (formatInt target.volumeThreshold),
    nameValue "target_flow_loss_rate_threshold" (formatFloat target.lossRateThreshold),
    nameValue "target_flow_loss_volume_threshold" (formatInt target.lossVolumeThreshold),
    nameValue "pkt_num_sent" (formatNat b.pktNumSent.toNat),
    nameValue "volume_sent" (formatNat b.volumeSent.toNat),
    nameValue "volume_lost_detected" (formatNat b.volumeLost.toNat)]
  ++ (if b.volumeSent > 0 then
      [nameValue "volume_lost_rate_detected"
        (formatFloat (b.volumeLost.toNat / b.volumeSent.toNat))] else [])
  ++ [nameValue "condition_pkt_num_sent" (formatNat b.conditionPktNumSent.toNat),
    nameValue "loss_rate_ok_flow_num"
      (formatInt (rates.countP fun e => e.2 > target.lossRateThreshold)),
    nameValue "volume_ok_flow_num"
      (formatInt (volumes.countP fun e => e.2 > toUInt target.volumeThreshold)),
    nameValue "unique_flow_num_sent" (formatInt volumes.length)]

theorem counterLines_other : ∀ line ∈ counterLines setting w,
    IsLine line ∧ parseHostLine line = .other := by
  have hnat : ∀ name n, LabelOk (chars name) = true → IsLine (nameValue name (formatNat n))
      ∧ parseHostLine (nameValue name (formatNat n)) = .other :=
    fun _ n h => nameValue_line h (unbroken_formatNat n)
  have hint : ∀ name n, LabelOk (chars name) = true → IsLine (nameValue name (formatInt n))
      ∧ parseHostLine (nameValue name (formatInt n)) = .other :=
    fun _ n h => nameValue_line h (unbroken_formatInt n)
  have hfloat : ∀ name q, LabelOk (chars name) = true → IsLine (nameValue name (formatFloat q))
      ∧ parseHostLine (nameValue name (formatFloat q)) = .other :=
    fun _ q h => nameValue_line h (unbroken_formatFloat q)
  have hrate : ∀ q, ∀ line ∈ if w.unactive.volumeSent > 0 then
      [nameValue "volume_lost_rate_detected" (formatFloat q)] else [],
      IsLine line ∧ parseHostLine line = .other := by
    intro q line hline
    split_ifs at hline
    · rw [List.mem_singleton.1 hline]
      exact hfloat _ _ (by decide +kernel)
    · cases hline
  unfold counterLines
  simp only [List.forall_mem_append, List.forall_mem_cons]
  refine ⟨⟨⟨?_, ?_, ?_, ?_, ?_, ?_, ?_, ?_, ?_, ?_, ?_, ?_, ?_⟩, hrate _⟩, ?_, ?_, ?_, ?_, ?_⟩
  all_goals first
    | exact hnat _ _ (by decide +kernel)
    | exact hint _ _ (by decide +kernel)
    | exact hfloat _ _ (by decide +kernel)
    | exact fun _ h => absurd h List.not_mem_nil

/-- The line before the rows. -/
def lostLine (w : DataWarehouse) : List UInt8 :=
  let flows := reportedFlows w
  let lost := flows.filter fun pFlow =>
    htKfsViGet w.lastSentFlowSelectedLevelMap pFlow ≠ targetLevel
  chars "target_flow_num:" ++ (formatInt flows.length
    ++ chars ", lost_target_flow_num_last_sent_conditionmap:" ++ formatInt lost.length) ++ [10]

theorem lostLine_other : IsLine (lostLine w) ∧ parseHostLine (lostLine w) = .other := by
  have hlabel : Unbroken (chars ", lost_target_flow_num_last_sent_conditionmap:") := by
    decide +kernel
  refine other_line (by decide +kernel) ?_
  simp only [unbroken_append]
  exact ⟨⟨unbroken_formatInt _, hlabel⟩, unbroken_formatInt _⟩

/-- The line of the round. -/
def roundLine (currentMsec : UInt64) : List UInt8 :=
  chars "=====time-" ++ formatNat currentMsec.toNat ++ chars " milliseconds=====\n"

theorem isLine_roundLine (currentMsec : UInt64) : IsLine (roundLine currentMsec) := by
  have hend : chars " milliseconds=====\n" = chars " milliseconds=====" ++ [10] := by
    decide +kernel
  have hstart : Unbroken (chars "=====time-") := by decide +kernel
  have hmid : Unbroken (chars " milliseconds=====") := by decide +kernel
  refine ⟨chars "=====time-" ++ formatNat currentMsec.toNat ++ chars " milliseconds=====",
    by rw [roundLine, hend, List.append_assoc _ _ [10]], ?_⟩
  simp only [unbroken_append]
  exact ⟨⟨hstart, unbroken_formatNat _⟩, hmid⟩

/-- The row of a reported flow. -/
def rowOf (setting : ReportSetting) (w : DataWarehouse) (f : FlowSrc) : PrintedRow where
  srcip := f.srcip.toNat
  dstip := f.dstip.toNat
  volume := (htKfsViGet w.unactive.flowVolumeMap f).toNat
  lossRate := htKfsVfGet w.unactive.flowLossRateMap f
  lossVolume := writtenLossVolume setting w f
  notSampledVolume := htKfsViGet w.unactive.flowNotSampledVolumeMap f
  sentOut := htKfsViGet w.lastSentFlowSelectedLevelMap f

theorem text_rowOf {f : FlowSrc} (h : 0 ≤ htKfsViGet w.unactive.flowVolumeMap f) :
    targetFlowRow setting w f = (rowOf setting w f).text := by
  rw [targetFlowRow, formatInt_of_nonneg h]
  rfl

/-- The volumes and loss rates of the reported flows are known. -/
def KnownValues (w : DataWarehouse) : Prop :=
  ∀ f, IsTargetFlow w f → 0 ≤ htKfsViGet w.unactive.flowVolumeMap f
    ∧ 0 ≤ htKfsVfGet w.unactive.flowLossRateMap f

theorem writeIntervalInfoToFile_snd (currentMsec : UInt64) :
    (writeIntervalInfoToFile setting w currentMsec).2
      = (roundLine currentMsec :: counterLines setting w).flatten := by
  unfold writeIntervalInfoToFile counterLines roundLine
  dsimp only
  split_ifs <;> simp only [List.flatten_cons, List.flatten_append, List.flatten_nil,
    List.append_assoc, List.append_nil]

theorem writeLastSent_snd :
    (writeLastSentFlowSelectedLevelMapLostTargetFlow w).2 = lostLine w := by
  unfold writeLastSentFlowSelectedLevelMapLostTargetFlow lostLine reportedFlows
  simp only [List.append_assoc]

theorem writeTargetFlowsToFile_snd (h : w.unactive.flowSelectedLevelMap.AtReset)
    (hknown : KnownValues w) : (writeTargetFlowsToFile setting w).2
      = ((reportedFlows w).map fun f => (rowOf setting w f).text).flatten := by
  rw [← List.flatMap_def]
  refine List.flatMap_congr fun f hf => text_rowOf ?_
  exact (hknown f ((mem_reportedFlows h).1 hf)).1

def reportLines (setting : ReportSetting) (w : DataWarehouse) (currentMsec : UInt64) :
    List (List UInt8) :=
  roundLine currentMsec :: (counterLines setting w ++ [lostLine w])
    ++ (reportedFlows w).map fun f => (rowOf setting w f).text

theorem isLine_reportLines (currentMsec : UInt64) :
    ∀ line ∈ reportLines setting w currentMsec, IsLine line := by
  unfold reportLines
  simp only [List.cons_append, List.forall_mem_cons, List.forall_mem_append, List.forall_mem_map]
  exact ⟨isLine_roundLine _, ⟨fun l hl => (counterLines_other l hl).1, lostLine_other.1,
    fun _ h => absurd h List.not_mem_nil⟩, fun f _ => (rowOf setting w f).isLine_text⟩

/-- The report's text, and the tables as they were. -/
theorem reportInterval_eq (h : w.unactive.CursorsReset) (hknown : KnownValues w)
    (currentMsec : UInt64) : reportInterval setting w currentMsec
      = (w, (reportLines setting w currentMsec).flatten) := by
  have hrows : (writeTargetFlowsToFile setting w).1 = w := by
    unfold writeTargetFlowsToFile
    dsimp only
    refine DataWarehouse.modifyUnactive_eq_self ?_
    rw [(Lib.Table.pass_spec h.level).1]
  unfold reportInterval reportLines
  dsimp only
  rw [writeIntervalInfoToFile_fst h, writeLastSent_fst h, writeIntervalInfoToFile_snd,
    writeLastSent_snd, writeTargetFlowsToFile_snd h.level hknown, hrows]
  simp

theorem readlines_reportInterval (h : w.unactive.CursorsReset) (hknown : KnownValues w)
    (currentMsec : UInt64) : readlines (reportInterval setting w currentMsec).2
      = reportLines setting w currentMsec := by
  rw [reportInterval_eq h hknown, readlines_flatten (isLine_reportLines currentMsec)]

/-- What the lines are taken for. -/
theorem parse_reportInterval (h : w.unactive.CursorsReset) (hknown : KnownValues w)
    (currentMsec : UInt64) : (readlines (reportInterval setting w currentMsec).2).map parseHostLine
      = .round currentMsec.toNat :: List.replicate ((counterLines setting w).length + 1) .other
        ++ (reportedFlows w).map fun f => .flow (rowOf setting w f).groups := by
  have hother : (counterLines setting w ++ [lostLine w]).map parseHostLine
      = List.replicate ((counterLines setting w).length + 1) .other := by
    rw [List.eq_replicate_iff]
    refine ⟨by simp, fun l hl => ?_⟩
    obtain ⟨line, hline, rfl⟩ := List.mem_map.1 hl
    rcases List.mem_append.1 hline with hline | hline
    · exact (counterLines_other line hline).2
    · rw [List.mem_singleton.1 hline]
      exact lostLine_other.2
  have hrows : ((reportedFlows w).map fun f => (rowOf setting w f).text).map parseHostLine
      = (reportedFlows w).map fun f => .flow (rowOf setting w f).groups := by
    rw [List.map_map]
    refine List.map_congr_left fun f hf => ?_
    have hrate : 0 ≤ (rowOf setting w f).lossRate :=
      (hknown f ((mem_reportedFlows h.level).1 hf)).2
    rw [Function.comp_apply, (rowOf setting w f).parseHostLine_text hrate]
  have hround : parseHostLine (roundLine currentMsec) = .round currentMsec.toNat :=
    parseHostLine_round _
  rw [readlines_reportInterval h hknown, reportLines, List.map_append, List.map_cons, hother,
    hrows, hround]

/-! ## Reading a report -/

/-- The state of the reading after the line of a round. -/
def atRound (s : HostReading) (sec : ℕ) : HostReading :=
  { s with
    curRoundSec := sec
    roundsTargetFlowsMap :=
      if sec ∈ s.roundsTargetFlowsMap then s.roundsTargetFlowsMap
      else AList.insert sec ∅ s.roundsTargetFlowsMap }

/-- Reading a report is reading its rows in its round. -/
theorem readHostLines_reportInterval (h : w.unactive.CursorsReset) (hknown : KnownValues w)
    (currentMsec : UInt64) (s : HostReading) :
    readHostLines s (reportInterval setting w currentMsec).2
      = ((reportedFlows w).map (rowOf setting w)).foldlM
        (fun s r => readHostLine s (.flow r.groups)) (atRound s (currentMsec.toNat / 1000)) := by
  have hother : ∀ k s, (List.replicate k HostLine.other).foldlM readHostLine s = .ok s := by
    intro k s
    induction k with
    | zero => rfl
    | succ k ih => exact ih
  rw [readHostLines_eq, parse_reportInterval h hknown, List.cons_append, List.foldlM_cons]
  show (List.replicate _ _ ++ _).foldlM readHostLine (atRound s _) = _
  rw [List.foldlM_append, hother, List.foldlM_map]
  show (List.map _ _).foldlM readHostLine (atRound s _) = _
  rw [List.foldlM_map]

/-- What the row of a flow says. -/
def written (setting : ReportSetting) (w : DataWarehouse) (f : FlowSrc) : HostTargetFlowInfo where
  srcip := f.srcip.toNat
  dstip := f.dstip.toNat
  volume := formatInt (htKfsViGet w.unactive.flowVolumeMap f)
  lossVolume := formatInt (writtenLossVolume setting w f)
  lossRate := formatFloat (htKfsVfGet w.unactive.flowLossRateMap f)

def flowKey (f : FlowSrc) : List UInt8 :=
  srcipDstipKey (formatNat f.srcip.toNat) (formatNat f.dstip.toNat)

theorem flowKey_injective : Function.Injective flowKey := by
  rintro ⟨srcip, dstip⟩ ⟨srcip', dstip'⟩ h
  obtain ⟨hsrc, hdst⟩ := srcipDstipKey_inj h
  obtain rfl : srcip = srcip' := UInt32.toNat_inj.1 hsrc
  obtain rfl : dstip = dstip' := UInt32.toNat_inj.1 hdst
  rfl

/-- The report comes through a reading that has got to `s`. -/
structure ReportSurvives (setting : ReportSetting) (w : DataWarehouse) (currentMsec : UInt64)
    (s : HostReading) : Prop where
  /-- The rows of the target flows are taken for rows, and no other line for a row or a round. -/
  lines : ∃ (flows : List FlowSrc) (k : ℕ), flows.Nodup ∧ (∀ f, f ∈ flows ↔ IsTargetFlow w f)
    ∧ (readlines (reportInterval setting w currentMsec).2).map parseHostLine
      = .round currentMsec.toNat :: List.replicate k .other
        ++ flows.map fun f => .flow (rowOf setting w f).groups
  /-- In the report's round the target flows have what was written, and nothing else changes. -/
  stored : ∃ s', readHostLines s (reportInterval setting w currentMsec).2 = .ok s'
    ∧ (∀ f, IsTargetFlow w f → s'.roundsTargetFlowsMap.entry (currentMsec.toNat / 1000) (flowKey f)
      = some (written setting w f))
    ∧ ∀ sec key, (∀ f, IsTargetFlow w f → sec = currentMsec.toNat / 1000 → key ≠ flowKey f) →
      s'.roundsTargetFlowsMap.entry sec key = s.roundsTargetFlowsMap.entry sec key

/-- What is stored of a flow has its volume for its loss volume. -/
theorem stored_rowOf {f : FlowSrc} (h : 0 ≤ htKfsViGet w.unactive.flowVolumeMap f) :
    (rowOf setting w f).stored = { written setting w f with
      lossVolume := formatInt (htKfsViGet w.unactive.flowVolumeMap f) } := by
  rw [formatInt_of_nonneg h, written, formatInt_of_nonneg h, PrintedRow.stored,
    HostTargetFlowInfo.init, digits_formatNat, digits_formatNat]
  rfl

/-- Without rows of volume 0 the report is read, and what is stored is known. -/
theorem readHostLines_ok (h : w.unactive.CursorsReset) (hknown : KnownValues w)
    (hvolume : ∀ f, IsTargetFlow w f → htKfsViGet w.unactive.flowVolumeMap f ≠ 0)
    (currentMsec : UInt64) (s : HostReading) :
    ∃ s', readHostLines s (reportInterval setting w currentMsec).2 = .ok s'
      ∧ s'.totals = ((reportedFlows w).map (rowOf setting w)).foldl HostTotals.plus s.totals
      ∧ (∀ f, IsTargetFlow w f →
        s'.roundsTargetFlowsMap.entry (currentMsec.toNat / 1000) (flowKey f)
          = some (rowOf setting w f).stored)
      ∧ ∀ sec key, (∀ f, IsTargetFlow w f → sec = currentMsec.toNat / 1000 → key ≠ flowKey f) →
        s'.roundsTargetFlowsMap.entry sec key = s.roundsTargetFlowsMap.entry sec key := by
  have hflow : ∀ f, f ∈ reportedFlows w ↔ IsTargetFlow w f := fun f => mem_reportedFlows h.level
  have hkeys : ((reportedFlows w).map (rowOf setting w)).map PrintedRow.key
      = (reportedFlows w).map flowKey := by
    rw [List.map_map]
    rfl
  have hnodup : ((reportedFlows w).map flowKey).Nodup :=
    (reportedFlows_nodup h.level).map flowKey_injective
  have hnonzero : ∀ r ∈ (reportedFlows w).map (rowOf setting w), r.volume ≠ 0 := by
    rw [List.forall_mem_map]
    intro f hf
    have hne := hvolume f ((hflow f).1 hf)
    have hle := (hknown f ((hflow f).1 hf)).1
    show (htKfsViGet w.unactive.flowVolumeMap f).toNat ≠ 0
    omega
  obtain ⟨s', hs', -, htotals, hstored, hother⟩ := readRows
    (s := atRound s (currentMsec.toNat / 1000)) (Dict.mem_insert_empty _ _) hnonzero
    (hkeys ▸ hnodup)
  rw [hkeys] at hother
  refine ⟨s', (readHostLines_reportInterval h hknown currentMsec s).trans hs', htotals,
    fun f hf => ?_, fun sec key hkey => ?_⟩
  · exact hstored _ (List.mem_map_of_mem ((hflow f).2 hf))
  · refine (hother sec key fun hsec hmem => ?_).trans (Dict.entry_insert_empty _ _ _ _)
    obtain ⟨f, hf, rfl⟩ := List.mem_map.1 hmem
    exact hkey f ((hflow f).1 hf) hsec rfl

/-- A row of volume 0 ends the reading. -/
theorem volume_ne_zero_of_ok (h : w.unactive.CursorsReset) (hknown : KnownValues w)
    {currentMsec : UInt64} {s s' : HostReading}
    (hs : readHostLines s (reportInterval setting w currentMsec).2 = .ok s') {f : FlowSrc}
    (hf : IsTargetFlow w f) : htKfsViGet w.unactive.flowVolumeMap f ≠ 0 := by
  intro hzero
  have hrow : (rowOf setting w f).volume = 0 := by
    rw [rowOf, hzero]
    rfl
  rw [readHostLines_reportInterval h hknown] at hs
  obtain ⟨c, c', hc⟩ := exists_of_foldlM_eq_ok hs
    (List.mem_map_of_mem (f := rowOf setting w) ((mem_reportedFlows h.level).2 hf))
  obtain ⟨oneRound, -, htotals⟩ := bind_eq_ok.1 hc
  rw [HostTotals.add_groups, if_pos hrow] at htotals
  cases htotals

/-- A report survives only if what is stored is what was written. -/
theorem ReportSurvives.lossVolume_eq (h : w.unactive.CursorsReset) (hknown : KnownValues w)
    {currentMsec : UInt64} {s : HostReading} (hsurvives : ReportSurvives setting w currentMsec s)
    {f : FlowSrc} (hf : IsTargetFlow w f) : htKfsViGet w.unactive.flowVolumeMap f ≠ 0
      ∧ writtenLossVolume setting w f = htKfsViGet w.unactive.flowVolumeMap f := by
  obtain ⟨s', hs', hwritten, -⟩ := hsurvives.stored
  have hvolume := fun g => volume_ne_zero_of_ok h hknown hs' (f := g)
  refine ⟨hvolume f hf, ?_⟩
  obtain ⟨s'', hs'', -, hstored, -⟩ := readHostLines_ok h hknown hvolume currentMsec s
  obtain rfl : s' = s'' := Except.ok.inj (hs'.symm.trans hs'')
  have he := (hwritten f hf).symm.trans (hstored f hf)
  rw [stored_rowOf (hknown f hf).1, Option.some.injEq] at he
  exact formatInt_inj (congrArg HostTargetFlowInfo.lossVolume he)

/-- A report survives exactly if each target flow has a volume and has lost all of it. -/
theorem report_survives_iff (setting : ReportSetting) (w : DataWarehouse)
    (h : w.unactive.CursorsReset) (hknown : KnownValues w) (currentMsec : UInt64)
    (s : HostReading) :
    ReportSurvives setting w currentMsec s ↔ ∀ f, IsTargetFlow w f →
      htKfsViGet w.unactive.flowVolumeMap f ≠ 0
        ∧ writtenLossVolume setting w f = htKfsViGet w.unactive.flowVolumeMap f := by
  refine ⟨fun hsurvives f hf => hsurvives.lossVolume_eq h hknown hf, fun hlost => ⟨?_, ?_⟩⟩
  · exact ⟨reportedFlows w, _, reportedFlows_nodup h.level, fun f => mem_reportedFlows h.level,
      parse_reportInterval h hknown currentMsec⟩
  · obtain ⟨s', hs', -, hstored, hother⟩ :=
      readHostLines_ok h hknown (fun f hf => (hlost f hf).1) currentMsec s
    refine ⟨s', hs', fun f hf => ?_, hother⟩
    rw [hstored f hf, stored_rowOf (hknown f hf).1, ← (hlost f hf).2]
    rfl

/-! ## A report of one flow -/

section Example

open Sampling (exampleFlow exampleTask)

def exampleReportSetting : ReportSetting :=
  { exampleSetting with
    intervalMsecLen := 3750000
    conditionMsecFreq := 500
    replacement := true
    switchMemType := 0
    switchDropRate := 7 / 500 }

/-- After a rotation; of the 100 bytes of the flow `lost` were lost. -/
def exampleReport (lost : ℤ) : DataWarehouse :=
  dataWareRotateBuffer (updateFlowLossVolume exampleSetting (updateFlowNormalVolume exampleSetting
    (dataWarehouseInit exampleSetting [exampleTask]) exampleFlow 100) exampleFlow lost 0)

theorem unactive_exampleReport (lost : ℤ) : (exampleReport lost).unactive
    = Buffer.updateFlowLossVolume exampleSetting exampleFlow lost 0
      (Buffer.updateFlowNormalVolume exampleSetting exampleFlow 100
        (Buffer.create exampleSetting)) := by
  rw [exampleReport, DataWarehouse.unactive_rotate, updateFlowLossVolume,
    DataWarehouse.active_modifyActive, updateFlowNormalVolume, DataWarehouse.active_modifyActive]
  rfl

theorem cursorsReset_exampleReport (lost : ℤ) : (exampleReport lost).unactive.CursorsReset := by
  rw [unactive_exampleReport]
  exact (Buffer.CursorsReset.create.updateFlowNormalVolume _ _).updateFlowLossVolume _ _ _

theorem isTargetFlow_exampleReport {lost : ℤ} {f : FlowSrc}
    (h : IsTargetFlow (exampleReport lost) f) :
    f = exampleFlow := by
  by_contra hf
  have hlevel := h.1
  rw [unactive_exampleReport, Buffer.level_updateFlowLossVolume, if_neg hf,
    Buffer.level_updateFlowNormalVolume, if_neg hf, Buffer.create, htKfsViGet_create] at hlevel
  cases hlevel

/-- All 100 bytes lost, the flow's row is stored as it was written. -/
theorem report_survives_example :
    ReportSurvives exampleReportSetting (exampleReport 100) 3600000 ⟨0, ∅, .zero⟩ := by
  have hknown : KnownValues (exampleReport 100) := by
    intro f hf
    rw [isTargetFlow_exampleReport hf]
    decide +kernel
  refine (report_survives_iff _ _ (cursorsReset_exampleReport 100) hknown _ _).2 fun f hf => ?_
  rw [isTargetFlow_exampleReport hf]
  decide +kernel

/-- With 40 bytes lost the flow is stored with a loss volume of 100. -/
theorem report_lossVolume_replaced :
    ¬ ReportSurvives exampleReportSetting (exampleReport 40) 3600000 ⟨0, ∅, .zero⟩ := by
  intro h
  have hknown : KnownValues (exampleReport 40) := by
    intro f hf
    rw [isTargetFlow_exampleReport hf]
    decide +kernel
  have htarget : IsTargetFlow (exampleReport 40) exampleFlow := by
    unfold IsTargetFlow
    decide +kernel
  have hloss := (h.lossVolume_eq (cursorsReset_exampleReport 40) hknown htarget).2
  revert hloss
  decide +kernel

end Example

end CMTestbed
