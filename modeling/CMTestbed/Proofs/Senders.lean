import CMTestbed.Senders
import CMTestbed.Proofs.Counters
import CMTestbed.Proofs.Reports
import CMTestbed.Proofs.Levels
import CMTestbed.Proofs.UnderReports

/-!
# What the senders' files tell

A flow whose packets were never sampled has no volume not sampled, which its row shows as -1.  So
the reading takes more than all of its bytes for held, and never counts it as not sampled.
-/

namespace CMTestbed

/-! ## Packets of a flow -/

section Packets
variable {packets : List SentPacket} {p : SentPacket}

theorem bytes_append (packets packets' : List SentPacket) :
    bytes (packets ++ packets') = bytes packets + bytes packets' := by
  simp [bytes]

theorem bytesFromSampled_le (packets : List SentPacket) :
    bytesFromSampled packets ≤ bytes packets := by
  have hsplit := List.takeWhile_append_dropWhile (p := fun p : SentPacket => !p.sampled)
    (l := packets)
  calc bytesFromSampled packets
      ≤ bytes (packets.takeWhile fun p => !p.sampled) + bytesFromSampled packets := by omega
    _ = bytes packets := by rw [bytesFromSampled, ← bytes_append, hsplit]

theorem bytesFromSampled_eq_zero (h : wasSampled packets = false) :
    bytesFromSampled packets = 0 := by
  have hall : ∀ p ∈ packets, (!p.sampled) = true := by
    simpa [wasSampled] using h
  rw [bytesFromSampled, List.dropWhile_eq_nil_iff.2 hall]
  rfl

/-- A packet more. -/
theorem wasSampled_concat : wasSampled (packets ++ [p]) = (wasSampled packets || p.sampled) := by
  simp [wasSampled]

theorem bytes_concat : bytes (packets ++ [p]) = bytes packets + p.len := by
  rw [bytes_append]
  simp [bytes]

theorem bytesFromSampled_concat : bytesFromSampled (packets ++ [p])
    = bytesFromSampled packets + if wasSampled packets || p.sampled then p.len else 0 := by
  by_cases hs : wasSampled packets = true
  · have hex : ∃ q ∈ packets, ¬ (!q.sampled) = true := by
      simpa [wasSampled] using hs
    rw [bytesFromSampled, List.dropWhile_append, if_neg, bytes_concat, hs, bytesFromSampled]
    · simp
    · rw [List.isEmpty_iff, List.dropWhile_eq_nil_iff]
      push Not
      simpa using hex
  · rw [Bool.not_eq_true] at hs
    have hall : ∀ q ∈ packets, (!q.sampled) = true := by
      simpa [wasSampled] using hs
    rw [bytesFromSampled_eq_zero hs, bytesFromSampled, List.dropWhile_append, if_pos, hs]
    · cases hp : p.sampled <;> simp [hp, bytes]
    · rw [List.isEmpty_iff, List.dropWhile_eq_nil_iff]
      exact hall

theorem bytesFromSampled_pos (hlen : ∀ p ∈ packets, 0 < p.len) (h : wasSampled packets = true) :
    0 < bytesFromSampled packets := by
  induction packets using List.reverseRecOn with
  | nil => cases h
  | append_singleton packets p ih =>
    rw [bytesFromSampled_concat]
    rw [wasSampled_concat] at h
    have hp := hlen p (by simp)
    rw [if_pos h]
    omega

theorem bytes_pos (hlen : ∀ p ∈ packets, 0 < p.len) (h : packets ≠ []) : 0 < bytes packets := by
  obtain ⟨p, rest, rfl⟩ := List.exists_cons_of_ne_nil h
  have hp := hlen p List.mem_cons_self
  simp only [bytes, List.map_cons, List.sum_cons]
  omega

end Packets

/-! ## What a buffer tells of the packets -/

namespace Buffer

variable {setting : CmExperimentSetting} {b : Buffer} {sent : FlowSrc → List SentPacket}

theorem htKfsViGet_lt (hashtable : HtKfsVi) (f : FlowSrc) : htKfsViGet hashtable f < 2 ^ 31 := by
  rw [htKfsViGet]
  split
  · exact Int32.toInt_lt _
  · decide

/-- The buffer of an interval in which these packets were sent. -/
structure Tells (setting : CmExperimentSetting) (b : Buffer) (sent : FlowSrc → List SentPacket) :
    Prop where
  lens : ∀ f, ∀ p ∈ sent f, 0 < p.len
  volume : ∀ f, htKfsViGet b.flowVolumeMap f = if sent f = [] then -1 else (bytes (sent f) : ℤ)
  notSampled : ∀ f, htKfsViGet b.flowNotSampledVolumeMap f = if wasSampled (sent f) then
    (bytes (sent f) : ℤ) - bytesFromSampled (sent f) else -1
  levelOk : ∀ f, b.LevelOk setting f
  entryOk : setting.senderSetting.lossMapMemType = .fixed → ∀ f, b.EntryOk f
  cursors : b.CursorsReset

theorem Tells.create : (create setting).Tells setting fun _ => [] where
  lens := fun _ _ h => absurd h List.not_mem_nil
  volume := fun f => by rw [if_pos rfl, Buffer.create, htKfsViGet_create]
  notSampled := fun f => by
    rw [Buffer.create, htKfsViGet_create]
    rfl
  levelOk := fun _ => levelOk_create
  entryOk := fun _ _ _ h => by cases h
  cursors := CursorsReset.create

theorem Tells.volume_eq (h : b.Tells setting sent) (f : FlowSrc) : b.volume f = bytes (sent f) := by
  rw [Buffer.volume, h.volume]
  split_ifs with hf
  · rw [hf]
    rfl
  · exact orZero_of_nonneg (Int.natCast_nonneg _)

theorem Tells.present (h : b.Tells setting sent) (f : FlowSrc) :
    htKfsViGet b.flowVolumeMap f = -1 ∨ 0 < htKfsViGet b.flowVolumeMap f := by
  rw [h.volume]
  split_ifs with hf
  · exact .inl rfl
  · have := bytes_pos (h.lens f) hf
    omega

/-- Counters and the map of sampled flows are not told of. -/
theorem Tells.frame {b' : Buffer} (h : b.Tells setting sent)
    (hvolume : b'.flowVolumeMap = b.flowVolumeMap)
    (hnot : b'.flowNotSampledVolumeMap = b.flowNotSampledVolumeMap)
    (hfixed : b'.fixedFlowLossVolumeMap = b.fixedFlowLossVolumeMap)
    (hloss : b'.flowLossVolumeMap = b.flowLossVolumeMap)
    (hrate : b'.flowLossRateMap = b.flowLossRateMap)
    (hlevel : b'.flowSelectedLevelMap = b.flowSelectedLevelMap) : b'.Tells setting sent where
  lens := h.lens
  volume := by rw [hvolume]; exact h.volume
  notSampled := by rw [hnot]; exact h.notSampled
  levelOk := fun f => by
    refine (h.levelOk f).frame (by rw [hvolume]) (lossVolumeUsed_congr ?_ ?_) (by rw [hrate])
      (by rw [hlevel])
    · rw [lossVolume, hloss, lossVolume]
    · rw [hfixed]
  entryOk := fun hmem f e he => by
    rw [entry, hfixed] at he
    rw [hvolume, lossVolume, hloss]
    exact h.entryOk hmem f e he
  cursors := ⟨by rw [hlevel]; exact h.cursors.level, by rw [hrate]; exact h.cursors.rate,
    by rw [hvolume]; exact h.cursors.volume⟩

/-- A loss tells nothing of the packets. -/
theorem Tells.updateFlowLossVolume (h : b.Tells setting sent) (f : FlowSrc) {n : ℤ}
    (hlt : b.lossVolume f + n < 2 ^ 31) (rand : ℚ) :
    (b.updateFlowLossVolume setting f n rand).Tells setting sent := by
  by_cases hn : 0 < n
  · refine ⟨h.lens, ?_, ?_, fun g => (h.levelOk g).updateFlowLossVolume hn hlt (h.present f) rand,
      fun hmem g => (h.entryOk hmem g).updateFlowLossVolume hmem hn hlt rand,
      h.cursors.updateFlowLossVolume f n rand⟩
    · rw [flowVolumeMap_updateFlowLossVolume]
      exact h.volume
    · have hnot : (b.updateFlowLossVolume setting f n rand).flowNotSampledVolumeMap
          = b.flowNotSampledVolumeMap := by
        unfold Buffer.updateFlowLossVolume
        dsimp only
        split_ifs <;> rfl
      rw [hnot]
      exact h.notSampled
  · have hsame : b.updateFlowLossVolume setting f n rand
        = { b with volumeLost := b.volumeLost + UInt64.ofInt n } := if_neg hn
    rw [hsame]
    exact h.frame rfl rfl rfl rfl rfl rfl

theorem notSampled_updateFlowNotSampledVolume (b : Buffer) (f g : FlowSrc) :
    htKfsViGet (b.updateFlowNotSampledVolume f).flowNotSampledVolumeMap g
      = if g = f ∧ htKfsViGet b.flowNotSampledVolumeMap f < 0 then toInt (toUInt (b.volume f))
        else htKfsViGet b.flowNotSampledVolumeMap g := by
  unfold updateFlowNotSampledVolume
  by_cases hfirst : htKfsViGet b.flowNotSampledVolumeMap f < 0
  · simp only [hfirst, and_true]
    exact htKfsViGet_set _ _ _ _
  · simp only [hfirst, and_false, if_false]

/-- A packet tagged as sampled sets its flow's volume not sampled, and no other does. -/
theorem flowNotSampledVolumeMap_sampleAtHost (setting : CmExperimentSetting) (b : Buffer)
    (f : FlowSrc) (n : ℤ) (rand : ℚ) :
    (b.sampleAtHost setting f n rand).1.flowNotSampledVolumeMap
      = if (b.sampleAtHost setting f n rand).2 = true then
          (b.updateFlowNotSampledVolume f).flowNotSampledVolumeMap
        else b.flowNotSampledVolumeMap := by
  unfold sampleAtHost
  generalize (if htKfsViGet b.flowSelectedLevelMap f > noSelectedLevel then (b.flowSampleMap, true)
    else samplePacket setting f n rand b.flowSampleMap) = r
  obtain ⟨m, sampled⟩ := r
  cases sampled with
  | false => rfl
  | true =>
    simp only [if_true, updateFlowNotSampledVolume]
    split_ifs <;> rfl

theorem flowNotSampledVolumeMap_tagIfMonitored (setting : CmExperimentSetting) (b : Buffer)
    (tasks : List Task) (f : FlowSrc) (n : ℤ) (rand : ℚ) :
    (b.tagIfMonitored setting tasks f n rand).1.flowNotSampledVolumeMap
      = if (b.tagIfMonitored setting tasks f n rand).2.sampled = true then
          (b.updateFlowNotSampledVolume f).flowNotSampledVolumeMap
        else b.flowNotSampledVolumeMap := by
  unfold tagIfMonitored
  split
  · unfold tagPacket
    cases setting.hostOrSwitchSample with
    | hostSample => exact flowNotSampledVolumeMap_sampleAtHost setting b f n rand
    | switchSample => rfl
  · rfl

/-- Tagging and counting a packet, together. -/
theorem handleHeaders_frame (setting : CmExperimentSetting) (w : DataWarehouse) (flow : FlowS)
    (seqid totalPktLen : UInt32) (rand : ℚ) : ∃ m,
    (CMTestbed.handleHeaders setting w flow seqid totalPktLen rand).1.active
      = { w.active.updateFlowNormalVolume setting flow.src (toInt totalPktLen) with
        flowSampleMap := m
        flowNotSampledVolumeMap :=
          if (CMTestbed.handleHeaders setting w flow seqid totalPktLen rand).2.sampled = true then
            (w.active.updateFlowNotSampledVolume flow.src).flowNotSampledVolumeMap
          else w.active.flowNotSampledVolumeMap
        pktNumSent := w.active.pktNumSent + 1
        volumeSent := w.active.volumeSent + totalPktLen.toUInt16.toUInt64 } := by
  obtain ⟨m, k, hframe⟩ := w.active.tagIfMonitored_frame setting flow.src
    w.taskManager (toInt totalPktLen) rand
  have hk := flowNotSampledVolumeMap_tagIfMonitored setting w.active w.taskManager flow.src
    (toInt totalPktLen) rand
  have hsampled : (CMTestbed.handleHeaders setting w flow seqid totalPktLen rand).2.sampled
      = (w.active.tagIfMonitored setting w.taskManager flow.src (toInt totalPktLen)
        rand).2.sampled := rfl
  rw [hsampled, ← hk]
  refine ⟨m, ?_⟩
  rw [Sampling.active_handleHeaders, hframe]
  unfold countPacket Buffer.updateFlowNormalVolume
  split_ifs <;> rfl

/-- A packet handled. -/
theorem Tells.handleHeaders {w : DataWarehouse} (h : w.active.Tells setting sent) (flow : FlowS)
    (seqid totalPktLen : UInt32) (rand : ℚ) (hpos : 0 < totalPktLen.toNat)
    (hint : totalPktLen.toNat < 2 ^ 31)
    (hlt : w.active.volume flow.src + totalPktLen.toNat < 2 ^ 31) :
    (CMTestbed.handleHeaders setting w flow seqid totalPktLen rand).1.active.Tells setting fun f =>
      if flow.src = f then
        sent f ++ [⟨totalPktLen.toNat,
          (CMTestbed.handleHeaders setting w flow seqid totalPktLen rand).2.sampled⟩]
      else sent f := by
  obtain ⟨m, hb⟩ := handleHeaders_frame setting w flow seqid totalPktLen rand
  have hlen := toInt_eq_toNat hint
  have hn : 0 < toInt totalPktLen := by omega
  have hlt' : w.active.volume flow.src + toInt totalPktLen < 2 ^ 31 := by omega
  have hvolume := h.volume_eq flow.src
  have h₀ := w.active.volume_nonneg flow.src
  generalize (CMTestbed.handleHeaders setting w flow seqid totalPktLen rand).2.sampled = sampled
    at hb ⊢
  have hle := bytesFromSampled_le (sent flow.src)
  refine ⟨fun f => ?_, fun f => ?_, fun f => ?_, fun f => ?_, fun hmem f => ?_, ?_⟩
  · split_ifs with hf
    · rw [List.forall_mem_append]
      exact ⟨h.lens f, by simpa using hpos⟩
    · exact h.lens f
  · rw [hb]
    dsimp only
    rw [w.active.get_flowVolumeMap_updateFlowNormalVolume flow.src f hn hlt', hvolume, hlen]
    by_cases hf : f = flow.src
    · rw [if_pos hf, if_pos hf.symm, if_neg (by simp), bytes_concat, hf]
      push_cast
      rfl
    · rw [if_neg hf, if_neg (Ne.symm hf)]
      exact h.volume f
  · rw [hb]
    dsimp only
    by_cases hf : f = flow.src
    · subst hf
      have hnot := h.notSampled flow.src
      have hset := notSampled_updateFlowNotSampledVolume w.active flow.src flow.src
      rw [if_pos rfl, wasSampled_concat, bytes_concat, bytesFromSampled_concat]
      cases hwas : wasSampled (sent flow.src) with
      | true =>
        -- it was set by an earlier packet
        rw [hwas, if_pos rfl] at hnot
        rw [if_neg (by omega)] at hset
        rw [apply_ite (fun map => htKfsViGet map flow.src), hset, ite_self, hnot, Bool.true_or,
          if_pos rfl, if_pos rfl]
        push_cast
        omega
      | false =>
        have hzero := bytesFromSampled_eq_zero hwas
        rw [hwas, if_neg (by decide)] at hnot
        cases sampled with
        | true =>
          rw [if_pos ⟨rfl, by omega⟩, toInt_toUInt h₀ (by omega), hvolume] at hset
          rw [if_pos rfl, hset, hzero]
          simp
        | false =>
          rw [if_neg (by decide), hnot]
          rfl
    · have hother := notSampled_updateFlowNotSampledVolume w.active flow.src f
      rw [if_neg fun hs => hf hs.1] at hother
      rw [if_neg (Ne.symm hf), apply_ite (fun map => htKfsViGet map f), hother, ite_self]
      exact h.notSampled f
  · rw [hb]
    exact ((h.levelOk f).updateFlowNormalVolume hn (by omega) hlt').frame rfl rfl rfl rfl
  · rw [hb]
    exact (h.entryOk hmem f).updateFlowNormalVolume hn hlt'
  · rw [hb]
    have hcursors := h.cursors.updateFlowNormalVolume (s := setting) flow.src (toInt totalPktLen)
    exact ⟨hcursors.level, hcursors.rate, hcursors.volume⟩

theorem Tells.lossVolumeUsed_nonneg (h : b.Tells setting sent) (f : FlowSrc) :
    0 ≤ b.lossVolumeUsed setting f (b.lossVolume f) := by
  unfold Buffer.lossVolumeUsed
  split
  · exact b.lossVolume_nonneg f
  · next hmem =>
    unfold HtKfsFixSize.value
    split
    · next e he =>
      have hle := (h.entryOk hmem f e he).2.1
      have hlt : b.lossVolume f < 2 ^ 31 := by
        have := htKfsViGet_lt b.flowLossVolumeMap f
        unfold Buffer.lossVolume orZero
        split_ifs <;> omega
      rw [toInt_eq_toNat (by omega)]
      exact Int.natCast_nonneg _
    · exact le_rfl

/-- A flow with a level was sent, and its rate is known. -/
theorem Tells.known (h : b.Tells setting sent) {f : FlowSrc}
    (hf : htKfsViGet b.flowSelectedLevelMap f ≠ -1) :
    sent f ≠ [] ∧ 0 ≤ htKfsVfGet b.flowLossRateMap f := by
  have hvolume : htKfsViGet b.flowVolumeMap f ≠ -1 := fun hv => hf ((h.levelOk f).absent hv)
  have hpos := (h.present f).resolve_left hvolume
  refine ⟨fun hnil => hvolume (by rw [h.volume, if_pos hnil]), ?_⟩
  rw [(h.levelOk f).rate hvolume]
  have hloss : (0 : ℚ) ≤ b.lossVolumeUsed setting f (b.lossVolume f) := by
    exact_mod_cast h.lossVolumeUsed_nonneg f
  have hpos' : (0 : ℚ) ≤ htKfsViGet b.flowVolumeMap f := by exact_mod_cast hpos.le
  exact setting.floats.nonneg (div_nonneg hloss hpos')

end Buffer

/-! ## The totals that the reading makes -/

/-- What the row of a reported flow counts for. -/
def toldShare (packets : List SentPacket) : ℚ :=
  if wasSampled packets then (bytesFromSampled packets : ℚ) / bytes packets
  else 1 + 1 / bytes packets

/-- What the row adds to the totals. -/
def HostTotals.told (totals : HostTotals) (packets : List SentPacket) : HostTotals where
  rawHostSampleSwitchHoldAccuracy :=
    totals.rawHostSampleSwitchHoldAccuracy + toldShare packets
  rawHostSampleSwitchHoldAccuracyCnt := totals.rawHostSampleSwitchHoldAccuracyCnt + 1
  notSampleFlowNum := totals.notSampleFlowNum

section Row
variable {setting : ReportSetting} {w : DataWarehouse} {sent : FlowSrc → List SentPacket}

theorem HostTotals.plus_rowOf (h : w.unactive.Tells setting.toCmExperimentSetting sent)
    {f : FlowSrc} (hf : sent f ≠ []) (totals : HostTotals) :
    totals.plus (rowOf setting w f) = totals.told (sent f) := by
  have hpos := bytes_pos (h.lens f) hf
  have hle := bytesFromSampled_le (sent f)
  have hvolume : (rowOf setting w f).volume = bytes (sent f) := by
    rw [rowOf, h.volume, if_neg hf, Int.toNat_natCast]
  have hnot : (rowOf setting w f).notSampledVolume = if wasSampled (sent f) then
      (bytes (sent f) : ℤ) - bytesFromSampled (sent f) else -1 := h.notSampled f
  have hrat : (bytes (sent f) : ℚ) ≠ 0 := by exact_mod_cast hpos.ne'
  rw [HostTotals.plus, HostTotals.told, toldShare, hvolume, hnot]
  cases hwas : wasSampled (sent f) with
  | true =>
    have hfrom := bytesFromSampled_pos (h.lens f) hwas
    simp only [if_true]
    rw [if_neg (by omega)]
    congr 2
    push_cast
    field_simp
    ring
  | false =>
    simp only [Bool.false_eq_true, if_false]
    rw [if_neg (by omega)]
    congr 2
    push_cast
    field_simp
    ring

theorem Buffer.Tells.knownValues (h : w.unactive.Tells setting.toCmExperimentSetting sent) :
    KnownValues w := by
  intro f hf
  have hlevel : htKfsViGet w.unactive.flowSelectedLevelMap f ≠ -1 := by
    rw [hf.1]
    decide
  obtain ⟨hne, hrate⟩ := h.known hlevel
  refine ⟨?_, hrate⟩
  rw [h.volume, if_neg hne]
  exact Int.natCast_nonneg _

/-- A reported flow was sent. -/
theorem Buffer.Tells.sent_ne_nil (h : w.unactive.Tells setting.toCmExperimentSetting sent)
    {f : FlowSrc} (hf : f ∈ reportedFlows w) : sent f ≠ [] := by
  have hlevel := ((mem_reportedFlows h.cursors.level).1 hf).1
  refine (h.known ?_).1
  rw [hlevel]
  decide

/-- Reading a report adds what its rows tell. -/
theorem readHostLines_told (h : w.unactive.Tells setting.toCmExperimentSetting sent)
    (currentMsec : UInt64) (s : HostReading) :
    ∃ s', readHostLines s (reportInterval setting w currentMsec).2 = .ok s'
      ∧ s'.totals = ((reportedFlows w).map sent).foldl HostTotals.told s.totals := by
  have hvolume : ∀ f, IsTargetFlow w f → htKfsViGet w.unactive.flowVolumeMap f ≠ 0 := by
    intro f hf
    have hne := h.sent_ne_nil ((mem_reportedFlows h.cursors.level).2 hf)
    have hpos := bytes_pos (h.lens f) hne
    rw [h.volume, if_neg hne]
    omega
  obtain ⟨s', hs', htotals, -⟩ := readHostLines_ok h.cursors h.knownValues hvolume currentMsec s
  refine ⟨s', hs', ?_⟩
  rw [htotals, List.foldl_map, List.foldl_map]
  exact List.foldl_ext _ _ _ fun totals f hf => HostTotals.plus_rowOf h (h.sent_ne_nil hf) totals

end Row

/-! ## Runs of a sender -/

namespace Sender

variable {setting : ReportSetting}

structure Inv (setting : ReportSetting) (s : Sender) : Prop where
  active : s.warehouse.active.Tells setting.toCmExperimentSetting s.sent
  past : s.warehouse.unactive.Tells setting.toCmExperimentSetting s.past
  fresh : s.rotated = false → s.past = fun _ => []
  lines : ∃ lines : List (List UInt8), s.file = lines.flatten ∧ ∀ line ∈ lines, IsLine line
  read : ∀ totals, ∃ r, readHostLines ⟨0, ∅, totals⟩ s.file = .ok r
    ∧ r.totals = s.reported.foldl HostTotals.told totals
  sent : ∀ packets ∈ s.reported, packets ≠ [] ∧ ∀ p ∈ packets, 0 < p.len

theorem inv_init (tasks : List Task) : (init setting tasks).Inv setting where
  active := Buffer.Tells.create
  past := Buffer.Tells.create
  fresh := fun _ => rfl
  lines := by
    refine ⟨[initTargetFlowFile], by simp [init], ?_⟩
    rw [List.forall_mem_singleton]
    refine ⟨chars "srcip\tdstip", by decide +kernel, by decide +kernel⟩
  read := fun totals => by
    refine ⟨⟨0, ∅, totals⟩, ?_, rfl⟩
    have hlines : (readlines initTargetFlowFile).map parseHostLine = [.other] := by decide +kernel
    rw [readHostLines_eq]
    exact (congrArg (List.foldlM readHostLine _) hlines).trans rfl
  sent := fun _ h => absurd h List.not_mem_nil

section Step
variable {s : Sender} (h : s.Inv setting)
include h

theorem inv_packet {p : Handling.Packet} (hfits : PacketFits s.warehouse p) :
    Inv setting { s with
      warehouse := (cmHandleIpv4Packet setting.toCmExperimentSetting s.warehouse p.packetBuf
        p.totalPktLen p.datalink p.rand).1
      sent := fun f => if p.headers.map (fun h => h.1.src) = some f then
        s.sent f ++ [⟨p.totalPktLen.toNat, (cmHandleIpv4Packet setting.toCmExperimentSetting
          s.warehouse p.packetBuf p.totalPktLen p.datalink p.rand).2.sampled⟩] else s.sent f } := by
  rcases hheaders : p.headers with _ | ⟨flow, seqid⟩
  · have hsent : sentHeaders p.packetBuf p.totalPktLen p.datalink = none := hheaders
    simp only [cmHandleIpv4Packet, hsent, Option.map_none, reduceCtorEq, if_false]
    exact h
  · have hsent : sentHeaders p.packetBuf p.totalPktLen p.datalink = some (flow, seqid) := hheaders
    have hpos : 0 < p.totalPktLen.toNat := by
      by_contra hzero
      rw [sentHeaders, if_pos (by simp only [ipv4HdrLen]; omega)] at hsent
      cases hsent
    simp only [cmHandleIpv4Packet, hsent, Option.map_some, Option.some.injEq]
    refine { h with active := ?_, past := ?_ }
    · exact h.active.handleHeaders flow seqid p.totalPktLen p.rand hpos hfits.1
        (hfits.2 (flow, seqid) hheaders)
    · unfold handleHeaders
      rw [DataWarehouse.unactive_modifyActive]
      exact h.past

theorem inv_loss {f : FlowSrc} {n : ℤ} (hlt : s.warehouse.active.lossVolume f + n < 2 ^ 31)
    (rand : ℚ) : Inv setting { s with
      warehouse := updateFlowLossVolume setting.toCmExperimentSetting s.warehouse f n rand } := by
  refine { h with active := ?_, past := ?_ }
  · dsimp only [updateFlowLossVolume]
    rw [DataWarehouse.active_modifyActive]
    exact h.active.updateFlowLossVolume f hlt rand
  · dsimp only [updateFlowLossVolume]
    rw [DataWarehouse.unactive_modifyActive]
    exact h.past

theorem inv_conditions (lastSent : HtKfsVi) (packets : UInt64) : Inv setting { s with
    warehouse := DataWarehouse.modifyActive
      { s.warehouse with lastSentFlowSelectedLevelMap := lastSent } fun b =>
        { b with conditionPktNumSent := b.conditionPktNumSent + packets } } := by
  refine { h with active := ?_, past := ?_ }
  · dsimp only
    rw [DataWarehouse.active_modifyActive]
    exact h.active.frame rfl rfl rfl rfl rfl rfl
  · dsimp only
    rw [DataWarehouse.unactive_modifyActive]
    exact h.past

theorem inv_rotate (hrotated : s.rotated = false) : Inv setting { s with
    warehouse := dataWareRotateBuffer s.warehouse
    rotated := true
    sent := fun _ => []
    past := s.sent } := by
  have hpast := h.past
  rw [h.fresh hrotated] at hpast
  refine { h with active := hpast, past := ?_, fresh := fun hr => by cases hr }
  dsimp only
  rw [DataWarehouse.unactive_rotate]
  exact h.active

theorem inv_report (currentMsec : UInt64) : Inv setting { s with
    warehouse := dataWarehouseResetNoactiveBuf setting.toCmExperimentSetting
      (reportInterval setting s.warehouse currentMsec).1
    rotated := false
    past := fun _ => []
    file := s.file ++ (reportInterval setting s.warehouse currentMsec).2
    reported := s.reported ++ (reportedFlows s.warehouse).map s.past } := by
  have heq : reportInterval setting s.warehouse currentMsec
      = (s.warehouse, (reportLines setting s.warehouse currentMsec).flatten) :=
    reportInterval_eq h.past.cursors h.past.knownValues currentMsec
  obtain ⟨lines, hfile, hlines⟩ := h.lines
  refine ⟨?_, ?_, fun _ => rfl, ?_, fun totals => ?_, ?_⟩
  · dsimp only
    rw [heq, DataWarehouse.active_reset]
    exact h.active
  · dsimp only
    rw [heq, DataWarehouse.unactive_reset]
    exact Buffer.Tells.create
  · refine ⟨lines ++ reportLines setting s.warehouse currentMsec, ?_, ?_⟩
    · rw [heq, hfile, List.flatten_append]
    · exact List.forall_mem_append.2 ⟨hlines, isLine_reportLines currentMsec⟩
  · obtain ⟨r, hr, htotals⟩ := h.read totals
    obtain ⟨r', hr', htotals'⟩ := readHostLines_told h.past currentMsec r
    refine ⟨r', ?_, ?_⟩
    · dsimp only
      rw [hfile, readHostLines_append hlines, ← hfile]
      exact bind_eq_ok.2 ⟨r, hr, hr'⟩
    · rw [htotals', htotals, List.foldl_append]
  · dsimp only
    rw [List.forall_mem_append, List.forall_mem_map]
    exact ⟨h.sent, fun f hf => ⟨h.past.sent_ne_nil hf, h.past.lens f⟩⟩

end Step

theorem inv_step (s : Sender) (e : Event) (s' : Sender) (h : s.Inv setting)
    (hs : (system setting).step s e = some s') : s'.Inv setting := by
  cases e with
  | packet p =>
    obtain ⟨hfits, hs⟩ := Option.ite_none_right_eq_some.1 hs
    cases hs
    exact inv_packet h hfits
  | loss f n rand =>
    obtain ⟨hlt, hs⟩ := Option.ite_none_right_eq_some.1 hs
    cases hs
    exact inv_loss h hlt rand
  | conditions lastSent packets =>
    obtain ⟨-, hs⟩ := Option.ite_none_left_eq_some.1 hs
    cases hs
    exact inv_conditions h lastSent packets
  | rotate =>
    obtain ⟨hrotated, hs⟩ := Option.ite_none_left_eq_some.1 hs
    cases hs
    exact inv_rotate h (Bool.eq_false_of_not_eq_true hrotated)
  | report currentMsec =>
    obtain ⟨-, hs⟩ := Option.ite_none_right_eq_some.1 hs
    cases hs
    exact inv_report h currentMsec

theorem inv_run {tasks : List Task} {es : List Event} {s : Sender}
    (hrun : (system setting).run (init setting tasks) es = some s) : s.Inv setting :=
  Lib.System.run_inv inv_step (inv_init tasks) hrun

end Sender

/-! ## All senders -/

/-- The rows of the senders' files, in the order in which they are read. -/
def allReported (senders : ℕ → Sender) : List (List SentPacket) :=
  (List.range' 1 numSender).flatMap fun host => (senders host).reported

/-- The accuracy is the mean share of the bytes from the first sampled packet on. -/
structure TellsAccuracy (reported : List (List SentPacket)) (r : HostResult) : Prop where
  nonneg : 0 ≤ r.rawHostSampleSwitchHoldAccuracy
  le_one : r.rawHostSampleSwitchHoldAccuracy ≤ 1
  mean : r.rawHostSampleSwitchHoldAccuracy
    = (reported.map fun packets => (bytesFromSampled packets : ℚ) / bytes packets).sum
      / reported.length
  notSampled : r.notSampleFlowNum = reported.countP fun packets => !wasSampled packets

theorem foldl_told (reported : List (List SentPacket)) (totals : HostTotals) :
    reported.foldl HostTotals.told totals
      = ⟨totals.rawHostSampleSwitchHoldAccuracy + (reported.map toldShare).sum,
        totals.rawHostSampleSwitchHoldAccuracyCnt + reported.length, totals.notSampleFlowNum⟩ := by
  induction reported generalizing totals with
  | nil => simp
  | cons packets reported ih =>
    rw [List.foldl_cons, ih]
    simp only [HostTotals.told, List.map_cons, List.sum_cons, List.length_cons]
    congr 1
    · ring
    · omega

/-- The files read one after the other. -/
theorem readHosts_told {setting : ReportSetting} {senders : ℕ → Sender} {hosts : List ℕ}
    (h : ∀ host ∈ hosts, (senders host).Inv setting) (d : Dict ℕ HostRounds)
    (totals : HostTotals) : ∃ d', hosts.foldlM (fun (r : Dict ℕ HostRounds × HostTotals) host => do
        let s ← readHostLines ⟨0, ∅, r.2⟩ (senders host).file
        .ok (AList.insert host s.roundsTargetFlowsMap r.1, s.totals)) (d, totals)
      = .ok (d', (hosts.flatMap fun host => (senders host).reported).foldl HostTotals.told
          totals) := by
  induction hosts generalizing d totals with
  | nil => exact ⟨d, rfl⟩
  | cons host hosts ih =>
    rw [List.forall_mem_cons] at h
    obtain ⟨r, hr, htotals⟩ := h.1.read totals
    obtain ⟨d', hd'⟩ := ih h.2 (AList.insert host r.roundsTargetFlowsMap d) r.totals
    refine ⟨d', ?_⟩
    rw [List.foldlM_cons, List.flatMap_cons, List.foldl_append, ← htotals]
    exact bind_eq_ok.2 ⟨_, bind_eq_ok.2 ⟨r, hr, rfl⟩, hd'⟩

theorem readHosts_eq {setting : ReportSetting} {senders : ℕ → Sender}
    (h : ∀ host ∈ List.range' 1 numSender, (senders host).Inv setting) :
    ∃ d, readHostsRoundsTargetFlows (fun host => (senders host).file)
      = if allReported senders = [] then .error .zeroDivisionError
        else
          .ok ⟨d, ((allReported senders).map toldShare).sum / (allReported senders).length, 0⟩ := by
  obtain ⟨d, hd⟩ := readHosts_told h ∅ .zero
  refine ⟨d, ?_⟩
  rw [← allReported, foldl_told] at hd
  rw [readHostsRoundsTargetFlows, hd]
  simp only [HostTotals.zero, zero_add, bind, Except.bind, List.length_eq_zero_iff]

theorem mem_unit_of_sum {l : List ℚ} (hl : l ≠ []) (h : ∀ x ∈ l, 0 ≤ x ∧ x ≤ 1) :
    0 ≤ l.sum / l.length ∧ l.sum / l.length ≤ 1 := by
  have hpos : (0 : ℚ) < l.length := by exact_mod_cast List.length_pos_iff.2 hl
  have hle := List.sum_le_card_nsmul l 1 fun x hx => (h x hx).2
  rw [nsmul_one] at hle
  exact ⟨div_nonneg (List.sum_nonneg fun x hx => (h x hx).1) hpos.le, (div_le_one hpos).2 hle⟩

/-- The files tell the accuracy exactly if some flow is reported and every flow that is had a packet
sampled. -/
theorem host_accuracy_iff (setting : ReportSetting) (tasks : ℕ → List Task)
    (es : ℕ → List Sender.Event) (senders : ℕ → Sender)
    (hrun : ∀ host ∈ List.range' 1 numSender, (Sender.system setting).run
      (Sender.init setting (tasks host)) (es host) = some (senders host)) :
    (∃ r, readHostsRoundsTargetFlows (fun host => (senders host).file) = .ok r
        ∧ TellsAccuracy (allReported senders) r)
      ↔ allReported senders ≠ []
        ∧ ∀ packets ∈ allReported senders, wasSampled packets = true := by
  obtain ⟨d, hread⟩ := readHosts_eq fun host hhost => Sender.inv_run (hrun host hhost)
  constructor
  · rintro ⟨r, hr, htells⟩
    rw [hread] at hr
    split_ifs at hr with hnil
    cases hr
    refine ⟨hnil, fun packets hpackets => ?_⟩
    -- no flow is ever counted as not sampled
    have hcount : (allReported senders).countP (fun packets => !wasSampled packets) = 0 :=
      htells.notSampled.symm
    rw [List.countP_eq_zero] at hcount
    simpa using hcount packets hpackets
  · rintro ⟨hne, hsampled⟩
    have hshare : (allReported senders).map toldShare
        = (allReported senders).map fun packets =>
          (bytesFromSampled packets : ℚ) / bytes packets :=
      List.map_congr_left fun packets hpackets => if_pos (hsampled packets hpackets)
    have hunit := mem_unit_of_sum (l := (allReported senders).map toldShare)
      (by simpa using hne) (by
      rw [hshare, List.forall_mem_map]
      intro packets _
      have hle : (bytesFromSampled packets : ℚ) ≤ bytes packets := by
        exact_mod_cast bytesFromSampled_le packets
      exact ⟨by positivity, div_le_one_of_le₀ hle (by positivity)⟩)
    rw [List.length_map] at hunit
    refine ⟨_, by rw [hread, if_neg hne], hunit.1, hunit.2, by rw [hshare], ?_⟩
    symm
    rw [List.countP_eq_zero]
    intro packets hpackets
    simp [hsampled packets hpackets]

/-! ## One flow reported -/

namespace Sender

variable {setting : ReportSetting}

/-- A flow none of whose packets is handled has sent none. -/
theorem sent_eq_nil {f : FlowSrc} {s s' : Sender} {es : List Event}
    (hother : (system setting).Meets (fun _ e => ∀ p, e = .packet p →
      p.headers.map (fun h => h.1.src) ≠ some f) s es)
    (hrun : (system setting).run s es = some s') (h : s.sent f = [] ∧ s.past f = []) :
    s'.sent f = [] ∧ s'.past f = [] := by
  have hstep : ∀ (s : Sender) e s', s.sent f = [] ∧ s.past f = [] →
      (∀ p, e = .packet p → p.headers.map (fun h => h.1.src) ≠ some f) →
      (system setting).step s e = some s' → s'.sent f = [] ∧ s'.past f = [] := ?_
  · exact Lib.System.run_inv_of hstep h hother hrun
  rintro s e s' h hok hs
  cases e with
  | packet p =>
    obtain ⟨-, hs⟩ := Option.ite_none_right_eq_some.1 hs
    cases hs
    exact ⟨(if_neg (hok p rfl)).trans h.1, h.2⟩
  | loss _ _ _ =>
    obtain ⟨-, hs⟩ := Option.ite_none_right_eq_some.1 hs
    cases hs
    exact h
  | conditions _ _ =>
    obtain ⟨-, hs⟩ := Option.ite_none_left_eq_some.1 hs
    cases hs
    exact h
  | rotate =>
    obtain ⟨-, hs⟩ := Option.ite_none_left_eq_some.1 hs
    cases hs
    exact ⟨rfl, h.1⟩
  | report _ =>
    obtain ⟨-, hs⟩ := Option.ite_none_right_eq_some.1 hs
    cases hs
    exact ⟨h.1, rfl⟩

open Sampling (exampleFlow exampleTask)

/-- The report of an interval that has ended. -/
theorem run_report {tasks : List Task} {es : List Event} {s : Sender}
    (hrun : (system setting).run (init setting tasks) es = some s) (hrotated : s.rotated = true)
    (currentMsec : UInt64) : ∃ s', (system setting).run (init setting tasks)
        (es ++ [.report currentMsec]) = some s'
      ∧ s'.reported = s.reported ++ (reportedFlows s.warehouse).map s.past :=
  ⟨_, Lib.System.run_append.2 ⟨s, hrun, Lib.System.run_cons.2 ⟨_, if_pos hrotated, rfl⟩⟩, rfl⟩

/-- 100 bytes, `lost` of them lost, and then as many packets of 100 bytes again. -/
def exampleEvents (lost : ℤ) (again : ℕ) : List Event :=
  let p := Event.packet ⟨exampleFrame [], 100, dltEn10mb, 0⟩
  p :: .loss exampleFlow lost 0 :: List.replicate again p ++ [.rotate]

/-- One flow is reported. -/
theorem exampleEvents_reported (lost : ℤ) (again : ℕ) (packets : List SentPacket)
    (h : ((system exampleReportSetting).run (init exampleReportSetting [exampleTask])
      (exampleEvents lost again)).any (fun s => s.rotated && s.reported.isEmpty
        && s.past exampleFlow = packets
        && htKfsViGet s.warehouse.unactive.flowSelectedLevelMap exampleFlow = targetLevel
        && (getTaskOfTraffic s.warehouse.taskManager exampleFlow).isSome) = true) :
    ∃ s, (system exampleReportSetting).run (init exampleReportSetting [exampleTask])
        (exampleEvents lost again ++ [.report 3600000]) = some s ∧ s.reported = [packets] := by
  obtain ⟨s, hs, hd⟩ := (Option.any_eq_true _ _).1 h
  simp only [Bool.and_eq_true, decide_eq_true_eq, List.isEmpty_iff] at hd
  obtain ⟨⟨⟨⟨hrotated, hreported⟩, hpast⟩, hlevel⟩, htask⟩ := hd
  have hinv := inv_run hs
  have hmem : ∀ f, f ∈ reportedFlows s.warehouse ↔ f = exampleFlow := by
    intro f
    constructor
    · intro hf
      by_contra hne
      refine hinv.past.sent_ne_nil hf (sent_eq_nil ?_ hs ⟨rfl, rfl⟩).2
      refine Lib.System.meets_of_forall (fun e he _ p hp => ?_) _
      subst hp
      have hpacket : p = ⟨exampleFrame [], 100, dltEn10mb, 0⟩ := by
        simp only [exampleEvents, List.cons_append, List.mem_cons, List.mem_append,
          List.mem_replicate, Event.packet.injEq, reduceCtorEq, false_or, or_false,
          List.not_mem_nil] at he
        exact he.elim id And.right
      have hflow : (Handling.Packet.headers ⟨exampleFrame [], 100, dltEn10mb, 0⟩).map
          (fun h => h.1.src) = some exampleFlow := by decide
      rw [hpacket, hflow]
      exact fun h => hne (Option.some.inj h).symm
    · rintro rfl
      exact (mem_reportedFlows hinv.past.cursors.level).2
        ⟨hlevel, Option.isSome_iff_ne_none.1 htask⟩
  obtain ⟨s', hs', hreported'⟩ := run_report hs hrotated 3600000
  refine ⟨s', hs', ?_⟩
  have hperm : (reportedFlows s.warehouse).Perm [exampleFlow] :=
    (List.perm_ext_iff_of_nodup (reportedFlows_nodup hinv.past.cursors.level)
      (List.nodup_singleton _)).2 (by simpa using hmem)
  rw [hreported', hreported, List.perm_singleton.1 hperm, List.map_singleton, hpast,
    List.nil_append]

/-- The first sender has run, the others have not. -/
def firstOnly (s : Sender) (host : ℕ) : Sender :=
  if host = 1 then s else init exampleReportSetting [exampleTask]

theorem allReported_firstOnly (s : Sender) : allReported (firstOnly s) = s.reported := by
  have hrest : ∀ host ∈ List.range' 2 11, (firstOnly s host).reported = [] := by
    intro host hhost
    rw [List.mem_range'_1] at hhost
    rw [firstOnly, if_neg (by omega)]
    rfl
  show (1 :: List.range' 2 11).flatMap _ = _
  rw [List.flatMap_cons, List.flatMap_eq_nil_iff.2 hrest, List.append_nil, firstOnly, if_pos rfl]

theorem run_firstOnly {es : List Event} {s : Sender}
    (hs : (system exampleReportSetting).run (init exampleReportSetting [exampleTask]) es = some s)
    (host : ℕ) : (system exampleReportSetting).run (init exampleReportSetting [exampleTask])
      (if host = 1 then es else []) = some (firstOnly s host) := by
  unfold firstOnly
  split_ifs
  · exact hs
  · rfl

/-- The second packet is sampled for the level of its flow: half of the bytes are held. -/
theorem host_accuracy_example : ∃ s, (system exampleReportSetting).run
      (init exampleReportSetting [exampleTask]) (exampleEvents 90 1 ++ [.report 3600000]) = some s
    ∧ ∃ r, readHostsRoundsTargetFlows (fun host => (firstOnly s host).file) = .ok r
      ∧ TellsAccuracy [[⟨100, false⟩, ⟨100, true⟩]] r := by
  obtain ⟨s, hs, hreported⟩ := exampleEvents_reported 90 1 [⟨100, false⟩, ⟨100, true⟩]
    (by decide +kernel)
  have hall : allReported (firstOnly s) = [[⟨100, false⟩, ⟨100, true⟩]] :=
    (allReported_firstOnly s).trans hreported
  refine ⟨s, hs, ?_⟩
  rw [← hall]
  refine (host_accuracy_iff exampleReportSetting _ _ (firstOnly s) fun host _ =>
    run_firstOnly hs host).2 ?_
  rw [hall]
  decide

/-- A flow that is never sampled counts for 1.01, and not as not sampled. -/
theorem never_sampled_counted : ∃ s, (system exampleReportSetting).run
      (init exampleReportSetting [exampleTask]) (exampleEvents 40 0 ++ [.report 3600000]) = some s
    ∧ allReported (firstOnly s) = [[⟨100, false⟩]]
    ∧ ∃ r, readHostsRoundsTargetFlows (fun host => (firstOnly s host).file) = .ok r
      ∧ r.rawHostSampleSwitchHoldAccuracy = 101 / 100 ∧ r.notSampleFlowNum = 0
      ∧ ¬ TellsAccuracy (allReported (firstOnly s)) r := by
  obtain ⟨s, hs, hreported⟩ := exampleEvents_reported 40 0 [⟨100, false⟩] (by decide +kernel)
  have hall : allReported (firstOnly s) = [[⟨100, false⟩]] :=
    (allReported_firstOnly s).trans hreported
  obtain ⟨d, hread⟩ := readHosts_eq fun host _ => inv_run (run_firstOnly hs host)
  rw [hall, if_neg (by decide)] at hread
  have hshare : (List.map toldShare [[⟨100, false⟩]]).sum
      / ([[⟨100, false⟩]] : List (List SentPacket)).length = 101 / 100 := by decide +kernel
  rw [hshare] at hread
  refine ⟨s, hs, hall, _, hread, rfl, rfl, fun h => ?_⟩
  have hle := h.le_one
  norm_num at hle

end Sender

end CMTestbed
