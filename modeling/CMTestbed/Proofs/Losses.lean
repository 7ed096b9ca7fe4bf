import CMTestbed.Losses
import CMTestbed.Proofs.LossDetection
import CMTestbed.Proofs.Levels
import Mathlib.Algebra.BigOperators.Group.Finset.Piecewise
import Mathlib.Algebra.Order.BigOperators.Group.Finset

/-!
# Losses and traffic

Within an interval a flow's loss volume and what the ledger still holds of it make up at most its
volume and what the ledger held when the interval began.  So a loss can exceed the traffic, but only
by packets of earlier intervals.
-/

namespace CMTestbed

/-! ## What the ledger holds -/

theorem FlowSrc.withPorts_rank {f : FlowSrc} {ports : UInt16 × UInt16} {key : FlowS} :
    (f.withPorts ports).rank = key.rank ↔ f = key.src ∧ ports = (key.srcPort, key.dstPort) := by
  obtain ⟨srcip, dstip⟩ := f
  obtain ⟨srcPort, dstPort⟩ := ports
  rw [FlowS.rank_inj]
  simp only [withPorts, FlowS.src, FlowSrc.mk.injEq, Prod.mk.injEq, and_assoc]

/-- A change of one queue: `n` taken off and `m` put on show in what is held of its flow. -/
theorem HtVl.heldVolume_le {t t' : HtVl} {key : FlowS} {queue : List PktVolume} {n m : ℕ}
    (hqueue : ∀ g, t'.queue g = if g.rank = key.rank then queue else t.queue g)
    (hle : totalVolume queue + n ≤ totalVolume (t.queue key) + m) (f : FlowSrc) :
    t'.heldVolume f + (if f = key.src then n else 0)
      ≤ t.heldVolume f + if f = key.src then m else 0 := by
  unfold heldVolume
  by_cases hf : f = key.src
  · have hsum : ∑ ports : UInt16 × UInt16, (totalVolume (t'.queue (f.withPorts ports))
          + if ports = (key.srcPort, key.dstPort) then n else 0)
        ≤ ∑ ports : UInt16 × UInt16, (totalVolume (t.queue (f.withPorts ports))
          + if ports = (key.srcPort, key.dstPort) then m else 0) := by
      refine Finset.sum_le_sum fun ports _ => ?_
      rw [hqueue]
      by_cases hp : ports = (key.srcPort, key.dstPort)
      · have hrank := FlowSrc.withPorts_rank.2 ⟨hf, hp⟩
        rw [if_pos hrank, if_pos hp, if_pos hp, t.queue_congr hrank]
        exact hle
      · rw [if_neg fun h => hp (FlowSrc.withPorts_rank.1 h).2, if_neg hp, if_neg hp]
    rw [Finset.sum_add_distrib, Finset.sum_add_distrib, Finset.sum_ite_eq' Finset.univ,
      Finset.sum_ite_eq' Finset.univ] at hsum
    simpa [hf] using hsum
  · rw [if_neg hf, if_neg hf]
    refine Nat.add_le_add_right (Finset.sum_le_sum fun ports _ => ?_) 0
    rw [hqueue, if_neg fun h => hf (FlowSrc.withPorts_rank.1 h).1]

theorem HtVl.heldVolume_set (t : HtVl) (key : FlowS) (seqid volume : UInt32) (f : FlowSrc) :
    (htVlSet t key seqid volume).heldVolume f
      ≤ t.heldVolume f + if f = key.src then volume.toNat else 0 := by
  have hle := heldVolume_le (n := 0) (fun g => t.queue_set key g seqid volume)
    (m := volume.toNat) (by simp [totalVolume_append]) f
  simpa using hle

theorem lostVolume_foldl_le : ∀ (l : List PktVolume) (ans : ReceVLostV),
    (l.foldl .lose ans).lostVolume.toNat ≤ ans.lostVolume.toNat + totalVolume l
  | [], ans => le_rfl
  | pkt :: l, ans => by
    have ih := lostVolume_foldl_le l (ans.lose pkt)
    have hmod := Nat.mod_le (ans.lostVolume.toNat + pkt.volume.toNat) (2 ^ 32)
    rw [ReceVLostV.lose, UInt32.toNat_add] at ih
    rw [List.foldl_cons, totalVolume_cons, ReceVLostV.lose]
    omega

/-- A report finds lost no more than it takes off the queue. -/
theorem leftPkts_add_lost_le (queue : List PktVolume) (seqid : UInt32) :
    totalVolume (leftPkts queue seqid) + (receLost queue seqid).lostVolume.toNat
      ≤ totalVolume queue := by
  have hlost := lostVolume_foldl_le (lostPkts queue seqid) .zero
  have hzero : ReceVLostV.zero.lostVolume.toNat = 0 := rfl
  have hsplit : totalVolume queue = totalVolume (lostPkts queue seqid)
      + totalVolume (queue.dropWhile fun pkt => decide (pkt.seqid < seqid)) := by
    rw [← totalVolume_append, lostPkts, List.takeWhile_append_dropWhile]
  unfold leftPkts receLost
  dsimp only
  split
  · next pkt rest hd =>
    rw [hd, totalVolume_cons] at hsplit
    split_ifs
    · rw [ReceVLostV.lostVolume_receive]
      omega
    · rw [totalVolume_cons]
      omega
  · rw [totalVolume_nil]
    omega

theorem HtVl.heldVolume_getReceLostVolume (t : HtVl) (key : FlowS) (seqid : UInt32)
    (f : FlowSrc) : (htVlGetReceLostVolume t key seqid).1.heldVolume f
      + (if f = key.src then (htVlGetReceLostVolume t key seqid).2.lostVolume.toNat else 0)
        ≤ t.heldVolume f := by
  have hle := heldVolume_le (m := 0) (fun g => t.queue_getReceLostVolume key g seqid)
    (leftPkts_add_lost_le (t.queue key) seqid) f
  rw [t.getReceLostVolume_snd]
  simpa using hle

/-! ## One buffer -/

namespace Buffer

variable {setting : CmExperimentSetting} {b : Buffer} {f g : FlowSrc} {held held' carried : ℕ}

/-- What a flow's values say when the ledger holds `held` of it, and held `carried` when the
interval began. -/
structure Balanced (setting : CmExperimentSetting) (b : Buffer) (f : FlowSrc)
    (held carried : ℕ) : Prop where
  balance : b.lossVolume f + held ≤ b.volume f + carried
  known : htKfsViGet b.flowVolumeMap f = -1 ∨ 0 < htKfsViGet b.flowVolumeMap f
  fixed : ∀ e, htKfsFixSizeGet b.fixedFlowLossVolumeMap f = some e →
    (e.value.toNat : ℤ) ≤ b.lossVolume f
  unrated : htKfsViGet b.flowVolumeMap f = -1 → htKfsVfGet b.flowLossRateMap f = -1
  levelOk : b.LevelOk setting f

namespace Balanced

theorem create (f : FlowSrc) (held : ℕ) : (create setting).Balanced setting f held held where
  balance := by rw [lossVolume_create, volume_create]
  known := .inl (htKfsViGet_create f)
  fixed := fun e he => by cases he
  unrated := fun _ => htKfsVfGet_create f
  levelOk := levelOk_create

theorem mono (h : b.Balanced setting f held carried) (hle : held' ≤ held) :
    b.Balanced setting f held' carried where
  balance := by
    have := h.balance
    omega
  known := h.known
  fixed := h.fixed
  unrated := h.unrated
  levelOk := h.levelOk

theorem updateFlowNormalVolume (h : b.Balanced setting g held carried) {n : ℕ}
    (hlt : b.volume f + n < 2 ^ 31) :
    (b.updateFlowNormalVolume setting f n).Balanced setting g
      (held + if g = f then n else 0) carried := by
  have h₀ := b.volume_nonneg f
  have hvolume : (b.updateFlowNormalVolume setting f n).volume g
      = b.volume g + if g = f then (n : ℤ) else 0 :=
    b.volume_updateFlowNormalVolume f g (by omega) hlt
  have hbalance := h.balance
  rcases Nat.eq_zero_or_pos n with rfl | hn
  · -- a packet without length changes nothing
    rw [Buffer.updateFlowNormalVolume, if_neg (by simp), ite_self]
    exact h
  have hn' : (0 : ℤ) < n := by omega
  have hget : htKfsViGet (b.updateFlowNormalVolume setting f n).flowVolumeMap g
      = if g = f then b.volume f + n else htKfsViGet b.flowVolumeMap g :=
    b.get_flowVolumeMap_updateFlowNormalVolume f g hn' hlt
  refine ⟨?_, ?_, ?_, ?_, h.levelOk.updateFlowNormalVolume hn' (by omega) hlt⟩
  · rw [hvolume, lossVolume_updateFlowNormalVolume]
    split_ifs <;> omega
  · rw [hget]
    split_ifs
    · omega
    · exact h.known
  · rw [lossVolume_updateFlowNormalVolume, Buffer.updateFlowNormalVolume, if_pos hn']
    exact h.fixed
  · intro hnone
    rw [hget] at hnone
    split_ifs at hnone with hg
    · omega
    · rw [Buffer.updateFlowNormalVolume, if_pos hn', Buffer.updateRateAndLevel]
      dsimp only
      rw [htKfsVfGet_set, if_neg hg]
      exact h.unrated hnone

theorem updateFlowLossVolume {n : ℕ}
    (h : b.Balanced setting g (held + if g = f then n else 0) carried)
    (hf : htKfsViGet b.flowVolumeMap f = -1 ∨ 0 < htKfsViGet b.flowVolumeMap f) (hn : 0 < n)
    (hlt : b.lossVolume f + n < 2 ^ 31) (rand : ℚ) :
    (b.updateFlowLossVolume setting f n rand).Balanced setting g held carried := by
  have h₀ := b.lossVolume_nonneg f
  have hn' : (0 : ℤ) < n := by omega
  have hloss : (b.updateFlowLossVolume setting f n rand).lossVolume g = b.lossVolume g
      + if g = f ∧ 0 ≤ htKfsViGet b.flowVolumeMap f then (n : ℤ) else 0 :=
    b.lossVolume_updateFlowLossVolume f g hn'.le hlt rand
  have hbalance := h.balance
  refine ⟨?_, ?_, fun e he => ?_, ?_, h.levelOk.updateFlowLossVolume hn' hlt hf rand⟩
  · rw [hloss, volume, flowVolumeMap_updateFlowLossVolume, ← volume]
    by_cases hg : g = f
    · rw [if_pos hg] at hbalance
      split_ifs <;> omega
    · rw [if_neg hg] at hbalance
      rw [if_neg fun h => hg h.1]
      omega
  · rw [flowVolumeMap_updateFlowLossVolume]
    exact h.known
  · rw [hloss]
    exact fixed_updateFlowLossVolume hn' (by omega) h.fixed (b.lossVolume_nonneg g) rand he
  · rw [flowVolumeMap_updateFlowLossVolume]
    intro hnone
    by_cases hvol : htKfsViGet b.flowVolumeMap f < 0
    · rw [updateFlowLossVolume_unknown hn' hvol]
      exact h.unrated hnone
    · have hg : g ≠ f := by
        rintro rfl
        omega
      simp only [Buffer.updateFlowLossVolume, if_pos hn', if_neg hvol, recordLoss,
        updateRateAndLevel]
      rw [htKfsVfGet_set, if_neg hg]
      exact h.unrated hnone

/-- The loss volume that a rate is made of is no more than the one in the loss map. -/
theorem lossVolumeUsed_le (h : b.Balanced setting f held carried)
    (hlt : b.lossVolume f < 2 ^ 31) :
    b.lossVolumeUsed setting f (b.lossVolume f) ≤ b.lossVolume f := by
  unfold lossVolumeUsed
  split
  · exact le_rfl
  · unfold HtKfsFixSize.value
    split
    · next e he =>
      have := h.fixed e he
      rwa [toInt_eq_toNat (by omega)]
    · exact b.lossVolume_nonneg f

/-- A recorded loss rate exceeds 1 by what the flow carried over, at most. -/
theorem rate_le (h : b.Balanced setting f held carried) (hlt : b.lossVolume f < 2 ^ 31) :
    htKfsVfGet b.flowLossRateMap f ≤ setting.floats.round (1 + carried / b.volume f) := by
  rcases h.known with hv | hv
  · have hcarried : (0 : ℚ) ≤ carried / b.volume f :=
      div_nonneg (by positivity) (by exact_mod_cast b.volume_nonneg f)
    have hround := setting.floats.nonneg (by linarith : (0 : ℚ) ≤ 1 + carried / b.volume f)
    rw [h.unrated hv]
    linarith
  · have hused := h.lossVolumeUsed_le hlt
    have hbalance := h.balance
    have hvolume : b.volume f = htKfsViGet b.flowVolumeMap f := orZero_of_nonneg hv.le
    have hpos : (0 : ℚ) < htKfsViGet b.flowVolumeMap f := by exact_mod_cast hv
    have hle : b.lossVolumeUsed setting f (b.lossVolume f)
        ≤ htKfsViGet b.flowVolumeMap f + carried := by omega
    rw [h.levelOk.rate (by omega), hvolume]
    refine setting.floats.monotone ?_
    rw [div_le_iff₀ hpos, add_mul, one_mul, div_mul_cancel₀ _ hpos.ne']
    exact_mod_cast hle

end Balanced

end Buffer

/-! ## Runs -/

namespace Losses

variable {setting : CmExperimentSetting}

structure Inv (setting : CmExperimentSetting) (s : Losses) : Prop where
  balanced : ∀ f, s.warehouse.active.Balanced setting f
    (s.warehouse.flowRecePktListMap.heldVolume f) (s.carried.heldVolume f)
  sent : ∀ f, s.warehouse.active.volume f + s.carried.heldVolume f ≤ s.sent f
  total : ∀ f, s.sent f < 2 ^ 31
  unactive : s.warehouse.unactive = Buffer.create setting

theorem heldVolume_create (f : FlowSrc) : htVlCreate.heldVolume f = 0 := by
  rw [HtVl.heldVolume]
  exact Finset.sum_eq_zero fun ports _ => by rw [HtVl.queue_create, totalVolume_nil]

theorem inv_init (tasks : List Task) : (init setting tasks).Inv setting where
  balanced := fun f => .create f _
  sent := fun f => by
    have hcarried : (init setting tasks).carried.heldVolume f = 0 := heldVolume_create f
    have hactive : (init setting tasks).warehouse.active = Buffer.create setting := rfl
    rw [hcarried, hactive, Buffer.volume_create]
    exact le_rfl
  total := fun _ => Nat.two_pow_pos 31
  unactive := rfl

/-- In any state the loss volume and what the ledger holds are within the flow's total. -/
theorem Inv.lossVolume_le {s : Losses} (h : s.Inv setting) (f : FlowSrc) :
    s.warehouse.active.lossVolume f + s.warehouse.flowRecePktListMap.heldVolume f < 2 ^ 31 := by
  have := (h.balanced f).balance
  have := h.sent f
  have := h.total f
  omega

theorem Inv.packet {s : Losses} (h : s.Inv setting) {flow : FlowS} {seqid len : UInt32}
    (hlt : s.sent flow.src + len.toNat < 2 ^ 31) :
    Losses.Inv setting { s with
      warehouse := recordAndUpdate setting s.warehouse flow seqid len
      sent := fun f => s.sent f + if f = flow.src then len.toNat else 0 } := by
  have hsent := h.sent flow.src
  have hfits : s.warehouse.active.volume flow.src + len.toNat < 2 ^ 31 := by omega
  have hactive : (recordAndUpdate setting s.warehouse flow seqid len).active
      = s.warehouse.active.updateFlowNormalVolume setting flow.src len.toNat :=
    DataWarehouse.active_modifyActive _ _
  refine ⟨fun f => ?_, fun f => ?_, fun f => ?_, ?_⟩
  · rw [hactive]
    exact ((h.balanced f).updateFlowNormalVolume hfits).mono
      (HtVl.heldVolume_set s.warehouse.flowRecePktListMap flow seqid len f)
  · have hf := h.sent f
    dsimp only
    rw [hactive, s.warehouse.active.volume_updateFlowNormalVolume flow.src f (by omega) hfits]
    split_ifs <;> omega
  · have hf := h.total f
    dsimp only
    split_ifs with hflow
    · rw [hflow]
      exact hlt
    · exact hf
  · exact (DataWarehouse.unactive_modifyActive _ _).trans h.unactive

theorem Inv.report {s : Losses} (h : s.Inv setting) (flow : FlowS) (receSeqid : UInt32)
    (rand : ℚ) : Losses.Inv setting { s with
      warehouse := flowInforUpdate setting s.warehouse flow receSeqid rand } := by
  have hheld := s.warehouse.flowRecePktListMap.heldVolume_getReceLostVolume flow receSeqid
  have hbound := h.lossVolume_le flow.src
  have hself := hheld flow.src
  unfold flowInforUpdate
  generalize htVlGetReceLostVolume s.warehouse.flowRecePktListMap flow receSeqid = r
    at hheld hself ⊢
  obtain ⟨t, ans⟩ := r
  dsimp only at hheld hself ⊢
  rw [if_pos rfl] at hself
  have hloss := s.warehouse.active.lossVolume_nonneg flow.src
  split_ifs with hpos
  · have hn : 0 < ans.lostVolume.toNat := UInt32.lt_iff_toNat_lt.1 hpos
    have hactive : ∀ n : ℤ, (updateFlowLossVolume setting
        { s.warehouse with flowRecePktListMap := t } flow.src n rand).active
          = s.warehouse.active.updateFlowLossVolume setting flow.src n rand := fun n =>
      DataWarehouse.active_modifyActive _ _
    rw [toInt_eq_toNat (by omega)]
    refine ⟨fun f => ?_, fun f => ?_, h.total, ?_⟩
    · dsimp only
      rw [hactive]
      exact ((h.balanced f).mono (hheld f)).updateFlowLossVolume (h.balanced flow.src).known hn
        (by omega) rand
    · dsimp only
      rw [hactive, Buffer.volume, Buffer.flowVolumeMap_updateFlowLossVolume]
      exact h.sent f
    · exact (DataWarehouse.unactive_modifyActive _ _).trans h.unactive
  · refine ⟨fun f => (h.balanced f).mono ?_, h.sent, h.total, h.unactive⟩
    exact (Nat.le_add_right _ _).trans (hheld f)

theorem Inv.rotate {s : Losses} (h : s.Inv setting) : Losses.Inv setting { s with
    warehouse := dataWarehouseResetNoactiveBuf setting (dataWareRotateBuffer s.warehouse)
    carried := s.warehouse.flowRecePktListMap } := by
  have hactive : (dataWarehouseResetNoactiveBuf setting
      (dataWareRotateBuffer s.warehouse)).active = Buffer.create setting := by
    rw [DataWarehouse.active_reset, DataWarehouse.active_rotate, h.unactive]
  refine ⟨fun f => ?_, fun f => ?_, h.total, DataWarehouse.unactive_reset _ _⟩
  · dsimp only
    rw [hactive]
    exact .create f _
  · have := (h.balanced f).balance
    have := h.sent f
    have := s.warehouse.active.lossVolume_nonneg f
    dsimp only
    rw [hactive, Buffer.volume_create]
    omega

theorem inv_step (s : Losses) (e : Event) (s' : Losses) (h : s.Inv setting)
    (hs : (system setting).step s e = some s') : s'.Inv setting := by
  cases e with
  | packet flow seqid len =>
    simp only [system, step] at hs
    split_ifs at hs with hlt
    cases hs
    exact h.packet hlt
  | report flow receSeqid rand =>
    cases hs
    exact h.report flow receSeqid rand
  | rotate =>
    cases hs
    exact h.rotate

/-- Loss exceeds traffic by what was carried over at most: in every reachable state a flow's loss
volume is at most its volume and what the ledger held of it when the interval began, its loss rate
accordingly, up to the rounding of floats, and at most 1 if the ledger held nothing. -/
theorem loss_within_traffic (setting : CmExperimentSetting) (tasks : List Task) (es : List Event)
    (s : Losses) (hrun : (system setting).run (init setting tasks) es = some s) (f : FlowSrc) :
    s.warehouse.active.lossVolume f ≤ s.warehouse.active.volume f + s.carried.heldVolume f
      ∧ htKfsVfGet s.warehouse.active.flowLossRateMap f
        ≤ setting.floats.round (1 + s.carried.heldVolume f / s.warehouse.active.volume f)
      ∧ (s.carried.heldVolume f = 0 → htKfsVfGet s.warehouse.active.flowLossRateMap f ≤ 1) := by
  have h : s.Inv setting := Lib.System.run_inv inv_step (inv_init tasks) hrun
  have hbalance := (h.balanced f).balance
  have hbound := h.lossVolume_le f
  have hrate := (h.balanced f).rate_le (by omega)
  refine ⟨by omega, hrate, fun hcarried => ?_⟩
  rw [hcarried, Nat.cast_zero, zero_div, add_zero, setting.floats.one] at hrate
  exact hrate

/-- Two packets of one interval are found lost in the next, in which 100 bytes were sent. -/
def carriedRun : List Event :=
  [.packet ⟨1, 2, 3, 4, 6⟩ 1 1000, .packet ⟨1, 2, 3, 4, 6⟩ 2 1000, .rotate,
    .packet ⟨1, 2, 3, 4, 6⟩ 3 100, .report ⟨1, 2, 3, 4, 6⟩ 3 0]

theorem loss_within_traffic_example : ∃ s,
    (system exampleSetting).run (init exampleSetting []) carriedRun = some s
      ∧ s.warehouse.active.lossVolume ⟨1, 2⟩
        ≤ s.warehouse.active.volume ⟨1, 2⟩ + s.carried.heldVolume ⟨1, 2⟩ := by
  obtain ⟨s, hs⟩ : ∃ s,
      (system exampleSetting).run (init exampleSetting []) carriedRun = some s :=
    Option.isSome_iff_exists.1 (by decide +kernel)
  exact ⟨s, hs, (loss_within_traffic _ _ _ s hs ⟨1, 2⟩).1⟩

/-- There the loss of the flow exceeds its traffic, and its loss rate is 20. -/
theorem loss_exceeds_traffic : ∃ s,
    (system exampleSetting).run (init exampleSetting []) carriedRun = some s
      ∧ s.warehouse.active.volume ⟨1, 2⟩ < s.warehouse.active.lossVolume ⟨1, 2⟩
      ∧ htKfsVfGet s.warehouse.active.flowLossRateMap ⟨1, 2⟩ = 20 := by
  have hrun : ((system exampleSetting).run (init exampleSetting []) carriedRun).any (fun s =>
      decide (s.warehouse.active.volume ⟨1, 2⟩ < s.warehouse.active.lossVolume ⟨1, 2⟩
        ∧ htKfsVfGet s.warehouse.active.flowLossRateMap ⟨1, 2⟩ = 20)) = true := by
    decide +kernel
  obtain ⟨s, hs, hd⟩ := (Option.any_eq_true _ _).1 hrun
  exact ⟨s, hs, of_decide_eq_true hd⟩

end Losses

end CMTestbed
