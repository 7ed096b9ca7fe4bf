import CMTestbed.Counters
import CMTestbed.Proofs.LossCounter
import CMTestbed.Proofs.Losses
import CMTestbed.Proofs.Sampling

/-!
# Where a packet's length is counted

The length goes to the flow's volume as an `int`, and to the counter and the ledger through the
16 bits of `packet.len`.  So the three agree as long as every packet is shorter than 2^16 bytes.
-/

namespace CMTestbed

/-- The ledger's total, over all flows. -/
def HtVl.totalHeld (hashtable : HtVl) : ℕ := ∑ f : FlowSrc, hashtable.heldVolume f

/-- Recording a packet adds its length to what is held of its flow. -/
theorem HtVl.heldVolume_set_eq (t : HtVl) (key : FlowS) (seqid volume : UInt32) (f : FlowSrc) :
    (htVlSet t key seqid volume).heldVolume f
      = t.heldVolume f + if f = key.src then volume.toNat else 0 := by
  refine le_antisymm (heldVolume_set t key seqid volume f) ?_
  have hqueue : ∀ g, t.queue g = if g.rank = key.rank then t.queue key
      else (htVlSet t key seqid volume).queue g := by
    intro g
    rw [t.queue_set]
    split_ifs with hg
    · exact t.queue_congr hg
    · rfl
  have hle := heldVolume_le (n := volume.toNat) (m := 0) hqueue
    (by simp [t.queue_set, totalVolume_append]) f
  simpa using hle

@[simp] theorem HtVl.totalHeld_set (t : HtVl) (key : FlowS) (seqid volume : UInt32) :
    (htVlSet t key seqid volume).totalHeld = t.totalHeld + volume.toNat := by
  simp only [totalHeld, heldVolume_set_eq, Finset.sum_add_distrib, Finset.sum_ite_eq',
    Finset.mem_univ, if_true]

namespace Buffer

variable {setting : CmExperimentSetting} (b : Buffer) (f : FlowSrc)

/-- The volumes of all flows. -/
def totalVolume : ℤ := ∑ g : FlowSrc, b.volume g

@[simp] theorem totalVolume_create : (create setting).totalVolume = 0 := by simp [totalVolume]

theorem totalVolume_updateFlowNormalVolume {n : ℤ} (hn : 0 ≤ n)
    (hlt : b.volume f + n < 2 ^ 31) :
    (b.updateFlowNormalVolume setting f n).totalVolume = b.totalVolume + n := by
  have hvolume : ∀ g, (b.updateFlowNormalVolume setting f n).volume g
      = b.volume g + if g = f then n else 0 :=
    fun g => b.volume_updateFlowNormalVolume f g hn hlt
  simp only [totalVolume, hvolume, Finset.sum_add_distrib, Finset.sum_ite_eq', Finset.mem_univ,
    if_true]

variable (setting) in
/-- Tagging a packet changes no volume and no counter. -/
theorem tagIfMonitored_frame (tasks : List Task) (n : ℤ) (rand : ℚ) :
    ∃ m k, (b.tagIfMonitored setting tasks f n rand).1
      = { b with flowSampleMap := m, flowNotSampledVolumeMap := k } := by
  unfold tagIfMonitored
  split
  · unfold tagPacket
    dsimp only
    split
    · exact b.sampleAtHost_frame f setting n rand
    · exact ⟨_, _, rfl⟩
  · exact ⟨_, _, rfl⟩

end Buffer

/-! ## A packet -/

section Headers
variable (setting : CmExperimentSetting) (w : DataWarehouse) (flow : FlowS)
  (seqid totalPktLen : UInt32) (rand : ℚ)

theorem ledger_handleHeaders :
    (handleHeaders setting w flow seqid totalPktLen rand).1.flowRecePktListMap
      = htVlSet w.flowRecePktListMap flow seqid totalPktLen.toUInt16.toUInt32 := rfl

theorem pktNumSent_handleHeaders :
    (handleHeaders setting w flow seqid totalPktLen rand).1.active.pktNumSent
      = w.active.pktNumSent + 1 := by
  obtain ⟨m, k, hframe⟩ := w.active.tagIfMonitored_frame setting flow.src
    w.taskManager (toInt totalPktLen) rand
  rw [Sampling.active_handleHeaders, hframe]
  unfold Buffer.countPacket Buffer.updateFlowNormalVolume
  split_ifs <;> rfl

theorem volumeSent_handleHeaders :
    (handleHeaders setting w flow seqid totalPktLen rand).1.active.volumeSent
      = w.active.volumeSent + totalPktLen.toUInt16.toUInt64 := by
  obtain ⟨m, k, hframe⟩ := w.active.tagIfMonitored_frame setting flow.src
    w.taskManager (toInt totalPktLen) rand
  rw [Sampling.active_handleHeaders, hframe]
  unfold Buffer.countPacket Buffer.updateFlowNormalVolume
  split_ifs <;> rfl

theorem totalVolume_handleHeaders (hint : totalPktLen.toNat < 2 ^ 31)
    (hlt : w.active.volume flow.src + totalPktLen.toNat < 2 ^ 31) :
    (handleHeaders setting w flow seqid totalPktLen rand).1.active.totalVolume
      = w.active.totalVolume + totalPktLen.toNat := by
  obtain ⟨m, k, hframe⟩ := w.active.tagIfMonitored_frame setting flow.src
    w.taskManager (toInt totalPktLen) rand
  have hlen := toInt_eq_toNat hint
  rw [Sampling.active_handleHeaders, hframe]
  rw [hlen] at *
  exact Buffer.totalVolume_updateFlowNormalVolume { w.active with
    flowSampleMap := m, flowNotSampledVolumeMap := k } flow.src (Int.natCast_nonneg _) hlt

end Headers

namespace Handling

variable {setting : CmExperimentSetting}

/-- The counters are those of the packets handled since `w`. -/
structure CountersAgree (w : DataWarehouse) (s : Handling) : Prop where
  pktNumSent : s.warehouse.active.pktNumSent = UInt64.ofNat s.ipv4Packets
  volumeSent : s.warehouse.active.volumeSent = UInt64.ofInt s.warehouse.active.totalVolume
  ledger : (s.warehouse.flowRecePktListMap.totalHeld : ℤ)
    = w.flowRecePktListMap.totalHeld + s.warehouse.active.totalVolume

/-- The length of a packet that is handled fits in 16 bits. -/
def Short (_ : Handling) (p : Packet) : Prop := p.headers.isSome → p.totalPktLen.toNat < 2 ^ 16

instance (s : Handling) : DecidablePred s.Short := fun _ => inferInstanceAs (Decidable (_ → _))

theorem countersAgree_start {w : DataWarehouse} (hw : w.active = Buffer.create setting) :
    CountersAgree w (start w) where
  pktNumSent := by rw [start, hw]; rfl
  volumeSent := by rw [start, hw, Buffer.totalVolume_create]; rfl
  ledger := by rw [start, hw, Buffer.totalVolume_create, add_zero]

/-- A packet leaves the counters in agreement exactly if its length fits. -/
theorem countersAgree_step {w : DataWarehouse} {s s' : Handling} {p : Packet}
    (h : CountersAgree w s) (hs : (system setting).step s p = some s') :
    CountersAgree w s' ↔ s.Short p := by
  obtain ⟨packetBuf, totalPktLen, datalink, rand⟩ := p
  obtain ⟨hfits, hs⟩ := Option.ite_none_right_eq_some.1 hs
  cases hs
  obtain ⟨-, hint, hlt⟩ := hfits
  unfold Short
  rcases hheaders : Packet.headers ⟨packetBuf, totalPktLen, datalink, rand⟩
    with _ | ⟨flow, seqid⟩
  · -- no IPv4: nothing changes
    have hsent : sentHeaders packetBuf totalPktLen datalink = none := hheaders
    simp only [cmHandleIpv4Packet, hsent, Option.isSome_none, Bool.false_eq_true, if_false,
      add_zero, false_imp_iff, iff_true]
    exact h
  have hsent : sentHeaders packetBuf totalPktLen datalink = some (flow, seqid) := hheaders
  have hvolume := totalVolume_handleHeaders setting s.warehouse flow seqid totalPktLen rand hint
    (hlt (flow, seqid) hheaders)
  have hlen : totalPktLen.toUInt16.toNat = totalPktLen.toNat % 2 ^ 16 := by simp
  simp only [cmHandleIpv4Packet, hsent, Option.isSome_some, if_true, true_imp_iff]
  constructor
  · rintro ⟨-, -, hledger⟩
    rw [ledger_handleHeaders, HtVl.totalHeld_set, hvolume, UInt16.toNat_toUInt32, hlen] at hledger
    have hbefore := h.ledger
    push_cast at hledger
    omega
  · intro hshort
    refine ⟨?_, ?_, ?_⟩
    · rw [pktNumSent_handleHeaders, h.pktNumSent, UInt64.ofNat_add]
      rfl
    · have hadded : totalPktLen.toUInt16.toUInt64 = UInt64.ofInt totalPktLen.toNat := by
        rw [← UInt64.toNat_inj, UInt16.toNat_toUInt64, hlen, UInt64.ofInt, UInt64.toNat_ofNat']
        omega
      rw [volumeSent_handleHeaders, h.volumeSent, hvolume, UInt64.ofInt_add, hadded]
    · rw [ledger_handleHeaders, HtVl.totalHeld_set, hvolume, UInt16.toNat_toUInt32, hlen]
      have hbefore := h.ledger
      push_cast
      omega

/-- In a run of packets whose lengths fit, in an interval without reports, the counters are those of
the packets handled. -/
theorem counters_agree (setting : CmExperimentSetting) (w : DataWarehouse)
    (hw : w.active = Buffer.create setting) (ps : List Packet) (s : Handling)
    (hshort : (system setting).Meets Short (start w) ps)
    (hrun : (system setting).run (start w) ps = some s) :
    s.warehouse.active.pktNumSent = UInt64.ofNat s.ipv4Packets
      ∧ s.warehouse.active.volumeSent
        = UInt64.ofInt (∑ f : FlowSrc, s.warehouse.active.volume f)
      ∧ ((∑ f : FlowSrc, s.warehouse.flowRecePktListMap.heldVolume f : ℕ) : ℤ)
        = (∑ f : FlowSrc, w.flowRecePktListMap.heldVolume f : ℕ)
          + ∑ f : FlowSrc, s.warehouse.active.volume f := by
  have h := Lib.System.run_inv_of (fun s p s' h hok hs => (countersAgree_step h hs).2 hok)
    (countersAgree_start hw) hshort hrun
  exact ⟨h.pktNumSent, h.volumeSent, h.ledger⟩

/-- Two packets of `len` bytes. -/
def examplePackets (len : UInt32) : List Packet :=
  [⟨exampleFrame [], len, dltEn10mb, 0⟩, ⟨exampleFrame [], len, dltEn10mb, 0⟩]

theorem counters_agree_example : ∃ s,
    (system exampleSetting).run (start (dataWarehouseInit exampleSetting [])) (examplePackets 65535)
        = some s
      ∧ s.ipv4Packets = 2
      ∧ s.warehouse.active.volumeSent
        = UInt64.ofInt (∑ f : FlowSrc, s.warehouse.active.volume f) := by
  have hcount : ((system exampleSetting).run (start (dataWarehouseInit exampleSetting []))
      (examplePackets 65535)).any (fun s => s.ipv4Packets = 2) = true := by
    decide +kernel
  obtain ⟨s, hs, hd⟩ := (Option.any_eq_true _ _).1 hcount
  exact ⟨s, hs, of_decide_eq_true hd,
    (counters_agree exampleSetting _ rfl _ s (by decide +kernel) hs).2.1⟩

/-- A packet of 2^16 bytes is in its flow's volume alone. -/
theorem counters_differ : ∃ s,
    (system exampleSetting).run (start (dataWarehouseInit exampleSetting []))
        [⟨exampleFrame [], 65536, dltEn10mb, 0⟩] = some s
      ∧ s.warehouse.active.volumeSent = 0
      ∧ ∑ f : FlowSrc, s.warehouse.flowRecePktListMap.heldVolume f = 0
      ∧ ∑ f : FlowSrc, s.warehouse.active.volume f = 65536 := by
  let w := dataWarehouseInit exampleSetting []
  have hsent : sentHeaders (exampleFrame []) 65536 dltEn10mb
      = some (⟨0x0a000001, 0x0b000002, 80, 8080, 6⟩, 7) := by
    decide
  let flow : FlowS := ⟨0x0a000001, 0x0b000002, 80, 8080, 6⟩
  have hrun : (system exampleSetting).run (start w) [⟨exampleFrame [], 65536, dltEn10mb, 0⟩]
      = some ⟨(handleHeaders exampleSetting w flow 7 65536 0).1, 1⟩ := by
    have hfits : (start w).Fits ⟨exampleFrame [], 65536, dltEn10mb, 0⟩ := by decide +kernel
    have hcount : (start w).ipv4Packets + 1 = 1 := rfl
    simp only [Lib.System.run, system, step, if_pos hfits, cmHandleIpv4Packet, Packet.headers,
      hsent, Option.isSome_some, if_true, Option.bind_some, hcount]
    rfl
  refine ⟨_, hrun, ?_, ?_, ?_⟩
  · exact volumeSent_handleHeaders exampleSetting w flow 7 65536 0
  · have hheld : htVlCreate.totalHeld = 0 := by simp [HtVl.totalHeld, Losses.heldVolume_create]
    have h := HtVl.totalHeld_set htVlCreate flow 7 (65536 : UInt32).toUInt16.toUInt32
    rw [hheld] at h
    exact h
  · have hzero : w.active.totalVolume = 0 := Buffer.totalVolume_create
    have h := totalVolume_handleHeaders exampleSetting w flow 7 65536 0 (by decide) (by
      show Buffer.volume (Buffer.create _) _ + _ < _
      rw [Buffer.volume_create]
      decide)
    rw [hzero] at h
    exact h

end Handling

end CMTestbed
