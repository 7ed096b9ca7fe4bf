import CMTestbed.Proofs.Senders

/-!
# The bytes before a flow's first sampled packet

`update_flow_not_sampled_volume` is called for each packet that is tagged as sampled, before the
packet is counted, and writes only if the flow has no entry yet.
-/

namespace CMTestbed

/-- The bytes before the first sampled packet. -/
def bytesUntilSampled (packets : List SentPacket) : ℕ :=
  bytes (packets.takeWhile fun p => !p.sampled)

section Packets
variable {packets : List SentPacket} {p : SentPacket}

theorem bytesUntilSampled_add (packets : List SentPacket) :
    bytesUntilSampled packets + bytesFromSampled packets = bytes packets := by
  rw [bytesUntilSampled, bytesFromSampled, ← bytes_append, List.takeWhile_append_dropWhile]

theorem bytesUntilSampled_le (packets : List SentPacket) :
    bytesUntilSampled packets ≤ bytes packets := by
  have hadd := bytesUntilSampled_add packets
  omega

/-- Packets after a sampled one do not count. -/
theorem bytesUntilSampled_append (h : wasSampled packets = true) (later : List SentPacket) :
    bytesUntilSampled (packets ++ later) = bytesUntilSampled packets := by
  obtain ⟨q, hq, hsampled⟩ := List.any_eq_true.1 h
  rw [bytesUntilSampled, List.takeWhile_append, if_neg, bytesUntilSampled]
  intro hall
  have htake : packets.takeWhile (fun p => !p.sampled) = packets :=
    (List.takeWhile_prefix _).eq_of_length hall
  have hnot := List.mem_takeWhile_imp (htake.symm ▸ hq)
  rw [hsampled] at hnot
  cases hnot

/-- The first sampled packet comes after all the bytes so far. -/
theorem bytesUntilSampled_first (h : wasSampled packets = false) (hp : p.sampled = true) :
    bytesUntilSampled (packets ++ [p]) = bytes packets := by
  have hadd := bytesUntilSampled_add (packets ++ [p])
  rw [bytes_concat, bytesFromSampled_concat, bytesFromSampled_eq_zero h, hp, Bool.or_true,
    if_pos rfl] at hadd
  omega

end Packets

theorem pos_of_sentHeaders {packetBuf : Frame} {totalPktLen : UInt32} {datalink : ℤ}
    {r : FlowS × UInt32} (h : sentHeaders packetBuf totalPktLen datalink = some r) :
    0 < totalPktLen.toNat := by
  rw [sentHeaders] at h
  split_ifs at h with hlen
  rw [ipv4HdrLen] at hlen
  omega

namespace Buffer

variable {setting : CmExperimentSetting} (b : Buffer) (f g : FlowSrc)

theorem get_updateFlowNotSampledVolume :
    (b.updateFlowNotSampledVolume f).flowNotSampledVolumeMap.get g
      = if g = f ∧ htKfsViGet b.flowNotSampledVolumeMap f < 0 then some (toUInt (b.volume f))
        else b.flowNotSampledVolumeMap.get g := by
  unfold updateFlowNotSampledVolume
  by_cases hfirst : htKfsViGet b.flowNotSampledVolumeMap f < 0
  · simp only [hfirst, and_true]
    exact get_set _ _ _ _
  · simp only [hfirst, and_false, if_false]

@[simp] theorem flowNotSampledVolumeMap_updateFlowLossVolume (n : ℤ) (rand : ℚ) :
    (b.updateFlowLossVolume setting f n rand).flowNotSampledVolumeMap
      = b.flowNotSampledVolumeMap := by
  unfold updateFlowLossVolume
  dsimp only
  split_ifs <;> rfl

end Buffer

/-- A warehouse, and the packets that it has handled by flow. -/
structure Prefixes where
  warehouse : DataWarehouse
  sent : FlowSrc → List SentPacket

namespace Prefixes

open Sampling (Event)

def step (setting : CmExperimentSetting) (s : Prefixes) : Event → Prefixes
  | .packet packetBuf totalPktLen datalink rand =>
    let r := cmHandleIpv4Packet setting s.warehouse packetBuf totalPktLen datalink rand
    { warehouse := r.1
      sent := fun f =>
        if (sentHeaders packetBuf totalPktLen datalink).any fun h => h.1.src = f then
          s.sent f ++ [⟨totalPktLen.toNat, r.2.sampled⟩]
        else s.sent f }
  | .loss pFlow addedLossVolume rand =>
    { s with warehouse := updateFlowLossVolume setting s.warehouse pFlow addedLossVolume rand }

def run (setting : CmExperimentSetting) (w : DataWarehouse) (es : List Event) : Prefixes :=
  es.foldl (step setting) ⟨w, fun _ => []⟩

/-- The flow's entry in `flow_not_sampled_volume_map`. -/
def entry (s : Prefixes) (f : FlowSrc) : Option UInt32 :=
  s.warehouse.active.flowNotSampledVolumeMap.get f

/-- The flow's volume, and its entry if one of its packets was tagged: the bytes before the first
of those. -/
structure Measures (s : Prefixes) (f : FlowSrc) : Prop where
  lens : ∀ p ∈ s.sent f, 0 < p.len
  volume : s.warehouse.active.volume f = bytes (s.sent f)
  stored : s.entry f = if wasSampled (s.sent f) then
    some (toUInt (bytesUntilSampled (s.sent f))) else none

section Step

variable {setting : CmExperimentSetting} {s : Prefixes} {f : FlowSrc}

theorem measures_start {w : DataWarehouse} (hfresh : w.active = Buffer.create setting) :
    Measures ⟨w, fun _ => []⟩ f where
  lens := fun _ h => absurd h List.not_mem_nil
  volume := by rw [hfresh, Buffer.volume_create]; rfl
  stored := by
    rw [entry, hfresh]
    exact Lib.Table.get_create _

/-- An entry below 2^31 is read as it is. -/
theorem Measures.get (h : s.Measures f) (hlt : bytes (s.sent f) < 2 ^ 31) :
    htKfsViGet s.warehouse.active.flowNotSampledVolumeMap f
      = if wasSampled (s.sent f) then (bytesUntilSampled (s.sent f) : ℤ) else -1 := by
  have hentry : s.warehouse.active.flowNotSampledVolumeMap.get f = _ := h.stored
  have hle := bytesUntilSampled_le (s.sent f)
  rw [htKfsViGet, hentry]
  split_ifs
  · exact toInt_toUInt (Int.natCast_nonneg _) (by omega)
  · rfl

/-- The flow's entry after one of its packets, which is still to be counted. -/
theorem Measures.stored_packet (h : s.Measures f) (hlt : bytes (s.sent f) < 2 ^ 31)
    (p : SentPacket) :
    (if p.sampled = true then
        (s.warehouse.active.updateFlowNotSampledVolume f).flowNotSampledVolumeMap
      else s.warehouse.active.flowNotSampledVolumeMap).get f
      = if wasSampled (s.sent f ++ [p]) then
          some (toUInt (bytesUntilSampled (s.sent f ++ [p])))
        else none := by
  have hentry : s.warehouse.active.flowNotSampledVolumeMap.get f = _ := h.stored
  have hget := h.get hlt
  have hset := Buffer.get_updateFlowNotSampledVolume s.warehouse.active f f
  rw [wasSampled_concat]
  cases hwas : wasSampled (s.sent f) with
  | true =>
    rw [hwas, if_pos rfl] at hget hentry
    rw [if_neg (by omega)] at hset
    rw [apply_ite (fun map => Lib.Table.get map f), hset, ite_self, hentry, Bool.true_or,
      if_pos rfl, bytesUntilSampled_append hwas]
  | false =>
    rw [hwas, if_neg (by decide)] at hget hentry
    cases hp : p.sampled with
    | true =>
      rw [if_pos ⟨rfl, by omega⟩, h.volume] at hset
      rw [if_pos rfl, hset, bytesUntilSampled_first hwas hp]
      rfl
    | false =>
      rw [if_neg (by decide), hentry]
      rfl

theorem Measures.headers (h : ∀ f, s.Measures f) (flow : FlowS) (seqid totalPktLen : UInt32)
    (rand : ℚ) (hpos : 0 < totalPktLen.toNat)
    (hlt : bytes (s.sent flow.src) + totalPktLen.toNat < 2 ^ 31) (f : FlowSrc) :
    let r := handleHeaders setting s.warehouse flow seqid totalPktLen rand
    Measures ⟨r.1, fun f => if flow.src = f then s.sent f ++ [⟨totalPktLen.toNat, r.2.sampled⟩]
      else s.sent f⟩ f := by
  intro r
  obtain ⟨m, hb⟩ := Buffer.handleHeaders_frame setting s.warehouse flow seqid totalPktLen rand
  change r.1.active = _ at hb
  have hvolume := (h flow.src).volume
  have hlen : toInt totalPktLen = totalPktLen.toNat := toInt_eq_toNat (by omega)
  have hcount : r.1.active.volume f = s.warehouse.active.volume f
      + if f = flow.src then toInt totalPktLen else 0 := by
    rw [hb]
    exact s.warehouse.active.volume_updateFlowNormalVolume flow.src f (by omega) (by omega)
  by_cases hf : flow.src = f
  · subst hf
    refine ⟨fun p hp => ?_, ?_, ?_⟩
    · dsimp only at hp
      rw [if_pos rfl, List.mem_append, List.mem_singleton] at hp
      rcases hp with hp | rfl
      · exact (h flow.src).lens p hp
      · exact hpos
    · dsimp only
      rw [hcount, if_pos rfl, if_pos rfl, bytes_concat, hvolume, hlen]
      push_cast
      rfl
    · rw [entry, hb]
      simp only [if_true]
      exact (h flow.src).stored_packet (by omega) ⟨totalPktLen.toNat, r.2.sampled⟩
  · refine ⟨fun p hp => ?_, ?_, ?_⟩
    · dsimp only at hp
      rw [if_neg hf] at hp
      exact (h f).lens p hp
    · dsimp only
      rw [hcount, if_neg (Ne.symm hf), if_neg hf, add_zero]
      exact (h f).volume
    · have hother := Buffer.get_updateFlowNotSampledVolume s.warehouse.active flow.src f
      rw [if_neg fun hs => hf hs.1.symm] at hother
      rw [entry, hb]
      simp only [if_neg hf]
      rw [apply_ite (fun map => Lib.Table.get map f), hother, ite_self]
      exact (h f).stored

theorem Measures.step (h : ∀ f, s.Measures f) (e : Event)
    (hlt : ∀ f, bytes ((s.step setting e).sent f) < 2 ^ 31) (f : FlowSrc) :
    (s.step setting e).Measures f := by
  cases e with
  | packet packetBuf totalPktLen datalink rand =>
    rcases hsent : sentHeaders packetBuf totalPktLen datalink with _ | ⟨flow, seqid⟩
    · have hsame : s.step setting (.packet packetBuf totalPktLen datalink rand) = s := by
        simp [Prefixes.step, cmHandleIpv4Packet, hsent]
      rw [hsame]
      exact h f
    · have hstep : s.step setting (.packet packetBuf totalPktLen datalink rand)
          = ⟨(handleHeaders setting s.warehouse flow seqid totalPktLen rand).1, fun f =>
            if flow.src = f then s.sent f ++ [⟨totalPktLen.toNat,
              (handleHeaders setting s.warehouse flow seqid totalPktLen rand).2.sampled⟩]
            else s.sent f⟩ := by
        simp [Prefixes.step, cmHandleIpv4Packet, hsent]
      rw [hstep] at hlt ⊢
      have hfits := hlt flow.src
      dsimp only at hfits
      rw [if_pos rfl, bytes_concat] at hfits
      exact Measures.headers h flow seqid totalPktLen rand (pos_of_sentHeaders hsent) hfits f
  | loss pFlow addedLossVolume rand =>
    have hactive : (s.step setting (.loss pFlow addedLossVolume rand)).warehouse.active
        = s.warehouse.active.updateFlowLossVolume setting pFlow addedLossVolume rand :=
      DataWarehouse.active_modifyActive _ _
    refine ⟨(h f).lens, ?_, ?_⟩
    · rw [hactive, Buffer.volume, Buffer.flowVolumeMap_updateFlowLossVolume]
      exact (h f).volume
    · rw [entry, hactive, Buffer.flowNotSampledVolumeMap_updateFlowLossVolume]
      exact (h f).stored

variable (setting) in
/-- A step keeps the packets sent. -/
theorem exists_sent_step (s : Prefixes) (e : Event) (f : FlowSrc) :
    ∃ later, (s.step setting e).sent f = s.sent f ++ later := by
  cases e with
  | packet packetBuf totalPktLen datalink rand =>
    simp only [Prefixes.step]
    split_ifs
    · exact ⟨_, rfl⟩
    · exact ⟨[], (List.append_nil _).symm⟩
  | loss pFlow addedLossVolume rand => exact ⟨[], (List.append_nil _).symm⟩

end Step

section Run

variable {setting : CmExperimentSetting} {s : Prefixes} {f : FlowSrc}

variable (setting) in
theorem exists_sent_run (s : Prefixes) (es : List Event) (f : FlowSrc) :
    ∃ later, (es.foldl (step setting) s).sent f = s.sent f ++ later := by
  induction es generalizing s with
  | nil => exact ⟨[], (List.append_nil _).symm⟩
  | cons e es ih =>
    obtain ⟨first, hfirst⟩ := exists_sent_step setting s e f
    obtain ⟨later, hlater⟩ := ih (s.step setting e)
    refine ⟨first ++ later, ?_⟩
    rw [List.foldl_cons, hlater, hfirst, List.append_assoc]

theorem Measures.run (h : ∀ f, s.Measures f) (es : List Event)
    (hlt : ∀ f, bytes ((es.foldl (Prefixes.step setting) s).sent f) < 2 ^ 31) (f : FlowSrc) :
    (es.foldl (Prefixes.step setting) s).Measures f := by
  induction es generalizing s with
  | nil => exact h f
  | cons e es ih =>
    refine ih (fun g => Measures.step h e (fun g => ?_) g) hlt
    obtain ⟨later, hlater⟩ := exists_sent_run setting (s.step setting e) es g
    have hfits := hlt g
    rw [List.foldl_cons, hlater, bytes_append] at hfits
    omega

/-- What the event can add to the bytes sent of a flow. -/
def addedLen : Event → ℕ
  | .packet _ totalPktLen _ _ => totalPktLen.toNat
  | .loss _ _ _ => 0

theorem bytes_sent_le (s : Prefixes) (es : List Event) (f : FlowSrc) :
    bytes ((es.foldl (step setting) s).sent f) ≤ bytes (s.sent f) + (es.map addedLen).sum := by
  induction es generalizing s with
  | nil => exact le_rfl
  | cons e es ih =>
    have hstep : bytes ((s.step setting e).sent f) ≤ bytes (s.sent f) + addedLen e := by
      cases e with
      | packet packetBuf totalPktLen datalink rand =>
        simp only [step, addedLen]
        split_ifs
        · rw [bytes_concat]
        · exact Nat.le_add_right _ _
      | loss pFlow addedLossVolume rand => exact le_rfl
    have hrest := ih (s.step setting e)
    rw [List.foldl_cons, List.map_cons, List.sum_cons]
    omega

end Run

/-- The unsampled prefix is measured exactly: in an interval that starts with a fresh buffer, at
every moment a flow has an entry if and only if one of its packets was tagged as sampled, and the
entry is what the flow's packets before the first of those add up to.  It is less than the flow's
volume, and stays as it is. -/
theorem unsampled_prefix_measured (setting : CmExperimentSetting) (w : DataWarehouse)
    (hfresh : w.active = Buffer.create setting) (es later : List Event)
    (hfits : ∀ f, bytes ((run setting w (es ++ later)).sent f) < 2 ^ 31) (f : FlowSrc) :
    let now := run setting w es
    ((now.entry f).isSome ↔ ∃ p ∈ now.sent f, p.sampled = true)
      ∧ ∀ value, now.entry f = some value →
        value.toNat = bytes ((now.sent f).takeWhile fun p => !p.sampled)
        ∧ (value.toNat : ℤ) < htKfsViGet now.warehouse.active.flowVolumeMap f
        ∧ (run setting w (es ++ later)).entry f = some value := by
  intro now
  have hstart : ∀ f, Measures ⟨w, fun _ => []⟩ f := fun _ => measures_start hfresh
  obtain ⟨more, hmore⟩ := exists_sent_run setting now later f
  have hlater : run setting w (es ++ later) = later.foldl (step setting) now :=
    List.foldl_append
  have hnow : now.Measures f := by
    refine Measures.run hstart es (fun g => ?_) f
    obtain ⟨rest, hrest⟩ := exists_sent_run setting now later g
    have hg := hfits g
    rw [hlater, hrest, bytes_append] at hg
    exact lt_of_le_of_lt (Nat.le_add_right _ _) hg
  have hthen : (run setting w (es ++ later)).Measures f := Measures.run hstart _ hfits f
  have hstored := hnow.stored
  have hthen' := hthen.stored
  have hf := hfits f
  rw [hlater, hmore] at hthen' hf
  rw [bytes_append] at hf
  refine ⟨?_, fun value hvalue => ?_⟩
  · rw [hstored, wasSampled]
    split_ifs with hwas
    · exact iff_of_true rfl (List.any_eq_true.1 hwas)
    · exact iff_of_false (by decide) fun h => hwas (List.any_eq_true.2 h)
  · rw [hvalue] at hstored
    split_ifs at hstored with hwas
    have hadd := bytesUntilSampled_add (now.sent f)
    have hfrom := bytesFromSampled_pos hnow.lens hwas
    have hnat : ((toUInt (bytesUntilSampled (now.sent f))).toNat : ℤ)
        = bytesUntilSampled (now.sent f) := toNat_toUInt (Int.natCast_nonneg _) (by omega)
    rw [← Option.some.inj hstored] at hnat
    have hvolume := hnow.volume
    refine ⟨by exact_mod_cast hnat, ?_, ?_⟩
    · rw [Buffer.volume, orZero] at hvolume
      split_ifs at hvolume <;> omega
    · rw [hlater, hthen', if_pos, bytesUntilSampled_append hwas, hstored]
      rw [wasSampled, List.any_append]
      exact Bool.or_eq_true_iff.2 (.inl hwas)

open Sampling (exampleRun exampleFlow exampleTask)

/-- Of two packets of 100 bytes the second is sampled, for the loss in between. -/
theorem unsampled_prefix_measured_example :
    let now := run exampleSetting (dataWarehouseInit exampleSetting [exampleTask]) (exampleRun 40)
    now.entry exampleFlow = some 100
      ∧ 100 < htKfsViGet now.warehouse.active.flowVolumeMap exampleFlow := by
  intro now
  have hentry : now.entry exampleFlow = some 100 := by decide +kernel
  refine ⟨hentry, ?_⟩
  have hlens : ((exampleRun 40 ++ []).map addedLen).sum < 2 ^ 31 := by decide
  have hmeasured := unsampled_prefix_measured exampleSetting
    (dataWarehouseInit exampleSetting [exampleTask]) rfl (exampleRun 40) []
    (fun f => lt_of_le_of_lt (bytes_sent_le _ _ f) ((Nat.zero_add _).symm ▸ hlens)) exampleFlow
  exact (hmeasured.2 100 hentry).2.1

end Prefixes

end CMTestbed
