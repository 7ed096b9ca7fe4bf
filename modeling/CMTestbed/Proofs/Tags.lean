import CMTestbed.Proofs.Frames
import CMTestbed.Proofs.Splitting
import CMTestbed.Tasks
import Mathlib.Tactic.FinCases

/-!
# What the tag says

Each of the calls that tag a packet sets bits of its own in one field, so their order does not
matter.  The bits of the switches 1 to 12 are apart from those of the sampled mark and the level.  A
switch with another number has no bit, or one that says something else.
-/

namespace CMTestbed

/-! ## The field -/

namespace Frame

variable {packetBuf : Frame} {i : ℕ} {v : UInt16}

theorem hostU16_eq_some : packetBuf.hostU16 i = some v ↔ ∃ low high, packetBuf[i]? = some low
    ∧ packetBuf[i + 1]? = some high ∧ v = UInt16.ofNat (low.toNat + 256 * high.toNat) := by
  simp only [hostU16, u8, Option.bind_eq_bind, Option.bind_eq_some_iff, Option.pure_def,
    Option.some.injEq]
  constructor
  · rintro ⟨low, hlow, high, hhigh, rfl⟩
    exact ⟨low, high, hlow, hhigh, rfl⟩
  · rintro ⟨low, high, hlow, hhigh, rfl⟩
    exact ⟨low, hlow, high, hhigh, rfl⟩

theorem lt_length_of_hostU16 (h : packetBuf.hostU16 i = some v) : i + 1 < packetBuf.length := by
  obtain ⟨_, _, -, hhigh, -⟩ := hostU16_eq_some.1 h
  exact (List.getElem?_eq_some_iff.1 hhigh).1

@[simp] theorem length_setHostU16 : (packetBuf.setHostU16 i v).length = packetBuf.length := by
  simp [setHostU16]

theorem getElem?_setHostU16_of_ne {j : ℕ} (h : j ≠ i) (h' : j ≠ i + 1) :
    (packetBuf.setHostU16 i v)[j]? = packetBuf[j]? := by
  rw [setHostU16, List.getElem?_set_ne h'.symm, List.getElem?_set_ne h.symm]

theorem hostU16_setHostU16 (h : i + 1 < packetBuf.length) :
    (packetBuf.setHostU16 i v).hostU16 i = some v := by
  refine hostU16_eq_some.2 ⟨v.toUInt8, (v >>> 8).toUInt8, ?_, ?_, ?_⟩
  · rw [setHostU16, List.getElem?_set_ne (by omega), List.getElem?_set_self (by omega)]
  · rw [setHostU16, List.getElem?_set_self (by simpa using h)]
  · have hv := v.toNat_lt
    have h8 : (8 : UInt16).toNat % 16 = 8 := rfl
    rw [← UInt16.toNat_inj, UInt16.toNat_ofNat', UInt16.toNat_toUInt8, UInt16.toNat_toUInt8,
      UInt16.toNat_shiftRight, h8, Nat.shiftRight_eq_div_pow]
    omega

theorem setHostU16_setHostU16 (w : UInt16) :
    (packetBuf.setHostU16 i v).setHostU16 i w = packetBuf.setHostU16 i w := by
  refine List.ext_getElem? fun j => ?_
  simp only [setHostU16, List.getElem?_set, List.length_set]
  split_ifs <;> rfl

theorem setHostU16_self (h : packetBuf.hostU16 i = some v) :
    packetBuf.setHostU16 i v = packetBuf := by
  obtain ⟨low, high, hlow, hhigh, rfl⟩ := hostU16_eq_some.1 h
  have := low.toNat_lt
  have := high.toNat_lt
  have h8 : (8 : UInt16).toNat % 16 = 8 := rfl
  have hl : (UInt16.ofNat (low.toNat + 256 * high.toNat)).toUInt8 = low := by
    rw [← UInt8.toNat_inj, UInt16.toNat_toUInt8, UInt16.toNat_ofNat']
    omega
  have hh : (UInt16.ofNat (low.toNat + 256 * high.toNat) >>> 8).toUInt8 = high := by
    rw [← UInt8.toNat_inj, UInt16.toNat_toUInt8, UInt16.toNat_shiftRight, UInt16.toNat_ofNat', h8,
      Nat.shiftRight_eq_div_pow]
    omega
  rw [setHostU16, hl, hh]
  refine List.ext_getElem? fun j => ?_
  simp only [List.getElem?_set, List.length_set]
  split_ifs with h₁ h₂ h₃
  · rw [← h₁, hhigh]
  · exact absurd (List.getElem?_eq_some_iff.1 hhigh).1 h₂
  · rw [← h₃, hlow]
  · exact absurd (List.getElem?_eq_some_iff.1 hlow).1 ‹_›
  · rfl

end Frame

theorem l2Start_congr {packetBuf packetBuf' : Frame} (datalink : ℤ)
    (h : ∀ j < 6, packetBuf[j]? = packetBuf'[j]?) :
    l2Start packetBuf datalink = l2Start packetBuf' datalink := by
  have h3 : packetBuf.u8 3 = packetBuf'.u8 3 := h 3 (by omega)
  have h4 : packetBuf.u16 4 = packetBuf'.u16 4 := Frame.u16_congr fun k hk => h (4 + k) (by omega)
  rw [l2Start, l2Start, h3, h4]

section
variable {packetBuf : Frame} {datalink : ℤ} {i : ℕ} {vid v : UInt16}

theorem vlanField_eq_some {r : Option ℕ} : vlanField packetBuf datalink = some r ↔
    ∃ l2Len etherType, l2Start packetBuf datalink = some l2Len
      ∧ packetBuf.u16 (l2Len + 12) = some etherType
      ∧ r = if etherType = ethertypeVlan then some (l2Len + 14) else none := by
  simp only [vlanField, Option.bind_eq_bind, Option.bind_eq_some_iff, Option.pure_def,
    Option.some.injEq]
  constructor
  · rintro ⟨l2Len, hl, t, ht, rfl⟩
    exact ⟨l2Len, t, hl, ht, rfl⟩
  · rintro ⟨l2Len, t, hl, ht, rfl⟩
    exact ⟨l2Len, hl, t, ht, rfl⟩

/-- Tagging does not move the field. -/
theorem vlanField_setHostU16 (h : vlanField packetBuf datalink = some (some i)) :
    vlanField (packetBuf.setHostU16 i v) datalink = some (some i) := by
  obtain ⟨l2Len, etherType, hl, ht, hr⟩ := vlanField_eq_some.1 h
  have hi : i = l2Len + 14 := by
    split_ifs at hr
    exact Option.some.inj hr
  have hsame : ∀ j < i, (packetBuf.setHostU16 i v)[j]? = packetBuf[j]? := fun j hj =>
    Frame.getElem?_setHostU16_of_ne (by omega) (by omega)
  refine vlanField_eq_some.2 ⟨l2Len, etherType, ?_, ?_, hr⟩
  · rw [l2Start_congr datalink fun j hj => hsame j (by omega), hl]
  · rw [Frame.u16_congr fun k hk => hsame (l2Len + 12 + k) (by omega), ht]

theorem tagVlan_eq (h : vlanField packetBuf datalink = some (some i))
    (hvid : packetBuf.hostU16 i = some vid) (tag : UInt16 → Option UInt16) :
    tagVlan packetBuf datalink tag = (tag vid).map (packetBuf.setHostU16 i) := by
  simp only [tagVlan, h, Option.bind_eq_bind, Option.bind_some, hvid]
  exact Option.map_eq_bind.symm

end

/-! ## The bits -/

theorem or_and_distrib (a b c : UInt16) : (a ||| b) &&& c = (a &&& c) ||| (b &&& c) :=
  UInt16.toBitVec_inj.1 BitVec.and_or_distrib_right

/-- The bit of a switch. -/
def switchBit (switchid : ℤ) : UInt16 := (tagVlanForSwitchI (switchid - 1)).getD 0

/-- All the bits that are not a switch's. -/
def otherBits : UInt16 := 23

/-- The twelve switches that have a bit. -/
def InRange (switchid : ℤ) : Prop := 1 ≤ switchid ∧ switchid ≤ 12

instance : DecidablePred InRange := fun _ => inferInstanceAs (Decidable (_ ∧ _))

theorem InRange.exists_fin {switchid : ℤ} (h : InRange switchid) :
    ∃ n : Fin 12, switchid = (n : ℤ) + 1 := by
  obtain ⟨h₁, h₂⟩ := h
  exact ⟨⟨(switchid - 1).toNat, by omega⟩, by simp; omega⟩

theorem tagVlanForSwitchI_of_inRange {switchid : ℤ} (h : InRange switchid) :
    tagVlanForSwitchI (switchid - 1) = some (switchBit switchid) := by
  obtain ⟨n, rfl⟩ := h.exists_fin
  revert n
  decide

theorem switchBit_ne_zero {switchid : ℤ} (h : InRange switchid) : switchBit switchid ≠ 0 := by
  obtain ⟨n, rfl⟩ := h.exists_fin
  revert n
  decide

theorem switchBit_and_otherBits {switchid : ℤ} (h : InRange switchid) :
    switchBit switchid &&& otherBits = 0 := by
  obtain ⟨n, rfl⟩ := h.exists_fin
  revert n
  decide

theorem switchBit_and_switchBit {a b : ℤ} (ha : InRange a) (hb : InRange b) (hne : a ≠ b) :
    switchBit a &&& switchBit b = 0 := by
  obtain ⟨n, rfl⟩ := ha.exists_fin
  obtain ⟨m, rfl⟩ := hb.exists_fin
  have hnm : n ≠ m := fun he => hne (he ▸ rfl)
  revert n m
  decide

/-- The bits of all these switches. -/
def switchBits (switchides : List ℤ) : UInt16 :=
  switchides.foldr (fun switchid vid => switchBit switchid ||| vid) 0

theorem tagSwitches_of_inRange : ∀ {switchides : List ℤ}, (∀ id ∈ switchides, InRange id) →
    ∀ vid, tagSwitches switchides vid = some (vid ||| switchBits switchides)
  | [], _, vid => by simp [tagSwitches, switchBits]
  | id :: ids, h, vid => by
    rw [List.forall_mem_cons] at h
    rw [tagSwitches, List.foldlM_cons, tagVlanForSwitchI_of_inRange h.1, Option.map_some]
    change tagSwitches ids _ = _
    rw [tagSwitches_of_inRange h.2, UInt16.or_assoc]
    rfl

theorem switchBits_and_otherBits : ∀ {switchides : List ℤ}, (∀ id ∈ switchides, InRange id) →
    switchBits switchides &&& otherBits = 0
  | [], _ => rfl
  | id :: ids, h => by
    rw [List.forall_mem_cons] at h
    change (switchBit id ||| switchBits ids) &&& otherBits = 0
    rw [or_and_distrib, switchBit_and_otherBits h.1, switchBits_and_otherBits h.2, UInt16.or_self]

/-- The bits say which switches they are of. -/
theorem switchBits_and_switchBit {id : ℤ} (hid : InRange id) : ∀ {switchides : List ℤ},
    (∀ id ∈ switchides, InRange id) →
      (switchBits switchides &&& switchBit id ≠ 0 ↔ id ∈ switchides)
  | [], _ => by simp [switchBits]
  | a :: ids, h => by
    rw [List.forall_mem_cons] at h
    change (switchBit a ||| switchBits ids) &&& switchBit id ≠ 0 ↔ _
    rw [or_and_distrib, List.mem_cons, ← switchBits_and_switchBit hid h.2, Ne, Ne,
      UInt16.or_eq_zero_iff, not_and_or]
    refine or_congr_left ?_
    by_cases ha : id = a
    · simp [ha, switchBit_ne_zero h.1]
    · simp [ha, switchBit_and_switchBit h.1 hid (Ne.symm ha)]

/-- The switches that a tag names. -/
def Names (tag : UInt16) (switchid : ℤ) : Prop :=
  InRange switchid ∧ ∃ bit, tagVlanForSwitchI (switchid - 1) = some bit ∧ tag &&& bit ≠ 0

/-- The marks for a sampled packet and for its flow's level. -/
def packetBits (selectedLevel : ℤ) (sampled : Bool) : UInt16 :=
  tagVlanSelectedFlowVal selectedLevel ||| if sampled then tagVlanPacketSampledVal else 0

theorem packetBits_spec {selectedLevel : ℤ} (h₀ : 0 ≤ selectedLevel) (h : selectedLevel ≤ 3)
    (sampled : Bool) :
    packetBits selectedLevel sampled &&& otherBits = packetBits selectedLevel sampled
      ∧ (packetBits selectedLevel sampled &&& tagVlanPacketSampledVal != 0) = sampled
      ∧ (getVlanSelectedFlowVal (packetBits selectedLevel sampled)).toNat = selectedLevel
      ∧ packetBits selectedLevel sampled &&& 16 = 0 := by
  obtain ⟨n, rfl⟩ : ∃ n : Fin 4, selectedLevel = (n : ℤ) :=
    ⟨⟨selectedLevel.toNat, by omega⟩, by simp; omega⟩
  revert sampled n
  decide

section
variable {switchides : List ℤ} {selectedLevel : ℤ} {sampled : Bool}

/-- The masks of the other marks see nothing of the switches. -/
theorem tag_and_mask (h : ∀ id ∈ switchides, InRange id) {mask : UInt16}
    (hmask : otherBits &&& mask = mask) :
    (switchBits switchides ||| packetBits selectedLevel sampled) &&& mask
      = packetBits selectedLevel sampled &&& mask := by
  rw [or_and_distrib, ← hmask, ← UInt16.and_assoc, switchBits_and_otherBits h, UInt16.zero_and,
    UInt16.zero_or]

theorem names_iff (h : ∀ id ∈ switchides, InRange id) (h₀ : 0 ≤ selectedLevel)
    (h₃ : selectedLevel ≤ 3) (id : ℤ) :
    Names (switchBits switchides ||| packetBits selectedLevel sampled) id ↔ id ∈ switchides := by
  have hother : ∀ {id}, InRange id → packetBits selectedLevel sampled &&& switchBit id = 0 := by
    intro id hid
    rw [← (packetBits_spec h₀ h₃ sampled).1, UInt16.and_assoc, UInt16.and_comm otherBits,
      switchBit_and_otherBits hid, UInt16.and_zero]
  constructor
  · rintro ⟨hid, bit, hbit, hne⟩
    obtain rfl : switchBit id = bit :=
      Option.some.inj ((tagVlanForSwitchI_of_inRange hid).symm.trans hbit)
    rw [or_and_distrib, hother hid, UInt16.or_zero] at hne
    exact (switchBits_and_switchBit hid h).1 hne
  · intro hmem
    have hid := h id hmem
    refine ⟨hid, _, tagVlanForSwitchI_of_inRange hid, ?_⟩
    rw [or_and_distrib, hother hid, UInt16.or_zero]
    exact (switchBits_and_switchBit hid h).2 hmem

end

/-! ## The calls -/

section
variable {t : TaskS} {selectedLevel datalink : ℤ} {packetBuf : Frame} {i : ℕ}

/-- The bits that a call sets. -/
def Tagging.bits (t : TaskS) (selectedLevel : ℤ) : Tagging → UInt16
  | forSwitches => switchBits t.monitorSwitchIds
  | asSampled => tagVlanPacketSampledVal
  | withLevel => tagVlanSelectedFlowVal selectedLevel

theorem apply_setHostU16 (h : ∀ id ∈ t.monitorSwitchIds, InRange id)
    (hfield : vlanField packetBuf datalink = some (some i)) (hlen : i + 1 < packetBuf.length)
    (vid : UInt16) (call : Tagging) :
    call.apply t selectedLevel datalink (packetBuf.setHostU16 i vid)
      = some (packetBuf.setHostU16 i (vid ||| call.bits t selectedLevel)) := by
  have hfield' := vlanField_setHostU16 (v := vid) hfield
  have hvid := Frame.hostU16_setHostU16 (v := vid) hlen
  cases call with
  | forSwitches =>
    show tagPacketForSwitches _ _ _ = _
    rw [tagPacketForSwitches, tagVlan_eq hfield' hvid, tagSwitches_of_inRange h, Option.map_some,
      Frame.setHostU16_setHostU16]
    rfl
  | asSampled =>
    show tagPacketAsSampled _ _ = _
    rw [tagPacketAsSampled, tagVlan_eq hfield' hvid, Option.map_some, Frame.setHostU16_setHostU16]
    rfl
  | withLevel =>
    show tagSelectedFlowLevelInNormalPacket _ _ _ = _
    rw [tagSelectedFlowLevelInNormalPacket, tagVlan_eq hfield' hvid, Option.map_some,
      Frame.setHostU16_setHostU16]
    rfl

/-- Calls set their bits one after the other. -/
theorem applyAll_setHostU16 (h : ∀ id ∈ t.monitorSwitchIds, InRange id)
    (hfield : vlanField packetBuf datalink = some (some i)) (hlen : i + 1 < packetBuf.length) :
    ∀ (calls : List Tagging) (vid : UInt16),
      Tagging.applyAll t selectedLevel datalink (packetBuf.setHostU16 i vid) calls
        = some (packetBuf.setHostU16 i
          (calls.foldl (fun v call => v ||| call.bits t selectedLevel) vid))
  | [], vid => rfl
  | call :: calls, vid => by
    rw [Tagging.applyAll, List.foldlM_cons, apply_setHostU16 h hfield hlen]
    exact applyAll_setHostU16 h hfield hlen calls _

/-- The bits do not depend on the order of the calls. -/
theorem foldl_bits_perm {calls calls' : List Tagging} (h : calls.Perm calls') (vid : UInt16) :
    calls.foldl (fun v call => v ||| call.bits t selectedLevel) vid
      = calls'.foldl (fun v call => v ||| call.bits t selectedLevel) vid := by
  have : RightCommutative fun (v : UInt16) (call : Tagging) => v ||| call.bits t selectedLevel :=
    ⟨fun v a b => by rw [UInt16.or_assoc, UInt16.or_assoc, UInt16.or_comm (a.bits _ _)]⟩
  exact h.foldl_eq vid

theorem foldl_bits_needed (sampled : Bool) :
    (Tagging.needed sampled).foldl (fun v call => v ||| call.bits t selectedLevel) 0
      = switchBits t.monitorSwitchIds ||| packetBits selectedLevel sampled := by
  cases sampled <;> simp [Tagging.needed, Tagging.bits, packetBits, UInt16.or_assoc]

end

/-- What the calls leave in the buffer, whatever their order. -/
structure Decodes (t : TaskS) (sampled : Bool) (selectedLevel datalink : ℤ) (i : ℕ)
    (packetBuf packetBuf' : Frame) (tag : UInt16) : Prop where
  order : ∀ calls, calls.Perm (Tagging.needed sampled) →
    Tagging.applyAll t selectedLevel datalink packetBuf calls = some packetBuf'
  length : packetBuf'.length = packetBuf.length
  same : ∀ j, j ≠ i → j ≠ i + 1 → packetBuf'[j]? = packetBuf[j]?
  field : packetBuf'.hostU16 i = some tag
  sampled : checkPacketTaggedAsSampled packetBuf' datalink = some sampled
  level : (getVlanSelectedFlowVal tag).toNat = selectedLevel
  skipped : tag &&& 16 = 0
  switches : ∀ id, Names tag id ↔ id ∈ t.monitorSwitchIds

section
variable {t : TaskS} {selectedLevel datalink : ℤ} {packetBuf : Frame} {i : ℕ}

theorem decodes_of_inRange (h : ∀ id ∈ t.monitorSwitchIds, InRange id)
    (hfield : vlanField packetBuf datalink = some (some i)) (hzero : packetBuf.hostU16 i = some 0)
    (sampled : Bool) (h₀ : 0 ≤ selectedLevel) (h₃ : selectedLevel ≤ 3) :
    Decodes t sampled selectedLevel datalink i packetBuf
      (packetBuf.setHostU16 i (switchBits t.monitorSwitchIds ||| packetBits selectedLevel sampled))
      (switchBits t.monitorSwitchIds ||| packetBits selectedLevel sampled) := by
  obtain ⟨-, hsampled, hlevel, hskipped⟩ := packetBits_spec h₀ h₃ sampled
  have hlen := Frame.lt_length_of_hostU16 hzero
  constructor
  · intro calls hcalls
    have hall : Tagging.applyAll t selectedLevel datalink (packetBuf.setHostU16 i 0) calls = _ :=
      applyAll_setHostU16 h hfield hlen calls 0
    rwa [Frame.setHostU16_self hzero, foldl_bits_perm hcalls, foldl_bits_needed] at hall
  · exact Frame.length_setHostU16
  · exact fun j hj hj' => Frame.getElem?_setHostU16_of_ne hj hj'
  · exact Frame.hostU16_setHostU16 hlen
  · simp only [checkPacketTaggedAsSampled, vlanField_setHostU16 hfield, Option.bind_eq_bind,
      Option.bind_some, Frame.hostU16_setHostU16 hlen]
    rw [tag_and_mask h (by decide)]
    exact congrArg some hsampled
  · rw [getVlanSelectedFlowVal, tag_and_mask h (by decide)]
    exact hlevel
  · rw [tag_and_mask h (by decide), hskipped]
  · exact names_iff h h₀ h₃

/-- A packet without a VLAN tag is left alone. -/
theorem applyAll_of_not_vlan (h : vlanField packetBuf datalink = some none) :
    ∀ calls, Tagging.applyAll t selectedLevel datalink packetBuf calls = some packetBuf
  | [] => rfl
  | call :: calls => by
    have happly : call.apply t selectedLevel datalink packetBuf = some packetBuf := by
      cases call <;> simp [Tagging.apply, tagPacketForSwitches, tagPacketAsSampled,
        tagSelectedFlowLevelInNormalPacket, tagVlan, h]
    rw [Tagging.applyAll, List.foldlM_cons, happly]
    exact applyAll_of_not_vlan h calls

end

/-- The switches that a line gives, if they fit in the array. -/
theorem readOneTaskFromOneLine_eq_task {lineBuffer : List UInt8} {t : TaskS}
    (h : readOneTaskFromOneLine lineBuffer = .task t) :
    ((strtok lineBuffer 32).drop 3).length ≤ maxMonitors ∧ t.monitorSwitchIds
      = ((strtok lineBuffer 32).drop 3).map fun token => intOfLong (strtol token) := by
  unfold readOneTaskFromOneLine at h
  split at h
  · cases h
  · rename_i tokens htokens
    have : strtok lineBuffer 32 = tokens := (strSplit_eq_some_iff.1 htokens).2
    dsimp only at h
    split_ifs at h with hover hnone
    cases h
    rw [this, List.map_drop]
    refine ⟨?_, rfl⟩
    simpa using hover

theorem exists_task {lineBuffer : List UInt8} (h : Accepted lineBuffer)
    (hlen : ((strtok lineBuffer 32).drop 3).length ≤ maxMonitors) :
    ∃ t, readOneTaskFromOneLine lineBuffer = .task t := by
  obtain ⟨haborted, hfailed⟩ := h
  unfold readOneTaskFromOneLine at haborted hfailed ⊢
  split
  · rename_i hnone
    simp [hnone] at haborted
  · rename_i tokens htokens
    have htok : strtok lineBuffer 32 = tokens := (strSplit_eq_some_iff.1 htokens).2
    simp only [htokens] at hfailed
    dsimp only
    split_ifs with hover hnone
    · rw [htok] at hlen
      simp at hover hlen
      omega
    · simp [hnone] at hfailed
    · exact ⟨_, rfl⟩

/-- The tag says what was tagged, exactly if the line gives no switch but those from 1 to 12, and
no more than there is room for. -/
theorem tags_decode {lineBuffer : List UInt8} (h : Accepted lineBuffer) (packetBuf : Frame)
    (selectedLevel datalink : ℤ) :
    (vlanField packetBuf datalink = some none → ∀ t calls,
      Tagging.applyAll t selectedLevel datalink packetBuf calls = some packetBuf)
    ∧ ∀ (i : ℕ) (sampled : Bool), vlanField packetBuf datalink = some (some i) →
      packetBuf.hostU16 i = some 0 → 0 ≤ selectedLevel → selectedLevel ≤ 3 →
      ((∃ t, readOneTaskFromOneLine lineBuffer = .task t ∧ ∃ packetBuf' tag,
          Decodes t sampled selectedLevel datalink i packetBuf packetBuf' tag)
        ↔ ((strtok lineBuffer 32).drop 3).length ≤ maxMonitors
          ∧ ∀ token ∈ (strtok lineBuffer 32).drop 3,
            1 ≤ intOfLong (strtol token) ∧ intOfLong (strtol token) ≤ 12) := by
  refine ⟨fun hvlan t calls => applyAll_of_not_vlan hvlan calls, ?_⟩
  intro i sampled hfield hzero h₀ h₃
  constructor
  · rintro ⟨t, ht, packetBuf', tag, hd⟩
    obtain ⟨hlen, hmonitors⟩ := readOneTaskFromOneLine_eq_task ht
    refine ⟨hlen, fun token htoken => ?_⟩
    have hmem : intOfLong (strtol token) ∈ t.monitorSwitchIds := by
      rw [hmonitors]
      exact List.mem_map_of_mem htoken
    exact ((hd.switches _).2 hmem).1
  · rintro ⟨hlen, htokens⟩
    obtain ⟨t, ht⟩ := exists_task h hlen
    have hrange : ∀ id ∈ t.monitorSwitchIds, InRange id := by
      intro id hid
      rw [(readOneTaskFromOneLine_eq_task ht).2, List.mem_map] at hid
      obtain ⟨token, htoken, rfl⟩ := hid
      exact htokens token htoken
    exact ⟨t, ht, _, _, decodes_of_inRange hrange hfield hzero sampled h₀ h₃⟩

/-- An Ethernet header with a VLAN tag that is all zero. -/
def exampleVlanHeader : Frame :=
  [0, 0, 0, 0, 0, 2, 0, 0, 0, 0, 0, 1, 0x81, 0x00, 0, 0, 0x08, 0x00]

theorem tags_decode_example : ∃ t, readOneTaskFromOneLine (chars "1 1 7 4 6\n") = .task t
    ∧ ∃ packetBuf' tag, Decodes t true 2 dltEn10mb 14 exampleVlanHeader packetBuf' tag :=
  have haccepted : Accepted (chars "1 1 7 4 6\n") := by decide +kernel
  ((tags_decode haccepted exampleVlanHeader 2 dltEn10mb).2 14 true (by decide) (by decide)
    (by decide) (by decide)).2 (by decide +kernel)

/-- A blank at the end of the line makes a switch 0, and a selected flow's packets then carry the
level 3. -/
theorem trailing_blank_changes_level :
    readOneTaskFromOneLine (chars "1 1 7 4 6 \n") = .task ⟨1, 1, 7, [4, 6, 0]⟩
      ∧ ((Tagging.applyAll ⟨1, 1, 7, [4, 6, 0]⟩ 1 dltEn10mb exampleVlanHeader
        (Tagging.needed false)).bind fun packetBuf => packetBuf.hostU16 14).map
          getVlanSelectedFlowVal = some 3 := by
  decide +kernel

end CMTestbed
