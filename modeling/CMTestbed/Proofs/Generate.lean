import CMTestbed.Generate
import CMTestbed.Proofs.StaleBytes
import CMTestbed.Proofs.Tags
import Mathlib.Tactic.IntervalCases

/-!
# Generated packets are read back

The bytes that both ends read are where the generator wrote them, and none of them is in the field
that the tags go to (`getElem?_taggedFrom`).  The length of a packet is recorded in 16 bits.
-/

namespace CMTestbed

namespace Frame

variable {packetBuf : Frame} {i : ℕ}

theorem u16_of_netBytes {v : UInt16} (h : ∀ k < 2, packetBuf[i + k]? = (netBytes16 v)[k]?) :
    packetBuf.u16 i = some v := by
  have hv : v.toNat < 256 ^ 2 := v.toNat_lt
  rw [u16, Lib.readBE_of_beBytes h, Option.map_some, Nat.mod_eq_of_lt hv, UInt16.ofNat_toNat]

theorem u32_of_netBytes {v : UInt32} (h : ∀ k < 4, packetBuf[i + k]? = (netBytes32 v)[k]?) :
    packetBuf.u32 i = some v := by
  have hv : v.toNat < 256 ^ 4 := v.toNat_lt
  rw [u32, Lib.readBE_of_beBytes h, Option.map_some, Nat.mod_eq_of_lt hv, UInt32.ofNat_toNat]

end Frame

/-! ## The bytes written -/

section
variable (pPacket : PacketS) (seqid : UInt32)

theorem headersAt_generateOnePacket : (generateOnePacket pPacket seqid).headersAt 18 38
    = some (⟨pPacket.srcip, pPacket.dstip, pPacket.srcPort, pPacket.dstPort, 6⟩, seqid) := by
  refine Frame.headersAt_eq_some.2 ⟨?_, ?_, rfl, ?_, ?_, ?_⟩
  · refine Frame.u32_of_netBytes fun k hk => ?_
    interval_cases k <;> rfl
  · refine Frame.u32_of_netBytes fun k hk => ?_
    interval_cases k <;> rfl
  · refine Frame.u16_of_netBytes fun k hk => ?_
    interval_cases k <;> rfl
  · refine Frame.u16_of_netBytes fun k hk => ?_
    interval_cases k <;> rfl
  · refine Frame.u32_of_netBytes fun k hk => ?_
    interval_cases k <;> rfl

theorem length_ownBytes_generated : (generateOnePcapPkt pPacket seqid).ownBytes.length = 62 := rfl

end

/-! ## Tagging -/

/-- A call that tags a packet of an Ethernet link changes two bytes at most. -/
theorem getElem?_tagVlan {b b' : Frame} {tag : UInt16 → Option UInt16}
    (h : tagVlan b dltEn10mb tag = some b') {j : ℕ} (hj : j ≠ 14) (hj' : j ≠ 15) :
    b'[j]? = b[j]? := by
  unfold tagVlan at h
  simp only [Option.bind_eq_bind, Option.bind_eq_some_iff] at h
  obtain ⟨r, hr, h⟩ := h
  obtain ⟨l2Len, etherType, hl, -, hfield⟩ := vlanField_eq_some.1 hr
  obtain rfl : 0 = l2Len := Option.some.inj hl
  split at h
  · rename_i i
    have hi : i = 14 := by
      split_ifs at hfield
      exact Option.some.inj hfield
    simp only [Option.bind_eq_some_iff] at h
    obtain ⟨vid, -, v, -, h⟩ := h
    obtain rfl : b.setHostU16 i v = b' := Option.some.inj h
    exact Frame.getElem?_setHostU16_of_ne (by omega) (by omega)
  · obtain rfl : b = b' := Option.some.inj h
    rfl

theorem getElem?_taggedFrom {packetBuf b : Frame} (h : TaggedFrom packetBuf b) {j : ℕ}
    (hj : j ≠ 14) (hj' : j ≠ 15) : b[j]? = packetBuf[j]? := by
  induction h with
  | untagged => rfl
  | sampled _ ht ih | level _ _ ht ih | switches _ _ ht ih =>
    exact (getElem?_tagVlan ht hj hj').trans ih
  | condition _ _ ih | unselected _ ih =>
    exact (Frame.getElem?_setHostU16_of_ne hj hj').trans ih

/-! ## Reading back -/

/-- A frame with the bytes of a generated packet, but for the tag. -/
def HasGenerated (pPacket : PacketS) (seqid : UInt32) (packetBuf : Frame) : Prop :=
  ∀ j < 58, j ≠ 14 → j ≠ 15 → packetBuf[j]? = (generateOnePacket pPacket seqid)[j]?

section
variable {pPacket : PacketS} {seqid : UInt32} {packetBuf : Frame}

theorem HasGenerated.headersAt (h : HasGenerated pPacket seqid packetBuf) :
    packetBuf.headersAt 18 38
      = some (⟨pPacket.srcip, pPacket.dstip, pPacket.srcPort, pPacket.dstPort, 6⟩, seqid) := by
  rw [← headersAt_generateOnePacket]
  refine Frame.headersAt_congr fun i hi => ?_
  rw [Frame.HeaderByte] at hi
  exact h _ (by omega) (by omega) (by omega)

theorem HasGenerated.u16_type (h : HasGenerated pPacket seqid packetBuf) :
    packetBuf.u16 12 = some ethertypeVlan ∧ packetBuf.u16 16 = some ethertypeIp := by
  have hread : ∀ i, i + 1 < 58 → (i + 1 < 14 ∨ 15 < i) →
      packetBuf.u16 i = (generateOnePacket pPacket seqid).u16 i := fun i hi hne =>
    Frame.u16_congr fun k hk => h _ (by omega) (by omega) (by omega)
  rw [hread 12 (by omega) (by omega), hread 16 (by omega) (by omega)]
  exact ⟨rfl, rfl⟩

theorem HasGenerated.sentHeaders (h : HasGenerated pPacket seqid packetBuf)
    {totalPktLen : UInt32} (hlen : ipv4HdrLen ≤ totalPktLen.toNat) :
    sentHeaders packetBuf totalPktLen dltEn10mb
      = some (⟨pPacket.srcip, pPacket.dstip, pPacket.srcPort, pPacket.dstPort, 6⟩, seqid) := by
  obtain ⟨hvlan, hip⟩ := h.u16_type
  have hsize : 2 ≤ packetBuf.length := by
    have := le_length_of_u16 hip
    omega
  obtain ⟨fuel, hfuel⟩ : ∃ fuel, packetBuf.length = fuel + 2 := ⟨packetBuf.length - 2, by omega⟩
  have hinner : innerEther packetBuf = some (4, ethertypeIp) := by
    rw [innerEther, hvlan, Option.bind_some, hfuel, vlanLoop, if_pos rfl, hip]
    rfl
  exact (sentHeaders_eq_some hlen).2 ⟨4, hinner, h.headersAt⟩

theorem HasGenerated.gotPacket (h : HasGenerated pPacket seqid packetBuf) {netIdentity : UInt32}
    (hnet : getNetIdentity pPacket.srcip ≠ netIdentity) :
    gotPacket netIdentity packetBuf
      = some (⟨pPacket.srcip, pPacket.dstip, pPacket.srcPort, pPacket.dstPort, 6⟩, seqid) := by
  have hether : getEthernetHeaderLen packetBuf = some 18 := by
    rw [getEthernetHeaderLen, h.u16_type.1]
    rfl
  have hhl : packetBuf.u8 18 = some 0x45 := h 18 (by omega) (by omega) (by omega)
  have hproto : packetBuf.u8 27 = some 0x06 := h 27 (by omega) (by omega) (by omega)
  have hoff : packetBuf.u8 50 = some 0x50 := h 50 (by omega) (by omega) (by omega)
  have hsize : (0x45 : UInt8).toNat % 16 * 4 = 20 := rfl
  simp only [CMTestbed.gotPacket, hether, hhl, Option.bind_eq_bind, Option.bind_some, hsize,
    Nat.reduceAdd, hproto, hoff, h.headersAt, hnet]
  rfl

end

/-- A generated packet is recorded and reported as what it was made from, tagged or not.  The length
recorded is that of the packet with its payload, in 16 bits. -/
theorem generated_read_back (pPacket : PacketS) (seqid : UInt32) {buffer packetBuf : Frame}
    (h : TaggedFrom (copyPacket buffer (generateOnePcapPkt pPacket seqid)) packetBuf) :
    (∃ len : UInt16, len.toNat = (58 + pPacket.len.toNat) % 2 ^ 16
      ∧ recordOf packetBuf (generateOnePcapPkt pPacket seqid).len dltEn10mb
        = some (⟨pPacket.srcip, pPacket.dstip, pPacket.srcPort, pPacket.dstPort, 6⟩, seqid, len))
      ∧ ∀ netIdentity, getNetIdentity pPacket.srcip ≠ netIdentity →
        gotPacket netIdentity (packetBuf.take (generateOnePcapPkt pPacket seqid).ownBytes.length)
          = some (⟨pPacket.srcip, pPacket.dstip, pPacket.srcPort, pPacket.dstPort, 6⟩, seqid) := by
  have hgen : HasGenerated pPacket seqid packetBuf := by
    intro j hj hj14 hj15
    rw [getElem?_taggedFrom h hj14 hj15, getElem?_own (by rw [length_ownBytes_generated]; omega)]
    exact List.getElem?_append_left hj
  have hlen : (generateOnePcapPkt pPacket seqid).len.toNat = 58 + pPacket.len.toNat := by
    have := pPacket.len.toNat_lt
    show (58 + pPacket.len.toUInt32 : UInt32).toNat = _
    rw [UInt32.toNat_add, UInt16.toNat_toUInt32]
    show (58 + _) % _ = _
    omega
  refine ⟨⟨(generateOnePcapPkt pPacket seqid).len.toUInt16, ?_, ?_⟩, fun netIdentity hnet => ?_⟩
  · rw [UInt32.toNat_toUInt16, hlen]
  · rw [recordOf_eq, hgen.sentHeaders (by rw [ipv4HdrLen]; omega)]
    rfl
  · refine HasGenerated.gotPacket (fun j hj hj14 hj15 => ?_) hnet
    rw [List.getElem?_take_of_lt (by rw [length_ownBytes_generated]; omega)]
    exact hgen j hj hj14 hj15

/-- A packet from 10.0.0.1:80 to 11.0.0.2:8080 with this many bytes of payload. -/
def examplePacketS (len : UInt16) : PacketS := ⟨0x0a000001, 0x0b000002, 80, 8080, 6, len⟩

theorem generated_read_back_example : ∃ len : UInt16, len.toNat = 158
    ∧ recordOf (copyPacket [] (generateOnePcapPkt (examplePacketS 100) 7)) 158 dltEn10mb
      = some (⟨0x0a000001, 0x0b000002, 80, 8080, 6⟩, 7, len) :=
  (generated_read_back (examplePacketS 100) 7 TaggedFrom.untagged).1

/-- With the longest payload that fits in a `packet_s`, 57 bytes are recorded for 65593. -/
theorem generated_length_wraps :
    (generateOnePcapPkt (examplePacketS 65535) 7).len = 65593
      ∧ recordOf (copyPacket [] (generateOnePcapPkt (examplePacketS 65535) 7)) 65593 dltEn10mb
        = some (⟨0x0a000001, 0x0b000002, 80, 8080, 6⟩, 7, 57) := by
  decide +kernel

end CMTestbed
