import CMTestbed.Frame

/-!
# When sender and receiver read alike

Both sides read the same fields from where they take the headers to be.  They read the same values
exactly if the bytes there are the same, as they are when the places are.
-/

namespace CMTestbed

open Lib (Repeats)

namespace Frame

variable {packetBuf : Frame} {i j : ℕ}

theorem u8_eq_iff {v : UInt8} (hj : packetBuf.u8 j = some v) :
    packetBuf.u8 i = some v ↔ Repeats packetBuf i j 1 := by
  rw [← hj, u8, u8, Lib.repeats_succ]
  simp [Repeats]

theorem u16_eq_iff {v : UInt16} (hj : packetBuf.u16 j = some v) :
    packetBuf.u16 i = some v ↔ Repeats packetBuf i j 2 := by
  refine Lib.map_readBE_eq_iff (fun u hu v hv he => ?_) hj
  have hmod := congrArg UInt16.toNat he
  rw [UInt16.toNat_ofNat', UInt16.toNat_ofNat'] at hmod
  omega

theorem u32_eq_iff {v : UInt32} (hj : packetBuf.u32 j = some v) :
    packetBuf.u32 i = some v ↔ Repeats packetBuf i j 4 := by
  refine Lib.map_readBE_eq_iff (fun u hu v hv he => ?_) hj
  have hmod := congrArg UInt32.toNat he
  rw [UInt32.toNat_ofNat', UInt32.toNat_ofNat'] at hmod
  omega

theorem eq_of_u16 {packetBuf' : Frame} {v : UInt16} (h : packetBuf.u16 i = some v)
    (h' : packetBuf'.u16 i = some v) : ∀ k < 2, packetBuf[i + k]? = packetBuf'[i + k]? := by
  refine Lib.eq_of_map_readBE (fun u hu v hv he => ?_) h h'
  have hmod := congrArg UInt16.toNat he
  rw [UInt16.toNat_ofNat', UInt16.toNat_ofNat'] at hmod
  omega

theorem eq_of_u32 {packetBuf' : Frame} {v : UInt32} (h : packetBuf.u32 i = some v)
    (h' : packetBuf'.u32 i = some v) : ∀ k < 4, packetBuf[i + k]? = packetBuf'[i + k]? := by
  refine Lib.eq_of_map_readBE (fun u hu v hv he => ?_) h h'
  have hmod := congrArg UInt32.toNat he
  rw [UInt32.toNat_ofNat', UInt32.toNat_ofNat'] at hmod
  omega

theorem u16_congr {packetBuf' : Frame} (h : ∀ k < 2, packetBuf[i + k]? = packetBuf'[i + k]?) :
    packetBuf.u16 i = packetBuf'.u16 i := by
  rw [u16, Lib.readBE_congr_of h, u16]

theorem u32_congr {packetBuf' : Frame} (h : ∀ k < 4, packetBuf[i + k]? = packetBuf'[i + k]?) :
    packetBuf.u32 i = packetBuf'.u32 i := by
  rw [u32, Lib.readBE_congr_of h, u32]

/-- The places of the bytes that are read of the two headers. -/
def HeaderByte (ip tcp i : ℕ) : Prop :=
  i = ip + 9 ∨ ip + 12 ≤ i ∧ i < ip + 20 ∨ tcp ≤ i ∧ i < tcp + 8

/-- Frames that agree on what is read of both headers hold the same values. -/
theorem headersAt_congr {packetBuf' : Frame} {ip tcp : ℕ}
    (h : ∀ i, HeaderByte ip tcp i → packetBuf[i]? = packetBuf'[i]?) :
    packetBuf.headersAt ip tcp = packetBuf'.headersAt ip tcp := by
  have hsrcip : packetBuf.u32 (ip + 12) = packetBuf'.u32 (ip + 12) :=
    u32_congr fun k hk => h _ (.inr (.inl (by omega)))
  have hdstip : packetBuf.u32 (ip + 16) = packetBuf'.u32 (ip + 16) :=
    u32_congr fun k hk => h _ (.inr (.inl (by omega)))
  have hproto : packetBuf.u8 (ip + 9) = packetBuf'.u8 (ip + 9) := h _ (.inl rfl)
  have hsport : packetBuf.u16 tcp = packetBuf'.u16 tcp :=
    u16_congr fun k hk => h _ (.inr (.inr (by omega)))
  have hdport : packetBuf.u16 (tcp + 2) = packetBuf'.u16 (tcp + 2) :=
    u16_congr fun k hk => h _ (.inr (.inr (by omega)))
  have hseqid : packetBuf.u32 (tcp + 4) = packetBuf'.u32 (tcp + 4) :=
    u32_congr fun k hk => h _ (.inr (.inr (by omega)))
  simp only [headersAt, hsrcip, hdstip, hproto, hsport, hdport, hseqid]

theorem headersAt_eq_some {ip tcp : ℕ} {r : FlowS × UInt32} :
    packetBuf.headersAt ip tcp = some r ↔ packetBuf.u32 (ip + 12) = some r.1.srcip
      ∧ packetBuf.u32 (ip + 16) = some r.1.dstip ∧ packetBuf.u8 (ip + 9) = some r.1.protocol
      ∧ packetBuf.u16 tcp = some r.1.srcPort ∧ packetBuf.u16 (tcp + 2) = some r.1.dstPort
      ∧ packetBuf.u32 (tcp + 4) = some r.2 := by
  obtain ⟨⟨srcip, dstip, srcPort, dstPort, protocol⟩, seqid⟩ := r
  simp only [headersAt, Option.bind_eq_bind, Option.bind_eq_some_iff, Option.pure_def,
    Option.some.injEq, Prod.mk.injEq, FlowS.mk.injEq]
  constructor
  · rintro ⟨_, h₁, _, h₂, _, h₃, _, h₄, _, h₅, _, h₆, ⟨rfl, rfl, rfl, rfl, rfl⟩, rfl⟩
    exact ⟨h₁, h₂, h₃, h₄, h₅, h₆⟩
  · rintro ⟨h₁, h₂, h₃, h₄, h₅, h₆⟩
    exact ⟨_, h₁, _, h₂, _, h₃, _, h₄, _, h₅, _, h₆, ⟨rfl, rfl, rfl, rfl, rfl⟩, rfl⟩

/-- Frames with the same values hold the same bytes. -/
theorem eq_of_headersAt {packetBuf' : Frame} {ip tcp : ℕ} {r : FlowS × UInt32}
    (h : packetBuf.headersAt ip tcp = some r) (h' : packetBuf'.headersAt ip tcp = some r) :
    ∀ i, HeaderByte ip tcp i → packetBuf[i]? = packetBuf'[i]? := by
  obtain ⟨hsrcip, hdstip, hproto, hsport, hdport, hseqid⟩ := headersAt_eq_some.1 h
  obtain ⟨hsrcip', hdstip', hproto', hsport', hdport', hseqid'⟩ := headersAt_eq_some.1 h'
  have hin : ∀ {start n : ℕ}, (∀ k < n, packetBuf[start + k]? = packetBuf'[start + k]?) →
      ∀ i, start ≤ i → i < start + n → packetBuf[i]? = packetBuf'[i]? := by
    intro start n hall i hle hlt
    have hk := hall (i - start) (by omega)
    rwa [Nat.add_sub_cancel' hle] at hk
  rintro i (rfl | ⟨hle, hlt⟩ | ⟨hle, hlt⟩)
  · exact hproto.trans hproto'.symm
  · by_cases hi : i < ip + 16
    · exact hin (eq_of_u32 hsrcip hsrcip') i hle (by omega)
    · exact hin (eq_of_u32 hdstip hdstip') i (by omega) (by omega)
  · by_cases hi : i < tcp + 2
    · exact hin (eq_of_u16 hsport hsport') i hle (by omega)
    by_cases hi' : i < tcp + 4
    · exact hin (eq_of_u16 hdport hdport') i (by omega) (by omega)
    · exact hin (eq_of_u32 hseqid hseqid') i (by omega) (by omega)

/-- Headers are read where the frame reaches to their last bytes. -/
theorem exists_headersAt {ip tcp : ℕ} (hip : ip + 20 ≤ packetBuf.length)
    (htcp : tcp + 8 ≤ packetBuf.length) : ∃ r, packetBuf.headersAt ip tcp = some r := by
  have h16 : ∀ i, i + 2 ≤ packetBuf.length → ∃ v, packetBuf.u16 i = some v := fun i hi =>
    (Lib.exists_readBE hi).imp' UInt16.ofNat fun v hv => by rw [u16, hv, Option.map_some]
  have h32 : ∀ i, i + 4 ≤ packetBuf.length → ∃ v, packetBuf.u32 i = some v := fun i hi =>
    (Lib.exists_readBE hi).imp' UInt32.ofNat fun v hv => by rw [u32, hv, Option.map_some]
  obtain ⟨srcip, hsrcip⟩ := h32 (ip + 12) (by omega)
  obtain ⟨dstip, hdstip⟩ := h32 (ip + 16) (by omega)
  have hproto : packetBuf.u8 (ip + 9) = some packetBuf[ip + 9] := List.getElem?_eq_getElem _
  obtain ⟨srcPort, hsport⟩ := h16 tcp (by omega)
  obtain ⟨dstPort, hdport⟩ := h16 (tcp + 2) (by omega)
  obtain ⟨seqid, hseqid⟩ := h32 (tcp + 4) (by omega)
  exact ⟨(⟨srcip, dstip, srcPort, dstPort, packetBuf[ip + 9]⟩, seqid),
    headersAt_eq_some.2 ⟨hsrcip, hdstip, hproto, hsport, hdport, hseqid⟩⟩

/-- The bytes that are read are in the frame. -/
theorem lt_length_of_headersAt {ip tcp : ℕ} {r : FlowS × UInt32}
    (h : packetBuf.headersAt ip tcp = some r) : ip + 20 ≤ packetBuf.length
      ∧ tcp + 8 ≤ packetBuf.length := by
  obtain ⟨-, hdstip, -, -, -, hseqid⟩ := headersAt_eq_some.1 h
  obtain ⟨v, hv, -⟩ := Option.map_eq_some_iff.1 hdstip
  obtain ⟨v', hv', -⟩ := Option.map_eq_some_iff.1 hseqid
  have hip := Lib.le_length_of_readBE hv
  have htcp := Lib.le_length_of_readBE hv'
  omega

/-- Headers elsewhere hold the same values if they hold the same addresses and protocol, and the
same ports and seqid. -/
theorem headersAt_eq_iff {ip tcp ip' tcp' : ℕ} {r : FlowS × UInt32}
    (h : packetBuf.headersAt ip tcp = some r) :
    packetBuf.headersAt ip' tcp' = some r ↔
      (Repeats packetBuf (ip' + 9) (ip + 9) 1 ∧ Repeats packetBuf (ip' + 12) (ip + 12) 8)
        ∧ Repeats packetBuf tcp' tcp 8 := by
  obtain ⟨h₁, h₂, h₃, h₄, h₅, h₆⟩ := headersAt_eq_some.1 h
  rw [headersAt_eq_some, u32_eq_iff h₁, u32_eq_iff h₂, u8_eq_iff h₃, u16_eq_iff h₄, u16_eq_iff h₅,
    u32_eq_iff h₆, Lib.repeats_add (n := 4) (m := 4), Lib.repeats_add (n := 2) (m := 6),
    Lib.repeats_add (n := 2) (m := 4)]
  simp only [Nat.add_assoc, Nat.reduceAdd]
  tauto

end Frame

/-! ## The walks -/

section Walks
variable {packetBuf : Frame}

theorem le_length_of_u16 {i : ℕ} {v : UInt16} (h : packetBuf.u16 i = some v) :
    i + 2 ≤ packetBuf.length := by
  obtain ⟨n, hn, -⟩ := Option.map_eq_some_iff.1 h
  exact Lib.le_length_of_readBE hn

/-- More fuel than bytes changes nothing: the loop leaves the frame before. -/
theorem vlanLoop_fuel : ∀ {fuel l2Len : ℕ} (etherType : UInt16),
    packetBuf.length ≤ l2Len + 4 * fuel + 13 →
      vlanLoop packetBuf (fuel + 1) l2Len etherType = vlanLoop packetBuf (fuel + 2) l2Len etherType
  | 0, l2Len, etherType, h => by
    have hout : packetBuf.u16 (l2Len + 16) = none := by
      refine Option.eq_none_iff_forall_ne_some.2 fun v hv => ?_
      have := le_length_of_u16 hv
      omega
    simp only [vlanLoop, hout]
    rfl
  | fuel + 1, l2Len, etherType, h => by
    have ih : ∀ t, vlanLoop packetBuf (fuel + 1) (l2Len + 4) t
        = vlanLoop packetBuf (fuel + 2) (l2Len + 4) t := fun t => vlanLoop_fuel t (by omega)
    rw [vlanLoop, vlanLoop]
    simp only [ih]

/-- The sender's loop goes on by 4 bytes for each tag. -/
theorem vlanLoop_tags : ∀ {fuel l2Len l2Len' : ℕ} {etherType etherType' : UInt16},
    vlanLoop packetBuf fuel l2Len etherType = some (l2Len', etherType') →
      ∃ tags, l2Len' = l2Len + 4 * tags ∧ (tags = 0 ↔ etherType ≠ ethertypeVlan)
  | 0, _, _, _, _, h => by cases h
  | fuel + 1, l2Len, l2Len', etherType, etherType', h => by
    rw [vlanLoop] at h
    split_ifs at h with hvlan
    · obtain ⟨t, -, ht⟩ := Option.bind_eq_some_iff.1 h
      obtain ⟨tags, rfl, -⟩ := vlanLoop_tags ht
      exact ⟨tags + 1, by omega, by simp [hvlan]⟩
    · cases h
      exact ⟨0, rfl, by simp [hvlan]⟩

/-- Where the sender finds the inner Ethernet header, and the type in it. -/
def innerEther (packetBuf : Frame) : Option (ℕ × UInt16) :=
  (packetBuf.u16 12).bind (vlanLoop packetBuf packetBuf.length 0)

theorem sentHeaders_eq_some {totalPktLen : UInt32} (hlen : ipv4HdrLen ≤ totalPktLen.toNat)
    {r : FlowS × UInt32} : sentHeaders packetBuf totalPktLen dltEn10mb = some r ↔ ∃ l2Len,
      innerEther packetBuf = some (l2Len, ethertypeIp)
        ∧ packetBuf.headersAt (l2Len + ethHdrLen) (l2Len + ethHdrLen + ipv4HdrLen) = some r := by
  have hstart : l2Start packetBuf dltEn10mb = some 0 := rfl
  rw [sentHeaders, if_neg (by omega), hstart]
  simp only [Option.bind_eq_bind, Option.bind_some, Nat.zero_add]
  rw [← Option.bind_assoc]
  change ((innerEther packetBuf).bind _ = some r) ↔ _
  rw [Option.bind_eq_some_iff]
  constructor
  · rintro ⟨⟨l2Len, etherType⟩, hinner, h⟩
    simp only [] at h
    split_ifs at h with hip
    exact ⟨l2Len, by rw [hinner, hip], h⟩
  · rintro ⟨l2Len, hinner, h⟩
    exact ⟨_, hinner, by simp only [if_pos, h]⟩

/-- The fuel that the sender's loop gets is enough. -/
theorem innerEther_fuel (n : ℕ) :
    (packetBuf.u16 12).bind (vlanLoop packetBuf (packetBuf.length + n) 0)
      = innerEther packetBuf := by
  rcases ht : packetBuf.u16 12 with _ | t
  · rw [innerEther, ht, Option.bind_none, Option.bind_none]
  have hlen := le_length_of_u16 ht
  rw [innerEther, ht, Option.bind_some, Option.bind_some]
  induction n with
  | zero => rfl
  | succ n ih =>
    obtain ⟨fuel, hfuel⟩ : ∃ fuel, packetBuf.length + n = fuel + 1 :=
      ⟨packetBuf.length + n - 1, by omega⟩
    rw [← ih, ← Nat.add_assoc, hfuel]
    exact (vlanLoop_fuel t (by omega)).symm

/-- A frame that is reported has an IPv4 header of `ipHl` words, and a TCP header behind it. -/
theorem gotPacket_eq_some {netIdentity : UInt32} {r : FlowS × UInt32}
    (h : gotPacket netIdentity packetBuf = some r) : ∃ ip b,
      getEthernetHeaderLen packetBuf = some ip ∧ packetBuf.u8 ip = some b ∧ 5 ≤ b.toNat % 16
        ∧ packetBuf.headersAt ip (ip + b.toNat % 16 * 4) = some r := by
  simp only [gotPacket, Option.bind_eq_bind, Option.bind_eq_some_iff] at h
  obtain ⟨ip, hip, b, hb, h⟩ := h
  split_ifs at h with hsize
  obtain ⟨ipP, -, h⟩ := Option.bind_eq_some_iff.1 h
  split_ifs at h
  obtain ⟨off, -, h⟩ := Option.bind_eq_some_iff.1 h
  split_ifs at h
  obtain ⟨packet, hpacket, h⟩ := Option.bind_eq_some_iff.1 h
  split_ifs at h
  cases h
  exact ⟨ip, b, hip, hb, by omega, hpacket⟩

end Walks

/-! ## Reading alike -/

/-- The type behind all VLAN tags is IPv4, and there is at most one tag and the IPv4 header has
5 words, or else the bytes at the sender's places repeat those at the receiver's. -/
def ReadAlike (packetBuf : Frame) : Prop :=
  ∃ tags ip b, innerEther packetBuf = some (4 * tags, ethertypeIp)
    ∧ getEthernetHeaderLen packetBuf = some ip ∧ packetBuf.u8 ip = some b
    ∧ (tags ≤ 1 ∨ Repeats packetBuf (4 * tags + 23) (ip + 9) 1
        ∧ Repeats packetBuf (4 * tags + 26) (ip + 12) 8)
    ∧ (tags ≤ 1 ∧ b.toNat % 16 = 5
      ∨ Repeats packetBuf (4 * tags + 34) (ip + b.toNat % 16 * 4) 8)

/-- With at most one tag, both sides find the IPv4 header in one place. -/
theorem ip_eq {packetBuf : Frame} {tags ip : ℕ}
    (hinner : innerEther packetBuf = some (4 * tags, ethertypeIp))
    (hip : getEthernetHeaderLen packetBuf = some ip) (htags : tags ≤ 1) :
    4 * tags + ethHdrLen = ip := by
  obtain ⟨t, ht, rfl⟩ := Option.map_eq_some_iff.1 hip
  rw [innerEther, ht, Option.bind_some] at hinner
  obtain ⟨tags', htags', hzero⟩ := vlanLoop_tags hinner
  obtain rfl : tags = tags' := by omega
  by_cases hvlan : t = ethertypeVlan
  · have hne : tags ≠ 0 := fun h => hzero.1 h hvlan
    rw [if_pos hvlan, ethHdrLen]
    omega
  · rw [if_neg hvlan, hzero.2 hvlan, ethHdrLen]

/-- A packet that the receiver reports is the one that the sender recorded, exactly if the frame is
one that both read alike. -/
theorem report_names_recorded_packet (netIdentity : UInt32) (packetBuf : Frame)
    (totalPktLen : UInt32) (hlen : ipv4HdrLen ≤ totalPktLen.toNat) (r : FlowS × UInt32)
    (hgot : gotPacket netIdentity packetBuf = some r) :
    sentHeaders packetBuf totalPktLen dltEn10mb = some r ↔ ReadAlike packetBuf := by
  obtain ⟨ip, b, hip, hb, hhl, hheaders⟩ := gotPacket_eq_some hgot
  have hplace : ∀ tags, innerEther packetBuf = some (4 * tags, ethertypeIp) → tags ≤ 1 →
      4 * tags + 23 = ip + 9 ∧ 4 * tags + 26 = ip + 12 ∧ 4 * tags + 34 = ip + 20 := by
    intro tags hinner htags
    have := ip_eq hinner hip htags
    rw [ethHdrLen] at this
    omega
  rw [sentHeaders_eq_some hlen]
  simp only [Frame.headersAt_eq_iff hheaders, ethHdrLen, ipv4HdrLen, Nat.add_assoc, Nat.reduceAdd]
  constructor
  · rintro ⟨l2Len, hinner, ⟨hproto, haddr⟩, hports⟩
    obtain ⟨t, -, ht⟩ := Option.bind_eq_some_iff.1 hinner
    obtain ⟨tags, htags, -⟩ := vlanLoop_tags ht
    rw [Nat.zero_add] at htags
    subst htags
    exact ⟨tags, ip, b, hinner, hip, hb, .inr ⟨hproto, haddr⟩, .inr hports⟩
  · rintro ⟨tags, ip', b', hinner, hip', hb', haddr, hports⟩
    obtain rfl : ip' = ip := Option.some.inj (hip'.symm.trans hip)
    obtain rfl : b' = b := Option.some.inj (hb'.symm.trans hb)
    refine ⟨4 * tags, hinner, ?_, ?_⟩
    · rcases haddr with htags | haddr
      · obtain ⟨h₁, h₂, -⟩ := hplace tags hinner htags
        rw [h₁, h₂]
        exact ⟨Lib.Repeats.refl _ _ _, Lib.Repeats.refl _ _ _⟩
      · exact haddr
    · rcases hports with ⟨htags, h5⟩ | hports
      · obtain ⟨-, -, h₃⟩ := hplace tags hinner htags
        rw [h₃, h5]
        exact Lib.Repeats.refl _ _ _
      · exact hports

theorem report_names_recorded_packet_example :
    sentHeaders (exampleFrame []) 54 dltEn10mb
      = some (⟨0x0a000001, 0x0b000002, 80, 8080, 6⟩, 7) :=
  (report_names_recorded_packet 11 _ 54 (by decide) _ (by decide)).2
    ⟨0, 14, 0x45, by decide, by decide, by decide, .inl (by decide), .inl (by decide)⟩

/-- With one word of options the sender takes the options for the ports. -/
theorem report_names_other_packet :
    gotPacket 11 (exampleFrame [1, 1, 1, 0]) = some (⟨0x0a000001, 0x0b000002, 80, 8080, 6⟩, 7)
      ∧ sentHeaders (exampleFrame [1, 1, 1, 0]) 58 dltEn10mb
        ≠ some (⟨0x0a000001, 0x0b000002, 80, 8080, 6⟩, 7) := by
  decide

end CMTestbed
