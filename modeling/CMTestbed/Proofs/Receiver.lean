import CMTestbed.Receiver
import CMTestbed.Proofs.Mapping

/-!
# Which frames the receiver handles safely

The last byte that is read of a frame is the one with the length of its TCP header, and the first
byte of the source address says which sender it is reported to.
-/

namespace CMTestbed

/-- How `got_packet` should handle a frame: it reads captured bytes or ignores the frame, does not
report what its own net sent, and reports to the sender whose net the source address is in. -/
structure HandledSafely (netIdentity : UInt32) (caplen : ℕ) (mem : ℕ → UInt8) : Prop where
  inside : (∀ i ∈ (gotPacketReads netIdentity mem).2, i < caplen)
    ∨ (gotPacketReads netIdentity mem).1 = .ignored
  own : ∀ packet seqid fifoIdx,
    (gotPacketReads netIdentity mem).1 = .reported packet seqid fifoIdx →
      getNetIdentity packet.srcip ≠ netIdentity
  sender : ∀ packet seqid fifoIdx,
    (gotPacketReads netIdentity mem).1 = .reported packet seqid fifoIdx →
      0 ≤ fifoIdx ∧ fifoIdx < numSenders.toNat
        ∧ packet.srcip &&& ipMask = ithSenderStartIp (toUInt fifoIdx)

section Headers
variable (mem : ℕ → UInt8)

def shortAt (i : ℕ) : UInt16 := UInt16.ofNat ((mem i).toNat * 256 + (mem (i + 1)).toNat)

def longAt (i : ℕ) : UInt32 :=
  UInt32.ofNat ((((mem i).toNat * 256 + (mem (i + 1)).toNat) * 256 + (mem (i + 2)).toNat) * 256
    + (mem (i + 3)).toNat)

/-- Where the IP header is. -/
def ipAt : ℕ := if shortAt mem 12 = ethertypeVlan then 18 else 14

/-- `ip_hl` -/
def ipHlOf : ℕ := (mem (ipAt mem)).toNat % 16

/-- Where the TCP header is. -/
def tcpAt : ℕ := ipAt mem + ipHlOf mem * 4

def protocolOf : UInt8 := mem (ipAt mem + 9)

/-- `th_off` -/
def thOffOf : ℕ := (mem (tcpAt mem + 12)).toNat / 16

def firstSrcByte : ℕ := (mem (ipAt mem + 12)).toNat

def packetOf : FlowS :=
  ⟨longAt mem (ipAt mem + 12), longAt mem (ipAt mem + 16), shortAt mem (tcpAt mem),
    shortAt mem (tcpAt mem + 2), protocolOf mem⟩

/-- A TCP frame that is not refused for its header lengths, from another net. -/
structure IsTcpFrom (netIdentity : UInt32) : Prop where
  ipHl : 5 ≤ ipHlOf mem
  protocol : protocolOf mem = 0x06
  thOff : 5 ≤ thOffOf mem
  net : firstSrcByte mem ≠ netIdentity.toNat

/-- A UDP frame that is not refused for its header length. -/
structure IsUdp : Prop where
  ipHl : 5 ≤ ipHlOf mem
  protocol : protocolOf mem = 0x11

end Headers

/-! ## One run -/

section Run
variable (mem : ℕ → UInt8)

theorem run_byte (i : ℕ) (l : List ℕ) : (Reading.byte mem i).run l = (mem i, l ++ [i]) := rfl

def shortReads (i : ℕ) : List ℕ := [i, i + 1]

theorem run_short (i : ℕ) (l : List ℕ) :
    (Reading.short mem i).run l = (shortAt mem i, l ++ shortReads i) := by
  have hrun : (Reading.short mem i).run l = (shortAt mem i, l ++ [i] ++ [i + 1]) := rfl
  rw [hrun, List.append_assoc]
  rfl

def longReads (i : ℕ) : List ℕ := [i, i + 1, i + 2, i + 3]

theorem run_long (i : ℕ) (l : List ℕ) :
    (Reading.long mem i).run l = (longAt mem i, l ++ longReads i) := by
  have hrun : (Reading.long mem i).run l
      = (longAt mem i, l ++ [i] ++ [i + 1] ++ [i + 2] ++ [i + 3]) := rfl
  rw [hrun, List.append_assoc, List.append_assoc, List.append_assoc]
  rfl

/-- The offsets read of a TCP frame. -/
def tcpReads : List ℕ :=
  [12, 13, ipAt mem, ipAt mem + 9, tcpAt mem + 12] ++ longReads (ipAt mem + 12)
    ++ longReads (ipAt mem + 16) ++ shortReads (tcpAt mem) ++ shortReads (tcpAt mem + 2)
    ++ longReads (tcpAt mem + 4)

/-- What becomes of a frame, and what is read of it, by its header fields. -/
theorem gotPacketReads_eq (netIdentity : UInt32) : gotPacketReads netIdentity mem =
    if ipHlOf mem * 4 < 20 then (.ignored, [12, 13, ipAt mem])
    else if protocolOf mem = 0x06 then
      if thOffOf mem * 4 < 20 then (.ignored, [12, 13, ipAt mem, ipAt mem + 9, tcpAt mem + 12])
      else if getNetIdentity (packetOf mem).srcip = netIdentity then (.ignored, tcpReads mem)
      else (.reported (packetOf mem) (longAt mem (tcpAt mem + 4))
        (toInt (getSenderIdx (packetOf mem).srcip)), tcpReads mem)
    else if protocolOf mem = 0x11 then (.condition, [12, 13, ipAt mem, ipAt mem + 9])
    else (.ignored, [12, 13, ipAt mem, ipAt mem + 9]) := by
  unfold gotPacketReads handlePacket
  simp only [StateT.run_bind, run_short]
  change (StateT.run (if ipHlOf mem * 4 < 20 then _ else _) _) = _
  by_cases hhl : ipHlOf mem * 4 < 20
  · rw [if_pos hhl, if_pos hhl]
    rfl
  rw [if_neg hhl, if_neg hhl]
  change (StateT.run (if protocolOf mem = 0x06 then _ else _) _) = _
  by_cases htcp : protocolOf mem = 0x06
  swap
  · rw [if_neg htcp, if_neg htcp]
    by_cases hudp : protocolOf mem = 0x11
    · change (StateT.run (if protocolOf mem = 0x11 then _ else _) _) = _
      rw [if_pos hudp, if_pos hudp]
      rfl
    · change (StateT.run (if protocolOf mem = 0x11 then _ else _) _) = _
      rw [if_neg hudp, if_neg hudp]
      rfl
  rw [if_pos htcp, if_pos htcp]
  change (StateT.run (if thOffOf mem * 4 < 20 then _ else _) _) = _
  by_cases hoff : thOffOf mem * 4 < 20
  · rw [if_pos hoff, if_pos hoff]
    rfl
  rw [if_neg hoff, if_neg hoff]
  simp only [StateT.run_bind, run_short, run_long, run_byte]
  change (StateT.run (if getNetIdentity (packetOf mem).srcip = netIdentity then _ else _) _) = _
  by_cases hnet : getNetIdentity (packetOf mem).srcip = netIdentity
  · rw [if_pos hnet, if_pos hnet]
    rfl
  · rw [if_neg hnet, if_neg hnet]
    rfl

variable {mem} {netIdentity : UInt32}

/-- The last byte read is the one with `th_off`. -/
theorem tcpReads_lt_iff {caplen : ℕ} (h : 5 ≤ ipHlOf mem) :
    (∀ i ∈ tcpReads mem, i < caplen) ↔ tcpAt mem + 13 ≤ caplen := by
  have hip : 14 ≤ ipAt mem := by
    rw [ipAt]
    split_ifs <;> decide
  have htcp : ipAt mem + 20 ≤ tcpAt mem := by
    rw [tcpAt]
    omega
  simp only [tcpReads, longReads, shortReads, List.forall_mem_append, List.forall_mem_cons,
    List.not_mem_nil, false_implies, implies_true, and_true]
  omega

theorem toNat_longAt_div (i : ℕ) : (longAt mem i).toNat / 2 ^ 24 = (mem i).toNat := by
  have h₀ := (mem i).toNat_lt
  have h₁ := (mem (i + 1)).toNat_lt
  have h₂ := (mem (i + 2)).toNat_lt
  have h₃ := (mem (i + 3)).toNat_lt
  rw [longAt, UInt32.toNat_ofNat', Nat.mod_eq_of_lt (by omega)]
  omega

theorem getNetIdentity_packetOf :
    getNetIdentity (packetOf mem).srcip = netIdentity ↔ firstSrcByte mem = netIdentity.toNat := by
  have hshift : ((longAt mem (ipAt mem + 12)) >>> 24).toNat = firstSrcByte mem := by
    rw [UInt32.toNat_shiftRight, firstSrcByte, ← toNat_longAt_div]
    exact Nat.shiftRight_eq_div_pow _ _
  rw [getNetIdentity, ← UInt32.toNat_inj, packetOf, hshift]

/-- A TCP frame from another net is reported, a UDP frame counted, and others ignored. -/
theorem gotPacketReads_cases (mem : ℕ → UInt8) (netIdentity : UInt32) :
    (IsTcpFrom mem netIdentity ∧ gotPacketReads netIdentity mem
        = (.reported (packetOf mem) (longAt mem (tcpAt mem + 4))
          (toInt (getSenderIdx (packetOf mem).srcip)), tcpReads mem))
      ∨ (IsUdp mem ∧ gotPacketReads netIdentity mem
        = (.condition, [12, 13, ipAt mem, ipAt mem + 9]))
      ∨ (¬ IsTcpFrom mem netIdentity ∧ ¬ IsUdp mem
        ∧ (gotPacketReads netIdentity mem).1 = .ignored) := by
  rw [gotPacketReads_eq]
  split_ifs with hhl htcp hoff hnet hudp
  · refine .inr (.inr ⟨fun h => ?_, fun h => ?_, rfl⟩)
    · exact absurd h.ipHl (by omega)
    · exact absurd h.ipHl (by omega)
  · refine .inr (.inr ⟨fun h => ?_, fun h => ?_, rfl⟩)
    · exact absurd h.thOff (by omega)
    · exact absurd (htcp.symm.trans h.protocol) (by decide)
  · refine .inr (.inr ⟨fun h => ?_, fun h => ?_, rfl⟩)
    · exact h.net (getNetIdentity_packetOf.1 hnet)
    · exact absurd (htcp.symm.trans h.protocol) (by decide)
  · exact .inl ⟨⟨by omega, htcp, by omega, fun h => hnet (getNetIdentity_packetOf.2 h)⟩, rfl⟩
  · exact .inr (.inl ⟨⟨by omega, hudp⟩, rfl⟩)
  · exact .inr (.inr ⟨fun h => htcp h.protocol, fun h => hudp h.protocol, rfl⟩)

end Run

/-! ## The sender of an address -/

/-- What is left of an address under the mask. -/
theorem toNat_and_ipMask (ip : UInt32) : (ip &&& ipMask).toNat = ip.toNat / 2 ^ 24 * 2 ^ 24 := by
  have hlow : (ip &&& ipMask).toNat % 2 ^ 24 = 0 := by
    have hmask : ipMask.toNat % 2 ^ 24 = 0 := by decide
    rw [UInt32.toNat_and, Nat.and_mod_two_pow, hmask, Nat.and_zero]
  have hhigh : (ip &&& ipMask).toNat / 2 ^ 24 = ip.toNat / 2 ^ 24 := by
    have hprefix := toNat_prefix ip
    rw [UInt32.toNat_shiftRight] at hprefix
    exact (Nat.shiftRight_eq_div_pow _ _).symm.trans hprefix
  omega

theorem toNat_ithSenderStartIp {i : UInt32} (hi : i.toNat < 12) :
    (ithSenderStartIp i).toNat = (10 + i.toNat) * 2 ^ 24 := by
  have hstart : startIp.toNat = 10 * 2 ^ 24 := by decide
  have hnum : oneSenderIpNum.toNat = 2 ^ 24 := by decide
  rw [ithSenderStartIp, UInt32.toNat_add, UInt32.toNat_mul, hstart, hnum]
  omega

/-- The index is that of a sender, and the sender's net has the address, if the first byte is one
of the senders'. -/
theorem senderIdx_iff (ip : UInt32) :
    (0 ≤ toInt (getSenderIdx ip) ∧ toInt (getSenderIdx ip) < numSenders.toNat
        ∧ ip &&& ipMask = ithSenderStartIp (toUInt (toInt (getSenderIdx ip))))
      ↔ 10 ≤ ip.toNat / 2 ^ 24 ∧ ip.toNat / 2 ^ 24 ≤ 21 := by
  have hlt := ip.toNat_lt
  have hsenders : (numSenders.toNat : ℤ) = 12 := by decide
  have hstart : startIp.toNat = 10 * 2 ^ 24 := by decide
  rw [toUInt_toInt, hsenders]
  by_cases hfirst : startIp.toNat ≤ ip.toNat
  · have hidx := toNat_getSenderIdx ip hfirst
    rw [toInt_eq_toNat (by omega)]
    constructor
    · rintro ⟨-, hless, -⟩
      omega
    · rintro ⟨-, hlast⟩
      refine ⟨Int.natCast_nonneg _, by omega, ?_⟩
      rw [← UInt32.toNat_inj, toNat_and_ipMask, toNat_ithSenderStartIp (by omega), hidx]
      omega
  · -- the subtraction wraps around
    have hidx : 2 ^ 31 ≤ (getSenderIdx ip).toNat := by
      have hten : (startIp >>> 24).toNat = 10 := by decide
      rw [getSenderIdx, UInt32.toNat_sub, toNat_prefix, hten]
      omega
    have hneg := toInt_lt_zero hidx
    exact iff_of_false (fun h => absurd h.1 (by omega)) fun h => by omega

/-- The receiver handles a frame safely if and only if, of a TCP frame from another net, the byte
with the length of the TCP header is captured and the source address is a sender's, and of a UDP
frame the byte with the protocol is captured. -/
theorem handled_safely_iff (netIdentity : UInt32) (caplen : ℕ) (mem : ℕ → UInt8) :
    HandledSafely netIdentity caplen mem
      ↔ (IsTcpFrom mem netIdentity →
          tcpAt mem + 13 ≤ caplen ∧ 10 ≤ firstSrcByte mem ∧ firstSrcByte mem ≤ 21)
        ∧ (IsUdp mem → ipAt mem + 10 ≤ caplen) := by
  have hfirst : (packetOf mem).srcip.toNat / 2 ^ 24 = firstSrcByte mem := toNat_longAt_div _
  rcases gotPacketReads_cases mem netIdentity with
    ⟨htcp, hrun⟩ | ⟨hudp, hrun⟩ | ⟨htcp, hudp, hrun⟩
  · have hnot : ¬ IsUdp mem :=
      fun hudp => absurd (htcp.protocol.symm.trans hudp.protocol) (by decide)
    rw [← tcpReads_lt_iff htcp.ipHl, ← hfirst, ← senderIdx_iff]
    constructor
    · intro h
      refine ⟨fun _ => ⟨?_, h.sender _ _ _ (by rw [hrun])⟩, fun hudp => absurd hudp hnot⟩
      have hinside := h.inside
      rw [hrun] at hinside
      exact hinside.resolve_right fun hignored => by cases hignored
    · rintro ⟨h, -⟩
      obtain ⟨hreads, hsender⟩ := h htcp
      refine ⟨.inl (by rwa [hrun]), fun packet seqid fifoIdx hreported => ?_,
        fun packet seqid fifoIdx hreported => ?_⟩
      · rw [hrun] at hreported
        cases hreported
        exact fun hnet => htcp.net (getNetIdentity_packetOf.1 hnet)
      · rw [hrun] at hreported
        cases hreported
        exact hsender
  · have hnot : ¬ IsTcpFrom mem netIdentity :=
      fun htcp => absurd (htcp.protocol.symm.trans hudp.protocol) (by decide)
    have hip : 14 ≤ ipAt mem := by
      rw [ipAt]
      split_ifs <;> decide
    constructor
    · intro h
      refine ⟨fun htcp => absurd htcp hnot, fun _ => ?_⟩
      have hinside := h.inside
      rw [hrun] at hinside
      exact hinside.resolve_right (fun hignored => by cases hignored) _ (by simp)
    · rintro ⟨-, h⟩
      have hcaplen := h hudp
      refine ⟨.inl ?_, fun packet seqid fifoIdx hreported => ?_,
        fun packet seqid fifoIdx hreported => ?_⟩
      · rw [hrun]
        simp only [List.forall_mem_cons, List.not_mem_nil, false_implies, implies_true, and_true]
        omega
      · cases (congrArg Prod.fst hrun).symm.trans hreported
      · cases (congrArg Prod.fst hrun).symm.trans hreported
  · refine iff_of_true ⟨.inr hrun, fun packet seqid fifoIdx hreported => ?_,
      fun packet seqid fifoIdx hreported => ?_⟩ ⟨fun h => absurd h htcp, fun h => absurd h hudp⟩
    · cases hrun.symm.trans hreported
    · cases hrun.symm.trans hreported

/-! ## Frames that are reported without reading further -/

section Captured
variable {mem : ℕ → UInt8} {packetBuffer : Frame} {netIdentity : UInt32} {i : ℕ}

/-- The memory starts with the captured bytes. -/
def Captures (mem : ℕ → UInt8) (packetBuffer : Frame) : Prop :=
  ∀ i b, packetBuffer[i]? = some b → mem i = b

theorem readBE_eq (hmem : Captures mem packetBuffer) {n v : ℕ}
    (h : Lib.readBE packetBuffer i (n + 1) = some v) :
    ∃ u, Lib.readBE packetBuffer i n = some u ∧ v = u * 256 + (mem (i + n)).toNat := by
  obtain ⟨u, b, hu, hb, rfl⟩ := Lib.readBE_succ.1 h
  exact ⟨u, hu, by rw [hmem _ b hb]⟩

theorem u16_eq (hmem : Captures mem packetBuffer) {v : UInt16}
    (h : packetBuffer.u16 i = some v) : v = shortAt mem i := by
  obtain ⟨n, hn, rfl⟩ := Option.map_eq_some_iff.1 h
  obtain ⟨n₁, hn₁, rfl⟩ := readBE_eq hmem hn
  obtain ⟨n₀, hn₀, rfl⟩ := readBE_eq hmem hn₁
  cases hn₀
  rw [shortAt, Nat.zero_mul, Nat.zero_add]
  rfl

theorem u32_eq (hmem : Captures mem packetBuffer) {v : UInt32}
    (h : packetBuffer.u32 i = some v) : v = longAt mem i := by
  obtain ⟨n, hn, rfl⟩ := Option.map_eq_some_iff.1 h
  obtain ⟨n₃, hn₃, rfl⟩ := readBE_eq hmem hn
  obtain ⟨n₂, hn₂, rfl⟩ := readBE_eq hmem hn₃
  obtain ⟨n₁, hn₁, rfl⟩ := readBE_eq hmem hn₂
  obtain ⟨n₀, hn₀, rfl⟩ := readBE_eq hmem hn₁
  cases hn₀
  rw [longAt, Nat.zero_mul, Nat.zero_add]
  rfl

/-- What `gotPacket` reports of the captured bytes alone is reported, and nothing else is read. -/
theorem gotPacketReads_of_gotPacket (hmem : Captures mem packetBuffer) {r : FlowS × UInt32}
    (h : gotPacket netIdentity packetBuffer = some r) :
    (gotPacketReads netIdentity mem).1
        = .reported r.1 r.2 (toInt (getSenderIdx r.1.srcip))
      ∧ ∀ i ∈ (gotPacketReads netIdentity mem).2, i < packetBuffer.length := by
  simp only [gotPacket, Option.bind_eq_bind, Option.bind_eq_some_iff] at h
  obtain ⟨ip, hip, b, hb, h⟩ := h
  split_ifs at h with hsize
  obtain ⟨ipP, hipP, h⟩ := Option.bind_eq_some_iff.1 h
  split_ifs at h with htcp
  obtain ⟨off, hoff, h⟩ := Option.bind_eq_some_iff.1 h
  split_ifs at h with hoff_size
  obtain ⟨packet, hpacket, h⟩ := Option.bind_eq_some_iff.1 h
  split_ifs at h with hnet
  cases h
  obtain ⟨etherType, hether, rfl⟩ := Option.map_eq_some_iff.1 hip
  have hip_eq : (if etherType = ethertypeVlan then 18 else 14) = ipAt mem := by
    rw [ipAt, u16_eq hmem hether]
  rw [hip_eq] at hb hipP hoff hpacket
  have hhl : ipHlOf mem = b.toNat % 16 := by rw [ipHlOf, hmem _ b hb]
  have htcp_eq : ipAt mem + b.toNat % 16 * 4 = tcpAt mem := by rw [tcpAt, hhl]
  rw [htcp_eq] at hoff hpacket
  simp only [Frame.headersAt, Option.bind_eq_bind, Option.bind_eq_some_iff] at hpacket
  obtain ⟨srcip, hsrcip, dstip, hdstip, protocol, hprotocol, srcPort, hsrcPort, dstPort, hdstPort,
    seqid, hseqid, hr⟩ := hpacket
  have hprotocol_eq : protocol = protocolOf mem := (hmem _ protocol hprotocol).symm
  have hr_eq : r = (packetOf mem, longAt mem (tcpAt mem + 4)) := by
    cases hr
    rw [packetOf, u32_eq hmem hsrcip, u32_eq hmem hdstip, u16_eq hmem hsrcPort,
      u16_eq hmem hdstPort, u32_eq hmem hseqid, hprotocol_eq]
  have hfrom : IsTcpFrom mem netIdentity := by
    refine ⟨by omega, ?_, ?_, fun h => hnet ?_⟩
    · rw [protocolOf, hmem _ ipP hipP, htcp]
    · rw [thOffOf, hmem _ off hoff]
      omega
    · rw [hr_eq]
      exact getNetIdentity_packetOf.2 h
  have hlen : tcpAt mem + 13 ≤ packetBuffer.length := (List.getElem?_eq_some_iff.1 hoff).1
  rcases gotPacketReads_cases mem netIdentity with
    ⟨-, hrun⟩ | ⟨hudp, -⟩ | ⟨hnot, -, -⟩
  · rw [hrun, hr_eq]
    exact ⟨rfl, (tcpReads_lt_iff hfrom.ipHl).2 hlen⟩
  · exact absurd (hfrom.protocol.symm.trans hudp.protocol) (by decide)
  · exact absurd hfrom hnot

end Captured

/-- The memory from a captured frame on, if it is followed by zeros. -/
def frameMem (packetBuffer : Frame) (i : ℕ) : UInt8 := packetBuffer.getD i 0

/-- A TCP frame from 192.168.0.1 to 11.0.0.2. -/
def foreignFrame : Frame :=
  (exampleFrame []).take 26 ++ [192, 168, 0, 1] ++ (exampleFrame []).drop 30

/-- It is written to a FIFO that does not exist. -/
theorem foreign_frame_reported :
    (gotPacketReads 11 (frameMem foreignFrame)).1
        = .reported ⟨0xc0a80001, 0x0b000002, 80, 8080, 6⟩ 7 182
      ∧ ¬ HandledSafely 11 foreignFrame.length (frameMem foreignFrame) := by
  have hreported : (gotPacketReads 11 (frameMem foreignFrame)).1
      = .reported ⟨0xc0a80001, 0x0b000002, 80, 8080, 6⟩ 7 182 := by decide +kernel
  refine ⟨hreported, fun h => ?_⟩
  have hless := (h.sender _ _ _ hreported).2.1
  revert hless
  decide +kernel

end CMTestbed
