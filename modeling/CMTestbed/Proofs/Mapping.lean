import CMTestbed.Lib.Numbering
import CMTestbed.Mapping

/-!
# Where addresses are mapped

The `n`-th address to appear goes to node `n % 12`, and there to place `(n - 1) / 12`
(`numbers_getMappedInfo`).  The two are offset by one from each other, yet no two addresses share
both (`placeIp_inj`), and as long as the places do not run out each address stays in the /8 of its
node (`getSenderIdx_placeIp`).
-/

namespace CMTestbed

open Lib

/-- The address that the `n`-th one is mapped to. -/
def placeIp (n : ℕ) : ℕ := 0x0A000000 + 0x01000000 * (n % 12) + (n - 1) / 12

/-- The mapped addresses there are. -/
def maxPlaces : ℕ := 12 * 2 ^ 24

theorem placeIp_lt {n : ℕ} (hn : n ≤ maxPlaces) : placeIp n < 2 ^ 31 := by
  unfold maxPlaces at hn
  unfold placeIp
  omega

theorem placeIp_inj {n m : ℕ} (hn₀ : 0 < n) (hn : n ≤ maxPlaces) (hm₀ : 0 < m) (hm : m ≤ maxPlaces)
    (h : placeIp n = placeIp m) : n = m := by
  unfold maxPlaces at hn hm
  have hparts : ∀ {i j p q : ℕ}, p < 2 ^ 24 → q < 2 ^ 24 →
      0x0A000000 + 0x01000000 * i + p = 0x0A000000 + 0x01000000 * j + q → i = j ∧ p = q := by
    omega
  obtain ⟨hnode, hplace⟩ := hparts (by omega) (by omega) h
  omega

/-- The first byte of an address. -/
theorem toNat_prefix (ip : UInt32) : ((ip &&& ipMask) >>> 24).toNat = ip.toNat / 2 ^ 24 := by
  have hbyte : ip.toNat >>> 24 < 2 ^ 8 := by
    have := ip.toNat_lt
    rw [Nat.shiftRight_eq_div_pow]
    omega
  have hand : (ip.toNat &&& ipMask.toNat) >>> 24 = ip.toNat >>> 24 &&& 2 ^ 8 - 1 :=
    Nat.shiftRight_and_distrib
  rw [UInt32.toNat_shiftRight, UInt32.toNat_and]
  exact hand.trans ((Nat.and_two_pow_sub_one_of_lt_two_pow hbyte).trans
    (Nat.shiftRight_eq_div_pow _ _))

theorem toNat_getSenderIdx (ip : UInt32) (h : startIp.toNat ≤ ip.toNat) :
    (getSenderIdx ip).toNat = ip.toNat / 2 ^ 24 - 10 := by
  have hstart : (startIp >>> 24).toNat = 10 := by decide
  have hle : 10 ≤ ip.toNat / 2 ^ 24 := by
    have : startIp.toNat = 10 * 2 ^ 24 := by decide
    omega
  rw [getSenderIdx, UInt32.toNat_sub_of_le, toNat_prefix, hstart]
  rw [UInt32.le_iff_toNat_le, toNat_prefix, hstart]
  exact hle

theorem getSenderIdx_placeIp {ip : UInt32} {n : ℕ} (hn : n ≤ maxPlaces)
    (h : ip.toNat = placeIp n) : (getSenderIdx ip).toNat = n % 12 := by
  have hstart : startIp.toNat = 0x0A000000 := by decide
  unfold maxPlaces at hn
  unfold placeIp at h
  rw [toNat_getSenderIdx ip (by omega)]
  omega

/-! ## One call -/

/-- The addresses in `seen` have been mapped, in this order. -/
structure Mapping.Numbers (m : Mapping) (seen : List UInt32) : Prop where
  num : m.uniqueIpNum.toNat = seen.length
  room : seen.length ≤ maxPlaces
  node : ∀ ip, htKfsViGet m.srcipToNodeIdxMap ⟨ip, 0⟩
    = if ip ∈ seen then (((seen.idxOf ip + 1) % 12 : ℕ) : ℤ) else -1
  mapped : ∀ ip ∈ seen, htKfsViGet m.srcipToNodeSrcipMap ⟨ip, 0⟩ = placeIp (seen.idxOf ip + 1)

/-- A call hands back the `n`-th place. -/
structure MappedInfo.At (info : MappedInfo) (n : ℕ) : Prop where
  node : info.mappedNodeid.toNat = n % 12
  ip : info.mappedIp.toNat = placeIp n

theorem numbers_init : Mapping.init.Numbers [] where
  num := rfl
  room := Nat.zero_le _
  node := fun ip => by simp [Mapping.init]
  mapped := fun ip h => absurd h List.not_mem_nil

section
variable {m : Mapping} {seen : List UInt32}

theorem Mapping.Numbers.idxOf_lt (_ : m.Numbers seen) {ip : UInt32} (h : ip ∈ seen) :
    seen.idxOf ip + 1 ≤ seen.length :=
  List.idxOf_lt_length_of_mem h

/-- An address that was mapped before. -/
theorem getMappedInfo_of_mem (hm : m.Numbers seen) {ip : UInt32} (h : ip ∈ seen) :
    (getMappedInfo m ip).1 = m ∧ (getMappedInfo m ip).2.At (seen.idxOf ip + 1) := by
  have hnode := hm.node ip
  rw [if_pos h] at hnode
  have hret : ¬ htKfsViGet m.srcipToNodeIdxMap ⟨ip, 0⟩ < 0 := by omega
  have hidx := hm.idxOf_lt h
  have hlt := placeIp_lt (hidx.trans hm.room)
  simp only [getMappedInfo, if_neg hret, true_and]
  constructor
  · have := toNat_toUInt (show 0 ≤ htKfsViGet m.srcipToNodeIdxMap ⟨ip, 0⟩ by omega) (by omega)
    show (toUInt _).toNat = _
    omega
  · have hip := hm.mapped ip h
    have := toNat_toUInt (show 0 ≤ htKfsViGet m.srcipToNodeSrcipMap ⟨ip, 0⟩ by omega)
      (by omega)
    show (toUInt _).toNat = _
    omega

/-- An address that was not mapped before gets the next place. -/
theorem numbers_getMappedInfo_of_not_mem (hm : m.Numbers seen) {ip : UInt32} (h : ip ∉ seen)
    (hroom : seen.length + 1 ≤ maxPlaces) :
    (getMappedInfo m ip).1.Numbers (seen ++ [ip])
      ∧ (getMappedInfo m ip).2.At (seen.length + 1) := by
  have hret : htKfsViGet m.srcipToNodeIdxMap ⟨ip, 0⟩ < 0 := by
    rw [hm.node ip, if_neg h]
    omega
  have hmax : maxPlaces < 2 ^ 32 := by decide
  have hnum : (m.uniqueIpNum + 1).toNat = seen.length + 1 := by
    have h1 : (1 : UInt64).toNat = 1 := rfl
    rw [UInt64.toNat_add, hm.num, h1]
    omega
  have hnode : ((m.uniqueIpNum + 1) % numSenders.toUInt64).toUInt32.toNat
      = (seen.length + 1) % 12 := by
    have h12 : numSenders.toUInt64.toNat = 12 := rfl
    rw [UInt64.toNat_toUInt32, UInt64.toNat_mod, hnum, h12]
    omega
  have hplace : (((m.uniqueIpNum + 1) - 1) / numSenders.toUInt64).toUInt32.toNat
      = seen.length / 12 := by
    have h12 : numSenders.toUInt64.toNat = 12 := rfl
    rw [UInt64.add_sub_cancel, UInt64.toNat_toUInt32, UInt64.toNat_div, hm.num, h12]
    omega
  have hip : (ithSenderStartIp ((m.uniqueIpNum + 1) % numSenders.toUInt64).toUInt32
      + (((m.uniqueIpNum + 1) - 1) / numSenders.toUInt64).toUInt32).toNat
      = placeIp (seen.length + 1) := by
    have hstart : startIp.toNat = 0x0A000000 := by decide
    have hone : oneSenderIpNum.toNat = 0x01000000 := by decide
    have hlt := placeIp_lt hroom
    rw [placeIp, Nat.add_sub_cancel] at hlt ⊢
    rw [ithSenderStartIp, UInt32.toNat_add, UInt32.toNat_add, UInt32.toNat_mul, hnode, hplace,
      hstart, hone]
    generalize (seen.length + 1) % 12 = i at hlt ⊢
    generalize seen.length / 12 = place at hlt ⊢
    omega
  have hidx : (seen ++ [ip]).idxOf ip = seen.length := by
    rw [List.idxOf_append_of_notMem h, List.idxOf_cons_self, Nat.add_zero]
  simp only [getMappedInfo, if_pos hret]
  refine ⟨⟨?_, by simpa using hroom, fun a => ?_, fun a ha => ?_⟩, hnode, hip⟩
  · rw [hnum, List.length_append, List.length_singleton]
  · rw [htKfsViGet_set, hm.node a]
    by_cases hai : a = ip
    · rw [if_pos (by rw [hai]), if_pos (by simp [hai]), hai, hidx, ← hnode]
      exact toInt_eq_toNat (by omega)
    · have hne : (⟨a, 0⟩ : FlowSrc) ≠ ⟨ip, 0⟩ := fun he => hai (congrArg FlowSrc.srcip he)
      rw [if_neg hne]
      by_cases ha : a ∈ seen
      · rw [if_pos ha, if_pos (List.mem_append_left _ ha), List.idxOf_append_of_mem ha]
      · rw [if_neg ha, if_neg (by simp [ha, hai])]
  · rw [htKfsViGet_set]
    by_cases hai : a = ip
    · rw [if_pos (by rw [hai]), hai, hidx, ← hip]
      exact toInt_eq_toNat (hip ▸ placeIp_lt hroom)
    · have hne : (⟨a, 0⟩ : FlowSrc) ≠ ⟨ip, 0⟩ := fun he => hai (congrArg FlowSrc.srcip he)
      have ha' : a ∈ seen := by simpa [hai] using ha
      rw [if_neg hne, hm.mapped a ha', List.idxOf_append_of_mem ha']

/-- A call gives its address the place of its number. -/
theorem numbers_getMappedInfo (hm : m.Numbers seen) (ip : UInt32)
    (hroom : (note seen ip).length ≤ maxPlaces) :
    (getMappedInfo m ip).1.Numbers (note seen ip)
      ∧ (getMappedInfo m ip).2.At ((note seen ip).idxOf ip + 1) := by
  unfold note at hroom ⊢
  by_cases h : ip ∈ seen
  · obtain ⟨hmap, hat⟩ := getMappedInfo_of_mem hm h
    rw [if_pos h, hmap]
    exact ⟨hm, hat⟩
  · rw [if_neg h] at hroom ⊢
    rw [List.length_append, List.length_singleton] at hroom
    rw [List.idxOf_append_of_notMem h, List.idxOf_cons_self, Nat.add_zero]
    exact numbers_getMappedInfo_of_not_mem hm h hroom

end

theorem ip_getMappedInfo (m : Mapping) (ip : UInt32) : (getMappedInfo m ip).2.ip = ip := by
  unfold getMappedInfo
  dsimp only
  split_ifs <;> rfl

/-! ## Any number of calls -/

theorem numbers_getMappedInfos : ∀ (ips : List UInt32) {m : Mapping} {seen : List UInt32},
    m.Numbers seen → (ips.foldl note seen).length ≤ maxPlaces →
    (getMappedInfos m ips).2.map MappedInfo.ip = ips
      ∧ ∀ info ∈ (getMappedInfos m ips).2, info.At ((ips.foldl note seen).idxOf info.ip + 1)
  | [], _, _, _, _ => by simp [getMappedInfos]
  | ip :: ips, m, seen, hm, hroom => by
    have hpre := prefix_foldl_note ips (note seen ip)
    obtain ⟨hm', hat⟩ := numbers_getMappedInfo hm ip (hpre.length_le.trans hroom)
    obtain ⟨hips, hats⟩ := numbers_getMappedInfos ips hm' hroom
    simp only [getMappedInfos, List.map_cons, List.forall_mem_cons, ip_getMappedInfo, hips,
      true_and]
    refine ⟨?_, hats⟩
    have hidx : ((ip :: ips).foldl note seen).idxOf ip = (note seen ip).idxOf ip :=
      idxOf_of_prefix hpre (mem_note.2 (.inr rfl))
    rwa [hidx]

/-- What the calls of `get_mapped_info` handed back. -/
structure MappedEvenly (infos : List MappedInfo) : Prop where
  same : ∀ a ∈ infos, ∀ b ∈ infos, a.ip = b.ip → a = b
  distinct : ∀ a ∈ infos, ∀ b ∈ infos, a.mappedIp = b.mappedIp → a.ip = b.ip
  inNode : ∀ a ∈ infos, getSenderIdx a.mappedIp = a.mappedNodeid ∧ a.mappedNodeid < numSenders
  balanced : ∀ i < numSenders, ∀ j < numSenders,
    (ipsOfNode infos i).card ≤ (ipsOfNode infos j).card + 1

theorem MappedInfo.At.inNode {info : MappedInfo} {n : ℕ} (h : info.At n) (hn : n ≤ maxPlaces) :
    getSenderIdx info.mappedIp = info.mappedNodeid ∧ info.mappedNodeid < numSenders := by
  refine ⟨UInt32.toNat_inj.1 ((getSenderIdx_placeIp hn h.ip).trans h.node.symm), ?_⟩
  have h12 : numSenders.toNat = 12 := rfl
  rw [UInt32.lt_iff_toNat_lt, h.node, h12]
  omega

theorem mappedEvenly_init {ips : List UInt32} (hips : ips.toFinset.card ≤ maxPlaces) :
    MappedEvenly (getMappedInfos Mapping.init ips).2 := by
  have hroom : (firstSeen ips).length ≤ maxPlaces := (length_firstSeen ips).trans_le hips
  have hcalls : (getMappedInfos Mapping.init ips).2.map MappedInfo.ip = ips
      ∧ ∀ info ∈ (getMappedInfos Mapping.init ips).2, info.At ((firstSeen ips).idxOf info.ip + 1) :=
    numbers_getMappedInfos ips numbers_init hroom
  obtain ⟨hmap, hat⟩ := hcalls
  generalize (getMappedInfos Mapping.init ips).2 = infos at hmap hat ⊢
  have hmem : ∀ {ip}, ip ∈ firstSeen ips ↔ ∃ info ∈ infos, info.ip = ip := by
    intro ip
    rw [firstSeen, mem_foldl_note, ← hmap, List.mem_map]
    simp
  have hidx : ∀ info ∈ infos, (firstSeen ips).idxOf info.ip + 1 ≤ maxPlaces := fun info hinfo =>
    (List.idxOf_lt_length_of_mem (hmem.2 ⟨info, hinfo, rfl⟩)).trans_le hroom
  constructor
  · intro a ha b hb hab
    have hata := hat a ha
    have hatb := hat b hb
    rw [← hab] at hatb
    obtain ⟨ip, node, mapped⟩ := a
    obtain ⟨ip', node', mapped'⟩ := b
    obtain rfl : ip = ip' := hab
    obtain rfl : node = node' := UInt32.toNat_inj.1 (hata.node.trans hatb.node.symm)
    obtain rfl : mapped = mapped' := UInt32.toNat_inj.1 (hata.ip.trans hatb.ip.symm)
    rfl
  · intro a ha b hb hab
    have hplace : placeIp ((firstSeen ips).idxOf a.ip + 1)
        = placeIp ((firstSeen ips).idxOf b.ip + 1) := by
      rw [← (hat a ha).ip, ← (hat b hb).ip, hab]
    have hsucc := placeIp_inj (Nat.succ_pos _) (hidx a ha) (Nat.succ_pos _) (hidx b hb) hplace
    exact (List.idxOf_inj (hmem.2 ⟨a, ha, rfl⟩)).1 (Nat.succ_injective hsucc)
  · exact fun a ha => (hat a ha).inNode (hidx a ha)
  · intro i hi j hj
    have hnode : ∀ v : UInt32, ipsOfNode infos v
        = (firstSeen ips).toFinset.filter fun ip =>
          ((firstSeen ips).idxOf ip + 1) % 12 = v.toNat := by
      intro v
      ext ip
      simp only [ipsOfNode, List.mem_toFinset, List.mem_map, List.mem_filter, decide_eq_true_eq,
        Finset.mem_filter]
      constructor
      · rintro ⟨info, ⟨hinfo, rfl⟩, rfl⟩
        exact ⟨hmem.2 ⟨info, hinfo, rfl⟩, (hat info hinfo).node.symm⟩
      · rintro ⟨hip, hv⟩
        obtain ⟨info, hinfo, rfl⟩ := hmem.1 hip
        exact ⟨info, ⟨hinfo, UInt32.toNat_inj.1 ((hat info hinfo).node.trans hv)⟩, rfl⟩
    rw [hnode i, hnode j]
    exact card_dealt_le (nodup_foldl_note ips List.nodup_nil) (UInt32.lt_iff_toNat_lt.1 hi)
      (UInt32.lt_iff_toNat_lt.1 hj)

/-! ## The files written -/

/-- A packet in the file of node `i` goes from its /8 to that of another node. -/
def BetweenNodes (i : UInt32) (packet : PacketS) : Prop :=
  i < numSenders ∧ getSenderIdx packet.srcip = i
    ∧ getSenderIdx packet.dstip < numSenders ∧ getSenderIdx packet.dstip ≠ i

theorem betweenNodes_mapPacket {g : Generator} {seen : List UInt32} (hg : g.mapping.Numbers seen)
    {packet : PacketS} (srcPort dstPort : UInt16)
    (hroom : ([packet.srcip, packet.dstip].foldl note seen).length ≤ maxPlaces)
    (hw : ∀ w ∈ g.written, BetweenNodes w.1 w.2) :
    (g.mapPacket packet srcPort dstPort).mapping.Numbers
        ([packet.srcip, packet.dstip].foldl note seen)
      ∧ ∀ w ∈ (g.mapPacket packet srcPort dstPort).written, BetweenNodes w.1 w.2 := by
  have hpre := prefix_note (note seen packet.srcip) packet.dstip
  obtain ⟨hsrc, hsrcAt⟩ := numbers_getMappedInfo hg packet.srcip (hpre.length_le.trans hroom)
  obtain ⟨hdst, hdstAt⟩ := numbers_getMappedInfo hsrc packet.dstip hroom
  have hbound : ∀ {l : List UInt32} {ip}, ip ∈ l → l.length ≤ maxPlaces →
      l.idxOf ip + 1 ≤ maxPlaces := fun hip hl => (List.idxOf_lt_length_of_mem hip).trans_le hl
  have hsrcNode := hsrcAt.inNode (hbound (mem_note.2 (.inr rfl)) (hpre.length_le.trans hroom))
  have hdstNode := hdstAt.inNode (hbound (mem_note.2 (.inr rfl)) hroom)
  unfold Generator.mapPacket
  dsimp only
  split_ifs with hxor
  · exact ⟨hdst, hw⟩
  · refine ⟨hdst, List.forall_mem_cons.2 ⟨?_, hw⟩⟩
    show BetweenNodes _ _
    refine ⟨hsrcNode.2, hsrcNode.1, by rw [hdstNode.1]; exact hdstNode.2, fun he => hxor ?_⟩
    rw [hsrcNode.1, he, UInt32.xor_self]

/-- Every packet written goes from its file's node to another one. -/
theorem betweenNodes_run : ∀ (lines : List TraceLine) {g g' : Generator} {seen : List UInt32},
    g.mapping.Numbers seen → ((traceIps lines).foldl note seen).length ≤ maxPlaces →
    (∀ w ∈ g.written, BetweenNodes w.1 w.2) → Generator.system.run g lines = some g' →
    ∀ w ∈ g'.written, BetweenNodes w.1 w.2
  | [], _, _, _, _, _, hw, hr => by
    cases hr
    exact hw
  | line :: lines, g, g', seen, hg, hroom, hw, hr => by
    obtain ⟨g₁, hs, hr⟩ := System.run_cons.1 hr
    obtain ⟨parsed, hp, rfl⟩ := Option.map_eq_some_iff.1 hs
    rw [traceIps, List.flatMap_cons, List.foldl_append, hp] at hroom
    cases parsed with
    | none => exact betweenNodes_run lines hg hroom hw hr
    | some packet =>
      have hpre := prefix_foldl_note (traceIps lines) ([packet.srcip, packet.dstip].foldl note seen)
      obtain ⟨hg', hw'⟩ := betweenNodes_mapPacket hg line.srcPort line.dstPort
        (hpre.length_le.trans hroom) hw
      exact betweenNodes_run lines hg' hroom hw' hr

/-- With no more addresses than there are places, the mapping is one to one, balanced and stays
within each node's /8, and the generator's files hold packets between nodes. -/
theorem addresses_mapped {ips : List UInt32} (hips : ips.toFinset.card ≤ 12 * 2 ^ 24)
    {lines : List TraceLine} (hlines : (traceIps lines).toFinset.card ≤ 12 * 2 ^ 24) :
    (getMappedInfos Mapping.init ips).2.map MappedInfo.ip = ips
      ∧ MappedEvenly (getMappedInfos Mapping.init ips).2
      ∧ ∀ g, Generator.system.run Generator.init lines = some g →
        ∀ w ∈ g.written, BetweenNodes w.1 w.2 := by
  have hroom : (firstSeen ips).length ≤ maxPlaces := (length_firstSeen ips).trans_le hips
  refine ⟨(numbers_getMappedInfos ips numbers_init hroom).1, mappedEvenly_init hips, ?_⟩
  intro g hg
  have hroom' : (firstSeen (traceIps lines)).length ≤ maxPlaces :=
    (length_firstSeen _).trans_le hlines
  exact betweenNodes_run lines numbers_init hroom' (by simp [Generator.init]) hg

theorem addresses_mapped_example :
    MappedEvenly (getMappedInfos Mapping.init [0x01020304, 0x05060708, 0x01020304]).2
      ∧ ∀ g, Generator.system.run Generator.init [⟨chars "0,1,2,80,81,6,100", 7, 8⟩] = some g →
        ∀ w ∈ g.written, BetweenNodes w.1 w.2 := by
  have h := @addresses_mapped [0x01020304, 0x05060708, 0x01020304]
    ((List.toFinset_card_le _).trans (by decide)) [⟨chars "0,1,2,80,81,6,100", 7, 8⟩]
    ((List.toFinset_card_le _).trans (by decide +kernel))
  exact h.2

end CMTestbed
