import CMTestbed.Proofs.ConditionPackets
import CMTestbed.Proofs.Fifo
import CMTestbed.Proofs.Tagged
import CMTestbed.Testbed

/-!
# The hosts of the testbed

A host records a packet in its ledger and puts a frame on its link that has the packet in it
(`replay_spec`).  Whatever way the frame takes, just one receiver can report it, to the host that it
comes from, and does so unless it has ended (`receiveAt_generated`); a condition packet is reported
by none (`receiveAt_condition`).
-/

namespace CMTestbed

open Lib GenerateRulesIntoTables

/-! ## Frames -/

/-- A packet from this host to another one. -/
def Outgoing (t : GenerateRulesIntoTables) (u : Name) (pPacket : PacketS) : Prop :=
  t.ownsIp u pPacket.srcip = true ∧ ∃ v ∈ t.hosts, v ≠ u ∧ t.ownsIp v pPacket.dstip = true

/-- A frame of the host, with this packet. -/
structure Carries (t : GenerateRulesIntoTables) (u : Name) (pPacket : PacketS) (seqid : UInt32)
    (packetBuf : Frame) : Prop where
  between : Outgoing t u pPacket
  generated : HasGenerated pPacket seqid packetBuf
  sentAs : packetBuf.sentAs = some (pPacket.sentAs seqid)

/-- A frame that a host sends. -/
inductive Travels (t : GenerateRulesIntoTables) (u : Name) (packetBuf : Frame) : Prop
  | packet {pPacket : PacketS} {seqid : UInt32} (h : Carries t u pPacket seqid packetBuf)
  | condition (stack : Unassigned) {condition : Condition}
      (hown : t.ownsIp u condition.flow.srcip)
      (h : packetBuf = sendUdpConditionPkt stack condition)

theorem sentAs_sendUdpConditionPkt (stack : Unassigned) (condition : Condition) :
    (sendUdpConditionPkt stack condition).sentAs = none := by
  have hlen : (sendUdpConditionPkt stack condition).hostU32 58 = none := rfl
  simp [Frame.sentAs, hlen]

/-- The bytes on the wire are those of the packet, and its length. -/
theorem carries_take {t : GenerateRulesIntoTables} {u : Name} {pPacket : PacketS} {seqid : UInt32}
    {buffer packetBuf : Frame} (hout : Outgoing t u pPacket)
    (h : TaggedFrom (copyPacket buffer (generateOnePcapPkt pPacket seqid)) packetBuf) :
    Carries t u pPacket seqid
      (packetBuf.take (generateOnePcapPkt pPacket seqid).ownBytes.length) := by
  rw [length_ownBytes_generated]
  have hown : ∀ j < 62, j ≠ 14 → j ≠ 15 →
      (packetBuf.take 62)[j]? = (generateOnePcapPkt pPacket seqid).ownBytes[j]? := by
    intro j hj hj14 hj15
    rw [List.getElem?_take_of_lt hj, getElem?_taggedFrom h hj14 hj15,
      getElem?_own (by rw [length_ownBytes_generated]; omega)]
  have hgen : HasGenerated pPacket seqid (packetBuf.take 62) := by
    intro j hj hj14 hj15
    rw [hown j (by omega) hj14 hj15]
    exact List.getElem?_append_left hj
  have hlen : Frame.hostU32 (packetBuf.take 62) 58
      = some (generateOnePcapPkt pPacket seqid).len := by
    refine Frame.hostU32_of_hostBytes fun k hk => ?_
    rw [hown (58 + k) (by omega) (by omega) (by omega)]
    interval_cases k <;> rfl
  refine ⟨hout, hgen, ?_⟩
  simp only [Frame.sentAs, hgen.headersAt, hlen, Option.bind_eq_bind, Option.bind_some,
    Option.pure_def]
  rfl

/-! ## Replaying -/

theorem PacketTags.taggedFrom_apply {tags : PacketTags} {packetBuf b : Frame}
    (h : tags.apply packetBuf dltEn10mb = some b) : TaggedFrom packetBuf b := by
  by_cases hnil : tags.monitorSwitchIds = []
  · rw [PacketTags.apply, if_pos hnil] at h
    cases h
    exact .untagged
  · rw [PacketTags.apply_eq_applyAll hnil] at h
    exact PacketTags.taggedFrom_applyAll .untagged h

section Replay

variable {t : GenerateRulesIntoTables} {u : Name} {pPacket : PacketS} {seqid : UInt32}
  {file : List (PacketS × UInt32)} {station station' : Station}

theorem sentHeaders_copyPacket (pPacket : PacketS) (seqid : UInt32) (buffer : Frame) :
    sentHeaders (copyPacket buffer (generateOnePcapPkt pPacket seqid))
      (generateOnePcapPkt pPacket seqid).len dltEn10mb = some (pPacket.flow, seqid) := by
  refine (hasGenerated_of_taggedFrom .untagged).sentHeaders ?_
  have := pPacket.len.toNat_lt
  show 20 ≤ (58 + pPacket.len.toUInt32 : UInt32).toNat
  rw [UInt32.toNat_add, UInt16.toNat_toUInt32]
  show 20 ≤ (58 + _) % _
  omega

/-- Where a replay leads to. -/
theorem replay_spec {setting : CmExperimentSetting} {rand : ℚ} (hfile : station.file =
    (pPacket, seqid) :: file) (hout : Outgoing t u pPacket)
    (h : station.replay setting rand = some station') :
    station'.file = file ∧ (∃ b, station'.pending = some b ∧ Carries t u pPacket seqid b)
      ∧ station'.warehouse.flowRecePktListMap = htVlSet station.warehouse.flowRecePktListMap
        pPacket.flow seqid (pPacket.sentAs seqid).2.volume
      ∧ station'.warehouse.taskManager = station.warehouse.taskManager
      ∧ station'.reading = station.reading ∧ station'.answers = station.answers := by
  simp only [Station.replay, hfile, Option.bind_eq_bind, Option.bind_eq_some_iff, Option.pure_def,
    Option.some.injEq] at h
  obtain ⟨packetBuf, happly, rfl⟩ := h
  have hheaders := sentHeaders_copyPacket pPacket seqid station.pktTemporaryBuffer
  refine ⟨rfl, ⟨_, rfl, carries_take hout (PacketTags.taggedFrom_apply happly)⟩, ?_, ?_, rfl, rfl⟩
  · simp only [cmHandleIpv4Packet, hheaders]
    rfl
  · simp only [cmHandleIpv4Packet, hheaders]
    rfl

/-- A host with a record left can replay it. -/
theorem exists_replay {tasks : List MonitorTask} (h : t.Deployed) (hg : Generated t tasks)
    (hu : u ∈ t.hosts) (hfile : station.file = (pPacket, seqid) :: file)
    (hout : Outgoing t u pPacket)
    (htasks : initTasksInfo (taskFile tasks) u = .ok station.warehouse.taskManager)
    (setting : CmExperimentSetting) (rand : ℚ) :
    ∃ station', station.replay setting rand = some station' := by
  obtain ⟨hsrc, v, hv, -, hdst⟩ := hout
  obtain ⟨b, -, hb, -⟩ := sentPacket_spec h hg hu hv hsrc hdst htasks setting seqid
    station.pktTemporaryBuffer rand
  rw [sentPacket] at hb
  simp only [Station.replay, hfile, hb, Option.bind_eq_bind, Option.bind_some, Option.pure_def]
  exact ⟨_, rfl⟩

end Replay

/-! ## Receiving -/

section Receive

variable {t : GenerateRulesIntoTables} {u v : Name} {pPacket : PacketS} {seqid : UInt32}
  {packetBuf : Frame} {table : List FlowRule} {installRuleType : ℕ} {p : Header}
  {rs : List Located} {padding : Name → Recv2SendProto.Padding} {receivers receivers' : Receivers}

theorem digits_formatNat_append (n : ℕ) {c : UInt8} (hc : isdigit c = false) (s : List UInt8) :
    digits (formatNat n ++ c :: s) = n := by
  have htake : (formatNat n ++ c :: s).takeWhile isdigit = (formatNat n).takeWhile isdigit := by
    rw [List.takeWhile_append_of_pos (isdigit_formatNat n),
      List.takeWhile_cons_of_neg (by simp [hc]),
      List.append_nil, List.takeWhile_eq_self_iff.2 (isdigit_formatNat n)]
  rw [digits, htake]
  exact digits_formatNat n

/-- A receiver is started with its host's prefix, and takes the first number of it. -/
theorem netIdentityOf_slash8 {k : ℕ} (hk : k < 256) :
    netIdentityOf (formatNat k ++ chars ".0.0.0/8") = UInt32.ofNat k := by
  have hchars : chars ".0.0.0/8" = 46 :: chars "0.0.0/8" := by decide +kernel
  have hdigits := digits_formatNat_append k (c := 46) (by decide) (chars "0.0.0/8")
  obtain ⟨c, s, hcs, hc⟩ := formatNat_cons k
  rw [netIdentityOf, hchars]
  rw [hcs, List.cons_append] at hdigits ⊢
  rw [strtol_of_isdigit hc, hdigits, min_eq_right (by omega), intOfLong,
    toInt_toUInt (by omega) (by omega), ← UInt32.toNat_inj, UInt32.toNat_ofNat']
  have := toNat_toUInt (show (0 : ℤ) ≤ k by omega) (by omega)
  omega

theorem getNetIdentity_eq_iff {k : ℕ} (hk : k < 256) (ip : UInt32) :
    getNetIdentity ip = UInt32.ofNat k ↔ ip.toNat / 2 ^ 24 = k := by
  have hshift : (ip >>> 24).toNat = ip.toNat / 2 ^ 24 := by
    rw [UInt32.toNat_shiftRight]
    exact Nat.shiftRight_eq_div_pow _ _
  rw [getNetIdentity, ← UInt32.toNat_inj, hshift, UInt32.toNat_ofNat', Nat.mod_eq_of_lt (by omega)]

/-- A receiver does not report what its own net has sent. -/
theorem HasGenerated.gotPacket_own (h : HasGenerated pPacket seqid packetBuf) :
    CMTestbed.gotPacket (getNetIdentity pPacket.srcip) packetBuf = none := by
  have hether : getEthernetHeaderLen packetBuf = some 18 := by
    rw [getEthernetHeaderLen, h.u16_type.1]
    rfl
  have hhl : packetBuf.u8 18 = some 0x45 := h 18 (by omega) (by omega) (by omega)
  have hproto : packetBuf.u8 27 = some 0x06 := h 27 (by omega) (by omega) (by omega)
  have hoff : packetBuf.u8 50 = some 0x50 := h 50 (by omega) (by omega) (by omega)
  have hsize : (0x45 : UInt8).toNat % 16 * 4 = 20 := rfl
  simp only [CMTestbed.gotPacket, hether, hhl, Option.bind_eq_bind, Option.bind_some, hsize,
    Nat.reduceAdd,
    hproto, hoff, h.headersAt]
  rfl

theorem GenerateRulesIntoTables.Deployed.own_net_iff (h : t.Deployed) (hu : u ∈ t.hosts)
    (ip : UInt32) :
    getNetIdentity ip = netIdentityOf ((t.hostIpprefixMap.lookup u).getD [])
      ↔ t.ownsIp u ip = true := by
  obtain ⟨n, h₁, hn, rfl, hl⟩ := h.host u hu
  rw [hl, Option.getD_some, netIdentityOf_slash8 (by omega), getNetIdentity_eq_iff (by omega),
    h.ownsIp_iff hu, numberOf_hostName, InRangeOf]

/-- The hosts on the way of a packet are its own and the one that it goes to. -/
theorem GenerateRulesIntoTables.Deployed.hosts_on_way (h : t.Deployed) (hu : u ∈ t.hosts)
    (hv : v ∈ t.hosts) (hne : u ≠ v)
    {way : List Name} (hway : h.links.ShortestPath u v (u :: way)) :
    (u :: way).filter (· ∈ t.hosts) = [u, v] := by
  obtain ⟨inner, rfl⟩ : ∃ inner, way = inner ++ [v] := by
    have hlast := hway.last
    rcases way.eq_nil_or_concat with rfl | ⟨inner, w, rfl⟩
    · exact absurd (Option.some.inj hlast) hne
    · rw [List.concat_eq_append, ← List.cons_append, List.getLast?_concat,
        Option.some.injEq] at hlast
      exact ⟨inner, by rw [hlast, List.concat_eq_append]⟩
  have hinner : inner.filter (· ∈ t.hosts) = [] := by
    refine List.filter_eq_nil_iff.2 fun n hn => ?_
    have hnodup := hway.nodup
    rw [List.nodup_cons, List.nodup_append] at hnodup
    have hnv := hnodup.2.2.2 n hn v (List.mem_singleton_self v)
    have hsw := h.switch_of_mem_path hv hway n (List.mem_append_left _ hn) hnv
    rw [decide_eq_true_iff]
    intro hhost
    have := ((h.mem_hosts n).1 hhost).2
    rw [((h.mem_switches n).1 hsw).2] at this
    cases this
  rw [List.filter_cons_of_pos (by simpa using hu), List.filter_append, hinner,
    List.filter_cons_of_pos (by simpa using hv), List.filter_nil, List.nil_append]

/-! ### Counting -/

theorem Receivers.handle_of_silent {netIdentity : UInt32}
    (h : gotPacket netIdentity packetBuf = none) (host : Name) (pad : Recv2SendProto.Padding) :
    receivers.handle netIdentity host packetBuf pad
      = some { receivers with received := countPacket receivers.received host } := by
  by_cases hgoing : receivers.received host < pcapLoopCnt
  · rw [handle, if_pos hgoing, receive, h]
    rfl
  · rw [handle, if_neg hgoing, countPacket, if_neg hgoing]

theorem Receivers.received_handle {netIdentity : UInt32} {host : Name}
    {pad : Recv2SendProto.Padding}
    (h : receivers.handle netIdentity host packetBuf pad = some receivers') :
    receivers'.received = countPacket receivers.received host := by
  by_cases hgoing : receivers.received host < pcapLoopCnt
  · rw [handle, if_pos hgoing] at h
    obtain ⟨fifos, -, hfifos⟩ := Option.bind_eq_some_iff.1 h
    cases hfifos
    rfl
  · rw [handle, if_neg hgoing, Option.some.injEq] at h
    rw [countPacket, if_neg hgoing, h]

/-- Each receiver on the way counts the packet, whatever it is. -/
theorem received_receiveAt {nodes : List Name}
    (h : t.receiveAt nodes packetBuf padding receivers = some receivers') :
    receivers'.received = (nodes.filter (· ∈ t.hosts)).foldl countPacket receivers.received := by
  rw [receiveAt] at h
  generalize nodes.filter (· ∈ t.hosts) = hosts at h ⊢
  induction hosts generalizing receivers with
  | nil =>
    cases h
    rfl
  | cons host hosts ih =>
    rw [List.foldlM_cons] at h
    obtain ⟨next, hnext, hrest⟩ := Option.bind_eq_some_iff.1 h
    rw [ih hrest, Receivers.received_handle hnext, List.foldl_cons]

theorem countPacket_of_ne {received : Name → ℕ} {host w : Name} (h : w ≠ host) :
    countPacket received host w = received w := by
  rw [countPacket]
  split_ifs
  · exact Function.update_of_ne h _ _
  · rfl

theorem countPacket_self_le (received : Name → ℕ) (host : Name) :
    countPacket received host host ≤ received host + 1 := by
  rw [countPacket]
  split_ifs
  · exact (Function.update_self host _ received).le
  · exact Nat.le_succ _

theorem foldl_countPacket_le (hosts : List Name) (received : Name → ℕ) (w : Name) :
    hosts.foldl countPacket received w ≤ received w + hosts.count w := by
  induction hosts generalizing received with
  | nil => exact le_rfl
  | cons host hosts ih =>
    rw [List.foldl_cons]
    refine (ih _).trans ?_
    by_cases h : w = host
    · subst h
      have := countPacket_self_le received w
      rw [List.count_cons_self]
      omega
    · rw [countPacket_of_ne h, List.count_cons_of_ne (Ne.symm h)]

/-! ### Reporting -/

/-- A packet comes to the receiver of its own host and to that of the host that it goes to. -/
theorem hosts_of_generated (h : t.Deployed) (htype : installRuleType ≠ ONLY_ECMP_PATH_RULE)
    (ht : t.installForwardingRule installRuleType = .ok table) (hu : u ∈ t.hosts)
    (hc : Carries t u pPacket seqid packetBuf) (hp : packetBuf.header = some p)
    (hrs : t.Sent table p u t.turns rs) :
    ∃ v ∈ t.hosts, v ≠ u ∧ t.ownsIp v p.nwDst = true
      ∧ (u :: rs.map Located.entity).filter (· ∈ t.hosts) = [u, v] := by
  obtain ⟨-, v, hv, hvu, hdst⟩ := hc.between
  obtain rfl : (⟨0x0800, 6, pPacket.srcip, pPacket.dstip⟩ : Header) = p :=
    Option.some.inj (hc.generated.header.symm.trans hp)
  have hway := (sent_normal h.toWellFormed h.paired h.apart htype ht
    (normalPacket_of_generated hv hdst) hu hvu.symm
    (hops_le_turns h.toConnected ((h.mem_hosts u).1 hu).1 ((h.mem_hosts v).1 hv).1)).2 rs hrs
  exact ⟨v, hv, hvu, hdst, h.hosts_on_way hu hv hvu.symm hway⟩

/-- The receiver that a packet comes to reports it to the host that it comes from, if it has not
ended, and no other one reports it. -/
theorem receiveAt_generated (h : t.Deployed) (hfew : ∀ u ∈ t.hosts, numberOf u ≤ 12)
    (hu : u ∈ t.hosts) (hc : Carries t u pPacket seqid packetBuf) (hp : packetBuf.header = some p)
    (hv : v ∈ t.hosts) (hvu : v ≠ u) (hdst : t.ownsIp v p.nwDst = true) {nodes : List Name}
    (hnodes : nodes.filter (· ∈ t.hosts) = [u, v]) (padding : Name → Recv2SendProto.Padding)
    (receivers : Receivers) :
    ∃ received, t.receiveAt nodes packetBuf padding receivers
      = some ⟨if receivers.received v < pcapLoopCnt then
          Function.update receivers.fifos (senderGetFifoFname u)
            (writeConditionToFIFO (receivers.fifos (senderGetFifoFname u)) ⟨pPacket.flow, seqid⟩
              (padding v))
        else receivers.fifos, received⟩ := by
  obtain ⟨hsrc, -⟩ := hc.between
  obtain rfl : (⟨0x0800, 6, pPacket.srcip, pPacket.dstip⟩ : Header) = p :=
    Option.some.inj (hc.generated.header.symm.trans hp)
  have hown : gotPacket (netIdentityOf ((t.hostIpprefixMap.lookup u).getD [])) packetBuf
      = none := by
    rw [← (h.own_net_iff hu pPacket.srcip).2 hsrc]
    exact hc.generated.gotPacket_own
  have hgot : gotPacket (netIdentityOf ((t.hostIpprefixMap.lookup v).getD [])) packetBuf
      = some (pPacket.flow, seqid) :=
    hc.generated.gotPacket fun heq => hvu (h.apart v hv u hu _ ((h.own_net_iff hv _).1 heq) hsrc)
  have hnumber := h.host_number hu
  have hhandler : getSenderFifoHandler pPacket.flow.srcip = some (senderGetFifoFname u) := by
    rw [hnumber.2.2, senderGetFifoFname_hostName]
    exact getSenderFifoHandler_inRangeOf hnumber.1 (hfew u hu) ((h.ownsIp_iff hu).1 hsrc)
  have hsame : countPacket receivers.received u v = receivers.received v := countPacket_of_ne hvu
  rw [receiveAt, hnodes, List.foldlM_cons, Receivers.handle_of_silent hown]
  simp only [List.foldlM_cons, List.foldlM_nil, Option.bind_eq_bind, Option.bind_some,
    Receivers.handle, hsame]
  split_ifs
  · simp only [receive, hgot, hhandler, Option.bind_eq_bind, Option.bind_some, Option.pure_def]
    exact ⟨_, rfl⟩
  · exact ⟨_, rfl⟩

/-- No receiver reports a condition packet. -/
theorem receiveAt_condition (stack : Unassigned) (condition : Condition) (nodes : List Name)
    (padding : Name → Recv2SendProto.Padding) (receivers : Receivers) :
    ∃ received, t.receiveAt nodes (sendUdpConditionPkt stack condition) padding receivers
      = some { receivers with received := received } := by
  rw [receiveAt]
  induction nodes.filter (· ∈ t.hosts) generalizing receivers with
  | nil => exact ⟨_, rfl⟩
  | cons host hosts ih =>
    rw [List.foldlM_cons, Receivers.handle_of_silent (gotPacket_sendUdpConditionPkt _ _ _)]
    exact ih _

end Receive

end CMTestbed
