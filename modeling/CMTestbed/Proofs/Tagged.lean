import CMTestbed.Proofs.Deployed
import CMTestbed.Proofs.Generate

/-!
# What a packet is tagged with, and where it goes

A sender writes the monitors of a packet's task into its tag, and the rules of the switches do not
read the tag.  Still the switches that the tag of a first query's packet names are those that the
packet goes over (`query1_tag_names_way`), and it goes over exactly one of those that the tag of a
third query's packet names (`query3_tag_names_one`).
-/

namespace CMTestbed

open Lib

/-! ## The tag -/

/-- The other bits of the tag do not change which switches it names. -/
theorem names_or_iff {switchides : List ℤ} (h : ∀ id ∈ switchides, InRange id) {rest : UInt16}
    (hrest : rest &&& otherBits = rest) (id : ℤ) :
    Names (switchBits switchides ||| rest) id ↔ id ∈ switchides := by
  have hother : ∀ {id}, InRange id → rest &&& switchBit id = 0 := by
    intro id hid
    rw [← hrest, UInt16.and_assoc, UInt16.and_comm otherBits, switchBit_and_otherBits hid,
      UInt16.and_zero]
  constructor
  · rintro ⟨hid, bit, hbit, hne⟩
    obtain rfl : switchBit id = bit :=
      Option.some.inj ((tagVlanForSwitchI_of_inRange hid).symm.trans hbit)
    rw [or_and_distrib, hother hid, UInt16.or_zero] at hne
    exact (switchBits_and_switchBit hid h).1 hne
  · intro hmem
    have hid := h id hmem
    refine ⟨hid, _, tagVlanForSwitchI_of_inRange hid, ?_⟩
    rw [or_and_distrib, hother hid, UInt16.or_zero]
    exact (switchBits_and_switchBit hid h).2 hmem

namespace PacketTags

variable {tags : PacketTags} {packetBuf : Frame}

/-- The calls, in their order. -/
def calls (tags : PacketTags) : List Tagging :=
  .forSwitches :: ((if tags.sampled then [.asSampled] else [])
    ++ if tags.selectedLevel.isSome then [.withLevel] else [])

/-- A task with these monitors. -/
def task (tags : PacketTags) : TaskS := ⟨0, 0, 0, tags.monitorSwitchIds⟩

theorem apply_eq_applyAll (hne : tags.monitorSwitchIds ≠ []) (datalink : ℤ) :
    tags.apply packetBuf datalink
      = Tagging.applyAll tags.task (tags.selectedLevel.getD 0) datalink packetBuf tags.calls := by
  obtain ⟨ids, sampled, level⟩ := tags
  rw [apply, if_neg hne]
  cases sampled <;> cases level <;> simp [calls, task, Tagging.applyAll, Tagging.apply]

theorem taggedFrom_applyAll {t : TaskS} {level : ℤ} {calls : List Tagging} {b b' : Frame}
    (h : TaggedFrom packetBuf b)
    (hb' : Tagging.applyAll t level dltEn10mb b calls = some b') : TaggedFrom packetBuf b' := by
  induction calls generalizing b with
  | nil =>
    cases hb'
    exact h
  | cons call calls ih =>
    rw [Tagging.applyAll, List.foldlM_cons] at hb'
    obtain ⟨b₁, hb₁, hb'⟩ := Option.bind_eq_some_iff.1 hb'
    refine ih ?_ hb'
    cases call with
    | forSwitches => exact h.switches _ hb₁
    | asSampled => exact h.sampled hb₁
    | withLevel => exact h.level _ hb₁

/-- The bits of the sampled mark and of the level. -/
def rest (tags : PacketTags) : UInt16 :=
  (if tags.sampled then tagVlanPacketSampledVal else 0)
    ||| if tags.selectedLevel.isSome then tagVlanSelectedFlowVal (tags.selectedLevel.getD 0) else 0

theorem foldl_bits_calls (tags : PacketTags) :
    tags.calls.foldl (fun v call => v ||| call.bits tags.task (tags.selectedLevel.getD 0)) 0
      = switchBits tags.monitorSwitchIds ||| tags.rest := by
  obtain ⟨ids, sampled, level⟩ := tags
  cases sampled <;> cases level <;> simp [calls, rest, task, Tagging.bits, UInt16.or_assoc]

/-- None of them is a switch's. -/
theorem rest_and_otherBits (tags : PacketTags) : tags.rest &&& otherBits = tags.rest := by
  have hlevel : ∀ level, tagVlanSelectedFlowVal level &&& otherBits
      = tagVlanSelectedFlowVal level := by
    intro level
    have hmask : selectedFlowValMask &&& otherBits = selectedFlowValMask := by decide
    rw [tagVlanSelectedFlowVal, UInt16.and_assoc, hmask]
  have hsampled : tagVlanPacketSampledVal &&& otherBits = tagVlanPacketSampledVal := by decide
  rw [rest, or_and_distrib]
  congr 1
  · split
    · exact hsampled
    · exact UInt16.zero_and
  · split
    · exact hlevel _
    · exact UInt16.zero_and

/-- A packet whose tag is still empty gets one that names its task's switches. -/
theorem apply_spec (h : ∀ id ∈ tags.monitorSwitchIds, InRange id)
    (hfield : vlanField packetBuf dltEn10mb = some (some 14))
    (hzero : packetBuf.hostU16 14 = some 0) :
    ∃ b tag, tags.apply packetBuf dltEn10mb = some b ∧ TaggedFrom packetBuf b
      ∧ b.hostU16 14 = some tag ∧ ∀ id, Names tag id ↔ id ∈ tags.monitorSwitchIds := by
  by_cases hnil : tags.monitorSwitchIds = []
  · refine ⟨packetBuf, 0, if_pos hnil, .untagged, hzero, fun id => ?_⟩
    have hbits := names_or_iff h (UInt16.zero_and : 0 &&& otherBits = 0) id
    rw [hnil] at hbits ⊢
    exact hbits
  · have hlen := Frame.lt_length_of_hostU16 hzero
    have hall : Tagging.applyAll tags.task (tags.selectedLevel.getD 0) dltEn10mb
        (packetBuf.setHostU16 14 0) tags.calls = _ := applyAll_setHostU16 h hfield hlen tags.calls 0
    rw [Frame.setHostU16_self hzero, foldl_bits_calls] at hall
    exact ⟨_, _, (apply_eq_applyAll hnil _).trans hall, taggedFrom_applyAll .untagged hall,
      Frame.hostU16_setHostU16 hlen, names_or_iff h tags.rest_and_otherBits⟩

end PacketTags

/-! ## From the sender to the receiver -/

section Frames

variable {pPacket : PacketS} {seqid : UInt32} {packetBuf : Frame}

/-- The switches see the addresses of a generated packet, whatever its tag is. -/
theorem HasGenerated.header (h : HasGenerated pPacket seqid packetBuf) :
    packetBuf.header = some ⟨0x0800, 6, pPacket.srcip, pPacket.dstip⟩ := by
  obtain ⟨hvlan, hip⟩ := h.u16_type
  obtain ⟨hsrc, hdst, hproto, -⟩ := Frame.headersAt_eq_some.1 h.headersAt
  simp only [Frame.header, hvlan, hip, if_true, Option.bind_eq_bind, Option.bind_some, hproto, hsrc,
    hdst]
  rfl

theorem hasGenerated_of_taggedFrom {buffer : Frame}
    (h : TaggedFrom (copyPacket buffer (generateOnePcapPkt pPacket seqid)) packetBuf) :
    HasGenerated pPacket seqid packetBuf := by
  intro j hj hj14 hj15
  rw [getElem?_taggedFrom h hj14 hj15, getElem?_own (by rw [length_ownBytes_generated]; omega)]
  exact List.getElem?_append_left hj

/-- In the buffer a generated packet has an empty tag. -/
theorem emptyTag_copyPacket (pPacket : PacketS) (seqid : UInt32) (buffer : Frame) :
    vlanField (copyPacket buffer (generateOnePcapPkt pPacket seqid)) dltEn10mb = some (some 14)
      ∧ (copyPacket buffer (generateOnePcapPkt pPacket seqid)).hostU16 14 = some 0 := by
  have hgen : HasGenerated pPacket seqid (copyPacket buffer (generateOnePcapPkt pPacket seqid)) :=
    hasGenerated_of_taggedFrom .untagged
  have hown : ∀ j < 58, (copyPacket buffer (generateOnePcapPkt pPacket seqid))[j]?
      = (generateOnePacket pPacket seqid)[j]? := by
    intro j hj
    rw [getElem?_own (by rw [length_ownBytes_generated]; omega)]
    exact List.getElem?_append_left hj
  constructor
  · exact vlanField_eq_some.2 ⟨0, ethertypeVlan, rfl, hgen.u16_type.1, rfl⟩
  · exact Frame.hostU16_eq_some.2 ⟨0, 0, hown 14 (by omega), hown 15 (by omega), rfl⟩

end Frames

theorem monitorSwitchIds_cmHandleIpv4Packet {setting : CmExperimentSetting} {w : DataWarehouse}
    {packetBuf : Frame} {totalPktLen : UInt32} {datalink : ℤ} {rand : ℚ} {flow : FlowS}
    {seqid : UInt32} (h : sentHeaders packetBuf totalPktLen datalink = some (flow, seqid)) :
    (cmHandleIpv4Packet setting w packetBuf totalPktLen datalink rand).2.monitorSwitchIds
      = ((getTaskOfTraffic w.taskManager flow.src).map Task.monitorSwitchIds).getD [] := by
  rw [cmHandleIpv4Packet, h]
  simp only [handleHeaders, Buffer.tagIfMonitored]
  cases getTaskOfTraffic w.taskManager flow.src <;> rfl

namespace GenerateRulesIntoTables

section EndToEnd

variable {t : GenerateRulesIntoTables} {tasks : List MonitorTask} {u v : Name}
  {pPacket : PacketS} {w : DataWarehouse} {installRuleType : ℕ} {table : List FlowRule}

/-- A packet between two hosts leaves with a tag that names the monitors of their task. -/
theorem sentPacket_spec (h : t.Deployed) (hg : Generated t tasks) (hu : u ∈ t.hosts)
    (hv : v ∈ t.hosts) (hsrc : t.ownsIp u pPacket.srcip = true)
    (hdst : t.ownsIp v pPacket.dstip = true)
    (hw : initTasksInfo (taskFile tasks) u = .ok w.taskManager) (setting : CmExperimentSetting)
    (seqid : UInt32) (buffer : Frame) (rand : ℚ) :
    ∃ b tag, sentPacket setting w (copyPacket buffer (generateOnePcapPkt pPacket seqid))
        (generateOnePcapPkt pPacket seqid).len dltEn10mb rand = some b
      ∧ b.hostU16 14 = some tag ∧ b.header = some ⟨0x0800, 6, pPacket.srcip, pPacket.dstip⟩
      ∧ ∀ id, Names tag id ↔ ∃ task ∈ tasks, task.pair = (u, v)
        ∧ ∃ node ∈ task.monitors, (numberOf node : ℤ) = id := by
  obtain ⟨hfield, hzero⟩ := emptyTag_copyPacket pPacket seqid buffer
  have hgen : HasGenerated pPacket seqid (copyPacket buffer (generateOnePcapPkt pPacket seqid)) :=
    hasGenerated_of_taggedFrom .untagged
  have hlen : ipv4HdrLen ≤ (generateOnePcapPkt pPacket seqid).len.toNat := by
    have := pPacket.len.toNat_lt
    show 20 ≤ (58 + pPacket.len.toUInt32 : UInt32).toNat
    rw [UInt32.toNat_add, UInt16.toNat_toUInt32]
    show 20 ≤ (58 + _) % _
    omega
  have hget := hg.getTaskOfTraffic h hu hv hw
    (FlowS.src ⟨pPacket.srcip, pPacket.dstip, pPacket.srcPort, pPacket.dstPort, 6⟩) hsrc hdst
  let tags := (cmHandleIpv4Packet setting w (copyPacket buffer (generateOnePcapPkt pPacket seqid))
    (generateOnePcapPkt pPacket seqid).len dltEn10mb rand).2
  have hids : ∀ id, id ∈ tags.monitorSwitchIds ↔ ∃ task ∈ tasks, task.pair = (u, v)
      ∧ ∃ node ∈ task.monitors, (numberOf node : ℤ) = id := by
    intro id
    have heq : tags.monitorSwitchIds = _ := monitorSwitchIds_cmHandleIpv4Packet
      (hgen.sentHeaders hlen)
    rw [heq, hget]
    cases hfind : tasks.find? (·.pair = (u, v)) with
    | none =>
      refine iff_of_false List.not_mem_nil ?_
      rintro ⟨task, htask, hpair, -⟩
      exact absurd (decide_eq_true hpair) (List.find?_eq_none.1 hfind task htask)
    | some task =>
      have htask := List.mem_of_find?_eq_some hfind
      have hpair : task.pair = (u, v) := by simpa using List.find?_some hfind
      have hmem : id ∈ task.monitors.map (fun node => (numberOf node : ℤ))
          ↔ ∃ node ∈ task.monitors, (numberOf node : ℤ) = id := List.mem_map
      refine hmem.trans ⟨fun hnode => ⟨task, htask, hpair, hnode⟩, ?_⟩
      rintro ⟨task', htask', hpair', hnode⟩
      rwa [List.inj_on_of_nodup_map (hg.pairs_nodup h) htask htask' (hpair.trans hpair'.symm)]
  have hrange : ∀ id ∈ tags.monitorSwitchIds, InRange id := by
    intro id hid
    obtain ⟨task, htask, -, node, hnode, rfl⟩ := (hids id).1 hid
    obtain ⟨h₁, h₁₂, -⟩ := h.switch_number ((hg.monitors task htask).mem_switches node hnode)
    exact ⟨by omega, by omega⟩
  obtain ⟨b, tag, hb, hfrom, htag, hnames⟩ := PacketTags.apply_spec hrange hfield hzero
  exact ⟨b, tag, hb, htag, (hasGenerated_of_taggedFrom hfrom).header,
    fun id => (hnames id).trans (hids id)⟩

/-- To the rules it is a normal packet to its receiver. -/
theorem normalPacket_of_generated (hv : v ∈ t.hosts) (hdst : t.ownsIp v pPacket.dstip = true) :
    NormalPacket t ⟨0x0800, 6, pPacket.srcip, pPacket.dstip⟩ v := by
  refine ⟨hv, hdst, .inl rfl, ?_⟩
  rintro src - ⟨-, hproto, -⟩
  cases hproto

/-- A packet from 10.0.0.1 to the first host of another /8. -/
def diamondPacket (net : UInt32) : PacketS := ⟨0x0a000001, net <<< 24 + 1, 80, 8080, 6, 100⟩

/-- With the rules installed, a packet from the host `u` to the host `v` leaves with a tag, and the
switches that the tag names are those that it goes over, if the first query has a task for the two;
otherwise the tag names none. -/
theorem query1_tag_names_way (h : t.Deployed) (htype : installRuleType ≠ ONLY_ECMP_PATH_RULE)
    (ht : t.installForwardingRule installRuleType = .ok table)
    (htasks : t.generateTasksForQuery1 = .ok tasks) (hu : u ∈ t.hosts) (hv : v ∈ t.hosts)
    (hsrc : t.ownsIp u pPacket.srcip = true) (hdst : t.ownsIp v pPacket.dstip = true)
    (hw : initTasksInfo (taskFile tasks) u = .ok w.taskManager) (setting : CmExperimentSetting)
    (seqid : UInt32) (buffer : Frame) (rand : ℚ) :
    ∃ b tag p, sentPacket setting w (copyPacket buffer (generateOnePcapPkt pPacket seqid))
        (generateOnePcapPkt pPacket seqid).len dltEn10mb rand = some b
      ∧ b.hostU16 14 = some tag ∧ b.header = some p
      ∧ ((∀ task ∈ tasks, task.pair ≠ (u, v)) → ∀ id, ¬ Names tag id)
      ∧ ((∃ task ∈ tasks, task.pair = (u, v)) → ∀ n, h.links.hops u v ≤ n → ∀ rs,
        t.Sent table p u n rs → ∀ id, Names tag id ↔
          ∃ s ∈ rs.map Located.entity, s ∈ t.switches ∧ (numberOf s : ℤ) = id) := by
  have hg := query1Tasks_generated h htasks
  obtain ⟨b, tag, hb, htag, hheader, hnames⟩ :=
    sentPacket_spec h hg hu hv hsrc hdst hw setting seqid buffer rand
  refine ⟨b, tag, _, hb, htag, hheader, ?_, ?_⟩
  · intro hno id hid
    obtain ⟨task, htask, hpair, -⟩ := (hnames id).1 hid
    exact hno task htask hpair
  · rintro ⟨task, htask, hpair⟩ n hn rs hrs id
    obtain ⟨rfl, rfl⟩ := Prod.mk.inj hpair
    have hway := way_query1 h.toWellFormed h.paired h.apart htype ht htasks htask
      (normalPacket_of_generated hv hdst) hn hrs
    have hmon := (hg.monitors task htask).mem_switches
    have hdst' : task.dst ∉ t.switches := by
      intro hs
      have hhost := ((h.mem_hosts _).1 hv).2
      rw [((h.mem_switches _).1 hs).2] at hhost
      cases hhost
    rw [hnames, hway]
    constructor
    · rintro ⟨task', htask', hpair', node, hnode, hid⟩
      rw [List.inj_on_of_nodup_map (hg.pairs_nodup h) htask' htask hpair'] at hnode
      exact ⟨node, List.mem_append_left _ hnode, hmon node hnode, hid⟩
    · rintro ⟨s, hs, hsw, hid⟩
      refine ⟨task, htask, rfl, s, ?_, hid⟩
      rcases List.mem_append.1 hs with hs | hs
      · exact hs
      · rw [List.mem_singleton.1 hs] at hsw
        exact absurd hsw hdst'

theorem query1_tag_names_way_diamond : ∃ table w b tag p,
    diamond.installForwardingRule BOTH_SINGLE_AND_ECMP_PATH_RULE = .ok table
      ∧ sentPacket exampleSetting w (copyPacket [] (generateOnePcapPkt (diamondPacket 13) 7))
        (generateOnePcapPkt (diamondPacket 13) 7).len dltEn10mb 0 = some b
      ∧ b.hostU16 14 = some tag ∧ b.header = some p
      ∧ ∀ n, diamond_deployed.links.hops (chars "h1") (chars "h4") ≤ n → ∀ rs,
        diamond.Sent table p (chars "h1") n rs → ∀ id, Names tag id ↔
          ∃ s ∈ rs.map Located.entity, s ∈ diamond.switches ∧ (numberOf s : ℤ) = id := by
  obtain ⟨table, ht⟩ := diamond_installed
  obtain ⟨tasks, -, htasks, -, htask, -⟩ := diamond_tasks
  have hu : chars "h1" ∈ diamond.hosts := by simp [hosts_diamond]
  have hv : chars "h4" ∈ diamond.hosts := by simp [hosts_diamond]
  have hsrc : diamond.ownsIp (chars "h1") (diamondPacket 13).srcip = true := diamond_owns.1
  have hdst : diamond.ownsIp (chars "h4") (diamondPacket 13).dstip = true := diamond_owns.2.2
  have hstored := (query1Tasks_generated diamond_deployed htasks).initTasksInfo_eq diamond_deployed
    hu
  obtain ⟨b, tag, p, hb, htag, hp, -, hway⟩ := query1_tag_names_way diamond_deployed (by decide) ht
    htasks hu hv hsrc hdst (w := dataWarehouseInit exampleSetting _) hstored exampleSetting 7
    [] 0
  exact ⟨table, _, b, tag, p, ht, hb, htag, hp, hway ⟨_, htask, rfl⟩⟩

/-- If the third query has a task for the two hosts, the packet goes over exactly one of the
switches that its tag names, whatever the bundles pick. -/
theorem query3_tag_names_one (h : t.Deployed) (htype : installRuleType ≠ ONLY_ECMP_PATH_RULE)
    (ht : t.installForwardingRule installRuleType = .ok table)
    (htasks : t.generateTasksForQuery3 = .ok tasks) (hu : u ∈ t.hosts) (hv : v ∈ t.hosts)
    (hsrc : t.ownsIp u pPacket.srcip = true) (hdst : t.ownsIp v pPacket.dstip = true)
    (hw : initTasksInfo (taskFile tasks) u = .ok w.taskManager) (setting : CmExperimentSetting)
    (seqid : UInt32) (buffer : Frame) (rand : ℚ) :
    ∃ b tag p, sentPacket setting w (copyPacket buffer (generateOnePcapPkt pPacket seqid))
        (generateOnePcapPkt pPacket seqid).len dltEn10mb rand = some b
      ∧ b.hostU16 14 = some tag ∧ b.header = some p
      ∧ ((∀ task ∈ tasks, task.pair ≠ (u, v)) → ∀ id, ¬ Names tag id)
      ∧ ((∃ task ∈ tasks, task.pair = (u, v)) → ∀ n, h.links.hops u v ≤ n → ∀ rs,
        t.Sent table p u n rs → ∃ m, m ∈ t.switches ∧ (rs.map Located.entity).count m = 1
          ∧ Names tag (numberOf m) ∧ ∀ s ∈ rs.map Located.entity, s ∈ t.switches →
            Names tag (numberOf s) → s = m) := by
  have hg := query3Tasks_generated h htasks
  obtain ⟨b, tag, hb, htag, hheader, hnames⟩ :=
    sentPacket_spec h hg hu hv hsrc hdst hw setting seqid buffer rand
  refine ⟨b, tag, _, hb, htag, hheader, ?_, ?_⟩
  · intro hno id hid
    obtain ⟨task, htask, hpair, -⟩ := (hnames id).1 hid
    exact hno task htask hpair
  · rintro ⟨task, htask, hpair⟩ n hn rs hrs
    obtain ⟨rfl, rfl⟩ := Prod.mk.inj hpair
    obtain ⟨m, hm⟩ := way_query3 h.toWellFormed h.paired h.apart htype ht htasks htask
      (normalPacket_of_generated hv hdst) hn hrs
    have hmon := (hg.monitors task htask).mem_switches
    obtain ⟨hmem, hmm⟩ := List.mem_filter.1 (hm ▸ List.mem_singleton_self m)
    rw [decide_eq_true_iff] at hmm
    refine ⟨m, hmon m hmm, ?_, (hnames _).2 ⟨task, htask, rfl, m, hmm, rfl⟩, ?_⟩
    · have hcount : ((rs.map Located.entity).filter (· ∈ task.monitors)).count m
          = (rs.map Located.entity).count m := List.count_filter (decide_eq_true hmm)
      rw [hm, List.count_singleton_self] at hcount
      exact hcount.symm
    · intro s hs hsw hid
      obtain ⟨task', htask', hpair', node, hnode, hid⟩ := (hnames _).1 hid
      rw [List.inj_on_of_nodup_map (hg.pairs_nodup h) htask' htask hpair'] at hnode
      have hnode' : node = s := by
        rw [(h.switch_number (hmon node hnode)).2.2, Int.natCast_inj.1 hid,
          ← (h.switch_number hsw).2.2]
      have hsm : s ∈ (rs.map Located.entity).filter (· ∈ task.monitors) :=
        List.mem_filter.2 ⟨hs, decide_eq_true (hnode' ▸ hnode)⟩
      rw [hm] at hsm
      exact List.mem_singleton.1 hsm

theorem query3_tag_names_one_diamond : ∃ table w b tag p,
    diamond.installForwardingRule BOTH_SINGLE_AND_ECMP_PATH_RULE = .ok table
      ∧ sentPacket exampleSetting w (copyPacket [] (generateOnePcapPkt (diamondPacket 11) 7))
        (generateOnePcapPkt (diamondPacket 11) 7).len dltEn10mb 0 = some b
      ∧ b.hostU16 14 = some tag ∧ b.header = some p
      ∧ ∀ n, diamond_deployed.links.hops (chars "h1") (chars "h2") ≤ n → ∀ rs,
        diamond.Sent table p (chars "h1") n rs → ∃ m, m ∈ diamond.switches
          ∧ (rs.map Located.entity).count m = 1 ∧ Names tag (numberOf m) := by
  obtain ⟨table, ht⟩ := diamond_installed
  obtain ⟨-, tasks, -, htasks, -, htask⟩ := diamond_tasks
  have hu : chars "h1" ∈ diamond.hosts := by simp [hosts_diamond]
  have hv : chars "h2" ∈ diamond.hosts := by simp [hosts_diamond]
  have hsrc : diamond.ownsIp (chars "h1") (diamondPacket 11).srcip = true := diamond_owns.1
  have hdst : diamond.ownsIp (chars "h2") (diamondPacket 11).dstip = true := diamond_owns.2.1
  have hstored := (query3Tasks_generated diamond_deployed htasks).initTasksInfo_eq diamond_deployed
    hu
  obtain ⟨b, tag, p, hb, htag, hp, -, hway⟩ := query3_tag_names_one diamond_deployed (by decide) ht
    htasks hu hv hsrc hdst (w := dataWarehouseInit exampleSetting _) hstored exampleSetting 7
    [] 0
  refine ⟨table, _, b, tag, p, ht, hb, htag, hp, fun n hn rs hrs => ?_⟩
  obtain ⟨m, hm, hcount, hnames, -⟩ := hway ⟨_, htask, rfl⟩ n hn rs hrs
  exact ⟨m, hm, hcount, hnames⟩

end EndToEnd

/-! ## Any topology -/

section Ways

variable {t : GenerateRulesIntoTables} {installRuleType : ℕ} {table : List FlowRule} {p : Header}
  {src d : Name} {ids : Dict Name ℕ} {lines : List (List UInt8)}

/-- In every topology that is read from a file, with the rules of a single path or of all of them, a
packet to a host takes one shortest path to it, and goes nowhere else. -/
theorem normal_packet_way (hread : readTopo ids lines = .ok t) (h : t.WellFormed)
    (hapart : t.Apart) (htype : installRuleType ≠ ONLY_ECMP_PATH_RULE)
    (ht : t.installForwardingRule installRuleType = .ok table) (hp : NormalPacket t p d)
    (hsrc : src ∈ t.hosts) (hne : src ≠ d) {n : ℕ} (hn : h.links.hops src d ≤ n) :
    (∃ rs, t.Sent table p src n rs) ∧ ∀ rs, t.Sent table p src n rs →
      h.links.ShortestPath src d (src :: rs.map Located.entity) :=
  sent_normal h (readTopo_paired hread) hapart htype ht hp hsrc hne hn

/-- The packet may be one that asks for the address of the host. -/
theorem normal_packet_way_diamond : ∃ table,
    diamond.installForwardingRule BOTH_SINGLE_AND_ECMP_PATH_RULE = .ok table
      ∧ ∀ n, diamond_deployed.links.hops (chars "h1") (chars "h2") ≤ n →
        ∃ rs, diamond.Sent table ⟨0x0806, 1, 0x0a000001, 0x0b000001⟩ (chars "h1") n rs
          ∧ diamond_deployed.links.ShortestPath (chars "h1") (chars "h2")
            (chars "h1" :: rs.map Located.entity) := by
  obtain ⟨table, ht⟩ := diamond_installed
  obtain ⟨_, _, hread⟩ := diamond_read
  have hp : NormalPacket diamond ⟨0x0806, 1, 0x0a000001, 0x0b000001⟩ (chars "h2") := by
    refine ⟨by simp [hosts_diamond], diamond_owns.2.1, .inr rfl, ?_⟩
    rintro src - ⟨hdl, -⟩
    cases hdl
  refine ⟨table, ht, fun n hn => ?_⟩
  obtain ⟨⟨rs, hrs⟩, hall⟩ := normal_packet_way hread diamond_deployed.toWellFormed
    diamond_deployed.apart (by decide) ht hp (by simp [hosts_diamond] : chars "h1" ∈ diamond.hosts)
    diamond_names.1 hn
  exact ⟨rs, hrs, hall rs hrs⟩

/-- Over the same rules a condition packet of a host comes to every other node once, and never back
to the host. -/
theorem condition_packet_way (hread : readTopo ids lines = .ok t) (h : t.WellFormed)
    (hapart : t.Apart) (ht : t.installForwardingRule installRuleType = .ok table)
    (hsrc : src ∈ t.hosts)
    (hp : t.isConditionOf p src) (n : ℕ) : (∃ rs, t.Sent table p src n rs) ∧
      ∀ rs, t.Sent table p src n rs → src ∉ rs.map Located.entity ∧
        ∀ v ∈ t.graph, v ≠ src → h.links.hops src v ≤ n →
          (rs.map Located.entity).count v = 1 :=
  sent_condition h (readTopo_paired hread) hapart ht hsrc hp n

/-- Also if it goes to a host that the other rules know a way to. -/
theorem condition_packet_way_diamond : ∃ table,
    diamond.installForwardingRule BOTH_SINGLE_AND_ECMP_PATH_RULE = .ok table
      ∧ ∀ n, ∃ rs, diamond.Sent table ⟨0x0800, 17, 0x0a000001, 0x0b000001⟩ (chars "h1") n rs
        ∧ ∀ v ∈ diamond.graph, v ≠ chars "h1" → diamond_deployed.links.hops (chars "h1") v ≤ n →
          (rs.map Located.entity).count v = 1 := by
  obtain ⟨table, ht⟩ := diamond_installed
  obtain ⟨_, _, hread⟩ := diamond_read
  refine ⟨table, ht, fun n => ?_⟩
  obtain ⟨⟨rs, hrs⟩, hall⟩ := condition_packet_way (p := ⟨0x0800, 17, 0x0a000001, 0x0b000001⟩) hread
    diamond_deployed.toWellFormed diamond_deployed.apart ht
    (by simp [hosts_diamond] : chars "h1" ∈ diamond.hosts) ⟨rfl, rfl, diamond_owns.1⟩ n
  exact ⟨rs, hrs, (hall rs hrs).2⟩

end Ways

end GenerateRulesIntoTables

end CMTestbed
