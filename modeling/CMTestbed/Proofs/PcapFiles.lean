import CMTestbed.PcapFiles
import CMTestbed.Proofs.Mapping
import CMTestbed.Proofs.Savefile
import CMTestbed.Proofs.SeqIds
import CMTestbed.Proofs.Testbed

/-!
# The generator's files can be replayed

What a sender gets out of its file are the packets that were written for its node
(`replayedPackets_dumped`), with seqids that increase for each source (`increasing_numbered`), and
they go from its host to other hosts (`outgoing_of_betweenNodes`).  So the testbed can be set up
with the files of any trace that fits (`trace_ready`).
-/

namespace CMTestbed

open Lib GenerateRulesIntoTables Testbed

/-! ## Writing -/

/-- The packets of the calls with their nodes and seqids, after other calls. -/
def numbered : List PacketCall → List (UInt32 × PacketCall) → List (UInt32 × PacketS × UInt32)
  | _, [] => []
  | before, (nodeIdx, call) :: calls =>
    (nodeIdx, call.pPacket, seqidAfter (countKey before call.flow))
      :: numbered (before ++ [call]) calls

/-- What is in the file of a node. -/
def recordsFor (nodeIdx : UInt32) (calls : List (UInt32 × PacketCall)) : List (PacketS × UInt32) :=
  ((numbered [] calls).filter (·.1 = nodeIdx)).map Prod.snd

/-- A packet as it is written. -/
def dumped (r : PacketS × UInt32) : PcapPkthdr × Frame :=
  let packet := generateOnePcapPkt r.1 r.2
  (packet.pcapHeader, packet.pktdata)

/-- The table holds the counters after these calls. -/
def Counts (hashtable : HtKf) (before : List PacketCall) : Prop :=
  ∀ key, hashtable.get key
    = if countKey before key = 0 then none else some (seqidAfter (countKey before key - 1))

theorem counts_getSeqidOfFlow {hashtable : HtKf} {before : List PacketCall}
    (h : Counts hashtable before) (call : PacketCall) :
    (getSeqidOfFlow hashtable call.flow).2 = seqidAfter (countKey before call.flow)
      ∧ Counts (getSeqidOfFlow hashtable call.flow).1 (before ++ [call]) := by
  have hseqid := seqid_getSeqidOfFlow (h call.flow)
  refine ⟨hseqid, fun key => ?_⟩
  rw [get_getSeqidOfFlow, countKey_append]
  by_cases hkey : key.rank = call.flow.rank
  · rw [if_pos hkey, if_pos hkey, if_neg (Nat.succ_ne_zero _), hseqid, countKey_congr hkey,
      Nat.add_sub_cancel]
  · rw [if_neg hkey, if_neg hkey, add_zero]
    exact h key

theorem pdumper_generatePcapPkts {w : PcapWriter} {before : List PacketCall}
    {calls : List (UInt32 × PacketCall)} (h : Counts w.flowSeqidHashmap before)
    (hnodes : ∀ call ∈ calls, call.1 < numSenders) : ∃ w', w.generatePcapPkts calls = some w'
      ∧ ∀ i, w'.pdumper i = w.pdumper i
        ++ (((numbered before calls).filter (·.1 = i)).map fun r => dumped r.2).flatMap
          (dumpOf .little) := by
  induction calls generalizing w before with
  | nil => exact ⟨w, rfl, fun i => (List.append_nil _).symm⟩
  | cons call calls ih =>
    obtain ⟨nodeIdx, call⟩ := call
    obtain ⟨hnode, hnodes⟩ := List.forall_mem_cons.1 hnodes
    obtain ⟨hseqid, hcounts⟩ := counts_getSeqidOfFlow h call
    obtain ⟨w₁, hw₁, hmap, hpdumper⟩ : ∃ w₁, w.generateOnePcapPkt nodeIdx call = some w₁
        ∧ w₁.flowSeqidHashmap = (getSeqidOfFlow w.flowSeqidHashmap call.flow).1
        ∧ w₁.pdumper = Function.update w.pdumper nodeIdx (w.pdumper nodeIdx
          ++ dumpOf .little (dumped (call.pPacket, seqidAfter (countKey before call.flow)))) := by
      rw [← hseqid]
      exact ⟨_, if_pos hnode, rfl, rfl⟩
    obtain ⟨w', hw', hfiles⟩ := ih (hmap ▸ hcounts) hnodes
    refine ⟨w', ?_, fun i => ?_⟩
    · rw [PcapWriter.generatePcapPkts, List.foldlM_cons, hw₁]
      exact hw'
    · rw [hfiles, hpdumper, numbered]
      by_cases hi : nodeIdx = i
      · subst hi
        simp
      · rw [Function.update_of_ne (Ne.symm hi), List.filter_cons_of_neg (by simpa using hi)]

theorem exists_generatePcapPkts {calls : List (UInt32 × PacketCall)}
    (hnodes : ∀ call ∈ calls, call.1 < numSenders) : ∃ w header,
      (PcapWriter.initWritePktsToFiles.bind fun w => w.generatePcapPkts calls) = some w
        ∧ pcapDumpOpen .little pcapTstampPrecisionMicro dltEn10mb 65535 = some header
        ∧ ∀ i, w.pdumper i = header ++ ((recordsFor i calls).map dumped).flatMap
          (dumpOf .little) := by
  obtain ⟨header, hheader⟩ : ∃ header, pcapDumpOpen .little pcapTstampPrecisionMicro dltEn10mb 65535
      = some header := ⟨_, rfl⟩
  have hcounts : Counts htKfCreate [] := fun key => Lib.Table.get_create key
  obtain ⟨w, hw, hfiles⟩ := pdumper_generatePcapPkts
    (w := ⟨htKfCreate, fun _ => header⟩) hcounts hnodes
  refine ⟨w, header, ?_, hheader, fun i => ?_⟩
  · rw [PcapWriter.initWritePktsToFiles, hheader]
    exact hw
  · rw [hfiles, recordsFor, List.map_map]
    rfl

/-! ## Reading -/

theorem length_pktdata (r : PacketS × UInt32) :
    (generateOnePcapPkt r.1 r.2).pktdata.length = 58 := rfl

/-- All that was written into a file is read, and then comes its end. -/
theorem replayedPackets_dumped {header : Frame}
    (hheader : pcapDumpOpen .little pcapTstampPrecisionMicro dltEn10mb 65535 = some header)
    (records : List (PacketS × UInt32)) :
    replayedPackets (header ++ (records.map dumped).flatMap (dumpOf .little))
      = .ok (some (records.map fun r => generateOnePcapPkt r.1 r.2, some .eof)) := by
  obtain ⟨p, hopen, hp⟩ := pcapOpenOffline_append hheader
    (.inl (rfl : pcapTstampPrecisionMicro = pcapTstampPrecisionMicro))
    ((records.map dumped).flatMap (dumpOf .little))
  have hcaplen : ∀ r : PacketS × UInt32, (dumped r).1.caplen.toNat = 58 := fun r => rfl
  have hfits : ∀ x ∈ records.map dumped, p.Fits x := by
    intro x hx
    obtain ⟨r, -, rfl⟩ := List.mem_map.1 hx
    refine ⟨(hcaplen r).trans_le (length_pktdata r).ge, (hcaplen r).trans_le ?_⟩
    exact (show 58 ≤ maximumSnaplen by decide).trans (le_max_right _ _)
  have hbufsize : p.bufsize = 65535 := by
    rw [hp.bufsize, hp.snapshot]
    decide
  have hread := nextPackets_take hp.toStandard hfits
    ((records.map dumped).flatMap (dumpOf .little)).length
  rw [List.take_length, (Reader.whole_of_length_le le_rfl).1,
    (Reader.whole_of_length_le le_rfl).2] at hread
  have hsame : ∀ r : PacketS × UInt32, (⟨(p.asRead (dumped r)).2, (p.asRead (dumped r)).1.len⟩ :
      CapturedPacket) = generateOnePcapPkt r.1 r.2 := by
    intro r
    have hplain : p.swapped = true → p.linktype ∉ pseudoHeaderDlts := fun h =>
      absurd (hp.swapped.symm.trans h) Bool.false_ne_true
    have htake : (p.asRead (dumped r)).2 = (generateOnePcapPkt r.1 r.2).pktdata := by
      rw [PcapT.asRead, PcapT.packet_of_plain hplain, hcaplen, hbufsize]
      exact List.take_of_length_le (length_pktdata r).le
    rw [htake]
    rfl
  simp only [replayedPackets, hopen, Except.map, Option.map_some, hread, List.map_map]
  congr 3
  exact List.map_congr_left fun r _ => hsame r

/-! ## The seqids of a source -/

/-- The seqid of a call is its number among those with its key. -/
theorem mem_numbered {before : List PacketCall} {calls : List (UInt32 × PacketCall)}
    {r : UInt32 × PacketS × UInt32} (h : r ∈ numbered before calls) : ∃ call ∈ calls, ∃ k,
      r = (call.1, call.2.pPacket, seqidAfter k) ∧ countKey before call.2.flow ≤ k
        ∧ k < countKey (before ++ calls.map Prod.snd) call.2.flow := by
  induction calls generalizing before with
  | nil => cases h
  | cons call calls ih =>
    have hle : ∀ key, countKey before key ≤ countKey (before ++ [call.2]) key := fun key =>
      (List.sublist_append_left _ _).countP_le
    rcases List.mem_cons.1 h with rfl | h
    · refine ⟨call, List.mem_cons_self, _, rfl, le_rfl, ?_⟩
      have hlt : countKey before call.2.flow < countKey (before ++ [call.2]) call.2.flow := by
        rw [countKey_append, if_pos rfl]
        exact Nat.lt_succ_self _
      refine hlt.trans_le (List.Sublist.countP_le ?_)
      exact (List.append_sublist_append_left _).2 (by simp)
    · obtain ⟨call', hcall', k, rfl, hk, hlt⟩ := ih h
      refine ⟨call', List.mem_cons_of_mem _ hcall', k, rfl, (hle _).trans hk, ?_⟩
      rwa [List.append_assoc, List.singleton_append] at hlt

theorem countKey_le_countP (calls : List PacketCall) (key : FlowS) :
    countKey calls key ≤ calls.countP fun c => c.pPacket.srcip = key.srcip :=
  List.countP_mono_left fun _ _ h =>
    decide_eq_true (FlowS.rank_inj.1 (of_decide_eq_true h)).1

/-- Where the stack holds the same at every call, and no source comes 2^31 times, the seqids of a
source increase. -/
theorem increasing_numbered {stack : FlowS} {before : List PacketCall}
    {calls : List (UInt32 × PacketCall)} (hstack : ∀ call ∈ calls, call.2.stack = stack)
    (hcount : ∀ srcip, countKey (before ++ calls.map Prod.snd) { stack with srcip := srcip }
      ≤ 2 ^ 31) :
    (numbered before calls).Pairwise fun r r' => r.2.1.srcip = r'.2.1.srcip → r.2.2 < r'.2.2 := by
  induction calls generalizing before with
  | nil => exact List.Pairwise.nil
  | cons call calls ih =>
    have hflow : ∀ c ∈ call :: calls, c.2.flow = { stack with srcip := c.2.pPacket.srcip } :=
      fun c hc => by rw [PacketCall.flow, hstack c hc]
    have hassoc : before ++ (call :: calls).map Prod.snd
        = before ++ [call.2] ++ calls.map Prod.snd := by simp
    rw [hassoc] at hcount
    refine List.pairwise_cons.2 ⟨fun r hr hsrc => ?_,
      ih (fun c hc => hstack c (List.mem_cons_of_mem _ hc)) hcount⟩
    obtain ⟨call', hcall', k, rfl, hk, hlt⟩ := mem_numbered hr
    have hsame : call'.2.flow = call.2.flow := by
      rw [hflow call' (List.mem_cons_of_mem _ hcall'), hflow call List.mem_cons_self]
      exact congrArg (fun srcip => { stack with srcip := srcip }) hsrc.symm
    have hmax := hcount call.2.pPacket.srcip
    rw [← hflow call List.mem_cons_self] at hmax
    rw [hsame, countKey_append, if_pos rfl] at hk
    rw [hsame] at hlt
    refine seqidAfter_lt.2 ?_
    rw [Nat.mod_eq_of_lt (by omega), Nat.mod_eq_of_lt (by omega)]
    omega

/-! ## The files of a trace -/

theorem inRangeOf_of_getSenderIdx {ip i : UInt32} (h : getSenderIdx ip = i) (hi : i < numSenders) :
    InRangeOf (i.toNat + 1) ip := by
  have hstart : (startIp >>> 24).toNat = 10 := by decide
  have hnum : numSenders.toNat = 12 := rfl
  have hprefix : (ip &&& ipMask) >>> 24 = i + startIp >>> 24 := by
    rw [← h, getSenderIdx, UInt32.sub_add_cancel]
  have hnat := congrArg UInt32.toNat hprefix
  rw [UInt32.lt_iff_toNat_lt, hnum] at hi
  rw [UInt32.toNat_add, hstart, toNat_prefix] at hnat
  rw [InRangeOf]
  omega

/-- A packet between nodes goes from the host with the node's name to another one. -/
theorem outgoing_of_betweenNodes {t : GenerateRulesIntoTables} (ht : t.Deployed)
    (hhosts : ∀ n, 1 ≤ n → n ≤ 12 → hostName n ∈ t.hosts) {i : UInt32} {packet : PacketS}
    (h : BetweenNodes i packet) : Outgoing t (hostName (i.toNat + 1)) packet := by
  obtain ⟨hi, hsrc, hdst, hne⟩ := h
  have hnum : numSenders.toNat = 12 := rfl
  have hin : ∀ {j : UInt32}, j < numSenders → hostName (j.toNat + 1) ∈ t.hosts := fun hj =>
    hhosts _ (Nat.succ_pos _) (hnum ▸ UInt32.lt_iff_toNat_lt.1 hj)
  have howns : ∀ {ip j : UInt32}, getSenderIdx ip = j → j < numSenders →
      t.ownsIp (hostName (j.toNat + 1)) ip = true := by
    intro ip j hidx hj
    rw [ht.ownsIp_iff (hin hj), numberOf_hostName]
    exact inRangeOf_of_getSenderIdx hidx hj
  refine ⟨howns hsrc hi, _, hin hdst, fun heq => hne ?_, howns rfl hdst⟩
  have hnat := congrArg numberOf heq
  rw [numberOf_hostName, numberOf_hostName] at hnat
  exact UInt32.toNat_inj.1 (Nat.succ_injective hnat)

/-- What a trace writes of a flow. -/
def Generator.volumeOf (g : Generator) (flow : FlowS) : ℕ :=
  ((g.written.filter fun w => w.2.flow.rank = flow.rank).map fun w => 58 + w.2.len.toNat).sum

theorem map_numbered (before : List PacketCall) (calls : List (UInt32 × PacketCall)) :
    (numbered before calls).map (fun r => (r.1, r.2.1))
      = calls.map fun call => (call.1, call.2.pPacket) := by
  induction calls generalizing before with
  | nil => rfl
  | cons call calls ih => rw [numbered, List.map_cons, List.map_cons, ih]

theorem map_calls (g : Generator) (stack : FlowS) :
    ((g.calls stack).map fun call => (call.1, call.2.pPacket)) = g.written.reverse := by
  simp [Generator.calls, Function.comp_def]

/-- In a file there are the packets of its node, in the order of the trace. -/
theorem map_recordsFor (g : Generator) (stack : FlowS) (i : UInt32) :
    (recordsFor i (g.calls stack)).map Prod.fst
      = (g.written.reverse.filter (·.1 = i)).map Prod.snd := by
  rw [← map_calls g stack, ← map_numbered [], List.filter_map, recordsFor, List.map_map,
    List.map_map]
  rfl

/-- The packets of a flow in one file are among all that are written of it. -/
theorem volume_recordsFor (g : Generator) (stack : FlowS) (i : UInt32) (flow : FlowS) :
    totalVolume (ofRank flow.rank (packetsOf (recordsFor i (g.calls stack))))
        ≤ g.volumeOf flow
      ∧ (ofRank flow.rank (packetsOf (recordsFor i (g.calls stack)))).length
        ≤ g.volumeOf flow := by
  let volume (r : UInt32 × PacketS × UInt32) : ℕ := 58 + r.2.1.len.toNat
  let ofFlow (r : UInt32 × PacketS × UInt32) : Bool := decide (r.2.1.flow.rank = flow.rank)
  have hwritten : g.written
      = ((numbered [] (g.calls stack)).map fun r => (r.1, r.2.1)).reverse := by
    rw [map_numbered, map_calls, List.reverse_reverse]
  have hall : g.volumeOf flow
      = (((numbered [] (g.calls stack)).filter ofFlow).map volume).sum := by
    rw [Generator.volumeOf, hwritten]
    simp [List.filter_reverse, List.sum_reverse, List.filter_map, Function.comp_def, ofFlow, volume]
  have hofRank : ofRank flow.rank (packetsOf (recordsFor i (g.calls stack)))
      = (((numbered [] (g.calls stack)).filter (·.1 = i)).filter ofFlow).map fun r =>
        (r.2.1.sentAs r.2.2).2 := by
    simp only [ofRank, packetsOf, recordsFor, List.map_map, List.filter_map]
    rfl
  have hsub : (((numbered [] (g.calls stack)).filter (·.1 = i)).filter ofFlow).Sublist
      ((numbered [] (g.calls stack)).filter ofFlow) := List.filter_sublist.filter _
  have hle : ∀ r : UInt32 × PacketS × UInt32, (r.2.1.sentAs r.2.2).2.volume.toNat ≤ volume r := by
    intro r
    have hlen : (generateOnePcapPkt r.2.1 r.2.2).len.toNat = 58 + r.2.1.len.toNat := by
      have := r.2.1.len.toNat_lt
      have h58 : (58 : UInt32).toNat = 58 := rfl
      rw [generateOnePcapPkt, UInt32.toNat_add, UInt16.toNat_toUInt32, h58]
      omega
    rw [PacketS.sentAs, UInt16.toNat_toUInt32, UInt32.toNat_toUInt16, hlen]
    exact Nat.mod_le _ _
  have hsum := (hsub.map volume).sum_le_sum fun _ _ => Nat.zero_le _
  rw [hofRank, hall]
  constructor
  · rw [totalVolume, List.map_map]
    exact (List.sum_le_sum fun r _ => hle r).trans hsum
  · rw [List.length_map]
    refine le_trans ?_ hsum
    rw [← List.length_map (f := volume)]
    refine List.length_le_sum_of_one_le _ fun n hn => ?_
    obtain ⟨r, -, rfl⟩ := List.mem_map.1 hn
    exact (show 1 ≤ 58 by decide).trans (Nat.le_add_right _ _)

/-- The files are such as the testbed replays. -/
theorem replayable_recordsFor {t : GenerateRulesIntoTables} (ht : t.Deployed)
    (hhosts : ∀ n, 1 ≤ n → n ≤ 12 → hostName n ∈ t.hosts) {g : Generator}
    (hbetween : ∀ w ∈ g.written, BetweenNodes w.1 w.2)
    (hcount : ∀ srcip, (g.written.countP fun w => w.2.srcip = srcip) ≤ 2 ^ 31)
    (hvolume : ∀ flow, g.volumeOf flow < 2 ^ 32) (stack : FlowS) (i : UInt32) :
    Replayable t (hostName (i.toNat + 1)) (recordsFor i (g.calls stack)) where
  outgoing := by
    intro r hr
    obtain ⟨x, hx, rfl⟩ := List.mem_map.1 hr
    obtain ⟨hx, hi⟩ := List.mem_filter.1 hx
    have hmem : (x.1, x.2.1) ∈ g.written := by
      rw [← List.mem_reverse, ← map_calls g stack, ← map_numbered []]
      exact List.mem_map_of_mem hx
    have hout := outgoing_of_betweenNodes ht hhosts (hbetween _ hmem)
    rwa [show x.1 = i from of_decide_eq_true hi] at hout
  increasing := by
    intro flow
    have hstack : ∀ call ∈ g.calls stack, call.2.stack = stack := by
      intro call hcall
      obtain ⟨w, -, rfl⟩ := List.mem_map.1 hcall
      rfl
    have hcount' : ∀ srcip, countKey ([] ++ (g.calls stack).map Prod.snd)
        { stack with srcip := srcip } ≤ 2 ^ 31 := by
      intro srcip
      refine ((countKey_le_countP _ _).trans_eq ?_).trans (hcount srcip)
      rw [List.nil_append, Generator.calls, List.map_map, List.countP_map, List.countP_reverse]
      rfl
    have hpairs := increasing_numbered hstack hcount'
    rw [ofRank, packetsOf, recordsFor, List.pairwise_map, List.pairwise_filter,
      List.pairwise_map, List.pairwise_map, List.pairwise_filter]
    refine hpairs.imp fun {r r'} h _ _ hr hr' => h ?_
    have hrank := (of_decide_eq_true hr).trans (of_decide_eq_true hr').symm
    exact (FlowS.rank_inj.1 hrank).1
  volume := fun flow => (volume_recordsFor g stack i flow).1.trans_lt (hvolume flow)
  number := fun flow => (volume_recordsFor g stack i flow).2.trans_lt (hvolume flow)

/-- Nothing of the name is cut off, unless the directory's is too long. -/
theorem pcapFname_eq {nodeIdx : UInt32} (hnode : nodeIdx < numSenders) {outFpath : List UInt8}
    (hlen : outFpath.length ≤ 90) :
    pcapFname outFpath nodeIdx = replayedFname outFpath (hostName (nodeIdx.toNat + 1)) := by
  have hsenders : numSenders.toNat = 12 := rfl
  have hlt : nodeIdx.toNat < 12 := hsenders ▸ UInt32.lt_iff_toNat_lt.1 hnode
  have hdigits : ∀ n : Fin 12, (formatNat (n + 1)).length ≤ 2 := by decide +kernel
  have hnum : (formatNat (nodeIdx.toNat + 1)).length ≤ 2 := hdigits ⟨nodeIdx.toNat, hlt⟩
  have hslash : chars "/h" = chars "/" ++ [104] := by decide +kernel
  have hpcap : (chars ".pcap").length = 5 := by decide +kernel
  have hone : (chars "/").length = 1 := by decide +kernel
  rw [pcapFname, replayedFname, hostName, List.take_of_length_le, hslash]
  · simp only [List.append_assoc, List.cons_append, List.nil_append]
  · simp only [hslash, List.length_append, hpcap, hone, List.length_singleton]
    omega

/-- The node whose file is replayed on a host. -/
def nodeOf (host : Name) : UInt32 := UInt32.ofNat (numberOf host - 1)

section Hosts

variable {t : GenerateRulesIntoTables} {u : Name}

theorem toNat_nodeOf (ht : t.Deployed) (hu : u ∈ t.hosts) (h12 : numberOf u ≤ 12) :
    (nodeOf u).toNat + 1 = numberOf u := by
  have h₁ := (ht.host_number hu).1
  rw [nodeOf, UInt32.toNat_ofNat']
  omega

theorem nodeOf_lt (ht : t.Deployed) (hu : u ∈ t.hosts) (h12 : numberOf u ≤ 12) :
    nodeOf u < numSenders := by
  have hnum : numSenders.toNat = 12 := rfl
  have hnat := toNat_nodeOf ht hu h12
  rw [UInt32.lt_iff_toNat_lt, hnum]
  omega

theorem hostName_nodeOf (ht : t.Deployed) (hu : u ∈ t.hosts) (h12 : numberOf u ≤ 12) :
    hostName ((nodeOf u).toNat + 1) = u := by
  rw [toNat_nodeOf ht hu h12]
  exact (ht.host_number hu).2.2.symm

end Hosts

/-! ## The topology that is deployed -/

/-- `b4_topo_ip_prefixes.txt`, with the interfaces that `b4_topo_mininet.py` makes. -/
def b4 : GenerateRulesIntoTables :=
  ofFile
    ["s1-eth1", "s1-eth2", "s1-eth3", "s2-eth1", "s2-eth2", "s2-eth3", "s3-eth1", "s3-eth2",
     "s3-eth3", "s3-eth4", "s4-eth1", "s4-eth2", "s4-eth3", "s4-eth4", "s4-eth5", "s5-eth1",
     "s5-eth2", "s5-eth3", "s5-eth4", "s6-eth1", "s6-eth2", "s6-eth3", "s6-eth4", "s6-eth5",
     "s7-eth1", "s7-eth2", "s7-eth3", "s7-eth4", "s7-eth5", "s8-eth1", "s8-eth2", "s8-eth3",
     "s8-eth4", "s8-eth5", "s9-eth1", "s9-eth2", "s9-eth3", "s10-eth1", "s10-eth2", "s10-eth3",
     "s10-eth4", "s10-eth5", "s11-eth1", "s11-eth2", "s11-eth3", "s11-eth4", "s11-eth5",
     "s12-eth1", "s12-eth2", "s12-eth3"]
    ["#hosts", "h1 h2 h3 h4 h5 h6 h7 h8 h9 h10 h11 h12", "#switches",
     "s1 s2 s3 s4 s5 s6 s7 s8 s9 s10 s11 s12", "#ip prefix each host represents", "h1 10.0.0.0/8",
     "h2 11.0.0.0/8", "h3 12.0.0.0/8", "h4 13.0.0.0/8", "h5 14.0.0.0/8", "h6 15.0.0.0/8",
     "h7 16.0.0.0/8", "h8 17.0.0.0/8", "h9 18.0.0.0/8", "h10 19.0.0.0/8", "h11 20.0.0.0/8",
     "h12 21.0.0.0/8", "#h1 10.0.0.1", "#h2 10.0.0.2", "#h3 10.0.0.3", "#h4 10.0.0.4",
     "#h5 10.0.0.5", "#h6 10.0.0.6", "#h7 10.0.0.7", "#h8 10.0.0.8", "#h9 10.0.0.9",
     "#h10 10.0.0.10", "#h11 10.0.0.11", "#h12 10.0.0.12",
     "#connection between switches and hosts", "s1 h1", "s2 h2", "s3 h3", "s4 h4", "s5 h5",
     "s6 h6", "s7 h7", "s8 h8", "s9 h9", "s10 h10", "s11 h11", "s12 h12",
     "#connections between switches", "s1 s2", "s1 s3", "s2 s5", "s3 s4", "s3 s6", "s4 s5",
     "s4 s7", "s4 s8", "s5 s6", "s6 s7", "s6 s8", "s7 s8", "s7 s11", "s8 s10", "s9 s10", "s9 s11",
     "s10 s11", "s10 s12", "s11 s12"]

theorem b4_checked : b4.deploys (chars "h1") (["s1", "s2", "s3", "h2", "s5", "h3", "s4", "s6", "h5",
      "h4", "s7", "s8", "h6", "h7", "s11", "h8", "s10", "h11", "s9", "s12", "h10", "h9",
      "h12"].map chars) = true
    ∧ b4.hosts = (List.range 12).map fun n => hostName (n + 1) := by
  decide +kernel

theorem b4_deployed : b4.Deployed := (ofFile_deployed b4_checked.1).1

theorem b4_numbers : ∀ u ∈ b4.hosts, numberOf u ≤ 12 := (ofFile_deployed b4_checked.1).2.1

theorem b4_installed : ∃ table,
    b4.installForwardingRule BOTH_SINGLE_AND_ECMP_PATH_RULE = .ok table :=
  (ofFile_deployed b4_checked.1).2.2 _ (by decide)

theorem b4_hosts : ∀ n, 1 ≤ n → n ≤ 12 → hostName n ∈ b4.hosts := by
  intro n h₁ hn
  rw [b4_checked.2]
  exact List.mem_map.2 ⟨n - 1, List.mem_range.2 (by omega), by rw [Nat.sub_add_cancel h₁]⟩

/-- A trace with no more addresses than there are places, no source that is numbered beyond 2^31 and
no flow of 2^32 bytes, on none of whose lines `str_split` aborts (`hrun`): the generator writes a
file for each host, in which there are the packets of its node in the order of the trace; its replay
gets them with their seqids, and the testbed is ready to run with these files. -/
theorem trace_ready {c : Setup} {tasks : List MonitorTask} (hdeployed : c.topo.Deployed)
    (hsenders : ∀ u ∈ c.topo.hosts, numberOf u ≤ 12)
    (hhosts : ∀ n, 1 ≤ n → n ≤ 12 → hostName n ∈ c.topo.hosts)
    (hrules : ∃ installRuleType, installRuleType ≠ ONLY_ECMP_PATH_RULE
      ∧ c.topo.installForwardingRule installRuleType = .ok c.table)
    (htasks : c.topo.generateTasksForQuery1 = .ok tasks ∨ c.topo.generateTasksForQuery3 = .ok tasks)
    {lines : List TraceLine} {g : Generator}
    (hrun : Generator.system.run Generator.init lines = some g)
    (hplaces : (traceIps lines).toFinset.card ≤ maxPlaces)
    (hcount : ∀ srcip, (g.written.countP fun w => w.2.srcip = srcip) ≤ 2 ^ 31)
    (hvolume : ∀ flow, g.volumeOf flow < 2 ^ 32) (stack : FlowS) :
    ∃ w files, (PcapWriter.initWritePktsToFiles.bind fun w => w.generatePcapPkts (g.calls stack))
        = some w
      ∧ Ready c files tasks
      ∧ ∀ u ∈ c.topo.hosts, ∃ i < numSenders,
        (∀ outFpath, outFpath.length ≤ 90 → pcapFname outFpath i = replayedFname outFpath u)
        ∧ (files u).map Prod.fst = (g.written.reverse.filter (·.1 = i)).map Prod.snd
        ∧ replayedPackets (w.pdumper i)
          = .ok (some ((files u).map fun r => generateOnePcapPkt r.1 r.2, some .eof)) := by
  have hbetween : ∀ w ∈ g.written, BetweenNodes w.1 w.2 :=
    betweenNodes_run lines numbers_init ((length_firstSeen _).trans_le hplaces)
      (by simp [Generator.init]) hrun
  have hnodes : ∀ call ∈ g.calls stack, call.1 < numSenders := by
    intro call hcall
    obtain ⟨w, hw, rfl⟩ := List.mem_map.1 hcall
    exact (hbetween w (List.mem_reverse.1 hw)).1
  obtain ⟨w, header, hw, hheader, hfiles⟩ := exists_generatePcapPkts hnodes
  refine ⟨w, fun u => recordsFor (nodeOf u) (g.calls stack), hw,
    ⟨hdeployed, hsenders, hrules, htasks, fun u hu => ?_⟩, fun u hu => ⟨nodeOf u, ?_, ?_, ?_, ?_⟩⟩
  · have hreplayable :=
      replayable_recordsFor hdeployed hhosts hbetween hcount hvolume stack (nodeOf u)
    rwa [hostName_nodeOf hdeployed hu (hsenders u hu)] at hreplayable
  · exact nodeOf_lt hdeployed hu (hsenders u hu)
  · intro outFpath hlen
    rw [pcapFname_eq (nodeOf_lt hdeployed hu (hsenders u hu)) hlen,
      hostName_nodeOf hdeployed hu (hsenders u hu)]
  · exact map_recordsFor g stack (nodeOf u)
  · rw [hfiles]
    exact replayedPackets_dumped hheader _

/-- A packet, and one back. -/
def exampleTrace : List TraceLine :=
  [⟨chars "0,1,2,80,81,6,4942", 7, 8⟩, ⟨chars "0,2,1,81,80,6,0", 8, 7⟩]

theorem trace_ready_b4 : ∃ table tasks g w files,
    Generator.system.run Generator.init exampleTrace = some g
      ∧ (PcapWriter.initWritePktsToFiles.bind fun w => w.generatePcapPkts (g.calls ⟨0, 0, 0, 0, 0⟩))
        = some w
      ∧ Ready ⟨b4, table, exampleSetting⟩ files tasks
      ∧ (files (hostName 2)).map Prod.fst = [⟨0x0B000000, 0x0C000000, 7, 8, 6, 4942⟩]
      ∧ replayedPackets (w.pdumper 1)
        = .ok (some ((files (hostName 2)).map fun r => generateOnePcapPkt r.1 r.2, some .eof)) := by
  obtain ⟨table, htable⟩ := b4_installed
  obtain ⟨s, htasks, -⟩ := generateTasksForQuery1_inv b4_deployed.toConnected
  have hwritten : (Generator.system.run Generator.init exampleTrace).map Generator.written
      = some [(2, ⟨0x0C000000, 0x0B000000, 8, 7, 6, 0⟩),
        (1, ⟨0x0B000000, 0x0C000000, 7, 8, 6, 4942⟩)] := by
    decide +kernel
  obtain ⟨g, hrun, hg⟩ := Option.map_eq_some_iff.1 hwritten
  have hplaces : (traceIps exampleTrace).toFinset.card ≤ maxPlaces :=
    (List.toFinset_card_le _).trans (by decide +kernel)
  have hcount : ∀ srcip, (g.written.countP fun w => w.2.srcip = srcip) ≤ 2 ^ 31 := by
    intro srcip
    rw [hg]
    exact List.countP_le_length.trans (by decide)
  have hvolume : ∀ flow, g.volumeOf flow < 2 ^ 32 := by
    intro flow
    rw [Generator.volumeOf, hg]
    have hsub := ((List.filter_sublist (p := fun w => decide (w.2.flow.rank = flow.rank))
      (l := g.written)).map fun w => 58 + w.2.len.toNat).sum_le_sum fun _ _ => Nat.zero_le _
    rw [hg] at hsub
    exact hsub.trans_lt (by decide)
  obtain ⟨w, files, hw, hready, hfiles⟩ :=
    trace_ready (c := ⟨b4, table, exampleSetting⟩) b4_deployed b4_numbers b4_hosts
      ⟨_, by decide, htable⟩ (.inl htasks) hrun hplaces hcount hvolume ⟨0, 0, 0, 0, 0⟩
  obtain ⟨i, hi, hname, hmap, hread⟩ := hfiles (hostName 2) (b4_hosts 2 (by decide) (by decide))
  have hname := hname [] (by decide)
  rw [pcapFname_eq hi (by decide)] at hname
  have hnumber := congrArg numberOf
    (List.append_cancel_left (List.append_cancel_right hname))
  rw [numberOf_hostName, numberOf_hostName] at hnumber
  obtain rfl : i = 1 := UInt32.toNat_inj.1 (Nat.succ_injective hnumber)
  rw [hg] at hmap
  exact ⟨table, _, g, w, files, hrun, hw, hready, hmap, hread⟩

end CMTestbed
