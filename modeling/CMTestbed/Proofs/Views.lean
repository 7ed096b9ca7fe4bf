import CMTestbed.Proofs.LossDetection
import CMTestbed.Proofs.Stations

/-!
# One host of the testbed

What concerns one host (`View`) changes as the protocol of packets and reports in flight says,
whatever the other hosts do (`view_step`, `follows_step`).  So what its ledger returns is what the
network has lost of its packets (`Part.Matches.sums`).
-/

namespace CMTestbed

open Lib GenerateRulesIntoTables

namespace Testbed

/-! ## Lists of packets -/

section Lists

variable {u : Name} {n : ℕ}

@[simp] theorem ofRank_nil : ofRank n [] = [] := rfl

@[simp] theorem ofRank_append (l l' : List (FlowS × PktVolume)) :
    ofRank n (l ++ l') = ofRank n l ++ ofRank n l' := by
  simp [ofRank]

@[simp] theorem ofRank_cons_self (flow : FlowS) (pkt : PktVolume) (l : List (FlowS × PktVolume)) :
    ofRank flow.rank ((flow, pkt) :: l) = pkt :: ofRank flow.rank l := by
  simp [ofRank]

theorem ofRank_cons_of_ne {r : FlowS × PktVolume} (h : r.1.rank ≠ n)
    (l : List (FlowS × PktVolume)) : ofRank n (r :: l) = ofRank n l := by
  simp [ofRank, h]

theorem ofRank_eq_nil {l : List (FlowS × PktVolume)} (h : ∀ r ∈ l, r.1.rank ≠ n) :
    ofRank n l = [] := by
  simpa [ofRank] using h

@[simp] theorem sentBy_nil : sentBy u [] = [] := rfl

@[simp] theorem sentBy_append (l l' : List (Name × Frame)) :
    sentBy u (l ++ l') = sentBy u l ++ sentBy u l' := by
  simp [sentBy]

theorem sentBy_cons_of_ne {x : Name × Frame} (h : x.1 ≠ u) (l : List (Name × Frame)) :
    sentBy u (x :: l) = sentBy u l := by
  simp [sentBy, h]

theorem sentBy_cons_self (packetBuf : Frame) (l : List (Name × Frame)) :
    sentBy u ((u, packetBuf) :: l) = packetBuf.sentAs.toList ++ sentBy u l := by
  cases h : packetBuf.sentAs <;> simp [sentBy, h]

end Lists

/-- The records of a file as the ledger counts them. -/
def packetsOf (file : List (PacketS × UInt32)) : List (FlowS × PktVolume) :=
  file.map fun r => r.1.sentAs r.2

@[simp] theorem packetsOf_append (file file' : List (PacketS × UInt32)) :
    packetsOf (file ++ file') = packetsOf file ++ packetsOf file' := List.map_append

@[simp] theorem packetsOf_cons (pPacket : PacketS) (seqid : UInt32)
    (file : List (PacketS × UInt32)) :
    packetsOf ((pPacket, seqid) :: file) = pPacket.sentAs seqid :: packetsOf file := rfl

/-! ## The setup -/

/-- A file of packets to other hosts, in which the seqids of each flow increase and its totals fit
in 32 bits. -/
structure Replayable (t : GenerateRulesIntoTables) (u : Name) (file : List (PacketS × UInt32)) :
    Prop where
  outgoing : ∀ r ∈ file, Outgoing t u r.1
  increasing : ∀ flow : FlowS,
    (ofRank flow.rank (packetsOf file)).Pairwise fun p q => p.seqid < q.seqid
  volume : ∀ flow : FlowS, totalVolume (ofRank flow.rank (packetsOf file)) < 2 ^ 32
  number : ∀ flow : FlowS, (ofRank flow.rank (packetsOf file)).length < 2 ^ 32

/-- A setup whose rules and tasks are the generated ones, with a FIFO for each host. -/
structure Ready (c : Setup) (files : Name → List (PacketS × UInt32)) (tasks : List MonitorTask) :
    Prop where
  deployed : c.topo.Deployed
  senders : ∀ u ∈ c.topo.hosts, numberOf u ≤ 12
  rules : ∃ installRuleType, installRuleType ≠ ONLY_ECMP_PATH_RULE
    ∧ c.topo.installForwardingRule installRuleType = .ok c.table
  tasks : c.topo.generateTasksForQuery1 = .ok tasks ∨ c.topo.generateTasksForQuery3 = .ok tasks
  files : ∀ u ∈ c.topo.hosts, Replayable c.topo u (files u)

section Ready

variable {c : Setup} {files : Name → List (PacketS × UInt32)} {tasks : List MonitorTask}

theorem Ready.generated (h : Ready c files tasks) : Generated c.topo tasks := by
  rcases h.tasks with htasks | htasks
  · exact query1Tasks_generated h.deployed htasks
  · exact query3Tasks_generated h.deployed htasks

theorem Ready.fifo_ne (h : Ready c files tasks) {u w : Name} (hu : u ∈ c.topo.hosts)
    (hw : w ∈ c.topo.hosts) (hne : u ≠ w) : senderGetFifoFname u ≠ senderGetFifoFname w := by
  intro heq
  rw [(h.deployed.host_number hu).2.2, (h.deployed.host_number hw).2.2,
    senderGetFifoFname_hostName, senderGetFifoFname_hostName] at heq
  exact hne (h.deployed.host_inj hu hw
    (getSenderFifoFname_inj (h.senders u hu) (h.senders w hw) heq))

end Ready

/-! ## What is on its way -/

/-- What a host has. -/
structure SoundStation (c : Setup) (file : List (PacketS × UInt32)) (tasks : List MonitorTask)
    (u : Name) (station : Station) : Prop where
  file : station.file <:+ file
  pending : ∀ b, station.pending = some b → ∃ pPacket seqid, Carries c.topo u pPacket seqid b
  tasks : initTasksInfo (taskFile tasks) u = .ok station.warehouse.taskManager

structure Sound (c : Setup) (files : Name → List (PacketS × UInt32)) (tasks : List MonitorTask)
    (s : Testbed) : Prop where
  station : ∀ u ∈ c.topo.hosts, SoundStation c (files u) tasks u (s.station u)
  net : ∀ x ∈ s.net, x.1 ∈ c.topo.hosts ∧ Travels c.topo x.1 x.2

section Sound

variable {c : Setup} {files : Name → List (PacketS × UInt32)} {tasks : List MonitorTask}
  {s s' : Testbed} {u : Name} {station : Station}

theorem sound_init (h : Starts c files tasks s) : Sound c files tasks s := by
  refine ⟨fun u hu => ⟨?_, ?_, ?_⟩, ?_⟩
  · rw [h.file u hu]
  · intro b hb
    rw [h.pending u hu] at hb
    cases hb
  · obtain ⟨stored, hstored, hw⟩ := h.warehouse u hu
    rw [hstored, hw]
    rfl
  · simp [h.net]

theorem Sound.setStation (h : Sound c files tasks s)
    (hstation : SoundStation c (files u) tasks u station) :
    ∀ w ∈ c.topo.hosts, SoundStation c (files w) tasks w ((s.setStation u station).station w) := by
  intro w hw
  by_cases hwu : w = u
  · subst hwu
    simpa [Testbed.setStation] using hstation
  · simpa [Testbed.setStation, hwu] using h.station w hw

theorem taskManager_flowInforUpdate (setting : CmExperimentSetting) (w : DataWarehouse)
    (flow : FlowS) (receSeqid : UInt32) (rand : ℚ) :
    (flowInforUpdate setting w flow receSeqid rand).taskManager = w.taskManager := by
  simp only [flowInforUpdate]
  split_ifs <;> rfl

theorem flowRecePktListMap_flowInforUpdate (setting : CmExperimentSetting) (w : DataWarehouse)
    (flow : FlowS) (receSeqid : UInt32) (rand : ℚ) :
    (flowInforUpdate setting w flow receSeqid rand).flowRecePktListMap
      = (htVlGetReceLostVolume w.flowRecePktListMap flow receSeqid).1 := by
  simp only [flowInforUpdate]
  split_ifs <;> rfl

theorem SoundStation.update {file : List (PacketS × UInt32)}
    (h : SoundStation c file tasks u station)
    (report : Option Recv2SendProto) (rand : ℚ) :
    SoundStation c file tasks u (station.update c.setting report rand) := by
  rcases report with _ | p
  · exact ⟨h.file, h.pending, h.tasks⟩
  · refine ⟨h.file, h.pending, ?_⟩
    simpa [Station.update, taskManager_flowInforUpdate] using h.tasks

theorem sound_step (hready : Ready c files tasks) (h : Sound c files tasks s)
    (hs : Step c s s') : Sound c files tasks s' := by
  have hsub : ∀ {before after : List (Name × Frame)} {x : Name × Frame},
      s.net = before ++ x :: after →
        ∀ y ∈ before ++ after, y.1 ∈ c.topo.hosts ∧ Travels c.topo y.1 y.2 := by
    intro before after x hnet y hy
    refine h.net y ?_
    rw [hnet]
    rcases List.mem_append.1 hy with hy | hy
    · exact List.mem_append_left _ hy
    · exact List.mem_append_right _ (List.mem_cons_of_mem _ hy)
  rcases hs with ⟨rand, hu, hpending, hreplay⟩ | ⟨hu, hpending⟩ | ⟨stack, hu, hown⟩ | ⟨hnet, -⟩ |
      ⟨padding, hnet, -⟩ | ⟨padding, hnet, -⟩ | ⟨rand, hu, hreading, hwaiting⟩ | ⟨hu⟩ | ⟨hu⟩
  · next u station =>
    have hst := h.station u hu
    rcases hfile : (s.station u).file with _ | ⟨⟨pPacket, seqid⟩, file⟩
    · simp [Station.replay, hfile] at hreplay
    · have hmem : (pPacket, seqid) ∈ files u := hst.file.mem (by simp [hfile])
      have hout := (hready.files u hu).outgoing _ hmem
      obtain ⟨hfile', ⟨b, hb, hcarries⟩, -, htasks, -, -⟩ := replay_spec hfile hout hreplay
      refine ⟨h.setStation ⟨?_, ?_, ?_⟩, h.net⟩
      · rw [hfile']
        exact (List.suffix_cons _ _).trans (hfile ▸ hst.file)
      · intro b' hb'
        rw [hb] at hb'
        cases hb'
        exact ⟨pPacket, seqid, hcarries⟩
      · rw [htasks]
        exact hst.tasks
  · next u packetBuf =>
    have hst := h.station u hu
    obtain ⟨pPacket, seqid, hcarries⟩ := hst.pending _ hpending
    refine ⟨h.setStation ⟨hst.file, by simp, hst.tasks⟩, fun x hx => ?_⟩
    rcases List.mem_append.1 hx with hx | hx
    · exact h.net x hx
    · obtain rfl := List.mem_singleton.1 hx
      exact ⟨hu, .packet hcarries⟩
  · refine ⟨h.station, fun x hx => ?_⟩
    rcases List.mem_append.1 hx with hx | hx
    · exact h.net x hx
    · obtain rfl := List.mem_singleton.1 hx
      exact ⟨hu, .condition stack hown rfl⟩
  · exact ⟨h.station, hsub hnet⟩
  · exact ⟨h.station, hsub hnet⟩
  · exact ⟨h.station, hsub hnet⟩
  · exact ⟨h.setStation ((h.station _ hu).update _ rand), h.net⟩
  · have hst := h.station _ hu
    exact ⟨h.setStation ⟨hst.file, hst.pending, hst.tasks⟩, h.net⟩
  · have hst := h.station _ hu
    exact ⟨h.setStation ⟨hst.file, hst.pending, hst.tasks⟩, h.net⟩

theorem sound_of_runs (hready : Ready c files tasks) (h : Starts c files tasks s)
    (hrun : Runs c s s') : Sound c files tasks s' := by
  induction hrun with
  | refl => exact sound_init h
  | tail _ hs ih => exact sound_step hready ih hs

end Sound

/-! ## One host -/

/-- What concerns one host: its part of the network, and the reports to it. -/
structure View where
  station : Station
  net : List (FlowS × PktVolume)
  fifo : List UInt8
  arrived : List (FlowS × PktVolume)
  dropped : List (FlowS × PktVolume)

def view (s : Testbed) (u : Name) : View where
  station := s.station u
  net := sentBy u s.net
  fifo := s.fifos (senderGetFifoFname u)
  arrived := sentBy u s.arrived
  dropped := sentBy u s.dropped

/-- What can become of it in one step. -/
inductive View.Step (setting : CmExperimentSetting) : View → View → Prop
  | stay {v : View} : Step setting v v
  | replay {v : View} {station : Station} {pPacket : PacketS} {seqid : UInt32}
      {file : List (PacketS × UInt32)} {b : Frame}
      (hfile : v.station.file = (pPacket, seqid) :: file)
      (hpending : v.station.pending = none) (hfile' : station.file = file)
      (hpending' : station.pending = some b) (hb : b.sentAs = some (pPacket.sentAs seqid))
      (hledger : station.warehouse.flowRecePktListMap
        = htVlSet v.station.warehouse.flowRecePktListMap pPacket.flow seqid
          (pPacket.sentAs seqid).2.volume)
      (hreading : station.reading = v.station.reading)
      (hanswers : station.answers = v.station.answers) :
      Step setting v { v with station := station }
  | send {v : View} {b : Frame} {r : FlowS × PktVolume} (hpending : v.station.pending = some b)
      (hr : b.sentAs = some r) :
      Step setting v { v with
        station := { v.station with pending := none }, net := v.net ++ [r] }
  | drop {v : View} {before after : List (FlowS × PktVolume)} {r : FlowS × PktVolume}
      (hnet : v.net = before ++ r :: after) :
      Step setting v { v with net := before ++ after, dropped := v.dropped ++ [r] }
  | arrive {v : View} {before after : List (FlowS × PktVolume)} {r : FlowS × PktVolume}
      (padding : Recv2SendProto.Padding) (hnet : v.net = before ++ r :: after)
      (hfirst : ∀ p ∈ before, p.1.rank ≠ r.1.rank) :
      Step setting v { v with
        net := before ++ after
        fifo := writeConditionToFIFO v.fifo ⟨r.1, r.2.seqid⟩ padding
        arrived := v.arrived ++ [r] }
  | report {v : View} (rand : ℚ) (hwaiting : v.fifo ≠ []) :
      Step setting v { v with
        station := v.station.update setting (readConditionFromFIFO v.fifo).1 rand
        fifo := (readConditionFromFIFO v.fifo).2 }
  | warehouse {v : View} {w : DataWarehouse}
      (hledger : w.flowRecePktListMap = v.station.warehouse.flowRecePktListMap) :
      Step setting v { v with station := { v.station with warehouse := w } }

section View

variable {c : Setup} {files : Name → List (PacketS × UInt32)} {tasks : List MonitorTask}
  {s s' : Testbed} {u w : Name}

theorem view_setStation_of_ne (h : u ≠ w) (station : Station) :
    (s.setStation w station).view u = s.view u := by
  simp [view, Testbed.setStation, h]

theorem view_setStation_self (station : Station) :
    (s.setStation u station).view u = { s.view u with station := station } := by
  simp [view, Testbed.setStation]

/-- A packet that is no condition packet comes to one other host, and is reported by its receiver
if that has not ended. -/
theorem fifos_of_receiveAt (hready : Ready c files tasks) (hw : w ∈ c.topo.hosts)
    {packetBuf : Frame} (h : Travels c.topo w packetBuf) {p : Header}
    (hp : packetBuf.header = some p) {rs : List Located}
    (hrs : c.topo.Sent c.table p w c.topo.turns rs)
    {padding : Name → Recv2SendProto.Padding} {receivers receivers' : Receivers}
    (hreceive : c.topo.receiveAt (w :: rs.map Located.entity) packetBuf padding receivers
      = some receivers') :
    packetBuf.sentAs = none ∧ receivers'.fifos = receivers.fifos
      ∨ ∃ r v, packetBuf.sentAs = some r
        ∧ (∀ x, x ∈ rs.map Located.entity ∧ x ∈ c.topo.hosts ↔ x = v)
        ∧ ∃ padding', receivers'.fifos = if receivers.received v < pcapLoopCnt then
            Function.update receivers.fifos (senderGetFifoFname w)
              (writeConditionToFIFO (receivers.fifos (senderGetFifoFname w)) ⟨r.1, r.2.seqid⟩
                padding')
          else receivers.fifos := by
  rcases h with hcarries | ⟨stack, hown, rfl⟩
  · obtain ⟨installRuleType, htype, ht⟩ := hready.rules
    obtain ⟨v, hv, hvw, hdst, hnodes⟩ :=
      hosts_of_generated hready.deployed htype ht hw hcarries hp hrs
    obtain ⟨received, heq⟩ := receiveAt_generated hready.deployed hready.senders hw hcarries hp hv
      hvw hdst hnodes padding receivers
    obtain rfl := Option.some.inj (heq.symm.trans hreceive)
    rw [List.filter_cons_of_pos (by simpa using hw), List.cons.injEq] at hnodes
    refine .inr ⟨_, v, hcarries.sentAs, fun x => ?_, padding v, rfl⟩
    rw [← List.mem_singleton, ← hnodes.2, List.mem_filter, decide_eq_true_iff]
  · obtain ⟨received, heq⟩ := receiveAt_condition (t := c.topo) stack _
      (w :: rs.map Located.entity) padding receivers
    obtain rfl := Option.some.inj (heq.symm.trans hreceive)
    exact .inl ⟨sentAs_sendUdpConditionPkt _ _, rfl⟩

/-- A packet that nobody reports is dropped, for its own host. -/
theorem view_lose (setting : CmExperimentSetting) {before after : List (Name × Frame)}
    {x : Name × Frame} (hnet : s.net = before ++ x :: after) {receivers : Receivers}
    (hfifos : receivers.fifos = s.fifos) (u : Name) :
    View.Step setting (s.view u) (view { s with
      toReceivers := receivers, net := before ++ after, dropped := s.dropped ++ [x] } u) := by
  have hstay : View.Step setting (s.view u) (s.view u) := .stay
  obtain ⟨w, packetBuf⟩ := x
  by_cases hwu : w = u
  · subst hwu
    rcases hsent : packetBuf.sentAs with _ | r
    · simpa [view, hnet, sentBy_cons_self, hsent, hfifos] using hstay
    · have hview : (s.view w).net = sentBy w before ++ r :: sentBy w after := by
        simp [view, hnet, sentBy_cons_self, hsent]
      have hstep : View.Step setting (s.view w) _ := .drop hview
      simpa [view, sentBy_cons_self, hsent, hfifos] using hstep
  · have hcons := fun l => sentBy_cons_of_ne (x := (w, packetBuf)) hwu l
    simpa [view, hnet, hcons, hfifos] using hstay

/-- A step of the testbed changes the view of each host in one of these ways, or not at all. -/
theorem view_step (hready : Ready c files tasks) (h : Sound c files tasks s) (hs : Step c s s')
    (hu : u ∈ c.topo.hosts) : View.Step c.setting (s.view u) (s'.view u) := by
  have hstay : View.Step c.setting (s.view u) (s.view u) := .stay
  rcases hs with ⟨rand, hw, hpending, hreplay⟩ | ⟨hw, hpending⟩ | ⟨stack, hw, hown⟩ | ⟨hnet, -⟩ |
      ⟨padding, hnet, hfirst, hp, hrs, hreceive, hgoing⟩ |
      ⟨padding, hnet, hfirst, hp, hrs, hreceive, hv, hhost, hended⟩ |
      ⟨rand, hw, hreading, hwaiting⟩ | ⟨hw⟩ | ⟨hw⟩
  · next w station =>
    by_cases huw : u = w
    · subst huw
      rw [view_setStation_self]
      rcases hfile : (s.station u).file with _ | ⟨⟨pPacket, seqid⟩, file⟩
      · simp [Station.replay, hfile] at hreplay
      · have hmem : (pPacket, seqid) ∈ files u := (h.station u hu).file.mem (by simp [hfile])
        obtain ⟨hfile', ⟨b, hb, hcarries⟩, hledger, -, hreading, hanswers⟩ :=
          replay_spec hfile ((hready.files u hu).outgoing _ hmem) hreplay
        exact .replay hfile hpending hfile' hb hcarries.sentAs hledger hreading hanswers
    · rwa [view_setStation_of_ne huw]
  · next w packetBuf =>
    obtain ⟨pPacket, seqid, hcarries⟩ := (h.station w hw).pending _ hpending
    by_cases huw : u = w
    · subst huw
      have hstep : View.Step c.setting (s.view u) _ := .send hpending hcarries.sentAs
      simpa [view, Testbed.setStation, sentBy_cons_self, hcarries.sentAs] using hstep
    · have hsent := sentBy_cons_of_ne (x := (w, packetBuf)) (Ne.symm huw) []
      simpa [view, Testbed.setStation, huw, hsent] using hstay
  · next w condition =>
    have hsent : sentBy u [(w, sendUdpConditionPkt stack condition)] = [] := by
      simp [sentBy, sentAs_sendUdpConditionPkt, List.filterMap_filter]
    simpa [view, hsent] using hstay
  · next before after x received =>
    have hfifos : (⟨s.fifos, received⟩ : Receivers).fifos = s.fifos := rfl
    exact view_lose c.setting hnet hfifos u
  · next before after w packetBuf p rs receivers =>
    obtain ⟨hw, htravels⟩ := h.net (w, packetBuf) (by simp [hnet])
    rcases fifos_of_receiveAt hready hw htravels hp hrs hreceive with
      ⟨hsent, hfifos⟩ | ⟨r, v, hsent, hv, padding', hfifos⟩
    · by_cases hwu : w = u
      · subst hwu
        simpa [view, hnet, sentBy_cons_self, hsent, hfifos] using hstay
      · have hcons := fun l => sentBy_cons_of_ne (x := (w, packetBuf)) hwu l
        simpa [view, hnet, hcons, hfifos] using hstay
    · have hvhost := (hv v).2 rfl
      rw [if_pos (hgoing v hvhost.1 hvhost.2)] at hfifos
      by_cases hwu : w = u
      · subst hwu
        have hview : (s.view w).net = sentBy w before ++ r :: sentBy w after := by
          simp [view, hnet, sentBy_cons_self, hsent]
        have hfirst' : ∀ q ∈ sentBy w before, q.1.rank ≠ r.1.rank := by
          intro q hq hrank
          obtain ⟨x, hx, hxq⟩ := List.mem_filterMap.1 hq
          exact hfirst x (List.mem_of_mem_filter hx) ⟨q, r, hxq, hsent, hrank⟩
        have hstep : View.Step c.setting (s.view w) _ := .arrive padding' hview hfirst'
        simpa [view, sentBy_cons_self, hsent, hfifos] using hstep
      · have hcons := fun l => sentBy_cons_of_ne (x := (w, packetBuf)) hwu l
        have hfifo := hready.fifo_ne hu hw (Ne.symm hwu)
        simpa [view, hnet, hcons, hfifos, hfifo] using hstay
  · next before after w v packetBuf p rs receivers =>
    obtain ⟨hw, htravels⟩ := h.net (w, packetBuf) (by simp [hnet])
    refine view_lose c.setting hnet ?_ u
    rcases fifos_of_receiveAt hready hw htravels hp hrs hreceive with
      ⟨-, hfifos⟩ | ⟨r, v', -, hv', padding', hfifos⟩
    · exact hfifos
    · obtain rfl := (hv' v).1 ⟨hv, hhost⟩
      rw [hfifos, if_neg (Nat.not_lt.2 hended)]
  · next w =>
    by_cases huw : u = w
    · subst huw
      have hstep : View.Step c.setting (s.view u) _ := .report rand hwaiting
      simpa [view, Testbed.setStation] using hstep
    · simpa [view, Testbed.setStation, huw, hready.fifo_ne hu hw huw] using hstay
  · next w =>
    by_cases huw : u = w
    · subst huw
      rw [view_setStation_self]
      exact .warehouse rfl
    · rwa [view_setStation_of_ne huw]
  · next w =>
    by_cases huw : u = w
    · subst huw
      rw [view_setStation_self]
      exact .warehouse rfl
    · rwa [view_setStation_of_ne huw]

end View

/-! ## The protocol of one host -/

/-- What concerns the flows with one rank. -/
structure Part where
  outbox : List PktVolume
  net : List PktVolume
  /-- The seqids of the reports that wait. -/
  waiting : List UInt32
  recorded : List PktVolume
  arrived : List PktVolume
  dropped : List PktVolume
  answers : List (Recv2SendProto × ReceVLostV)

/-- Of these records of its file replayed and these reports waiting. -/
def View.part (v : View) (done : List (PacketS × UInt32)) (waiting : List Recv2SendProto) (n : ℕ) :
    Part where
  outbox := ofRank n (v.station.pending.bind Frame.sentAs).toList
  net := ofRank n v.net
  waiting := (waiting.filter (·.rank = n)).map Recv2SendProto.receSeqid
  recorded := ofRank n (packetsOf done)
  arrived := ofRank n v.arrived
  dropped := ofRank n v.dropped
  answers := v.station.answers.filter (·.1.rank = n)

structure Part.Matches (p : Part) (d : Traffic) : Prop where
  outbox : d.outbox = p.outbox
  net : d.net = p.net
  reports : d.reports.map PktVolume.seqid = p.waiting
  recorded : d.recorded = p.recorded
  delivered : d.delivered = p.arrived
  reported : d.reported.map PktVolume.seqid = p.answers.map (·.1.receSeqid)
  receivedVolume : d.receivedVolume = (p.answers.map (·.2.receivedVolume.toNat)).sum
  lostVolume : d.lostVolume = (p.answers.map (·.2.lostVolume.toNat)).sum
  lostPktNum : d.lostPktNum = (p.answers.map (·.2.lostPktNum.toNat)).sum
  conserved : p.recorded.Perm (p.arrived ++ p.dropped ++ p.net ++ p.outbox)

/-- The host's ledger and packets are those of the protocol. -/
structure Follows (file : List (PacketS × UInt32)) (v : View) (d : Delivery) : Prop where
  ledger : d.ledger = v.station.warehouse.flowRecePktListMap
  reading : v.station.reading = true
  flows : ∃ done waiting, file = done ++ v.station.file ∧ reportRecords.Holds waiting v.fifo
    ∧ ∀ n, (v.part done waiting n).Matches (d.flows n)

section Follows

variable {c : Setup} {files : Name → List (PacketS × UInt32)} {tasks : List MonitorTask}
  {file : List (PacketS × UInt32)} {s s' : Testbed} {u : Name} {v v' : View} {d : Delivery}

theorem follows_init (h : Starts c files tasks s) (hu : u ∈ c.topo.hosts) :
    Follows (files u) (s.view u) Delivery.init := by
  refine ⟨?_, h.reading u hu, [], [], (h.file u hu).symm, h.fifos _, fun n => ?_⟩
  · obtain ⟨stored, -, hw⟩ := h.warehouse u hu
    simp only [view, hw]
    rfl
  · have hpart : (s.view u).part [] [] n = ⟨[], [], [], [], [], [], []⟩ := by
      simp [View.part, view, packetsOf, h.pending u hu, h.answers u hu, h.net, h.arrived, h.dropped]
    rw [hpart]
    exact ⟨rfl, rfl, rfl, rfl, rfl, rfl, rfl, rfl, rfl, List.Perm.refl _⟩

section Delivery

variable {flow : FlowS} {pkt : PktVolume} {rest : List PktVolume}

theorem step_send (h : (d.flows flow.rank).outbox = pkt :: rest) :
    Delivery.system.step d (.send flow) = some (d.setFlow flow { d.flows flow.rank with
      outbox := rest, net := (d.flows flow.rank).net ++ [pkt] }) := by
  simp only [Delivery.system, Delivery.step, h]

theorem step_deliver (h : (d.flows flow.rank).net = pkt :: rest) :
    Delivery.system.step d (.deliver flow) = some (d.setFlow flow { d.flows flow.rank with
      net := rest
      reports := (d.flows flow.rank).reports ++ [pkt]
      delivered := (d.flows flow.rank).delivered ++ [pkt] }) := by
  simp only [Delivery.system, Delivery.step, h]

theorem step_report (h : (d.flows flow.rank).reports = pkt :: rest) :
    Delivery.system.step d (.report flow) = some (Delivery.setFlow
      { d with ledger := (htVlGetReceLostVolume d.ledger flow pkt.seqid).1 } flow
      { d.flows flow.rank with
        reports := rest
        reported := (d.flows flow.rank).reported ++ [pkt]
        countedLost := (d.flows flow.rank).countedLost ++ lostPkts (d.ledger.queue flow) pkt.seqid
        receivedVolume := (d.flows flow.rank).receivedVolume
          + (htVlGetReceLostVolume d.ledger flow pkt.seqid).2.receivedVolume.toNat
        lostVolume := (d.flows flow.rank).lostVolume
          + (htVlGetReceLostVolume d.ledger flow pkt.seqid).2.lostVolume.toNat
        lostPktNum := (d.flows flow.rank).lostPktNum
          + (htVlGetReceLostVolume d.ledger flow pkt.seqid).2.lostPktNum.toNat }) := by
  simp only [Delivery.system, Delivery.step, h]
  rfl

end Delivery

/-- A step changes what is known of one flow, and nothing else. -/
theorem matches_setFlow {done done' : List (PacketS × UInt32)}
    {waiting waiting' : List Recv2SendProto}
    {flow : FlowS} {t : Traffic} {ledger : HtVl}
    (h : ∀ n, (v.part done waiting n).Matches (d.flows n))
    (hother : ∀ n, flow.rank ≠ n → v'.part done' waiting' n = v.part done waiting n)
    (hflow : (v'.part done' waiting' flow.rank).Matches t) :
    ∀ n, (v'.part done' waiting' n).Matches
      ((Delivery.setFlow { d with ledger := ledger } flow t).flows n) := by
  refine (Function.forall_update_iff _ (p := fun n => (v'.part done' waiting' n).Matches)).2
    ⟨hflow, fun n hn => ?_⟩
  rw [hother n (Ne.symm hn)]
  exact h n

/-- A replayed packet is recorded. -/
theorem Follows.replay {pPacket : PacketS} {seqid : UInt32} {rest : List (PacketS × UInt32)}
    {station : Station} {b : Frame} (h : Follows file v d) (hr : Replayable c.topo u file)
    (hfile : v.station.file = (pPacket, seqid) :: rest) (hpending : v.station.pending = none)
    (hfile' : station.file = rest) (hpending' : station.pending = some b)
    (hb : b.sentAs = some (pPacket.sentAs seqid))
    (hledger : station.warehouse.flowRecePktListMap
      = htVlSet v.station.warehouse.flowRecePktListMap pPacket.flow seqid
        (pPacket.sentAs seqid).2.volume)
    (hreading : station.reading = v.station.reading)
    (hanswers : station.answers = v.station.answers) : ∃ d',
      Delivery.system.step d (.record pPacket.flow seqid (pPacket.sentAs seqid).2.volume) = some d'
        ∧ Follows file { v with station := station } d' := by
  obtain ⟨done, waiting, hsplit, hholds, hflows⟩ := h.flows
  have hm := hflows pPacket.flow.rank
  obtain ⟨pkt, hpkt⟩ : ∃ pkt : PktVolume, pPacket.sentAs seqid = (pPacket.flow, pkt)
      ∧ pkt.seqid = seqid := ⟨_, rfl, rfl⟩
  obtain ⟨hsent, rfl⟩ := hpkt
  have hguard : (d.flows pPacket.flow.rank).CanRecord pkt := by
    have hinc := hr.increasing pPacket.flow
    have hvol := hr.volume pPacket.flow
    have hnum := hr.number pPacket.flow
    simp only [hsplit, hfile, packetsOf_append, packetsOf_cons, ofRank_append, hsent,
      ofRank_cons_self, totalVolume_append, totalVolume_cons, List.length_append,
      List.length_cons] at hinc hvol hnum
    rw [Traffic.CanRecord, hm.recorded]
    exact ⟨fun p hp => (List.pairwise_append.1 hinc).2.2 p hp pkt List.mem_cons_self,
      by simp only [View.part]; omega, by simp only [View.part]; omega⟩
  rw [hsent] at hledger ⊢
  refine ⟨_, if_pos hguard, ?_, hreading.trans h.reading, done ++ [(pPacket, pkt.seqid)], waiting,
    ?_, hholds, matches_setFlow hflows (fun n hn => ?_) ?_⟩
  · show htVlSet d.ledger _ _ _ = _
    rw [h.ledger, hledger]
  · rw [hsplit, hfile, hfile']
    simp
  · have hnil := ofRank_cons_of_ne (r := (pPacket.flow, pkt)) hn
    simp [View.part, hpending, hpending', hb, hsent, hanswers, hnil, packetsOf]
  · have hpart : View.part { v with station := station } (done ++ [(pPacket, pkt.seqid)]) waiting
        pPacket.flow.rank = { v.part done waiting pPacket.flow.rank with
          outbox := [pkt], recorded := ofRank pPacket.flow.rank (packetsOf done) ++ [pkt] } := by
      simp [View.part, hpending', hb, hsent, hanswers, packetsOf]
    have hout : (v.part done waiting pPacket.flow.rank).outbox = [] := by
      simp [View.part, hpending]
    have hcons := hm.conserved
    rw [hout, List.append_nil] at hcons
    rw [hpart]
    refine { hm with outbox := ?_, recorded := ?_, conserved := hcons.append_right _ }
    · simp [hm.outbox, hout]
    · simp [hm.recorded, View.part]

theorem Follows.send {b : Frame} {r : FlowS × PktVolume} (h : Follows file v d)
    (hpending : v.station.pending = some b) (hr : b.sentAs = some r) : ∃ d',
      Delivery.system.step d (.send r.1) = some d' ∧ Follows file { v with
        station := { v.station with pending := none }, net := v.net ++ [r] } d' := by
  obtain ⟨flow, pkt⟩ := r
  obtain ⟨done, waiting, hsplit, hholds, hflows⟩ := h.flows
  have hm := hflows flow.rank
  have hout : (d.flows flow.rank).outbox = [pkt] := by
    simp [hm.outbox, View.part, hpending, hr]
  refine ⟨_, step_send hout, h.ledger, h.reading, done, waiting, hsplit, hholds,
    matches_setFlow hflows (fun n hn => ?_) ?_⟩
  · have hnil := ofRank_cons_of_ne (r := (flow, pkt)) hn
    simp [View.part, hpending, hr, hnil]
  · have hpart : View.part { v with
          station := { v.station with pending := none }
          net := v.net ++ [(flow, pkt)] } done waiting
        flow.rank = { v.part done waiting flow.rank with
          outbox := [], net := ofRank flow.rank v.net ++ [pkt] } := by
      simp [View.part]
    have hcons := hm.conserved
    rw [← hm.outbox, hout] at hcons
    rw [hpart]
    refine { hm with outbox := rfl, net := ?_, conserved := ?_ }
    · simp [hm.net, View.part]
    · rw [List.append_nil, ← List.append_assoc]
      exact hcons

theorem Follows.drop {before after : List (FlowS × PktVolume)} {r : FlowS × PktVolume}
    (h : Follows file v d) (hnet : v.net = before ++ r :: after) : ∃ d',
      Delivery.system.step d (.drop r.1 (ofRank r.1.rank before).length) = some d'
        ∧ Follows file { v with net := before ++ after, dropped := v.dropped ++ [r] } d' := by
  obtain ⟨flow, pkt⟩ := r
  obtain ⟨done, waiting, hsplit, hholds, hflows⟩ := h.flows
  have hm := hflows flow.rank
  have hmnet : (d.flows flow.rank).net
      = ofRank flow.rank before ++ pkt :: ofRank flow.rank after := by
    simp [hm.net, View.part, hnet]
  refine ⟨_, rfl, h.ledger, h.reading, done, waiting, hsplit, hholds,
    matches_setFlow hflows (fun n hn => ?_) ?_⟩
  · have hcons := ofRank_cons_of_ne (r := (flow, pkt)) hn
    simp [View.part, hnet, hcons]
  · have hpart : View.part { v with net := before ++ after, dropped := v.dropped ++ [(flow, pkt)] }
        done waiting flow.rank = { v.part done waiting flow.rank with
          net := ofRank flow.rank before ++ ofRank flow.rank after
          dropped := ofRank flow.rank v.dropped ++ [pkt] } := by
      simp [View.part]
    have hcons := hm.conserved
    rw [← hm.net, hmnet] at hcons
    rw [hpart]
    refine { hm with net := ?_, conserved := hcons.trans ?_ }
    · simp [hmnet, List.eraseIdx_append_of_length_le]
    · refine List.perm_iff_count.2 fun p => ?_
      simp [View.part, List.count_append, List.count_cons]
      omega

theorem Follows.arrive {before after : List (FlowS × PktVolume)} {r : FlowS × PktVolume}
    (h : Follows file v d) (padding : Recv2SendProto.Padding) (hnet : v.net = before ++ r :: after)
    (hfirst : ∀ p ∈ before, p.1.rank ≠ r.1.rank) : ∃ d',
      Delivery.system.step d (.deliver r.1) = some d' ∧ Follows file { v with
        net := before ++ after
        fifo := writeConditionToFIFO v.fifo ⟨r.1, r.2.seqid⟩ padding
        arrived := v.arrived ++ [r] } d' := by
  obtain ⟨flow, pkt⟩ := r
  obtain ⟨done, waiting, hsplit, hholds, hflows⟩ := h.flows
  have hm := hflows flow.rank
  have hbefore : ofRank flow.rank before = [] := ofRank_eq_nil hfirst
  have hmnet : (d.flows flow.rank).net = pkt :: ofRank flow.rank after := by
    simp [hm.net, View.part, hnet, hbefore]
  refine ⟨_, step_deliver hmnet, h.ledger, h.reading, done, _, hsplit,
    holds_writeConditionToFIFO hholds ⟨flow, pkt.seqid⟩ padding,
    matches_setFlow hflows (fun n hn => ?_) ?_⟩
  · have hcons := ofRank_cons_of_ne (r := (flow, pkt)) hn
    simp [View.part, hnet, hcons, hn]
  · have hpart : View.part { v with
          net := before ++ after
          fifo := writeConditionToFIFO v.fifo ⟨flow, pkt.seqid⟩ padding
          arrived := v.arrived ++ [(flow, pkt)] } done (waiting ++ [⟨flow, pkt.seqid⟩]) flow.rank
        = { v.part done waiting flow.rank with
          net := ofRank flow.rank after
          waiting := (v.part done waiting flow.rank).waiting ++ [pkt.seqid]
          arrived := ofRank flow.rank v.arrived ++ [pkt] } := by
      simp [View.part, hbefore]
    have hcons := hm.conserved
    rw [← hm.net, hmnet] at hcons
    rw [hpart]
    refine { hm with
      net := rfl, reports := ?_, delivered := ?_, conserved := hcons.trans ?_ }
    · simp [hm.reports]
    · simp [hm.delivered, View.part]
    · refine List.perm_iff_count.2 fun p => ?_
      simp [View.part, List.count_append, List.count_cons]
      omega

theorem Follows.report (h : Follows file v d) (setting : CmExperimentSetting) (rand : ℚ)
    (hwaiting : v.fifo ≠ []) : ∃ flow d', Delivery.system.step d (.report flow) = some d'
      ∧ Follows file { v with
        station := v.station.update setting (readConditionFromFIFO v.fifo).1 rand
        fifo := (readConditionFromFIFO v.fifo).2 } d' := by
  obtain ⟨done, waiting, hsplit, hholds, hflows⟩ := h.flows
  rcases waiting with _ | ⟨p, waiting⟩
  · exact absurd (hholds.eq_nil_iff.2 rfl) hwaiting
  obtain ⟨hread, hrest⟩ := readConditionFromFIFO_of_holds hholds
  have hm := hflows p.toFlowS.rank
  obtain ⟨pkt, rest, hreports, hseqid, hrest'⟩ : ∃ pkt rest,
      (d.flows p.toFlowS.rank).reports = pkt :: rest ∧ pkt.seqid = p.receSeqid
        ∧ rest.map PktVolume.seqid
          = (waiting.filter (·.rank = p.toFlowS.rank)).map Recv2SendProto.receSeqid := by
    have hr := hm.reports
    simp only [View.part, List.filter_cons_of_pos, decide_true, List.map_cons] at hr
    exact List.map_eq_cons_iff.1 hr
  rw [hread]
  refine ⟨p.toFlowS, _, step_report hreports, ?_, h.reading, done, waiting, hsplit, hrest,
    matches_setFlow hflows (fun n hn => ?_) ?_⟩
  · rw [hseqid, h.ledger]
    exact (flowRecePktListMap_flowInforUpdate _ _ _ _ _).symm
  · simp [View.part, Station.update, hn]
  · have hpart : View.part { v with
          station := v.station.update setting (some p) rand
          fifo := (readConditionFromFIFO v.fifo).2 }
        done waiting p.toFlowS.rank = { v.part done (p :: waiting) p.toFlowS.rank with
          waiting := (waiting.filter (·.rank = p.toFlowS.rank)).map Recv2SendProto.receSeqid
          answers := (v.part done (p :: waiting) p.toFlowS.rank).answers
            ++ [(p, (htVlGetReceLostVolume d.ledger p.toFlowS pkt.seqid).2)] } := by
      simp [View.part, Station.update, h.ledger, hseqid]
    rw [hpart]
    refine { hm with
      reports := hrest', reported := ?_, receivedVolume := ?_, lostVolume := ?_, lostPktNum := ?_ }
    · simp [hm.reported, hseqid]
    · simp [hm.receivedVolume]
    · simp [hm.lostVolume]
    · simp [hm.lostPktNum]

/-- A step of the host is matched by the protocol, in one step or none. -/
theorem follows_step {setting : CmExperimentSetting} (hr : Replayable c.topo u file)
    (h : Follows file v d) (hs : View.Step setting v v') :
    ∃ es d', Delivery.system.run d es = some d' ∧ Follows file v' d' := by
  have hone : ∀ {e v'}, (∃ d', Delivery.system.step d e = some d' ∧ Follows file v' d') →
      ∃ es d', Delivery.system.run d es = some d' ∧ Follows file v' d' := by
    rintro e v' ⟨d', hd', hf⟩
    exact ⟨[e], d', System.run_cons.2 ⟨d', hd', rfl⟩, hf⟩
  rcases hs with _ | ⟨hfile, hpending, hfile', hpending', hb, hledger, hreading, hanswers⟩ |
      ⟨hpending, hsent⟩ | ⟨hnet⟩ | ⟨padding, hnet, hfirst⟩ | ⟨rand, hwaiting⟩ | ⟨hledger⟩
  · exact ⟨[], d, rfl, h⟩
  · exact hone (h.replay hr hfile hpending hfile' hpending' hb hledger hreading hanswers)
  · exact hone (h.send hpending hsent)
  · exact hone (h.drop hnet)
  · exact hone (h.arrive padding hnet hfirst)
  · obtain ⟨flow, hstep⟩ := h.report setting rand hwaiting
    exact hone hstep
  · exact ⟨[], d, rfl, h.ledger.trans hledger.symm, h.reading, h.flows⟩

/-- Whatever the other hosts do, each host and its packets follow a run of the protocol. -/
theorem follows_of_runs (hready : Ready c files tasks) (h : Starts c files tasks s)
    (hrun : Runs c s s') (hu : u ∈ c.topo.hosts) : ∃ es d,
      Delivery.system.run Delivery.init es = some d ∧ Follows (files u) (s'.view u) d := by
  induction hrun with
  | refl => exact ⟨[], _, rfl, follows_init h hu⟩
  | tail hrun hs ih =>
    obtain ⟨es, d, hd, hf⟩ := ih
    have hsound := sound_of_runs hready h hrun
    obtain ⟨es', d', hd', hf'⟩ :=
      follows_step (hready.files u hu) hf (view_step hready hsound hs hu)
    exact ⟨es ++ es', d', System.run_append.2 ⟨d, hd, hd'⟩, hf'⟩

end Follows

/-! ## What is counted as lost -/

section Losses

variable {d : Traffic} {p : Part} {queue handled : List PktVolume}

theorem totalVolume_perm {l l' : List PktVolume} (h : l.Perm l') :
    totalVolume l = totalVolume l' := (h.map _).sum_nat

/-- What was recorded before the last reported packet, and not delivered, was dropped. -/
theorem Part.Matches.undelivered_perm (h : p.Matches d) (hd : d.Handled queue handled) :
    d.undelivered.Perm (p.dropped.filter fun pkt =>
      p.answers.getLast?.any fun answer => pkt.seqid < answer.1.receSeqid) := by
  have hlast : ∀ a, (d.reported.getLast?.any fun last => decide (a < last.seqid))
      = p.answers.getLast?.any fun answer => decide (a < answer.1.receSeqid) := by
    intro a
    have hmap := congrArg (fun l => l.getLast?.any fun seqid => decide (a < seqid)) h.reported
    simpa [List.getLast?_map, Option.any_map] using hmap
  have hinc := hd.increasing
  have hnodup : (p.arrived ++ p.dropped ++ p.net ++ p.outbox).Nodup := by
    refine h.conserved.nodup_iff.1 ?_
    rw [← h.recorded]
    exact hinc.imp fun hlt heq => absurd (heq ▸ hlt) (UInt32.lt_irrefl _)
  -- what is still on its way is behind the last reported packet
  have hbehind : ∀ pkt ∈ p.net ++ p.outbox,
      (d.reported.getLast?.any fun last => decide (pkt.seqid < last.seqid)) = false := by
    intro pkt hpkt
    rcases hl : d.reported.getLast? with _ | last
    · rfl
    · have hq : pkt ∈ queue := by
        refine hd.pending.subset ?_
        rw [h.net, h.outbox, List.append_assoc]
        exact List.mem_append_right _ hpkt
      have hlt := (List.pairwise_append.1 (hd.recorded ▸ hinc)).2.2 last
        (hd.reported last (List.mem_of_getLast? hl)) pkt hq
      simp only [Option.any_some, decide_eq_false_iff_not, UInt32.not_lt]
      exact UInt32.le_of_lt hlt
  have hdropped : ∀ pkt ∈ p.dropped, pkt ∉ d.delivered := by
    intro pkt hpkt hdel
    rw [h.delivered] at hdel
    have hdisjoint := List.disjoint_of_nodup_append
      (List.Nodup.of_append_left (List.Nodup.of_append_left hnodup))
    exact hdisjoint hdel hpkt
  have hperm := (h.conserved.trans (by rw [List.append_assoc])).filter fun pkt =>
    decide (pkt ∉ d.delivered)
      && d.reported.getLast?.any fun last => decide (pkt.seqid < last.seqid)
  have harrived : p.arrived.filter (fun pkt => decide (pkt ∉ d.delivered)
      && d.reported.getLast?.any fun last => decide (pkt.seqid < last.seqid)) = [] := by
    refine List.filter_eq_nil_iff.2 fun pkt hpkt => ?_
    simp [h.delivered, hpkt]
  have hway : (p.net ++ p.outbox).filter (fun pkt => decide (pkt ∉ d.delivered)
      && d.reported.getLast?.any fun last => decide (pkt.seqid < last.seqid)) = [] := by
    refine List.filter_eq_nil_iff.2 fun pkt hpkt => ?_
    rw [hbehind pkt hpkt, Bool.and_false]
    exact Bool.false_ne_true
  rw [Traffic.undelivered, h.recorded]
  rw [List.filter_append, List.filter_append, harrived, hway, List.nil_append,
    List.append_nil] at hperm
  refine hperm.trans (List.Perm.of_eq (List.filter_congr fun pkt hpkt => ?_))
  rw [hlast, decide_eq_true (hdropped pkt hpkt), Bool.true_and]

/-- The sums of what the ledger has returned. -/
theorem Part.Matches.sums (h : p.Matches d) (hd : d.Handled queue handled) :
    (p.answers.map (·.2.lostVolume.toNat)).sum = totalVolume (p.dropped.filter fun pkt =>
        p.answers.getLast?.any fun answer => pkt.seqid < answer.1.receSeqid)
      ∧ (p.answers.map (·.2.lostPktNum.toNat)).sum = (p.dropped.filter fun pkt =>
        p.answers.getLast?.any fun answer => pkt.seqid < answer.1.receSeqid).length
      ∧ (p.answers.map (·.2.receivedVolume.toNat)).sum
        = totalVolume (p.arrived.take p.answers.length) := by
  have hlost := h.undelivered_perm hd
  refine ⟨?_, ?_, ?_⟩
  · rw [← h.lostVolume, hd.lostVolume, hd.countedLost_eq, totalVolume_perm hlost]
  · rw [← h.lostPktNum, hd.lostPktNum, hd.countedLost_eq, hlost.length_eq]
  · have hlen : p.answers.length = d.reported.length := by
      simpa using congrArg List.length h.reported.symm
    rw [← h.receivedVolume, hd.receivedVolume, ← h.delivered, hd.delivered, hlen, List.take_left]

end Losses

end Testbed

end CMTestbed
