import CMTestbed.Proofs.Views
import Mathlib.Algebra.Order.BigOperators.Group.Finset

/-!
# The testbed counts its losses exactly

However the steps of the hosts and of the network are interleaved, a host counts as lost what has
been lost of its packets before the last one that is reported (`losses_exact`).  The testbed
never gets stuck on the way: if nothing more is lost and no receiver ends before the last packet
that comes to it, the testbed comes to a state in which all packets have arrived and all reports are
read (`testbed_drains`).
-/

namespace CMTestbed

open Lib GenerateRulesIntoTables

namespace Testbed

variable {c : Setup} {files : Name → List (PacketS × UInt32)} {tasks : List MonitorTask}
  {s₀ s s' : Testbed} {u w : Name}

/-! ## There is always a next step -/

theorem exists_starts (hready : Ready c files tasks) : ∃ s, Starts c files tasks s := by
  refine ⟨{
    station := fun u => ⟨files u, [], none, dataWarehouseInit c.setting
      ((initTasksInfo (taskFile tasks) u).toOption.getD []), true, []⟩
    net := []
    fifos := fun _ => []
    received := fun _ => 0
    arrived := []
    dropped := [] }, ?_⟩
  refine ⟨fun _ _ => rfl, fun _ _ => rfl, fun u hu => ?_, fun _ _ => rfl, fun _ _ => rfl, rfl,
    fun _ => rfl, fun _ => rfl, rfl, rfl⟩
  have hread := hready.generated.initTasksInfo_eq hready.deployed hu
  refine ⟨_, hread, ?_⟩
  simp only [hread]
  rfl

/-- What is left to do for a host. -/
def work (s : Testbed) (u : Name) : ℕ :=
  63 * (s.station u).file.length + 42 * (s.station u).pending.toList.length
    + 21 * s.net.countP (·.1 = u) + (s.fifos (senderGetFifoFname u)).length

/-- Whether a packet of the host `u` comes to the receiver of the host `w`: its own one handles it
too, and a condition packet comes to all. -/
def comesTo (c : Setup) (w u : Name) (packetBuf : Frame) : Bool :=
  u = w || packetBuf.header.any fun p => p.nwProto = 17 || c.topo.ownsIp w p.nwDst

/-- How many packets of the host `u` are still to come to the receiver of the host `w`. -/
def left (c : Setup) (s : Testbed) (w u : Name) : ℕ :=
  (s.station u).file.countP (fun r => u = w || c.topo.ownsIp w r.1.dstip)
    + (s.station u).pending.toList.countP (comesTo c w u)
    + s.net.countP fun x => x.1 = u && comesTo c w u x.2

/-- How many packets the receiver of a host has handled when no packet is left. -/
def expected (c : Setup) (s : Testbed) (w : Name) : ℕ :=
  s.received w + ∑ u ∈ c.topo.hosts.toFinset, left c s w u

theorem expected_le (hreceived : s'.received w ≤ s.received w)
    (hleft : ∀ u ∈ c.topo.hosts, left c s' w u ≤ left c s w u) :
    expected c s' w ≤ expected c s w :=
  Nat.add_le_add hreceived (Finset.sum_le_sum fun u hu => hleft u (List.mem_toFinset.1 hu))

theorem comesTo_of_carries {pPacket : PacketS} {seqid : UInt32} {packetBuf : Frame}
    (h : Carries c.topo u pPacket seqid packetBuf) :
    comesTo c w u packetBuf = (u = w || c.topo.ownsIp w pPacket.dstip) := by
  rw [comesTo, h.generated.header]
  rfl

/-- A packet comes to each host at most once. -/
theorem count_hosts_le (hready : Ready c files tasks) (hu : u ∈ c.topo.hosts)
    (hw : w ∈ c.topo.hosts) {packetBuf : Frame} (h : Travels c.topo u packetBuf) {p : Header}
    (hp : packetBuf.header = some p) {rs : List Located}
    (hrs : c.topo.Sent c.table p u c.topo.turns rs) :
    ((u :: rs.map Located.entity).filter (· ∈ c.topo.hosts)).count w
      ≤ if comesTo c w u packetBuf then 1 else 0 := by
  obtain ⟨installRuleType, htype, ht⟩ := hready.rules
  have hd := hready.deployed
  rcases h with hcarries | @⟨stack, condition, hown, rfl⟩
  · obtain ⟨v, -, hvu, hdst, hnodes⟩ := hosts_of_generated hd htype ht hu hcarries hp hrs
    have hcomes : comesTo c w u packetBuf = (u = w || c.topo.ownsIp w p.nwDst) := by
      rw [comesTo_of_carries hcarries]
      obtain rfl := Option.some.inj (hcarries.generated.header.symm.trans hp)
      rfl
    rw [hnodes, hcomes]
    by_cases huw : u = w
    · subst huw
      simp [hvu]
    · by_cases hvw : v = w
      · subst hvw
        simp [huw, hdst]
      · simp [huw, hvw]
  · have hcomes : comesTo c w u (sendUdpConditionPkt stack condition) = true := by
      rw [comesTo, header_sendUdpConditionPkt]
      exact Bool.or_true _
    obtain rfl := Option.some.inj ((header_sendUdpConditionPkt _ _).symm.trans hp)
    obtain ⟨hsrc, hone⟩ :=
      (sent_condition hd.toWellFormed hd.paired hd.apart ht hu ⟨rfl, rfl, hown⟩ _).2 rs hrs
    rw [hcomes, if_pos rfl, List.count_filter (by simpa using hw)]
    by_cases huw : u = w
    · subst huw
      rw [List.count_cons_self, List.count_eq_zero_of_not_mem hsrc]
    · have hmem := fun x hx => ((hd.mem_hosts x).1 hx).1
      rw [List.count_cons_of_ne huw, hone w (hmem w hw) (Ne.symm huw)
        (hops_le_turns hd.toConnected (hmem u hu) (hmem w hw))]

/-- A step that loses nothing and leaves less to do for one host. -/
structure Proceeds (c : Setup) (s s' : Testbed) : Prop where
  step : Step c s s'
  dropped : s'.dropped = s.dropped
  expected : ∀ w ∈ c.topo.hosts, expected c s' w ≤ expected c s w
  work : ∃ u ∈ c.topo.hosts, s'.work u < s.work u
    ∧ ∀ w ∈ c.topo.hosts, w ≠ u → s'.work w = s.work w

/-- The next record of a file can be replayed. -/
theorem replay_of_sound (hready : Ready c files tasks) (h : Sound c files tasks s)
    (hu : u ∈ c.topo.hosts) (hfile : (s.station u).file ≠ []) : ∃ r station b,
      (s.station u).replay c.setting 0 = some station
        ∧ (s.station u).file = r :: station.file ∧ station.pending = some b
        ∧ Carries c.topo u r.1 r.2 b := by
  obtain ⟨⟨pPacket, seqid⟩, file, hfile⟩ := List.exists_cons_of_ne_nil hfile
  have hst := h.station u hu
  have hout := (hready.files u hu).outgoing _
    (hst.file.mem (by rw [hfile]; exact List.mem_cons_self))
  obtain ⟨station, hreplay⟩ :=
    exists_replay hready.deployed hready.generated hu hfile hout hst.tasks c.setting 0
  obtain ⟨rfl, ⟨b, hb, hcarries⟩, -⟩ := replay_spec hfile hout hreplay
  exact ⟨_, station, b, hreplay, hfile, hb, hcarries⟩

theorem proceeds_replay (hready : Ready c files tasks) (h : Sound c files tasks s)
    (hu : u ∈ c.topo.hosts) (hpending : (s.station u).pending = none)
    (hfile : (s.station u).file ≠ []) : ∃ s', Proceeds c s s' := by
  obtain ⟨r, station, b, hreplay, hfile, hb, hcarries⟩ := replay_of_sound hready h hu hfile
  refine ⟨_, .replay 0 hu hpending hreplay, rfl, fun w hw => ?_, u, hu, ?_, fun w hw hwu => ?_⟩
  · refine expected_le le_rfl fun x hx => ?_
    by_cases hxu : x = u
    · subst hxu
      simp [left, Testbed.setStation, hfile, hb, hpending, comesTo_of_carries hcarries,
        List.countP_cons]
    · simp [left, Testbed.setStation, hxu]
  · simp [work, Testbed.setStation, hfile, hb, hpending]
    omega
  · simp [work, Testbed.setStation, hwu]

theorem proceeds_send (hu : u ∈ c.topo.hosts) {b : Frame}
    (hpending : (s.station u).pending = some b) : ∃ s', Proceeds c s s' := by
  refine ⟨_, .send hu hpending, rfl, fun w hw => ?_, u, hu, ?_, fun w hw hwu => ?_⟩
  · refine expected_le le_rfl fun x hx => ?_
    by_cases hxu : x = u
    · subst hxu
      simp [left, Testbed.setStation, hpending, List.countP_cons]
      omega
    · simp [left, Testbed.setStation, hxu, Ne.symm hxu]
  · simp [work, Testbed.setStation, hpending]
    omega
  · simp [work, Testbed.setStation, hwu, Ne.symm hwu]

/-- A packet that is the first of its flow can arrive, whatever way it takes. -/
theorem exists_arrive (hready : Ready c files tasks) (hu : u ∈ c.topo.hosts) {packetBuf : Frame}
    (h : Travels c.topo u packetBuf) : ∃ p, packetBuf.header = some p
      ∧ (∃ rs, c.topo.Sent c.table p u c.topo.turns rs)
      ∧ ∀ rs, c.topo.Sent c.table p u c.topo.turns rs → ∀ padding receivers, ∃ receivers',
        c.topo.receiveAt (u :: rs.map Located.entity) packetBuf padding receivers
          = some receivers' := by
  obtain ⟨installRuleType, htype, ht⟩ := hready.rules
  have hd := hready.deployed
  rcases h with hcarries | ⟨stack, hown, rfl⟩
  · obtain ⟨-, v, hv, hvu, hdst⟩ := hcarries.between
    refine ⟨_, hcarries.generated.header, ?_, fun rs hrs padding receivers => ?_⟩
    · exact (sent_normal hd.toWellFormed hd.paired hd.apart htype ht
        (normalPacket_of_generated hv hdst) hu hvu.symm (hops_le_turns hd.toConnected
          ((hd.mem_hosts u).1 hu).1 ((hd.mem_hosts v).1 hv).1)).1
    · obtain ⟨v, hv, hvu, hdst, hnodes⟩ :=
        hosts_of_generated hd htype ht hu hcarries hcarries.generated.header hrs
      obtain ⟨received, hreceive⟩ := receiveAt_generated hd hready.senders hu hcarries
        hcarries.generated.header hv hvu hdst hnodes padding receivers
      exact ⟨_, hreceive⟩
  · refine ⟨_, header_sendUdpConditionPkt _ _, ?_, fun rs hrs padding receivers => ?_⟩
    · exact (sent_condition hd.toWellFormed hd.paired hd.apart ht hu ⟨rfl, rfl, hown⟩ _).1
    · obtain ⟨received, hreceive⟩ := receiveAt_condition (t := c.topo) stack _
        (u :: rs.map Located.entity) padding receivers
      exact ⟨_, hreceive⟩

/-- A packet adds at most one report, to the FIFO of its own host. -/
theorem fifos_of_receiveAt_le (hready : Ready c files tasks) (hu : u ∈ c.topo.hosts)
    {packetBuf : Frame} (h : Travels c.topo u packetBuf) {p : Header}
    (hp : packetBuf.header = some p) {rs : List Located}
    (hrs : c.topo.Sent c.table p u c.topo.turns rs) {padding : Name → Recv2SendProto.Padding}
    {receivers receivers' : Receivers}
    (hreceive : c.topo.receiveAt (u :: rs.map Located.entity) packetBuf padding receivers
      = some receivers') :
    (receivers'.fifos (senderGetFifoFname u)).length
        ≤ (receivers.fifos (senderGetFifoFname u)).length + 20
      ∧ ∀ w ∈ c.topo.hosts, w ≠ u →
        receivers'.fifos (senderGetFifoFname w) = receivers.fifos (senderGetFifoFname w) := by
  rcases fifos_of_receiveAt hready hu h hp hrs hreceive with
    ⟨-, hfifos⟩ | ⟨r, v, -, -, padding', hfifos⟩
  · rw [hfifos]
    exact ⟨Nat.le_add_right _ _, fun _ _ _ => rfl⟩
  · rw [hfifos]
    split_ifs
    · refine ⟨?_, fun w hw hwu => Function.update_of_ne (hready.fifo_ne hw hu hwu) _ _⟩
      have hlen := Recv2SendProto.length_bytes ⟨r.1, r.2.seqid⟩ padding'
      rw [Function.update_self, writeConditionToFIFO, List.length_append, hlen]
      rfl
    · exact ⟨Nat.le_add_right _ _, fun _ _ _ => rfl⟩

/-- With a packet that has left the network, the receivers that it comes to have one less to
come. -/
theorem sum_left_of_net (s₁ : Testbed) (hu : u ∈ c.topo.hosts) {packetBuf : Frame}
    (hnet : s.net = (u, packetBuf) :: s₁.net) (hstation : s₁.station = s.station) (w : Name) :
    ∑ x ∈ c.topo.hosts.toFinset, left c s w x
      = ∑ x ∈ c.topo.hosts.toFinset, left c s₁ w x
        + if comesTo c w u packetBuf then 1 else 0 := by
  have hone : ∀ x, left c s w x
      = left c s₁ w x + if u = x then (if comesTo c w u packetBuf then 1 else 0) else 0 := by
    intro x
    rw [left, left, hnet, hstation, List.countP_cons]
    by_cases hux : u = x
    · subst hux
      simp only [decide_true, Bool.true_and, if_true]
      omega
    · simp [hux]
  simp only [hone, Finset.sum_add_distrib, Finset.sum_ite_eq, List.mem_toFinset, hu, if_true]

theorem proceeds_arrive (hready : Ready c files tasks) (h : Sound c files tasks s)
    (hexpected : ∀ w ∈ c.topo.hosts, expected c s w ≤ pcapLoopCnt)
    (hnet : s.net ≠ []) : ∃ s', Proceeds c s s' := by
  obtain ⟨⟨u, packetBuf⟩, after, hnet⟩ := List.exists_cons_of_ne_nil hnet
  obtain ⟨hu, htravels⟩ : u ∈ c.topo.hosts ∧ Travels c.topo u packetBuf :=
    h.net (u, packetBuf) (by rw [hnet]; exact List.mem_cons_self)
  obtain ⟨p, hp, ⟨rs, hrs⟩, hall⟩ := exists_arrive hready hu htravels
  obtain ⟨receivers, hreceive⟩ := hall rs hrs (fun _ => (0, 0, 0)) s.toReceivers
  have hfirst : s.net = [] ++ (u, packetBuf) :: after := hnet
  obtain ⟨hfifo, hother⟩ := fifos_of_receiveAt_le hready hu htravels hp hrs hreceive
  have hcount := fun w hw => count_hosts_le (w := w) hready hu hw htravels hp hrs
  have hgoing : ∀ v ∈ rs.map Located.entity, v ∈ c.topo.hosts → s.received v < pcapLoopCnt := by
    intro v hv hhost
    have hone : 1 ≤ ((u :: rs.map Located.entity).filter (· ∈ c.topo.hosts)).count v :=
      List.count_pos_iff.2 (List.mem_filter.2 ⟨List.mem_cons_of_mem _ hv, by simpa using hhost⟩)
    have hle := hexpected v hhost
    rw [expected, sum_left_of_net { s with net := after } hu hnet rfl] at hle
    have := hcount v hhost
    omega
  obtain ⟨s₁, hs₁, hreceivers, hstation, hnet₁, hdropped⟩ : ∃ s₁, Step c s s₁
      ∧ s₁.toReceivers = receivers ∧ s₁.station = s.station ∧ s.net = (u, packetBuf) :: s₁.net
      ∧ s₁.dropped = s.dropped :=
    ⟨_, .arrive _ hfirst nofun hp hrs hreceive hgoing, rfl, rfl, hnet, rfl⟩
  subst hreceivers
  refine ⟨s₁, hs₁, hdropped, fun w hw => ?_, u, hu, ?_, fun w hw hwu => ?_⟩
  · have hreceived : s₁.received w ≤ s.received w
        + ((u :: rs.map Located.entity).filter (· ∈ c.topo.hosts)).count w := by
      rw [received_receiveAt hreceive]
      exact foldl_countPacket_le _ _ _
    have := hcount w hw
    rw [expected, expected, sum_left_of_net s₁ hu hnet₁ hstation]
    omega
  · simp [work, hnet₁, hstation]
    omega
  · simp [work, hnet₁, hstation, hother w hw hwu, Ne.symm hwu]

theorem proceeds_report (hready : Ready c files tasks) (hu : u ∈ c.topo.hosts)
    (hreading : (s.station u).reading = true) (hwaiting : s.fifos (senderGetFifoFname u) ≠ []) :
    ∃ s', Proceeds c s s' := by
  refine ⟨_, .report 0 hu hreading hwaiting, rfl, fun w hw => ?_, u, hu, ?_, fun w hw hwu => ?_⟩
  · refine expected_le le_rfl fun x hx => ?_
    by_cases hxu : x = u
    · subst hxu
      rcases hread : (readConditionFromFIFO (s.fifos (senderGetFifoFname x))).1 with _ | p <;>
        simp [left, Testbed.setStation, Station.update]
    · simp [left, Testbed.setStation, hxu]
  · have hlen := List.length_pos_iff.2 hwaiting
    have hsize : Recv2SendProto.size = 20 := rfl
    have hrest : (readConditionFromFIFO (s.fifos (senderGetFifoFname u))).2.length
        = (s.fifos (senderGetFifoFname u)).length - 20 := by
      rw [readConditionFromFIFO, List.length_drop, hsize]
    rcases hread : (readConditionFromFIFO (s.fifos (senderGetFifoFname u))).1 with _ | p <;>
      simp [work, Testbed.setStation, Station.update, hrest] <;> omega
  · have hfifo := hready.fifo_ne hw hu hwu
    simp [work, Testbed.setStation, hwu, hfifo]

/-- Nothing is left to do. -/
structure Drained (c : Setup) (s : Testbed) : Prop where
  file : ∀ u ∈ c.topo.hosts, (s.station u).file = []
  pending : ∀ u ∈ c.topo.hosts, (s.station u).pending = none
  fifo : ∀ u ∈ c.topo.hosts, s.fifos (senderGetFifoFname u) = []
  net : s.net = []

theorem drained_or_proceeds (hready : Ready c files tasks) (h : Sound c files tasks s)
    (hexpected : ∀ w ∈ c.topo.hosts, expected c s w ≤ pcapLoopCnt)
    (hreading : ∀ u ∈ c.topo.hosts, (s.station u).reading = true) :
    Drained c s ∨ ∃ s', Proceeds c s s' := by
  by_cases hnet : s.net = []
  swap
  · exact .inr (proceeds_arrive hready h hexpected hnet)
  by_cases hpending : ∃ u ∈ c.topo.hosts, (s.station u).pending ≠ none
  · obtain ⟨u, hu, hne⟩ := hpending
    obtain ⟨b, hb⟩ := Option.ne_none_iff_exists'.1 hne
    exact .inr (proceeds_send hu hb)
  by_cases hfile : ∃ u ∈ c.topo.hosts, (s.station u).file ≠ []
  · obtain ⟨u, hu, hne⟩ := hfile
    exact .inr (proceeds_replay hready h hu (by_contra fun hp => hpending ⟨u, hu, hp⟩) hne)
  by_cases hfifo : ∃ u ∈ c.topo.hosts, s.fifos (senderGetFifoFname u) ≠ []
  · obtain ⟨u, hu, hne⟩ := hfifo
    exact .inr (proceeds_report hready hu (hreading u hu) hne)
  push Not at hpending hfile hfifo
  exact .inl ⟨hfile, hpending, hfifo, hnet⟩

/-- Without further losses the testbed comes to a state in which nothing is left to do. -/
theorem drains_of_runs (hready : Ready c files tasks) (hstart : Starts c files tasks s₀)
    (hrun : Runs c s₀ s) (hexpected : ∀ w ∈ c.topo.hosts, expected c s w ≤ pcapLoopCnt) :
    ∃ s', Runs c s s' ∧ s'.dropped = s.dropped ∧ Drained c s' := by
  induction hn : ∑ u ∈ c.topo.hosts.toFinset, s.work u using Nat.strong_induction_on
    generalizing s with
  | _ n ih =>
    have hreading : ∀ u ∈ c.topo.hosts, (s.station u).reading = true := fun u hu => by
      obtain ⟨es, d, -, hf⟩ := follows_of_runs hready hstart hrun hu
      exact hf.reading
    rcases drained_or_proceeds hready (sound_of_runs hready hstart hrun) hexpected hreading with
      hdrained | ⟨s₁, hs₁⟩
    · exact ⟨s, .refl, rfl, hdrained⟩
    · obtain ⟨u, hu, hlt, hother⟩ := hs₁.work
      have hless : ∑ u ∈ c.topo.hosts.toFinset, s₁.work u < n := by
        rw [← hn]
        refine Finset.sum_lt_sum (fun w hw => ?_) ⟨u, List.mem_toFinset.2 hu, hlt⟩
        by_cases hwu : w = u
        · exact hwu ▸ hlt.le
        · exact (hother w (List.mem_toFinset.1 hw) hwu).le
      obtain ⟨s', hrun', hdropped, hdrained⟩ := ih _ hless (hrun.tail hs₁.step)
        (fun w hw => (hs₁.expected w hw).trans (hexpected w hw)) rfl
      exact ⟨s', .head hs₁.step hrun', hdropped.trans hs₁.dropped, hdrained⟩

/-! ## Before anything arrives -/

/-- Nothing is on its way, and no receiver has handled a packet. -/
structure Quiet (c : Setup) (s : Testbed) : Prop where
  received : ∀ w, s.received w = 0
  net : s.net = []
  pending : ∀ u ∈ c.topo.hosts, (s.station u).pending = none

theorem Starts.quiet (h : Starts c files tasks s) : Quiet c s := ⟨h.received, h.net, h.pending⟩

/-- What is in the files is all that is still to come. -/
theorem Quiet.expected_le (h : Quiet c s) (hsound : Sound c files tasks s) (w : Name) :
    expected c s w ≤ ∑ u ∈ c.topo.hosts.toFinset, (files u).length := by
  rw [expected, h.received, Nat.zero_add]
  refine Finset.sum_le_sum fun u hu => ?_
  have hu := List.mem_toFinset.1 hu
  rw [left, h.net, h.pending u hu]
  exact List.countP_le_length.trans (hsound.station u hu).file.length_le

/-- The next packet of a host can be lost before a receiver has handled it. -/
theorem Quiet.lose (hready : Ready c files tasks) (hsound : Sound c files tasks s) (h : Quiet c s)
    (hu : u ∈ c.topo.hosts) (hfile : (s.station u).file ≠ []) : ∃ b s', Runs c s s' ∧ Quiet c s'
      ∧ s'.dropped = s.dropped ++ [(u, b)] := by
  obtain ⟨r, station, b, hreplay, -, hb, -⟩ := replay_of_sound hready hsound hu hfile
  have hreplayed : Step c s (s.setStation u station) := .replay 0 hu (h.pending u hu) hreplay
  have hpending : ((s.setStation u station).station u).pending = some b := by
    simpa [Testbed.setStation] using hb
  obtain ⟨s₂, hsent, hnone, hreceived, hnet, hdropped⟩ : ∃ s₂, Step c (s.setStation u station) s₂
      ∧ (∀ w ∈ c.topo.hosts, (s₂.station w).pending = none) ∧ s₂.received = s.received
      ∧ s₂.net = [] ++ (u, b) :: [] ∧ s₂.dropped = s.dropped := by
    refine ⟨_, .send hu hpending, fun w hw => ?_, rfl, by simp [Testbed.setStation, h.net], rfl⟩
    by_cases hwu : w = u
    · simp [Testbed.setStation, hwu]
    · simp [Testbed.setStation, hwu, h.pending w hw]
  have hlost := Step.drop (c := c) hnet fun w => .inl (rfl : s₂.received w = s₂.received w)
  exact ⟨b, _, ((Relation.ReflTransGen.single hreplayed).tail hsent).tail hlost,
    ⟨fun w => (congrFun hreceived w).trans (h.received w), rfl, hnone⟩,
    congrArg (· ++ [(u, b)]) hdropped⟩

/-! ## An example -/

/-- Two packets from `h1` to `h4`. -/
def diamondFiles (u : Name) : List (PacketS × UInt32) :=
  if u = chars "h1" then [(diamondPacket 13, 1), (diamondPacket 13, 2)] else []

theorem diamondFiles_replayable (u : Name) : Replayable diamond u (diamondFiles u) := by
  by_cases hu : u = chars "h1"
  swap
  · rw [diamondFiles, if_neg hu]
    constructor <;> simp [packetsOf]
  have hsub : ∀ flow : FlowS, (ofRank flow.rank (packetsOf (diamondFiles u))).Sublist
      [⟨1, 158⟩, ⟨2, 158⟩] := by
    intro flow
    have hall : (packetsOf (diamondFiles u)).map Prod.snd = [⟨1, 158⟩, ⟨2, 158⟩] := by
      rw [diamondFiles, if_pos hu]
      rfl
    rw [← hall]
    exact List.filter_sublist.map _
  constructor
  · have hout : Outgoing diamond (chars "h1") (diamondPacket 13) :=
      ⟨diamond_owns.1, chars "h4", by simp [hosts_diamond], diamond_names.2.symm,
        diamond_owns.2.2⟩
    rw [diamondFiles, if_pos hu, hu]
    simpa using hout
  · exact fun flow => List.Pairwise.sublist (hsub flow) (by decide)
  · have hle : ∀ flow : FlowS, totalVolume (ofRank flow.rank (packetsOf (diamondFiles u))) ≤ 316 :=
      fun flow => ((hsub flow).map _).sum_le_sum fun _ _ => Nat.zero_le _
    exact fun flow => (hle flow).trans_lt (by decide)
  · exact fun flow => (hsub flow).length_le.trans_lt (by decide)

theorem diamond_ready : ∃ c tasks, c.topo = diamond ∧ Ready c diamondFiles tasks := by
  obtain ⟨table, ht⟩ := diamond_installed
  obtain ⟨tasks, -, htasks, -⟩ := diamond_tasks
  exact ⟨⟨diamond, table, exampleSetting⟩, tasks, rfl, diamond_deployed, diamond_numbers,
    ⟨_, by decide, ht⟩, .inl htasks, fun u _ => diamondFiles_replayable u⟩

theorem expected_diamond (htopo : c.topo = diamond) (h : Quiet c s)
    (hsound : Sound c diamondFiles tasks s) : ∀ w ∈ c.topo.hosts, expected c s w ≤ pcapLoopCnt := by
  have hlength : ∀ u, (diamondFiles u).length ≤ 2 := by
    intro u
    rw [diamondFiles]
    split <;> simp
  intro w _
  calc expected c s w
    _ ≤ ∑ u ∈ c.topo.hosts.toFinset, (diamondFiles u).length := h.expected_le hsound w
    _ ≤ c.topo.hosts.toFinset.card * 2 := Finset.sum_le_card_nsmul _ _ _ fun u _ => hlength u
    _ ≤ c.topo.hosts.length * 2 := Nat.mul_le_mul_right 2 (List.toFinset_card_le _)
    _ ≤ pcapLoopCnt := by
      rw [htopo, hosts_diamond]
      decide

/-- The first packet is lost, and the second one arrives. -/
theorem diamond_run : ∃ c tasks s₀ s, c.topo = diamond ∧ Ready c diamondFiles tasks
    ∧ Starts c diamondFiles tasks s₀ ∧ Runs c s₀ s ∧ Drained c s
    ∧ s.dropped.map Prod.fst = [chars "h1"] := by
  obtain ⟨c, tasks, htopo, hready⟩ := diamond_ready
  obtain ⟨s₀, hstart⟩ := exists_starts hready
  have hu : chars "h1" ∈ c.topo.hosts := by simp [htopo, hosts_diamond]
  have hfile : (s₀.station (chars "h1")).file ≠ [] := by simp [hstart.file _ hu, diamondFiles]
  obtain ⟨b, s₁, hrun, hquiet, hdropped⟩ := hstart.quiet.lose hready (sound_init hstart) hu hfile
  obtain ⟨s, hrun', hdropped', hdrained⟩ := drains_of_runs hready hstart hrun
    (expected_diamond htopo hquiet (sound_of_runs hready hstart hrun))
  refine ⟨c, tasks, s₀, s, htopo, hready, hstart, hrun.trans hrun', hdrained, ?_⟩
  rw [hdropped', hdropped, hstart.dropped]
  rfl

/-! ## What comes of a run -/

/-- Whatever the network loses and however the steps are interleaved, each host and its packets
follow a run of the protocol of packets and reports in flight. -/
theorem testbed_refines (hready : Ready c files tasks) (hstart : Starts c files tasks s₀)
    (hrun : Runs c s₀ s) (hu : u ∈ c.topo.hosts) : ∃ es d,
      Delivery.system.run Delivery.init es = some d ∧ Follows (files u) (s.view u) d :=
  follows_of_runs hready hstart hrun hu

theorem testbed_refines_diamond : ∃ c s₀ s, Runs c s₀ s
    ∧ s.dropped.map Prod.fst = [chars "h1"] ∧ ∃ es d,
      Delivery.system.run Delivery.init es = some d
        ∧ Follows (diamondFiles (chars "h1")) (s.view (chars "h1")) d := by
  obtain ⟨c, tasks, s₀, s, htopo, hready, hstart, hrun, -, hdropped⟩ := diamond_run
  have hu : chars "h1" ∈ c.topo.hosts := by simp [htopo, hosts_diamond]
  exact ⟨c, s₀, s, hrun, hdropped, testbed_refines hready hstart hrun hu⟩

/-- In every state that the testbed comes to, each host still reads its reports, and of every flow
the volume and the number of its packets that the host counts as lost are those of the packets that
were lost before the last one that is reported; the volumes received are those of the packets that
have come first. -/
theorem losses_exact (hready : Ready c files tasks) (hstart : Starts c files tasks s₀)
    (hrun : Runs c s₀ s) (hu : u ∈ c.topo.hosts) :
    (s.station u).reading = true ∧ ∀ flow : FlowS,
      (((s.station u).answersOf flow).map (·.2.lostVolume.toNat)).sum
          = totalVolume (s.lost u flow)
        ∧ (((s.station u).answersOf flow).map (·.2.lostPktNum.toNat)).sum = (s.lost u flow).length
        ∧ (((s.station u).answersOf flow).map (·.2.receivedVolume.toNat)).sum
          = totalVolume ((ofRank flow.rank (sentBy u s.arrived)).take
            ((s.station u).answersOf flow).length) := by
  obtain ⟨es, d, hd, hf⟩ := follows_of_runs hready hstart hrun hu
  obtain ⟨done, waiting, -, -, hflows⟩ := hf.flows
  refine ⟨hf.reading, fun flow => ?_⟩
  obtain ⟨handled, hhandled⟩ :=
    Lib.System.run_inv Delivery.inv_step Delivery.inv_init hd flow
  exact (hflows flow.rank).sums hhandled

theorem losses_exact_diamond : ∃ c s₀ s, Runs c s₀ s ∧ s.dropped.map Prod.fst = [chars "h1"]
    ∧ (s.station (chars "h1")).reading = true ∧ ∀ flow : FlowS,
      (((s.station (chars "h1")).answersOf flow).map (·.2.lostVolume.toNat)).sum
        = totalVolume (s.lost (chars "h1") flow) := by
  obtain ⟨c, tasks, s₀, s, htopo, hready, hstart, hrun, -, hdropped⟩ := diamond_run
  have hu : chars "h1" ∈ c.topo.hosts := by simp [htopo, hosts_diamond]
  obtain ⟨hreading, hlosses⟩ := losses_exact hready hstart hrun hu
  exact ⟨c, s₀, s, hrun, hdropped, hreading, fun flow => (hlosses flow).1⟩

/-- In a state with nothing left to do, all that arrived is reported, and the rest was lost. -/
theorem accounted_of_drained (hready : Ready c files tasks) (hstart : Starts c files tasks s₀)
    (hrun : Runs c s₀ s) (hdrained : Drained c s) (hu : u ∈ c.topo.hosts) (flow : FlowS) :
    totalVolume (ofRank flow.rank (packetsOf (files u)))
      = (((s.station u).answersOf flow).map (·.2.receivedVolume.toNat)).sum
        + totalVolume (ofRank flow.rank (sentBy u s.dropped)) := by
  obtain ⟨es, d, hd, hf⟩ := follows_of_runs hready hstart hrun hu
  obtain ⟨done, waiting, hsplit, hholds, hflows⟩ := hf.flows
  obtain ⟨handled, hhandled⟩ :=
    Lib.System.run_inv Delivery.inv_step Delivery.inv_init hd flow
  have hm := hflows flow.rank
  have hnil : waiting = [] := hholds.eq_nil_iff.1 (hdrained.fifo u hu)
  have hfile : (s.view u).station.file = [] := hdrained.file u hu
  have hpart : (s.view u).part done waiting flow.rank = ⟨[], [], [],
      ofRank flow.rank (packetsOf (files u)), ofRank flow.rank (sentBy u s.arrived),
      ofRank flow.rank (sentBy u s.dropped), (s.station u).answersOf flow⟩ := by
    rw [hsplit, hfile, hnil]
    simp [View.part, view, hdrained.pending u hu, hdrained.net, Station.answersOf]
  rw [hpart] at hm
  have hreports : (d.flows flow.rank).reports = [] := List.map_eq_nil_iff.1 hm.reports
  have hreported : (d.flows flow.rank).reported = ofRank flow.rank (sentBy u s.arrived) := by
    have hdel := hhandled.delivered
    rw [hreports, List.append_nil] at hdel
    exact hdel.symm.trans hm.delivered
  have hconserved := totalVolume_perm hm.conserved
  simp only [List.append_nil, totalVolume_append] at hconserved
  rw [hconserved, ← hreported, ← hhandled.receivedVolume, hm.receivedVolume]

/-- From every state that the testbed comes to in which no receiver is to handle more packets than
its loop allows, if nothing more is lost, it can come to one in which all files are replayed,
nothing is on its way and no report waits; and there, of every flow of every host, the volume that
was sent is the one received and the one that was lost. -/
theorem testbed_drains (hready : Ready c files tasks) (hstart : Starts c files tasks s₀)
    (hrun : Runs c s₀ s) (hexpected : ∀ w ∈ c.topo.hosts, expected c s w ≤ pcapLoopCnt) :
    ∃ s', Runs c s s' ∧ s'.dropped = s.dropped ∧ Drained c s'
      ∧ ∀ u ∈ c.topo.hosts, ∀ flow : FlowS,
        totalVolume (ofRank flow.rank (packetsOf (files u)))
          = (((s'.station u).answersOf flow).map (·.2.receivedVolume.toNat)).sum
            + totalVolume (ofRank flow.rank (sentBy u s'.dropped)) := by
  obtain ⟨s', hrun', hdropped, hdrained⟩ := drains_of_runs hready hstart hrun hexpected
  exact ⟨s', hrun', hdropped, hdrained, fun u hu =>
    accounted_of_drained hready hstart (hrun.trans hrun') hdrained hu⟩

theorem testbed_drains_diamond : ∃ c s₀ s', Runs c s₀ s' ∧ s'.dropped = [] ∧ Drained c s'
    ∧ ∀ flow : FlowS, totalVolume (ofRank flow.rank (packetsOf (diamondFiles (chars "h1"))))
      = (((s'.station (chars "h1")).answersOf flow).map (·.2.receivedVolume.toNat)).sum := by
  obtain ⟨c, tasks, htopo, hready⟩ := diamond_ready
  obtain ⟨s₀, hstart⟩ := exists_starts hready
  have hu : chars "h1" ∈ c.topo.hosts := by simp [htopo, hosts_diamond]
  obtain ⟨s', hrun, hdropped, hdrained, hall⟩ := testbed_drains hready hstart .refl
    (expected_diamond htopo hstart.quiet (sound_init hstart))
  rw [hstart.dropped] at hdropped
  refine ⟨c, s₀, s', hrun, hdropped, hdrained, fun flow => ?_⟩
  simpa [hdropped] using hall _ hu flow

end Testbed

end CMTestbed
