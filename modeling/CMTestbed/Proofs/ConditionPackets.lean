import CMTestbed.ConditionPackets
import CMTestbed.Proofs.Conditions
import CMTestbed.Proofs.Deployed
import CMTestbed.Proofs.Generate

/-!
# The conditions reach the switches

A condition packet says which flow it is about and what level it has, whatever its unassigned fields
hold, and a receiver reports none (`condition_sendUdpConditionPkt`).  The levels in a sender's table
fit in the two bits of the tag (`Known`).  So in every run each switch can read off, packet by
packet, what the sender has sent, and gets each packet once.
-/

namespace CMTestbed

/-! ## One packet -/

section Packet

variable (stack : Unassigned) (condition : Condition)

theorem u16_type_sendUdpConditionPkt :
    (sendUdpConditionPkt stack condition).u16 12 = some ethertypeVlan
      ∧ (sendUdpConditionPkt stack condition).u16 16 = some ethertypeIp := ⟨rfl, rfl⟩

theorem header_sendUdpConditionPkt : (sendUdpConditionPkt stack condition).header
    = some ⟨0x0800, 17, condition.flow.srcip, condition.flow.dstip⟩ := by
  have hvlan := (u16_type_sendUdpConditionPkt stack condition).1
  have hip := (u16_type_sendUdpConditionPkt stack condition).2
  have hproto : (sendUdpConditionPkt stack condition).u8 27 = some 0x11 := rfl
  have hsrc : (sendUdpConditionPkt stack condition).u32 30 = some condition.flow.srcip := by
    refine Frame.u32_of_netBytes fun k hk => ?_
    interval_cases k <;> rfl
  have hdst : (sendUdpConditionPkt stack condition).u32 34 = some condition.flow.dstip := by
    refine Frame.u32_of_netBytes fun k hk => ?_
    interval_cases k <;> rfl
  simp only [Frame.header, hvlan, hip, if_true, Option.bind_eq_bind, Option.bind_some, hproto, hsrc,
    hdst]
  rfl

theorem hostU16_sendUdpConditionPkt : (sendUdpConditionPkt stack condition).hostU16 14
    = some (tagVlanSelectedFlowVal condition.selectedLevel) := by
  have hlen : 14 + 1 < ethernetHeaderVlan.length := by decide
  rw [← Frame.hostU16_setHostU16 (v := tagVlanSelectedFlowVal condition.selectedLevel) hlen]
  rfl

theorem length_sendUdpConditionPkt : (sendUdpConditionPkt stack condition).length = 46 := by
  have hlen :
      (tagPacketSelectedLevel ethernetHeaderVlan 0 condition.selectedLevel).length = 18 := by
    rw [tagPacketSelectedLevel, Frame.length_setHostU16]
    rfl
  rw [sendUdpConditionPkt, List.length_append, List.length_append, hlen]
  rfl

/-- A receiver counts it, and reports nothing. -/
theorem gotPacket_sendUdpConditionPkt (netIdentity : UInt32) :
    gotPacket netIdentity (sendUdpConditionPkt stack condition) = none := rfl

variable {condition}

theorem condition_sendUdpConditionPkt (h₀ : 0 ≤ condition.selectedLevel)
    (h₃ : condition.selectedLevel ≤ 3) :
    (sendUdpConditionPkt stack condition).condition = some condition := by
  have hlevel := (packetBits_spec h₀ h₃ false).2.2.1
  have hbits : packetBits condition.selectedLevel false
      = tagVlanSelectedFlowVal condition.selectedLevel := by simp [packetBits]
  rw [hbits] at hlevel
  simp only [Frame.condition, header_sendUdpConditionPkt, hostU16_sendUdpConditionPkt,
    Option.bind_eq_bind, Option.bind_some, hlevel, Option.pure_def]

end Packet

/-! ## The levels that are sent -/

/-- A level that fits in the tag. -/
def IsLevel (n : ℤ) : Prop := 0 ≤ n ∧ n ≤ 3

/-- The packets of conditions say them, in their order. -/
theorem mapM_condition {conditions : List Condition} {packets : List Frame}
    (hpackets : List.Forall₂ (fun condition packet => ∃ stack, packet
      = sendUdpConditionPkt stack condition) conditions packets)
    (hlevels : ∀ condition ∈ conditions, IsLevel condition.selectedLevel) :
    packets.mapM Frame.condition = some conditions := by
  induction hpackets with
  | nil => rfl
  | @cons condition packet conditions packets hpacket _ ih =>
    obtain ⟨stack, rfl⟩ := hpacket
    obtain ⟨⟨h₀, h₃⟩, hrest⟩ := List.forall_mem_cons.1 hlevels
    simp [List.mapM_cons, condition_sendUdpConditionPkt stack h₀ h₃, ih hrest]

/-- A table of such levels, of flows with `P`. -/
def LevelsOf (P : FlowSrc → Prop) (map : HtKfsVi) : Prop :=
  ∀ f, map.get f ≠ none → P f ∧ IsLevel (htKfsViGet map f)

theorem levelsOf_update {P : FlowSrc → Prop} {map : HtKfsVi} (h : LevelsOf P map)
    (setting : CmExperimentSetting) {pFlow : FlowSrc} (hflow : P pFlow) (volume lossVolume : ℤ)
    (lossRate : ℚ) :
    LevelsOf P (updateFlowSelectedLevelMap setting map pFlow volume lossVolume lossRate) := by
  have hset : ∀ n : ℤ, IsLevel (toInt (toUInt n)) →
      LevelsOf P (htKfsViSet map pFlow (toUInt n)) := by
    intro n hn f hf
    rw [htKfsViGet, htKfsViSet, get_set]
    rw [htKfsViSet, get_set] at hf
    split_ifs at hf ⊢ with hfp
    · exact ⟨hfp ▸ hflow, hn⟩
    · exact h f hf
  have hdel : LevelsOf P (htKfsViDel map pFlow) := by
    intro f hf
    rw [htKfsViGet, htKfsViDel, get_del]
    rw [htKfsViDel, get_del] at hf
    split_ifs at hf ⊢ with hfp
    · exact absurd rfl hf
    · exact h f hf
  unfold updateFlowSelectedLevelMap
  dsimp only
  split_ifs
  · exact hset targetLevel (by unfold IsLevel; decide)
  · exact hset selectedLevel (by unfold IsLevel; decide)
  · exact hdel
  · exact hdel

namespace Conditions

variable {P : FlowSrc → Prop} {s s' : Conditions} {setting : CmExperimentSetting} {e : Event}

/-- What the sender's locals hold. -/
def KnownLocals (P : FlowSrc → Prop) : ConditionPhase → Prop
  | .plusGet key level | .plusSend key level => P key ∧ IsLevel level
  | .minusGet key | .minusSend key | .copySet key _ => P key
  | _ => True

/-- The flows that the sender knows of have `P`, and their levels fit in the tag. -/
structure Known (P : FlowSrc → Prop) (s : Conditions) : Prop where
  active : LevelsOf P s.levelMap
  unactive : LevelsOf P s.warehouse.unactive.flowSelectedLevelMap
  lastSent : ∀ f, s.lastSentMap.get f ≠ none → P f
  locals : KnownLocals P s.phase
  sent : ∀ c ∈ s.sent, P c.flow ∧ IsLevel c.selectedLevel

theorem known_init (setting : CmExperimentSetting) (tasks : List Task) :
    (init setting tasks).Known P where
  active := fun f hf => absurd (Lib.Table.get_create f) hf
  unactive := fun f hf => absurd (Lib.Table.get_create f) hf
  lastSent := fun f hf => absurd (Lib.Table.get_create f) hf
  locals := trivial
  sent := nofun

/-- The entry that the cursor comes to is in the table. -/
theorem get_of_htKfsViNext {hashtable : HtKfsVi} {key : FlowSrc} {value : UInt32}
    (h : (htKfsViNext hashtable).2 = some (key, value)) : hashtable.get key = some value :=
  (Lib.Table.next_some h).1

theorem known_advance (h : s.Known P) : s.advance.Known P := by
  obtain ⟨hget, hunactive, -⟩ := advance_frame s
  have hactive : LevelsOf P s.advance.levelMap := by
    intro f hf
    rw [hget] at hf
    have hlevel := h.active f hf
    unfold htKfsViGet at hlevel ⊢
    rwa [hget]
  have hunact : LevelsOf P s.advance.warehouse.unactive.flowSelectedLevelMap := by
    rw [hunactive]
    exact h.unactive
  have hlocals := h.locals
  suffices hrest : (∀ f, s.advance.lastSentMap.get f ≠ none → P f)
      ∧ KnownLocals P s.advance.phase
      ∧ ∀ c ∈ s.advance.sent, P c.flow ∧ IsLevel c.selectedLevel from
    ⟨hactive, hunact, hrest.1, hrest.2.1, hrest.2.2⟩
  rcases hp : s.phase with _ | _ | _ | ⟨key, level⟩ | ⟨key, level⟩ | _ | key | key | _ | _ |
      ⟨key, value⟩ <;> rw [hp] at hlocals
  · simpa [advance, hp, KnownLocals] using ⟨h.lastSent, h.sent⟩
  · simpa [advance, hp, KnownLocals] using ⟨h.lastSent, h.sent⟩
  · rcases hn : (htKfsViNext s.levelMap).2 with _ | ⟨key, value⟩
    · simpa [advance, hp, hn, KnownLocals] using ⟨h.lastSent, h.sent⟩
    · have hkey := get_of_htKfsViNext hn
      have hlevel := h.active key (by simp [hkey])
      rw [htKfsViGet, hkey] at hlevel
      simpa [advance, hp, hn, KnownLocals] using ⟨h.lastSent, hlevel, h.sent⟩
  · simp only [advance, hp]
    split_ifs
    · simpa [KnownLocals] using ⟨h.lastSent, h.sent⟩
    · simpa [KnownLocals] using ⟨h.lastSent, hlocals, h.sent⟩
  · have hsent : ∀ c, c ∈ s.sent ∨ c = ⟨key, level⟩ → P c.flow ∧ IsLevel c.selectedLevel := by
      rintro c (hc | rfl)
      · exact h.sent c hc
      · exact hlocals
    simpa [advance, hp, KnownLocals] using ⟨h.lastSent, hsent⟩
  · rcases hn : (htKfsViNext s.lastSentMap).2 with _ | ⟨key, value⟩
    · simpa [advance, hp, hn, KnownLocals] using ⟨h.lastSent, h.sent⟩
    · have hkey := h.lastSent key (by simp [get_of_htKfsViNext hn])
      simpa [advance, hp, hn, KnownLocals] using ⟨h.lastSent, hkey, h.sent⟩
  · simp only [advance, hp]
    split_ifs
    · simpa [KnownLocals] using ⟨h.lastSent, h.sent⟩
    · simpa [KnownLocals] using ⟨h.lastSent, hlocals, h.sent⟩
  · have hsent : ∀ c, c ∈ s.sent ∨ c = ⟨key, noSelectedLevel⟩ →
        P c.flow ∧ IsLevel c.selectedLevel := by
      rintro c (hc | rfl)
      · exact h.sent c hc
      · exact ⟨hlocals, by simp [IsLevel, noSelectedLevel]⟩
    simpa [advance, hp, KnownLocals] using ⟨h.lastSent, hsent⟩
  · simpa [advance, hp, KnownLocals, htKfsViCreate] using h.sent
  · rcases hn : (htKfsViNext s.levelMap).2 with _ | ⟨key, value⟩
    · simpa [advance, hp, hn, KnownLocals] using ⟨h.lastSent, h.sent⟩
    · have hkey := (h.active key (by simp [get_of_htKfsViNext hn])).1
      simpa [advance, hp, hn, KnownLocals] using ⟨h.lastSent, hkey, h.sent⟩
  · have hset : ∀ f, (htKfsViSet s.lastSentMap key value).get f ≠ none → P f := by
      intro f hf
      rw [htKfsViSet, get_set] at hf
      split_ifs at hf with hfk
      · exact hfk ▸ hlocals
      · exact h.lastSent f hf
    simpa [advance, hp, KnownLocals] using ⟨hset, h.sent⟩

/-- An update is of a flow with `P`. -/
def UpdatesOnly (P : FlowSrc → Prop) (_ : Conditions) : Event → Prop
  | .update pFlow _ _ _ => P pFlow
  | _ => True

theorem known_step (h : s.Known P) (hok : UpdatesOnly P s e) (hs : step setting s e = some s') :
    s'.Known P := by
  rcases step_cases hs with ⟨rfl, -, rfl⟩ | ⟨f, volume, lossVolume, lossRate, rfl, rfl⟩ |
      ⟨rfl, hp, rfl⟩ | ⟨rfl, hp, rfl⟩
  · exact known_advance h
  · refine ⟨?_, ?_, h.lastSent, h.locals, h.sent⟩
    · rw [levelMap_setLevelMap]
      exact levelsOf_update h.active setting hok volume lossVolume lossRate
    · rw [unactive_setLevelMap]
      exact h.unactive
  · refine ⟨?_, ?_, h.lastSent, trivial, nofun⟩
    · rw [levelMap, DataWarehouse.active_rotate]
      exact h.unactive
    · rw [DataWarehouse.unactive_rotate]
      exact h.active
  · refine ⟨?_, ?_, ?_, trivial, h.sent⟩
    · rw [levelMap_reset]
      exact h.active
    · rw [DataWarehouse.unactive_reset]
      exact fun f hf => absurd (Lib.Table.get_create f) hf
    · exact fun f hf => absurd (Lib.Table.get_create f) hf

theorem known_of_run {tasks : List Task} {events : List Event}
    (hrun : (system setting).run (init setting tasks) events = some s)
    (hok : (system setting).Meets (UpdatesOnly P) (init setting tasks) events) : s.Known P := by
  have hstep : ∀ s e s', s.Known P → UpdatesOnly P s e → (system setting).step s e = some s' →
      s'.Known P := fun _ _ _ => known_step
  exact Lib.System.run_inv_of hstep (known_init setting tasks) hok hrun

end Conditions

/-! ## All packets of an interval -/

section Network

open GenerateRulesIntoTables

variable {t : GenerateRulesIntoTables} {installRuleType : ℕ} {table : List FlowRule} {u : Name}
  {ids : Dict Name ℕ} {lines : List (List UInt8)} {setting : CmExperimentSetting}
  {tasks : List Task} {events : List Conditions.Event} {s : Conditions} {packets : List Frame}

/-- In every run of a sender that has levels of its own flows only, the packets of the interval are
of 46 bytes and say in their order what was sent, and the network brings each of them to every other
node once, so a switch that applies them has the levels that were sent; no receiver reports one. -/
theorem conditions_reach_switches (hread : readTopo ids lines = .ok t) (h : t.WellFormed)
    (hapart : t.Apart) (ht : t.installForwardingRule installRuleType = .ok table)
    (hu : u ∈ t.hosts)
    (hrun : (Conditions.system setting).run (Conditions.init setting tasks) events = some s)
    (hown : (Conditions.system setting).Meets (Conditions.UpdatesOnly fun f => t.ownsIp u f.srcip)
      (Conditions.init setting tasks) events)
    (hpackets : List.Forall₂ (fun condition packet => ∃ stack, packet
      = sendUdpConditionPkt stack condition) s.sent packets) :
    packets.mapM Frame.condition = some s.sent
      ∧ (packets.mapM Frame.condition).map switchLevels = some (switchLevels s.sent)
      ∧ ∀ packet ∈ packets, packet.length = 46
        ∧ (∀ netIdentity, gotPacket netIdentity packet = none)
        ∧ ∃ p, packet.header = some p ∧ ∀ n, (∃ rs, t.Sent table p u n rs)
          ∧ ∀ rs, t.Sent table p u n rs → ∀ v ∈ t.graph, v ≠ u → h.links.hops u v ≤ n →
            (rs.map Located.entity).count v = 1 := by
  have hknown := Conditions.known_of_run hrun hown
  have hmapM := mapM_condition hpackets fun condition hcondition =>
    (hknown.sent condition hcondition).2
  refine ⟨hmapM, by rw [hmapM, Option.map_some], ?_⟩
  · intro packet hpacket
    obtain ⟨condition, hcondition, stack, rfl⟩ : ∃ condition ∈ s.sent, ∃ stack,
        packet = sendUdpConditionPkt stack condition := by
      obtain ⟨i, hi, rfl⟩ := List.getElem_of_mem hpacket
      have hlen := hpackets.length_eq
      exact ⟨s.sent[i], List.getElem_mem _, hpackets.get (by omega) hi⟩
    refine ⟨length_sendUdpConditionPkt stack condition,
      gotPacket_sendUdpConditionPkt stack condition, _,
      header_sendUdpConditionPkt stack condition, fun n => ?_⟩
    have hp : t.isConditionOf ⟨0x0800, 17, condition.flow.srcip, condition.flow.dstip⟩ u :=
      ⟨rfl, rfl, (hknown.sent condition hcondition).1⟩
    have hsent := sent_condition h (readTopo_paired hread) hapart ht hu hp n
    exact ⟨hsent.1, fun rs hrs => (hsent.2 rs hrs).2⟩

/-- A flow from 10.0.0.1 to 11.0.0.1 becomes a target, and a round tells the switches. -/
def diamondEvents : List Conditions.Event :=
  [.update ⟨0x0a000001, 0x0b000001⟩ 100 40 (2 / 5), .advance, .advance, .advance, .advance]

theorem conditions_reach_switches_diamond : ∃ (table : List FlowRule) (packet : Frame) (p : Header),
    diamond.installForwardingRule BOTH_SINGLE_AND_ECMP_PATH_RULE = .ok table
      ∧ packet.condition = some ⟨⟨0x0a000001, 0x0b000001⟩, targetLevel⟩ ∧ packet.header = some p
      ∧ ∀ n rs, diamond.Sent table p (chars "h1") n rs → ∀ v ∈ diamond.graph, v ≠ chars "h1" →
        diamond_deployed.links.hops (chars "h1") v ≤ n → (rs.map Located.entity).count v = 1 := by
  obtain ⟨table, ht⟩ := diamond_installed
  obtain ⟨_, _, hread⟩ := diamond_read
  have hsent : ((Conditions.system exampleSetting).run (Conditions.init exampleSetting [])
      diamondEvents).map Conditions.sent = some [⟨⟨0x0a000001, 0x0b000001⟩, targetLevel⟩] := by
    decide +kernel
  obtain ⟨s, hrun, hsent⟩ := Option.map_eq_some_iff.1 hsent
  have hown : (Conditions.system exampleSetting).Meets
      (Conditions.UpdatesOnly fun f => diamond.ownsIp (chars "h1") f.srcip)
      (Conditions.init exampleSetting []) diamondEvents := by
    have hip : diamond.ownsIp (chars "h1") 0x0a000001 = true := diamond_owns.1
    refine Lib.System.meets_of_forall (fun e he _ => ?_) _
    simp only [diamondEvents, List.mem_cons, List.not_mem_nil, or_false] at he
    rcases he with rfl | rfl | rfl | rfl | rfl
    · exact hip
    all_goals trivial
  have hpackets : List.Forall₂ (fun condition packet => ∃ stack, packet
      = sendUdpConditionPkt stack condition) s.sent
        [sendUdpConditionPkt ⟨0, 0, 0, 0⟩ ⟨⟨0x0a000001, 0x0b000001⟩, targetLevel⟩] := by
    rw [hsent]
    exact .cons ⟨_, rfl⟩ .nil
  obtain ⟨-, -, hall⟩ := conditions_reach_switches hread diamond_deployed.toWellFormed
    diamond_deployed.apart ht (by simp [hosts_diamond] : chars "h1" ∈ diamond.hosts) hrun hown
    hpackets
  obtain ⟨-, -, p, hp, hway⟩ := hall _ (List.mem_singleton_self _)
  refine ⟨table, _, p, ht, ?_, hp, fun n => (hway n).2⟩
  exact condition_sendUdpConditionPkt _ (by decide) (by decide)

end Network

end CMTestbed
