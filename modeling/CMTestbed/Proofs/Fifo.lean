import CMTestbed.Fifo
import CMTestbed.Lib.Records
import CMTestbed.Proofs.Generate
import CMTestbed.Proofs.Receiver
import CMTestbed.Proofs.TasksInfo

/-!
# The reports come to their sender

A report is read as it was written, whatever its padding holds, and so are all reports that are in a
FIFO (`reportRecords`).  A receiver writes to the FIFO that the sender of the address reads.  So
each sender reads the reports about its own packets, once each and in the order that they were
written in, however many receivers write.
-/

namespace CMTestbed

open Lib

/-! ## One report -/

namespace Frame

variable {packetBuf : Frame} {i : ℕ}

theorem hostU16_of_hostBytes {v : UInt16} (h : ∀ k < 2, packetBuf[i + k]? = (hostBytes16 v)[k]?) :
    packetBuf.hostU16 i = some v := by
  refine hostU16_eq_some.2 ⟨v.toUInt8, (v >>> 8).toUInt8, h 0 (by omega), h 1 (by omega), ?_⟩
  have hv := v.toNat_lt
  have h8 : (8 : UInt16).toNat % 16 = 8 := rfl
  rw [← UInt16.toNat_inj, UInt16.toNat_ofNat', UInt16.toNat_toUInt8, UInt16.toNat_toUInt8,
    UInt16.toNat_shiftRight, h8, Nat.shiftRight_eq_div_pow]
  omega

theorem hostU32_of_hostBytes {v : UInt32} (h : ∀ k < 4, packetBuf[i + k]? = (hostBytes v)[k]?) :
    packetBuf.hostU32 i = some v := by
  have hshift : ∀ n : UInt32, n.toNat < 32 → (v >>> n).toNat = v.toNat / 2 ^ n.toNat := by
    intro n hn
    rw [UInt32.toNat_shiftRight, Nat.mod_eq_of_lt hn, Nat.shiftRight_eq_div_pow]
  have hlow : packetBuf.hostU16 i = some v.toUInt16 := by
    refine hostU16_eq_some.2 ⟨_, _, h 0 (by omega), h 1 (by omega), ?_⟩
    rw [← UInt16.toNat_inj, UInt16.toNat_ofNat', UInt32.toNat_toUInt16, UInt32.toNat_toUInt8,
      UInt32.toNat_toUInt8, hshift 8 (by decide)]
    simp only [UInt32.reduceToNat]
    omega
  have hhigh : packetBuf.hostU16 (i + 2) = some (v >>> 16).toUInt16 := by
    refine hostU16_eq_some.2 ⟨_, _, h 2 (by omega), h 3 (by omega), ?_⟩
    rw [← UInt16.toNat_inj, UInt16.toNat_ofNat', UInt32.toNat_toUInt16, UInt32.toNat_toUInt8,
      UInt32.toNat_toUInt8, hshift 16 (by decide), hshift 24 (by decide)]
    simp only [UInt32.reduceToNat]
    omega
  simp only [hostU32, hlow, hhigh, Option.bind_eq_bind, Option.bind_some, Option.pure_def,
    Option.some.injEq, ← UInt32.toNat_inj, UInt32.toNat_ofNat', UInt32.toNat_toUInt16,
    hshift 16 (by decide), UInt32.reduceToNat]
  have := v.toNat_lt
  omega

end Frame

namespace Recv2SendProto

variable (p : Recv2SendProto) (padding : Padding)

theorem length_bytes : (p.bytes padding).length = size := rfl

theorem ofBytes_bytes : ofBytes (p.bytes padding) = some p := by
  have hsrcip : (p.bytes padding).hostU32 0 = some p.srcip := by
    refine Frame.hostU32_of_hostBytes fun k hk => ?_
    interval_cases k <;> rfl
  have hdstip : (p.bytes padding).hostU32 4 = some p.dstip := by
    refine Frame.hostU32_of_hostBytes fun k hk => ?_
    interval_cases k <;> rfl
  have hsport : (p.bytes padding).hostU16 8 = some p.srcPort := by
    refine Frame.hostU16_of_hostBytes fun k hk => ?_
    interval_cases k <;> rfl
  have hdport : (p.bytes padding).hostU16 10 = some p.dstPort := by
    refine Frame.hostU16_of_hostBytes fun k hk => ?_
    interval_cases k <;> rfl
  have hproto : (p.bytes padding).u8 12 = some p.protocol := rfl
  have hseqid : (p.bytes padding).hostU32 16 = some p.receSeqid := by
    refine Frame.hostU32_of_hostBytes fun k hk => ?_
    interval_cases k <;> rfl
  simp only [ofBytes, hsrcip, hdstip, hsport, hdport, hproto, hseqid, Option.bind_eq_bind,
    Option.bind_some, Option.pure_def]

end Recv2SendProto

/-- The reports in a FIFO. -/
def reportRecords : Records Recv2SendProto UInt8 where
  size := Recv2SendProto.size
  size_pos := by decide
  read := Recv2SendProto.ofBytes
  Writes := fun p w => ∃ padding, w = p.bytes padding
  length_of_writes := by
    rintro p _ ⟨padding, rfl⟩
    exact p.length_bytes padding
  read_of_writes := by
    rintro p _ ⟨padding, rfl⟩
    exact p.ofBytes_bytes padding

theorem holds_writeConditionToFIFO {reports : List Recv2SendProto} {fifo : List UInt8}
    (h : reportRecords.Holds reports fifo) (p : Recv2SendProto) (padding : Recv2SendProto.Padding) :
    reportRecords.Holds (reports ++ [p]) (writeConditionToFIFO fifo p padding) :=
  h.write ⟨padding, rfl⟩

theorem readConditionFromFIFO_of_holds {p : Recv2SendProto} {reports : List Recv2SendProto}
    {fifo : List UInt8} (h : reportRecords.Holds (p :: reports) fifo) :
    (readConditionFromFIFO fifo).1 = some p
      ∧ reportRecords.Holds reports (readConditionFromFIFO fifo).2 := by
  obtain ⟨hlen, hread, hrest⟩ := h.read
  have hread' : (readConditionFromFIFO fifo).1 = Recv2SendProto.ofBytes _ := if_pos hlen
  exact ⟨hread'.trans hread, hrest⟩

/-! ## The FIFOs of the senders -/

theorem senderGetFifoFname_hostName (n : ℕ) :
    senderGetFifoFname (hostName n) = getSenderFifoFname n := by
  have hchars : chars "/tmp/fifo/h" = chars "/tmp/fifo/" ++ [104] := by decide +kernel
  rw [senderGetFifoFname, getSenderFifoFname, hostName, hchars]
  simp only [List.append_assoc, List.cons_append, List.nil_append]

theorem getSenderFifoFname_inj {m n : ℕ} (hm : m ≤ 12) (hn : n ≤ 12)
    (h : getSenderFifoFname m = getSenderFifoFname n) : m = n := by
  have hall : ∀ m n : Fin 13, getSenderFifoFname m = getSenderFifoFname n → m = n := by
    decide +kernel
  exact congrArg Fin.val (hall ⟨m, by omega⟩ ⟨n, by omega⟩ h)

theorem getSenderFifoHandler_inRangeOf {n : ℕ} {ip : UInt32} (h₁ : 1 ≤ n) (hn : n ≤ 12)
    (h : InRangeOf n ip) : getSenderFifoHandler ip = some (getSenderFifoFname n) := by
  have hstart : startIp.toNat = 10 * 2 ^ 24 := by decide
  have hsenders : numSenders.toNat = 12 := rfl
  rw [InRangeOf] at h
  have hidx := toNat_getSenderIdx ip (by omega)
  have hlt : getSenderIdx ip < numSenders := by
    rw [UInt32.lt_iff_toNat_lt]
    omega
  have hnum : (getSenderIdx ip).toNat + 1 = n := by omega
  rw [getSenderFifoHandler, if_pos hlt, hnum]

/-- Other addresses have no index in the array. -/
theorem getSenderFifoHandler_isSome (ip : UInt32) :
    (getSenderFifoHandler ip).isSome ↔ ∃ n, 1 ≤ n ∧ n ≤ 12 ∧ InRangeOf n ip := by
  constructor
  · intro h
    have hstart : startIp.toNat = 10 * 2 ^ 24 := by decide
    have hsenders : numSenders.toNat = 12 := rfl
    have hlt : (getSenderIdx ip).toNat < numSenders.toNat := by
      by_contra hno
      rw [getSenderFifoHandler, if_neg (mt UInt32.lt_iff_toNat_lt.1 hno)] at h
      cases h
    have hidx : 10 ≤ ip.toNat / 2 ^ 24 ∧ ip.toNat / 2 ^ 24 ≤ 21 := by
      have hfirst : startIp.toNat ≤ ip.toNat := by
        by_contra hno
        have hten : (startIp >>> 24).toNat = 10 := by decide
        rw [getSenderIdx, UInt32.toNat_sub, toNat_prefix, hten] at hlt
        omega
      have := toNat_getSenderIdx ip hfirst
      omega
    exact ⟨ip.toNat / 2 ^ 24 - 9, by omega, by omega, by rw [InRangeOf]; omega⟩
  · rintro ⟨n, h₁, hn, hr⟩
    rw [getSenderFifoHandler_inRangeOf h₁ hn hr]
    rfl

theorem isSome_receive {netIdentity : UInt32} {packetBuffer : Frame} {r : FlowS × UInt32}
    (hgot : gotPacket netIdentity packetBuffer = some r) (padding : Recv2SendProto.Padding)
    (fifos : Fifos) : (receive netIdentity packetBuffer padding fifos).isSome
      = (getSenderFifoHandler r.1.srcip).isSome := by
  simp only [receive, hgot]
  cases getSenderFifoHandler r.1.srcip <;> rfl

/-! ## Any number of reports -/

namespace Reporting

/-- The report that an event makes to the sender of this number. -/
def Event.report (n : ℕ) : Event → Option Recv2SendProto
  | receive netIdentity packetBuffer _ =>
    match gotPacket netIdentity packetBuffer with
    | some (flow, seqid) => if InRangeOf n flow.srcip then some ⟨flow, seqid⟩ else none
    | none => none
  | read _ => none

def reports (n : ℕ) (es : List Event) : List Recv2SendProto := es.filterMap (Event.report n)

variable {s s' : Reporting} {n : ℕ} {e : Event} {es : List Event} {waiting : List Recv2SendProto}

theorem step_read (h₁ : 1 ≤ n) (hn : n ≤ 12) (hne : s.fifos (getSenderFifoFname n) ≠ []) :
    system.step s (.read n) = some {
      fifos := Function.update s.fifos (getSenderFifoFname n)
        (readConditionFromFIFO (s.fifos (getSenderFifoFname n))).2
      read := Function.update s.read n
        (s.read n ++ [(readConditionFromFIFO (s.fifos (getSenderFifoFname n))).1]) } := by
  have hsenders : numSenders.toNat = 12 := rfl
  simp only [system, step, senderGetFifoFname_hostName]
  rw [if_pos ⟨h₁, by omega, hne⟩]

theorem of_step_read (hs : system.step s (.read n) = some s') :
    1 ≤ n ∧ n ≤ 12 ∧ s.fifos (getSenderFifoFname n) ≠ [] ∧ s' = {
      fifos := Function.update s.fifos (getSenderFifoFname n)
        (readConditionFromFIFO (s.fifos (getSenderFifoFname n))).2
      read := Function.update s.read n
        (s.read n ++ [(readConditionFromFIFO (s.fifos (getSenderFifoFname n))).1]) } := by
  simp only [system, step, senderGetFifoFname_hostName] at hs
  split_ifs at hs with hn
  exact ⟨hn.1, hn.2.1, hn.2.2, (Option.some.inj hs).symm⟩

/-- A report is put behind those that wait, or the first of these is read. -/
theorem step_spec (h₁ : 1 ≤ n) (hn : n ≤ 12)
    (h : reportRecords.Holds waiting (s.fifos (getSenderFifoFname n)))
    (hs : system.step s e = some s') : ∃ got waiting',
      s'.read n = s.read n ++ got.map some
        ∧ waiting ++ (e.report n).toList = got ++ waiting'
        ∧ reportRecords.Holds waiting' (s'.fifos (getSenderFifoFname n)) := by
  rcases e with ⟨netIdentity, packetBuffer, padding⟩ | m
  · obtain ⟨fifos, hfifos, rfl⟩ := Option.map_eq_some_iff.1 hs
    refine ⟨[], _, (List.append_nil _).symm, rfl, ?_⟩
    rcases hgot : gotPacket netIdentity packetBuffer with _ | ⟨flow, seqid⟩
    · simp only [receive, hgot, Option.some.injEq] at hfifos
      subst hfifos
      simpa [Event.report, hgot] using h
    · simp only [receive, hgot, Option.bind_eq_bind, Option.bind_eq_some_iff, Option.pure_def,
        Option.some.injEq] at hfifos
      obtain ⟨fname, hfname, rfl⟩ := hfifos
      obtain ⟨m, hm₁, hm, hr⟩ := (getSenderFifoHandler_isSome flow.srcip).1 (by rw [hfname]; rfl)
      obtain rfl := Option.some.inj ((getSenderFifoHandler_inRangeOf hm₁ hm hr).symm.trans hfname)
      by_cases hmn : m = n
      · subst hmn
        simpa [Event.report, hgot, hr] using holds_writeConditionToFIFO h ⟨flow, seqid⟩ padding
      · have hne : getSenderFifoFname n ≠ getSenderFifoFname m :=
          fun he => hmn (getSenderFifoFname_inj hm hn he.symm)
        have hno : ¬ InRangeOf n flow.srcip := fun hr' => hmn (hr.unique hr')
        simpa [Event.report, hgot, hno, Function.update_of_ne hne] using h
  · obtain ⟨hm₁, hm, hne, rfl⟩ := of_step_read hs
    by_cases hmn : n = m
    · subst hmn
      rcases waiting with _ | ⟨p, waiting⟩
      · exact absurd (h.eq_nil_iff.2 rfl) hne
      · obtain ⟨hread, hrest⟩ := readConditionFromFIFO_of_holds h
        refine ⟨[p], waiting, ?_, by simp [Event.report], ?_⟩
        · simp [hread]
        · simpa using hrest
    · have hfname : getSenderFifoFname n ≠ getSenderFifoFname m :=
        fun he => hmn (getSenderFifoFname_inj hn hm he)
      refine ⟨[], waiting, ?_, by simp [Event.report], ?_⟩
      · simp [Function.update_of_ne hmn]
      · simpa [Function.update_of_ne hfname] using h

theorem run_spec (h₁ : 1 ≤ n) (hn : n ≤ 12)
    (h : reportRecords.Holds waiting (s.fifos (getSenderFifoFname n)))
    (hs : system.run s es = some s') : ∃ got waiting',
      s'.read n = s.read n ++ got.map some
        ∧ waiting ++ reports n es = got ++ waiting'
        ∧ reportRecords.Holds waiting' (s'.fifos (getSenderFifoFname n)) := by
  induction es generalizing s waiting with
  | nil =>
    cases hs
    exact ⟨[], waiting, by simp, by simp [reports], h⟩
  | cons e es ih =>
    obtain ⟨s₁, hs₁, hs⟩ := System.run_cons.1 hs
    obtain ⟨got₁, waiting₁, hread₁, hsplit₁, h₁'⟩ := step_spec h₁ hn h hs₁
    obtain ⟨got₂, waiting₂, hread₂, hsplit₂, h₂⟩ := ih h₁' hs
    refine ⟨got₁ ++ got₂, waiting₂, ?_, ?_, h₂⟩
    · rw [hread₂, hread₁, List.map_append, List.append_assoc]
    · have hreports : reports n (e :: es) = (e.report n).toList ++ reports n es := by
        rw [reports, List.filterMap_cons]
        cases e.report n <;> rfl
      rw [hreports, ← List.append_assoc, hsplit₁, List.append_assoc, hsplit₂, List.append_assoc]

/-- What waits can be read. -/
theorem run_reads (h₁ : 1 ≤ n) (hn : n ≤ 12)
    (h : reportRecords.Holds waiting (s.fifos (getSenderFifoFname n))) : ∃ s',
      system.run s (List.replicate waiting.length (.read n)) = some s'
        ∧ s'.read n = s.read n ++ waiting.map some ∧ s'.fifos (getSenderFifoFname n) = [] := by
  induction waiting generalizing s with
  | nil => exact ⟨s, rfl, (List.append_nil _).symm, h⟩
  | cons p waiting ih =>
    have hne : s.fifos (getSenderFifoFname n) ≠ [] := mt h.eq_nil_iff.1 (List.cons_ne_nil _ _)
    obtain ⟨hread, hrest⟩ := readConditionFromFIFO_of_holds h
    obtain ⟨s₁, hs₁, hread₁, hfifo₁⟩ : ∃ s₁, system.step s (.read n) = some s₁
        ∧ s₁.read n = s.read n ++ [some p] ∧ reportRecords.Holds waiting
          (s₁.fifos (getSenderFifoFname n)) := by
      refine ⟨_, step_read h₁ hn hne, ?_, ?_⟩
      · simp [hread]
      · simpa using hrest
    obtain ⟨s', hs', hread', hnil⟩ := ih hfifo₁
    refine ⟨s', System.run_cons.2 ⟨s₁, hs₁, hs'⟩, ?_, hnil⟩
    rw [hread', hread₁, List.map_cons, List.append_assoc, List.singleton_append]

/-- Whatever receivers get and whenever senders read, the sender of this number has read the first
of the reports about the packets from its own net, it reads the others in the order that they were
made in, and then waits; and a receiver finds the FIFO for whatever comes from a sender's net. -/
theorem reports_come_to_sender (hrun : system.run init es = some s) (h₁ : 1 ≤ n) (hn : n ≤ 12) :
    s.read n <+: (reports n es).map some
      ∧ (∃ k s', system.run s (List.replicate k (.read n)) = some s'
        ∧ s'.read n = (reports n es).map some ∧ system.step s' (.read n) = none)
      ∧ ∀ netIdentity packetBuffer padding,
        (system.step s (.receive netIdentity packetBuffer padding)).isSome
          ↔ ∀ r, gotPacket netIdentity packetBuffer = some r →
            ∃ m, 1 ≤ m ∧ m ≤ 12 ∧ InRangeOf m r.1.srcip := by
  have hempty : reportRecords.Holds [] (init.fifos (getSenderFifoFname n)) := rfl
  obtain ⟨got, waiting, hread, hsplit, hholds⟩ := run_spec h₁ hn hempty hrun
  have hgot : s.read n = got.map some := hread
  rw [List.nil_append] at hsplit
  refine ⟨?_, ?_, fun netIdentity packetBuffer padding => ?_⟩
  · rw [hgot, hsplit, List.map_append]
    exact List.prefix_append _ _
  · obtain ⟨s', hs', hread', hnil⟩ := run_reads h₁ hn hholds
    refine ⟨_, s', hs', ?_, ?_⟩
    · rw [hread', hgot, hsplit, List.map_append]
    · simp only [system, step, senderGetFifoFname_hostName]
      exact if_neg fun h => h.2.2 hnil
  · simp only [system, step, Option.isSome_map]
    rcases hgot : gotPacket netIdentity packetBuffer with _ | r
    · simp [receive, hgot]
    · rw [isSome_receive hgot, getSenderFifoHandler_isSome]
      simp

/-- Two receivers report a packet each, with other bytes of padding. -/
def exampleEvents : List Event :=
  [.receive 11 (exampleFrame []) (1, 2, 3), .receive 12 (exampleFrame [1, 1, 1, 1]) (0, 0, 0),
    .read 1]

theorem reports_come_to_sender_example : ∃ s, system.run init exampleEvents = some s
    ∧ ∃ k s', system.run s (List.replicate k (.read 1)) = some s'
      ∧ s'.read 1 = List.replicate 2 (some ⟨⟨0x0a000001, 0x0b000002, 80, 8080, 6⟩, 7⟩) := by
  obtain ⟨s, hs⟩ : ∃ s, system.run init exampleEvents = some s :=
    Option.isSome_iff_exists.1 (by decide +kernel)
  obtain ⟨-, ⟨k, s', hs', hread, -⟩, -⟩ :=
    reports_come_to_sender hs (by decide : 1 ≤ 1) (by decide : 1 ≤ 12)
  refine ⟨s, hs, k, s', hs', hread.trans ?_⟩
  decide +kernel

end Reporting

end CMTestbed
