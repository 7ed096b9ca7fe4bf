import CMTestbed.Proofs.Fifo
import CMTestbed.Savefile

/-!
# Savefiles are read as they were written

Whatever byte order a savefile is written in, and wherever it is cut, the packets that are whole in
it are read, with times of 32 bits, and with their pseudo-headers swapped as their packet headers
are (`nextPackets_take`).  Of any bytes at all that are accepted, the packets are pieces of the file
that fit in the buffer, and, if they have no pseudo-headers to swap, written again they are the file
(`pcapNextPacket_ok`, `eq_pcapDump`).
-/

namespace CMTestbed

open Lib

/-! ## Numbers -/

theorem swapLong_swapLong (v : UInt32) : swapLong (swapLong v) = v := by
  rw [← UInt32.toBitVec_inj]
  unfold swapLong
  ext i hi
  interval_cases i <;> simp

theorem swapShort_swapShort (v : UInt16) : swapShort (swapShort v) = v := by
  rw [← UInt16.toBitVec_inj]
  unfold swapShort
  ext i hi
  interval_cases i <;> simp

theorem hostBytes_swapLong (v : UInt32) : hostBytes (swapLong v) = netBytes32 v := by
  have hbytes : netBytes32 v = [UInt8.ofNat (v.toNat / 256 / 256 / 256),
      UInt8.ofNat (v.toNat / 256 / 256), UInt8.ofNat (v.toNat / 256), UInt8.ofNat v.toNat] := rfl
  have hnet : netBytes32 v
      = [(v >>> 24).toUInt8, (v >>> 16).toUInt8, (v >>> 8).toUInt8, v.toUInt8] := by
    rw [hbytes]
    simp only [List.cons.injEq, and_true, ← UInt8.toNat_inj, UInt8.toNat_ofNat',
      UInt32.toNat_toUInt8, UInt32.toNat_shiftRight, Nat.shiftRight_eq_div_pow]
    refine ⟨?_, ?_, ?_⟩ <;> simp <;> omega
  rw [hnet, hostBytes]
  simp only [List.cons.injEq, and_true, ← UInt8.toBitVec_inj]
  unfold swapLong
  refine ⟨?_, ?_, ?_, ?_⟩ <;>
  · ext i hi
    interval_cases i <;> simp

theorem hostBytes16_swapShort (v : UInt16) : hostBytes16 (swapShort v) = netBytes16 v := by
  have hbytes : netBytes16 v = [UInt8.ofNat (v.toNat / 256), UInt8.ofNat v.toNat] := rfl
  have hnet : netBytes16 v = [(v >>> 8).toUInt8, v.toUInt8] := by
    rw [hbytes]
    simp only [List.cons.injEq, and_true, ← UInt8.toNat_inj, UInt8.toNat_ofNat',
      UInt16.toNat_toUInt8, UInt16.toNat_shiftRight, Nat.shiftRight_eq_div_pow]
    simp
  rw [hnet, hostBytes16]
  simp only [List.cons.injEq, and_true, ← UInt8.toBitVec_inj]
  unfold swapShort
  refine ⟨?_, ?_⟩ <;>
  · ext i hi
    interval_cases i <;> simp

namespace ByteOrder

variable (host : ByteOrder)

/-- Whether a file of this order is swapped when it is read. -/
def swapped : ByteOrder → Bool
  | little => false
  | big => true

/-- What the reader's host takes for the number. -/
def seen32 (v : UInt32) : UInt32 := if host.swapped then swapLong v else v

def seen16 (v : UInt16) : UInt16 := if host.swapped then swapShort v else v

theorem u32_eq (v : UInt32) : host.u32 v = hostBytes (host.seen32 v) := by
  rcases host with _ | _
  · rfl
  · exact (hostBytes_swapLong v).symm

theorem u16_eq (v : UInt16) : host.u16 v = hostBytes16 (host.seen16 v) := by
  rcases host with _ | _
  · rfl
  · exact (hostBytes16_swapShort v).symm

@[simp] theorem length_u32 (v : UInt32) : (host.u32 v).length = 4 := by
  rw [u32_eq]
  rfl

@[simp] theorem length_u16 (v : UInt16) : (host.u16 v).length = 2 := by
  rw [u16_eq]
  rfl

/-- Swapped again, it is the number. -/
theorem swapLong_seen32 (v : UInt32) :
    (if host.swapped then swapLong (host.seen32 v) else host.seen32 v) = v := by
  unfold seen32
  split_ifs with h
  · exact swapLong_swapLong v
  · rfl

theorem hostU32_append {a b : Frame} {i : ℕ} (hi : a.length = i) (v : UInt32) :
    (a ++ (host.u32 v ++ b)).hostU32 i = some (host.seen32 v) := by
  refine Frame.hostU32_of_hostBytes fun k hk => ?_
  rw [u32_eq, ← hi, List.getElem?_append_right (Nat.le_add_right _ _), Nat.add_sub_cancel_left]
  exact List.getElem?_append_left hk

theorem hostU16_append {a b : Frame} {i : ℕ} (hi : a.length = i) (v : UInt16) :
    (a ++ (host.u16 v ++ b)).hostU16 i = some (host.seen16 v) := by
  refine Frame.hostU16_of_hostBytes fun k hk => ?_
  rw [u16_eq, ← hi, List.getElem?_append_right (Nat.le_add_right _ _), Nat.add_sub_cancel_left]
  exact List.getElem?_append_left hk

end ByteOrder

/-! ## Pseudo-headers -/

section Swap

variable {buf : Frame}

@[simp] theorem length_swapField (i size : ℕ) : (swapField buf i size).length = buf.length := by
  simp only [swapField, List.length_append, List.length_take, List.length_reverse,
    List.length_drop]
  omega

@[simp] theorem length_swapFields (caplen : ℕ) (fields : List (ℕ × ℕ)) :
    (swapFields caplen buf fields).length = buf.length := by
  induction fields generalizing buf with
  | nil => rfl
  | cons field fields ih =>
    rw [swapFields]
    split_ifs
    · rfl
    · rw [ih, length_swapField]

theorem length_swapLinuxUsbHeader (hdr : PcapPkthdr) (headerLen64Bytes : Bool) :
    (swapLinuxUsbHeader hdr buf headerLen64Bytes).length = buf.length := by
  unfold swapLinuxUsbHeader
  dsimp only
  split_ifs <;> simp

theorem length_swapTlvs (fuel i caplen length : ℕ) :
    (swapTlvs fuel buf i caplen length).length = buf.length := by
  induction fuel generalizing buf i caplen length with
  | zero => rfl
  | succ fuel ih =>
    rw [swapTlvs]
    dsimp only
    split_ifs <;> simp [ih]

theorem length_swapPseudoHeaders (linktype : ℤ) (hdr : PcapPkthdr) :
    (swapPseudoHeaders linktype hdr buf).length = buf.length := by
  unfold swapPseudoHeaders swapNflogHeader
  split_ifs
  · exact length_swapLinuxUsbHeader hdr false
  · exact length_swapLinuxUsbHeader hdr true
  · rfl
  · exact length_swapTlvs _ _ _ _
  · rfl

/-- The link types whose packets begin with a pseudo-header in the byte order of the host. -/
def pseudoHeaderDlts : List ℤ := [dltUsbLinux, dltUsbLinuxMmapped, dltNflog]

theorem swapPseudoHeaders_of_notMem {linktype : ℤ} (h : linktype ∉ pseudoHeaderDlts)
    (hdr : PcapPkthdr) (data : Frame) : swapPseudoHeaders linktype hdr data = data := by
  simp only [pseudoHeaderDlts, List.mem_cons, List.not_mem_nil, or_false, not_or] at h
  rw [swapPseudoHeaders, if_neg h.1, if_neg h.2.1, if_neg h.2.2]

end Swap

namespace PcapT

variable {p : PcapT}

@[simp] theorem length_packet (hdr : PcapPkthdr) (data : Frame) :
    (p.packet hdr data).2.length = data.length := by
  rw [packet]
  split_ifs
  · exact length_swapPseudoHeaders _ _
  · rfl

/-- Without a pseudo-header to swap, the bytes are given back as they are. -/
theorem packet_of_plain (h : p.swapped = true → p.linktype ∉ pseudoHeaderDlts) (hdr : PcapPkthdr)
    (data : Frame) : p.packet hdr data = (hdr, data) := by
  rw [packet]
  split_ifs with hswapped
  · rw [swapPseudoHeaders_of_notMem (h hswapped)]
  · rfl

end PcapT

/-! ## One packet -/

section Fread

variable {size : ℕ} {what : String} {fp : Frame}

theorem freadAll_append {data rest : Frame} (h : data.length = size) :
    freadAll size what (data ++ rest) = .ok (data, rest) := by
  rw [freadAll, List.take_left' h, List.drop_left' h, if_pos h]

theorem freadAll_of_lt (h : fp.length < size) : freadAll size what fp
    = .error (.error (chars "truncated dump file; tried to read " ++ formatNat size ++ chars what
      ++ chars ", only got " ++ formatNat fp.length)) := by
  rw [freadAll, if_neg]
  rw [List.length_take]
  omega

theorem freadAll_ok {data rest : Frame} (h : freadAll size what fp = .ok (data, rest)) :
    fp = data ++ rest ∧ data.length = size := by
  unfold freadAll at h
  split_ifs at h with hlen
  cases h
  exact ⟨(List.take_append_drop size fp).symm, hlen⟩

end Fread

/-- The header of a packet in a file. -/
def sfPkthdr (host : ByteOrder) (h : PcapPkthdr) : Frame :=
  host.u32 (toUInt h.tvSec) ++ host.u32 (toUInt h.tvUsec) ++ host.u32 h.caplen ++ host.u32 h.len

theorem pcapDump_eq (host : ByteOrder) (h : PcapPkthdr) (sp : Frame) :
    pcapDump host h sp = sfPkthdr host h ++ sp.take h.caplen.toNat := rfl

@[simp] theorem length_sfPkthdr (host : ByteOrder) (h : PcapPkthdr) :
    (sfPkthdr host h).length = 16 := by
  simp [sfPkthdr]

namespace PcapT

variable {p : PcapT} {host : ByteOrder}

theorem field_eq (hp : p.swapped = host.swapped) {sfHdr : Frame} {i : ℕ} {v : UInt32}
    (h : sfHdr.hostU32 i = some (host.seen32 v)) : p.field sfHdr i = v := by
  rw [field, h, hp]
  exact host.swapLong_seen32 v

/-- The header as it is read, with times of 32 bits. -/
def timesRead (p : PcapT) (h : PcapPkthdr) : PcapPkthdr :=
  { h with tvSec := toInt (toUInt h.tvSec), tvUsec := p.scale (toInt (toUInt h.tvUsec)) }

theorem pkthdr_sfPkthdr (hp : p.swapped = host.swapped) (hlengths : p.lengthsSwapped = .notSwapped)
    (h : PcapPkthdr) : p.pkthdr (sfPkthdr host h) = p.timesRead h := by
  have hsec : p.field (sfPkthdr host h) 0 = toUInt h.tvSec := by
    refine field_eq hp ?_
    rw [sfPkthdr, List.append_assoc, List.append_assoc]
    exact host.hostU32_append (a := []) rfl _
  have husec : p.field (sfPkthdr host h) 4 = toUInt h.tvUsec := by
    refine field_eq hp ?_
    rw [sfPkthdr, List.append_assoc, List.append_assoc]
    exact host.hostU32_append (by simp) _
  have hcaplen : p.field (sfPkthdr host h) 8 = h.caplen := by
    refine field_eq hp ?_
    rw [sfPkthdr, List.append_assoc]
    exact host.hostU32_append (by simp) _
  have hlen : p.field (sfPkthdr host h) 12 = h.len := by
    refine field_eq hp ?_
    rw [sfPkthdr, ← List.append_nil (host.u32 h.len)]
    exact host.hostU32_append (by simp) _
  simp [pkthdr, hsec, husec, hcaplen, hlen, interchanged, hlengths, timesRead]

end PcapT

section Next

variable {p : PcapT} {fp : Frame}

/-- Behind a whole header. -/
theorem pcapNextPacket_append {sfHdr : Frame} (h : sfHdr.length = p.hdrsize) :
    pcapNextPacket p (sfHdr ++ fp)
      = if p.bufsize < (p.pkthdr sfHdr).caplen.toNat then
          if maximumSnaplen < (p.pkthdr sfHdr).caplen.toNat then
            .error (.error (chars "bogus savefile header"))
          else (freadAll (p.pkthdr sfHdr).caplen.toNat " captured bytes" fp).map fun r =>
            (p.packet { p.pkthdr sfHdr with caplen := p.bufsize.toUInt32 } (r.1.take p.bufsize),
              r.2)
        else (freadAll (p.pkthdr sfHdr).caplen.toNat " captured bytes" fp).map fun r =>
          (p.packet (p.pkthdr sfHdr) r.1, r.2) := by
  have hpos := p.hdrsize_ge
  have hne : sfHdr ++ fp ≠ [] := by
    intro hnil
    rw [(List.append_eq_nil_iff.1 hnil).1, List.length_nil] at h
    omega
  rw [pcapNextPacket, if_neg hne, freadAll_append h]
  change (if p.bufsize < (p.pkthdr sfHdr).caplen.toNat then _ else _) = _
  split_ifs
  · rfl
  · rcases freadAll (p.pkthdr sfHdr).caplen.toNat " captured bytes" fp with e | r <;> rfl
  · rcases freadAll (p.pkthdr sfHdr).caplen.toNat " captured bytes" fp with e | r <;> rfl

/-- What a packet is, and what is taken for it. -/
theorem pcapNextPacket_ok {r : PcapPkthdr × Frame} {rest : Frame}
    (h : pcapNextPacket p fp = .ok (r, rest)) : ∃ sfHdr data, fp = sfHdr ++ (data ++ rest)
      ∧ sfHdr.length = p.hdrsize ∧ data.length = (p.pkthdr sfHdr).caplen.toNat
      ∧ (data.length ≤ p.bufsize ∧ r = p.packet (p.pkthdr sfHdr) data
        ∨ p.bufsize < data.length
          ∧ r = p.packet { p.pkthdr sfHdr with caplen := p.bufsize.toUInt32 }
            (data.take p.bufsize)) := by
  rcases hhdr : freadAll p.hdrsize " header bytes" fp with e | ⟨sfHdr, fp'⟩
  · unfold pcapNextPacket at h
    split_ifs at h with hnil
    rw [hhdr] at h
    cases h
  obtain ⟨rfl, hlen⟩ := freadAll_ok hhdr
  refine ⟨sfHdr, ?_⟩
  rw [pcapNextPacket_append hlen] at h
  rcases hdata : freadAll (p.pkthdr sfHdr).caplen.toNat " captured bytes" fp' with e | ⟨data, fp''⟩
  · rw [hdata] at h
    split_ifs at h <;> cases h
  obtain ⟨rfl, hlen'⟩ := freadAll_ok hdata
  rw [hdata] at h
  split_ifs at h with hbuf hmax
  · cases h
    exact ⟨data, rfl, hlen, hlen', .inr ⟨hlen' ▸ hbuf, rfl⟩⟩
  · cases h
    exact ⟨data, rfl, hlen, hlen', .inl ⟨hlen'.trans_le (not_lt.1 hbuf), rfl⟩⟩

theorem takes_pcapNextPacket : (pcapNextPacket p).Takes := by
  intro fp r rest h
  obtain ⟨sfHdr, data, rfl, hlen, -⟩ := pcapNextPacket_ok h
  have := p.hdrsize_ge
  simp only [List.length_append]
  omega

/-- A packet has the bytes that its header says, and they fit in the buffer. -/
theorem length_of_pcapNextPacket {r : PcapPkthdr × Frame} {rest : Frame}
    (h : pcapNextPacket p fp = .ok (r, rest)) :
    r.2.length = r.1.caplen.toNat ∧ r.2.length ≤ p.bufsize := by
  obtain ⟨sfHdr, data, rfl, -, hdata, ⟨hbuf, rfl⟩ | ⟨hbuf, rfl⟩⟩ := pcapNextPacket_ok h
  · rw [PcapT.length_packet]
    exact ⟨hdata, hbuf⟩
  · have hint := p.bufsize_int.2
    have hsize : p.bufsize.toUInt32.toNat = p.bufsize := by
      rw [Nat.toUInt32_eq, UInt32.toNat_ofNat']
      omega
    have htake : (data.take p.bufsize).length = p.bufsize := List.length_take_of_le hbuf.le
    rw [PcapT.length_packet]
    exact ⟨htake.trans hsize.symm, htake.le⟩

end Next

/-! ## Reading what was written -/

section Written

variable {p : PcapT} {host : ByteOrder}

/-- A packet as it is read. -/
def PcapT.asRead (p : PcapT) (x : PcapPkthdr × Frame) : PcapPkthdr × Frame :=
  p.packet { p.timesRead x.1 with caplen := (min x.1.caplen.toNat p.bufsize).toUInt32 }
    (x.2.take (min x.1.caplen.toNat p.bufsize))

/-- Why a part of a packet is not read. -/
def PcapT.stopAt (p : PcapT) (part : Frame) : Stop :=
  let tried (size : ℕ) (what : String) (got : ℕ) : Stop :=
    .error (chars "truncated dump file; tried to read " ++ formatNat size ++ chars what
      ++ chars ", only got " ++ formatNat got)
  if part = [] then .eof
  else if part.length < 16 then tried 16 " header bytes" part.length
  else tried (p.field part 8).toNat " captured bytes" (part.length - 16)

/-- A `pcap_t` for a file of that order in the standard format. -/
structure PcapT.Standard (p : PcapT) (host : ByteOrder) : Prop where
  swapped : p.swapped = host.swapped
  lengthsSwapped : p.lengthsSwapped = .notSwapped
  hdrsize : p.hdrsize = 16

/-- A packet that has the bytes its header says, and no more than can be read. -/
def PcapT.Fits (p : PcapT) (x : PcapPkthdr × Frame) : Prop :=
  x.1.caplen.toNat ≤ x.2.length ∧ x.1.caplen.toNat ≤ max p.bufsize maximumSnaplen

theorem PcapT.Standard.next_of_lt (h : p.Standard host) {fp : Frame} (hlt : fp.length < 16) :
    pcapNextPacket p fp = .error (p.stopAt fp) := by
  rw [pcapNextPacket, PcapT.stopAt, if_pos hlt, h.hdrsize, freadAll_of_lt hlt]
  split_ifs <;> rfl

/-- Behind the header, bytes are missing. -/
theorem PcapT.Standard.next_of_part (h : p.Standard host) {hdr : PcapPkthdr} {part : Frame}
    (hlt : part.length < hdr.caplen.toNat)
    (hmax : hdr.caplen.toNat ≤ max p.bufsize maximumSnaplen) :
    pcapNextPacket p (sfPkthdr host hdr ++ part)
      = .error (p.stopAt (sfPkthdr host hdr ++ part)) := by
  have hlen := length_sfPkthdr host hdr
  have hpkthdr := PcapT.pkthdr_sfPkthdr h.swapped h.lengthsSwapped hdr
  have hcaplen : (p.timesRead hdr).caplen = hdr.caplen := rfl
  have hfield : p.field (sfPkthdr host hdr ++ part) 8 = hdr.caplen := by
    refine PcapT.field_eq h.swapped ?_
    rw [sfPkthdr, List.append_assoc, List.append_assoc]
    exact host.hostU32_append (by simp) _
  have hne : sfPkthdr host hdr ++ part ≠ [] := by
    intro hnil
    rw [(List.append_eq_nil_iff.1 hnil).1] at hlen
    cases hlen
  rw [pcapNextPacket_append (hlen.trans h.hdrsize.symm), hpkthdr, hcaplen, freadAll_of_lt hlt,
    PcapT.stopAt, if_neg hne, hfield, List.length_append, hlen,
    if_neg (show ¬ 16 + part.length < 16 by omega), Nat.add_sub_cancel_left]
  split_ifs
  · omega
  · rfl
  · rfl

theorem PcapT.Standard.reads (h : p.Standard host) {x : PcapPkthdr × Frame} (hx : p.Fits x) :
    (pcapNextPacket p).Reads (dumpOf host) p.asRead p.stopAt x := by
  obtain ⟨hdr, sp⟩ := x
  have hlen : hdr.caplen.toNat ≤ sp.length := hx.1
  have hmax : hdr.caplen.toNat ≤ max p.bufsize maximumSnaplen := hx.2
  have hsize : (sfPkthdr host hdr).length = p.hdrsize :=
    (length_sfPkthdr host hdr).trans h.hdrsize.symm
  have hdata : (sp.take hdr.caplen.toNat).length = hdr.caplen.toNat := List.length_take_of_le hlen
  have hpkthdr := PcapT.pkthdr_sfPkthdr h.swapped h.lengthsSwapped hdr
  have hcaplen : (p.timesRead hdr).caplen = hdr.caplen := rfl
  constructor
  · intro rest
    rw [dumpOf, pcapDump_eq, List.append_assoc, pcapNextPacket_append hsize, hpkthdr, hcaplen,
      freadAll_append hdata]
    split_ifs with hbuf hbogus
    · omega
    · rw [PcapT.asRead, Nat.min_eq_right hbuf.le, Except.map, List.take_take,
        Nat.min_eq_left hbuf.le]
    · rw [PcapT.asRead, Nat.min_eq_left (not_lt.1 hbuf), Except.map, Nat.toUInt32_eq,
        UInt32.ofNat_toNat, ← hcaplen]
  · intro n hn
    rw [dumpOf, pcapDump_eq] at hn ⊢
    rw [List.length_append, length_sfPkthdr, hdata] at hn
    by_cases hn16 : n < 16
    · exact h.next_of_lt ((List.length_take_le n _).trans_lt hn16)
    · have htake : (sfPkthdr host hdr ++ sp.take hdr.caplen.toNat).take n
          = sfPkthdr host hdr ++ (sp.take hdr.caplen.toNat).take (n - 16) := by
        rw [List.take_append, List.take_of_length_le (by simp; omega), length_sfPkthdr]
      rw [htake]
      exact h.next_of_part ((List.length_take_le _ _).trans_lt (by omega)) hmax

/-- Of the packets in a file that is cut, those that are whole are read. -/
theorem nextPackets_take (h : p.Standard host) {packets : List (PcapPkthdr × Frame)}
    (hpackets : ∀ x ∈ packets, p.Fits x) (n : ℕ) :
    nextPackets p ((packets.flatMap (dumpOf host)).take n)
      = ((Reader.whole (dumpOf host) n packets).map p.asRead,
        some (p.stopAt (Reader.partOf (dumpOf host) n packets))) :=
  Reader.all_take takes_pcapNextPacket rfl n fun x hx => h.reads (hpackets x hx)

end Written

/-! ## The header of a file -/

/-- The link type of `DLT_ATM_CLIP` is read as one of those that are the same in files. -/
theorem linktypeToDlt_dltToLinktype {dlt : ℤ} (h : dltToLinktype dlt ≠ -1) :
    linktypeToDlt (dltToLinktype dlt) = (if dlt = 19 then 106 else dlt) ∧ 0 ≤ dltToLinktype dlt
      ∧ dltToLinktype dlt < 2 ^ 26 := by
  unfold dltToLinktype at h ⊢
  by_cases h₁ : dlt = 246
  · rw [h₁]
    decide
  by_cases h₂ : dlt = 258
  · rw [h₂]
    decide
  rw [if_neg h₁, if_neg h₂] at h ⊢
  by_cases h₃ : 104 ≤ dlt ∧ dlt ≤ 263
  · rw [if_pos h₃, if_neg (show dlt ≠ 19 by omega)]
    refine ⟨?_, by omega, by omega⟩
    unfold linktypeToDlt
    rw [if_neg h₁, if_neg h₂]
    by_cases h262 : dlt ≤ 262
    · rw [if_pos ⟨h₃.1, h262⟩]
    · obtain rfl : dlt = 263 := by omega
      decide
  rw [if_neg h₃] at h ⊢
  have hall : ∀ m ∈ linktypeMap, linktypeToDlt m.2 = (if m.1 = 19 then 106 else m.1)
      ∧ 0 ≤ m.2 ∧ m.2 < 2 ^ 26 := by decide
  rcases hm : linktypeMap.find? fun m => m.1 = dlt with _ | m
  · rw [hm] at h
    exact absurd rfl h
  · have hdlt : m.1 = dlt := by simpa using List.find?_some hm
    rw [hm, Option.map_some, Option.getD_some, ← hdlt]
    exact hall m (List.mem_of_find?_eq_some hm)

/-- What stands in a file's header behind the magic number. -/
def PcapFileHeader.bytes (host : ByteOrder) (hdr : PcapFileHeader) : Frame :=
  host.u16 hdr.versionMajor ++ (host.u16 hdr.versionMinor ++ (host.u32 hdr.thiszone
    ++ (host.u32 hdr.sigfigs ++ (host.u32 hdr.snaplen ++ host.u32 hdr.linktype))))

theorem PcapFileHeader.ofBytes_bytes (host : ByteOrder) (hdr : PcapFileHeader) (rest : Frame) :
    ∃ seen, PcapFileHeader.ofBytes (hdr.bytes host ++ rest) = some seen
      ∧ (if host.swapped then seen.swap else seen) = hdr := by
  have hmajor := host.hostU16_append (a := []) (i := 0) rfl hdr.versionMajor
    (b := host.u16 hdr.versionMinor ++ (host.u32 hdr.thiszone ++ (host.u32 hdr.sigfigs
      ++ (host.u32 hdr.snaplen ++ (host.u32 hdr.linktype ++ rest)))))
  have hminor := host.hostU16_append (a := host.u16 hdr.versionMajor) (i := 2) (by simp)
    hdr.versionMinor (b := host.u32 hdr.thiszone ++ (host.u32 hdr.sigfigs
      ++ (host.u32 hdr.snaplen ++ (host.u32 hdr.linktype ++ rest))))
  have hzone := host.hostU32_append (a := host.u16 hdr.versionMajor ++ host.u16 hdr.versionMinor)
    (i := 4) (by simp) hdr.thiszone (b := host.u32 hdr.sigfigs
      ++ (host.u32 hdr.snaplen ++ (host.u32 hdr.linktype ++ rest)))
  have hsigfigs := host.hostU32_append (a := host.u16 hdr.versionMajor ++ host.u16 hdr.versionMinor
      ++ host.u32 hdr.thiszone) (i := 8) (by simp) hdr.sigfigs
    (b := host.u32 hdr.snaplen ++ (host.u32 hdr.linktype ++ rest))
  have hsnaplen := host.hostU32_append (a := host.u16 hdr.versionMajor ++ host.u16 hdr.versionMinor
      ++ host.u32 hdr.thiszone ++ host.u32 hdr.sigfigs) (i := 12) (by simp) hdr.snaplen
    (b := host.u32 hdr.linktype ++ rest)
  have hlinktype := host.hostU32_append (a := host.u16 hdr.versionMajor ++ host.u16 hdr.versionMinor
      ++ host.u32 hdr.thiszone ++ host.u32 hdr.sigfigs ++ host.u32 hdr.snaplen) (i := 16) (by simp)
    hdr.linktype (b := rest)
  simp only [List.nil_append, List.append_assoc] at hmajor hminor hzone hsigfigs hsnaplen hlinktype
  refine ⟨⟨host.seen16 hdr.versionMajor, host.seen16 hdr.versionMinor, host.seen32 hdr.thiszone,
    host.seen32 hdr.sigfigs, host.seen32 hdr.snaplen, host.seen32 hdr.linktype⟩, ?_, ?_⟩
  · simp only [ofBytes, bytes, List.append_assoc, hmajor, hminor, hzone, hsigfigs, hsnaplen,
      hlinktype, Option.bind_eq_bind, Option.bind_some, Option.pure_def]
  · rcases host with _ | _
    · rfl
    · simp [ByteOrder.seen16, ByteOrder.seen32, ByteOrder.swapped, swap, swapShort_swapShort,
        swapLong_swapLong]

/-- The header that is written for packets of this kind. -/
def headerOf (linktype snaplen : ℤ) : PcapFileHeader :=
  ⟨pcapVersionMajor, pcapVersionMinor, toUInt 0, 0, toUInt snaplen, toUInt linktype⟩

def magicOf (precision : UInt32) : UInt32 :=
  if precision = pcapTstampPrecisionNano then nsecTcpdumpMagic else tcpdumpMagic

theorem isPcapMagic_magicOf (precision : UInt32) : isPcapMagic (magicOf precision) = true := by
  unfold magicOf
  split_ifs <;> rfl

theorem isPcapMagic_seen32 (host : ByteOrder) (precision : UInt32) :
    isPcapMagic (host.seen32 (magicOf precision)) = !host.swapped := by
  rcases host with _ | _
  · exact isPcapMagic_magicOf precision
  · unfold magicOf
    split_ifs <;> decide

theorem sfWriteHeader_eq (host : ByteOrder) (precision : UInt32) (linktype snaplen : ℤ) :
    sfWriteHeader host precision linktype 0 snaplen
      = host.u32 (magicOf precision) ++ (headerOf linktype snaplen).bytes host := by
  simp [sfWriteHeader, PcapFileHeader.bytes, headerOf, magicOf]

theorem length_sfWriteHeader (host : ByteOrder) (precision : UInt32) (linktype snaplen : ℤ) :
    (sfWriteHeader host precision linktype 0 snaplen).length = 24 := by
  simp [sfWriteHeader]

/-- What is known of a file that was written. -/
structure PcapT.Opened (p : PcapT) (host : ByteOrder) (written wanted : UInt32) (dlt snaplen : ℤ) :
    Prop extends p.Standard host where
  linktype : p.linktype = if dlt = 19 then 106 else dlt
  snapshot : p.snapshot = toInt (toUInt snaplen)
  bufsize : p.bufsize = if p.snapshot ≤ 0 then maximumSnaplen else p.snapshot.toNat
  scaleType : scaleTypeOf (magicOf written) wanted = some p.scaleType

theorem pcapOpenOffline_append {host : ByteOrder} {written wanted : UInt32} {dlt snaplen : ℤ}
    {header : Frame} (hheader : pcapDumpOpen host written dlt snaplen = some header)
    (hwanted : wanted = pcapTstampPrecisionMicro ∨ wanted = pcapTstampPrecisionNano)
    (rest : Frame) : ∃ p, pcapOpenOffline (header ++ rest) wanted = .ok (some (p, rest))
      ∧ p.Opened host written wanted dlt snaplen := by
  unfold pcapDumpOpen at hheader
  dsimp only at hheader
  split_ifs at hheader with hwritten hlinktype
  cases hheader
  obtain ⟨hdlt, h₀, h26⟩ := linktypeToDlt_dltToLinktype hlinktype
  obtain ⟨seen, hseen, hswap⟩ := (headerOf (dltToLinktype dlt) snaplen).ofBytes_bytes host rest
  have hlen : ((headerOf (dltToLinktype dlt) snaplen).bytes host).length = 20 := by
    simp [PcapFileHeader.bytes]
  obtain ⟨scaleType, hscale⟩ : ∃ scaleType, scaleTypeOf (magicOf written) wanted
      = some scaleType := by
    unfold scaleTypeOf
    rcases hwanted with rfl | rfl
    · exact ⟨_, rfl⟩
    · exact ⟨_, rfl⟩
  have hunswapped : (if host.swapped then swapLong (host.seen32 (magicOf written))
      else host.seen32 (magicOf written)) = magicOf written := host.swapLong_seen32 _
  refine ⟨(headerOf (dltToLinktype dlt) snaplen).toPcapT (magicOf written) host.swapped scaleType,
    ?_, ?_⟩
  · have hcheck : pcapCheckHeader (host.seen32 (magicOf written))
        ((headerOf (dltToLinktype dlt) snaplen).bytes host ++ rest) wanted
        = .ok (some ((headerOf (dltToLinktype dlt) snaplen).toPcapT (magicOf written) host.swapped
          scaleType, rest)) := by
      unfold pcapCheckHeader
      simp only [isPcapMagic_seen32, Bool.not_not, hunswapped, isPcapMagic_magicOf, hseen, hswap,
        hscale, List.drop_left' hlen]
      rfl
    have hread : Frame.hostU32 (host.u32 (magicOf written)
        ++ ((headerOf (dltToLinktype dlt) snaplen).bytes host ++ rest)) 0
        = some (host.seen32 (magicOf written)) := host.hostU32_append (a := []) rfl _
    rw [pcapOpenOffline, sfWriteHeader_eq, List.append_assoc, hread]
    dsimp only
    rw [List.drop_left' (host.length_u32 _), hcheck]
  · have hpatched : magicOf written ≠ kuznetzovTcpdumpMagic := by
      unfold magicOf
      split_ifs <;> decide
    have hlt : ((ltLinktype (toUInt (dltToLinktype dlt))).toNat : ℤ) = dltToLinktype dlt := by
      have hnat := toNat_toUInt h₀ (h26.trans (by decide))
      have hmask : (0x03FFFFFF : UInt32).toNat = 2 ^ 26 - 1 := rfl
      rw [ltLinktype, UInt32.toNat_and, hmask, Nat.and_two_pow_sub_one_eq_mod,
        Nat.mod_eq_of_lt (by omega), hnat]
    refine ⟨⟨rfl, rfl, if_neg hpatched⟩, ?_, ?_, rfl, hscale⟩
    · exact (congrArg linktypeToDlt hlt).trans hdlt
    · exact if_neg fun h => hpatched h.1

theorem Frame.hostU32_eq_none {packetBuf : Frame} {i : ℕ} (h : packetBuf.length < i + 4) :
    packetBuf.hostU32 i = none := by
  have hlast : packetBuf[i + 2 + 1]? = none := List.getElem?_eq_none (by omega)
  rcases hlow : packetBuf.hostU16 i with _ | low
  · simp [hostU32, hlow]
  · simp [hostU32, hostU16, u8, hlast]

/-- A file that is cut in its header is refused. -/
theorem pcapOpenOffline_of_lt {host : ByteOrder} {written : UInt32} {dlt snaplen : ℤ}
    {header : Frame} (hheader : pcapDumpOpen host written dlt snaplen = some header)
    (wanted : UInt32) {n : ℕ} (hn : n < 24) :
    ∃ errbuf, pcapOpenOffline (header.take n) wanted = .error errbuf := by
  unfold pcapDumpOpen at hheader
  dsimp only at hheader
  split_ifs at hheader with hwritten hlinktype
  cases hheader
  rw [sfWriteHeader_eq]
  by_cases hn4 : n < 4
  · have hnone : Frame.hostU32 ((host.u32 (magicOf written)
        ++ (headerOf (dltToLinktype dlt) snaplen).bytes host).take n) 0 = none :=
      Frame.hostU32_eq_none (by rw [List.length_take]; omega)
    rw [pcapOpenOffline, hnone]
    exact ⟨_, rfl⟩
  -- the magic number is whole, so that the rest is read as a header
  have hshort : PcapFileHeader.ofBytes
      (((headerOf (dltToLinktype dlt) snaplen).bytes host).take (n - 4)) = none := by
    have hlast : Frame.hostU32
        (((headerOf (dltToLinktype dlt) snaplen).bytes host).take (n - 4)) 16 = none := by
      refine Frame.hostU32_eq_none ?_
      rw [List.length_take]
      omega
    refine Option.eq_none_iff_forall_ne_some.2 fun hdr hhdr => ?_
    simp [PcapFileHeader.ofBytes, hlast] at hhdr
  have hread : Frame.hostU32 (host.u32 (magicOf written)
      ++ ((headerOf (dltToLinktype dlt) snaplen).bytes host).take (n - 4)) 0
      = some (host.seen32 (magicOf written)) := host.hostU32_append (a := []) rfl _
  rw [List.take_append, List.take_of_length_le (by rw [host.length_u32]; omega), host.length_u32,
    pcapOpenOffline, hread]
  dsimp only
  rw [List.drop_left' (host.length_u32 _), pcapCheckHeader]
  simp only [isPcapMagic_seen32, Bool.not_not, host.swapLong_seen32, isPcapMagic_magicOf, hshort]
  exact ⟨_, rfl⟩

/-! ## Writing what was read -/

section Again

variable {p : PcapT} {host : ByteOrder}

theorem hostBytes_of_hostU32 {packetBuf : Frame} {i : ℕ} {v : UInt32}
    (h : packetBuf.hostU32 i = some v) : (packetBuf.drop i).take 4 = hostBytes v := by
  simp only [Frame.hostU32, Option.bind_eq_bind, Option.bind_eq_some_iff, Option.pure_def,
    Option.some.injEq] at h
  obtain ⟨low, hlow, high, hhigh, rfl⟩ := h
  obtain ⟨b₀, b₁, h₀, h₁, rfl⟩ := Frame.hostU16_eq_some.1 hlow
  obtain ⟨b₂, b₃, h₂, h₃, rfl⟩ := Frame.hostU16_eq_some.1 hhigh
  have hbytes : (packetBuf.drop i).take 4 = [b₀, b₁, b₂, b₃] := by
    refine List.ext_getElem? fun k => ?_
    by_cases hk : k < 4
    · rw [List.getElem?_take_of_lt hk, List.getElem?_drop]
      interval_cases k
      exacts [h₀, h₁, h₂, h₃]
    · rw [List.getElem?_eq_none, List.getElem?_eq_none]
      · simp
        omega
      · simp
        omega
  have hlt₀ := b₀.toNat_lt
  have hlt₁ := b₁.toNat_lt
  have hlt₂ := b₂.toNat_lt
  have hlt₃ := b₃.toNat_lt
  rw [hbytes, hostBytes]
  simp only [List.cons.injEq, and_true, ← UInt8.toNat_inj, UInt32.toNat_toUInt8,
    UInt32.toNat_shiftRight, Nat.shiftRight_eq_div_pow, UInt32.toNat_ofNat', UInt16.toNat_ofNat',
    UInt32.reduceToNat, Nat.reduceMod, Nat.reducePow]
  refine ⟨?_, ?_, ?_, ?_⟩ <;> omega

theorem Frame.exists_hostU32 {packetBuf : Frame} {i : ℕ} (h : i + 4 ≤ packetBuf.length) :
    ∃ v, packetBuf.hostU32 i = some v := by
  have hlow := Frame.hostU16_eq_some.2
    ⟨_, _, List.getElem?_eq_getElem (l := packetBuf) (i := i) (by omega),
      List.getElem?_eq_getElem (i := i + 1) (by omega), rfl⟩
  have hhigh := Frame.hostU16_eq_some.2
    ⟨_, _, List.getElem?_eq_getElem (l := packetBuf) (i := i + 2) (by omega),
      List.getElem?_eq_getElem (i := i + 2 + 1) (by omega), rfl⟩
  exact ⟨_, by simp only [Frame.hostU32, hlow, hhigh, Option.bind_eq_bind, Option.bind_some]; rfl⟩

/-- A field that is swapped when it is read is swapped when it is written. -/
theorem u32_field (h : p.Standard host) {sfHdr : Frame} {i : ℕ} (hi : i + 4 ≤ sfHdr.length) :
    host.u32 (p.field sfHdr i) = (sfHdr.drop i).take 4 := by
  obtain ⟨v, hv⟩ := Frame.exists_hostU32 hi
  have hseen : host.seen32 (p.field sfHdr i) = v := by
    rw [PcapT.field, hv, Option.getD_some, h.swapped, ByteOrder.seen32]
    split_ifs
    · exact swapLong_swapLong v
    · rfl
  rw [ByteOrder.u32_eq, hseen, hostBytes_of_hostU32 hv]

theorem sfPkthdr_pkthdr (h : p.Standard host) (hscale : p.scaleType = .passThrough) {sfHdr : Frame}
    (hlen : sfHdr.length = 16) : sfPkthdr host (p.pkthdr sfHdr) = sfHdr := by
  have hsplit : sfHdr = (sfHdr.drop 0).take 4 ++ (sfHdr.drop 4).take 4 ++ (sfHdr.drop 8).take 4
      ++ (sfHdr.drop 12).take 4 := by
    have h4 : sfHdr.take 4 ++ sfHdr.drop 4 = sfHdr := List.take_append_drop 4 sfHdr
    have h8 : (sfHdr.drop 4).take 4 ++ sfHdr.drop 8 = sfHdr.drop 4 := by
      simpa using List.take_append_drop 4 (sfHdr.drop 4)
    have h12 : (sfHdr.drop 8).take 4 ++ sfHdr.drop 12 = sfHdr.drop 8 := by
      simpa using List.take_append_drop 4 (sfHdr.drop 8)
    have h16 : (sfHdr.drop 12).take 4 = sfHdr.drop 12 :=
      List.take_of_length_le (by rw [List.length_drop]; omega)
    rw [h16, List.append_assoc, List.append_assoc, h12, h8, List.drop_zero, h4]
  simp only [sfPkthdr, PcapT.pkthdr, PcapT.interchanged, h.lengthsSwapped, PcapT.scale, hscale,
    toUInt_toInt, Bool.false_eq_true, if_false]
  rw [u32_field h (by omega), u32_field h (by omega), u32_field h (by omega),
    u32_field h (by omega), ← hsplit]

/-- What is taken for a packet is what would be written for it. -/
theorem eq_pcapDump (h : p.Standard host) (hscale : p.scaleType = .passThrough) {fp rest : Frame}
    {r : PcapPkthdr × Frame} (hnext : pcapNextPacket p fp = .ok (r, rest))
    (hplain : p.swapped = true → p.linktype ∉ pseudoHeaderDlts) (hr : r.2.length < p.bufsize) :
    fp = dumpOf host r ++ rest := by
  obtain ⟨sfHdr, data, rfl, hlen, hdata, ⟨-, rfl⟩ | ⟨hbuf, rfl⟩⟩ := pcapNextPacket_ok hnext
  · rw [PcapT.packet_of_plain hplain, dumpOf, pcapDump_eq,
      sfPkthdr_pkthdr h hscale (hlen.trans h.hdrsize), List.take_of_length_le hdata.le,
      List.append_assoc]
  · rw [PcapT.length_packet] at hr
    exact absurd (List.length_take_of_le hbuf.le) hr.ne

end Again

/-! ## Files -/

/-- The packets are pieces of the file, apart from each other and behind a header each. -/
theorem size_nextPackets (p : PcapT) (fp : Frame) : (nextPackets p fp).1.length * p.hdrsize
    + ((nextPackets p fp).1.map fun x => x.2.length).sum ≤ fp.length := by
  unfold nextPackets
  induction fp using Reader.all_induction (takes_pcapNextPacket (p := p)) with
  | error fp e h =>
    rw [Reader.all_of_error h]
    simp
  | ok fp r rest h ih =>
    rw [Reader.all_of_ok takes_pcapNextPacket h]
    obtain ⟨sfHdr, data, rfl, hlen, -, hr⟩ := pcapNextPacket_ok h
    have hdata : r.2.length ≤ data.length := by
      rcases hr with ⟨-, rfl⟩ | ⟨-, rfl⟩
      · exact (PcapT.length_packet _ _).le
      · exact (PcapT.length_packet _ _).trans_le (List.length_take_le' _ _)
    simp only [List.length_cons, List.map_cons, List.sum_cons, List.length_append, add_mul, hlen]
    omega

theorem pcapCheckHeader_ok {magic precision : UInt32} {fp : Frame} {r : PcapT × Frame}
    (h : pcapCheckHeader magic fp precision = .ok (some r)) :
    20 ≤ fp.length ∧ r.2 = fp.drop 20 := by
  unfold pcapCheckHeader at h
  dsimp only at h
  generalize (if (!isPcapMagic magic) = true then swapLong magic else magic) = magic' at h
  generalize (!isPcapMagic magic) = swapped at h
  rcases hhdr : PcapFileHeader.ofBytes fp with _ | hdr
  · rw [hhdr] at h
    split_ifs at h
    cases h
  have hlen : 20 ≤ fp.length := by
    by_contra hlt
    have hlast : fp.hostU32 16 = none := Frame.hostU32_eq_none (by omega)
    simp [PcapFileHeader.ofBytes, hlast] at hhdr
  rw [hhdr] at h
  dsimp only at h
  generalize (if swapped = true then hdr.swap else hdr) = hdr' at h
  rcases hscale : scaleTypeOf magic' precision with _ | scaleType
  · rw [hscale] at h
    split_ifs at h
    all_goals cases h
  · rw [hscale] at h
    split_ifs at h
    · cases h
    · cases h
      exact ⟨hlen, rfl⟩

theorem pcapOpenOffline_ok {file fp : Frame} {precision : UInt32} {p : PcapT}
    (h : pcapOpenOffline file precision = .ok (some (p, fp))) :
    ∃ header, file = header ++ fp ∧ header.length = 24 := by
  unfold pcapOpenOffline at h
  rcases hmagic : file.hostU32 0 with _ | magic
  · rw [hmagic] at h
    cases h
  rw [hmagic] at h
  dsimp only at h
  rcases hcheck : pcapCheckHeader magic (file.drop 4) precision with e | _ | r
  · rw [hcheck] at h
    cases h
  · rw [hcheck] at h
    dsimp only at h
    split_ifs at h
    cases h
  · rw [hcheck] at h
    cases h
    obtain ⟨hlen, hfp⟩ := pcapCheckHeader_ok hcheck
    rw [List.length_drop] at hlen
    rw [List.drop_drop] at hfp
    refine ⟨file.take 24, ?_, List.length_take_of_le (by omega)⟩
    rw [show fp = file.drop (4 + 20) from hfp, List.take_append_drop]

/-- Whatever host writes a file, and for whatever precision: if it is cut in its header, it is
refused, and else the packets that are whole in it are read, with times of 32 bits and with what is
to be swapped of their pseudo-headers swapped.  Only at the end of a packet the reader takes the end
for the end of the file. -/
theorem savefile_read_back {host : ByteOrder} {written wanted : UInt32} {dlt snaplen : ℤ}
    {packets : List (PcapPkthdr × Frame)} {file : Frame}
    (hfile : savefile host written dlt snaplen packets = some file)
    (hwanted : wanted = pcapTstampPrecisionMicro ∨ wanted = pcapTstampPrecisionNano)
    (hpackets : ∀ x ∈ packets, x.1.caplen.toNat ≤ x.2.length
      ∧ x.1.caplen.toNat ≤ max (toInt (toUInt snaplen)).toNat maximumSnaplen) (n : ℕ) :
    (n < 24 → ∃ errbuf, pcapOpenOffline (file.take n) wanted = .error errbuf)
      ∧ (24 ≤ n → ∃ p fp, pcapOpenOffline (file.take n) wanted = .ok (some (p, fp))
        ∧ p.Opened host written wanted dlt snaplen ∧ nextPackets p fp
          = ((Reader.whole (dumpOf host) (n - 24) packets).map p.asRead,
            some (p.stopAt (Reader.partOf (dumpOf host) (n - 24) packets)))) := by
  obtain ⟨header, hheader, rfl⟩ := Option.map_eq_some_iff.1 hfile
  have hlen : header.length = 24 := by
    unfold pcapDumpOpen at hheader
    dsimp only at hheader
    split_ifs at hheader
    cases hheader
    exact length_sfWriteHeader ..
  rw [List.take_append, hlen]
  constructor
  · intro hn
    rw [Nat.sub_eq_zero_of_le hn.le, List.take_zero, List.append_nil]
    exact pcapOpenOffline_of_lt hheader wanted hn
  · intro hn
    rw [List.take_of_length_le (by omega)]
    obtain ⟨p, hopen, hp⟩ := pcapOpenOffline_append hheader hwanted
      ((packets.flatMap (dumpOf host)).take (n - 24))
    have hfits : ∀ x ∈ packets, p.Fits x := by
      intro x hx
      have hmax := (hpackets x hx).2
      rw [← hp.snapshot] at hmax
      refine ⟨(hpackets x hx).1, ?_⟩
      rw [hp.bufsize]
      split_ifs <;> omega
    exact ⟨p, _, hopen, hp, nextPackets_take hp.toStandard hfits _⟩

/-- Two packets, of 3 and of 2 bytes. -/
def examplePackets : List (PcapPkthdr × Frame) :=
  [(⟨5, 7000, 3, 60⟩, [1, 2, 3]), (⟨6, 8000, 2, 2⟩, [4, 5])]

theorem savefile_read_back_example : ∃ file p fp,
    savefile .big pcapTstampPrecisionNano dltEn10mb 65535 examplePackets = some file
      ∧ pcapOpenOffline (file.take 60) pcapTstampPrecisionMicro = .ok (some (p, fp))
      ∧ p.linktype = dltEn10mb
      ∧ (nextPackets p fp).1 = [p.asRead (⟨5, 7000, 3, 60⟩, [1, 2, 3])] := by
  obtain ⟨file, hfile⟩ : ∃ file, savefile .big pcapTstampPrecisionNano dltEn10mb 65535
      examplePackets = some file := ⟨_, rfl⟩
  obtain ⟨p, fp, hopen, hp, hread⟩ :=
    (savefile_read_back hfile (.inl rfl) (by decide) 60).2 (by decide)
  exact ⟨file, p, fp, hfile, hopen, hp.linktype, by rw [hread]; rfl⟩

/-- Whatever bytes a file has: if it is accepted and not one of `pcap-ng`, reading it ends, and the
packets have as many bytes as their headers say, fit in the buffer and with their headers take no
more than the file has.  If the file has the standard format, its times are not scaled and its
packets have no pseudo-headers to swap, it holds what would be written for the packets, unless one
has filled the buffer. -/
theorem savefile_dumped_back {file fp : Frame} {precision : UInt32} {p : PcapT}
    (hopen : pcapOpenOffline file precision = .ok (some (p, fp))) :
    (∃ stop, (nextPackets p fp).2 = some stop)
      ∧ (∀ x ∈ (nextPackets p fp).1, x.2.length = x.1.caplen.toNat ∧ x.2.length ≤ p.bufsize)
      ∧ 24 + (nextPackets p fp).1.length * p.hdrsize
        + ((nextPackets p fp).1.map fun x => x.2.length).sum ≤ file.length
      ∧ ∀ host, p.Standard host → p.scaleType = .passThrough →
        (p.swapped = true → p.linktype ∉ pseudoHeaderDlts) →
        (∀ x ∈ (nextPackets p fp).1, x.2.length < p.bufsize) → ∃ header rest stop,
          file = header ++ (nextPackets p fp).1.flatMap (dumpOf host) ++ rest
            ∧ header.length = 24 ∧ (nextPackets p fp).2 = some stop
            ∧ pcapNextPacket p rest = .error stop := by
  obtain ⟨header, rfl, hlen⟩ := pcapOpenOffline_ok hopen
  have hsize := size_nextPackets p fp
  refine ⟨Reader.exists_stop takes_pcapNextPacket fp,
    Reader.forall_mem_all takes_pcapNextPacket (fun _ _ _ => length_of_pcapNextPacket) fp, ?_, ?_⟩
  · rw [List.length_append, hlen]
    omega
  · intro host hp hscale hplain hfull
    obtain ⟨stop, rest, hstop, hrest, hfp⟩ := Reader.exists_rest takes_pcapNextPacket
      (fun _ _ _ hnext => eq_pcapDump hp hscale hnext hplain) fp hfull
    exact ⟨header, rest, stop, by rw [List.append_assoc]; exact congrArg _ hfp, hlen, hstop, hrest⟩

theorem savefile_dumped_back_example : ∃ file p fp header rest,
    savefile .little pcapTstampPrecisionMicro dltEn10mb 65535 examplePackets = some file
      ∧ pcapOpenOffline file pcapTstampPrecisionMicro = .ok (some (p, fp))
      ∧ (nextPackets p fp).1 = examplePackets.map p.asRead
      ∧ file = header ++ (examplePackets.map p.asRead).flatMap
        (dumpOf .little) ++ rest := by
  obtain ⟨header, hheader⟩ : ∃ header, pcapDumpOpen .little pcapTstampPrecisionMicro dltEn10mb 65535
      = some header := ⟨_, rfl⟩
  obtain ⟨p, hopen, hp⟩ := pcapOpenOffline_append hheader
    (.inl (rfl : pcapTstampPrecisionMicro = pcapTstampPrecisionMicro))
    (examplePackets.flatMap (dumpOf .little))
  have hfits : ∀ x ∈ examplePackets, p.Fits x := by
    have hall : ∀ x ∈ examplePackets, x.1.caplen.toNat ≤ x.2.length
        ∧ x.1.caplen.toNat ≤ maximumSnaplen := by decide
    exact fun x hx => ⟨(hall x hx).1, (hall x hx).2.trans (le_max_right _ _)⟩
  have hread := nextPackets_take hp.toStandard hfits
    (examplePackets.flatMap (dumpOf .little)).length
  rw [List.take_length, (Reader.whole_of_length_le le_rfl).1] at hread
  have hscale : p.scaleType = .passThrough := (Option.some.inj hp.scaleType).symm
  have hbufsize : p.bufsize = 65535 := by
    rw [hp.bufsize, hp.snapshot]
    decide
  have hsmall : ∀ x ∈ (nextPackets p (examplePackets.flatMap (dumpOf .little))).1,
      x.2.length < p.bufsize := by
    rw [hread, hbufsize]
    intro x hx
    obtain ⟨y, hy, rfl⟩ := List.mem_map.1 hx
    have hall : ∀ y ∈ examplePackets, y.2.length < 65535 := by decide
    rw [PcapT.asRead, PcapT.length_packet]
    exact (List.length_take_le' _ _).trans_lt (hall y hy)
  have hplain : p.swapped = true → p.linktype ∉ pseudoHeaderDlts := fun h =>
    absurd (hp.swapped.symm.trans h) Bool.false_ne_true
  obtain ⟨header', rest, stop, hfile, -⟩ :=
    (savefile_dumped_back hopen).2.2.2 .little hp.toStandard hscale hplain hsmall
  rw [hread] at hfile
  exact ⟨_, p, _, header', rest, by rw [savefile, hheader]; rfl, hopen, by rw [hread], hfile⟩

end CMTestbed
