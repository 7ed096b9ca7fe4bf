import CMTestbed.Fifo
import CMTestbed.Lib.Framed

/-!
# Savefiles

The generator's packets are written by `pcap_dump`, and `send_packets` gets them by `pcap_next`.  A
savefile has a header, and so has each packet in it, in front of its bytes.  The numbers are in the
byte order of the host that writes the file, and with another one they are swapped when they are
read; so are those of a pseudo-header that a packet of some link types begins with.  The host that
reads has the low byte first.

Files in the format of `pcap-ng` are told apart here, and not read.
-/

namespace CMTestbed

/-- Which byte of a number is the first one in memory, the lowest or the highest. -/
inductive ByteOrder where
  | little
  | big
  deriving DecidableEq, Repr

def ByteOrder.u16 : ByteOrder → UInt16 → Frame
  | little => hostBytes16
  | big => netBytes16

def ByteOrder.u32 : ByteOrder → UInt32 → Frame
  | little => hostBytes
  | big => netBytes32

/-- `SWAPSHORT` -/
def swapShort (y : UInt16) : UInt16 := ((y &&& 0xff) <<< 8) ||| ((y &&& 0xff00) >>> 8)

/-- `SWAPLONG` -/
def swapLong (y : UInt32) : UInt32 :=
  ((y &&& 0xff) <<< 24) ||| ((y &&& 0xff00) <<< 8) ||| ((y &&& 0xff0000) >>> 8)
    ||| ((y >>> 24) &&& 0xff)

def tcpdumpMagic : UInt32 := 0xa1b2c3d4
def kuznetzovTcpdumpMagic : UInt32 := 0xa1b2cd34
def nsecTcpdumpMagic : UInt32 := 0xa1b23c4d

def pcapVersionMajor : UInt16 := 2
def pcapVersionMinor : UInt16 := 4

def pcapTstampPrecisionMicro : UInt32 := 0
def pcapTstampPrecisionNano : UInt32 := 1

def maximumSnaplen : ℕ := 262144

/-! ## Link types -/

/-- `map`: the pairs of `DLT_` and `LINKTYPE_`. -/
def linktypeMap : List (ℤ × ℤ) :=
  [(0, 0), (1, 1), (2, 2), (3, 3), (4, 4), (5, 5), (6, 6), (7, 7), (8, 8), (9, 9), (10, 10),
    (99, 99), (11, 100), (12, 101), (15, 102), (16, 103), (104, 104), (19, 106), (50, 50), (51, 51)]

/-- The first two cases are those of `DLT_PFSYNC` and `DLT_PKTAP`. -/
def dltToLinktype (dlt : ℤ) : ℤ :=
  if dlt = 246 then 246
  else if dlt = 258 then 258
  else if 104 ≤ dlt ∧ dlt ≤ 263 then dlt
  else ((linktypeMap.find? fun m => m.1 = dlt).map Prod.snd).getD (-1)

def linktypeToDlt (linktype : ℤ) : ℤ :=
  if linktype = 246 then 246
  else if linktype = 258 then 258
  else if 104 ≤ linktype ∧ linktype ≤ 262 then linktype
  else ((linktypeMap.find? fun m => m.2 = linktype).map Prod.fst).getD linktype

/-- `LT_LINKTYPE` -/
def ltLinktype (x : UInt32) : UInt32 := x &&& 0x03FFFFFF

/-- `LT_LINKTYPE_EXT` -/
def ltLinktypeExt (x : UInt32) : UInt32 := x &&& 0xFC000000

/-! ## Writing -/

/-- `struct pcap_pkthdr`; the two fields of its time have 64 bits. -/
structure PcapPkthdr where
  tvSec : ℤ
  tvUsec : ℤ
  caplen : UInt32
  len : UInt32
  deriving DecidableEq, Repr

def sfWriteHeader (host : ByteOrder) (precision : UInt32) (linktype thiszone snaplen : ℤ) : Frame :=
  host.u32 (if precision = pcapTstampPrecisionNano then nsecTcpdumpMagic else tcpdumpMagic)
    ++ host.u16 pcapVersionMajor ++ host.u16 pcapVersionMinor ++ host.u32 (toUInt thiszone)
    ++ host.u32 0 ++ host.u32 (toUInt snaplen) ++ host.u32 (toUInt linktype)

/-- `pcap_dump_open` of what `pcap_open_dead_with_tstamp_precision` returns, with what is written to
the file; nothing for a null pointer of either. -/
def pcapDumpOpen (host : ByteOrder) (precision : UInt32) (dlt snaplen : ℤ) : Option Frame :=
  if precision = pcapTstampPrecisionMicro ∨ precision = pcapTstampPrecisionNano then
    let linktype := dltToLinktype dlt
    if linktype = -1 then none else some (sfWriteHeader host precision linktype 0 snaplen)
  else none

/-- What `pcap_dump` writes; the times are cut to 32 bits. -/
def pcapDump (host : ByteOrder) (h : PcapPkthdr) (sp : Frame) : Frame :=
  host.u32 (toUInt h.tvSec) ++ host.u32 (toUInt h.tvUsec) ++ host.u32 h.caplen ++ host.u32 h.len
    ++ sp.take h.caplen.toNat

/-- What is written for a packet. -/
def dumpOf (host : ByteOrder) (x : PcapPkthdr × Frame) : Frame := pcapDump host x.1 x.2

/-- A file with these packets. -/
def savefile (host : ByteOrder) (precision : UInt32) (dlt snaplen : ℤ)
    (packets : List (PcapPkthdr × Frame)) : Option Frame :=
  (pcapDumpOpen host precision dlt snaplen).map fun header =>
    header ++ packets.flatMap (dumpOf host)

/-! ## The header -/

inductive SwappedType where
  | notSwapped
  | swapped
  | maybeSwapped
  deriving DecidableEq, Repr

inductive TstampScaleType where
  | passThrough
  | scaleUp
  | scaleDown
  deriving DecidableEq, Repr

/-- A `pcap_t` of a savefile. -/
structure PcapT where
  swapped : Bool
  versionMajor : UInt16
  versionMinor : UInt16
  tzoff : ℤ
  snapshot : ℤ
  linktype : ℤ
  linktypeExt : UInt32
  bufsize : ℕ
  hdrsize : ℕ
  lengthsSwapped : SwappedType
  scaleType : TstampScaleType
  bufsize_int : 0 < bufsize ∧ bufsize < 2 ^ 31
  hdrsize_ge : 16 ≤ hdrsize
  deriving DecidableEq, Repr

/-- A `struct pcap_file_header` behind its magic number. -/
structure PcapFileHeader where
  versionMajor : UInt16
  versionMinor : UInt16
  thiszone : UInt32
  sigfigs : UInt32
  snaplen : UInt32
  linktype : UInt32

namespace PcapFileHeader

def ofBytes (buf : Frame) : Option PcapFileHeader := do
  let versionMajor ← buf.hostU16 0
  let versionMinor ← buf.hostU16 2
  let thiszone ← buf.hostU32 4
  let sigfigs ← buf.hostU32 8
  let snaplen ← buf.hostU32 12
  let linktype ← buf.hostU32 16
  return ⟨versionMajor, versionMinor, thiszone, sigfigs, snaplen, linktype⟩

def swap (hdr : PcapFileHeader) : PcapFileHeader where
  versionMajor := swapShort hdr.versionMajor
  versionMinor := swapShort hdr.versionMinor
  thiszone := swapLong hdr.thiszone
  sigfigs := swapLong hdr.sigfigs
  snaplen := swapLong hdr.snaplen
  linktype := swapLong hdr.linktype

/-- Version 2.3 stands in files of both kinds. -/
def lengthsSwapped (hdr : PcapFileHeader) : SwappedType :=
  if hdr.versionMajor = 2 then
    if hdr.versionMinor < 3 then .swapped
    else if hdr.versionMinor = 3 then .maybeSwapped
    else .notSwapped
  else if hdr.versionMajor = 543 then .swapped
  else .notSwapped

end PcapFileHeader

def isPcapMagic (magic : UInt32) : Bool :=
  magic = tcpdumpMagic ∨ magic = kuznetzovTcpdumpMagic ∨ magic = nsecTcpdumpMagic

/-- The switch over the precision that the reader asks for; nothing for the default. -/
def scaleTypeOf (magic precision : UInt32) : Option TstampScaleType :=
  if precision = pcapTstampPrecisionMicro then
    some (if magic = nsecTcpdumpMagic then .scaleDown else .passThrough)
  else if precision = pcapTstampPrecisionNano then
    some (if magic = nsecTcpdumpMagic then .passThrough else .scaleUp)
  else none

theorem toInt_lt (value : UInt32) : toInt value < 2 ^ 31 := value.toInt32.toInt_lt

/-- The `pcap_t` for a header; `sizeof` of the packet headers is 16 or, if patched, 24. -/
def PcapFileHeader.toPcapT (hdr : PcapFileHeader) (magic : UInt32) (swapped : Bool)
    (scaleType : TstampScaleType) : PcapT :=
  let linktype := linktypeToDlt (ltLinktype hdr.linktype).toNat
  let patched := magic = kuznetzovTcpdumpMagic
  let snapshot :=
    if patched ∧ linktype = dltEn10mb then toInt (hdr.snaplen + 14) else toInt hdr.snaplen
  { swapped := swapped
    versionMajor := hdr.versionMajor
    versionMinor := hdr.versionMinor
    tzoff := toInt hdr.thiszone
    snapshot := snapshot
    linktype := linktype
    linktypeExt := ltLinktypeExt hdr.linktype
    bufsize := if snapshot ≤ 0 then maximumSnaplen else snapshot.toNat
    hdrsize := if patched then 24 else 16
    lengthsSwapped := hdr.lengthsSwapped
    scaleType := scaleType
    bufsize_int := by
      have hlt := toInt_lt hdr.snaplen
      have hlt' := toInt_lt (hdr.snaplen + 14)
      dsimp only [snapshot, maximumSnaplen]
      split_ifs <;> omega
    hdrsize_ge := by split_ifs <;> decide }

/-- `pcap_check_header`, with the file behind the header: an error with its text, or nothing for a
file of another format. -/
def pcapCheckHeader (magic : UInt32) (fp : Frame) (precision : UInt32) :
    Except (List UInt8) (Option (PcapT × Frame)) :=
  let swapped := !isPcapMagic magic
  let magic := if swapped then swapLong magic else magic
  if !isPcapMagic magic then .ok none
  else match PcapFileHeader.ofBytes fp with
    | none =>
      .error (chars "truncated dump file; tried to read 24 file header bytes, only got "
        ++ formatNat fp.length)
    | some hdr =>
      let hdr := if swapped then hdr.swap else hdr
      if hdr.versionMajor < pcapVersionMajor then .error (chars "archaic pcap savefile format")
      else match scaleTypeOf magic precision with
        | none => .error (chars "unknown time stamp resolution " ++ formatNat precision.toNat)
        | some scaleType => .ok (some (hdr.toPcapT magic swapped scaleType, fp.drop 20))

/-- `BT_SHB` -/
def btShb : UInt32 := 0x0A0D0D0A

def byteOrderMagic : UInt32 := 0x1A2B3C4D

/-- Whether `pcap_ng_check_header` takes the file for one in the format of `pcap-ng`. -/
def isPcapNg (magic : UInt32) (fp : Frame) : Bool :=
  magic = btShb ∧ ((fp.hostU32 4).any fun v => v = byteOrderMagic ∨ swapLong v = byteOrderMagic)

/-- `pcap_open_offline_with_tstamp_precision`; nothing for a file of `pcap-ng`. -/
def pcapOpenOffline (file : Frame) (precision : UInt32) :
    Except (List UInt8) (Option (PcapT × Frame)) :=
  match file.hostU32 0 with
  | none =>
    .error (chars "truncated dump file; tried to read 4 file header bytes, only got "
      ++ formatNat file.length)
  | some magic =>
    match pcapCheckHeader magic (file.drop 4) precision with
    | .error errbuf => .error errbuf
    | .ok none =>
      if isPcapNg magic (file.drop 4) then .ok none else .error (chars "unknown file format")
    | .ok (some p) => .ok (some p)

/-! ## Pseudo-headers -/

def dltUsbLinux : ℤ := 189
def dltUsbLinuxMmapped : ℤ := 220
def dltNflog : ℤ := 239

/-- A field of so many bytes at the index is swapped in its place. -/
def swapField (buf : Frame) (i size : ℕ) : Frame :=
  buf.take i ++ ((buf.drop i).take size).reverse ++ buf.drop (i + size)

/-- Fields are swapped, each given by its index and size, up to the first one that has not been
captured whole. -/
def swapFields (caplen : ℕ) (buf : Frame) : List (ℕ × ℕ) → Frame
  | [] => buf
  | (i, size) :: fields =>
    if caplen < i + size then buf else swapFields caplen (swapField buf i size) fields

/-- The fields of the isochronous descriptors behind a header of 64 bytes. -/
def isodescFields (ndesc : ℕ) : List (ℕ × ℕ) :=
  (List.range ndesc).flatMap fun i => [(64 + 16 * i, 4), (68 + 16 * i, 4), (72 + 16 * i, 4)]

/-- The transfers of type 0 are the isochronous ones. -/
def swapLinuxUsbHeader (hdr : PcapPkthdr) (buf : Frame) (headerLen64Bytes : Bool) : Frame :=
  let caplen := hdr.caplen.toNat
  let isochronous := buf.u8 9 = some 0x0
  let buf := swapFields caplen buf
    ([(0, 8), (12, 2), (16, 8), (24, 4), (28, 4), (32, 4), (36, 4)]
      ++ if isochronous then [(40, 4), (44, 4)] else [])
  if headerLen64Bytes then
    let buf := swapFields caplen buf [(48, 4), (52, 4), (56, 4), (60, 4)]
    if isochronous then
      swapFields caplen buf (isodescFields ((buf.hostU32 60).getD 0).toNat)
    else buf
  else buf

/-- The loop over the TLVs from `i` on, with so much of the captured and the whole packet left. -/
def swapTlvs : ℕ → Frame → ℕ → ℕ → ℕ → Frame
  | 0, buf, _, _, _ => buf
  | fuel + 1, buf, i, caplen, length =>
    if caplen < 4 then buf
    else
      let buf := swapField (swapField buf (i + 2) 2) i 2
      let tlvLength := (buf.hostU16 i).getD 0
      let size := (if tlvLength % 4 = 0 then tlvLength else tlvLength + (4 - tlvLength % 4)).toNat
      if size < 4 ∨ caplen < size ∨ length < size then buf
      else swapTlvs fuel buf (i + size) (caplen - size) (length - size)

/-- A header of another version than 0 is not known. -/
def swapNflogHeader (hdr : PcapPkthdr) (buf : Frame) : Frame :=
  if hdr.caplen < 4 ∨ hdr.len < 4 ∨ buf.u8 1 ≠ some 0 then buf
  else swapTlvs hdr.caplen.toNat buf 4 (hdr.caplen.toNat - 4) (hdr.len.toNat - 4)

def swapPseudoHeaders (linktype : ℤ) (hdr : PcapPkthdr) (data : Frame) : Frame :=
  if linktype = dltUsbLinux then swapLinuxUsbHeader hdr data false
  else if linktype = dltUsbLinuxMmapped then swapLinuxUsbHeader hdr data true
  else if linktype = dltNflog then swapNflogHeader hdr data
  else data

example : swapPseudoHeaders dltNflog ⟨0, 0, 12, 12⟩ [2, 0, 0, 0, 0, 6, 0, 1, 7, 7, 0, 0]
    = [2, 0, 0, 0, 6, 0, 1, 0, 7, 7, 0, 0] := by decide

/-! ## The packets -/

/-- Why there is no packet: the end of the file, or an error with its text. -/
inductive Stop where
  | eof
  | error (errbuf : List UInt8)
  deriving DecidableEq, Repr

namespace PcapT

/-- The fields of a packet's header, each of them swapped if need be. -/
def field (p : PcapT) (sfHdr : Frame) (i : ℕ) : UInt32 :=
  let v := (sfHdr.hostU32 i).getD 0
  if p.swapped then swapLong v else v

def scale (p : PcapT) (tvUsec : ℤ) : ℤ :=
  match p.scaleType with
  | .passThrough => tvUsec
  | .scaleUp => tvUsec * 1000
  | .scaleDown => tvUsec.tdiv 1000

/-- Whether `caplen` and `len` are interchanged. -/
def interchanged (p : PcapT) (caplen len : UInt32) : Bool :=
  match p.lengthsSwapped with
  | .notSwapped => false
  | .maybeSwapped => !(caplen ≤ len)
  | .swapped => true

def pkthdr (p : PcapT) (sfHdr : Frame) : PcapPkthdr :=
  let caplen := p.field sfHdr 8
  let len := p.field sfHdr 12
  let interchanged := p.interchanged caplen len
  { tvSec := toInt (p.field sfHdr 0)
    tvUsec := p.scale (toInt (p.field sfHdr 4))
    caplen := if interchanged then len else caplen
    len := if interchanged then caplen else len }

/-- What is given back of a packet with these bytes. -/
def packet (p : PcapT) (hdr : PcapPkthdr) (data : Frame) : PcapPkthdr × Frame :=
  (hdr, if p.swapped then swapPseudoHeaders p.linktype hdr data else data)

end PcapT

/-- `fread` of so many bytes, that are called so in the error. -/
def freadAll (size : ℕ) (what : String) (fp : Frame) : Except Stop (Frame × Frame) :=
  if (fp.take size).length = size then .ok (fp.take size, fp.drop size)
  else .error (.error (chars "truncated dump file; tried to read " ++ formatNat size ++ chars what
    ++ chars ", only got " ++ formatNat fp.length))

/-- Only so many bytes are kept as the buffer has. -/
def pcapNextPacket (p : PcapT) : Lib.Reader (PcapPkthdr × Frame) Stop UInt8 := fun fp =>
  if fp = [] then .error .eof
  else do
    let (sfHdr, fp) ← freadAll p.hdrsize " header bytes" fp
    let hdr := p.pkthdr sfHdr
    if p.bufsize < hdr.caplen.toNat then
      if maximumSnaplen < hdr.caplen.toNat then throw (.error (chars "bogus savefile header"))
      let (tp, fp) ← freadAll hdr.caplen.toNat " captured bytes" fp
      return (p.packet { hdr with caplen := p.bufsize.toUInt32 } (tp.take p.bufsize), fp)
    else
      let (buffer, fp) ← freadAll hdr.caplen.toNat " captured bytes" fp
      return (p.packet hdr buffer, fp)

/-- The packets that the loop of `send_packets` gets; `pcap_next` is null at the end and at an
error. -/
def nextPackets (p : PcapT) (fp : Frame) : List (PcapPkthdr × Frame) × Option Stop :=
  Lib.Reader.all (pcapNextPacket p) fp

end CMTestbed
