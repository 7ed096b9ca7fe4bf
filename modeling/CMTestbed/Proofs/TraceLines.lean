import CMTestbed.Mapping
import CMTestbed.Printf
import CMTestbed.Proofs.Splitting

/-!
# What a line of the trace is read as

`parse_one_line` counts its fields among the tokens, narrows the numbers to their fields before it
looks at the length, and takes what is no number for the digits that it starts with.
-/

namespace CMTestbed

/-- The line without the newline that ends it. -/
def chomp (line : List UInt8) : List UInt8 :=
  if line.getLast? = some 10 then line.dropLast else line

/-- The fields 2 to 7, counted by the commas. -/
def packetFields (line : List UInt8) : List (List UInt8) :=
  (((chomp line).splitOn 44).drop 1).take 6

/-- A decimal number below the bound. -/
structure IsNumber (field : List UInt8) (bound : ℕ) : Prop where
  ne_nil : field ≠ []
  digit : ∀ c ∈ field, isdigit c = true
  lt : digits field < bound

/-- What the fields of a packet have room for, and what the length may be. -/
def fieldBounds : List ℕ := [2 ^ 32, 2 ^ 32, 2 ^ 16, 2 ^ 16, 2 ^ 8, maxPayloadSize.toNat + 1]

/-- Fields 2 to 7 are there, and are numbers in range. -/
def WellFormed (line : List UInt8) : Prop := List.Forall₂ IsNumber (packetFields line) fieldBounds

def PacketS.numbers (packet : PacketS) : List ℕ :=
  [packet.srcip.toNat, packet.dstip.toNat, packet.srcPort.toNat, packet.dstPort.toNat,
    packet.protocol.toNat, packet.len.toNat]

/-- A line should be read as the numbers in it, or refused with -1. -/
structure ParsedOrRefused (line : TraceLine) : Prop where
  runs : parseOneLine line ≠ none
  accepted : ∀ packet, parseOneLine line = some (some packet) →
    WellFormed line.lineBuffer ∧ packet.numbers = (packetFields line.lineBuffer).map digits
  refused : ¬ WellFormed line.lineBuffer → parseOneLine line = some none

section Numbers
variable {field token : List UInt8} {bound : ℕ}

/-- The token of a number, which the newline may follow. -/
theorem IsNumber.exists_token (h : IsNumber field bound)
    (htoken : token = field ∨ token = field ++ [10]) :
    (∃ c s, token = c :: s ∧ isdigit c = true) ∧ digits token = digits field := by
  obtain ⟨c, s, rfl⟩ := List.exists_cons_of_ne_nil h.ne_nil
  have hc := h.digit c List.mem_cons_self
  rcases htoken with rfl | rfl
  · exact ⟨⟨c, s, rfl, hc⟩, rfl⟩
  · exact ⟨⟨c, s ++ [10], rfl, hc⟩, digits_append_newline _⟩

theorem IsNumber.strtol (h : IsNumber field bound) (hbound : bound ≤ 2 ^ 63) :
    CMTestbed.strtol field = digits field := by
  obtain ⟨⟨c, s, rfl, hc⟩, -⟩ := h.exists_token (.inl rfl)
  have hlt := h.lt
  rw [strtol_of_isdigit hc]
  omega

theorem IsNumber.strtoul (h : IsNumber field bound) (hbound : bound ≤ 2 ^ 64)
    (htoken : token = field ∨ token = field ++ [10]) :
    (CMTestbed.strtoul token).toNat = digits field := by
  obtain ⟨⟨c, s, rfl, hc⟩, hdigits⟩ := h.exists_token htoken
  have hlt := h.lt
  rw [strtoul_of_isdigit hc, hdigits, if_pos (by omega)]
  exact Nat.mod_eq_of_lt (by omega)

theorem IsNumber.toUInt32 (h : IsNumber field (2 ^ 32)) :
    (CMTestbed.strtoul field).toUInt32.toNat = digits field := by
  rw [UInt64.toNat_toUInt32, h.strtoul (by decide) (.inl rfl), Nat.mod_eq_of_lt h.lt]

theorem IsNumber.toUInt16 (h : IsNumber field (2 ^ 16)) :
    (UInt16.ofInt (CMTestbed.strtol field)).toNat = digits field := by
  have hlt := h.lt
  rw [h.strtol (by decide), UInt16.ofInt, UInt16.toNat_ofNat']
  omega

theorem IsNumber.toUInt8 (h : IsNumber field (2 ^ 8)) :
    (UInt8.ofInt (CMTestbed.strtol field)).toNat = digits field := by
  have hlt := h.lt
  rw [h.strtol (by decide), UInt8.ofInt, UInt8.toNat_ofNat']
  omega

end Numbers

section Fields
variable {line : List UInt8}

/-- The fields are the pieces, without the newline at the end of the last. -/
theorem exists_fields {init : List (List UInt8)} {last : List UInt8}
    (hsplit : line.splitOn 44 = init ++ [last]) :
    ∃ field, (chomp line).splitOn 44 = init ++ [field] ∧ (last = field ∨ last = field ++ [10]) := by
  rw [chomp]
  split_ifs with hnewline
  · obtain ⟨init', field, hfields, hconcat⟩ :=
      Lib.exists_splitOn_concat (show (10 : UInt8) ≠ 44 by decide) line.dropLast
    obtain ⟨rest, rfl⟩ := List.getLast?_eq_some_iff.1 hnewline
    rw [List.dropLast_concat, hsplit] at hconcat
    obtain ⟨rfl, hlast⟩ := List.append_inj' hconcat rfl
    exact ⟨field, hfields, .inr (List.cons.inj hlast).1⟩
  · exact ⟨last, hsplit, .inl rfl⟩

/-- The tokens that are read are the fields, and the last one may have the newline. -/
theorem exists_packetFields (hsep : Lib.Separated 44 line)
    (hlen : 7 ≤ (strtok line 44).length) :
    ∃ a b c d e f g field rest, strtok line 44 = a :: b :: c :: d :: e :: f :: g :: rest
      ∧ packetFields line = [b, c, d, e, f, field] ∧ (g = field ∨ g = field ++ [10]) := by
  obtain ⟨init, last, hsplit, hinit⟩ := hsep.exists_splitOn
  obtain ⟨field, hfields, hlast⟩ := exists_fields hsplit
  have htokens : strtok line 44 = _ := Lib.tokens_of_splitOn hsplit hinit
  rw [packetFields, hfields]
  rw [htokens] at hlen ⊢
  obtain _ | ⟨a, _ | ⟨b, _ | ⟨c, _ | ⟨d, _ | ⟨e, _ | ⟨f, _ | ⟨g, rest⟩⟩⟩⟩⟩⟩⟩ := init
  case cons.cons.cons.cons.cons.cons.cons =>
    exact ⟨a, b, c, d, e, f, g, g, _, rfl, rfl, .inl rfl⟩
  case cons.cons.cons.cons.cons.cons.nil =>
    split_ifs at hlen ⊢
    · simp at hlen
    · exact ⟨a, b, c, d, e, f, last, field, [], rfl, rfl, hlast⟩
  all_goals
    split_ifs at hlen <;> simp at hlen

end Fields

/-- The packet of a line in range, from the tokens that are read. -/
theorem numbers_of_fields {b c d e f g field : List UInt8} {packet : PacketS}
    (hwell : List.Forall₂ IsNumber [b, c, d, e, f, field] fieldBounds)
    (hg : g = field ∨ g = field ++ [10])
    (hpacket : packet = {
      srcip := (strtoul b).toUInt32
      dstip := (strtoul c).toUInt32
      srcPort := UInt16.ofInt (strtol d)
      dstPort := UInt16.ofInt (strtol e)
      protocol := UInt8.ofInt (strtol f)
      len := (strtoul g).toUInt16 }) :
    packet.numbers = [b, c, d, e, f, field].map digits := by
  simp only [fieldBounds, List.forall₂_cons] at hwell
  obtain ⟨hb, hc, hd, he, hf, hlen, -⟩ := hwell
  have hmax : maxPayloadSize.toNat = 4942 := rfl
  have hlt := hlen.lt
  have hlen_eq : (strtoul g).toUInt16.toNat = digits field := by
    rw [UInt64.toNat_toUInt16, hlen.strtoul (by omega) hg]
    exact Nat.mod_eq_of_lt (by omega)
  rw [hpacket, PacketS.numbers]
  dsimp only
  rw [hb.toUInt32, hc.toUInt32, hd.toUInt16, he.toUInt16, hf.toUInt8, hlen_eq]
  rfl

theorem packetOfTokens_of_lt {tokens : List (List UInt8)} (h : tokens.length < 7) :
    packetOfTokens tokens = none := by
  unfold packetOfTokens
  split
  · simp only [List.length_cons] at h
    omega
  · rfl

/-- A line of the trace is parsed faithfully or refused if and only if `str_split` does not abort
on it, and it has fewer than seven tokens, or a length that is still too large in 16 bits, or its
fields 2 to 7 are numbers in range. -/
theorem parsed_or_refused_iff (line : TraceLine) : ParsedOrRefused line ↔
    Lib.Separated 44 line.lineBuffer ∧ ((strtok line.lineBuffer 44).length < 7
      ∨ (∃ len, (strtok line.lineBuffer 44)[6]? = some len
        ∧ maxPayloadSize < (strtoul len).toUInt16)
      ∨ WellFormed line.lineBuffer) := by
  by_cases hsep : Lib.Separated 44 line.lineBuffer
  swap
  · refine iff_of_false (fun h => h.runs ?_) fun h => hsep h.1
    rw [parseOneLine, Option.map_eq_none_iff, Option.eq_none_iff_forall_ne_some]
    intro tokens htokens
    exact hsep (strSplit_eq_some_iff.1 htokens).1
  have hparse : parseOneLine line = some (packetOfTokens (strtok line.lineBuffer 44)) := by
    rw [parseOneLine, strSplit_eq_some_iff.2 ⟨hsep, rfl⟩, Option.map_some]
  have hruns : parseOneLine line ≠ none := by
    rw [hparse]
    exact Option.some_ne_none _
  rw [and_iff_right hsep]
  by_cases hlen : (strtok line.lineBuffer 44).length < 7
  · rw [packetOfTokens_of_lt hlen] at hparse
    refine iff_of_true ⟨hruns, fun packet hpacket => ?_, fun _ => hparse⟩ (.inl hlen)
    cases hparse.symm.trans hpacket
  obtain ⟨a, b, c, d, e, f, g, field, rest, htokens, hfields, hg⟩ :=
    exists_packetFields hsep (not_lt.1 hlen)
  rw [or_iff_right hlen, htokens]
  rw [htokens, packetOfTokens] at hparse
  dsimp only at hparse
  by_cases hlong : maxPayloadSize < (strtoul g).toUInt16
  · rw [if_pos hlong] at hparse
    refine iff_of_true ⟨hruns, fun packet hpacket => ?_, fun _ => hparse⟩ (.inl ⟨g, rfl, hlong⟩)
    cases hparse.symm.trans hpacket
  · rw [if_neg hlong] at hparse
    have hnot : ¬ ∃ len, (a :: b :: c :: d :: e :: f :: g :: rest)[6]? = some len
        ∧ maxPayloadSize < (strtoul len).toUInt16 := by
      rintro ⟨len, hlen, hlong'⟩
      cases hlen
      exact hlong hlong'
    rw [or_iff_right hnot]
    constructor
    · intro h
      exact (h.accepted _ hparse).1
    · intro hwell
      refine ⟨hruns, fun packet hpacket => ⟨hwell, ?_⟩, fun hill => absurd hwell hill⟩
      rw [hfields]
      rw [WellFormed, hfields] at hwell
      have heq := Option.some.inj (Option.some.inj (hparse.symm.trans hpacket))
      exact numbers_of_fields hwell hg heq.symm

/-- A line with the length 65636. -/
def longPacketLine : TraceLine := ⟨chars "1,167772161,184549378,80,443,6,65636\n", 0, 0⟩

/-- The length is taken for 100. -/
theorem long_packet_accepted :
    parseOneLine longPacketLine = some (some ⟨167772161, 184549378, 80, 443, 6, 100⟩)
      ∧ ¬ ParsedOrRefused longPacketLine := by
  have hparse : parseOneLine longPacketLine
      = some (some ⟨167772161, 184549378, 80, 443, 6, 100⟩) := by decide +kernel
  refine ⟨hparse, fun h => ?_⟩
  have hnumbers := (h.accepted _ hparse).2
  revert hnumbers
  decide +kernel

end CMTestbed
