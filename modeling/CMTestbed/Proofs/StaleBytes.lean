import CMTestbed.Lib.Partial
import CMTestbed.Proofs.Frames
import CMTestbed.Replay

/-!
# Bytes of earlier packets

Of the memory that a packet was copied to, the packet's own bytes are known, and those behind the
buffer; what is between can hold anything.  The known bytes decide that the packet is ignored
(`Ignored`), or what is recorded of it (`Recorded`), or else what was left in the buffer decides.
-/

namespace CMTestbed

open Lib (Fits)

/-! ## The walk -/

/-- The rest of the walk, from an Ethernet header at `l2Len`. -/
def walk (memory : Frame) (fuel l2Len : ℕ) : Option (Option (FlowS × UInt32)) :=
  (memory.u16 (l2Len + 12)).bind fun etherType =>
    (vlanLoop memory fuel l2Len etherType).bind fun inner =>
      if inner.2 = ethertypeIp then
        (memory.headersAt (inner.1 + ethHdrLen) (inner.1 + ethHdrLen + ipv4HdrLen)).map some
      else some none

theorem recordIn_of_short {memory : Frame} {totalPktLen : UInt32} {datalink : ℤ}
    (hlen : totalPktLen.toNat < ipv4HdrLen) : recordIn memory totalPktLen datalink = some none :=
  if_pos hlen

theorem recordIn_eq_walk {memory : Frame} {totalPktLen : UInt32} {datalink : ℤ}
    (hlen : ¬ totalPktLen.toNat < ipv4HdrLen) :
    recordIn memory totalPktLen datalink
      = ((l2Start memory datalink).bind (walk memory memory.length)).map
          (Option.map fun r => (r.1, r.2, totalPktLen.toUInt16)) := by
  rw [recordIn, if_neg hlen]
  rcases l2Start memory datalink with _ | l2Len
  · rfl
  simp only [Option.bind_eq_bind, Option.bind_some, walk]
  rcases memory.u16 (l2Len + 12) with _ | etherType
  · rfl
  simp only [Option.bind_some]
  rcases vlanLoop memory memory.length l2Len etherType with _ | inner
  · rfl
  simp only [Option.bind_some]
  split_ifs
  · cases memory.headersAt (inner.1 + ethHdrLen) (inner.1 + ethHdrLen + ipv4HdrLen) <;> rfl
  · rfl

theorem recordOf_eq (memory : Frame) (totalPktLen : UInt32) (datalink : ℤ) :
    recordOf memory totalPktLen datalink = (sentHeaders memory totalPktLen datalink).map
      fun r => (r.1, r.2, totalPktLen.toUInt16) := by
  rw [recordOf, sentHeaders]
  by_cases hlen : totalPktLen.toNat < ipv4HdrLen
  · rw [recordIn_of_short hlen, if_pos hlen]
    rfl
  rw [recordIn_eq_walk hlen, if_neg hlen]
  rcases l2Start memory datalink with _ | l2Len
  · rfl
  simp only [Option.bind_eq_bind, Option.bind_some, walk]
  rcases memory.u16 (l2Len + 12) with _ | etherType
  · rfl
  simp only [Option.bind_some]
  rcases vlanLoop memory memory.length l2Len etherType with _ | inner
  · rfl
  simp only [Option.bind_some]
  split_ifs
  · cases memory.headersAt (inner.1 + ethHdrLen) (inner.1 + ethHdrLen + ipv4HdrLen) <;> rfl
  · rfl

section Walk
variable {memory memory' : Frame} {fuel l2Len : ℕ}

theorem walk_zero : walk memory 0 l2Len = none := by
  simp [walk, vlanLoop]

theorem walk_succ {etherType : UInt16} (h : memory.u16 (l2Len + 12) = some etherType) :
    walk memory (fuel + 1) l2Len = if etherType = ethertypeVlan then
        walk memory fuel (l2Len + 4)
      else if etherType = ethertypeIp then
        (memory.headersAt (l2Len + 14) (l2Len + 34)).map some
      else some none := by
  rw [walk, h, Option.bind_some, vlanLoop]
  split_ifs with hvlan hip
  · rw [walk]
    simp only [Option.bind_eq_bind, Option.bind_assoc, Nat.add_assoc, Nat.reduceAdd]
  · simp [hip, ethHdrLen, ipv4HdrLen]
  · simp [hip]

/-- A walk does not see what is before the type from which it starts. -/
theorem walk_congr (h : ∀ i, l2Len + 12 ≤ i → memory[i]? = memory'[i]?) :
    walk memory fuel l2Len = walk memory' fuel l2Len := by
  induction fuel generalizing l2Len with
  | zero => rw [walk_zero, walk_zero]
  | succ fuel ih =>
    have htype : memory.u16 (l2Len + 12) = memory'.u16 (l2Len + 12) :=
      Frame.u16_congr fun k _ => h _ (by omega)
    rcases ht : memory.u16 (l2Len + 12) with _ | t
    · rw [walk, ht, walk, ← htype, ht, Option.bind_none, Option.bind_none]
    · rw [walk_succ ht, walk_succ (htype ▸ ht), ih fun i hi => h i (by omega),
        Frame.headersAt_congr fun i hi => h i (by rw [Frame.HeaderByte] at hi; omega)]

theorem Frame.u16_of_bytes {i : ℕ} {a b : UInt8} (ha : memory[i]? = some a)
    (hb : memory[i + 1]? = some b) :
    memory.u16 i = some (UInt16.ofNat (a.toNat * 256 + b.toNat)) := by
  have hread : Lib.readBE memory i 2 = some (a.toNat * 256 + b.toNat) := by
    simp [Lib.readBE, ha, hb]
  rw [Frame.u16, hread]
  rfl

theorem Frame.bytes_of_u16 {i : ℕ} {v : UInt16} (h : memory.u16 i = some v) :
    ∃ a b, memory[i]? = some a ∧ memory[i + 1]? = some b := by
  have hlen := le_length_of_u16 h
  exact ⟨_, _, List.getElem?_eq_getElem (by omega), List.getElem?_eq_getElem (by omega)⟩

theorem type_eq_iff {a b : UInt8} {t : UInt16} : UInt16.ofNat (a.toNat * 256 + b.toNat) = t
    ↔ a.toNat = t.toNat / 256 ∧ b.toNat = t.toNat % 256 := by
  have := a.toNat_lt
  have := b.toNat_lt
  rw [← UInt16.toNat_inj, UInt16.toNat_ofNat']
  omega

theorem type_eq_ip {a b : UInt8} :
    UInt16.ofNat (a.toNat * 256 + b.toNat) = ethertypeIp ↔ a = 0x08 ∧ b = 0 := by
  rw [type_eq_iff, ← UInt8.toNat_inj, ← UInt8.toNat_inj]
  rfl

theorem type_eq_vlan {a b : UInt8} :
    UInt16.ofNat (a.toNat * 256 + b.toNat) = ethertypeVlan ↔ a = 0x81 ∧ b = 0 := by
  rw [type_eq_iff, ← UInt8.toNat_inj, ← UInt8.toNat_inj]
  rfl

/-- The first two bytes tell how the walk goes on. -/
theorem walk_succ_of_bytes {a b : UInt8} (ha : memory[l2Len + 12]? = some a)
    (hb : memory[l2Len + 13]? = some b) :
    walk memory (fuel + 1) l2Len = if a = 0x81 ∧ b = 0 then walk memory fuel (l2Len + 4)
      else if a = 0x08 ∧ b = 0 then (memory.headersAt (l2Len + 14) (l2Len + 34)).map some
      else some none := by
  rw [walk_succ (Frame.u16_of_bytes ha hb)]
  simp only [type_eq_vlan, type_eq_ip]

/-- A walk that ends has read a type. -/
theorem walk_eq_some {r : Option (FlowS × UInt32)} (h : walk memory fuel l2Len = some r) :
    ∃ fuel' a b, fuel = fuel' + 1 ∧ memory[l2Len + 12]? = some a
      ∧ memory[l2Len + 13]? = some b := by
  obtain _ | fuel := fuel
  · rw [walk_zero] at h
    cases h
  · obtain ⟨v, hv, -⟩ := Option.bind_eq_some_iff.1 h
    obtain ⟨a, b, ha, hb⟩ := Frame.bytes_of_u16 hv
    exact ⟨fuel, a, b, rfl, ha, hb⟩

end Walk

/-! ## What the known bytes decide -/

/-- From an Ethernet type at `p` on, the known bytes lead to a type that is ignored.  One known byte
of a type can rule out both types that are not. -/
inductive Ignored (known : List (Option UInt8)) : ℕ → Prop
  | high {p : ℕ} {a : UInt8} {y : Option UInt8} (ha : known[p]? = some (some a))
      (hy : known[p + 1]? = some y) (hip : a ≠ 0x08) (hvlan : a ≠ 0x81) : Ignored known p
  | low {p : ℕ} {x : Option UInt8} {b : UInt8} (hx : known[p]? = some x)
      (hb : known[p + 1]? = some (some b)) (h : b ≠ 0) : Ignored known p
  | tag {p : ℕ} {y : Option UInt8} (ha : known[p]? = some (some 0x81))
      (hy : known[p + 1]? = some y) (h : Ignored known (p + 4)) : Ignored known p

/-- From an Ethernet type at `p` on, the known bytes lead to the type of IPv4, and what is read of
the headers is known. -/
inductive Recorded (known : List (Option UInt8)) : ℕ → Prop
  | headers {p : ℕ} (ha : known[p]? = some (some 0x08)) (hb : known[p + 1]? = some (some 0))
      (h : ∀ i, Frame.HeaderByte (p + 2) (p + 22) i → ∃ b, known[i]? = some (some b)) :
      Recorded known p
  | tag {p : ℕ} (ha : known[p]? = some (some 0x81)) (hb : known[p + 1]? = some (some 0))
      (h : Recorded known (p + 4)) : Recorded known p

section Decided
variable {known : List (Option UInt8)} {fuel l2Len : ℕ}

/-- A type that may be known is within the fuel. -/
theorem fuel_pos {p : ℕ} {x : Option UInt8} (hx : known[p]? = some x) (hp : p = l2Len + 12)
    (hfuel : known.length ≤ fuel + l2Len) : ∃ fuel', fuel = fuel' + 1 := by
  have hlt := (List.getElem?_eq_some_iff.1 hx).1
  exact ⟨fuel - 1, by omega⟩

theorem walk_of_ignored {p : ℕ} (h : Ignored known p) (hp : p = l2Len + 12)
    (hfuel : known.length ≤ fuel + l2Len) {memory : Frame} (hfits : Fits known memory) :
    walk memory fuel l2Len = some none := by
  induction h generalizing fuel l2Len with
  | high ha hy hip hvlan =>
    obtain ⟨fuel, rfl⟩ := fuel_pos ha hp hfuel
    subst hp
    obtain ⟨b, hb⟩ := hfits.get_of_known hy
    rw [walk_succ_of_bytes (hfits.get ha) hb, if_neg fun h => hvlan h.1, if_neg fun h => hip h.1]
  | low hx hb h =>
    obtain ⟨fuel, rfl⟩ := fuel_pos hx hp hfuel
    subst hp
    obtain ⟨a, ha⟩ := hfits.get_of_known hx
    rw [walk_succ_of_bytes ha (hfits.get hb), if_neg fun h' => h h'.2, if_neg fun h' => h h'.2]
  | tag ha hy h ih =>
    obtain ⟨fuel, rfl⟩ := fuel_pos ha hp hfuel
    subst hp
    obtain ⟨b, hb⟩ := hfits.get_of_known hy
    rw [walk_succ_of_bytes (hfits.get ha) hb, ih (by omega) (by omega),
      if_neg fun h : 0x81 = 0x08 ∧ b = 0 => absurd h.1 (by decide), ite_self]

theorem walk_of_recorded {p : ℕ} (h : Recorded known p) (hp : p = l2Len + 12)
    (hfuel : known.length ≤ fuel + l2Len) : ∃ r, ∀ memory, Fits known memory →
      walk memory fuel l2Len = some (some r) := by
  induction h generalizing fuel l2Len with
  | headers ha hb h =>
    obtain ⟨fuel, rfl⟩ := fuel_pos ha hp hfuel
    subst hp
    have hlast : l2Len + 41 < known.length := by
      obtain ⟨b, hlast⟩ := h (l2Len + 41) (.inr (.inr (by omega)))
      exact (List.getElem?_eq_some_iff.1 hlast).1
    obtain ⟨memory₀, hfits₀⟩ := Lib.exists_fits known
    have hlen₀ := hfits₀.length
    obtain ⟨r, hr⟩ : ∃ r, Frame.headersAt memory₀ (l2Len + 14) (l2Len + 34) = some r :=
      Frame.exists_headersAt (by omega) (by omega)
    refine ⟨r, fun memory hfits => ?_⟩
    have hread : Frame.headersAt memory (l2Len + 14) (l2Len + 34) = some r := by
      rw [← hr]
      refine Frame.headersAt_congr fun i hi => ?_
      obtain ⟨b, hb⟩ := h i hi
      rw [hfits.get hb, hfits₀.get hb]
    rw [walk_succ_of_bytes (hfits.get ha) (hfits.get hb), if_neg (by decide), if_pos (by decide),
      hread]
    rfl
  | tag ha hb h ih =>
    obtain ⟨fuel, rfl⟩ := fuel_pos ha hp hfuel
    subst hp
    obtain ⟨r, hr⟩ := ih (show l2Len + 12 + 4 = l2Len + 4 + 12 by omega)
      (show known.length ≤ fuel + (l2Len + 4) by omega)
    refine ⟨r, fun memory hfits => ?_⟩
    rw [walk_succ_of_bytes (hfits.get ha) (hfits.get hb), if_pos (by decide), hr memory hfits]

/-- What is known of the two bytes of a type that each memory leads the walk to. -/
theorem known_of_walk {f : Frame → Option (FlowS × UInt32)}
    (h : ∀ memory, Fits known memory → walk memory fuel l2Len = some (f memory)) :
    ∃ fuel' x y, fuel = fuel' + 1 ∧ known[l2Len + 12]? = some x ∧ known[l2Len + 13]? = some y := by
  obtain ⟨memory, hfits⟩ := Lib.exists_fits known
  obtain ⟨fuel', a, b, hfuel, ha, hb⟩ := walk_eq_some (h memory hfits)
  obtain ⟨x, hx⟩ := hfits.known_of_get ha
  obtain ⟨y, hy⟩ := hfits.known_of_get hb
  exact ⟨fuel', x, y, hfuel, hx, hy⟩

/-- A memory with these bytes as its type, where what is known allows them. -/
theorem exists_fits_type {x y : Option UInt8} (hx : known[l2Len + 12]? = some x)
    (hy : known[l2Len + 13]? = some y) {a b : UInt8} (ha : ∀ a', x = some a' → a' = a)
    (hb : ∀ b', y = some b' → b' = b) {memory : Frame} (hfits : Fits known memory) :
    ∃ memory', Fits known memory' ∧ memory'[l2Len + 12]? = some a
      ∧ memory'[l2Len + 13]? = some b ∧ ∀ i, l2Len + 14 ≤ i → memory'[i]? = memory[i]? := by
  have hfits' := hfits.set hx ha
  refine ⟨(memory.set (l2Len + 12) a).set (l2Len + 13) b, hfits'.set hy hb, ?_, ?_, fun i hi => ?_⟩
  · rw [List.getElem?_set_ne (by omega), Lib.getElem?_set_self_of_known hfits hx]
  · exact Lib.getElem?_set_self_of_known hfits' hy b
  · rw [List.getElem?_set_ne (by omega), List.getElem?_set_ne (by omega)]

theorem ignored_of_walk (h : ∀ memory, Fits known memory → walk memory fuel l2Len = some none) :
    Ignored known (l2Len + 12) := by
  induction fuel generalizing l2Len with
  | zero =>
    obtain ⟨fuel', -, -, hfuel, -, -⟩ := known_of_walk h
    cases hfuel
  | succ fuel ih =>
    obtain ⟨-, x, y, -, hx, hy⟩ := known_of_walk h
    by_cases hlow : ∃ b, y = some b ∧ b ≠ 0
    · obtain ⟨b, rfl, hb⟩ := hlow
      exact .low hx hy hb
    have hzero : ∀ b', y = some b' → b' = 0 := by simpa using hlow
    by_cases hvlan : x = some 0x81
    · -- with the type of a VLAN tag the walk goes on
      subst hvlan
      refine .tag hx hy (ih fun memory hfits => ?_)
      obtain ⟨memory', hfits', ha, hb, hrest⟩ :=
        exists_fits_type hx hy (fun _ h => (Option.some_inj.1 h).symm) hzero hfits
      have hwalk := h memory' hfits'
      rw [walk_succ_of_bytes ha hb, if_pos ⟨rfl, rfl⟩] at hwalk
      rw [← hwalk]
      exact walk_congr fun i hi => (hrest i (by omega)).symm
    by_cases hip : ∀ a', x = some a' → a' = 0x08
    · -- with the type of IPv4 there is a record, or a read that leaves the memory
      obtain ⟨memory, hfits⟩ := Lib.exists_fits known
      obtain ⟨memory', hfits', ha, hb, -⟩ := exists_fits_type hx hy hip hzero hfits
      have hwalk := h memory' hfits'
      rw [walk_succ_of_bytes ha hb, if_neg (by decide), if_pos ⟨rfl, rfl⟩] at hwalk
      obtain ⟨r, -, hr⟩ := Option.map_eq_some_iff.1 hwalk
      cases hr
    · obtain ⟨a, rfl, ha⟩ : ∃ a, x = some a ∧ a ≠ 0x08 := by simpa using hip
      exact .high hx hy ha fun h => hvlan (h ▸ rfl)

theorem recorded_of_walk {r : FlowS × UInt32}
    (h : ∀ memory, Fits known memory → walk memory fuel l2Len = some (some r)) :
    Recorded known (l2Len + 12) := by
  induction fuel generalizing l2Len with
  | zero =>
    obtain ⟨fuel', -, -, hfuel, -, -⟩ := known_of_walk h
    cases hfuel
  | succ fuel ih =>
    obtain ⟨-, x, y, -, hx, hy⟩ := known_of_walk h
    obtain ⟨memory₀, hfits₀⟩ := Lib.exists_fits known
    -- with a 1 in the type the packet would be ignored
    have hone : ∀ {a b : UInt8}, (∀ a', x = some a' → a' = a) → (∀ b', y = some b' → b' = b) →
        a ≠ 1 ∧ b ≠ 1 := by
      intro a b ha hb
      obtain ⟨memory, hfits, hgeta, hgetb, -⟩ := exists_fits_type hx hy ha hb hfits₀
      have hwalk := h memory hfits
      rw [walk_succ_of_bytes hgeta hgetb] at hwalk
      constructor
      · rintro rfl
        rw [if_neg (by simp), if_neg (by simp)] at hwalk
        cases hwalk
      · rintro rfl
        rw [if_neg (by simp), if_neg (by simp)] at hwalk
        cases hwalk
    obtain ⟨a₀, ha₀⟩ := hfits₀.get_of_known hx
    obtain ⟨b₀, hb₀⟩ := hfits₀.get_of_known hy
    obtain rfl : x = some a₀ := by
      cases x with
      | none => exact absurd rfl (hone (a := 1) (by simp) fun _ hb' => by
          rw [hb'] at hy
          exact Option.some_inj.1 ((hfits₀.get hy).symm.trans hb₀)).1
      | some a => rw [← ha₀, hfits₀.get hx]
    obtain rfl : y = some b₀ := by
      cases y with
      | none => exact absurd rfl (hone (b := 1) (fun _ ha' => (Option.some_inj.1 ha').symm)
          (by simp)).2
      | some b => rw [← hb₀, hfits₀.get hy]
    have hwalk := fun memory (hfits : Fits known memory) =>
      (walk_succ_of_bytes (hfits.get hx) (hfits.get hy)).symm.trans (h memory hfits)
    split_ifs at hwalk with hvlan hip
    · obtain ⟨rfl, rfl⟩ := hvlan
      exact .tag hx hy (ih hwalk)
    · obtain ⟨rfl, rfl⟩ := hip
      have hread : ∀ memory, Fits known memory →
          Frame.headersAt memory (l2Len + 14) (l2Len + 34) = some r := fun memory hfits => by
        obtain ⟨r', hr', he⟩ := Option.map_eq_some_iff.1 (hwalk memory hfits)
        rw [hr', he]
      refine .headers hx hy fun i hi => ?_
      obtain ⟨hip, htcp⟩ := Frame.lt_length_of_headersAt (hread memory₀ hfits₀)
      have hlt : i < memory₀.length := by
        rw [Frame.HeaderByte] at hi
        omega
      obtain ⟨z, hz⟩ := hfits₀.known_of_get (List.getElem?_eq_getElem hlt)
      obtain _ | c := z
      · -- another byte there would make another record
        have hother := hfits₀.set hz (a := memory₀[i] + 1) (by simp)
        have hbyte := Frame.eq_of_headersAt (hread memory₀ hfits₀) (hread _ hother) i hi
        rw [Lib.getElem?_set_self_of_known hfits₀ hz, List.getElem?_eq_getElem hlt,
          Option.some_inj] at hbyte
        simp at hbyte
      · exact ⟨c, hz⟩
    · cases hwalk memory₀ hfits₀

/-- The known bytes decide on the packet. -/
def Decides (known : List (Option UInt8)) (p : ℕ) : Prop := Ignored known p ∨ Recorded known p

theorem decides_iff (hfuel : known.length ≤ fuel + l2Len) :
    (∃ r, ∀ memory, Fits known memory → walk memory fuel l2Len = some r)
      ↔ Decides known (l2Len + 12) := by
  constructor
  · rintro ⟨_ | r, h⟩
    · exact .inl (ignored_of_walk h)
    · exact .inr (recorded_of_walk h)
  · rintro (h | h)
    · exact ⟨none, fun memory hfits => walk_of_ignored h rfl hfuel hfits⟩
    · obtain ⟨r, hr⟩ := walk_of_recorded h rfl hfuel
      exact ⟨some r, hr⟩

/-- A type of which nothing is known can be any. -/
theorem not_decides {p : ℕ} (hx : known[p]? = some none) (hy : known[p + 1]? = some none) :
    ¬ Decides known p := by
  rintro (h | h)
  · cases h with
    | high ha _ _ _ | tag ha _ _ =>
      rw [hx] at ha
      cases ha
    | low _ hb _ =>
      rw [hy] at hb
      cases hb
  · cases h with
    | headers ha _ _ | tag ha _ _ =>
      rw [hx] at ha
      cases ha

/-- No packet is recorded from two neighbouring places. -/
theorem not_recorded_succ {p q : ℕ} (h : Recorded known p) (hq : q = p + 1) :
    ¬ Recorded known q := by
  subst hq
  have hzero : known[p + 1]? = some (some 0) := by
    cases h with
    | headers _ hb _ => exact hb
    | tag _ hb _ => exact hb
  intro h'
  cases h' with
  | headers ha _ _ =>
    rw [hzero] at ha
    cases ha
  | tag ha _ _ =>
    rw [hzero] at ha
    cases ha

end Decided

/-! ## The start of the walk -/

/-- There is a Juniper header with an extension. -/
def Extended (known : List (Option UInt8)) (datalink : ℤ) : Prop :=
  datalink = dltJuniperEther ∧ ∃ flags, known[3]? = some (some flags) ∧ flags &&& 0x80 = 0x80

/-- Where the Ethernet header is if there is no extension before it. -/
def plainStart (datalink : ℤ) : ℕ := if datalink = dltJuniperEther then 4 else 0

/-- The known bytes decide on the packet from its start.  If the low byte of the extension's length
is not known, then the packet has to be ignored from each of the places that it can lead to. -/
inductive Judged (known : List (Option UInt8)) (datalink : ℤ) : Prop
  | plain (hext : ¬ Extended known datalink) (h : Decides known (plainStart datalink + 12))
  | extension {a b : UInt8} (hext : Extended known datalink) (ha : known[4]? = some (some a))
      (hb : known[5]? = some (some b)) (h : Decides known (a.toNat * 256 + b.toNat + 6 + 12))
  | anyLength {a : UInt8} (hext : Extended known datalink) (ha : known[4]? = some (some a))
      (hb : known[5]? = some none)
      (h : ∀ b : UInt8, Ignored known (a.toNat * 256 + b.toNat + 6 + 12))

section Start
variable {known : List (Option UInt8)} {memory : Frame} {datalink : ℤ}

theorem l2Start_of_not_extended (hflags : ∃ flags, known[3]? = some (some flags))
    (hext : ¬ Extended known datalink) (hfits : Fits known memory) :
    l2Start memory datalink = some (plainStart datalink) := by
  unfold l2Start plainStart
  by_cases hj : datalink = dltJuniperEther
  · obtain ⟨flags, hflags⟩ := hflags
    have hread : Frame.u8 memory 3 = some flags := hfits.get hflags
    have hbit : ¬ flags &&& 0x80 = 0x80 := fun hb => hext ⟨hj, flags, hflags, hb⟩
    simp [hj, hread, hbit]
  · simp [hj]

theorem l2Start_of_extended (hext : Extended known datalink) (hfits : Fits known memory) :
    l2Start memory datalink = (memory.u16 4).map fun l2Len => l2Len.toNat + 6 := by
  obtain ⟨hj, flags, hflags, hbit⟩ := hext
  have hread : Frame.u8 memory 3 = some flags := hfits.get hflags
  simp only [l2Start, hj, if_true, hread, Option.bind_eq_bind, Option.bind_some, hbit]
  exact Option.map_eq_bind.symm

theorem l2Start_of_bytes (hext : Extended known datalink) (hfits : Fits known memory) {a b : UInt8}
    (ha : memory[4]? = some a) (hb : memory[5]? = some b) :
    l2Start memory datalink = some (a.toNat * 256 + b.toNat + 6) := by
  have hvalue : (UInt16.ofNat (a.toNat * 256 + b.toNat)).toNat = a.toNat * 256 + b.toNat := by
    have := a.toNat_lt
    have := b.toNat_lt
    rw [UInt16.toNat_ofNat']
    omega
  rw [l2Start_of_extended hext hfits, Frame.u16_of_bytes ha hb, Option.map_some, hvalue]

/-- The walk with the length of the extension that memories with these two bytes have. -/
theorem walk_of_start {r : Option (FlowS × UInt32)} (hext : Extended known datalink)
    (h : ∀ memory, Fits known memory →
      (l2Start memory datalink).bind (walk memory memory.length) = some r)
    {x y : Option UInt8} (hx : known[4]? = some x) (hy : known[5]? = some y) {a b : UInt8}
    (ha : ∀ a', x = some a' → a' = a) (hb : ∀ b', y = some b' → b' = b)
    (hfits : Fits known memory) :
    walk memory known.length (a.toNat * 256 + b.toNat + 6) = some r := by
  have hfits₁ := hfits.set hx ha
  have hfits₂ := hfits₁.set hy hb
  have hwalk := h _ hfits₂
  rw [l2Start_of_bytes hext hfits₂ (a := a) (b := b), Option.bind_some, hfits₂.length] at hwalk
  · rw [← hwalk]
    refine walk_congr fun i hi => ?_
    rw [List.getElem?_set_ne (by omega), List.getElem?_set_ne (by omega)]
  · rw [List.getElem?_set_ne (by omega), Lib.getElem?_set_self_of_known hfits hx]
  · exact Lib.getElem?_set_self_of_known hfits₁ hy b

theorem judged_iff (hflags : ∃ flags, known[3]? = some (some flags))
    (hstale : known[4]? = some none → ∀ i ∈ [5, 18, 19], known[i]? = some none) :
    (∃ r, ∀ memory, Fits known memory →
        (l2Start memory datalink).bind (walk memory memory.length) = some r)
      ↔ Judged known datalink := by
  by_cases hext : Extended known datalink
  swap
  · have hwalk : ∀ memory, Fits known memory →
        (l2Start memory datalink).bind (walk memory memory.length)
          = walk memory known.length (plainStart datalink) := fun memory hfits => by
      rw [l2Start_of_not_extended hflags hext hfits, Option.bind_some, hfits.length]
    have hdecides :=
      decides_iff (show known.length ≤ known.length + plainStart datalink from Nat.le_add_right _ _)
    constructor
    · rintro ⟨r, h⟩
      exact .plain hext (hdecides.1 ⟨r, fun memory hfits => (hwalk memory hfits).symm.trans
        (h memory hfits)⟩)
    · rintro (⟨-, h⟩ | ⟨hext', -, -, -⟩ | ⟨hext', -, -, -⟩)
      · obtain ⟨r, hr⟩ := hdecides.2 h
        exact ⟨r, fun memory hfits => (hwalk memory hfits).trans (hr memory hfits)⟩
      · exact absurd hext' hext
      · exact absurd hext' hext
  constructor
  · rintro ⟨r, h⟩
    obtain ⟨memory₀, hfits₀⟩ := Lib.exists_fits known
    obtain ⟨l2Len, hl2Len, -⟩ := Option.bind_eq_some_iff.1 (h memory₀ hfits₀)
    rw [l2Start_of_extended hext hfits₀] at hl2Len
    obtain ⟨v, hv, -⟩ := Option.map_eq_some_iff.1 hl2Len
    obtain ⟨a₀, b₀, ha₀, hb₀⟩ := Frame.bytes_of_u16 hv
    obtain ⟨x, hx⟩ := hfits₀.known_of_get ha₀
    obtain ⟨y, hy⟩ := hfits₀.known_of_get hb₀
    have hwalk := fun {a b : UInt8} (ha : ∀ a', x = some a' → a' = a)
      (hb : ∀ b', y = some b' → b' = b) memory (hfits : Fits known memory) =>
        walk_of_start hext h hx hy ha hb hfits
    cases x with
    | none =>
      -- behind the shortest extension nothing is known of the type
      obtain rfl : y = none := by simpa [hy] using hstale hx 5
      have hwalk₀ := hwalk (a := 0) (b := 0) (by simp) (by simp)
      exact absurd ((decides_iff (by omega)).1 ⟨r, hwalk₀⟩)
        (not_decides (hstale hx 18 (by simp)) (hstale hx 19 (by simp)))
    | some a =>
      have ha : ∀ a', some a = some a' → a' = a := fun a' h => (Option.some_inj.1 h).symm
      cases y with
      | some b =>
        have hb : ∀ b', some b = some b' → b' = b := fun b' h => (Option.some_inj.1 h).symm
        exact .extension hext hx hy ((decides_iff (by omega)).1 ⟨r, hwalk ha hb⟩)
      | none =>
        refine .anyLength hext hx hy fun b => ?_
        have hall := fun b : UInt8 => hwalk ha (b := b) (by simp)
        cases r with
        | none => exact ignored_of_walk (hall b)
        | some r =>
          have hzero : (0 : UInt8).toNat = 0 := rfl
          have hone : (1 : UInt8).toNat = 1 := rfl
          exact absurd (recorded_of_walk (hall 1))
            (not_recorded_succ (recorded_of_walk (hall 0)) (by omega))
  · rintro (⟨hext', -⟩ | ⟨-, ha, hb, h⟩ | ⟨-, ha, hb, h⟩)
    · exact absurd hext hext'
    · obtain ⟨r, hr⟩ := (decides_iff (Nat.le_add_right known.length _)).2 h
      refine ⟨r, fun memory hfits => ?_⟩
      rw [l2Start_of_bytes hext hfits (hfits.get ha) (hfits.get hb), Option.bind_some,
        hfits.length, hr memory hfits]
    · refine ⟨none, fun memory hfits => ?_⟩
      obtain ⟨b, hgetb⟩ := hfits.get_of_known hb
      rw [l2Start_of_bytes hext hfits (hfits.get ha) hgetb, Option.bind_some, hfits.length,
        walk_of_ignored (h b) rfl (Nat.le_add_right _ _) hfits]

end Start

/-! ## The packet in the buffer -/

theorem getElem?_copyPacket (memory : Frame) (p : CapturedPacket) (i : ℕ) :
    (copyPacket memory p)[i]?
      = if i < p.ownBytes.length then p.ownBytes[i]? else memory[i]? := by
  rw [copyPacket, List.getElem?_append]
  split_ifs with h
  · rfl
  · rw [List.getElem?_drop, Nat.add_sub_cancel' (by omega)]

/-- A place within the packet's own bytes does not show what the buffer held. -/
theorem getElem?_own {memory : Frame} {p : CapturedPacket} {i : ℕ} (h : i < p.ownBytes.length) :
    (copyPacket memory p)[i]? = p.ownBytes[i]? := by
  rw [getElem?_copyPacket, if_pos h]

/-- What is known of the memory: the packet's own bytes, and what is behind the buffer. -/
def knownBytes (p : CapturedPacket) (behind : Frame) : List (Option UInt8) :=
  p.ownBytes.map some
    ++ (List.replicate pktTemporaryBufferSize none ++ behind.map some).drop p.ownBytes.length

section Buffer
variable {p : CapturedPacket} {buffer behind memory : Frame}

theorem getElem?_knownBytes (i : ℕ) : (knownBytes p behind)[i]?
    = if i < p.ownBytes.length then p.ownBytes[i]?.map some
      else if i < pktTemporaryBufferSize then some none
      else behind[i - pktTemporaryBufferSize]?.map some := by
  rw [knownBytes, List.getElem?_append, List.length_map]
  split_ifs with hown hbuffer
  · rw [List.getElem?_map]
  · rw [List.getElem?_drop, Nat.add_sub_cancel' (by omega), List.getElem?_append_left
      (by rwa [List.length_replicate]), List.getElem?_replicate, if_pos hbuffer]
  · rw [List.getElem?_drop, Nat.add_sub_cancel' (by omega), List.getElem?_append_right
      (by rw [List.length_replicate]; omega), List.length_replicate, List.getElem?_map]

theorem length_knownBytes (hroom : p.ownBytes.length ≤ pktTemporaryBufferSize + behind.length) :
    (knownBytes p behind).length = pktTemporaryBufferSize + behind.length := by
  simp only [knownBytes, List.length_append, List.length_map, List.length_drop,
    List.length_replicate]
  omega

/-- The memories that fit are those after the packet was copied into some buffer. -/
theorem fits_knownBytes_iff (hroom : p.ownBytes.length ≤ pktTemporaryBufferSize + behind.length) :
    Fits (knownBytes p behind) memory ↔ ∃ buffer : Frame, buffer.length = pktTemporaryBufferSize
      ∧ memory = copyPacket (buffer ++ behind) p := by
  constructor
  · intro hfits
    have hlength := hfits.length.trans (length_knownBytes hroom)
    have hbuffer : (memory.take pktTemporaryBufferSize).length = pktTemporaryBufferSize := by
      rw [List.length_take]
      omega
    refine ⟨memory.take pktTemporaryBufferSize, hbuffer, List.ext_getElem? fun i => ?_⟩
    rw [getElem?_copyPacket, List.getElem?_append, hbuffer]
    have hknown : (knownBytes p behind)[i]? = _ := getElem?_knownBytes i
    split_ifs at hknown ⊢ with hown hin
    · rw [List.getElem?_eq_getElem hown] at hknown ⊢
      exact hfits.get hknown
    · rw [List.getElem?_take_of_lt hin]
    · cases hb : behind[i - pktTemporaryBufferSize]? with
      | some b =>
        rw [hb] at hknown
        exact hfits.get hknown
      | none =>
        rw [List.getElem?_eq_none_iff] at hb ⊢
        omega
  · rintro ⟨buffer, hbuffer, rfl⟩
    refine ⟨?_, fun {i a} hi => ?_⟩
    · rw [length_knownBytes hroom, copyPacket]
      simp only [List.length_append, List.length_drop, hbuffer]
      omega
    · rw [getElem?_knownBytes] at hi
      rw [getElem?_copyPacket]
      split_ifs at hi ⊢ with hown hin
      · obtain ⟨b, hb, he⟩ := Option.map_eq_some_iff.1 hi
        cases he
        exact hb
      · cases hi
      · obtain ⟨b, hb, he⟩ := Option.map_eq_some_iff.1 hi
        cases he
        rw [List.getElem?_append_right (by omega), hbuffer]
        exact hb

theorem four_le_length_ownBytes (p : CapturedPacket) : 4 ≤ p.ownBytes.length := by
  rw [CapturedPacket.ownBytes, List.length_append]
  exact Nat.le_add_left 4 _

/-- What two runs make of a packet in the same way is what all of them make of it. -/
theorem two_runs_iff {α : Type} {f : Frame → Option α} {n : ℕ} :
    (∀ buffer buffer' : Frame, buffer.length = n → buffer'.length = n →
        ∃ r, f buffer = some r ∧ f buffer' = some r)
      ↔ ∃ r, ∀ buffer : Frame, buffer.length = n → f buffer = some r := by
  constructor
  · intro h
    have hzeros : (List.replicate n 0 : Frame).length = n := List.length_replicate
    obtain ⟨r, hr, -⟩ := h _ _ hzeros hzeros
    refine ⟨r, fun buffer hbuffer => ?_⟩
    obtain ⟨r', hr', hr''⟩ := h _ buffer hzeros hbuffer
    rw [hr''.trans (hr'.symm.trans hr)]
  · rintro ⟨r, h⟩ buffer buffer' hbuffer hbuffer'
    exact ⟨r, h buffer hbuffer, h buffer' hbuffer'⟩

end Buffer

/-- A packet is recorded alike, or ignored, whatever the buffer held, exactly if it fits in the
memory, and it is too short by its length or the known bytes decide on it. -/
theorem judged_by_own_bytes (p : CapturedPacket) (datalink : ℤ) (behind : Frame) :
    (∀ buffer buffer' : Frame, buffer.length = pktTemporaryBufferSize →
        buffer'.length = pktTemporaryBufferSize →
        ∃ r, replayed buffer behind p datalink = some r
          ∧ replayed buffer' behind p datalink = some r)
      ↔ p.ownBytes.length ≤ pktTemporaryBufferSize + behind.length
        ∧ (p.len.toNat < ipv4HdrLen ∨ Judged (knownBytes p behind) datalink) := by
  rw [two_runs_iff (f := fun buffer => replayed buffer behind p datalink)]
  by_cases hroom : p.ownBytes.length ≤ pktTemporaryBufferSize + behind.length
  swap
  · refine iff_of_false (fun ⟨r, h⟩ => ?_) fun h => hroom h.1
    have hnone := h (List.replicate pktTemporaryBufferSize 0) List.length_replicate
    rw [replayed, if_neg (by rwa [List.length_append, List.length_replicate])] at hnone
    cases hnone
  have hreplayed : ∀ r, (∀ buffer : Frame, buffer.length = pktTemporaryBufferSize →
        replayed buffer behind p datalink = some r)
      ↔ ∀ memory, Fits (knownBytes p behind) memory →
        recordIn memory p.len datalink = some r := by
    intro r
    simp only [fits_knownBytes_iff hroom, forall_exists_index, and_imp]
    constructor
    · rintro h memory buffer hbuffer rfl
      rw [← h buffer hbuffer, replayed, if_pos (by rwa [List.length_append, hbuffer])]
    · intro h buffer hbuffer
      rw [replayed, if_pos (by rwa [List.length_append, hbuffer])]
      exact h _ buffer hbuffer rfl
  simp only [hreplayed, hroom, true_and]
  by_cases hlen : p.len.toNat < ipv4HdrLen
  · exact iff_of_true ⟨none, fun _ _ => recordIn_of_short hlen⟩ (.inl hlen)
  have hfour := four_le_length_ownBytes p
  have hown : ∀ i < 4, ∃ a, (knownBytes p behind)[i]? = some (some a) := fun i hi =>
    ⟨p.ownBytes[i], by rw [getElem?_knownBytes, if_pos (by omega),
      List.getElem?_eq_getElem (by omega), Option.map_some]⟩
  have hstale : (knownBytes p behind)[4]? = some none →
      ∀ i ∈ [5, 18, 19], (knownBytes p behind)[i]? = some none := by
    intro h4 i hi
    have hsize : pktTemporaryBufferSize = 15000 := rfl
    have hend : ¬ 4 < p.ownBytes.length := by
      intro hlt
      rw [getElem?_knownBytes, if_pos hlt, List.getElem?_eq_getElem hlt] at h4
      cases h4
    have hi' : i = 5 ∨ i = 18 ∨ i = 19 := by simpa using hi
    rw [getElem?_knownBytes, if_neg (by omega), if_pos (by omega)]
  have hinj : Function.Injective (Option.map fun r : FlowS × UInt32 =>
      (r.1, r.2, p.len.toUInt16)) := by
    refine Option.map_injective fun r r' he => ?_
    simp only [Prod.mk.injEq, and_true] at he
    exact Prod.ext he.1 he.2
  rw [← judged_iff (hown 3 (by omega)) hstale]
  simp only [hlen, false_or, recordIn_eq_walk hlen, Option.map_eq_some_iff]
  constructor
  · rintro ⟨r, h⟩
    obtain ⟨memory₀, hfits₀⟩ := Lib.exists_fits (knownBytes p behind)
    obtain ⟨a₀, -, rfl⟩ := h memory₀ hfits₀
    refine ⟨a₀, fun memory hfits => ?_⟩
    obtain ⟨a, ha, he⟩ := h memory hfits
    rw [ha, hinj he]
  · rintro ⟨r, h⟩
    exact ⟨_, fun memory hfits => ⟨r, h memory hfits, rfl⟩⟩

/-- A packet captured without its IPv4 header is recorded as another packet of the flow that came
before it. -/
theorem recorded_as_earlier_packet : ∃ buffer buffer' : Frame,
    buffer.length = pktTemporaryBufferSize ∧ buffer'.length = pktTemporaryBufferSize
      ∧ replayed buffer [] examplePacket dltEn10mb
        = some (some (⟨0x0a000001, 0x0b000002, 80, 8080, 6⟩, 7, 60))
      ∧ replayed buffer' [] examplePacket dltEn10mb = some (some (⟨0, 0, 0, 0, 0⟩, 0, 60)) := by
  refine ⟨copyPacket (List.replicate pktTemporaryBufferSize 0) ⟨exampleFrame [], 54⟩,
    List.replicate pktTemporaryBufferSize 0, ?_, List.length_replicate, ?_⟩
  · decide +kernel
  · decide +kernel

end CMTestbed
