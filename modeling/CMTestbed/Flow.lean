import CMTestbed.Lib.Table

/-!
# Flows and their places in the tables

`FlowSrc` is the `<srcip, dstip>` flow of the per-interval tables, `FlowS` the 5-tuple of the
ledger of sent packets.  A 5-tuple is compared and hashed by everything but its protocol.
-/

namespace CMTestbed

/-- `HASH_MAP_SIZE` -/
def hashMapSize : UInt32 := 65535

structure FlowS where
  srcip : UInt32
  dstip : UInt32
  srcPort : UInt16
  dstPort : UInt16
  protocol : UInt8
  deriving DecidableEq, Repr

structure FlowSrc where
  srcip : UInt32
  dstip : UInt32
  deriving DecidableEq, Repr

/-- The `<srcip, dstip>` flow of a 5-tuple. -/
def FlowS.src (f : FlowS) : FlowSrc := ⟨f.srcip, f.dstip⟩

def flowCompare (flow1 flow2 : FlowS) : ℤ :=
  if flow1.srcip ≠ flow2.srcip then
    if flow1.srcip > flow2.srcip then 1 else -1
  else if flow1.dstip ≠ flow2.dstip then
    if flow1.dstip > flow2.dstip then 1 else -1
  else if flow1.srcPort ≠ flow2.srcPort then
    if flow1.srcPort > flow2.srcPort then 1 else -1
  else if flow1.dstPort ≠ flow2.dstPort then
    if flow1.dstPort > flow2.dstPort then 1 else -1
  else 0

def flowSrcCompare (flow1 flow2 : FlowSrc) : ℤ :=
  if flow1.srcip ≠ flow2.srcip then
    if flow1.srcip > flow2.srcip then 1 else -1
  else if flow1.dstip ≠ flow2.dstip then
    if flow1.dstip > flow2.dstip then 1 else -1
  else 0

def rotl32 (x r : UInt32) : UInt32 := (x <<< r) ||| (x >>> (32 - r))

def fmix32 (h : UInt32) : UInt32 :=
  let h := h ^^^ (h >>> 16)
  let h := h * 0x85ebca6b
  let h := h ^^^ (h >>> 13)
  let h := h * 0xc2b2ae35
  h ^^^ (h >>> 16)

/-- One pass of the body's loop. -/
def murmurBlock (h1 k1 : UInt32) : UInt32 :=
  let k1 := k1 * 0xcc9e2d51
  let k1 := rotl32 k1 15
  let k1 := k1 * 0x1b873593
  let h1 := h1 ^^^ k1
  let h1 := rotl32 h1 13
  h1 * 5 + 0xe6546b64

/-- `MurmurHash3_x86_32` of a key of whole 32-bit blocks, so with no tail. -/
def murmurHash3X8632 (blocks : List UInt32) (seed : UInt32) : UInt32 :=
  fmix32 (blocks.foldl murmurBlock seed ^^^ (4 * blocks.length).toUInt32)

/-- The bin that `flow_src_hash_bin` computes.  The function's `FLOW_SRC_DST` branch ends without a
`return`; this is the value it leaves in `hash`. -/
def flowSrcHashBin (flowSrc : FlowSrc) (mapSize : UInt32) : UInt32 :=
  let hash := murmurHash3X8632 [flowSrc.srcip, flowSrc.dstip] 42
  hash - mapSize * (hash / mapSize)

/-- `ht_vi_hash` and `ht_vl_hash`: the bin of a 5-tuple. -/
def htViHash (key : FlowS) : UInt64 :=
  let hashval := key.srcip.toUInt64
  let hashval := ((hashval <<< 32) ||| key.dstip.toUInt64) ^^^ key.srcPort.toUInt64
    ^^^ key.dstPort.toUInt64
  hashval % hashMapSize.toUInt64

/-! ## The orders -/

/-- The fields `flow_src_compare` looks at, the most significant first. -/
def FlowSrc.rank (f : FlowSrc) : ℕ := f.srcip.toNat * 2 ^ 32 + f.dstip.toNat

/-- The fields `flow_compare` looks at, the most significant first. -/
def FlowS.rank (f : FlowS) : ℕ :=
  ((f.srcip.toNat * 2 ^ 32 + f.dstip.toNat) * 2 ^ 16 + f.srcPort.toNat) * 2 ^ 16 + f.dstPort.toNat

theorem FlowSrc.rank_inj {f g : FlowSrc} : f.rank = g.rank ↔ f = g := by
  refine ⟨fun h => ?_, fun h => h ▸ rfl⟩
  obtain ⟨s, d⟩ := f
  obtain ⟨s', d'⟩ := g
  simp only [rank] at h
  have := d.toNat_lt
  have := d'.toNat_lt
  obtain rfl : s = s' := UInt32.toNat_inj.1 (by omega)
  obtain rfl : d = d' := UInt32.toNat_inj.1 (by omega)
  rfl

theorem FlowS.rank_inj {f g : FlowS} : f.rank = g.rank ↔
    f.srcip = g.srcip ∧ f.dstip = g.dstip ∧ f.srcPort = g.srcPort ∧ f.dstPort = g.dstPort := by
  simp only [rank, ← UInt32.toNat_inj, ← UInt16.toNat_inj]
  have := f.dstip.toNat_lt
  have := g.dstip.toNat_lt
  have := f.srcPort.toNat_lt
  have := g.srcPort.toNat_lt
  have := f.dstPort.toNat_lt
  have := g.dstPort.toNat_lt
  omega

theorem flowSrcCompare_pos (f g : FlowSrc) : 0 < flowSrcCompare f g ↔ g.rank < f.rank := by
  unfold flowSrcCompare FlowSrc.rank
  simp only [ne_eq, ← UInt32.toNat_inj, gt_iff_lt, UInt32.lt_iff_toNat_lt]
  have := f.dstip.toNat_lt
  have := g.dstip.toNat_lt
  split_ifs <;> omega

theorem flowSrcCompare_zero (f g : FlowSrc) : flowSrcCompare f g = 0 ↔ f.rank = g.rank := by
  obtain ⟨s, d⟩ := f
  obtain ⟨s', d'⟩ := g
  rw [FlowSrc.rank_inj]
  unfold flowSrcCompare
  split_ifs <;> simp_all

theorem flowCompare_pos (f g : FlowS) : 0 < flowCompare f g ↔ g.rank < f.rank := by
  unfold flowCompare FlowS.rank
  simp only [ne_eq, ← UInt32.toNat_inj, ← UInt16.toNat_inj, gt_iff_lt, UInt32.lt_iff_toNat_lt,
    UInt16.lt_iff_toNat_lt]
  have := f.dstip.toNat_lt
  have := g.dstip.toNat_lt
  have := f.srcPort.toNat_lt
  have := g.srcPort.toNat_lt
  have := f.dstPort.toNat_lt
  have := g.dstPort.toNat_lt
  split_ifs <;> omega

theorem flowCompare_zero (f g : FlowS) : flowCompare f g = 0 ↔ f.rank = g.rank := by
  rw [FlowS.rank_inj]
  unfold flowCompare
  split_ifs <;> simp_all

/-! ## The bins -/

/-- "A % B <=> A - B * (A / B)" -/
theorem toNat_sub_mul_div (hash mapSize : UInt32) :
    (hash - mapSize * (hash / mapSize)).toNat = hash.toNat % mapSize.toNat := by
  have hdiv := Nat.div_add_mod hash.toNat mapSize.toNat
  have hlt := hash.toNat_lt
  have hmul : (mapSize * (hash / mapSize)).toNat
      = mapSize.toNat * (hash.toNat / mapSize.toNat) := by
    rw [UInt32.toNat_mul, UInt32.toNat_div, Nat.mod_eq_of_lt (by omega)]
  rw [UInt32.toNat_sub_of_le _ _ (UInt32.le_iff_toNat_le.2 (by omega)), hmul]
  omega

theorem toNat_flowSrcHashBin (f : FlowSrc) (mapSize : UInt32) :
    (flowSrcHashBin f mapSize).toNat
      = (murmurHash3X8632 [f.srcip, f.dstip] 42).toNat % mapSize.toNat :=
  toNat_sub_mul_div _ _

theorem flowSrcHashBin_lt (f : FlowSrc) {mapSize : UInt32} (h : 0 < mapSize.toNat) :
    (flowSrcHashBin f mapSize).toNat < mapSize.toNat := by
  rw [toNat_flowSrcHashBin]
  exact Nat.mod_lt _ h

theorem htViHash_lt (f : FlowS) : (htViHash f).toNat < hashMapSize.toNat := by
  unfold htViHash
  rw [UInt64.toNat_mod]
  exact Nat.mod_lt _ (by decide)

/-- How the per-interval tables place a `<srcip, dstip>` flow. -/
def flowSrcKeying : Lib.Keying FlowSrc where
  cmp := flowSrcCompare
  rank := FlowSrc.rank
  bin := fun f => (flowSrcHashBin f hashMapSize).toNat
  size := hashMapSize.toNat
  cmp_pos := flowSrcCompare_pos
  cmp_zero := flowSrcCompare_zero
  bin_lt := fun f => flowSrcHashBin_lt f (by decide)
  bin_congr := fun h => by rw [FlowSrc.rank_inj.1 h]

/-- How the 5-tuple tables place a flow. -/
def flowKeying : Lib.Keying FlowS where
  cmp := flowCompare
  rank := FlowS.rank
  bin := fun f => (htViHash f).toNat
  size := hashMapSize.toNat
  cmp_pos := flowCompare_pos
  cmp_zero := flowCompare_zero
  bin_lt := htViHash_lt
  bin_congr := fun h => by
    obtain ⟨h1, h2, h3, h4⟩ := FlowS.rank_inj.1 h
    unfold htViHash
    rw [h1, h2, h3, h4]

end CMTestbed
