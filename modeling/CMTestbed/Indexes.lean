import CMTestbed.Divisions

/-!
# The indexes of the bins

One of two macros decides what a `flow_src_t` is and which section of `flow_src_compare` and of
`flow_src_hash_bin` is compiled; flow.h defines `FLOW_SRC_DST`.  What `flow_src_hash_bin` returns is
the index of a bin and of a mutex for every function with a key.  Where a function of C comes to
its end without a `return`, its caller gets no value, and to use it is undefined.
-/

namespace CMTestbed

/-- "only one of following definition can exist" -/
inductive FlowMacro where
  | flowSrc
  | flowSrcDst
  deriving DecidableEq, Repr

namespace FlowMacro

/-- The macro that flow.h defines. -/
def defined : FlowMacro := .flowSrcDst

/-- `flow_src_t` -/
def FlowSrcT : FlowMacro → Type
  | flowSrc => UInt32
  | flowSrcDst => FlowSrc

/-- `flow_src_compare` -/
def flowSrcCompare : (m : FlowMacro) → m.FlowSrcT → m.FlowSrcT → ℤ
  | flowSrc, (srcip₁ : UInt32), (srcip₂ : UInt32) =>
    if srcip₁ = srcip₂ then 0 else if srcip₁ > srcip₂ then 1 else -1
  | flowSrcDst, flow1, flow2 => CMTestbed.flowSrcCompare flow1 flow2

/-- `MurmurHash3_x86_32` of the key's fields. -/
def murmur : (m : FlowMacro) → m.FlowSrcT → UInt32
  | flowSrc, srcip => murmurHash3X8632 [srcip] 42
  | flowSrcDst, flow => murmurHash3X8632 [flow.srcip, flow.dstip] 42

/-- `hash` at the end of either section of `flow_src_hash_bin`. -/
def hashLeft {K : Type} (murmur : K → UInt32) (flow : K) (mapSize : UInt32) : UInt32 :=
  let hash := murmur flow
  hash - mapSize * (hash / mapSize)

/-- What `flow_src_hash_bin` returns, if it returns. -/
def flowSrcHashBin : (m : FlowMacro) → (m.FlowSrcT → UInt32) → m.FlowSrcT → UInt32 → Option UInt32
  | flowSrc, murmur, flow, mapSize => some (hashLeft murmur flow mapSize)
  | flowSrcDst, murmur, flow, mapSize =>
    let _hash := hashLeft murmur flow mapSize
    -- the section has no `return`, and nothing comes after it
    none

end FlowMacro

/-- An access of an array of so many items. -/
structure Access where
  index : ℤ
  length : ℕ

def Access.InRange (a : Access) : Prop := 0 ≤ a.index ∧ a.index < a.length

/-- The functions that use a bin. -/
inductive BinUse where
  /-- `get`, `set` and `del` of `hashtable_kfs_vi_t` and `hashtable_kfs_vf_t` -/
  | chained
  /-- the functions with a key of a `hashtable_kfs_fixSize_t` of this size -/
  | fixSize (size : ℤ)
  /-- `update_flow_loss_volume` and `update_flow_normal_volume` -/
  | update

namespace BinUse

/-- The `map_size` they pass. -/
def mapSize : BinUse → UInt32
  | chained | update => hashMapSize
  | fixSize size => toUInt size

/-- The accesses of `mutexs` and `table` with a bin, which the tables keep in an `int`. -/
def accesses : BinUse → UInt32 → List Access
  | chained, bin =>
    let bin : ℤ := toInt bin
    [⟨bin, hashMapSize.toNat⟩, ⟨bin, hashMapSize.toNat⟩]
  | fixSize size, bin =>
    let bin : ℤ := toInt bin
    [⟨bin.tmod Divisions.hashMapMutexSize.toNat, Divisions.hashMapMutexSize.toNat⟩,
      ⟨bin, size.toNat⟩]
  | update, lockBin => [⟨lockBin.toNat, hashMapSize.toNat⟩]

/-- A table of fixed size has bins. -/
def HasBins : BinUse → Prop
  | fixSize size => 0 < size ∧ IsInt size
  | _ => True

/-- The accesses have an index, and it is in range. -/
def InRange (u : BinUse) (bin : Option UInt32) : Prop :=
  ∃ b, bin = some b ∧ ∀ a ∈ u.accesses b, a.InRange

end BinUse

/-- The function returns the hash modulo the size, which is below it, and the same for every flow
that compares equal. -/
structure BinDefined (m : FlowMacro) (murmur : m.FlowSrcT → UInt32) (flow : m.FlowSrcT)
    (mapSize : UInt32) (bin : UInt32) : Prop where
  returned : m.flowSrcHashBin murmur flow mapSize = some bin
  lt : bin < mapSize
  modulo : bin.toNat = (murmur flow).toNat % mapSize.toNat
  congr : ∀ flow', m.flowSrcCompare flow flow' = 0 →
    m.flowSrcHashBin murmur flow' mapSize = some bin

end CMTestbed
