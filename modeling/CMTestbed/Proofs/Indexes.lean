import CMTestbed.Indexes

/-!
# The indexes are in range for whichever function returns one

The value a section of `flow_src_hash_bin` leaves in `hash` is a remainder, so it is below the size
and every access with it is in range.  The `FLOW_SRC` section returns it.  The `FLOW_SRC_DST`
section, which is the one compiled, returns nothing.
-/

namespace CMTestbed

/-! ## What a section leaves in `hash` -/

section Left
variable {K : Type} (murmur : K → UInt32) (flow : K) {mapSize : UInt32}

theorem FlowMacro.toNat_hashLeft (mapSize : UInt32) :
    (hashLeft murmur flow mapSize).toNat = (murmur flow).toNat % mapSize.toNat :=
  toNat_sub_mul_div _ _

theorem FlowMacro.hashLeft_lt (h : 0 < mapSize) :
    (hashLeft murmur flow mapSize).toNat < mapSize.toNat := by
  rw [toNat_hashLeft]
  exact Nat.mod_lt _ (UInt32.lt_iff_toNat_lt.1 h)

end Left

/-- The value the rest of the model takes for the bin. -/
theorem flowSrcHashBin_eq_hashLeft (f : FlowSrc) (mapSize : UInt32) :
    flowSrcHashBin f mapSize = FlowMacro.hashLeft FlowMacro.flowSrcDst.murmur f mapSize := rfl

/-- Flows that compare equal are the same flow. -/
theorem FlowMacro.eq_of_flowSrcCompare (m : FlowMacro) {flow flow' : m.FlowSrcT}
    (h : m.flowSrcCompare flow flow' = 0) : flow = flow' := by
  cases m with
  | flowSrc =>
    simp only [flowSrcCompare] at h
    split_ifs at h with heq
    · exact heq
    · exact absurd h (by decide)
  | flowSrcDst => exact FlowSrc.rank_inj.1 ((flowSrcCompare_zero _ _).1 h)

/-! ## The accesses -/

namespace BinUse

theorem toNat_mapSize_fixSize {size : ℤ} (hu : (fixSize size).HasBins) :
    (((fixSize size).mapSize.toNat : ℕ) : ℤ) = size := by
  obtain ⟨hpos, -, hlt⟩ := hu
  exact toNat_toUInt hpos.le (by omega)

theorem mapSize_pos {u : BinUse} (hu : u.HasBins) : 0 < u.mapSize := by
  cases u with
  | chained => decide
  | fixSize size =>
    have hsize := toNat_mapSize_fixSize hu
    have hpos : 0 < size := hu.1
    rw [UInt32.lt_iff_toNat_lt, UInt32.toNat_zero]
    omega
  | update => decide

/-- A bin below the size stays as it is in the table's `int`. -/
theorem toInt_of_lt {u : BinUse} (hu : u.HasBins) {bin : UInt32}
    (hlt : bin.toNat < u.mapSize.toNat) : toInt bin = bin.toNat := by
  apply toInt_eq_toNat
  cases u with
  | chained | update =>
    have hsize : bin.toNat < 65535 := hlt
    omega
  | fixSize size =>
    have hsize := toNat_mapSize_fixSize hu
    have hint : size < 2 ^ 31 := hu.2.2
    omega

theorem inRange_of_lt {u : BinUse} (hu : u.HasBins) {bin : UInt32}
    (hlt : bin.toNat < u.mapSize.toNat) : u.InRange (some bin) := by
  refine ⟨bin, rfl, fun a ha => ?_⟩
  have hint := toInt_of_lt hu hlt
  cases u with
  | chained =>
    simp only [accesses, hint, List.mem_cons, List.not_mem_nil, or_false, or_self] at ha
    subst ha
    exact ⟨Int.natCast_nonneg _, Int.ofNat_lt.2 hlt⟩
  | fixSize size =>
    have hsize := toNat_mapSize_fixSize hu
    simp only [accesses, hint, List.mem_cons, List.not_mem_nil, or_false] at ha
    rcases ha with rfl | rfl
    · -- a bin is not negative, so its remainder is not
      have hpos : (0 : ℤ) < Divisions.hashMapMutexSize.toNat := by decide
      exact ⟨Int.tmod_nonneg (Divisions.hashMapMutexSize.toNat : ℤ) (Int.natCast_nonneg bin.toNat),
        Int.tmod_lt_of_pos (bin.toNat : ℤ) hpos⟩
    · have hlt' : (bin.toNat : ℤ) < size.toNat := by omega
      exact ⟨Int.natCast_nonneg _, hlt'⟩
  | update =>
    simp only [accesses, List.mem_singleton] at ha
    subst ha
    exact ⟨Int.natCast_nonneg _, Int.ofNat_lt.2 hlt⟩

end BinUse

/-! ## The two configurations -/

section Configurations
variable (murmur : FlowMacro.flowSrc.FlowSrcT → UInt32) (flow : FlowMacro.flowSrc.FlowSrcT)

/-- What `flow_src_hash_bin` returns if `FLOW_SRC` is defined. -/
theorem binDefined_flowSrc {mapSize : UInt32} (h : 0 < mapSize) :
    BinDefined .flowSrc murmur flow mapSize (FlowMacro.hashLeft murmur flow mapSize) where
  returned := rfl
  lt := UInt32.lt_iff_toNat_lt.2 (FlowMacro.hashLeft_lt murmur flow h)
  modulo := FlowMacro.toNat_hashLeft murmur flow mapSize
  congr := fun flow' heq => by rw [← FlowMacro.eq_of_flowSrcCompare .flowSrc heq]; rfl

theorem inRange_flowSrc {u : BinUse} (hu : u.HasBins) :
    u.InRange (FlowMacro.flowSrc.flowSrcHashBin murmur flow u.mapSize) :=
  BinUse.inRange_of_lt hu (FlowMacro.hashLeft_lt murmur flow (BinUse.mapSize_pos hu))

end Configurations

/-- The value the section that is compiled leaves in `hash` would do for every use. -/
theorem inRange_flowSrcHashBin (f : FlowSrc) {u : BinUse} (hu : u.HasBins) :
    u.InRange (some (flowSrcHashBin f u.mapSize)) := by
  rw [flowSrcHashBin_eq_hashLeft]
  exact BinUse.inRange_of_lt hu (FlowMacro.hashLeft_lt _ f (BinUse.mapSize_pos hu))

/-- Whatever the hash, a key has a bin for a size, and an access an index in range, in every
configuration but the one that flow.h selects. -/
theorem bins_undefined (m : FlowMacro) (murmur : m.FlowSrcT → UInt32) (flow : m.FlowSrcT) :
    (∀ mapSize, 0 < mapSize →
      ((∃ bin, BinDefined m murmur flow mapSize bin) ↔ m ≠ FlowMacro.defined)) ∧
    ∀ u : BinUse, u.HasBins →
      (u.InRange (m.flowSrcHashBin murmur flow u.mapSize) ↔ m ≠ FlowMacro.defined) := by
  cases m with
  | flowSrc =>
    have hne : FlowMacro.flowSrc ≠ FlowMacro.defined := nofun
    refine ⟨fun mapSize h => ⟨fun _ => hne, fun _ => ?_⟩, fun u hu => ⟨fun _ => hne, fun _ => ?_⟩⟩
    · exact ⟨_, binDefined_flowSrc murmur flow h⟩
    · exact inRange_flowSrc murmur flow hu
  | flowSrcDst =>
    refine ⟨fun mapSize _ => ⟨?_, fun hne => absurd rfl hne⟩,
      fun u _ => ⟨?_, fun hne => absurd rfl hne⟩⟩
    · rintro ⟨bin, h⟩
      exact absurd h.returned nofun
    · rintro ⟨bin, h, -⟩
      exact absurd h nofun

/-- The flow from 10.0.0.1 to 11.0.0.1 has no bin, and its lookup no index. -/
theorem bins_undefined_counterexample :
    let flow : FlowMacro.defined.FlowSrcT := (⟨0x0a000001, 0x0b000001⟩ : FlowSrc)
    0 < hashMapSize ∧
      FlowMacro.defined.flowSrcHashBin FlowMacro.defined.murmur flow hashMapSize = none ∧
      (¬ ∃ bin, BinDefined FlowMacro.defined FlowMacro.defined.murmur flow hashMapSize bin) ∧
      ¬ BinUse.chained.InRange
        (FlowMacro.defined.flowSrcHashBin FlowMacro.defined.murmur flow hashMapSize) := by
  refine ⟨by decide, rfl, ?_, ?_⟩
  · rintro ⟨bin, h⟩
    exact absurd h.returned nofun
  · rintro ⟨bin, h, -⟩
    exact absurd h nofun

/-- With `FLOW_SRC` defined, the flow from 10.0.0.1 has a bin, and a table of 1000 bins is accessed
in range. -/
theorem bins_undefined_example :
    (∃ bin, BinDefined .flowSrc FlowMacro.flowSrc.murmur (0x0a000001 : UInt32) hashMapSize bin) ∧
      (BinUse.fixSize 1000).InRange (FlowMacro.flowSrc.flowSrcHashBin FlowMacro.flowSrc.murmur
        (0x0a000001 : UInt32) (BinUse.fixSize 1000).mapSize) :=
  ⟨((bins_undefined .flowSrc _ _).1 hashMapSize (by decide)).2 nofun,
    ((bins_undefined .flowSrc _ _).2 (.fixSize 1000) ⟨by decide, by decide⟩).2 nofun⟩

end CMTestbed
