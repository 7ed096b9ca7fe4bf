import CMTestbed.Flow
import CMTestbed.Lib.History
import Mathlib.Algebra.Order.Field.Rat

/-!
# The tables of the sender

`HtKfsVi` and `HtKfsVf` are keyed by `<srcip, dstip>` flows and hold unsigned numbers and loss
rates, `HtVi` is keyed by 5-tuples.  Their `get` hands a value back as an `int`, -1 for none.
`HtKfsFixSize` has room for one flow per bin: a flow that meets another's entry is not stored.
-/

namespace CMTestbed

/-- A `uint32_t` returned as an `int`. -/
def toInt (value : UInt32) : ℤ := value.toInt32.toInt

/-- An `int` passed as a `uint32_t`. -/
def toUInt (value : ℤ) : UInt32 := UInt32.ofInt value

theorem toInt_eq_toNat {value : UInt32} (h : value.toNat < 2 ^ 31) : toInt value = value.toNat := by
  have : value.toInt32.toInt = value.toBitVec.toInt := rfl
  rw [toInt, this, BitVec.toInt_eq_toNat_cond, if_pos]
  · rfl
  · have : value.toBitVec.toNat = value.toNat := rfl
    omega

theorem toNat_toUInt {value : ℤ} (h₀ : 0 ≤ value) (h : value < 2 ^ 32) :
    ((toUInt value).toNat : ℤ) = value := by
  rw [toUInt, UInt32.ofInt, UInt32.toNat_ofNat']
  omega

/-- An `int` survives being stored if it is not negative. -/
theorem toInt_toUInt {value : ℤ} (h₀ : 0 ≤ value) (h : value < 2 ^ 31) :
    toInt (toUInt value) = value := by
  have hnat := toNat_toUInt h₀ (by omega)
  rw [toInt_eq_toNat (by omega), hnat]

theorem toInt_lt_zero {value : UInt32} (h : 2 ^ 31 ≤ value.toNat) : toInt value < 0 := by
  have hlt := value.toNat_lt
  have hint : toInt value = value.toBitVec.toInt := rfl
  have hnat : value.toBitVec.toNat = value.toNat := rfl
  rw [hint, BitVec.toInt_eq_toNat_cond, hnat, if_neg (by omega)]
  omega

theorem toUInt_toInt (value : UInt32) : toUInt (toInt value) = value := by
  have hlt := value.toNat_lt
  have hint : toInt value = value.toBitVec.toInt := rfl
  have hnat : value.toBitVec.toNat = value.toNat := rfl
  rw [← UInt32.toNat_inj, toUInt, UInt32.ofInt, UInt32.toNat_ofNat', hint,
    BitVec.toInt_eq_toNat_cond, hnat]
  split_ifs <;> omega

/-! ## The chained tables -/

/-- `hashtable_kfs_vi_t` -/
abbrev HtKfsVi := Lib.Table flowSrcKeying UInt32

/-- `hashtable_kfs_vf_t`; a float is the number that it stands for. -/
abbrev HtKfsVf := Lib.Table flowSrcKeying ℚ

/-- `hashtable_vi_t` -/
abbrev HtVi := Lib.Table flowKeying UInt32

def htKfsViCreate : HtKfsVi := Lib.Table.create

def htKfsViGet (hashtable : HtKfsVi) (key : FlowSrc) : ℤ :=
  match hashtable.get key with
  | some value => toInt value
  | none => -1

def htKfsViSet (hashtable : HtKfsVi) (key : FlowSrc) (value : UInt32) : HtKfsVi :=
  hashtable.set key value

def htKfsViDel (hashtable : HtKfsVi) (key : FlowSrc) : HtKfsVi := hashtable.del key

def htKfsViRefresh (hashtable : HtKfsVi) : HtKfsVi := hashtable.refresh

/-- The entry `ht_kfs_vi_next` copies out, or nothing for its -1. -/
def htKfsViNext (hashtable : HtKfsVi) : HtKfsVi × Option (FlowSrc × UInt32) := hashtable.next

/-- The loop of `ht_kfs_vi_copy`, and its end if that comes within `fuel` turns. -/
def htKfsViCopyFrom : ℕ → HtKfsVi → HtKfsVi → Option (HtKfsVi × HtKfsVi)
  | 0, _, _ => none
  | fuel + 1, sourceHashtable, retHashtable =>
    match htKfsViNext sourceHashtable with
    | (sourceHashtable, some (key, value)) =>
      htKfsViCopyFrom fuel sourceHashtable (htKfsViSet retHashtable key value)
    | (sourceHashtable, none) => some (sourceHashtable, retHashtable)

/-- The source after the call, and the table returned. -/
def htKfsViCopy (fuel : ℕ) (sourceHashtable : HtKfsVi) : Option (HtKfsVi × HtKfsVi) :=
  htKfsViCopyFrom fuel sourceHashtable htKfsViCreate

def htKfsVfCreate : HtKfsVf := Lib.Table.create

def htKfsVfGet (hashtable : HtKfsVf) (key : FlowSrc) : ℚ := (hashtable.get key).getD (-1)

def htKfsVfSet (hashtable : HtKfsVf) (key : FlowSrc) (value : ℚ) : HtKfsVf :=
  hashtable.set key value

def htViCreate : HtVi := Lib.Table.create

def htViGet (hashtable : HtVi) (key : FlowS) : ℤ :=
  match hashtable.get key with
  | some value => toInt value
  | none => -1

def htViSet (hashtable : HtVi) (key : FlowS) (value : UInt32) : HtVi := hashtable.set key value

def htViDel (hashtable : HtVi) (key : FlowS) : HtVi := hashtable.del key

theorem flowSrcKeying_rank {f g : FlowSrc} :
    flowSrcKeying.rank f = flowSrcKeying.rank g ↔ f = g :=
  FlowSrc.rank_inj

section FlowSrcTables
variable {V : Type*} (hashtable : Lib.Table flowSrcKeying V) (key f : FlowSrc)

theorem get_set (value : V) :
    (hashtable.set key value).get f = if f = key then some value else hashtable.get f :=
  (hashtable.get_set key f value).trans (if_congr flowSrcKeying_rank rfl rfl)

theorem get_del : (hashtable.del key).get f = if f = key then none else hashtable.get f :=
  (hashtable.get_del key f).trans (if_congr flowSrcKeying_rank rfl rfl)

end FlowSrcTables

section HtKfsVi
variable (hashtable : HtKfsVi) (key f : FlowSrc)

@[simp] theorem htKfsViGet_create : htKfsViGet htKfsViCreate f = -1 := by
  rw [htKfsViGet, htKfsViCreate, Lib.Table.get_create]

theorem htKfsViGet_set (value : UInt32) : htKfsViGet (htKfsViSet hashtable key value) f
    = if f = key then toInt value else htKfsViGet hashtable f := by
  rw [htKfsViGet, htKfsViSet, get_set, htKfsViGet]
  split_ifs <;> rfl

theorem htKfsViGet_del : htKfsViGet (htKfsViDel hashtable key) f
    = if f = key then -1 else htKfsViGet hashtable f := by
  rw [htKfsViGet, htKfsViDel, get_del, htKfsViGet]
  split_ifs <;> rfl

@[simp] theorem htKfsViGet_next : htKfsViGet (htKfsViNext hashtable).1 f
    = htKfsViGet hashtable f := by
  rw [htKfsViGet, htKfsViNext, Lib.Table.get_next, htKfsViGet]

@[simp] theorem htKfsVfGet_create : htKfsVfGet htKfsVfCreate f = -1 := by
  rw [htKfsVfGet, htKfsVfCreate, Lib.Table.get_create, Option.getD_none]

theorem htKfsVfGet_set (hashtable : HtKfsVf) (value : ℚ) :
    htKfsVfGet (htKfsVfSet hashtable key value) f
      = if f = key then value else htKfsVfGet hashtable f := by
  rw [htKfsVfGet, htKfsVfSet, get_set, htKfsVfGet]
  split_ifs <;> rfl

end HtKfsVi

/-! ## The table of fixed size -/

structure EntryKfsFixSize where
  key : FlowSrc
  selectedLevel : ℤ
  value : UInt32
  deriving DecidableEq, Repr

/-- `hashtable_kfs_fixSize_t` -/
structure HtKfsFixSize where
  size : UInt32
  collisionTimes : ℤ
  table : ℕ → Option EntryKfsFixSize
  nextCurrentBin : ℤ

def htKfsFixSizeCreate (size : UInt32) : HtKfsFixSize where
  size := size
  collisionTimes := 0
  table := fun _ => none
  nextCurrentBin := -1

namespace HtKfsFixSize

def bin (hashtable : HtKfsFixSize) (key : FlowSrc) : ℕ :=
  (flowSrcHashBin key hashtable.size).toNat

end HtKfsFixSize

/-- The key's entry, or nothing for -1. -/
def htKfsFixSizeGet (hashtable : HtKfsFixSize) (key : FlowSrc) : Option EntryKfsFixSize :=
  match hashtable.table (hashtable.bin key) with
  | some pair => if flowSrcCompare key pair.key ≠ 0 then none else some pair
  | none => none

def htKfsFixSizeIsSampled (hashtable : HtKfsFixSize) (key : FlowSrc) : Bool :=
  match htKfsFixSizeGet hashtable key with
  | some retEntry => 0 < retEntry.value
  | none => false

def htKfsFixSizeAddValue (hashtable : HtKfsFixSize) (key : FlowSrc) (deltaValue : UInt32) :
    HtKfsFixSize :=
  match hashtable.table (hashtable.bin key) with
  | some next =>
    if flowSrcCompare key next.key = 0 then
      { hashtable with
        table := Function.update hashtable.table (hashtable.bin key)
          (some { next with value := next.value + deltaValue }) }
    else { hashtable with collisionTimes := hashtable.collisionTimes + 1 }
  | none =>
    { hashtable with
      table := Function.update hashtable.table (hashtable.bin key) (some ⟨key, 0, deltaValue⟩) }

/-- The value `ht_kfs_fixSize_get` finds, 0 if it finds none. -/
def HtKfsFixSize.value (hashtable : HtKfsFixSize) (key : FlowSrc) : ℤ :=
  match htKfsFixSizeGet hashtable key with
  | some retEntry => toInt retEntry.value
  | none => 0

theorem flowSrcCompare_eq_zero {f g : FlowSrc} : flowSrcCompare f g = 0 ↔ f = g := by
  rw [flowSrcCompare_zero, FlowSrc.rank_inj]

theorem htKfsFixSizeGet_create (size : UInt32) (f : FlowSrc) :
    htKfsFixSizeGet (htKfsFixSizeCreate size) f = none := rfl

/-- A lookup in a table one of whose bins has changed. -/
theorem htKfsFixSizeGet_update {hashtable hashtable' : HtKfsFixSize} {b : ℕ}
    {pair : EntryKfsFixSize} (hsize : hashtable'.size = hashtable.size)
    (htable : hashtable'.table = Function.update hashtable.table b (some pair)) (f : FlowSrc) :
    htKfsFixSizeGet hashtable' f = if hashtable.bin f = b then
      if f = pair.key then some pair else none else htKfsFixSizeGet hashtable f := by
  have hbin : hashtable'.bin f = hashtable.bin f := by
    rw [HtKfsFixSize.bin, HtKfsFixSize.bin, hsize]
  unfold htKfsFixSizeGet
  rw [hbin, htable]
  by_cases hb : hashtable.bin f = b
  · rw [hb, Function.update_self, if_pos rfl]
    by_cases hf : f = pair.key <;> simp [flowSrcCompare_eq_zero, hf]
  · rw [Function.update_of_ne hb, if_neg hb]

/-- A key found after adding to its value was found before, or its bin was empty. -/
theorem htKfsFixSizeGet_addValue_self {hashtable : HtKfsFixSize} {key : FlowSrc}
    {deltaValue : UInt32} {pair : EntryKfsFixSize}
    (h : htKfsFixSizeGet (htKfsFixSizeAddValue hashtable key deltaValue) key = some pair) :
    (∃ old, htKfsFixSizeGet hashtable key = some old ∧ pair.value = old.value + deltaValue)
      ∨ htKfsFixSizeGet hashtable key = none ∧ pair.value = deltaValue := by
  unfold htKfsFixSizeAddValue at h
  split at h
  · next next hn =>
    split_ifs at h with hk
    · have hkey : key = next.key := flowSrcCompare_eq_zero.1 hk
      rw [htKfsFixSizeGet_update (by rfl) rfl, if_pos rfl, if_pos hkey, Option.some.injEq] at h
      refine .inl ⟨next, ?_, by rw [← h]⟩
      simp [htKfsFixSizeGet, hn, hk]
    · have hnone : htKfsFixSizeGet hashtable key = none := by simp [htKfsFixSizeGet, hn, hk]
      exact absurd (hnone.symm.trans h) (by simp)
  · next hn =>
    rw [htKfsFixSizeGet_update (by rfl) rfl, if_pos rfl, if_pos rfl, Option.some.injEq] at h
    exact .inr ⟨by rw [htKfsFixSizeGet, hn], by rw [← h]⟩

/-- Adding to a key's value leaves the other keys alone. -/
theorem htKfsFixSizeGet_addValue_of_ne (hashtable : HtKfsFixSize) {key f : FlowSrc} (h : f ≠ key)
    (deltaValue : UInt32) :
    htKfsFixSizeGet (htKfsFixSizeAddValue hashtable key deltaValue) f
      = htKfsFixSizeGet hashtable f := by
  have hother : ∀ pair, hashtable.table (hashtable.bin f) = some pair → pair.key = key →
      htKfsFixSizeGet hashtable f = none := by
    rintro pair hpair rfl
    simp [htKfsFixSizeGet, hpair, flowSrcCompare_eq_zero, h]
  unfold htKfsFixSizeAddValue
  split
  · next next hn =>
    split_ifs with hk
    · -- the entry in the bin is the key's own
      have hkey : next.key = key := (flowSrcCompare_eq_zero.1 hk).symm
      rw [htKfsFixSizeGet_update (by rfl) rfl]
      split_ifs with hb hf
      · exact absurd (hf.trans hkey) h
      · rw [hother next (by rw [hb, hn]) hkey]
      · rfl
    · rfl
  · next hn =>
    rw [htKfsFixSizeGet_update (by rfl) rfl]
    split_ifs with hb
    · rw [htKfsFixSizeGet, hb, hn]
    · rfl

end CMTestbed
