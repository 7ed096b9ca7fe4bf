import CMTestbed.Tables

/-!
# Levels in the table of fixed size

Flows of a higher selected level are worth more.  In replacement mode an operation that carries a
level may put its flow in the place of another that holds the bin; otherwise the first flow in a
bin keeps it.

`cm_experiment_setting.replacement` is a parameter here.
-/

namespace CMTestbed

namespace HtKfsFixSize

/-- The table with a bin's entry replaced. -/
def setBin (hashtable : HtKfsFixSize) (key : FlowSrc) (pair : Option EntryKfsFixSize) :
    HtKfsFixSize :=
  { hashtable with table := Function.update hashtable.table (hashtable.bin key) pair }

def addCollision (hashtable : HtKfsFixSize) : HtKfsFixSize :=
  { hashtable with collisionTimes := hashtable.collisionTimes + 1 }

end HtKfsFixSize

def htKfsFixSizeNewpair (key : FlowSrc) (value : UInt32) (selectedLevel : ℤ) : EntryKfsFixSize where
  key := key
  selectedLevel := selectedLevel
  value := value

def htKfsFixSizeAddValueAndUpdateSelectedLevelInfo (replacement : Bool) (hashtable : HtKfsFixSize)
    (key : FlowSrc) (deltaValue : UInt32) (selectedLevel : ℤ) : HtKfsFixSize :=
  match hashtable.table (hashtable.bin key) with
  | some next =>
    if flowSrcCompare key next.key = 0 then
      hashtable.setBin key
        (some { next with value := next.value + deltaValue, selectedLevel := selectedLevel })
    else
      let hashtable := hashtable.addCollision
      if replacement then
        if next.selectedLevel ≥ selectedLevel then hashtable
        else hashtable.setBin key (some (htKfsFixSizeNewpair key deltaValue selectedLevel))
      else hashtable
  | none => hashtable.setBin key (some (htKfsFixSizeNewpair key deltaValue selectedLevel))

def htKfsFixSizeSetSelectedLevel (replacement : Bool) (hashtable : HtKfsFixSize) (key : FlowSrc)
    (selectedLevel : ℤ) : HtKfsFixSize :=
  match hashtable.table (hashtable.bin key) with
  | some next =>
    if flowSrcCompare key next.key = 0 then
      hashtable.setBin key (some { next with selectedLevel := selectedLevel })
    else if selectedLevel = 0 then hashtable
    else
      let hashtable := hashtable.addCollision
      if replacement then
        if next.selectedLevel > selectedLevel
            ∨ next.selectedLevel = selectedLevel ∧ next.value > 0 then hashtable
        else if selectedLevel ≥ next.selectedLevel then
          hashtable.setBin key (some (htKfsFixSizeNewpair key 0 selectedLevel))
        else hashtable
      else hashtable
  | none =>
    if replacement ∧ selectedLevel > 0 then
      hashtable.setBin key (some (htKfsFixSizeNewpair key 0 selectedLevel))
    else hashtable

def htKfsFixSizeDel (hashtable : HtKfsFixSize) (key : FlowSrc) : HtKfsFixSize :=
  match hashtable.table (hashtable.bin key) with
  | some next => if flowSrcCompare key next.key = 0 then hashtable.setBin key none else hashtable
  | none => hashtable

def htKfsFixSizeRefresh (hashtable : HtKfsFixSize) : HtKfsFixSize :=
  { hashtable with
    collisionTimes := 0
    table := fun i => if i < hashtable.size.toNat then none else hashtable.table i
    nextCurrentBin := -1 }

/-- Copies a stored entry to the caller's `ret_entry`, as `ht_kfs_fixSize_next` does. -/
def EntryKfsFixSize.copyTo (iterator retEntry : EntryKfsFixSize) : EntryKfsFixSize :=
  { retEntry with key := iterator.key, value := iterator.value }

/-- Goes on to the first full one of the last `n` bins; past the last, resets the cursor. -/
def HtKfsFixSize.nextBin (hashtable : HtKfsFixSize) (retEntry : EntryKfsFixSize) :
    ℕ → HtKfsFixSize × Option EntryKfsFixSize
  | 0 => ({ hashtable with nextCurrentBin := -1 }, none)
  | n + 1 =>
    let bin := hashtable.size.toNat - (n + 1)
    match hashtable.table bin with
    | some iterator => ({ hashtable with nextCurrentBin := bin }, some (iterator.copyTo retEntry))
    | none => hashtable.nextBin retEntry n

/-- What is in the caller's `ret_entry` afterwards, or nothing for -1. -/
def htKfsFixSizeNext (hashtable : HtKfsFixSize) (retEntry : EntryKfsFixSize) :
    HtKfsFixSize × Option EntryKfsFixSize :=
  if (hashtable.size.toNat : ℤ) ≤ hashtable.nextCurrentBin then (hashtable, none)
  else hashtable.nextBin retEntry (hashtable.size.toNat - (hashtable.nextCurrentBin + 1)).toNat

/-- The operations that change the table. -/
inductive FixSizeOp where
  | addValue (key : FlowSrc) (deltaValue : UInt32)
  | addValueAndUpdateSelectedLevelInfo (key : FlowSrc) (deltaValue : UInt32) (selectedLevel : ℤ)
  | setSelectedLevel (key : FlowSrc) (selectedLevel : ℤ)
  | del (key : FlowSrc)
  | refresh
  deriving DecidableEq, Repr

namespace FixSizeOp

/-- The key that the operation is for. -/
def key? : FixSizeOp → Option FlowSrc
  | addValue key _ | addValueAndUpdateSelectedLevelInfo key _ _ | setSelectedLevel key _
  | del key => some key
  | refresh => none

/-- The level that the operation carries. -/
def level? : FixSizeOp → Option ℤ
  | addValueAndUpdateSelectedLevelInfo _ _ selectedLevel | setSelectedLevel _ selectedLevel =>
    some selectedLevel
  | addValue _ _ | del _ | refresh => none

def exec (replacement : Bool) (hashtable : HtKfsFixSize) : FixSizeOp → HtKfsFixSize
  | addValue key deltaValue => htKfsFixSizeAddValue hashtable key deltaValue
  | addValueAndUpdateSelectedLevelInfo key deltaValue selectedLevel =>
    htKfsFixSizeAddValueAndUpdateSelectedLevelInfo replacement hashtable key deltaValue
      selectedLevel
  | setSelectedLevel key selectedLevel =>
    htKfsFixSizeSetSelectedLevel replacement hashtable key selectedLevel
  | del key => htKfsFixSizeDel hashtable key
  | refresh => htKfsFixSizeRefresh hashtable

end FixSizeOp

/-- The calls on the table: the operations, and `next` with what its caller's entry holds. -/
inductive FixSizeCall where
  | op (op : FixSizeOp)
  | next (retEntry : EntryKfsFixSize)
  deriving DecidableEq, Repr

def FixSizeCall.exec (replacement : Bool) (hashtable : HtKfsFixSize) :
    FixSizeCall → HtKfsFixSize
  | op o => o.exec replacement hashtable
  | next retEntry => (htKfsFixSizeNext hashtable retEntry).1

end CMTestbed
