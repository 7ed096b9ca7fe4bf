import CMTestbed.FixSize
import CMTestbed.Lib.Slots

/-!
# Levels protect entries

The insertions differ in when they take over a bin that another flow holds: never, for a higher
level, or for a level as high if the other flow has no value yet.  Each is a step of a table with
one slot per bin in which entries give way to entries of other flows by `GivesWay`.
-/

namespace CMTestbed

/-- The entries that an operation with this level evicts, and what it puts in their place. -/
structure GivesWay (replacement : Bool) (level? : Option ℤ) (old new : EntryKfsFixSize) : Prop where
  replaces : replacement = true
  level : level? = some new.selectedLevel
  le : old.selectedLevel ≤ new.selectedLevel
  lt : 0 < old.value → old.selectedLevel < new.selectedLevel

section slots
variable {replacement : Bool} {hashtable : HtKfsFixSize} {key : FlowSrc}

/-- The table's steps for a key, by operations with this level. -/
abbrev FixSizeStep (replacement : Bool) (level? : Option ℤ) (key : FlowSrc)
    (hashtable hashtable' : HtKfsFixSize) : Prop :=
  Lib.SlotStep hashtable.bin EntryKfsFixSize.key (GivesWay replacement level?) key hashtable.table
    hashtable'.table

theorem step_setBin_free {level? : Option ℤ} {pair : Option EntryKfsFixSize}
    (hfree : ∀ e, hashtable.table (hashtable.bin key) = some e → e.key = key)
    (hpair : ∀ e, pair = some e → e.key = key) :
    FixSizeStep replacement level? key hashtable (hashtable.setBin key pair) :=
  .own pair hfree hpair

/-- An update of the key's own entry. -/
theorem step_setBin_own {level? : Option ℤ} {next : EntryKfsFixSize}
    (hnext : hashtable.table (hashtable.bin key) = some next)
    (hkey : flowSrcCompare key next.key = 0) {pair : Option EntryKfsFixSize}
    (hpair : ∀ e, pair = some e → e.key = next.key) :
    FixSizeStep replacement level? key hashtable (hashtable.setBin key pair) := by
  rw [flowSrcCompare_eq_zero] at hkey
  subst hkey
  refine step_setBin_free (fun e he => ?_) hpair
  rw [hnext, Option.some.injEq] at he
  rw [he]

theorem step_setBin_empty {level? : Option ℤ}
    (hempty : hashtable.table (hashtable.bin key) = none) {pair : EntryKfsFixSize}
    (hpair : pair.key = key) :
    FixSizeStep replacement level? key hashtable (hashtable.setBin key (some pair)) := by
  refine step_setBin_free (fun e he => ?_) fun e he => ?_
  · rw [hempty] at he
    cases he
  · rw [← Option.some.inj he, hpair]

theorem step_setBin_evict {next : EntryKfsFixSize} {value : UInt32} {selectedLevel : ℤ}
    (hnext : hashtable.table (hashtable.bin key) = some next)
    (hkey : flowSrcCompare key next.key ≠ 0) (hreplacement : replacement = true)
    (hle : next.selectedLevel ≤ selectedLevel)
    (hlt : 0 < next.value → next.selectedLevel < selectedLevel) :
    FixSizeStep replacement (some selectedLevel) key hashtable
      (hashtable.addCollision.setBin key (some (htKfsFixSizeNewpair key value selectedLevel))) := by
  rw [Ne, flowSrcCompare_eq_zero] at hkey
  exact .evict next _ hnext (Ne.symm hkey) rfl ⟨hreplacement, rfl, hle, hlt⟩

theorem step_addValue (deltaValue : UInt32) :
    FixSizeStep replacement none key hashtable (htKfsFixSizeAddValue hashtable key deltaValue) := by
  unfold htKfsFixSizeAddValue
  split
  · next next hnext =>
    split_ifs with hkey
    · exact step_setBin_own hnext hkey fun e he => by rw [← Option.some.inj he]
    · exact .keep
  · next hempty => exact step_setBin_empty hempty rfl

theorem step_addValueAndUpdateSelectedLevelInfo (deltaValue : UInt32) (selectedLevel : ℤ) :
    FixSizeStep replacement (some selectedLevel) key hashtable
      (htKfsFixSizeAddValueAndUpdateSelectedLevelInfo replacement hashtable key deltaValue
        selectedLevel) := by
  unfold htKfsFixSizeAddValueAndUpdateSelectedLevelInfo
  split
  · next next hnext =>
    split_ifs with hkey hreplacement hlevel
    · exact step_setBin_own hnext hkey fun e he => by rw [← Option.some.inj he]
    · exact .keep
    · exact step_setBin_evict hnext hkey hreplacement (by omega) fun _ => by omega
    · exact .keep
  · next hempty => exact step_setBin_empty hempty rfl

theorem step_setSelectedLevel (selectedLevel : ℤ) :
    FixSizeStep replacement (some selectedLevel) key hashtable
      (htKfsFixSizeSetSelectedLevel replacement hashtable key selectedLevel) := by
  unfold htKfsFixSizeSetSelectedLevel
  split
  · next next hnext =>
    split_ifs with hkey hzero hreplacement hkeeps hlevel
    · exact step_setBin_own hnext hkey fun e he => by rw [← Option.some.inj he]
    · exact .keep
    · exact .keep
    · -- the occupant has no value, or a level below
      rw [not_or, not_and] at hkeeps
      refine step_setBin_evict hnext hkey hreplacement hlevel fun hvalue => ?_
      exact lt_of_le_of_ne hlevel fun he => hkeeps.2 he hvalue
    · exact .keep
    · exact .keep
  · next hempty =>
    split_ifs
    · exact step_setBin_empty hempty rfl
    · exact .keep

theorem step_del :
    FixSizeStep replacement none key hashtable (htKfsFixSizeDel hashtable key) := by
  unfold htKfsFixSizeDel
  split
  · next next hnext =>
    split_ifs with hkey
    · exact step_setBin_own hnext hkey fun e he => by cases he
    · exact .keep
  · exact .keep

/-- An operation for a key is a step for that key. -/
theorem step_exec {op : FixSizeOp} (h : op.key? = some key) :
    FixSizeStep replacement op.level? key hashtable (op.exec replacement hashtable) := by
  cases op with
  | addValue k deltaValue =>
    cases h
    exact step_addValue deltaValue
  | addValueAndUpdateSelectedLevelInfo k deltaValue selectedLevel =>
    cases h
    exact step_addValueAndUpdateSelectedLevelInfo deltaValue selectedLevel
  | setSelectedLevel k selectedLevel =>
    cases h
    exact step_setSelectedLevel selectedLevel
  | del k =>
    cases h
    exact step_del
  | refresh => cases h

end slots

section runs
variable {replacement : Bool} {hashtable : HtKfsFixSize}

theorem size_exec (op : FixSizeOp) : (op.exec replacement hashtable).size = hashtable.size := by
  cases op with
  | addValue key deltaValue =>
    simp only [FixSizeOp.exec, htKfsFixSizeAddValue]
    split
    · split_ifs <;> rfl
    · rfl
  | addValueAndUpdateSelectedLevelInfo key deltaValue selectedLevel =>
    simp only [FixSizeOp.exec, htKfsFixSizeAddValueAndUpdateSelectedLevelInfo]
    split
    · split_ifs <;> rfl
    · rfl
  | setSelectedLevel key selectedLevel =>
    simp only [FixSizeOp.exec, htKfsFixSizeSetSelectedLevel]
    split <;> split_ifs <;> rfl
  | del key =>
    simp only [FixSizeOp.exec, htKfsFixSizeDel]
    split
    · split_ifs <;> rfl
    · rfl
  | refresh => rfl

theorem bin_exec (op : FixSizeOp) : (op.exec replacement hashtable).bin = hashtable.bin := by
  funext f
  rw [HtKfsFixSize.bin, HtKfsFixSize.bin, size_exec]

/-- Clearing the table adds no entry. -/
theorem table_refresh {i : ℕ} {e : EntryKfsFixSize}
    (he : (htKfsFixSizeRefresh hashtable).table i = some e) : hashtable.table i = some e := by
  simp only [htKfsFixSizeRefresh] at he
  split_ifs at he
  exact he

/-- Every stored entry is in the bin of its own key. -/
def Placed (hashtable : HtKfsFixSize) : Prop :=
  Lib.Placed hashtable.bin EntryKfsFixSize.key hashtable.table

theorem Placed.exec (h : Placed hashtable) (op : FixSizeOp) :
    Placed (op.exec replacement hashtable) := by
  rw [Placed, bin_exec]
  cases hop : op.key? with
  | none =>
    cases op <;> cases hop
    exact fun i e he => h i e (table_refresh he)
  | some key => exact Lib.Placed.step h (step_exec hop)

theorem placed_run (h : Placed hashtable) (ops : List FixSizeOp) :
    Placed (ops.foldl (FixSizeOp.exec replacement) hashtable) := by
  induction ops generalizing hashtable with
  | nil => exact h
  | cons op ops ih => exact ih (h.exec op)

/-- What an operation may do to the entries of keys that it is not for. -/
structure PriorityLaw (replacement : Bool) (hashtable : HtKfsFixSize) (op : FixSizeOp)
    (hashtable' : HtKfsFixSize) : Prop where
  /-- Another key's entry stays, or is evicted from the bin of the operation's key. -/
  stays : ∀ key, op.key? = some key → ∀ i e, e.key ≠ key → hashtable.table i = some e →
    hashtable'.table i = some e
      ∨ i = hashtable.bin key ∧ ∃ e', hashtable'.table i = some e' ∧ e'.key = key
  /-- No entry of another key appears. -/
  old : ∀ key, op.key? = some key → ∀ i e, e.key ≠ key → hashtable'.table i = some e →
    hashtable.table i = some e
  /-- An entry is evicted only in replacement mode, by an operation with a level that is at least
  its own, and above it if it has a value. -/
  evicted : ∀ i e e', hashtable.table i = some e → hashtable'.table i = some e' →
    e'.key ≠ e.key → GivesWay replacement op.level? e e'
  /-- The level found in a bin does not fall by an operation for another key. -/
  level : ∀ key, op.key? = some key → ∀ i e, e.key ≠ key → hashtable.table i = some e →
    ∃ e', hashtable'.table i = some e' ∧ e.selectedLevel ≤ e'.selectedLevel

theorem priorityLaw_exec (op : FixSizeOp) :
    PriorityLaw replacement hashtable op (op.exec replacement hashtable) where
  stays key hop i e hne he := by
    rcases (step_exec hop).frame he hne with hsame | ⟨hi, e', he', hkey, -⟩
    · exact .inl hsame
    · exact .inr ⟨hi, e', he', hkey⟩
  old key hop i e hne he := (step_exec hop).back he hne
  evicted i e e' he he' hne := by
    cases hop : op.key? with
    | none =>
      cases op <;> cases hop
      have := table_refresh he'
      rw [he, Option.some.injEq] at this
      exact absurd (this ▸ rfl) hne
    | some key => exact (step_exec hop).evicts he he' hne
  level key hop i e hne he := (step_exec hop).exists_le (fun _ _ h => h.le) he hne

/-- Levels protect entries: in every state that any operations lead to, each entry is in its own
bin, and no operation for one key touches another's entry but by an eviction that levels allow. -/
theorem levels_protect_entries (replacement : Bool) (size : UInt32) (ops : List FixSizeOp) :
    let hashtable := ops.foldl (FixSizeOp.exec replacement) (htKfsFixSizeCreate size)
    (∀ i e, hashtable.table i = some e → hashtable.bin e.key = i)
      ∧ ∀ op, PriorityLaw replacement hashtable op (op.exec replacement hashtable) := by
  have hcreate : Placed (htKfsFixSizeCreate size) := fun i e he => by cases he
  exact ⟨placed_run hcreate ops, fun op => priorityLaw_exec op⟩

/-- A signal for a target takes the only bin from a flow with no level, in replacement mode. -/
example : [true, false].map (fun replacement =>
    (([.addValue ⟨1, 2⟩ 10, .setSelectedLevel ⟨3, 4⟩ 2].foldl (FixSizeOp.exec replacement)
      (htKfsFixSizeCreate 1)).table 0).map EntryKfsFixSize.key)
    = [some ⟨3, 4⟩, some ⟨1, 2⟩] := by
  decide +kernel

end runs

end CMTestbed
