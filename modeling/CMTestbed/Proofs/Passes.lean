import CMTestbed.Proofs.Installed

/-!
# A pass over the fixed-size table

`ht_kfs_fixSize_next` goes from bin to bin and copies the key and the value of each entry to its
caller's, but not the level: a pass gives the levels that the caller's entry held before.
-/

namespace CMTestbed

namespace HtKfsFixSize

/-- A pass up to the -1 that ends it: the entries that it returns and the table afterwards.  `ret j`
is what the caller's entry holds before the call after the first `j`. -/
inductive Pass : HtKfsFixSize → (ℕ → EntryKfsFixSize) → List EntryKfsFixSize → HtKfsFixSize → Prop
  | done {hashtable hashtable' : HtKfsFixSize} {ret : ℕ → EntryKfsFixSize}
    (hnext : htKfsFixSizeNext hashtable (ret 0) = (hashtable', none)) :
    Pass hashtable ret [] hashtable'
  | more {hashtable hashtable' last : HtKfsFixSize} {ret : ℕ → EntryKfsFixSize}
    {e : EntryKfsFixSize} {es : List EntryKfsFixSize}
    (hnext : htKfsFixSizeNext hashtable (ret 0) = (hashtable', some e))
    (hrest : Pass hashtable' (fun j => ret (j + 1)) es last) : Pass hashtable ret (e :: es) last

/-- What a pass should return: each stored entry once, as `ht_kfs_fixSize_get` finds it. -/
structure WholeContent (hashtable : HtKfsFixSize) (es : List EntryKfsFixSize) : Prop where
  stored : ∀ e, e ∈ es ↔ ∃ i < hashtable.size.toNat, hashtable.table i = some e
  nodup : es.Nodup
  found : ∀ e ∈ es, htKfsFixSizeGet hashtable e.key = some e

/-- The stored entries in the order of their bins. -/
def entries (hashtable : HtKfsFixSize) : List EntryKfsFixSize :=
  Lib.contents hashtable.table 0 hashtable.size.toNat

/-- Before each call the caller's entry has the level of the entry that is about to be copied. -/
def LevelsGiven (hashtable : HtKfsFixSize) (ret : ℕ → EntryKfsFixSize) : Prop :=
  ∀ j e, hashtable.entries[j]? = some e → (ret j).selectedLevel = e.selectedLevel

/-- The cursor is in front of the first bin or on one. -/
structure CursorOk (hashtable : HtKfsFixSize) : Prop where
  ge : -1 ≤ hashtable.nextCurrentBin
  le : hashtable.nextCurrentBin ≤ hashtable.size.toNat - 1

/-- The number of the bins behind the cursor. -/
def binsLeft (hashtable : HtKfsFixSize) : ℕ :=
  (hashtable.size.toNat - (hashtable.nextCurrentBin + 1)).toNat

/-- The entries that the pass has not reached. -/
def ahead (hashtable : HtKfsFixSize) : List EntryKfsFixSize :=
  Lib.contents hashtable.table (hashtable.size.toNat - hashtable.binsLeft) hashtable.binsLeft

/-- The table with its cursor there. -/
def moveTo (hashtable : HtKfsFixSize) (bin : ℤ) : HtKfsFixSize :=
  { hashtable with nextCurrentBin := bin }

section moveTo

variable (hashtable : HtKfsFixSize) (bin : ℤ)

@[simp] theorem moveTo_size : (hashtable.moveTo bin).size = hashtable.size := rfl

@[simp] theorem moveTo_nextCurrentBin : (hashtable.moveTo bin).nextCurrentBin = bin := rfl

end moveTo

section Next

variable {hashtable : HtKfsFixSize}

theorem ahead_of_reset (h : hashtable.nextCurrentBin = -1) :
    hashtable.ahead = hashtable.entries := by
  have hleft : hashtable.binsLeft = hashtable.size.toNat := by
    rw [binsLeft, h]
    omega
  rw [ahead, hleft, Nat.sub_self, entries]

theorem CursorOk.binsLeft_le (h : hashtable.CursorOk) :
    hashtable.binsLeft ≤ hashtable.size.toNat := by
  have hge := h.ge
  rw [binsLeft]
  omega

/-- What `nextBin` does: it copies the first of the entries of the last `n` bins, or resets. -/
theorem nextBin_spec (ret : EntryKfsFixSize) {n : ℕ} (hn : n ≤ hashtable.size.toNat) :
    (Lib.contents hashtable.table (hashtable.size.toNat - n) n = []
        ∧ hashtable.nextBin ret n = (hashtable.moveTo (-1), none))
      ∨ ∃ c e, hashtable.nextBin ret n = (hashtable.moveTo c, some (e.copyTo ret))
        ∧ (hashtable.moveTo c).CursorOk
        ∧ Lib.contents hashtable.table (hashtable.size.toNat - n) n
          = e :: (hashtable.moveTo c).ahead := by
  induction n with
  | zero => exact .inl ⟨rfl, rfl⟩
  | succ n ih =>
    have hsucc : hashtable.size.toNat - (n + 1) + 1 = hashtable.size.toNat - n := by omega
    cases hbin : hashtable.table (hashtable.size.toNat - (n + 1)) with
    | none =>
      have hnext : hashtable.nextBin ret (n + 1) = hashtable.nextBin ret n := by
        rw [nextBin, hbin]
      rw [Lib.contents_succ_none hbin, hsucc, hnext]
      exact ih (by omega)
    | some e =>
      have hleft : (hashtable.moveTo (hashtable.size.toNat - (n + 1) : ℕ)).binsLeft = n := by
        rw [binsLeft, moveTo_size, moveTo_nextCurrentBin]
        omega
      refine .inr ⟨(hashtable.size.toNat - (n + 1) : ℕ), e, ?_, ⟨?_, ?_⟩, ?_⟩
      · rw [nextBin, hbin, moveTo]
      · rw [moveTo_nextCurrentBin]
        omega
      · rw [moveTo_size, moveTo_nextCurrentBin]
        omega
      · rw [Lib.contents_succ_some hbin, hsucc, ahead, hleft]
        rfl

theorem next_eq_nextBin (h : hashtable.CursorOk) (ret : EntryKfsFixSize) :
    htKfsFixSizeNext hashtable ret = hashtable.nextBin ret hashtable.binsLeft := by
  have hle := h.le
  rw [htKfsFixSizeNext, if_neg (by omega), binsLeft]

/-- A call past the last entry ends the pass. -/
theorem next_of_nil (h : hashtable.CursorOk) (hnil : hashtable.ahead = []) (ret : EntryKfsFixSize) :
    htKfsFixSizeNext hashtable ret = (hashtable.moveTo (-1), none) := by
  rw [next_eq_nextBin h]
  rcases nextBin_spec ret h.binsLeft_le with ⟨-, hnext⟩ | ⟨c, e, -, -, hcontents⟩
  · exact hnext
  · cases hnil.symm.trans hcontents

/-- A call in front of an entry copies it. -/
theorem next_of_cons (h : hashtable.CursorOk) {e : EntryKfsFixSize} {es : List EntryKfsFixSize}
    (hcons : hashtable.ahead = e :: es) (ret : EntryKfsFixSize) :
    ∃ c, htKfsFixSizeNext hashtable ret = (hashtable.moveTo c, some (e.copyTo ret))
      ∧ (hashtable.moveTo c).CursorOk ∧ (hashtable.moveTo c).ahead = es := by
  rw [next_eq_nextBin h]
  rcases nextBin_spec ret h.binsLeft_le with ⟨hnil, -⟩ | ⟨c, e', hnext, hok, hcontents⟩
  · cases hcons.symm.trans hnil
  · obtain ⟨rfl, rfl⟩ := List.cons.inj (hcons.symm.trans hcontents)
    exact ⟨c, hnext, hok, rfl⟩

/-- The calls of a pass come to its end. -/
theorem exists_pass (h : hashtable.CursorOk) (ret : ℕ → EntryKfsFixSize) :
    ∃ es last, hashtable.Pass ret es last := by
  induction hes : hashtable.ahead generalizing hashtable ret with
  | nil => exact ⟨[], _, .done (next_of_nil h hes (ret 0))⟩
  | cons e es ih =>
    obtain ⟨c, hnext, hok, hahead⟩ := next_of_cons h hes (ret 0)
    obtain ⟨es', last, hpass⟩ := ih hok (fun j => ret (j + 1)) hahead
    exact ⟨_, last, .more hnext hpass⟩

/-- What the calls of a pass return for these entries. -/
def copies (ret : ℕ → EntryKfsFixSize) (es : List EntryKfsFixSize) : List EntryKfsFixSize :=
  es.mapIdx fun j e => e.copyTo (ret j)

theorem Pass.eq_copies {ret : ℕ → EntryKfsFixSize} {es : List EntryKfsFixSize}
    {last : HtKfsFixSize} (hpass : hashtable.Pass ret es last) (h : hashtable.CursorOk) :
    es = copies ret hashtable.ahead ∧ last = hashtable.moveTo (-1) := by
  induction hpass with
  | @done hashtable hashtable' ret hnext =>
    cases hes : hashtable.ahead with
    | nil =>
      rw [next_of_nil h hes] at hnext
      exact ⟨rfl, (Prod.mk.inj hnext).1.symm⟩
    | cons e es =>
      obtain ⟨_, hcopy, -⟩ := next_of_cons h hes (ret 0)
      cases hcopy.symm.trans hnext
  | @more hashtable hashtable' last ret e es hnext hrest ih =>
    cases hes : hashtable.ahead with
    | nil =>
      rw [next_of_nil h hes] at hnext
      cases hnext
    | cons e' es' =>
      obtain ⟨c, hcopy, hok, hahead⟩ := next_of_cons h hes (ret 0)
      cases hcopy.symm.trans hnext
      obtain ⟨hcopies, hlast⟩ := ih hok
      refine ⟨?_, hlast⟩
      rw [hcopies, hahead, copies, copies, List.mapIdx_cons]

end Next

/-! ## Every reachable table -/

/-- What the calls keep. -/
structure PassInv (hashtable : HtKfsFixSize) : Prop where
  placed : Placed hashtable
  cursor : hashtable.CursorOk

section Runs

variable {replacement : Bool} {hashtable : HtKfsFixSize}

theorem nextCurrentBin_exec (hashtable : HtKfsFixSize) (op : FixSizeOp) :
    (op.exec replacement hashtable).nextCurrentBin = hashtable.nextCurrentBin
      ∨ (op.exec replacement hashtable).nextCurrentBin = -1 := by
  cases op with
  | addValue key deltaValue =>
    simp only [FixSizeOp.exec, htKfsFixSizeAddValue]
    split
    · split_ifs <;> exact .inl rfl
    · exact .inl rfl
  | addValueAndUpdateSelectedLevelInfo key deltaValue selectedLevel =>
    simp only [FixSizeOp.exec, htKfsFixSizeAddValueAndUpdateSelectedLevelInfo]
    split
    · split_ifs <;> exact .inl rfl
    · exact .inl rfl
  | setSelectedLevel key selectedLevel =>
    simp only [FixSizeOp.exec, htKfsFixSizeSetSelectedLevel]
    split <;> split_ifs <;> exact .inl rfl
  | del key =>
    simp only [FixSizeOp.exec, htKfsFixSizeDel]
    split
    · split_ifs <;> exact .inl rfl
    · exact .inl rfl
  | refresh => exact .inr rfl

theorem cursorOk_of_reset (h : hashtable.nextCurrentBin = -1) : hashtable.CursorOk :=
  ⟨h.ge, by omega⟩

theorem PassInv.exec (h : hashtable.PassInv) (call : FixSizeCall) :
    (call.exec replacement hashtable).PassInv := by
  cases call with
  | op op =>
    refine ⟨h.placed.exec op, ?_⟩
    have hsize : (op.exec replacement hashtable).size = hashtable.size := size_exec op
    rcases nextCurrentBin_exec hashtable op with hsame | hreset
    · exact ⟨hsame ▸ h.cursor.ge, hsame ▸ hsize ▸ h.cursor.le⟩
    · exact cursorOk_of_reset hreset
  | next retEntry =>
    cases hes : hashtable.ahead with
    | nil =>
      rw [FixSizeCall.exec, next_of_nil h.cursor hes]
      exact ⟨h.placed, cursorOk_of_reset rfl⟩
    | cons e es =>
      obtain ⟨c, hnext, hok, -⟩ := next_of_cons h.cursor hes retEntry
      rw [FixSizeCall.exec, hnext]
      exact ⟨h.placed, hok⟩

theorem passInv_run (h : hashtable.PassInv) (calls : List FixSizeCall) :
    (calls.foldl (FixSizeCall.exec replacement) hashtable).PassInv := by
  induction calls generalizing hashtable with
  | nil => exact h
  | cons call calls ih => exact ih (h.exec call)

end Runs

section Levels

variable {hashtable : HtKfsFixSize} {ret : ℕ → EntryKfsFixSize}

theorem copyTo_eq_iff {e retEntry : EntryKfsFixSize} :
    e.copyTo retEntry = e ↔ retEntry.selectedLevel = e.selectedLevel := by
  cases e
  cases retEntry
  simp [EntryKfsFixSize.copyTo]

theorem copies_eq_iff : copies ret hashtable.entries = hashtable.entries
    ↔ hashtable.LevelsGiven ret := by
  constructor
  · intro h j e he
    have hcopy : (copies ret hashtable.entries)[j]? = some (e.copyTo (ret j)) := by
      rw [copies, List.getElem?_mapIdx, he, Option.map_some]
    rw [h, he, Option.some.injEq] at hcopy
    exact copyTo_eq_iff.1 hcopy.symm
  · intro h
    refine List.ext_getElem? fun j => ?_
    rw [copies, List.getElem?_mapIdx]
    cases he : hashtable.entries[j]? with
    | none => rfl
    | some e => rw [Option.map_some, copyTo_eq_iff.2 (h j e he)]

theorem wholeContent_entries (h : Placed hashtable) :
    hashtable.WholeContent hashtable.entries where
  stored _ := Lib.mem_contents
  nodup := Lib.Placed.nodup_contents h
  found e he := by
    obtain ⟨i, -, hi⟩ := Lib.mem_contents.1 he
    exact htKfsFixSizeGet_eq_some.2 ⟨by rw [h i e hi, hi], rfl⟩

/-- A copy of an entry is found only if it is the entry. -/
theorem wholeContent_copies_iff (h : Placed hashtable) :
    hashtable.WholeContent (copies ret hashtable.entries)
      ↔ copies ret hashtable.entries = hashtable.entries := by
  refine ⟨fun hwhole => copies_eq_iff.2 fun j e he => ?_, fun heq => ?_⟩
  swap
  · rw [heq]
    exact wholeContent_entries h
  have hcopy : e.copyTo (ret j) ∈ copies ret hashtable.entries := by
    refine List.mem_of_getElem? (i := j) ?_
    rw [copies, List.getElem?_mapIdx, he, Option.map_some]
  have hfound := hwhole.found _ hcopy
  have hentry := (wholeContent_entries h).found e (List.mem_of_getElem? he)
  exact copyTo_eq_iff.1 (Option.some.inj (hfound.symm.trans hentry))

end Levels

end HtKfsFixSize

open HtKfsFixSize

/-- A pass over the fixed-size table: in every state that any calls lead to with the cursor reset,
a pass comes to its end, and it returns the whole content, and the next one the same, if and only
if the caller's entry has, before each call, the level of the entry that is about to come. -/
theorem pass_returns_content_iff (replacement : Bool) (size : UInt32) (calls : List FixSizeCall)
    (ret ret' : ℕ → EntryKfsFixSize) :
    let hashtable := calls.foldl (FixSizeCall.exec replacement) (htKfsFixSizeCreate size)
    hashtable.nextCurrentBin = -1 →
      (∃ es last, hashtable.Pass ret es last)
      ∧ ∀ es es' last last', hashtable.Pass ret es last → last.Pass ret' es' last' →
        (hashtable.WholeContent es ∧ es' = es
          ↔ hashtable.LevelsGiven ret ∧ hashtable.LevelsGiven ret') := by
  intro hashtable hreset
  have hcreate : (htKfsFixSizeCreate size).PassInv :=
    ⟨fun i e he => (by cases he), cursorOk_of_reset rfl⟩
  have hinv : hashtable.PassInv := passInv_run hcreate calls
  refine ⟨exists_pass hinv.cursor ret, fun es es' last last' hpass hpass' => ?_⟩
  obtain ⟨rfl, rfl⟩ := hpass.eq_copies hinv.cursor
  obtain ⟨rfl, -⟩ := hpass'.eq_copies (cursorOk_of_reset rfl)
  rw [ahead_of_reset hreset, ahead_of_reset (moveTo_nextCurrentBin _ _),
    wholeContent_copies_iff hinv.placed, ← copies_eq_iff, ← copies_eq_iff]
  refine and_congr_right fun heq => ?_
  rw [heq]
  rfl

/-- A table of one flow of level 2. -/
def levelTable : HtKfsFixSize :=
  [FixSizeCall.op (.addValueAndUpdateSelectedLevelInfo ⟨1, 2⟩ 10 2)].foldl
    (FixSizeCall.exec true) (htKfsFixSizeCreate 1)

/-- A caller's entry with this level. -/
def entryOfLevel (level : ℤ) : ℕ → EntryKfsFixSize := fun _ => ⟨⟨0, 0⟩, level, 0⟩

theorem levelTable_entries : levelTable.entries = [⟨⟨1, 2⟩, 2, 10⟩] := by decide +kernel

theorem levelTable_pass (level : ℤ) :
    levelTable.Pass (entryOfLevel level) [⟨⟨1, 2⟩, level, 10⟩] (levelTable.moveTo (-1)) := by
  have hok : levelTable.CursorOk := cursorOk_of_reset rfl
  obtain ⟨es, last, hpass⟩ := exists_pass hok (entryOfLevel level)
  obtain ⟨rfl, rfl⟩ := hpass.eq_copies hok
  rwa [ahead_of_reset rfl, levelTable_entries] at hpass

/-- A pass with a zeroed entry takes the level from the flow. -/
theorem pass_loses_level :
    levelTable.Pass (entryOfLevel 0) [⟨⟨1, 2⟩, 0, 10⟩] (levelTable.moveTo (-1))
      ∧ ¬ levelTable.WholeContent [⟨⟨1, 2⟩, 0, 10⟩] := by
  refine ⟨levelTable_pass 0, fun h => ?_⟩
  have hfound := h.found ⟨⟨1, 2⟩, 0, 10⟩ (List.mem_singleton_self _)
  revert hfound
  decide +kernel

/-- With an entry of level 2 the pass is right. -/
theorem pass_returns_content_iff_example :
    levelTable.WholeContent [⟨⟨1, 2⟩, 2, 10⟩] := by
  have hgiven : levelTable.LevelsGiven (entryOfLevel 2) := by
    intro j e he
    rw [levelTable_entries] at he
    cases j <;> cases he
    rfl
  have hiff := (pass_returns_content_iff true 1
    [.op (.addValueAndUpdateSelectedLevelInfo ⟨1, 2⟩ 10 2)] (entryOfLevel 2) (entryOfLevel 2)
    rfl).2 _ _ _ _ (levelTable_pass 2) (levelTable_pass 2)
  exact (hiff.2 ⟨hgiven, hgiven⟩).1

end CMTestbed
