import CMTestbed.Lib.Copy
import CMTestbed.Proofs.FiniteMap
import CMTestbed.Proofs.Conditions
import CMTestbed.Proofs.Iteration

/-!
# A copy has what the table has

`ht_kfs_vi_copy` and the third part of a condition round run the same loop.  From a cursor at rest
it ends with a table of the same lookups and with the source as it was (`copies_preserve`).  In a
round the cursor of the levels is at rest then, whatever the updates did: the first part has ended
its pass, and the second does not iterate over them (`AtRest`).
-/

namespace CMTestbed

section Copy
variable {source : HtKfsVi}

/-- From any cursor the loop ends, with the cursor at rest and no node changed. -/
theorem htKfsViCopyFrom_spec : ∀ {fuel : ℕ} {source ret : HtKfsVi}, source.CopiedTo ret →
    source.remaining < fuel → ∃ source' copy,
      htKfsViCopyFrom fuel source ret = some (source', copy) ∧ source'.AtReset
        ∧ source'.SameNodes source ∧ ∀ key, copy.get key = source.get key
  | 0, _, _, _, h => by omega
  | fuel + 1, source, ret, hcopied, hfuel => by
    have hsame := source.sameNodes_next
    have hgets := fun key => source.get_next key
    rcases hn : source.next with ⟨source', _ | ⟨key, value⟩⟩
    · have hnone : source.next.2 = none := congrArg Prod.snd hn
      have hreset := (Lib.Table.next_none hnone).2
      rw [hn] at hreset hsame
      refine ⟨source', ret, ?_, hreset, hsame, hcopied.get hnone⟩
      rw [htKfsViCopyFrom, htKfsViNext, hn]
    · have hsome : source.next.2 = some (key, value) := congrArg Prod.snd hn
      have hnext := hcopied.next hsome
      have hlt := Lib.Table.remaining_next_lt hsome
      rw [hn] at hnext hlt hsame hgets
      have hfuel' : source'.remaining < fuel := by
        dsimp only at hlt
        omega
      obtain ⟨source'', copy, hcopy, hreset, hsame', hget⟩ := htKfsViCopyFrom_spec hnext hfuel'
      refine ⟨source'', copy, ?_, hreset, hsame'.trans hsame, fun k => (hget k).trans (hgets k)⟩
      rw [htKfsViCopyFrom, htKfsViNext, hn]
      exact hcopy

/-- More turns than the loop needs change nothing. -/
theorem htKfsViCopyFrom_mono : ∀ {fuel fuel' : ℕ} {source ret : HtKfsVi} {r : HtKfsVi × HtKfsVi},
    htKfsViCopyFrom fuel source ret = some r → fuel ≤ fuel' →
      htKfsViCopyFrom fuel' source ret = some r
  | 0, _, _, _, _, h, _ => by cases h
  | _ + 1, 0, _, _, _, _, hle => by omega
  | fuel + 1, fuel' + 1, source, ret, r, h, hle => by
    rw [htKfsViCopyFrom] at h ⊢
    split at h
    · exact htKfsViCopyFrom_mono h (Nat.le_of_succ_le_succ hle)
    · exact h

/-- From a cursor at rest the loop leaves the source as it was. -/
theorem htKfsViCopyFrom_create (h : source.AtReset) : ∃ fuel copy,
    htKfsViCopyFrom fuel source htKfsViCreate = some (source, copy)
      ∧ ∀ key, copy.get key = source.get key := by
  obtain ⟨source', copy, hcopy, hreset, hsame, hget⟩ :=
    htKfsViCopyFrom_spec (Lib.Table.copiedTo_create h) (Nat.lt_succ_self source.remaining)
  rw [hreset.eq_of_sameNodes h hsame] at hcopy
  exact ⟨_, copy, hcopy, hget⟩

end Copy

namespace Conditions

variable {setting : CmExperimentSetting} {s : Conditions}

/-! ## The third part of a round -/

theorem setLevelMap_setLevelMap (m m' : HtKfsVi) :
    (s.setLevelMap m).setLevelMap m' = s.setLevelMap m' := by
  simp [setLevelMap, DataWarehouse.modifyActive, DataWarehouse.active]

theorem setLevelMap_levelMap : s.setLevelMap s.levelMap = s := by
  simp [setLevelMap, levelMap, DataWarehouse.modifyActive, DataWarehouse.active]

/-- The sender's steps are the loop's turns, two steps for an entry. -/
theorem advance_copyNext {fuel : ℕ} {levels copy : HtKfsVi} (hp : s.phase = .copyNext)
    (h : htKfsViCopyFrom fuel s.levelMap s.lastSentMap = some (levels, copy)) :
    ∃ n, advance^[n] s = ((s.setLevelMap levels).setLastSentMap copy).goto .waiting := by
  induction fuel generalizing s with
  | zero => cases h
  | succ fuel ih =>
    rw [htKfsViCopyFrom] at h
    rcases hn : htKfsViNext s.levelMap with ⟨levels', _ | ⟨key, value⟩⟩ <;> rw [hn] at h
    · cases h
      refine ⟨1, ?_⟩
      simp only [Function.iterate_one, advance, hp, hn]
      rfl
    · let s₂ := ((s.setLevelMap levels').setLastSentMap
        (htKfsViSet s.lastSentMap key value)).goto .copyNext
      have hadvance : s.advance.advance = s₂ := by
        simp only [advance, hp, hn, phase_goto]
        rfl
      have hlevel : s₂.levelMap = levels' := levelMap_setLevelMap s levels'
      obtain ⟨n, hrun⟩ := ih (s := s₂) rfl (by rw [hlevel]; exact h)
      refine ⟨n + 2, ?_⟩
      have hlevels : s₂.setLevelMap levels = ((s.setLevelMap levels).setLastSentMap
          (htKfsViSet s.lastSentMap key value)).goto .copyNext :=
        congrArg (fun s => (setLastSentMap s _).goto .copyNext) (setLevelMap_setLevelMap _ _)
      rw [Function.iterate_add_apply]
      change advance^[n] s.advance.advance = _
      rw [hadvance, hrun, hlevels]
      rfl

/-- Left alone from the third part of the round on, the sender makes the map of the last sent levels
a copy of the levels, and changes nothing else. -/
def CopiesLevels (setting : CmExperimentSetting) (s : Conditions) : Prop :=
  ∃ n lastSentMap, (system setting).run s (List.replicate n .advance)
      = some ((s.setLastSentMap lastSentMap).goto .waiting)
    ∧ ∀ key, htKfsViGet lastSentMap key = htKfsViGet s.levelMap key

theorem copiesLevels (hp : s.phase = .recreate) (h : s.levelMap.AtReset) :
    s.CopiesLevels setting := by
  obtain ⟨fuel, copy, hcopy, hget⟩ := htKfsViCopyFrom_create h
  let s₁ := (s.setLastSentMap htKfsViCreate).goto .copyNext
  have hadvance : s.advance = s₁ := by
    simp only [advance, hp]
    rfl
  obtain ⟨n, hn⟩ := advance_copyNext (s := s₁) rfl hcopy
  refine ⟨n + 1, copy, ?_, fun key => ?_⟩
  · rw [run_advance _ (by rw [hp]; decide), Function.iterate_succ_apply, hadvance, hn]
    have hlevels : s₁.setLevelMap s.levelMap = s₁ := setLevelMap_levelMap (s := s₁)
    rw [hlevels]
    rfl
  · rw [htKfsViGet, htKfsViGet, hget]

/-! ## The cursor of the levels -/

/-- The sender iterates over the levels. -/
def InLevels : ConditionPhase → Prop
  | .plusNext | .plusGet _ _ | .plusSend _ _ | .copyNext | .copySet _ _ => True
  | _ => False

/-- The cursors of the levels are at rest where the sender does not iterate over them. -/
structure AtRest (s : Conditions) : Prop where
  unactive : s.warehouse.unactive.flowSelectedLevelMap.AtReset
  levels : ¬ InLevels s.phase → s.levelMap.AtReset

theorem atRest_init (tasks : List Task) : (init setting tasks).AtRest :=
  ⟨Lib.Table.atReset_create, fun _ => Lib.Table.atReset_create⟩

theorem atReset_advance (h : ¬ InLevels s.phase → s.levelMap.AtReset)
    (hphase : ¬ InLevels s.advance.phase) : s.advance.levelMap.AtReset := by
  cases hp : s.phase <;> rw [hp] at h
  case plusNext | copyNext =>
    rcases hn : (htKfsViNext s.levelMap).2 with _ | ⟨key, value⟩
    · have hreset := atReset_htKfsViNext hn
      simpa [advance, hp, hn] using hreset
    · simp [advance, hp, hn, InLevels] at hphase
  case plusGet =>
    refine absurd ?_ hphase
    simp only [advance, hp]
    split_ifs <;> trivial
  case minusNext =>
    have hreset := h id
    rcases hn : (htKfsViNext s.lastSentMap).2 with _ | ⟨key, value⟩ <;>
      simpa [advance, hp, hn] using hreset
  case minusGet =>
    have hreset := h id
    simp only [advance, hp]
    split_ifs <;> exact hreset
  case minusSend =>
    have hreset := h id
    simpa [advance, hp] using hreset
  case rotated =>
    have hreset := h id
    simpa [advance, hp] using hreset
  all_goals simp [advance, hp, InLevels] at hphase

theorem atRest_step {e : Event} {s' : Conditions} (h : s.AtRest)
    (hs : step setting s e = some s') : s'.AtRest := by
  obtain ⟨-, -, rfl⟩ | ⟨f, volume, lossVolume, lossRate, -, rfl⟩ | ⟨-, hp, rfl⟩
    | ⟨-, hp, rfl⟩ := step_cases hs
  · refine ⟨?_, atReset_advance h.levels⟩
    rw [(advance_frame s).2.1]
    exact h.unactive
  · refine ⟨?_, fun hphase => ?_⟩
    · rw [unactive_setLevelMap]
      exact h.unactive
    · rw [levelMap_setLevelMap]
      exact (updated setting s.levelMap f volume lossVolume lossRate).atReset (h.levels hphase)
  · refine ⟨?_, fun _ => h.unactive⟩
    rw [DataWarehouse.unactive_rotate]
    exact h.levels (by rw [hp]; exact id)
  · refine ⟨?_, fun _ => ?_⟩
    · rw [DataWarehouse.unactive_reset]
      exact Lib.Table.atReset_create
    · rw [levelMap_reset]
      exact h.levels (by rw [hp]; exact id)

/-- Whatever the updates and rotations did before, the round copies the levels. -/
theorem copiesLevels_of_run {tasks : List Task} {history : List Event}
    (hrun : (system setting).run (init setting tasks) history = some s) (hp : s.phase = .recreate) :
    s.CopiesLevels setting := by
  have hrest : s.AtRest :=
    Lib.System.run_inv (fun _ _ _ => atRest_step) (atRest_init tasks) hrun
  exact copiesLevels hp (hrest.levels (by rw [hp]; exact id))

end Conditions

/-- Copying preserves a table: after any calls that leave no pass unfinished, `ht_kfs_vi_copy` ends
with a table of the same lookups and the source as it was, and so does the third part of a round,
in particular of every round of every run. -/
theorem copies_preserve (cs : List HtKfsViCall) (hcs : htKfsViCreate.PassesOver cs) :
    (∃ copy, (∃ n, ∀ fuel ≥ n, htKfsViCopy fuel (htKfsViCreate.calls cs)
          = some (htKfsViCreate.calls cs, copy))
        ∧ ∀ key, htKfsViGet copy key = htKfsViGet (htKfsViCreate.calls cs) key)
      ∧ (∀ setting (s : Conditions), s.phase = .recreate → s.levelMap = htKfsViCreate.calls cs →
          s.CopiesLevels setting)
      ∧ ∀ setting tasks history s,
          (Conditions.system setting).run (Conditions.init setting tasks) history = some s →
            s.phase = .recreate → s.CopiesLevels setting := by
  have hreset : (htKfsViCreate.calls cs).AtReset := by
    rw [HtKfsVi.calls_eq_run]
    exact Lib.Table.atReset_run Lib.Table.atReset_create hcs
  refine ⟨?_, fun setting s hp hlevels => ?_, fun setting tasks history s hrun hp => ?_⟩
  · obtain ⟨n, copy, hcopy, hget⟩ := htKfsViCopyFrom_create hreset
    refine ⟨copy, ⟨n, fun fuel hle => htKfsViCopyFrom_mono hcopy hle⟩, fun key => ?_⟩
    rw [htKfsViGet, htKfsViGet, hget]
  · exact Conditions.copiesLevels hp (by rw [hlevels]; exact hreset)
  · exact Conditions.copiesLevels_of_run hrun hp

/-! ## Two flows of one bin -/

/-- The flow set last goes in before the other one. -/
def twoFlows : HtKfsVi := htKfsViCreate.calls [.set skipSecond 2, .set skipFirst 1]

theorem get_twoFlows (f : FlowSrc) :
    twoFlows.get f = if f = skipFirst then some 1 else if f = skipSecond then some 2 else none := by
  change (htKfsViSet (htKfsViSet htKfsViCreate skipSecond 2) skipFirst 1).get f = _
  rw [htKfsViSet, get_set, htKfsViSet, get_set, htKfsViCreate, Lib.Table.get_create]

theorem eq_of_get_twoFlows {f : FlowSrc} (hf : twoFlows.get f ≠ none) :
    f = skipFirst ∨ f = skipSecond := by
  rw [get_twoFlows] at hf
  split_ifs at hf with h₁ h₂
  · exact .inl h₁
  · exact .inr h₂
  · exact absurd rfl hf

theorem next_twoFlows : twoFlows.next.2 = some (skipFirst, 1) := by
  have hnp : ¬ twoFlows.Passed skipFirst :=
    Lib.Table.not_passed_of_atReset ((Lib.Table.atReset_create.set _ _).set _ _) _
  obtain ⟨k, hk, hrank⟩ := Lib.Table.next_eq_some (v := 1) (by simp [get_twoFlows]) hnp
    fun f hf _ => by
      rcases eq_of_get_twoFlows hf with rfl | rfl
      · exact .inr ⟨rfl, le_rfl⟩
      · exact .inr ⟨skip_bin.symm, skip_rank.le⟩
  rw [hk, flowSrcKeying_rank.1 hrank]

theorem next_next_twoFlows : twoFlows.next.1.next.2 = some (skipSecond, 2) := by
  obtain ⟨-, -, hbefore, -⟩ := Lib.Table.next_some next_twoFlows
  have hnp : ¬ twoFlows.next.1.Passed skipSecond := by
    rw [hbefore]
    rintro (hlt | ⟨-, hle⟩)
    · rw [skip_bin] at hlt
      omega
    · exact absurd hle (not_le.2 skip_rank)
  have hget : twoFlows.next.1.get skipSecond = some 2 := by
    rw [Lib.Table.get_next, get_twoFlows, if_neg skip_ne.symm, if_pos rfl]
  obtain ⟨k, hk, hrank⟩ := Lib.Table.next_eq_some hget hnp fun f hf hfp => by
    rw [Lib.Table.get_next] at hf
    rcases eq_of_get_twoFlows hf with rfl | rfl
    · exact absurd ((hbefore skipFirst).2 (.inr ⟨rfl, le_rfl⟩)) hfp
    · exact .inr ⟨rfl, le_rfl⟩
  rw [hk, flowSrcKeying_rank.1 hrank]

/-- A pass over both flows is over with the third call. -/
theorem next_next_next_twoFlows : twoFlows.next.1.next.1.next.2 = none := by
  obtain ⟨-, -, hbefore, -⟩ := Lib.Table.next_some next_next_twoFlows
  refine Lib.Table.next_eq_none fun f hf => (hbefore f).2 ?_
  rw [Lib.Table.get_next, Lib.Table.get_next] at hf
  rcases eq_of_get_twoFlows hf with rfl | rfl
  · exact .inr ⟨skip_bin.symm, skip_rank.le⟩
  · exact .inr ⟨rfl, le_rfl⟩

/-- They are copied after a pass. -/
theorem copies_preserve_example :
    let cs : List HtKfsViCall := [.set skipSecond 2, .set skipFirst 1, .next, .next, .next]
    (∃ copy fuel, htKfsViCopy fuel (htKfsViCreate.calls cs) = some (htKfsViCreate.calls cs, copy)
        ∧ htKfsViGet copy skipFirst = 1 ∧ htKfsViGet copy skipSecond = 2)
      ∧ (((Conditions.init exampleSetting []).setLevelMap (htKfsViCreate.calls cs)).goto
        .recreate).CopiesLevels exampleSetting := by
  intro cs
  have hover : htKfsViCreate.PassesOver
      [.set skipSecond 2, .set skipFirst 1, .next, .next, .next] := by
    intro ops₁ ops₂ heq hn _
    rcases ops₁ with _ | ⟨_, _ | ⟨_, _ | ⟨_, _ | ⟨_, _ | ⟨_, ops₁⟩⟩⟩⟩⟩
    · cases heq
    · cases heq
    · cases heq
      exact absurd List.mem_cons_self hn
    · cases heq
      exact absurd List.mem_cons_self hn
    · cases heq
      exact next_next_next_twoFlows
    · simp at heq
  have hget : ∀ f, (htKfsViCreate.calls cs).get f = twoFlows.get f := by
    intro f
    change (((twoFlows.next).1.next).1.next).1.get f = _
    rw [Lib.Table.get_next, Lib.Table.get_next, Lib.Table.get_next]
  obtain ⟨⟨copy, ⟨n, hcopy⟩, hlookups⟩, hround, -⟩ := copies_preserve cs hover
  refine ⟨⟨copy, n, hcopy n le_rfl, ?_, ?_⟩, hround _ _ rfl (Conditions.levelMap_setLevelMap _ _)⟩
  · rw [hlookups, htKfsViGet, hget, get_twoFlows, if_pos rfl]
    rfl
  · rw [hlookups, htKfsViGet, hget, get_twoFlows, if_neg skip_ne.symm, if_pos rfl]
    rfl

end CMTestbed
