import CMTestbed.Conditions

/-!
# No condition update is lost

Between rounds the switches hold, for each flow, what was last sent.  A round keeps this if every
change of a level comes where the round still sees it: before the plus phase has come to the flow,
before the minus phase has looked up a flow that is deleted, or after the level was copied.  Then
a round during which no level changes leaves the switches with the levels.

The invariant says for each phase what holds of one flow, depending on whether the cursor has
passed it; a packet that is due counts as sent, an entry to be copied as copied.
-/

namespace CMTestbed

/-! ## Passing a flow -/

section Next
variable {hashtable : HtKfsVi} {key f : FlowSrc} {value : UInt32}

theorem htKfsViGet_eq_neg_one (h : hashtable.get f = none) : htKfsViGet hashtable f = -1 := by
  rw [htKfsViGet, h]

theorem get_ne_none_of_htKfsViGet (h : htKfsViGet hashtable f ≠ -1) : hashtable.get f ≠ none :=
  fun hnone => h (htKfsViGet_eq_neg_one hnone)

@[simp] theorem get_htKfsViNext : (htKfsViNext hashtable).1.get f = hashtable.get f :=
  hashtable.get_next f

theorem htKfsViNext_some (h : (htKfsViNext hashtable).2 = some (key, value)) :
    htKfsViGet hashtable key = toInt value ∧ ¬ hashtable.Passed key
      ∧ (htKfsViNext hashtable).1.Passed key := by
  obtain ⟨hget, hnp, hbefore, -, -⟩ := Lib.Table.next_some h
  refine ⟨?_, hnp, (hbefore key).2 (.inr ⟨rfl, le_rfl⟩)⟩
  rw [htKfsViGet, hget]

theorem passed_htKfsViNext (h : (htKfsViNext hashtable).2 = some (key, value))
    (hf : hashtable.Passed f) : (htKfsViNext hashtable).1.Passed f :=
  (Lib.Table.next_some h).2.2.2.1 f hf

/-- The cursor passes the key returned, and beside it only what is absent. -/
theorem passed_of_htKfsViNext (h : (htKfsViNext hashtable).2 = some (key, value)) (hne : f ≠ key)
    (hf : (htKfsViNext hashtable).1.Passed f) :
    hashtable.Passed f ∨ htKfsViGet hashtable f = -1 := by
  by_cases hget : hashtable.get f = none
  · exact .inr (htKfsViGet_eq_neg_one hget)
  · have honly := (Lib.Table.next_some h).2.2.2.2 f hget hf
    exact .inl (honly.resolve_right fun hrank => hne (flowSrcKeying_rank.1 hrank))

theorem passed_of_htKfsViNext_none (h : (htKfsViNext hashtable).2 = none)
    (hf : htKfsViGet hashtable f ≠ -1) : hashtable.Passed f :=
  (Lib.Table.next_none h).1 f (get_ne_none_of_htKfsViGet hf)

theorem atReset_htKfsViNext (h : (htKfsViNext hashtable).2 = none) :
    (htKfsViNext hashtable).1.AtReset :=
  (Lib.Table.next_none h).2

end Next

/-! ## Updating a level -/

section Update
variable (setting : CmExperimentSetting) (map : HtKfsVi) (f : FlowSrc) (volume lossVolume : ℤ)
  (lossRate : ℚ)

/-- The levels are -1 for none, or positive. -/
theorem levelOf_cases : levelOf setting volume lossVolume lossRate = -1
    ∨ 0 < levelOf setting volume lossVolume lossRate := by
  unfold levelOf
  dsimp only
  split_ifs <;> decide

/-- An update deletes the flow or sets its new level. -/
theorem updateFlowSelectedLevelMap_cases :
    levelOf setting volume lossVolume lossRate = -1
      ∧ updateFlowSelectedLevelMap setting map f volume lossVolume lossRate = htKfsViDel map f
    ∨ levelOf setting volume lossVolume lossRate ≠ -1 ∧ ∃ value,
      updateFlowSelectedLevelMap setting map f volume lossVolume lossRate
        = htKfsViSet map f value := by
  unfold levelOf updateFlowSelectedLevelMap
  dsimp only
  split_ifs
  · exact .inr ⟨by decide, _, rfl⟩
  · exact .inr ⟨by decide, _, rfl⟩
  · exact .inl ⟨rfl, rfl⟩
  · exact .inl ⟨rfl, rfl⟩

/-- What an update of `f` to the level `newLevel` does to a table and its cursor. -/
structure Updated (map map' : HtKfsVi) (f : FlowSrc) (newLevel : ℤ) : Prop where
  get : ∀ g, htKfsViGet map' g = if g = f then newLevel else htKfsViGet map g
  passed : ∀ g, map.Passed g → map'.Passed g
  passed_only : map.get f = none ∨ ¬ (newLevel = -1 ∧ map.Skips f) →
    ∀ g, map'.Passed g → map.Passed g ∨ newLevel = -1 ∧ htKfsViGet map g = -1
  atReset : map.AtReset → map'.AtReset
  levelled : (∀ g, map.get g = none ∨ 0 < htKfsViGet map g) →
    ∀ g, map'.get g = none ∨ 0 < htKfsViGet map' g

theorem updated :
    Updated map (updateFlowSelectedLevelMap setting map f volume lossVolume lossRate) f
      (levelOf setting volume lossVolume lossRate) := by
  have hget := htKfsViGet_updateFlowSelectedLevelMap setting map f
  obtain ⟨hlevel, hdel⟩ | ⟨hlevel, value, hset⟩ := updateFlowSelectedLevelMap_cases
    setting map f volume lossVolume lossRate
  · refine ⟨fun g => hget g _ _ _, ?_, ?_, ?_, ?_⟩ <;> rw [hdel]
    · exact fun g hg => hg.del
    · intro hskip g hg
      rcases hskip with hnone | hskip
      · rw [htKfsViDel, Lib.Table.del_of_get_eq_none hnone] at hg
        exact .inl hg
      · exact (Lib.Table.passed_of_del (fun hs => hskip ⟨hlevel, hs⟩) hg).imp_right
          fun hnone => ⟨hlevel, htKfsViGet_eq_neg_one hnone⟩
    · exact fun hreset => hreset.del f
    · intro hlevelled g
      rw [htKfsViGet_del, htKfsViDel, get_del]
      split_ifs
      · exact .inl rfl
      · exact hlevelled g
  · refine ⟨fun g => hget g _ _ _, ?_, ?_, ?_, ?_⟩ <;> rw [hset]
    · exact fun g hg => (map.passed_set f g value).2 hg
    · exact fun _ g hg => .inl ((map.passed_set f g value).1 hg)
    · exact fun hreset => hreset.set f value
    · intro hlevelled g
      have hg := hget g volume lossVolume lossRate
      rw [hset] at hg
      rw [hg, htKfsViSet, get_set]
      split_ifs
      · exact .inr ((levelOf_cases setting volume lossVolume lossRate).resolve_left hlevel)
      · exact hlevelled g

end Update

namespace Conditions

/-! ## The invariant -/

section Flow
variable (s : Conditions) (f : FlowSrc)

def level : ℤ := htKfsViGet s.levelMap f
def lastSent : ℤ := htKfsViGet s.lastSentMap f
def switchLevel : ℤ := switchLevels s.sent f

end Flow

/-- One flow during the plus phase; `due` is what the switches hold after the packet that is due,
and `passed` says that the phase has come to the flow. -/
structure PlusOk (passed : Prop) (level lastSent switchLevel due : ℤ) : Prop where
  ahead : ¬ passed → switchLevel = lastSent
  behind : passed → level ≠ -1 → due = level
  absent : level = -1 → lastSent = -1 → due = -1

/-- One flow during the minus phase; `looked` says that the phase has looked it up. -/
structure MinusOk (looked : Prop) (level lastSent due : ℤ) : Prop where
  present : level ≠ -1 → due = level
  absent : level = -1 → lastSent = -1 ∨ looked → due = -1

/-- One flow during the copy; `copied` is what the copy has of it after the entry at hand. -/
structure CopyOk (passed : Prop) (level lastSent switchLevel copied : ℤ) : Prop where
  ahead : ¬ passed → lastSent = -1 ∧ switchLevel = level
  behind : passed → switchLevel = copied

variable (s : Conditions)

/-- What holds in each phase. -/
def Agrees : ConditionPhase → Prop
  | .waiting =>
    s.levelMap.AtReset ∧ s.lastSentMap.AtReset ∧ ∀ f, s.switchLevel f = s.lastSent f
  | .rotated => s.levelMap.AtReset ∧ ∀ f, s.switchLevel f = -1
  | .plusNext => s.lastSentMap.AtReset
    ∧ ∀ f, PlusOk (s.levelMap.Passed f) (s.level f) (s.lastSent f) (s.switchLevel f)
      (s.switchLevel f)
  | .plusGet key selectedLevel => s.lastSentMap.AtReset
    ∧ (s.levelMap.Passed key ∧ 0 < selectedLevel ∧ s.switchLevel key = s.lastSent key)
    ∧ ∀ f, PlusOk (s.levelMap.Passed f) (s.level f) (s.lastSent f) (s.switchLevel f)
      (if f = key then selectedLevel else s.switchLevel f)
  | .plusSend key selectedLevel => s.lastSentMap.AtReset
    ∧ (s.levelMap.Passed key ∧ 0 < selectedLevel)
    ∧ ∀ f, PlusOk (s.levelMap.Passed f) (s.level f) (s.lastSent f) (s.switchLevel f)
      (if f = key then selectedLevel else s.switchLevel f)
  | .minusNext => s.levelMap.AtReset
    ∧ ∀ f, MinusOk (s.lastSentMap.Passed f) (s.level f) (s.lastSent f) (s.switchLevel f)
  | .minusGet key => s.levelMap.AtReset
    ∧ ∀ f, MinusOk (s.lastSentMap.Passed f ∧ f ≠ key) (s.level f) (s.lastSent f)
      (s.switchLevel f)
  | .minusSend key => s.levelMap.AtReset
    ∧ ∀ f, MinusOk (s.lastSentMap.Passed f) (s.level f) (s.lastSent f)
      (if f = key then -1 else s.switchLevel f)
  | .recreate => s.levelMap.AtReset ∧ ∀ f, s.switchLevel f = s.level f
  | .copyNext => s.lastSentMap.AtReset
    ∧ ∀ f, CopyOk (s.levelMap.Passed f) (s.level f) (s.lastSent f) (s.switchLevel f)
      (s.lastSent f)
  | .copySet key value => s.lastSentMap.AtReset ∧ s.levelMap.Passed key
    ∧ ∀ f, CopyOk (s.levelMap.Passed f) (s.level f) (s.lastSent f) (s.switchLevel f)
      (if f = key then toInt value else s.lastSent f)

structure Inv (setting : CmExperimentSetting) : Prop where
  spare : s.phase ≠ .rotated → s.warehouse.unactive = Buffer.create setting
  levelled : ∀ f, s.levelMap.get f = none ∨ 0 < s.level f
  agrees : s.Agrees s.phase

/-- Past the packets of a round, and between the rounds, the switches hold the levels. -/
def Settled : ConditionPhase → Prop
  | .waiting | .rotated | .copyNext | .copySet _ _ => ∀ f, s.switchLevel f = s.level f
  | _ => True

/-! ## The sender's steps -/

section Fields
variable {s} (m : HtKfsVi) (p : ConditionPhase) (key f : FlowSrc) (n : ℤ)

@[simp] theorem level_goto : (s.goto p).level f = s.level f := rfl

@[simp] theorem lastSent_goto : (s.goto p).lastSent f = s.lastSent f := rfl

@[simp] theorem switchLevel_goto : (s.goto p).switchLevel f = s.switchLevel f := rfl

@[simp] theorem level_setLevelMap : (s.setLevelMap m).level f = htKfsViGet m f := by
  rw [level, levelMap_setLevelMap]

@[simp] theorem level_next : htKfsViGet (htKfsViNext s.levelMap).1 f = s.level f :=
  htKfsViGet_next _ _

@[simp] theorem lastSent_setLevelMap : (s.setLevelMap m).lastSent f = s.lastSent f := rfl

@[simp] theorem switchLevel_setLevelMap : (s.setLevelMap m).switchLevel f = s.switchLevel f := rfl

@[simp] theorem level_setLastSentMap : (s.setLastSentMap m).level f = s.level f := rfl

@[simp] theorem lastSent_setLastSentMap : (s.setLastSentMap m).lastSent f = htKfsViGet m f := rfl

@[simp] theorem lastSent_next : htKfsViGet (htKfsViNext s.lastSentMap).1 f = s.lastSent f :=
  htKfsViGet_next _ _

@[simp] theorem switchLevel_setLastSentMap :
    (s.setLastSentMap m).switchLevel f = s.switchLevel f := rfl

@[simp] theorem level_send : (s.send key n).level f = s.level f := by
  rw [level, levelMap_send, level]

@[simp] theorem lastSent_send : (s.send key n).lastSent f = s.lastSent f := rfl

@[simp] theorem switchLevel_send : (s.send key n).switchLevel f
    = if f = key then if noSelectedLevel < n then n else -1 else s.switchLevel f :=
  switchLevels_concat _ _ _ _

end Fields

section Advance
variable {s} {setting : CmExperimentSetting} {key : FlowSrc} {selectedLevel : ℤ} {value : UInt32}

theorem agrees_waiting (hp : s.phase = .waiting) (h : s.Agrees .waiting) :
    s.advance.Agrees s.advance.phase := by
  obtain ⟨hlevel, hlast, hswitch⟩ := h
  simp only [advance, hp]
  refine And.intro hlast fun f => ?_
  have hnot := Lib.Table.not_passed_of_atReset hlevel f
  exact ⟨fun _ => hswitch f, fun hpassed => absurd hpassed hnot, fun _ h => (hswitch f).trans h⟩

theorem agrees_plusNext (hp : s.phase = .plusNext) (hlevelled : ∀ f, s.levelMap.get f = none
    ∨ 0 < s.level f) (h : s.Agrees .plusNext) : s.advance.Agrees s.advance.phase := by
  obtain ⟨hlast, hplus⟩ := h
  rcases hn : (htKfsViNext s.levelMap).2 with _ | ⟨key, value⟩
  · simp only [advance, hp, hn]
    refine And.intro (by simpa using atReset_htKfsViNext hn) fun f => ?_
    simp only [level_goto, level_setLevelMap, level_next, switchLevel_goto, lastSent_goto,
      switchLevel_setLevelMap, lastSent_setLevelMap]
    refine ⟨fun hf => (hplus f).behind (passed_of_htKfsViNext_none hn hf) hf, fun hf hs => ?_⟩
    exact (hplus f).absent hf
      (hs.resolve_right (Lib.Table.not_passed_of_atReset hlast f))
  · obtain ⟨hget, hnp, hpassed⟩ := htKfsViNext_some hn
    have hkey : s.level key = toInt value := hget
    have hne : s.level key ≠ -1 := by
      rcases hlevelled key with hnone | hpos
      · obtain ⟨hsome, -⟩ := Lib.Table.next_some hn
        rw [hnone] at hsome
        cases hsome
      · omega
    have hpos : 0 < s.level key :=
      (hlevelled key).resolve_left (get_ne_none_of_htKfsViGet hne)
    simp only [advance, hp, hn]
    refine And.intro hlast (And.intro ⟨by simpa using hpassed, by omega, (hplus key).ahead hnp⟩
      fun f => ?_)
    simp only [level_goto, level_setLevelMap, level_next, switchLevel_goto, lastSent_goto,
      switchLevel_setLevelMap, lastSent_setLevelMap, levelMap_goto, levelMap_setLevelMap]
    by_cases hf : f = key
    · subst hf
      rw [if_pos rfl]
      exact ⟨fun h => absurd hpassed h, fun _ _ => hkey.symm, fun h => absurd h hne⟩
    · rw [if_neg hf]
      refine ⟨fun h => (hplus f).ahead fun h' => h (passed_htKfsViNext hn h'), fun h hf' => ?_,
        (hplus f).absent⟩
      exact (hplus f).behind ((passed_of_htKfsViNext hn hf h).resolve_right hf') hf'

theorem agrees_plusGet (hp : s.phase = .plusGet key selectedLevel)
    (h : s.Agrees (.plusGet key selectedLevel)) : s.advance.Agrees s.advance.phase := by
  obtain ⟨hlast, ⟨hpassed, hpos, hkey⟩, hplus⟩ := h
  by_cases heq : htKfsViGet s.lastSentMap key = selectedLevel
  · -- nothing is sent, as the switches hold the level already
    simp only [advance, hp, if_pos heq]
    refine And.intro hlast fun f => ?_
    have hf := hplus f
    have hdue : (if f = key then selectedLevel else s.switchLevel f) = s.switchLevel f := by
      split_ifs with hfk
      · rw [hfk, hkey, lastSent, heq]
      · rfl
    rwa [hdue] at hf
  · simp only [advance, hp, if_neg heq]
    exact And.intro hlast (And.intro ⟨hpassed, hpos⟩ hplus)

theorem agrees_plusSend (hp : s.phase = .plusSend key selectedLevel)
    (h : s.Agrees (.plusSend key selectedLevel)) : s.advance.Agrees s.advance.phase := by
  obtain ⟨hlast, ⟨hpassed, hpos⟩, hplus⟩ := h
  simp only [advance, hp]
  refine And.intro hlast fun f => ?_
  simp only [level_goto, level_send, switchLevel_goto, lastSent_goto, switchLevel_send,
    lastSent_send, levelMap_goto, levelMap_send]
  rw [if_pos (show noSelectedLevel < selectedLevel from hpos)]
  refine ⟨fun h => ?_, (hplus f).behind, (hplus f).absent⟩
  have hf : f ≠ key := by
    rintro rfl
    exact h hpassed
  rw [if_neg hf]
  exact (hplus f).ahead h

theorem agrees_minusNext (hp : s.phase = .minusNext) (h : s.Agrees .minusNext) :
    s.advance.Agrees s.advance.phase := by
  obtain ⟨hlevel, hminus⟩ := h
  rcases hn : (htKfsViNext s.lastSentMap).2 with _ | ⟨key, value⟩
  · simp only [advance, hp, hn]
    refine And.intro hlevel fun f => ?_
    simp only [level_goto, level_setLastSentMap, switchLevel_goto, switchLevel_setLastSentMap]
    by_cases hf : s.level f = -1
    · rw [hf]
      refine (hminus f).absent hf ?_
      by_cases hs : s.lastSent f = -1
      · exact .inl hs
      · exact .inr (passed_of_htKfsViNext_none hn hs)
    · exact (hminus f).present hf
  · simp only [advance, hp, hn]
    refine And.intro hlevel fun f => ?_
    simp only [level_goto, level_setLastSentMap, switchLevel_goto, switchLevel_setLastSentMap,
      lastSent_goto, lastSent_setLastSentMap, lastSent_next, lastSentMap_goto,
      lastSentMap_setLastSentMap]
    refine ⟨(hminus f).present, fun hf hs => (hminus f).absent hf ?_⟩
    rcases hs with hs | ⟨hs, hne⟩
    · exact .inl hs
    · exact (passed_of_htKfsViNext hn hne hs).symm

theorem agrees_minusGet (hp : s.phase = .minusGet key) (hlevelled : ∀ f, s.levelMap.get f = none
    ∨ 0 < s.level f) (h : s.Agrees (.minusGet key)) : s.advance.Agrees s.advance.phase := by
  obtain ⟨hlevel, hminus⟩ := h
  by_cases hpos : 0 < htKfsViGet s.levelMap key
  · simp only [advance, hp, if_pos hpos]
    refine And.intro hlevel fun f => ⟨(hminus f).present, fun hf hs => (hminus f).absent hf ?_⟩
    refine hs.imp_right fun hs => ⟨hs, ?_⟩
    rintro rfl
    rw [← level, show s.level f = -1 from hf] at hpos
    omega
  · have hnone : s.level key = -1 :=
      htKfsViGet_eq_neg_one ((hlevelled key).resolve_right hpos)
    simp only [advance, hp, if_neg hpos]
    refine And.intro hlevel fun f => ?_
    simp only [level_goto, switchLevel_goto, lastSent_goto, lastSentMap_goto]
    by_cases hf : f = key
    · subst hf
      rw [if_pos rfl]
      exact ⟨fun h => absurd hnone h, fun _ _ => rfl⟩
    · rw [if_neg hf]
      exact ⟨(hminus f).present, fun h hs => (hminus f).absent h (hs.imp_right fun h => ⟨h, hf⟩)⟩

theorem agrees_minusSend (hp : s.phase = .minusSend key) (h : s.Agrees (.minusSend key)) :
    s.advance.Agrees s.advance.phase := by
  obtain ⟨hlevel, hminus⟩ := h
  simp only [advance, hp]
  refine And.intro (by simpa using hlevel) fun f => ?_
  simp only [level_goto, level_send, switchLevel_goto, lastSent_goto, switchLevel_send,
    lastSent_send, lastSentMap_goto, lastSentMap_send, lt_irrefl, if_false]
  exact hminus f

theorem agrees_recreate (hp : s.phase = .recreate) (h : s.Agrees .recreate) :
    s.advance.Agrees s.advance.phase := by
  obtain ⟨hlevel, hswitch⟩ := h
  simp only [advance, hp]
  refine And.intro Lib.Table.atReset_create fun f => ?_
  have hnot := Lib.Table.not_passed_of_atReset hlevel f
  exact ⟨fun _ => ⟨htKfsViGet_create f, hswitch f⟩, fun h => absurd h hnot⟩

theorem agrees_copyNext (hp : s.phase = .copyNext) (h : s.Agrees .copyNext) :
    s.advance.Agrees s.advance.phase := by
  obtain ⟨hlast, hcopy⟩ := h
  rcases hn : (htKfsViNext s.levelMap).2 with _ | ⟨key, value⟩
  · simp only [advance, hp, hn]
    refine And.intro (by simpa using atReset_htKfsViNext hn) (And.intro hlast fun f => ?_)
    simp only [switchLevel_goto, lastSent_goto, switchLevel_setLevelMap, lastSent_setLevelMap]
    by_cases hf : s.levelMap.Passed f
    · exact (hcopy f).behind hf
    · obtain ⟨hs, hswitch⟩ := (hcopy f).ahead hf
      have hnone : s.level f = -1 :=
        by_contra fun h => hf (passed_of_htKfsViNext_none hn h)
      rw [hswitch, hnone, hs]
  · obtain ⟨hget, hnp, hpassed⟩ := htKfsViNext_some hn
    simp only [advance, hp, hn]
    refine And.intro hlast (And.intro (by simpa using hpassed) fun f => ?_)
    simp only [level_goto, level_setLevelMap, level_next, switchLevel_goto, lastSent_goto,
      switchLevel_setLevelMap, lastSent_setLevelMap, levelMap_goto, levelMap_setLevelMap]
    refine ⟨fun h => (hcopy f).ahead fun h' => h (passed_htKfsViNext hn h'), fun h => ?_⟩
    by_cases hf : f = key
    · rw [if_pos hf, hf, ((hcopy key).ahead hnp).2]
      exact hget
    · rw [if_neg hf]
      by_cases hpf : s.levelMap.Passed f
      · exact (hcopy f).behind hpf
      · obtain ⟨hs, hswitch⟩ := (hcopy f).ahead hpf
        have hnone : s.level f = -1 := (passed_of_htKfsViNext hn hf h).resolve_left hpf
        rw [hswitch, hnone, hs]

theorem agrees_copySet (hp : s.phase = .copySet key value) (h : s.Agrees (.copySet key value)) :
    s.advance.Agrees s.advance.phase := by
  obtain ⟨hlast, hpassed, hcopy⟩ := h
  simp only [advance, hp]
  refine And.intro (hlast.set key value) fun f => ?_
  simp only [level_goto, level_setLastSentMap, switchLevel_goto, lastSent_goto,
    switchLevel_setLastSentMap, lastSent_setLastSentMap, levelMap_goto, levelMap_setLastSentMap,
    htKfsViGet_set]
  refine ⟨fun h => ?_, (hcopy f).behind⟩
  have hf : f ≠ key := by
    rintro rfl
    exact h hpassed
  rw [if_neg hf]
  exact (hcopy f).ahead h

theorem agrees_advance (hlevelled : ∀ f, s.levelMap.get f = none ∨ 0 < s.level f)
    (h : s.Agrees s.phase) : s.advance.Agrees s.advance.phase := by
  cases hp : s.phase <;> rw [hp] at h
  case waiting => exact agrees_waiting hp h
  case rotated =>
    simp only [advance, hp]
    exact h
  case plusNext => exact agrees_plusNext hp hlevelled h
  case plusGet => exact agrees_plusGet hp h
  case plusSend => exact agrees_plusSend hp h
  case minusNext => exact agrees_minusNext hp h
  case minusGet => exact agrees_minusGet hp hlevelled h
  case minusSend => exact agrees_minusSend hp h
  case recreate => exact agrees_recreate hp h
  case copyNext => exact agrees_copyNext hp h
  case copySet => exact agrees_copySet hp h

/-- The sender changes no level, no buffer but the active one, and starts no rotation. -/
theorem advance_frame (s : Conditions) : (∀ f, s.advance.levelMap.get f = s.levelMap.get f)
    ∧ s.advance.warehouse.unactive = s.warehouse.unactive
    ∧ (s.advance.phase = .rotated → s.phase = .rotated) := by
  cases hp : s.phase
  case plusNext => rcases hn : (htKfsViNext s.levelMap).2 with _ | ⟨key, value⟩ <;>
    simp [advance, hp, hn]
  case copyNext => rcases hn : (htKfsViNext s.levelMap).2 with _ | ⟨key, value⟩ <;>
    simp [advance, hp, hn]
  case minusNext => rcases hn : (htKfsViNext s.lastSentMap).2 with _ | ⟨key, value⟩ <;>
    simp [advance, hp, hn]
  case plusGet => simp only [advance, hp]; split_ifs <;> simp
  case minusGet => simp only [advance, hp]; split_ifs <;> simp
  all_goals simp [advance, hp]

end Advance

/-! ## Updates -/

/-- A change of the flow's level in this phase is not lost: no round is running; the plus phase has
not come to the flow; the flow was last sent, is deleted, and the minus phase has not looked it up;
or its level has been copied.  And the deletion does not make the cursor skip another flow. -/
def SeesUpdate (s : Conditions) (pFlow : FlowSrc) (newLevel : ℤ) : ConditionPhase → Prop
  | .waiting | .rotated => True
  | .plusNext | .plusGet _ _ | .plusSend _ _ =>
    (¬ s.levelMap.Passed pFlow ∨ newLevel = -1 ∧ s.lastSent pFlow ≠ -1)
      ∧ ¬ (newLevel = -1 ∧ s.levelMap.Skips pFlow)
  | .minusNext | .minusSend _ =>
    newLevel = -1 ∧ s.lastSent pFlow ≠ -1 ∧ ¬ s.lastSentMap.Passed pFlow
  | .minusGet key =>
    newLevel = -1 ∧ s.lastSent pFlow ≠ -1 ∧ (s.lastSentMap.Passed pFlow → pFlow = key)
  | .recreate => False
  | .copyNext | .copySet _ _ =>
    s.levelMap.Passed pFlow ∧ ¬ (newLevel = -1 ∧ s.levelMap.Skips pFlow)

/-- An update changes no level, or its change is not lost. -/
def InTime (setting : CmExperimentSetting) (s : Conditions) : Event → Prop
  | .update pFlow volume lossVolume lossRate =>
    let newLevel := levelOf setting volume lossVolume lossRate
    newLevel = s.level pFlow ∨ s.SeesUpdate pFlow newLevel s.phase
  | _ => True

/-- More is passed, but what is new is absent. -/
theorem PlusOk.mono {passed passed' : Prop} {level lastSent switchLevel due : ℤ}
    (h : PlusOk passed level lastSent switchLevel due) (hp : passed → passed')
    (hp' : passed' → passed ∨ level = -1) : PlusOk passed' level lastSent switchLevel due where
  ahead := fun hn => h.ahead fun hpassed => hn (hp hpassed)
  behind := fun hpassed hne => h.behind ((hp' hpassed).resolve_right hne) hne
  absent := h.absent

theorem CopyOk.mono {passed passed' : Prop} {level lastSent switchLevel copied : ℤ}
    (h : CopyOk passed level lastSent switchLevel copied) (hp : passed → passed')
    (hp' : passed' → passed ∨ level = -1) (hcopied : ¬ passed → copied = lastSent) :
    CopyOk passed' level lastSent switchLevel copied where
  ahead := fun hn => h.ahead fun hpassed => hn (hp hpassed)
  behind := fun hpassed => by
    by_cases hbefore : passed
    · exact h.behind hbefore
    · obtain ⟨hs, hswitch⟩ := h.ahead hbefore
      rw [hcopied hbefore, hs, hswitch]
      exact (hp' hpassed).resolve_left hbefore

/-- What is due changes only for a flow that was passed. -/
theorem due_of_not_passed {t : HtKfsVi} {key g : FlowSrc} {due other : ℤ} (hkey : t.Passed key)
    (hg : ¬ t.Passed g) : (if g = key then due else other) = other := by
  refine if_neg ?_
  rintro rfl
  exact hg hkey

section Updates
variable {s} {f g : FlowSrc} {newLevel due copied : ℤ} {m : HtKfsVi}

/-- A flow keeps its level if it is not the updated one or the update changes nothing. -/
theorem get_updated (hm : Updated s.levelMap m f newLevel)
    (h : ¬ (g = f ∧ newLevel ≠ s.level f)) : htKfsViGet m g = s.level g := by
  rw [hm.get]
  split_ifs with hg
  · rw [hg]
    exact not_not.1 fun hne => h ⟨hg, hne⟩
  · rfl

/-- A deletion that changes no level is of an absent flow. -/
theorem get_eq_none_of_eq (hlevelled : ∀ f, s.levelMap.get f = none ∨ 0 < s.level f)
    (h : newLevel = s.level f) :
    s.levelMap.get f = none ∨ ¬ (newLevel = -1 ∧ s.levelMap.Skips f) := by
  refine (hlevelled f).imp_right fun hpos hdel => ?_
  omega

theorem plusOk_updated (hm : Updated s.levelMap m f newLevel)
    (hlevelled : ∀ f, s.levelMap.get f = none ∨ 0 < s.level f)
    (h : PlusOk (s.levelMap.Passed g) (s.level g) (s.lastSent g) (s.switchLevel g) due)
    (hdue : ¬ s.levelMap.Passed g → due = s.switchLevel g)
    (hok : newLevel = s.level f ∨ (¬ s.levelMap.Passed f ∨ newLevel = -1 ∧ s.lastSent f ≠ -1)
      ∧ ¬ (newLevel = -1 ∧ s.levelMap.Skips f)) :
    PlusOk (m.Passed g) (htKfsViGet m g) (s.lastSent g) (s.switchLevel g) due := by
  have honly := hm.passed_only (hok.elim (get_eq_none_of_eq hlevelled) fun h => .inr h.2) g
  by_cases hg : g = f ∧ newLevel ≠ s.level f
  · obtain ⟨rfl, hne⟩ := hg
    obtain ⟨hcase, -⟩ := hok.resolve_left hne
    rw [hm.get, if_pos rfl]
    refine ⟨fun hn => h.ahead fun hp => hn (hm.passed g hp), fun hp hset => ?_, fun hdel hs => ?_⟩
    · -- a level is set only before the phase comes to the flow
      have hbefore : ¬ s.levelMap.Passed g := hcase.resolve_right fun h => hset h.1
      exact absurd ((honly hp).resolve_left hbefore).1 hset
    · have hbefore : ¬ s.levelMap.Passed g := hcase.resolve_right fun h => h.2 hs
      rw [hdue hbefore, h.ahead hbefore, hs]
  · rw [get_updated hm hg]
    exact h.mono (hm.passed g) fun hp => (honly hp).imp_right And.right

theorem minusOk_updated (looked : FlowSrc → Prop) (hm : Updated s.levelMap m f newLevel)
    (h : MinusOk (looked g) (s.level g) (s.lastSent g) due)
    (hok : newLevel = s.level f ∨ newLevel = -1 ∧ s.lastSent f ≠ -1 ∧ ¬ looked f) :
    MinusOk (looked g) (htKfsViGet m g) (s.lastSent g) due := by
  by_cases hg : g = f ∧ newLevel ≠ s.level f
  · obtain ⟨rfl, hne⟩ := hg
    obtain ⟨hdel, hs, hlooked⟩ := hok.resolve_left hne
    rw [hm.get, if_pos rfl]
    exact ⟨fun hset => absurd hdel hset, fun _ hor => absurd hor (not_or.2 ⟨hs, hlooked⟩)⟩
  · rwa [get_updated hm hg]

theorem copyOk_updated (hm : Updated s.levelMap m f newLevel)
    (hlevelled : ∀ f, s.levelMap.get f = none ∨ 0 < s.level f)
    (h : CopyOk (s.levelMap.Passed g) (s.level g) (s.lastSent g) (s.switchLevel g) copied)
    (hcopied : ¬ s.levelMap.Passed g → copied = s.lastSent g)
    (hok : newLevel = s.level f
      ∨ s.levelMap.Passed f ∧ ¬ (newLevel = -1 ∧ s.levelMap.Skips f)) :
    CopyOk (m.Passed g) (htKfsViGet m g) (s.lastSent g) (s.switchLevel g) copied := by
  have honly := hm.passed_only (hok.elim (get_eq_none_of_eq hlevelled) fun h => .inr h.2) g
  by_cases hg : g = f ∧ newLevel ≠ s.level f
  · obtain ⟨rfl, hne⟩ := hg
    obtain ⟨hpassed, -⟩ := hok.resolve_left hne
    exact ⟨fun hn => absurd (hm.passed g hpassed) hn, fun _ => h.behind hpassed⟩
  · rw [get_updated hm hg]
    exact h.mono (hm.passed g) (fun hp => (honly hp).imp_right And.right) hcopied

/-- An update in time keeps what holds in the phase. -/
theorem agrees_updated (hm : Updated s.levelMap m f newLevel)
    (hlevelled : ∀ f, s.levelMap.get f = none ∨ 0 < s.level f) (h : s.Agrees s.phase)
    (hok : newLevel = s.level f ∨ s.SeesUpdate f newLevel s.phase) :
    (s.setLevelMap m).Agrees s.phase := by
  cases hp : s.phase <;> rw [hp] at h hok
  case waiting =>
    obtain ⟨hlevel, hlast, hswitch⟩ := h
    exact And.intro (by simpa using hm.atReset hlevel) ⟨hlast, hswitch⟩
  case rotated =>
    obtain ⟨hlevel, hswitch⟩ := h
    exact And.intro (by simpa using hm.atReset hlevel) hswitch
  case plusNext =>
    obtain ⟨hlast, hplus⟩ := h
    refine And.intro hlast fun g => ?_
    rw [levelMap_setLevelMap, level_setLevelMap, lastSent_setLevelMap, switchLevel_setLevelMap]
    exact plusOk_updated hm hlevelled (hplus g) (fun _ => rfl) hok
  case plusGet key selectedLevel =>
    obtain ⟨hlast, ⟨hkey, hrest⟩, hplus⟩ := h
    refine And.intro hlast (And.intro ⟨by simpa using hm.passed key hkey, hrest⟩ fun g => ?_)
    rw [levelMap_setLevelMap, level_setLevelMap, lastSent_setLevelMap, switchLevel_setLevelMap]
    exact plusOk_updated hm hlevelled (hplus g) (due_of_not_passed hkey) hok
  case plusSend key selectedLevel =>
    obtain ⟨hlast, ⟨hkey, hrest⟩, hplus⟩ := h
    refine And.intro hlast (And.intro ⟨by simpa using hm.passed key hkey, hrest⟩ fun g => ?_)
    rw [levelMap_setLevelMap, level_setLevelMap, lastSent_setLevelMap, switchLevel_setLevelMap]
    exact plusOk_updated hm hlevelled (hplus g) (due_of_not_passed hkey) hok
  case minusNext =>
    obtain ⟨hlevel, hminus⟩ := h
    refine And.intro (by simpa using hm.atReset hlevel) fun g => ?_
    rw [lastSentMap_setLevelMap, level_setLevelMap, lastSent_setLevelMap, switchLevel_setLevelMap]
    exact minusOk_updated s.lastSentMap.Passed hm (hminus g) hok
  case minusGet key =>
    obtain ⟨hlevel, hminus⟩ := h
    refine And.intro (by simpa using hm.atReset hlevel) fun g => ?_
    rw [lastSentMap_setLevelMap, level_setLevelMap, lastSent_setLevelMap, switchLevel_setLevelMap]
    refine minusOk_updated (fun g => s.lastSentMap.Passed g ∧ g ≠ key) hm (hminus g) ?_
    exact hok.imp_right fun ⟨hdel, hs, hkey⟩ => ⟨hdel, hs, fun hl => hl.2 (hkey hl.1)⟩
  case minusSend key =>
    obtain ⟨hlevel, hminus⟩ := h
    refine And.intro (by simpa using hm.atReset hlevel) fun g => ?_
    rw [lastSentMap_setLevelMap, level_setLevelMap, lastSent_setLevelMap, switchLevel_setLevelMap]
    exact minusOk_updated s.lastSentMap.Passed hm (hminus g) hok
  case recreate =>
    obtain ⟨hlevel, hswitch⟩ := h
    refine And.intro (by simpa using hm.atReset hlevel) fun g => ?_
    rw [level_setLevelMap, get_updated hm fun hg => hg.2 (hok.resolve_right id)]
    exact hswitch g
  case copyNext =>
    obtain ⟨hlast, hcopy⟩ := h
    refine And.intro hlast fun g => ?_
    rw [levelMap_setLevelMap, level_setLevelMap, lastSent_setLevelMap, switchLevel_setLevelMap]
    exact copyOk_updated hm hlevelled (hcopy g) (fun _ => rfl) hok
  case copySet key value =>
    obtain ⟨hlast, hkey, hcopy⟩ := h
    refine And.intro hlast (And.intro (by simpa using hm.passed key hkey) fun g => ?_)
    rw [levelMap_setLevelMap, level_setLevelMap, lastSent_setLevelMap, switchLevel_setLevelMap]
    exact copyOk_updated hm hlevelled (hcopy g) (due_of_not_passed hkey) hok

end Updates

/-! ## Runs -/

section Runs
variable {s} {s' : Conditions} {setting : CmExperimentSetting} {e : Event}

theorem inv_init (tasks : List Task) : (init setting tasks).Inv setting where
  spare := fun _ => rfl
  levelled := fun f => .inl (Lib.Table.get_create f)
  agrees := And.intro Lib.Table.atReset_create
    ⟨Lib.Table.atReset_create, fun f => (htKfsViGet_create f).symm⟩

/-- What a step can do. -/
theorem step_cases (hs : step setting s e = some s') :
    e = .advance ∧ s.phase ≠ .rotated ∧ s' = s.advance
    ∨ (∃ f volume lossVolume lossRate, e = .update f volume lossVolume lossRate
      ∧ s' = s.setLevelMap
        (updateFlowSelectedLevelMap setting s.levelMap f volume lossVolume lossRate))
    ∨ e = .rotate ∧ s.phase = .waiting
      ∧ s' = ⟨dataWareRotateBuffer s.warehouse, .rotated, []⟩
    ∨ e = .reset ∧ s.phase = .rotated
      ∧ s' = ⟨dataWarehouseResetNoactiveBuf setting s.warehouse, .waiting, s.sent⟩ := by
  cases e <;> simp only [step] at hs
  case update f volume lossVolume lossRate =>
    cases hs
    exact .inr (.inl ⟨f, volume, lossVolume, lossRate, rfl, rfl⟩)
  all_goals
    split_ifs at hs with hp
    cases hs
  · exact .inl ⟨rfl, hp, rfl⟩
  · exact .inr (.inr (.inl ⟨rfl, hp, rfl⟩))
  · exact .inr (.inr (.inr ⟨rfl, hp, rfl⟩))

theorem levelMap_rotate (hspare : s.warehouse.unactive = Buffer.create setting) :
    levelMap ⟨dataWareRotateBuffer s.warehouse, .rotated, []⟩ = htKfsViCreate := by
  rw [levelMap, DataWarehouse.active_rotate, hspare]
  rfl

theorem levelMap_reset :
    levelMap ⟨dataWarehouseResetNoactiveBuf setting s.warehouse, .waiting, s.sent⟩
      = s.levelMap := by
  rw [levelMap, DataWarehouse.active_reset, levelMap]

theorem inv_step (h : s.Inv setting) (hok : s.InTime setting e) (hs : step setting s e = some s') :
    s'.Inv setting := by
  obtain ⟨rfl, hp, rfl⟩ | ⟨f, volume, lossVolume, lossRate, rfl, rfl⟩ | ⟨rfl, hp, rfl⟩
    | ⟨rfl, hp, rfl⟩ := step_cases hs
  · obtain ⟨hget, hunactive, -⟩ := advance_frame s
    refine ⟨fun _ => ?_, fun f => ?_, agrees_advance h.levelled h.agrees⟩
    · rw [hunactive]
      exact h.spare hp
    · have hf := h.levelled f
      unfold level htKfsViGet at hf ⊢
      rwa [hget]
  · have hm := updated setting s.levelMap f volume lossVolume lossRate
    refine ⟨fun hp => ?_, fun g => ?_, agrees_updated hm h.levelled h.agrees hok⟩
    · rw [unactive_setLevelMap]
      exact h.spare hp
    · rw [levelMap_setLevelMap, level_setLevelMap]
      exact hm.levelled h.levelled g
  · have hempty := levelMap_rotate (h.spare (by rw [hp]; decide))
    refine ⟨fun h => absurd rfl h, fun f => ?_, And.intro ?_ fun _ => rfl⟩
    · rw [hempty]
      exact .inl (Lib.Table.get_create f)
    · rw [hempty]
      exact Lib.Table.atReset_create
  · have hagrees := h.agrees
    rw [hp] at hagrees
    obtain ⟨hlevel, hswitch⟩ := hagrees
    refine ⟨fun _ => DataWarehouse.unactive_reset _ _, fun f => ?_,
      And.intro ?_ (And.intro Lib.Table.atReset_create fun f => ?_)⟩
    · rw [level, levelMap_reset]
      exact h.levelled f
    · rw [levelMap_reset]
      exact hlevel
    · exact (hswitch f).trans (htKfsViGet_create f).symm

/-- The step changes no flow's level. -/
def KeepsLevels (setting : CmExperimentSetting) (s : Conditions) (e : Event) : Prop :=
  ∀ s', step setting s e = some s' → ∀ f, s'.level f = s.level f

theorem inTime_of_keepsLevels (h : s.KeepsLevels setting e) : s.InTime setting e := by
  cases e with
  | update f volume lossVolume lossRate =>
    left
    have hf := h _ rfl f
    rwa [level_setLevelMap, htKfsViGet_updateFlowSelectedLevelMap, if_pos rfl] at hf
  | advance => trivial
  | rotate => trivial
  | reset => trivial

theorem settled_advance (h : s.Agrees s.phase) (hset : s.Settled s.phase)
    (hlevel : ∀ f, s.advance.level f = s.level f) : s.advance.Settled s.advance.phase := by
  cases hp : s.phase <;> rw [hp] at h hset
  case rotated =>
    simp only [advance, hp]
    exact hset
  case plusNext =>
    rcases hn : (htKfsViNext s.levelMap).2 with _ | ⟨key, value⟩ <;> simp only [advance, hp, hn] <;>
      trivial
  case minusNext =>
    rcases hn : (htKfsViNext s.lastSentMap).2 with _ | ⟨key, value⟩ <;>
      simp only [advance, hp, hn] <;> trivial
  case plusGet =>
    simp only [advance, hp]
    split_ifs <;> trivial
  case minusGet =>
    simp only [advance, hp]
    split_ifs <;> trivial
  case recreate =>
    -- the last packet was sent
    simp only [advance, hp] at hlevel ⊢
    exact fun f => (h.2 f).trans (hlevel f).symm
  case copyNext =>
    rcases hn : (htKfsViNext s.levelMap).2 with _ | ⟨key, value⟩ <;>
      simp only [advance, hp, hn] at hlevel ⊢ <;> exact fun f => (hset f).trans (hlevel f).symm
  case copySet =>
    simp only [advance, hp] at hlevel ⊢
    exact fun f => (hset f).trans (hlevel f).symm
  all_goals
    simp only [advance, hp]
    trivial

/-- While no level changes, the switches hold the levels once they have the packets. -/
theorem settled_step (h : s.Inv setting) (hset : s.Settled s.phase)
    (hkeeps : s.KeepsLevels setting e) (hs : step setting s e = some s') :
    s'.Settled s'.phase := by
  have hlevel := hkeeps s' hs
  obtain ⟨rfl, hp, rfl⟩ | ⟨f, volume, lossVolume, lossRate, rfl, rfl⟩ | ⟨rfl, hp, rfl⟩
    | ⟨rfl, hp, rfl⟩ := step_cases hs
  · exact settled_advance h.agrees hset hlevel
  · rw [phase_setLevelMap]
    cases hp : s.phase <;> rw [hp] at hset <;>
      first | trivial | exact fun g => (hset g).trans (hlevel g).symm
  · have hempty := levelMap_rotate (h.spare (by rw [hp]; decide))
    intro f
    rw [level, hempty, htKfsViGet_create]
    rfl
  · rw [hp] at hset
    exact fun f => (hset f).trans (hlevel f).symm

/-- No update is lost: in a run whose updates all come in time, a full round during which no level
changes leaves the switches with the levels. -/
theorem no_update_lost (setting : CmExperimentSetting) (tasks : List Task)
    (changes round : List Event) (s₁ s₂ : Conditions)
    (hchanges : (system setting).run (init setting tasks) changes = some s₁)
    (hok : (system setting).Meets (InTime setting) (init setting tasks) changes)
    (hstart : s₁.phase = .waiting)
    (hround : (system setting).run s₁ (.advance :: round) = some s₂)
    (hkeeps : (system setting).Meets (KeepsLevels setting) s₁ (.advance :: round))
    (hend : s₂.phase = .waiting) (f : FlowSrc) :
    switchLevels s₂.sent f = htKfsViGet s₂.levelMap f := by
  have hinv : s₁.Inv setting := by
    have hstep : ∀ s e s', s.Inv setting → s.InTime setting e →
        (system setting).step s e = some s' → s'.Inv setting := fun _ _ _ => inv_step
    exact Lib.System.run_inv_of hstep (inv_init tasks) hok hchanges
  obtain ⟨s, hs, hrun⟩ := Lib.System.run_cons.1 hround
  obtain rfl : s₁.advance = s := by
    have hadvance : step setting s₁ .advance = some s := hs
    rw [step, if_neg (by rw [hstart]; decide)] at hadvance
    exact Option.some.inj hadvance
  have hfirst : s₁.advance.Inv setting ∧ s₁.advance.Settled s₁.advance.phase := by
    refine ⟨inv_step hinv (inTime_of_keepsLevels hkeeps.1) hs, ?_⟩
    simp only [advance, hstart]
    trivial
  have hstep : ∀ s e s', s.Inv setting ∧ s.Settled s.phase → s.KeepsLevels setting e →
      (system setting).step s e = some s' → s'.Inv setting ∧ s'.Settled s'.phase :=
    fun _ _ _ h hkeeps hs =>
      ⟨inv_step h.1 (inTime_of_keepsLevels hkeeps) hs, settled_step h.1 h.2 hkeeps hs⟩
  have hafter := Lib.System.run_inv_of hstep hfirst (hkeeps.2 _ hs) hrun
  have hset := hafter.2
  rw [hend] at hset
  exact hset f

end Runs

/-! ## A round with one flow -/

section OneFlow

def oneFlow : FlowSrc := ⟨1, 2⟩

/-- The table that has the flow as a target. -/
def oneTarget : HtKfsVi := htKfsViSet htKfsViCreate oneFlow (toUInt targetLevel)

theorem get_oneTarget (f : FlowSrc) :
    oneTarget.get f = if f = oneFlow then some (toUInt targetLevel) else none := by
  rw [oneTarget, htKfsViSet, get_set, htKfsViCreate, Lib.Table.get_create]

theorem next_create : htKfsViNext htKfsViCreate = (htKfsViCreate, none) := by
  have hnone : (htKfsViNext htKfsViCreate).2 = none :=
    Lib.Table.next_eq_none fun k hk => absurd (Lib.Table.get_create k) hk
  refine Prod.ext ?_ hnone
  exact (atReset_htKfsViNext hnone).eq_of_sameNodes Lib.Table.atReset_create
    (Lib.Table.sameNodes_next _)

theorem next_oneTarget : (htKfsViNext oneTarget).2 = some (oneFlow, toUInt targetLevel) := by
  have hreset : oneTarget.AtReset := Lib.Table.atReset_create.set _ _
  rcases hn : (htKfsViNext oneTarget).2 with _ | ⟨key, value⟩
  · obtain ⟨hall, -⟩ := Lib.Table.next_none hn
    exact absurd (hall oneFlow (by simp [get_oneTarget]))
      (Lib.Table.not_passed_of_atReset hreset _)
  · obtain ⟨hget, -⟩ := Lib.Table.next_some hn
    rw [get_oneTarget] at hget
    split_ifs at hget with hkey
    cases hget
    rw [hkey]

theorem next_next_oneTarget : htKfsViNext (htKfsViNext oneTarget).1 = (oneTarget, none) := by
  have hreset : oneTarget.AtReset := Lib.Table.atReset_create.set _ _
  have hnone : (htKfsViNext (htKfsViNext oneTarget).1).2 = none := by
    refine Lib.Table.next_eq_none fun k hk => ?_
    rw [get_htKfsViNext, get_oneTarget] at hk
    split_ifs at hk with hkey
    · rw [hkey]
      exact (htKfsViNext_some next_oneTarget).2.2
    · exact absurd rfl hk
  have hnodes : (htKfsViNext (htKfsViNext oneTarget).1).1.SameNodes oneTarget :=
    (Lib.Table.sameNodes_next _).trans (Lib.Table.sameNodes_next _)
  have heq := (atReset_htKfsViNext hnone).eq_of_sameNodes hreset hnodes
  exact Prod.ext heq hnone

theorem htKfsViGet_oneTarget : htKfsViGet oneTarget oneFlow = targetLevel := by decide +kernel

/-- The flow becomes a target. -/
def makeTarget : Event := .update oneFlow 100 40 (2 / 5)

theorem levelOf_makeTarget : levelOf exampleSetting 100 40 (2 / 5) = targetLevel := by
  decide +kernel

theorem step_makeTarget {s : Conditions} (h : s.levelMap = htKfsViCreate) :
    step exampleSetting s makeTarget = some (s.setLevelMap oneTarget) := by
  have hrate : exampleSetting.targetFlowSetting.volumeThreshold ≤ 100
      ∧ exampleSetting.targetFlowSetting.lossRateThreshold ≤ 2 / 5 := by decide +kernel
  have hloss : exampleSetting.targetFlowSetting.lossVolumeThreshold ≤ 40 := by decide
  rw [makeTarget, step, h]
  unfold updateFlowSelectedLevelMap
  dsimp only
  rw [if_pos hrate, if_pos hloss, oneTarget]

theorem run_advance {setting : CmExperimentSetting} : ∀ (n : ℕ) {s : Conditions},
    s.phase ≠ .rotated → (system setting).run s (List.replicate n .advance) = some (advance^[n] s)
  | 0, _, _ => rfl
  | n + 1, s, hp => by
    have hs : (system setting).step s .advance = some s.advance := if_neg hp
    rw [List.replicate_succ, Lib.System.run, hs, Option.bind_some,
      run_advance n (mt (advance_frame s).2.2 hp), Function.iterate_succ_apply]

/-- Where the sender is, with which maps and packets. -/
structure At (s : Conditions) (phase : ConditionPhase) (levelMap lastSentMap : HtKfsVi)
    (sent : List Condition) : Prop where
  phase : s.phase = phase
  levelMap : s.levelMap = levelMap
  lastSentMap : s.lastSentMap = lastSentMap
  sent : s.sent = sent

section At
variable {s : Conditions} {levelMap lastSentMap : HtKfsVi} {sent : List Condition}

/-- The copy. -/
theorem At.copy (h : s.At .recreate oneTarget lastSentMap sent) :
    At (advance^[4] s) .waiting oneTarget oneTarget sent := by
  obtain ⟨hp, hlevel, -, hsent⟩ := h
  change At s.advance.advance.advance.advance _ _ _ _
  constructor <;> simp [advance, hp, hlevel, hsent, next_oneTarget, next_next_oneTarget]
  rfl

/-- With no level at all, the plus phase is over at once. -/
theorem At.plusNext (h : s.At .plusNext htKfsViCreate lastSentMap sent) :
    s.advance.At .minusNext htKfsViCreate lastSentMap sent := by
  obtain ⟨hp, hlevel, hlast, hsent⟩ := h
  constructor <;> simp [advance, hp, hlevel, hlast, hsent, next_create]

/-- With no level sent, the minus phase is over at once. -/
theorem At.minusNext (h : s.At .minusNext levelMap htKfsViCreate sent) :
    s.advance.At .recreate levelMap htKfsViCreate sent := by
  obtain ⟨hp, hlevel, hlast, hsent⟩ := h
  constructor <;> simp [advance, hp, hlevel, hlast, hsent, next_create]

/-- The rest of a round that finds its flow too late. -/
theorem At.copyOnly (h : s.At .minusNext oneTarget htKfsViCreate sent) :
    At (advance^[5] s) .waiting oneTarget oneTarget sent :=
  h.minusNext.copy

/-- A round when no level was sent yet. -/
theorem At.first (h : s.At .plusNext oneTarget htKfsViCreate sent) :
    At (advance^[9] s) .waiting oneTarget oneTarget (sent ++ [⟨oneFlow, targetLevel⟩]) := by
  obtain ⟨hp, hlevel, hlast, hsent⟩ := h
  have hne : ¬ -1 = toInt (toUInt targetLevel) := by decide
  have hminus : At (advance^[4] s) .minusNext oneTarget htKfsViCreate
      (sent ++ [⟨oneFlow, toInt (toUInt targetLevel)⟩]) := by
    change At s.advance.advance.advance.advance _ _ _ _
    constructor <;>
      simp [advance, hp, hlevel, hlast, hsent, next_oneTarget, next_next_oneTarget, hne]
  exact hminus.copyOnly

/-- A round when the level was sent. -/
theorem At.round (h : s.At .waiting oneTarget oneTarget sent) :
    At (advance^[11] s) .waiting oneTarget oneTarget sent := by
  obtain ⟨hp, hlevel, hlast, hsent⟩ := h
  have hget : htKfsViGet oneTarget oneFlow = toInt (toUInt targetLevel) := by decide +kernel
  have hpos : 0 < toInt (toUInt targetLevel) := by decide
  have hrecreate : At (advance^[7] s) .recreate oneTarget oneTarget sent := by
    change At s.advance.advance.advance.advance.advance.advance.advance _ _ _ _
    constructor <;>
      simp [advance, hp, hlevel, hlast, hsent, next_oneTarget, next_next_oneTarget, hget, hpos]
  exact hrecreate.copy

theorem At.setLevelMap {phase : ConditionPhase} (h : s.At phase levelMap lastSentMap sent)
    (m : HtKfsVi) : (s.setLevelMap m).At phase m lastSentMap sent :=
  ⟨h.phase, levelMap_setLevelMap s m, h.lastSentMap, h.sent⟩

theorem At.run {phase : ConditionPhase} (h : s.At phase levelMap lastSentMap sent)
    (hp : phase ≠ .rotated) (n : ℕ) :
    (system exampleSetting).run s (List.replicate n .advance) = some (advance^[n] s) :=
  run_advance n (h.phase.symm ▸ hp)

end At

theorem at_start : At (advance^[1] (init exampleSetting [])) .plusNext htKfsViCreate
    htKfsViCreate [] := ⟨rfl, rfl, rfl, rfl⟩

/-- The flow becomes a target after `i` steps of the sender, which goes on for `n` steps. -/
def makeTargetAfter (i n : ℕ) : List Event :=
  List.replicate i .advance ++ makeTarget :: List.replicate n .advance

theorem run_makeTargetAfter {i n : ℕ} {phase : ConditionPhase}
    (h : At (advance^[i] (init exampleSetting [])) phase htKfsViCreate htKfsViCreate [])
    (hp : phase ≠ .rotated) :
    (system exampleSetting).run (init exampleSetting []) (makeTargetAfter i n)
      = some (advance^[n] ((advance^[i] (init exampleSetting [])).setLevelMap oneTarget)) := by
  refine Lib.System.run_append.2 ⟨_, run_advance i (by decide), ?_⟩
  refine Lib.System.run_cons.2 ⟨_, step_makeTarget h.levelMap, ?_⟩
  exact (h.setLevelMap oneTarget).run hp n

theorem keepsLevels_advance (s : Conditions) (setting : CmExperimentSetting) :
    s.KeepsLevels setting .advance := by
  intro s' hs f
  obtain ⟨-, -, rfl⟩ | ⟨_, _, _, _, h, -⟩ | ⟨h, -⟩ | ⟨h, -⟩ := step_cases hs
  · unfold level htKfsViGet
    rw [(advance_frame s).1 f]
  all_goals cases h

theorem meets_advance {ok : Conditions → Event → Prop} (h : ∀ s, ok s .advance) (n : ℕ)
    (s : Conditions) : (system exampleSetting).Meets ok s (List.replicate n .advance) := by
  refine Lib.System.meets_of_forall (fun e he s => ?_) s
  rw [List.eq_of_mem_replicate he]
  exact h s

/-- A flow that becomes a target before the plus phase has come to it is sent; the next round
changes nothing, and the switches have the level. -/
theorem no_update_lost_example : ∃ s₁ s₂,
    (system exampleSetting).run (init exampleSetting []) (makeTargetAfter 1 9) = some s₁
      ∧ (system exampleSetting).run s₁ (.advance :: List.replicate 10 .advance) = some s₂
      ∧ switchLevels s₂.sent oneFlow = targetLevel := by
  have hrun : (system exampleSetting).run (init exampleSetting []) (makeTargetAfter 1 9) = _ :=
    run_makeTargetAfter at_start (by decide)
  have hfirst := (at_start.setLevelMap oneTarget).first
  have hround := hfirst.run (by decide) 11
  refine ⟨_, _, hrun, hround, ?_⟩
  have hok : (system exampleSetting).Meets (InTime exampleSetting) (init exampleSetting [])
      (makeTargetAfter 1 9) := by
    refine ⟨trivial, fun s hs => ⟨.inr ?_, fun _ _ => meets_advance (fun _ => trivial) 9 _⟩⟩
    cases hs
    rw [levelOf_makeTarget]
    refine And.intro (.inl (Lib.Table.not_passed_of_atReset ?_ _)) fun h => absurd h.1 (by decide)
    exact Lib.Table.atReset_create
  have hkeeps := meets_advance (fun s => keepsLevels_advance s exampleSetting) 11
  rw [no_update_lost exampleSetting [] _ _ _ _ hrun hok hfirst.phase hround (hkeeps _)
    hfirst.round.phase, hfirst.round.levelMap, htKfsViGet_oneTarget]

/-- An update between the plus phase and the copy is lost: the copy has the level that no packet
was sent for, and the next round sends nothing. -/
theorem update_lost : ∃ s₁ s₂,
    (system exampleSetting).run (init exampleSetting []) (makeTargetAfter 2 5) = some s₁
      ∧ s₁.phase = .waiting
      ∧ (system exampleSetting).run s₁ (List.replicate 11 .advance) = some s₂
      ∧ s₂.phase = .waiting
      ∧ htKfsViGet s₂.levelMap oneFlow = targetLevel ∧ switchLevels s₂.sent oneFlow = -1 := by
  have hplus : At (advance^[2] (init exampleSetting [])) .minusNext htKfsViCreate htKfsViCreate
      [] := by
    rw [Function.iterate_succ_apply']
    exact at_start.plusNext
  have hcopy := (hplus.setLevelMap oneTarget).copyOnly
  have hround := hcopy.round
  refine ⟨_, _, run_makeTargetAfter hplus (by decide), hcopy.phase,
    hcopy.run (by decide) 11, hround.phase, ?_, ?_⟩
  · rw [hround.levelMap, htKfsViGet_oneTarget]
  · rw [hround.sent]
    rfl

end OneFlow

end Conditions

end CMTestbed
