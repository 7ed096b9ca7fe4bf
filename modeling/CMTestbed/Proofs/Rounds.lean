import CMTestbed.Proofs.Conditions
import Mathlib.Data.Prod.Lex

/-!
# A round sends exactly the difference

When no level changes during rounds, a round sends for each flow what `difference` says and nothing
else: the plus phase has sent its part for the flows its cursor has passed, the minus phase for
those it has looked up.  A round left alone ends, since each pass has only so many keys to return.
-/

namespace CMTestbed.Conditions

/-! ## What a round sends -/

/-- The packets for `f` that take a switch from what was last sent to the level. -/
def difference (f : FlowSrc) (level lastSent : ℤ) : List Condition :=
  if level = -1 then if lastSent = -1 then [] else [⟨f, noSelectedLevel⟩]
  else if level = lastSent then [] else [⟨f, level⟩]

/-- The packets for `f` among some. -/
def sentFor (f : FlowSrc) (conditions : List Condition) : List Condition :=
  conditions.filter fun condition => decide (condition.flow = f)

/-- The levels change only when no round is running. -/
def BetweenRounds (setting : CmExperimentSetting) (s : Conditions) (e : Event) : Prop :=
  s.phase = .waiting ∨ s.phase = .rotated ∨ s.KeepsLevels setting e

/-- A round, during which no level changes. -/
structure Round (setting : CmExperimentSetting) (s₁ : Conditions) (es : List Event)
    (s₂ : Conditions) : Prop where
  start : s₁.phase = .waiting
  run : (system setting).run s₁ (.advance :: es) = some s₂
  during : (system setting).Meets (fun s e => s.phase ≠ .waiting ∧ s.KeepsLevels setting e)
    s₁.advance es
  finish : s₂.phase = .waiting

/-! ## Progress -/

/-- The plus phase's part of the difference. -/
def plusPart (f : FlowSrc) (level lastSent : ℤ) : List Condition :=
  if level = -1 then [] else difference f level lastSent

/-- A part of the difference is sent when it is done and not before. -/
structure Part (done : Prop) (sent before after : List Condition) : Prop where
  before : ¬ done → sent = before
  after : done → sent = after

/-- What `conditions`, sent since the round began with the levels `L` and the last sent `S`, are in
each phase. -/
def Progress (L S : FlowSrc → ℤ) (conditions : List Condition) (s : Conditions) :
    ConditionPhase → Prop
  | .waiting | .recreate | .copyNext | .copySet _ _ =>
    ∀ f, sentFor f conditions = difference f (L f) (S f)
  | .rotated => False
  | .plusNext => (∀ f, s.lastSent f = S f)
    ∧ ∀ f, Part (s.levelMap.Passed f) (sentFor f conditions) [] (plusPart f (L f) (S f))
  | .plusGet key selectedLevel => (∀ f, s.lastSent f = S f) ∧ selectedLevel = L key
    ∧ ∀ f, Part (s.levelMap.Passed f ∧ f ≠ key) (sentFor f conditions) []
      (plusPart f (L f) (S f))
  | .plusSend key selectedLevel => (∀ f, s.lastSent f = S f)
    ∧ (selectedLevel = L key ∧ L key ≠ S key)
    ∧ ∀ f, Part (s.levelMap.Passed f ∧ f ≠ key) (sentFor f conditions) []
      (plusPart f (L f) (S f))
  | .minusNext => (∀ f, s.lastSent f = S f)
    ∧ ∀ f, Part (s.lastSentMap.Passed f) (sentFor f conditions) (plusPart f (L f) (S f))
      (difference f (L f) (S f))
  | .minusGet key => (∀ f, s.lastSent f = S f) ∧ (S key ≠ -1 ∧ s.lastSentMap.Passed key)
    ∧ ∀ f, Part (s.lastSentMap.Passed f ∧ f ≠ key) (sentFor f conditions)
      (plusPart f (L f) (S f)) (difference f (L f) (S f))
  | .minusSend key => (∀ f, s.lastSent f = S f)
    ∧ (S key ≠ -1 ∧ s.lastSentMap.Passed key ∧ L key = -1)
    ∧ ∀ f, Part (s.lastSentMap.Passed f ∧ f ≠ key) (sentFor f conditions)
      (plusPart f (L f) (S f)) (difference f (L f) (S f))

/-- What was last sent are levels. -/
structure LastLevelled (s : Conditions) : Prop where
  lastSent : ∀ f, s.lastSentMap.get f = none ∨ 0 < s.lastSent f
  copied : ∀ key value, s.phase = .copySet key value → 0 < toInt value

section Parts
variable {f key : FlowSrc} {level lastSent n : ℤ} {conditions : List Condition}

theorem sentFor_concat : sentFor f (conditions ++ [⟨key, n⟩])
    = if f = key then sentFor f conditions ++ [⟨key, n⟩] else sentFor f conditions := by
  unfold sentFor
  rw [List.filter_append, List.filter_singleton]
  by_cases h : key = f
  · simp [h]
  · simp [h, Ne.symm h]

theorem plusPart_absent : plusPart f (-1) lastSent = [] := if_pos rfl

theorem plusPart_same : plusPart f level level = [] := by
  unfold plusPart difference
  simp

theorem plusPart_changed (h : level ≠ -1) (hne : level ≠ lastSent) :
    plusPart f level lastSent = [⟨f, level⟩] := by
  rw [plusPart, if_neg h, difference, if_neg h, if_neg hne]

theorem difference_present (h : level ≠ -1) :
    difference f level lastSent = plusPart f level lastSent := by
  rw [plusPart, if_neg h]

theorem difference_absent : difference f level (-1) = plusPart f level (-1) := by
  unfold plusPart difference
  simp

theorem difference_deleted (h : lastSent ≠ -1) :
    difference f (-1) lastSent = [⟨f, noSelectedLevel⟩] := by
  rw [difference, if_pos rfl, if_neg h]

/-- More is done, but what is new has nothing to send. -/
theorem Part.mono {done done' : Prop} {sent before after : List Condition}
    (h : Part done sent before after) (hdone : done → done')
    (hdone' : done' → done ∨ before = after) : Part done' sent before after where
  before := fun hn => h.before fun hd => hn (hdone hd)
  after := fun hd' => by
    by_cases hd : done
    · exact h.after hd
    · rw [h.before hd]
      exact (hdone' hd').resolve_left hd

end Parts

/-! ## The sender's steps -/

section Advance
variable {setting : CmExperimentSetting} {s : Conditions} {L S : FlowSrc → ℤ}
  {conditions : List Condition} {key : FlowSrc} {selectedLevel : ℤ}

/-- The sender's next step keeps track of what is sent. -/
def Tracks (L S : FlowSrc → ℤ) (conditions : List Condition) (s : Conditions) : Prop :=
  ∃ pkts, s.advance.sent = s.sent ++ pkts
    ∧ Progress L S (conditions ++ pkts) s.advance s.advance.phase

/-- A step that sends nothing. -/
theorem Tracks.quiet (hsent : s.advance.sent = s.sent)
    (h : Progress L S conditions s.advance s.advance.phase) : Tracks L S conditions s :=
  ⟨[], by rw [hsent, List.append_nil], by rwa [List.append_nil]⟩

theorem progress_waiting (hp : s.phase = .waiting) (h : s.Agrees .waiting)
    (hS : ∀ f, s.lastSent f = S f) : Progress L S [] s.advance s.advance.phase := by
  simp only [advance, hp]
  refine And.intro hS fun f => ⟨fun _ => rfl, fun hpassed => ?_⟩
  exact absurd hpassed (Lib.Table.not_passed_of_atReset h.1 f)

theorem tracks_plusNext (hp : s.phase = .plusNext) (h : s.Agrees .plusNext)
    (hL : ∀ f, s.level f = L f) (hs : Progress L S conditions s .plusNext) :
    Tracks L S conditions s := by
  obtain ⟨hS, hpart⟩ := hs
  rcases hn : (htKfsViNext s.levelMap).2 with _ | ⟨key, value⟩
  · refine .quiet (by simp [advance, hp, hn]) ?_
    simp only [advance, hp, hn]
    refine And.intro hS fun f => ⟨fun _ => ?_, fun hpassed => ?_⟩
    · by_cases hf : s.levelMap.Passed f
      · exact (hpart f).after hf
      · have hnone : s.level f = -1 :=
          by_contra fun h => hf (passed_of_htKfsViNext_none hn h)
        rw [(hpart f).before hf, ← hL, hnone, plusPart_absent]
    · exact absurd hpassed (Lib.Table.not_passed_of_atReset h.1 f)
  · obtain ⟨hget, hnp, -⟩ := htKfsViNext_some hn
    refine .quiet (by simp [advance, hp, hn]) ?_
    simp only [advance, hp, hn]
    refine And.intro hS (And.intro (hget.symm.trans (hL key)) fun f => ?_)
    rw [levelMap_goto, levelMap_setLevelMap]
    by_cases hf : f = key
    · subst hf
      exact ⟨fun _ => (hpart f).before hnp, fun hdone => absurd rfl hdone.2⟩
    · refine (hpart f).mono (fun hd => ⟨passed_htKfsViNext hn hd, hf⟩) fun hd => ?_
      refine (passed_of_htKfsViNext hn hf hd.1).imp_right fun hnone => ?_
      rw [← hL, show s.level f = -1 from hnone, plusPart_absent]

theorem tracks_plusGet (hp : s.phase = .plusGet key selectedLevel)
    (hs : Progress L S conditions s (.plusGet key selectedLevel)) : Tracks L S conditions s := by
  obtain ⟨hS, hkey, hpart⟩ := hs
  by_cases heq : htKfsViGet s.lastSentMap key = selectedLevel
  · refine .quiet (by simp [advance, hp, heq]) ?_
    simp only [advance, hp, if_pos heq]
    refine And.intro hS fun f => (hpart f).mono And.left fun hd => ?_
    by_cases hf : f = key
    · right
      rw [hf, ← hS, ← hkey, ← heq, lastSent, plusPart_same]
    · exact .inl ⟨hd, hf⟩
  · refine .quiet (by simp [advance, hp, heq]) ?_
    simp only [advance, hp, if_neg heq]
    refine And.intro hS (And.intro ⟨hkey, fun h => heq ?_⟩ hpart)
    rw [hkey, h]
    exact hS key

theorem tracks_plusSend (hp : s.phase = .plusSend key selectedLevel)
    (h : s.Agrees (.plusSend key selectedLevel))
    (hs : Progress L S conditions s (.plusSend key selectedLevel)) : Tracks L S conditions s := by
  obtain ⟨hS, ⟨hkey, hne⟩, hpart⟩ := hs
  obtain ⟨-, ⟨hpassed, hpos⟩, -⟩ := h
  refine ⟨[⟨key, selectedLevel⟩], by simp [advance, hp], ?_⟩
  simp only [advance, hp]
  refine And.intro hS fun f => ?_
  rw [sentFor_concat, levelMap_goto, levelMap_send]
  by_cases hf : f = key
  · subst hf
    rw [if_pos rfl, (hpart f).before fun hd => hd.2 rfl, List.nil_append, hkey,
      plusPart_changed (by omega) hne]
    exact ⟨fun hn => absurd hpassed hn, fun _ => rfl⟩
  · rw [if_neg hf]
    exact (hpart f).mono And.left fun hd => .inl ⟨hd, hf⟩

theorem tracks_minusNext (hp : s.phase = .minusNext) (hlast : s.LastLevelled)
    (hs : Progress L S conditions s .minusNext) : Tracks L S conditions s := by
  obtain ⟨hS, hpart⟩ := hs
  rcases hn : (htKfsViNext s.lastSentMap).2 with _ | ⟨key, value⟩
  · refine .quiet (by simp [advance, hp, hn]) ?_
    simp only [advance, hp, hn]
    intro f
    by_cases hf : s.lastSentMap.Passed f
    · exact (hpart f).after hf
    · have hnone : s.lastSent f = -1 :=
        by_contra fun h => hf (passed_of_htKfsViNext_none hn h)
      rw [(hpart f).before hf, ← hS, hnone, difference_absent]
  · obtain ⟨-, hnp, hpassed⟩ := htKfsViNext_some hn
    have hpos : 0 < s.lastSent key := by
      refine (hlast.lastSent key).resolve_left fun hnone => ?_
      obtain ⟨hsome, -⟩ := Lib.Table.next_some hn
      rw [hnone] at hsome
      cases hsome
    have hkey : S key ≠ -1 := by
      rw [← hS]
      omega
    refine .quiet (by simp [advance, hp, hn]) ?_
    simp only [advance, hp, hn]
    refine And.intro (fun f => (lastSent_next f).trans (hS f))
      (And.intro ⟨hkey, hpassed⟩ fun f => ?_)
    rw [lastSentMap_goto, lastSentMap_setLastSentMap]
    by_cases hf : f = key
    · subst hf
      exact ⟨fun _ => (hpart f).before hnp, fun hdone => absurd rfl hdone.2⟩
    · refine (hpart f).mono (fun hd => ⟨passed_htKfsViNext hn hd, hf⟩) fun hd => ?_
      refine (passed_of_htKfsViNext hn hf hd.1).imp_right fun hnone => ?_
      rw [← hS, show s.lastSent f = -1 from hnone, difference_absent]

theorem tracks_minusGet (hp : s.phase = .minusGet key) (h : s.Inv setting)
    (hL : ∀ f, s.level f = L f) (hs : Progress L S conditions s (.minusGet key)) :
    Tracks L S conditions s := by
  obtain ⟨hS, ⟨hkey, hpassed⟩, hpart⟩ := hs
  by_cases hpos : 0 < htKfsViGet s.levelMap key
  · refine .quiet (by simp [advance, hp, hpos]) ?_
    simp only [advance, hp, if_pos hpos]
    refine And.intro hS fun f => (hpart f).mono And.left fun hd => ?_
    by_cases hf : f = key
    · right
      have hne : L f ≠ -1 := by
        rw [hf, ← hL, level]
        omega
      rw [difference_present hne]
    · exact .inl ⟨hd, hf⟩
  · have hnone : s.level key = -1 :=
      htKfsViGet_eq_neg_one ((h.levelled key).resolve_right hpos)
    refine .quiet (by simp [advance, hp, hpos]) ?_
    simp only [advance, hp, if_neg hpos]
    exact And.intro hS (And.intro ⟨hkey, hpassed, (hL key).symm.trans hnone⟩ hpart)

theorem tracks_minusSend (hp : s.phase = .minusSend key)
    (hs : Progress L S conditions s (.minusSend key)) : Tracks L S conditions s := by
  obtain ⟨hS, ⟨hkey, hpassed, hnone⟩, hpart⟩ := hs
  refine ⟨[⟨key, noSelectedLevel⟩], by simp [advance, hp], ?_⟩
  simp only [advance, hp]
  refine And.intro hS fun f => ?_
  rw [sentFor_concat, lastSentMap_goto, lastSentMap_send]
  by_cases hf : f = key
  · subst hf
    rw [if_pos rfl, (hpart f).before fun hd => hd.2 rfl, hnone, plusPart_absent, List.nil_append,
      difference_deleted hkey]
    exact ⟨fun hn => absurd hpassed hn, fun _ => rfl⟩
  · rw [if_neg hf]
    exact (hpart f).mono And.left fun hd => .inl ⟨hd, hf⟩

theorem tracks_advance (h : s.Inv setting) (hlast : s.LastLevelled) (hL : ∀ f, s.level f = L f)
    (hwaiting : s.phase ≠ .waiting) (hs : Progress L S conditions s s.phase) :
    Tracks L S conditions s := by
  have hagrees := h.agrees
  cases hp : s.phase <;> rw [hp] at hs hagrees
  case waiting => exact absurd hp hwaiting
  case rotated => exact hs.elim
  case plusNext => exact tracks_plusNext hp hagrees hL hs
  case plusGet => exact tracks_plusGet hp hs
  case plusSend => exact tracks_plusSend hp hagrees hs
  case minusNext => exact tracks_minusNext hp hlast hs
  case minusGet => exact tracks_minusGet hp h hL hs
  case minusSend => exact tracks_minusSend hp hs
  case recreate =>
    refine .quiet (by simp [advance, hp]) ?_
    simp only [advance, hp]
    exact hs
  case copyNext =>
    rcases hn : (htKfsViNext s.levelMap).2 with _ | ⟨key, value⟩ <;>
      refine .quiet (by simp [advance, hp, hn]) ?_ <;> simp only [advance, hp, hn] <;> exact hs
  case copySet =>
    refine .quiet (by simp [advance, hp]) ?_
    simp only [advance, hp]
    exact hs

end Advance

/-! ## The other steps -/

section Steps
variable {setting : CmExperimentSetting} {s s' : Conditions} {e : Event} {L S : FlowSrc → ℤ}
  {conditions : List Condition} {f : FlowSrc} {newLevel : ℤ} {m : HtKfsVi}

/-- An update that changes no level takes nothing out of a phase. -/
theorem progress_updated (hm : Updated s.levelMap m f newLevel)
    (hlevelled : ∀ f, s.levelMap.get f = none ∨ 0 < s.level f) (heq : newLevel = s.level f)
    (hL : ∀ f, s.level f = L f) (hs : Progress L S conditions s s.phase) :
    Progress L S conditions (s.setLevelMap m) s.phase := by
  have hnew : ∀ g, m.Passed g → s.levelMap.Passed g ∨ [] = plusPart g (L g) (S g) := fun g hg => by
    refine (hm.passed_only (get_eq_none_of_eq hlevelled heq) g hg).imp_right fun hnone => ?_
    rw [← hL, show s.level g = -1 from hnone.2, plusPart_absent]
  cases hp : s.phase <;> rw [hp] at hs
  case plusNext =>
    refine And.intro hs.1 fun g => ?_
    rw [levelMap_setLevelMap]
    exact (hs.2 g).mono (hm.passed g) (hnew g)
  case plusGet key selectedLevel =>
    refine And.intro hs.1 (And.intro hs.2.1 fun g => ?_)
    rw [levelMap_setLevelMap]
    exact (hs.2.2 g).mono (fun hd => ⟨hm.passed g hd.1, hd.2⟩)
      fun hd => (hnew g hd.1).imp_left fun hg => ⟨hg, hd.2⟩
  case plusSend key selectedLevel =>
    refine And.intro hs.1 (And.intro hs.2.1 fun g => ?_)
    rw [levelMap_setLevelMap]
    exact (hs.2.2 g).mono (fun hd => ⟨hm.passed g hd.1, hd.2⟩)
      fun hd => (hnew g hd.1).imp_left fun hg => ⟨hg, hd.2⟩
  all_goals exact hs

theorem lastLevelled_advance (hlevelled : ∀ f, s.levelMap.get f = none ∨ 0 < s.level f)
    (h : s.LastLevelled) : s.advance.LastLevelled := by
  cases hp : s.phase
  case minusNext =>
    have hlast := h.lastSent
    unfold lastSent at hlast
    rcases hn : (htKfsViNext s.lastSentMap).2 with _ | ⟨key, value⟩ <;>
      refine ⟨fun f => ?_, by simp [advance, hp, hn]⟩ <;>
      simpa [advance, hp, hn, lastSent] using hlast f
  case plusNext =>
    rcases hn : (htKfsViNext s.levelMap).2 with _ | ⟨key, value⟩ <;>
      refine ⟨fun f => ?_, by simp [advance, hp, hn]⟩ <;> simpa [advance, hp, hn] using h.lastSent f
  case copyNext =>
    rcases hn : (htKfsViNext s.levelMap).2 with _ | ⟨key, value⟩
    · exact ⟨fun f => by simpa [advance, hp, hn] using h.lastSent f, by simp [advance, hp, hn]⟩
    · refine ⟨fun f => by simpa [advance, hp, hn] using h.lastSent f, ?_⟩
      have hpos : 0 < s.level key := by
        refine (hlevelled key).resolve_left fun hnone => ?_
        obtain ⟨hsome, -⟩ := Lib.Table.next_some hn
        rw [hnone] at hsome
        cases hsome
      have hget : s.level key = toInt value := (htKfsViNext_some hn).1
      simp only [advance, hp, hn, phase_goto, ConditionPhase.copySet.injEq]
      rintro _ _ ⟨rfl, rfl⟩
      omega
  case copySet key value =>
    have hpos := h.copied key value hp
    refine ⟨fun f => ?_, by simp [advance, hp]⟩
    have hf := h.lastSent f
    simp only [advance, hp, lastSentMap_goto, lastSentMap_setLastSentMap, lastSent_goto,
      lastSent_setLastSentMap]
    rw [htKfsViGet_set, htKfsViSet, get_set]
    split_ifs
    · exact .inr hpos
    · exact hf
  case recreate =>
    refine ⟨fun f => .inl ?_, by simp [advance, hp]⟩
    simp only [advance, hp]
    exact Lib.Table.get_create f
  case plusGet key selectedLevel =>
    refine ⟨fun f => ?_, ?_⟩ <;> simp only [advance, hp] <;> split_ifs
    · exact h.lastSent f
    · exact h.lastSent f
    · simp
    · simp
  case minusGet key =>
    refine ⟨fun f => ?_, ?_⟩ <;> simp only [advance, hp] <;> split_ifs
    · exact h.lastSent f
    · exact h.lastSent f
    · simp
    · simp
  all_goals exact ⟨fun f => by simpa [advance, hp] using h.lastSent f, by simp [advance, hp]⟩

theorem lastLevelled_step (h : s.Inv setting) (hlast : s.LastLevelled)
    (hs : step setting s e = some s') : s'.LastLevelled := by
  obtain ⟨-, -, rfl⟩ | ⟨f, volume, lossVolume, lossRate, -, rfl⟩ | ⟨-, hp, rfl⟩
    | ⟨-, hp, rfl⟩ := step_cases hs
  · exact lastLevelled_advance h.levelled hlast
  · exact ⟨hlast.lastSent, hlast.copied⟩
  · exact ⟨hlast.lastSent, fun _ _ h => by cases h⟩
  · exact ⟨fun f => .inl (Lib.Table.get_create f), fun _ _ h => by cases h⟩

theorem lastLevelled_init (tasks : List Task) : (init setting tasks).LastLevelled :=
  ⟨fun f => .inl (Lib.Table.get_create f), fun _ _ h => by cases h⟩

theorem inTime_of_betweenRounds (h : s.BetweenRounds setting e) : s.InTime setting e := by
  rcases h with h | h | h
  · cases e <;> try trivial
    refine .inr ?_
    rw [h]
    trivial
  · cases e <;> try trivial
    refine .inr ?_
    rw [h]
    trivial
  · exact inTime_of_keepsLevels h

end Steps

/-! ## Whole rounds -/

section Runs
variable {setting : CmExperimentSetting} {s s' s₁ s₂ : Conditions} {e : Event}

/-- A state of a round that began in `s₁`. -/
structure During (setting : CmExperimentSetting) (s₁ s : Conditions) : Prop where
  inv : s.Inv setting
  lastLevelled : s.LastLevelled
  settled : s.Settled s.phase
  level : ∀ f, s.level f = s₁.level f
  progress : ∃ pkts, s.sent = s₁.sent ++ pkts ∧ Progress s₁.level s₁.lastSent pkts s s.phase

theorem during_start (h : s₁.Inv setting) (hlast : s₁.LastLevelled) (hp : s₁.phase = .waiting) :
    During setting s₁ s₁.advance := by
  have hs : step setting s₁ .advance = some s₁.advance := if_neg (by rw [hp]; decide)
  have hagrees := h.agrees
  rw [hp] at hagrees
  refine ⟨inv_step (e := .advance) h trivial hs, lastLevelled_step h hlast hs, ?_,
    keepsLevels_advance s₁ setting _ hs, [], ?_, progress_waiting hp hagrees fun f => rfl⟩
  · simp only [advance, hp]
    trivial
  · simp [advance, hp]

theorem during_step (h : During setting s₁ s) (hp : s.phase ≠ .waiting)
    (hkeeps : s.KeepsLevels setting e) (hs : step setting s e = some s') :
    During setting s₁ s' := by
  have hlevel := hkeeps s' hs
  obtain ⟨pkts, hsent, hprogress⟩ := h.progress
  refine ⟨inv_step h.inv (inTime_of_keepsLevels hkeeps) hs,
    lastLevelled_step h.inv h.lastLevelled hs, settled_step h.inv h.settled hkeeps hs,
    fun f => (hlevel f).trans (h.level f), ?_⟩
  obtain ⟨-, -, rfl⟩ | ⟨f, volume, lossVolume, lossRate, rfl, rfl⟩ | ⟨-, hp', -⟩
    | ⟨-, hp', -⟩ := step_cases hs
  · obtain ⟨more, hmore, hprogress⟩ := tracks_advance h.inv h.lastLevelled h.level hp hprogress
    exact ⟨pkts ++ more, by rw [hmore, hsent, List.append_assoc], hprogress⟩
  · have hm := updated setting s.levelMap f volume lossVolume lossRate
    have heq := hlevel f
    rw [level_setLevelMap, hm.get, if_pos rfl] at heq
    exact ⟨pkts, hsent, progress_updated hm h.inv.levelled heq h.level hprogress⟩
  · exact absurd hp' hp
  · rw [hp'] at hprogress
    exact hprogress.elim

/-- What a round sends is the difference, and it leaves no difference. -/
structure SendsDifference (s₁ s₂ : Conditions) : Prop where
  packets : ∃ pkts, s₂.sent = s₁.sent ++ pkts
    ∧ ∀ f, sentFor f pkts = difference f (s₁.level f) (s₁.lastSent f)
  kept : ∀ f, s₂.level f = s₁.level f
  copied : ∀ f, s₂.lastSent f = s₂.level f
  switches : ∀ f, switchLevels s₂.sent f = s₂.level f

theorem Round.sendsDifference {es : List Event} (hr : Round setting s₁ es s₂) (h : s₁.Inv setting)
    (hlast : s₁.LastLevelled) : SendsDifference s₁ s₂ := by
  obtain ⟨s, hs, hrun⟩ := Lib.System.run_cons.1 hr.run
  obtain rfl : s₁.advance = s := by
    have hadvance : step setting s₁ .advance = some s := hs
    rw [step, if_neg (by rw [hr.start]; decide)] at hadvance
    exact Option.some.inj hadvance
  have hstep : ∀ s e s', During setting s₁ s → (s.phase ≠ .waiting ∧ s.KeepsLevels setting e) →
      (system setting).step s e = some s' → During setting s₁ s' :=
    fun _ _ _ h hok hs => during_step h hok.1 hok.2 hs
  have hend := Lib.System.run_inv_of hstep (during_start h hlast hr.start) hr.during hrun
  obtain ⟨pkts, hsent, hprogress⟩ := hend.progress
  have hsettled := hend.settled
  have hagrees := hend.inv.agrees
  rw [hr.finish] at hprogress hsettled hagrees
  exact ⟨⟨pkts, hsent, hprogress⟩, hend.level,
    fun f => (hagrees.2.2 f).symm.trans (hsettled f), hsettled⟩

/-! ## Rounds end -/

/-- What is left of a round: the phases, the keys to come in this one, the steps for this key. -/
noncomputable def stepsLeft (s : Conditions) : ℕ ×ₗ ℕ ×ₗ ℕ :=
  match s.phase with
  | .waiting | .rotated => toLex (0, toLex (0, 0))
  | .copyNext => toLex (1, toLex (s.levelMap.remaining, 0))
  | .copySet _ _ => toLex (1, toLex (s.levelMap.remaining, 1))
  | .recreate => toLex (2, toLex (0, 0))
  | .minusNext => toLex (3, toLex (s.lastSentMap.remaining, 0))
  | .minusSend _ => toLex (3, toLex (s.lastSentMap.remaining, 1))
  | .minusGet _ => toLex (3, toLex (s.lastSentMap.remaining, 2))
  | .plusNext => toLex (4, toLex (s.levelMap.remaining, 0))
  | .plusSend _ _ => toLex (4, toLex (s.levelMap.remaining, 1))
  | .plusGet _ _ => toLex (4, toLex (s.levelMap.remaining, 2))

theorem stepsLeft_advance_lt (hw : s.phase ≠ .waiting) (hr : s.phase ≠ .rotated) :
    s.advance.stepsLeft < s.stepsLeft := by
  cases hp : s.phase
  case waiting => exact absurd hp hw
  case rotated => exact absurd hp hr
  case plusNext =>
    rcases hn : (htKfsViNext s.levelMap).2 with _ | ⟨key, value⟩
    · simp [stepsLeft, advance, hp, hn, Prod.Lex.toLex_lt_toLex]
    · have hlt : (htKfsViNext s.levelMap).1.remaining < s.levelMap.remaining :=
        Lib.Table.remaining_next_lt hn
      simp [stepsLeft, advance, hp, hn, Prod.Lex.toLex_lt_toLex, hlt]
  case copyNext =>
    rcases hn : (htKfsViNext s.levelMap).2 with _ | ⟨key, value⟩
    · simp [stepsLeft, advance, hp, hn, Prod.Lex.toLex_lt_toLex]
    · have hlt : (htKfsViNext s.levelMap).1.remaining < s.levelMap.remaining :=
        Lib.Table.remaining_next_lt hn
      simp [stepsLeft, advance, hp, hn, Prod.Lex.toLex_lt_toLex, hlt]
  case minusNext =>
    rcases hn : (htKfsViNext s.lastSentMap).2 with _ | ⟨key, value⟩
    · simp [stepsLeft, advance, hp, hn, Prod.Lex.toLex_lt_toLex]
    · have hlt : (htKfsViNext s.lastSentMap).1.remaining < s.lastSentMap.remaining :=
        Lib.Table.remaining_next_lt hn
      simp [stepsLeft, advance, hp, hn, Prod.Lex.toLex_lt_toLex, hlt]
  case plusGet key selectedLevel =>
    by_cases heq : htKfsViGet s.lastSentMap key = selectedLevel <;>
      simp [stepsLeft, advance, hp, heq, Prod.Lex.toLex_lt_toLex]
  case minusGet key =>
    by_cases hpos : 0 < htKfsViGet s.levelMap key <;>
      simp [stepsLeft, advance, hp, hpos, Prod.Lex.toLex_lt_toLex]
  all_goals simp [stepsLeft, advance, hp, Prod.Lex.toLex_lt_toLex]

/-- A round left alone comes to its end. -/
theorem exists_round (setting : CmExperimentSetting) (s : Conditions) (hr : s.phase ≠ .rotated) :
    ∃ n s', (system setting).run s (List.replicate n .advance) = some s' ∧ s'.phase = .waiting
      ∧ (system setting).Meets (fun s e => s.phase ≠ .waiting ∧ s.KeepsLevels setting e) s
        (List.replicate n .advance) := by
  by_cases hw : s.phase = .waiting
  · exact ⟨0, s, rfl, hw, trivial⟩
  · have hs : (system setting).step s .advance = some s.advance := if_neg hr
    obtain ⟨n, s', hrun, hwaiting, hmeets⟩ :=
      exists_round setting s.advance (mt (advance_frame s).2.2 hr)
    refine ⟨n + 1, s', Lib.System.run_cons.2 ⟨_, hs, hrun⟩, hwaiting,
      ⟨hw, keepsLevels_advance s setting⟩, fun s₁ hs₁ => ?_⟩
    rw [hs] at hs₁
    cases hs₁
    exact hmeets
termination_by s.stepsLeft
decreasing_by exact stepsLeft_advance_lt hw hr

/-- Rounds send exactly the difference: in a history in which the levels change only between
rounds, a round ends, sends each flow what takes the switches from its last sent level to its
present one and nothing else, and leaves last sent and switches with the levels. -/
theorem rounds_send_difference (setting : CmExperimentSetting) (tasks : List Task)
    (history : List Event) (s₁ : Conditions)
    (hhistory : (system setting).run (init setting tasks) history = some s₁)
    (hbetween : (system setting).Meets (BetweenRounds setting) (init setting tasks) history)
    (hstart : s₁.phase = .waiting) :
    (∃ n s₂, Round setting s₁ (List.replicate n .advance) s₂)
      ∧ ∀ es s₂, Round setting s₁ es s₂ → SendsDifference s₁ s₂ := by
  have hstep : ∀ s e s', s.Inv setting ∧ s.LastLevelled → s.BetweenRounds setting e →
      (system setting).step s e = some s' → s'.Inv setting ∧ s'.LastLevelled :=
    fun _ _ _ h hok hs =>
      ⟨inv_step h.1 (inTime_of_betweenRounds hok) hs, lastLevelled_step h.1 h.2 hs⟩
  obtain ⟨hinv, hlast⟩ := Lib.System.run_inv_of hstep ⟨inv_init tasks, lastLevelled_init tasks⟩
    hbetween hhistory
  have hr : s₁.phase ≠ .rotated := by
    rw [hstart]
    decide
  refine ⟨?_, fun es s₂ hround => hround.sendsDifference hinv hlast⟩
  obtain ⟨n, s₂, hrun, hfinish, hmeets⟩ :=
    exists_round setting s₁.advance (mt (advance_frame s₁).2.2 hr)
  exact ⟨n, s₂, hstart, Lib.System.run_cons.2 ⟨_, if_neg hr, hrun⟩, hmeets, hfinish⟩

/-- A flow becomes a target; the round after sends it, and the next one nothing. -/
theorem rounds_send_difference_example : ∃ n s₁ s₂,
    (system exampleSetting).run (init exampleSetting []) [makeTarget] = some s₁
      ∧ Round exampleSetting s₁ (List.replicate n .advance) s₂
      ∧ switchLevels s₂.sent oneFlow = targetLevel := by
  have hrun : (system exampleSetting).run (init exampleSetting []) [makeTarget]
      = some ((init exampleSetting []).setLevelMap oneTarget) :=
    Lib.System.run_cons.2 ⟨_, step_makeTarget rfl, rfl⟩
  obtain ⟨⟨n, s₂, hround⟩, hall⟩ := rounds_send_difference exampleSetting [] _ _ hrun
    ⟨.inl rfl, fun _ _ => trivial⟩ rfl
  refine ⟨n, _, s₂, hrun, hround, ?_⟩
  obtain ⟨-, hkept, -, hswitches⟩ := hall _ _ hround
  rw [hswitches, hkept, level_setLevelMap, htKfsViGet_oneTarget]

end Runs

end CMTestbed.Conditions
