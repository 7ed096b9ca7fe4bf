import CMTestbed.Intervals
import Mathlib.Data.List.Induction

/-!
# Levels are never stale

Both updates end with the flow's loss rate and level set from its volume and loss volume as they
then are, and touch no other flow.  So after any calls each flow's rate and level are those of its
volumes, as long as the `int` totals do not overflow.
-/

namespace CMTestbed

def totalSent (cs : List UpdateCall) (f : FlowSrc) : ℤ := (cs.map (UpdateCall.sent f)).sum
def totalLost (cs : List UpdateCall) (f : FlowSrc) : ℤ := (cs.map (UpdateCall.lost f)).sum

namespace Buffer

variable {setting : CmExperimentSetting} {b : Buffer} {f g : FlowSrc}

/-- The flow's loss rate and level are those of its volume and loss volume. -/
structure LevelOk (setting : CmExperimentSetting) (b : Buffer) (f : FlowSrc) : Prop where
  rate : htKfsViGet b.flowVolumeMap f ≠ -1 → htKfsVfGet b.flowLossRateMap f
    = setting.lossRate (htKfsViGet b.flowVolumeMap f)
      (b.lossVolumeUsed setting f (b.lossVolume f))
  level : htKfsViGet b.flowVolumeMap f ≠ -1 → htKfsViGet b.flowSelectedLevelMap f
    = levelOf setting (htKfsViGet b.flowVolumeMap f) (b.lossVolumeUsed setting f (b.lossVolume f))
      (setting.lossRate (htKfsViGet b.flowVolumeMap f)
        (b.lossVolumeUsed setting f (b.lossVolume f)))
  absent : htKfsViGet b.flowVolumeMap f = -1 → htKfsViGet b.flowSelectedLevelMap f = -1

theorem levelOk_create : (create setting).LevelOk setting f where
  rate := fun h => absurd (htKfsViGet_create f) h
  level := fun h => absurd (htKfsViGet_create f) h
  absent := fun _ => htKfsViGet_create f

/-- The flow just updated has the rate and level of the volumes it was updated with. -/
theorem levelOk_updateRateAndLevel {volume lossVolume : ℤ}
    (hv : htKfsViGet b.flowVolumeMap f = volume) (hv₀ : volume ≠ -1)
    (hl : b.lossVolumeUsed setting f (b.lossVolume f) = lossVolume) :
    (b.updateRateAndLevel setting f volume lossVolume).LevelOk setting f := by
  subst hv hl
  refine ⟨fun _ => ?_, fun _ => ?_, fun h => absurd h hv₀⟩
  · dsimp only [updateRateAndLevel]
    rw [htKfsVfGet_set, if_pos rfl]
    rfl
  · dsimp only [updateRateAndLevel]
    rw [htKfsViGet_updateFlowSelectedLevelMap, if_pos rfl]
    rfl

/-- A flow keeps its level if nothing that is kept of it changes. -/
theorem LevelOk.frame {b' : Buffer} (h : b.LevelOk setting f)
    (hv : htKfsViGet b'.flowVolumeMap f = htKfsViGet b.flowVolumeMap f)
    (hl : b'.lossVolumeUsed setting f (b'.lossVolume f)
      = b.lossVolumeUsed setting f (b.lossVolume f))
    (hr : htKfsVfGet b'.flowLossRateMap f = htKfsVfGet b.flowLossRateMap f)
    (hlev : htKfsViGet b'.flowSelectedLevelMap f = htKfsViGet b.flowSelectedLevelMap f) :
    b'.LevelOk setting f where
  rate := by rw [hv, hl, hr]; exact h.rate
  level := by rw [hv, hl, hlev]; exact h.level
  absent := by rw [hv, hlev]; exact h.absent

theorem lossVolumeUsed_congr {b' : Buffer} (hl : b'.lossVolume f = b.lossVolume f)
    (hfixed : htKfsFixSizeGet b'.fixedFlowLossVolumeMap f
      = htKfsFixSizeGet b.fixedFlowLossVolumeMap f) :
    b'.lossVolumeUsed setting f (b'.lossVolume f)
      = b.lossVolumeUsed setting f (b.lossVolume f) := by
  simp only [lossVolumeUsed, HtKfsFixSize.value, hl, hfixed]

/-- Setting one flow's rate and level leaves the others'. -/
theorem LevelOk.updateRateAndLevel (h : b.LevelOk setting g) (hg : g ≠ f) (volume lossVolume : ℤ) :
    (b.updateRateAndLevel setting f volume lossVolume).LevelOk setting g := by
  refine h.frame rfl rfl ?_ ?_ <;> dsimp only [Buffer.updateRateAndLevel]
  · rw [htKfsVfGet_set, if_neg hg]
  · rw [htKfsViGet_updateFlowSelectedLevelMap, if_neg hg]

theorem LevelOk.updateFlowNormalVolume (h : b.LevelOk setting g) {n : ℤ} (hn : 0 < n)
    (hpos : 0 < b.volume f + n) (hlt : b.volume f + n < 2 ^ 31) :
    (b.updateFlowNormalVolume setting f n).LevelOk setting g := by
  have hadd := b.intAdd_volume f hn.le hlt
  simp only [Buffer.updateFlowNormalVolume, if_pos hn, hadd]
  by_cases hg : g = f
  · subst hg
    refine levelOk_updateRateAndLevel ?_ (by omega) rfl
    rw [htKfsViGet_set, if_pos rfl, toInt_toUInt hpos.le hlt]
  · refine LevelOk.updateRateAndLevel ?_ hg _ _
    refine h.frame ?_ rfl rfl rfl
    rw [htKfsViGet_set, if_neg hg]

/-- A loss of a flow with no volume is only counted. -/
theorem updateFlowLossVolume_unknown {n : ℤ} (hn : 0 < n)
    (hvol : htKfsViGet b.flowVolumeMap f < 0) (rand : ℚ) :
    b.updateFlowLossVolume setting f n rand
      = { b with volumeLost := b.volumeLost + UInt64.ofInt n } := by
  simp only [Buffer.updateFlowLossVolume, if_pos hn, if_pos hvol]

theorem LevelOk.updateFlowLossVolume (h : b.LevelOk setting g) {n : ℤ} (hn : 0 < n)
    (hlt : b.lossVolume f + n < 2 ^ 31)
    (hpresent : htKfsViGet b.flowVolumeMap f = -1 ∨ 0 < htKfsViGet b.flowVolumeMap f) (rand : ℚ) :
    (b.updateFlowLossVolume setting f n rand).LevelOk setting g := by
  have h₀ := b.lossVolume_nonneg f
  have hadd := b.intAdd_lossVolume f hn.le hlt
  by_cases hvol : htKfsViGet b.flowVolumeMap f < 0
  · rw [updateFlowLossVolume_unknown hn hvol]
    exact h.frame rfl rfl rfl rfl
  simp only [Buffer.updateFlowLossVolume, if_pos hn, if_neg hvol, recordLoss, hadd]
  have hget : ∀ k, htKfsViGet (htKfsViSet b.flowLossVolumeMap f (toUInt (b.lossVolume f + n))) k
      = if k = f then b.lossVolume f + n else htKfsViGet b.flowLossVolumeMap k := fun k => by
    rw [htKfsViGet_set, toInt_toUInt (by omega) hlt]
  by_cases hg : g = f
  · subst hg
    refine levelOk_updateRateAndLevel rfl (by omega) ?_
    rw [lossVolume]
    dsimp only
    rw [hget, if_pos rfl, orZero_of_nonneg (by omega)]
  · refine LevelOk.updateRateAndLevel ?_ hg _ _
    refine h.frame rfl (lossVolumeUsed_congr ?_ ?_) rfl rfl
    · rw [lossVolume]
      dsimp only
      rw [hget, if_neg hg, lossVolume]
    · dsimp only
      split_ifs
      · exact htKfsFixSizeGet_addValue_of_ne _ hg _
      · rfl

/-- A loss reaches the map of fixed size if its flow has a volume and is sampled. -/
theorem fixedFlowLossVolumeMap_updateFlowLossVolume (b : Buffer) (f : FlowSrc) {n : ℤ} (hn : 0 < n)
    (hvol : 0 ≤ htKfsViGet b.flowVolumeMap f) (rand : ℚ) :
    (b.updateFlowLossVolume setting f n rand).fixedFlowLossVolumeMap
      = if setting.senderSetting.lossMapMemType = .fixed
          ∧ samplePacketFixSizeMapSender setting f
            (intAdd (orZero (htKfsViGet b.flowLossVolumeMap f)) n) rand b.fixedFlowLossVolumeMap
        then htKfsFixSizeAddValue b.fixedFlowLossVolumeMap f (toUInt n)
        else b.fixedFlowLossVolumeMap := by
  simp only [updateFlowLossVolume, if_pos hn, if_neg (not_lt.2 hvol), recordLoss,
    updateRateAndLevel]

theorem fixedFlowLossVolumeMap_updateFlowLossVolume_of_not {n : ℤ}
    (h : ¬(0 < n ∧ 0 ≤ htKfsViGet b.flowVolumeMap f)) (rand : ℚ) :
    (b.updateFlowLossVolume setting f n rand).fixedFlowLossVolumeMap
      = b.fixedFlowLossVolumeMap := by
  unfold updateFlowLossVolume
  dsimp only
  split_ifs with hn hvol
  · rfl
  · exact absurd ⟨hn, not_lt.1 hvol⟩ h
  · rfl

/-- A loss adds at most its volume to the flow's entry in the table of fixed size. -/
theorem fixed_updateFlowLossVolume {n bound : ℤ} (hn : 0 < n) (hlt : n < 2 ^ 31)
    (h : ∀ e, htKfsFixSizeGet b.fixedFlowLossVolumeMap g = some e → (e.value.toNat : ℤ) ≤ bound)
    (h₀ : 0 ≤ bound) (rand : ℚ) {e : EntryKfsFixSize}
    (he : htKfsFixSizeGet (b.updateFlowLossVolume setting f n rand).fixedFlowLossVolumeMap g
      = some e) :
    (e.value.toNat : ℤ) ≤ bound + if g = f ∧ 0 ≤ htKfsViGet b.flowVolumeMap f then n else 0 := by
  have hle : bound ≤ bound + if g = f ∧ 0 ≤ htKfsViGet b.flowVolumeMap f then n else 0 := by
    split_ifs <;> omega
  by_cases hvol : 0 ≤ htKfsViGet b.flowVolumeMap f
  · rw [fixedFlowLossVolumeMap_updateFlowLossVolume b f hn hvol] at he
    split_ifs at he with hs
    · by_cases hg : g = f
      · subst hg
        have hnat := toNat_toUInt hn.le (show n < 2 ^ 32 by omega)
        rw [if_pos ⟨rfl, hvol⟩]
        rcases htKfsFixSizeGet_addValue_self he with ⟨old, hold, hval⟩ | ⟨-, hval⟩
        · have := h old hold
          have := Nat.mod_le (old.value.toNat + (toUInt n).toNat) (2 ^ 32)
          rw [hval, UInt32.toNat_add]
          omega
        · rw [hval]
          omega
      · rw [htKfsFixSizeGet_addValue_of_ne _ hg] at he
        exact (h e he).trans hle
    · exact (h e he).trans hle
  · rw [fixedFlowLossVolumeMap_updateFlowLossVolume_of_not fun h => hvol h.2] at he
    exact (h e he).trans hle

/-! ## Runs -/

/-- The active buffer after the calls `cs`, from empty. -/
structure Levels (setting : CmExperimentSetting) (b : Buffer) (cs : List UpdateCall)
    (f : FlowSrc) : Prop where
  volume : b.volume f = totalSent cs f
  present : htKfsViGet b.flowVolumeMap f = -1 ∨ 0 < htKfsViGet b.flowVolumeMap f
  lossVolume : b.lossVolume f ≤ totalLost cs f
  lost : htKfsViGet b.flowLossVolumeMap f = -1 ∨ 0 < htKfsViGet b.flowLossVolumeMap f
  fixed : ∀ e, htKfsFixSizeGet b.fixedFlowLossVolumeMap f = some e →
    (e.value.toNat : ℤ) ≤ totalLost cs f
  levelOk : b.LevelOk setting f

end Buffer

theorem totalSent_concat (cs : List UpdateCall) (c : UpdateCall) (f : FlowSrc) :
    totalSent (cs ++ [c]) f = totalSent cs f + c.sent f := by
  simp [totalSent]

theorem totalLost_concat (cs : List UpdateCall) (c : UpdateCall) (f : FlowSrc) :
    totalLost (cs ++ [c]) f = totalLost cs f + c.lost f := by
  simp [totalLost]

/-- The calls have positive volumes, and every flow's totals fit in an `int`. -/
structure Bounded (cs : List UpdateCall) : Prop where
  pos : ∀ c ∈ cs, 0 < c.added
  sent : ∀ f, totalSent cs f < 2 ^ 31
  lost : ∀ f, totalLost cs f < 2 ^ 31

theorem Bounded.of_concat {cs : List UpdateCall} {c : UpdateCall} (h : Bounded (cs ++ [c])) :
    Bounded cs ∧ 0 < c.added := by
  have hc : 0 < c.added := h.pos c (by simp)
  refine ⟨⟨fun c' hc' => h.pos c' (List.mem_append_left _ hc'), fun f => ?_, fun f => ?_⟩, hc⟩
  · have hf := h.sent f
    rw [totalSent_concat] at hf
    cases c <;> simp only [UpdateCall.sent, UpdateCall.added] at hf hc
    · split_ifs at hf <;> omega
    · omega
  · have hf := h.lost f
    rw [totalLost_concat] at hf
    cases c <;> simp only [UpdateCall.lost, UpdateCall.added] at hf hc
    · omega
    · split_ifs at hf <;> omega

theorem levels_run (setting : CmExperimentSetting) {w : DataWarehouse}
    (hw : w.active = Buffer.create setting) (cs : List UpdateCall) (hcs : Bounded cs)
    (f : FlowSrc) : (cs.foldl (UpdateCall.exec setting) w).active.Levels setting cs f := by
  induction cs using List.reverseRecOn generalizing f with
  | nil =>
    rw [List.foldl_nil, hw]
    refine ⟨by simp [totalSent], .inl (htKfsViGet_create f), by simp [totalLost],
      .inl (htKfsViGet_create f), fun e he => ?_, Buffer.levelOk_create⟩
    cases he
  | append_singleton cs c ih =>
    obtain ⟨hcs', hc⟩ := hcs.of_concat
    have hsent := hcs.sent
    have hlost := hcs.lost
    simp only [totalSent_concat] at hsent
    simp only [totalLost_concat] at hlost
    rw [List.foldl_append, List.foldl_cons, List.foldl_nil]
    generalize (cs.foldl (UpdateCall.exec setting) w) = w' at ih
    have ihf := ih hcs' f
    cases c with
    | normal g n =>
      have ihg := ih hcs' g
      have hn : 0 < n := hc
      have hg := hsent g
      have hv := ihg.volume
      have hv₀ := w'.active.volume_nonneg g
      simp only [UpdateCall.sent, if_true] at hg
      rw [UpdateCall.exec, updateFlowNormalVolume, DataWarehouse.active_modifyActive]
      refine ⟨?_, ?_, ?_, ?_, ?_, ihf.levelOk.updateFlowNormalVolume hn (by omega) (by omega)⟩
      · rw [w'.active.volume_updateFlowNormalVolume g f hn.le (by omega), ihf.volume,
          totalSent_concat, UpdateCall.sent]
      · rw [w'.active.get_flowVolumeMap_updateFlowNormalVolume g f hn (by omega)]
        split_ifs
        · omega
        · exact ihf.present
      · rw [Buffer.lossVolume_updateFlowNormalVolume, totalLost_concat, UpdateCall.lost, add_zero]
        exact ihf.lossVolume
      · rw [Buffer.updateFlowNormalVolume, if_pos hn]
        exact ihf.lost
      · rw [Buffer.updateFlowNormalVolume, if_pos hn, totalLost_concat, UpdateCall.lost, add_zero]
        exact ihf.fixed
    | loss g n rand =>
      have ihg := ih hcs' g
      have hn : 0 < n := hc
      have hg := hlost g
      have hl := ihg.lossVolume
      simp only [UpdateCall.lost, if_true] at hg
      rw [UpdateCall.exec, updateFlowLossVolume, DataWarehouse.active_modifyActive]
      have hl₀ := w'.active.lossVolume_nonneg g
      have hf₀ := w'.active.lossVolume_nonneg f
      refine ⟨?_, ?_, ?_, ?_, fun e he => ?_,
        ihf.levelOk.updateFlowLossVolume hn (by omega) ihg.present rand⟩
      · rw [Buffer.volume, Buffer.flowVolumeMap_updateFlowLossVolume, totalSent_concat,
          UpdateCall.sent, add_zero]
        exact ihf.volume
      · rw [Buffer.flowVolumeMap_updateFlowLossVolume]
        exact ihf.present
      · have hlf := ihf.lossVolume
        rw [w'.active.lossVolume_updateFlowLossVolume g f hn.le (by omega), totalLost_concat,
          UpdateCall.lost]
        by_cases hfg : f = g
        · rw [if_pos hfg]
          split_ifs <;> omega
        · rw [if_neg hfg, if_neg fun h => hfg h.1]
          omega
      · rw [w'.active.get_flowLossVolumeMap_updateFlowLossVolume g f hn (by omega)]
        split_ifs
        · omega
        · exact ihf.lost
      · rw [totalLost_concat, UpdateCall.lost]
        have hfixed := Buffer.fixed_updateFlowLossVolume hn (by omega) ihf.fixed
          (hf₀.trans ihf.lossVolume) rand he
        by_cases hfg : f = g
        · rw [if_pos hfg]
          split_ifs at hfixed <;> omega
        · rw [if_neg hfg]
          rwa [if_neg fun h => hfg h.1] at hfixed

/-- The loss volume that a flow's rate and level should be of. -/
def Buffer.lossValue (setting : CmExperimentSetting) (b : Buffer) (f : FlowSrc) : ℤ :=
  match setting.senderSetting.lossMapMemType with
  | .infinite =>
    if htKfsViGet b.flowLossVolumeMap f = -1 then 0 else htKfsViGet b.flowLossVolumeMap f
  | .fixed =>
    match htKfsFixSizeGet b.fixedFlowLossVolumeMap f with
    | some retEntry => retEntry.value.toNat
    | none => 0

theorem Buffer.Levels.lossVolumeUsed {setting : CmExperimentSetting} {b : Buffer}
    {cs : List UpdateCall} {f : FlowSrc} (h : b.Levels setting cs f)
    (hlt : totalLost cs f < 2 ^ 31) :
    b.lossVolumeUsed setting f (b.lossVolume f) = b.lossValue setting f := by
  unfold Buffer.lossVolumeUsed Buffer.lossValue
  cases setting.senderSetting.lossMapMemType with
  | infinite =>
    dsimp only
    rw [Buffer.lossVolume, orZero]
    rcases h.lost with hl | hl
    · rw [hl]
      rfl
    · rw [if_neg (by omega), if_neg (by omega)]
  | fixed =>
    dsimp only
    unfold HtKfsFixSize.value
    rcases he : htKfsFixSizeGet b.fixedFlowLossVolumeMap f with _ | e
    · rfl
    · have := h.fixed e he
      exact toInt_eq_toNat (by omega)

/-- Levels are never stale: after any calls from empty buffers, a flow with volume `V` and loss
volume `L` has the loss rate `L / V`, rounded as floats are (not at all if they are exact), and the
level the thresholds give it, and a flow without volume has no level. -/
theorem levels_never_stale (setting : CmExperimentSetting) (w : DataWarehouse)
    (hw : w.active = Buffer.create setting) (cs : List UpdateCall) (hcs : Bounded cs)
    (f : FlowSrc) :
    let b := (cs.foldl (UpdateCall.exec setting) w).active
    let V := htKfsViGet b.flowVolumeMap f
    let L := b.lossValue setting f
    (V ≠ -1 → htKfsVfGet b.flowLossRateMap f = setting.floats.round (L / V)
        ∧ htKfsViGet b.flowSelectedLevelMap f
          = levelOf setting V L (setting.floats.round (L / V)))
      ∧ (V = -1 → htKfsViGet b.flowSelectedLevelMap f = -1) := by
  have h := levels_run setting hw cs hcs f
  have hused := h.lossVolumeUsed (hcs.lost f)
  have hok := h.levelOk
  refine ⟨fun hV => ⟨?_, ?_⟩, hok.absent⟩
  · rw [hok.rate hV, hused, CmExperimentSetting.lossRate]
  · rw [hok.level hV, hused, CmExperimentSetting.lossRate]

/-- A flow loses 40 of 100 bytes: it is a target, and still after another flow's packet. -/
theorem levels_never_stale_example :
    let setting : CmExperimentSetting := {
      floats := .float
      hostOrSwitchSample := .hostSample, injectOrTagPacket := .injectPktAsCondition
      defaultByteSamplingRate := 0
      targetFlowSetting := ⟨100, 1 / 4, 40, 20⟩
      senderSetting := ⟨.infinite, 16, 0⟩ }
    let cs : List UpdateCall := [.normal ⟨1, 2⟩ 100, .loss ⟨1, 2⟩ 40 0, .normal ⟨3, 4⟩ 60]
    let w := cs.foldl (UpdateCall.exec setting) (dataWarehouseInit setting [])
    htKfsViGet w.active.flowSelectedLevelMap ⟨1, 2⟩ = targetLevel := by
  intro setting cs w
  have hcs : Bounded cs := by
    refine ⟨by simp [cs, UpdateCall.added], fun f => ?_, fun f => ?_⟩
    · simp only [totalSent, cs, List.map_cons, List.map_nil, UpdateCall.sent, List.sum_cons,
        List.sum_nil]
      split_ifs <;> omega
    · simp only [totalLost, cs, List.map_cons, List.map_nil, UpdateCall.lost, List.sum_cons,
        List.sum_nil]
      split_ifs <;> omega
  have h := levels_never_stale setting (dataWarehouseInit setting []) rfl cs hcs ⟨1, 2⟩
  have hV : htKfsViGet w.active.flowVolumeMap ⟨1, 2⟩ = 100 := by decide +kernel
  have hL : w.active.lossValue setting ⟨1, 2⟩ = 40 := by decide +kernel
  change (htKfsViGet w.active.flowVolumeMap ⟨1, 2⟩ ≠ -1 → _) ∧ _ at h
  rw [(h.1 (by rw [hV]; decide)).2]
  change levelOf setting (htKfsViGet w.active.flowVolumeMap ⟨1, 2⟩)
    (w.active.lossValue setting ⟨1, 2⟩) _ = targetLevel
  rw [hV, hL]
  decide +kernel

end CMTestbed
