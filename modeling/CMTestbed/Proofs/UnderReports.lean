import CMTestbed.Proofs.Totals

/-!
# A loss map of fixed size under-reports

With a loss map of fixed size, a flow's loss volume is counted from the loss that was sampled while
the flow's bin was empty.  From then on the flow has its bin to itself and is always sampled, so
the map misses what was lost before and nothing after.  The level is the one of the loss volume
held, which is at most that of the whole.
-/

namespace CMTestbed

/-- The setting with a loss map of the given kind. -/
def CmExperimentSetting.withLossMap (setting : CmExperimentSetting) (memType : SenderMemType) :
    CmExperimentSetting :=
  { setting with senderSetting := { setting.senderSetting with lossMapMemType := memType } }

/-- More losses do not lower the level. -/
theorem levelOf_mono (setting : CmExperimentSetting) {volume l l' : ℤ} (hvolume : 0 < volume)
    (h : l ≤ l') :
    levelOf setting volume l (setting.lossRate volume l)
      ≤ levelOf setting volume l' (setting.lossRate volume l') := by
  have hrate : setting.lossRate volume l ≤ setting.lossRate volume l' := by
    have : (l : ℚ) ≤ l' := by exact_mod_cast h
    exact setting.floats.monotone (by gcongr)
  unfold levelOf
  dsimp only
  by_cases hl : setting.targetFlowSetting.volumeThreshold ≤ volume
      ∧ setting.targetFlowSetting.lossRateThreshold ≤ setting.lossRate volume l
  · have hl' : setting.targetFlowSetting.volumeThreshold ≤ volume
        ∧ setting.targetFlowSetting.lossRateThreshold ≤ setting.lossRate volume l' :=
      ⟨hl.1, hl.2.trans hrate⟩
    rw [if_pos hl, if_pos hl']
    simp only [targetLevel, selectedLevel]
    split_ifs <;> omega
  · rw [if_neg hl]
    simp only [targetLevel, selectedLevel]
    split_ifs <;> omega

theorem htKfsFixSizeGet_addValue_of_some {hashtable : HtKfsFixSize} {key : FlowSrc}
    {pair : EntryKfsFixSize} (h : htKfsFixSizeGet hashtable key = some pair)
    (deltaValue : UInt32) : htKfsFixSizeGet (htKfsFixSizeAddValue hashtable key deltaValue) key
      = some { pair with value := pair.value + deltaValue } := by
  unfold htKfsFixSizeGet at h
  split at h
  · next next hn =>
    split_ifs at h with hk
    cases h
    rw [not_not] at hk
    simp only [htKfsFixSizeAddValue, hn, hk, if_true]
    rw [htKfsFixSizeGet_update (by rfl) rfl, if_pos rfl, if_pos (flowSrcCompare_eq_zero.1 hk)]
  · cases h

namespace Buffer

variable {setting : CmExperimentSetting} {b : Buffer} {f g : FlowSrc}

/-- The flow's entry in the loss map of fixed size. -/
def entry (b : Buffer) (f : FlowSrc) : Option EntryKfsFixSize :=
  htKfsFixSizeGet b.fixedFlowLossVolumeMap f

@[simp] theorem entry_updateFlowNormalVolume (n : ℤ) :
    (b.updateFlowNormalVolume setting f n).entry g = b.entry g := by
  unfold updateFlowNormalVolume
  split_ifs <;> rfl

theorem entry_updateFlowLossVolume_of_ne (n : ℤ) (rand : ℚ) (h : g ≠ f) :
    (b.updateFlowLossVolume setting f n rand).entry g = b.entry g := by
  rw [entry, entry]
  by_cases hn : 0 < n ∧ 0 ≤ htKfsViGet b.flowVolumeMap f
  · rw [fixedFlowLossVolumeMap_updateFlowLossVolume b f hn.1 hn.2]
    split_ifs
    · exact htKfsFixSizeGet_addValue_of_ne _ h _
    · rfl
  · rw [fixedFlowLossVolumeMap_updateFlowLossVolume_of_not hn]

/-- A flow with a positive entry is sampled. -/
theorem entry_updateFlowLossVolume_of_some
    (hmem : setting.senderSetting.lossMapMemType = .fixed) {n : ℤ} (hn : 0 < n) (rand : ℚ)
    {e : EntryKfsFixSize} (he : b.entry f = some e) (hpos : 0 < e.value)
    (hvol : 0 ≤ htKfsViGet b.flowVolumeMap f) :
    (b.updateFlowLossVolume setting f n rand).entry f
      = some { e with value := e.value + toUInt n } := by
  have hsampled : ∀ len,
      samplePacketFixSizeMapSender setting f len rand b.fixedFlowLossVolumeMap = true := by
    intro len
    rw [entry] at he
    simp [samplePacketFixSizeMapSender, htKfsFixSizeIsSampled, he, hpos]
  rw [entry, fixedFlowLossVolumeMap_updateFlowLossVolume b f hn hvol, if_pos ⟨hmem, hsampled _⟩]
  exact htKfsFixSizeGet_addValue_of_some he _

/-- A new entry starts with the loss that installed it. -/
theorem entry_updateFlowLossVolume_of_none {n : ℤ} {rand : ℚ} {e : EntryKfsFixSize}
    (he : b.entry f = none) (he' : (b.updateFlowLossVolume setting f n rand).entry f = some e) :
    0 < n ∧ 0 ≤ htKfsViGet b.flowVolumeMap f ∧ e.value = toUInt n := by
  rw [entry] at he he'
  by_cases hn : 0 < n ∧ 0 ≤ htKfsViGet b.flowVolumeMap f
  · rw [fixedFlowLossVolumeMap_updateFlowLossVolume b f hn.1 hn.2] at he'
    split_ifs at he'
    · rcases htKfsFixSizeGet_addValue_self he' with ⟨old, hold, -⟩ | ⟨-, hvalue⟩
      · exact absurd (he.symm.trans hold) (by simp)
      · exact ⟨hn.1, hn.2, hvalue⟩
    · exact absurd (he.symm.trans he') (by simp)
  · rw [fixedFlowLossVolumeMap_updateFlowLossVolume_of_not hn] at he'
    exact absurd (he.symm.trans he') (by simp)

/-- A flow's entry is positive and at most the flow's loss volume. -/
def EntryOk (b : Buffer) (f : FlowSrc) : Prop :=
  ∀ e, b.entry f = some e → 0 < e.value ∧ (e.value.toNat : ℤ) ≤ b.lossVolume f
    ∧ 0 ≤ htKfsViGet b.flowVolumeMap f

/-- The call leaves its flow's totals below `2 ^ 31`. -/
def Fits (b : Buffer) : UpdateCall → Prop
  | .normal pFlow n => b.volume pFlow + n < 2 ^ 31
  | .loss pFlow n _ => b.lossVolume pFlow + n < 2 ^ 31

theorem toNat_add_toUInt {value : UInt32} {n : ℤ} (hn : 0 ≤ n) (h : value.toNat + n < 2 ^ 31) :
    ((value + toUInt n).toNat : ℤ) = value.toNat + n := by
  have hnat := toNat_toUInt hn (show n < 2 ^ 32 by omega)
  rw [UInt32.toNat_add]
  omega

theorem EntryOk.updateFlowNormalVolume (h : b.EntryOk f) {n : ℤ} (hn : 0 < n)
    (hlt : b.volume g + n < 2 ^ 31) : (b.updateFlowNormalVolume setting g n).EntryOk f := by
  intro e he
  rw [entry_updateFlowNormalVolume] at he
  obtain ⟨hpos, hle, hvol⟩ := h e he
  have hg := b.volume_nonneg g
  rw [lossVolume_updateFlowNormalVolume, b.get_flowVolumeMap_updateFlowNormalVolume g f hn hlt]
  refine ⟨hpos, hle, ?_⟩
  split_ifs <;> omega

theorem EntryOk.updateFlowLossVolume (hmem : setting.senderSetting.lossMapMemType = .fixed)
    (h : b.EntryOk f) {n : ℤ} (hn : 0 < n) (hlt : b.lossVolume g + n < 2 ^ 31) (rand : ℚ) :
    (b.updateFlowLossVolume setting g n rand).EntryOk f := by
  intro e he
  have hf := b.lossVolume_nonneg f
  rw [b.lossVolume_updateFlowLossVolume g f hn.le hlt, flowVolumeMap_updateFlowLossVolume]
  by_cases hfg : f = g
  · subst hfg
    rcases hold : b.entry f with _ | old
    · obtain ⟨-, hvol, hvalue⟩ := entry_updateFlowLossVolume_of_none hold he
      have hnat := toNat_toUInt hn.le (show n < 2 ^ 32 by omega)
      rw [if_pos ⟨rfl, hvol⟩, UInt32.lt_iff_toNat_lt, hvalue, UInt32.toNat_zero]
      refine ⟨?_, ?_, hvol⟩ <;> omega
    · obtain ⟨hpos, hle, hvol⟩ := h old hold
      rw [entry_updateFlowLossVolume_of_some hmem hn rand hold hpos hvol, Option.some.injEq] at he
      subst he
      have hnat := toNat_add_toUInt hn.le (show old.value.toNat + n < 2 ^ 31 by omega)
      rw [if_pos ⟨rfl, hvol⟩, UInt32.lt_iff_toNat_lt, UInt32.toNat_zero]
      refine ⟨?_, ?_, hvol⟩ <;> dsimp only <;> omega
  · rw [entry_updateFlowLossVolume_of_ne n rand hfg] at he
    rw [if_neg fun h => hfg h.1, add_zero]
    exact h e he

theorem EntryOk.onBuffer (hmem : setting.senderSetting.lossMapMemType = .fixed) (h : b.EntryOk f)
    {c : UpdateCall} (hc : 0 < c.added) (hfits : b.Fits c) : (c.onBuffer setting b).EntryOk f := by
  cases c with
  | normal g n => exact h.updateFlowNormalVolume hc hfits
  | loss g n rand => exact h.updateFlowLossVolume hmem hc hfits rand

end Buffer

/-! ## Runs -/

section run
variable {setting : CmExperimentSetting} {cs : List UpdateCall} {f : FlowSrc}

/-- The buffer after the calls, from empty. -/
def bufferAfter (setting : CmExperimentSetting) (cs : List UpdateCall) : Buffer :=
  cs.foldl (UpdateCall.onBuffer setting) (Buffer.create setting)

theorem bufferAfter_concat (c : UpdateCall) :
    bufferAfter setting (cs ++ [c]) = c.onBuffer setting (bufferAfter setting cs) := by
  rw [bufferAfter, List.foldl_append]
  rfl

theorem active_eq_bufferAfter {w : DataWarehouse} (hw : w.active = Buffer.create setting) :
    (cs.foldl (UpdateCall.exec setting) w).active = bufferAfter setting cs := by
  rw [UpdateCall.active_foldl_exec, hw, bufferAfter]

theorem levels_bufferAfter (setting : CmExperimentSetting) (hcs : Bounded cs) (f : FlowSrc) :
    (bufferAfter setting cs).Levels setting cs f := by
  have hw : (dataWarehouseInit setting []).active = Buffer.create setting := rfl
  rw [← active_eq_bufferAfter hw]
  exact levels_run setting hw cs hcs f

theorem fits_bufferAfter {c : UpdateCall} (hcs : Bounded (cs ++ [c])) :
    (bufferAfter setting cs).Fits c := by
  have hlevels := levels_bufferAfter setting hcs.of_concat.1
  cases c with
  | normal g n =>
    have hsent := hcs.sent g
    rw [totalSent_concat, UpdateCall.sent, if_pos rfl, ← (hlevels g).volume] at hsent
    exact hsent
  | loss g n rand =>
    have hlost := hcs.lost g
    rw [totalLost_concat, UpdateCall.lost, if_pos rfl] at hlost
    have hle := (hlevels g).lossVolume
    show _ + n < _
    omega

theorem entryOk_bufferAfter (hmem : setting.senderSetting.lossMapMemType = .fixed)
    (hcs : Bounded cs) (f : FlowSrc) : (bufferAfter setting cs).EntryOk f := by
  induction cs using List.reverseRecOn with
  | nil =>
    intro e he
    cases he
  | append_singleton cs c ih =>
    obtain ⟨hcs', hc⟩ := hcs.of_concat
    rw [bufferAfter_concat]
    exact (ih hcs').onBuffer hmem hc (fits_bufferAfter hcs)

/-- From the loss that installed it, an entry holds all losses of its flow. -/
theorem entry_since_install (hmem : setting.senderSetting.lossMapMemType = .fixed)
    {before : List UpdateCall} {c : UpdateCall}
    (hnone : (bufferAfter setting before).entry f = none)
    (hsome : (bufferAfter setting (before ++ [c])).entry f ≠ none) (after : List UpdateCall)
    (hcs : Bounded (before ++ c :: after)) :
    ∃ e, (bufferAfter setting (before ++ c :: after)).entry f = some e
      ∧ (e.value.toNat : ℤ) = totalLost (c :: after) f := by
  induction after using List.reverseRecOn with
  | nil =>
    obtain ⟨e, he⟩ := Option.ne_none_iff_exists'.1 hsome
    refine ⟨e, he, ?_⟩
    rw [bufferAfter_concat] at he
    cases c with
    | normal g n =>
      rw [UpdateCall.onBuffer, Buffer.entry_updateFlowNormalVolume, hnone] at he
      cases he
    | loss g n rand =>
      by_cases hf : f = g
      · subst hf
        obtain ⟨hn, -, hvalue⟩ := Buffer.entry_updateFlowLossVolume_of_none hnone he
        have hlost := hcs.lost f
        have hbefore := totalLost_nonneg hcs.of_concat.1.pos f
        rw [totalLost_concat, UpdateCall.lost, if_pos rfl] at hlost
        rw [hvalue, toNat_toUInt hn.le (by omega)]
        simp [totalLost, UpdateCall.lost]
      · rw [UpdateCall.onBuffer, Buffer.entry_updateFlowLossVolume_of_ne n rand hf, hnone] at he
        cases he
  | append_singleton after d ih =>
    rw [← List.cons_append, ← List.append_assoc] at hcs ⊢
    obtain ⟨hcs', hd⟩ := hcs.of_concat
    obtain ⟨e, he, hvalue⟩ := ih hcs'
    obtain ⟨hpos, -, hvol⟩ := entryOk_bufferAfter hmem hcs' f e he
    rw [bufferAfter_concat, totalLost_concat]
    cases d with
    | normal g n =>
      exact ⟨e, by rw [UpdateCall.onBuffer, Buffer.entry_updateFlowNormalVolume, he],
        by rw [hvalue, UpdateCall.lost, add_zero]⟩
    | loss g n rand =>
      have hn : 0 < n := hd
      by_cases hf : f = g
      · subst hf
        refine ⟨_, Buffer.entry_updateFlowLossVolume_of_some hmem hn rand he hpos hvol, ?_⟩
        have hlost := hcs.lost f
        have hbefore := totalLost_nonneg (fun c hc => hcs'.pos c (List.mem_append_left _ hc)) f
        rw [totalLost_concat, UpdateCall.lost, if_pos rfl] at hlost
        have hsplit : totalLost (before ++ c :: after) f
            = totalLost before f + totalLost (c :: after) f := by simp [totalLost]
        rw [UpdateCall.lost, if_pos rfl, ← hvalue]
        exact Buffer.toNat_add_toUInt hn.le (by omega)
      · exact ⟨e,
          by rw [UpdateCall.onBuffer, Buffer.entry_updateFlowLossVolume_of_ne n rand hf, he],
          by rw [hvalue, UpdateCall.lost, if_neg hf, add_zero]⟩

theorem value_of_entry {b : Buffer} {e : EntryKfsFixSize} (he : b.entry f = some e)
    (hlt : e.value.toNat < 2 ^ 31) : b.fixedFlowLossVolumeMap.value f = e.value.toNat := by
  rw [Buffer.entry] at he
  rw [HtKfsFixSize.value, he]
  exact toInt_eq_toNat hlt

/-- The map of fixed size holds no more than the other. -/
theorem value_le_lossVolume (hmem : setting.senderSetting.lossMapMemType = .fixed)
    (hcs : Bounded cs) (f : FlowSrc) :
    (bufferAfter setting cs).fixedFlowLossVolumeMap.value f
      ≤ (bufferAfter setting cs).lossVolume f := by
  have hok := entryOk_bufferAfter hmem hcs f
  have hle := (levels_bufferAfter setting hcs f).lossVolume
  have hlt := hcs.lost f
  generalize bufferAfter setting cs = b at hok hle
  rcases he : b.entry f with _ | e
  · have hnone := b.lossVolume_nonneg f
    rw [Buffer.entry] at he
    rw [HtKfsFixSize.value, he]
    exact hnone
  · obtain ⟨-, hvalue, -⟩ := hok e he
    rw [value_of_entry he (by omega)]
    exact hvalue

/-- The buffers have the same volumes, and loss volumes in the map of infinite size. -/
def SameVolumes (b b' : Buffer) : Prop :=
  b.flowVolumeMap = b'.flowVolumeMap ∧ b.flowLossVolumeMap = b'.flowLossVolumeMap

/-- The volumes are kept alike under all settings. -/
theorem SameVolumes.onBuffer {setting' : CmExperimentSetting} {b b' : Buffer}
    (h : SameVolumes b b') (c : UpdateCall) :
    SameVolumes (c.onBuffer setting b) (c.onBuffer setting' b') := by
  obtain ⟨hvolume, hloss⟩ := h
  cases c with
  | normal g n =>
    have hmaps : ∀ (s : CmExperimentSetting) (b : Buffer),
        (b.updateFlowNormalVolume s g n).flowVolumeMap = (if 0 < n then htKfsViSet b.flowVolumeMap g
            (toUInt (intAdd (orZero (htKfsViGet b.flowVolumeMap g)) n)) else b.flowVolumeMap)
          ∧ (b.updateFlowNormalVolume s g n).flowLossVolumeMap = b.flowLossVolumeMap := by
      intro s b
      unfold Buffer.updateFlowNormalVolume
      split_ifs <;> exact ⟨rfl, rfl⟩
    exact ⟨by rw [UpdateCall.onBuffer, UpdateCall.onBuffer, (hmaps _ b).1, (hmaps _ b').1, hvolume],
      by rw [UpdateCall.onBuffer, UpdateCall.onBuffer, (hmaps _ b).2, (hmaps _ b').2, hloss]⟩
  | loss g n rand =>
    have hmap : ∀ (s : CmExperimentSetting) (b : Buffer),
        (b.updateFlowLossVolume s g n rand).flowLossVolumeMap
          = if 0 < n then if htKfsViGet b.flowVolumeMap g < 0 then b.flowLossVolumeMap
            else htKfsViSet b.flowLossVolumeMap g
              (toUInt (intAdd (orZero (htKfsViGet b.flowLossVolumeMap g)) n))
            else b.flowLossVolumeMap := by
      intro s b
      unfold Buffer.updateFlowLossVolume
      dsimp only
      split_ifs <;> rfl
    exact ⟨by simp only [UpdateCall.onBuffer, Buffer.flowVolumeMap_updateFlowLossVolume, hvolume],
      by rw [UpdateCall.onBuffer, UpdateCall.onBuffer, hmap, hmap, hvolume, hloss]⟩

theorem sameVolumes_bufferAfter (setting setting' : CmExperimentSetting) (cs : List UpdateCall) :
    SameVolumes (bufferAfter setting cs) (bufferAfter setting' cs) := by
  induction cs using List.reverseRecOn with
  | nil => exact ⟨rfl, rfl⟩
  | append_singleton cs c ih =>
    rw [bufferAfter_concat, bufferAfter_concat]
    exact ih.onBuffer c

theorem SameVolumes.lossVolume_eq {b b' : Buffer} (h : SameVolumes b b') (f : FlowSrc) :
    b.lossVolume f = b'.lossVolume f := by
  rw [Buffer.lossVolume, h.2, Buffer.lossVolume]

/-- The level is the one of the loss volume in use. -/
theorem level_bufferAfter (setting : CmExperimentSetting) (hcs : Bounded cs) (f : FlowSrc) :
    let b := bufferAfter setting cs
    let volume := htKfsViGet b.flowVolumeMap f
    let lossVolume := b.lossVolumeUsed setting f (b.lossVolume f)
    htKfsViGet b.flowSelectedLevelMap f
      = if volume = -1 then -1
        else levelOf setting volume lossVolume (setting.lossRate volume lossVolume) := by
  intro b volume lossVolume
  have hok := (levels_bufferAfter setting hcs f).levelOk
  split_ifs with hvol
  · exact hok.absent hvol
  · exact hok.level hvol

theorem level_fixed_le (setting : CmExperimentSetting) (hcs : Bounded cs) (f : FlowSrc) :
    htKfsViGet (bufferAfter (setting.withLossMap .fixed) cs).flowSelectedLevelMap f
      ≤ htKfsViGet (bufferAfter (setting.withLossMap .infinite) cs).flowSelectedLevelMap f := by
  have hmem : (setting.withLossMap .fixed).senderSetting.lossMapMemType = .fixed := rfl
  have hvalue := value_le_lossVolume hmem hcs f
  have hsame := sameVolumes_bufferAfter (setting.withLossMap .fixed)
    (setting.withLossMap .infinite) cs
  have hpresent := (levels_bufferAfter (setting.withLossMap .infinite) hcs f).present
  rw [hsame.lossVolume_eq] at hvalue
  rw [level_bufferAfter _ hcs, level_bufferAfter _ hcs, hsame.1]
  split_ifs with hvol
  · exact le_rfl
  · exact levelOf_mono setting (by omega) hvalue

/-- Where a property of lists first holds, along a list for which it does. -/
theorem exists_first_holds {α : Type*} {P : List α → Prop} (hnil : ¬P []) {l : List α} (hl : P l) :
    ∃ before a after, l = before ++ a :: after ∧ ¬P before ∧ P (before ++ [a]) := by
  induction l using List.reverseRecOn with
  | nil => exact absurd hl hnil
  | append_singleton l a ih =>
    by_cases hP : P l
    · obtain ⟨before, x, after, rfl, hbefore, hx⟩ := ih hP
      exact ⟨before, x, after ++ [a], by simp, hbefore, hx⟩
    · exact ⟨l, a, [], rfl, hP, hl⟩

theorem entry_updates (setting : CmExperimentSetting) (cs : List UpdateCall) (f : FlowSrc) :
    (bufferAfter setting cs).entry f = (bufferAfter setting (updates cs)).entry f :=
  maps_updates setting cs (Buffer.entry · f) (fun _ => rfl) _

theorem level_updates (setting : CmExperimentSetting) (cs : List UpdateCall) (f : FlowSrc) :
    htKfsViGet (bufferAfter setting cs).flowSelectedLevelMap f
      = htKfsViGet (bufferAfter setting (updates cs)).flowSelectedLevelMap f :=
  maps_updates setting cs (fun b => htKfsViGet b.flowSelectedLevelMap f) (fun _ => rfl) _

theorem lossVolume_updates (setting : CmExperimentSetting) (cs : List UpdateCall) (f : FlowSrc) :
    (bufferAfter setting cs).lossVolume f = (bufferAfter setting (updates cs)).lossVolume f :=
  maps_updates setting cs (Buffer.lossVolume · f) (fun _ => rfl) _

theorem Bounded.of_append {cs cs' : List UpdateCall} (h : Bounded (cs ++ cs')) : Bounded cs := by
  induction cs' using List.reverseRecOn with
  | nil => rwa [List.append_nil] at h
  | append_singleton cs' c ih =>
    rw [← List.append_assoc] at h
    exact ih h.of_concat.1

theorem value_updates (setting : CmExperimentSetting) (cs : List UpdateCall) (f : FlowSrc) :
    (bufferAfter setting cs).fixedFlowLossVolumeMap.value f
      = (bufferAfter setting (updates cs)).fixedFlowLossVolumeMap.value f :=
  maps_updates setting cs (fun b => b.fixedFlowLossVolumeMap.value f) (fun _ => rfl) _

theorem value_of_installed (hmem : setting.senderSetting.lossMapMemType = .fixed)
    {before after : List UpdateCall} {c : UpdateCall}
    (hcs : Bounded (updates (before ++ c :: after)))
    (hnone : (bufferAfter setting before).entry f = none)
    (hsome : (bufferAfter setting (before ++ [c])).entry f ≠ none) :
    (bufferAfter setting (before ++ c :: after)).fixedFlowLossVolumeMap.value f
      = totalLost (updates (c :: after)) f := by
  rw [entry_updates] at hnone hsome
  rw [updates_append] at hsome
  -- a call with no volume installs nothing
  have hc : 0 < c.added := by
    by_contra hc
    rw [updates_cons_of_not hc, updates_nil, List.append_nil] at hsome
    exact hsome hnone
  rw [updates_cons hc] at hsome ⊢
  rw [updates_append, updates_cons hc] at hcs
  obtain ⟨e, he, heq⟩ := entry_since_install hmem hnone hsome (updates after) hcs
  have hlost := hcs.lost f
  have hbefore := totalLost_nonneg (fun c hc => hcs.pos c (List.mem_append_left _ hc)) f
  have hadd : totalLost (updates before ++ c :: updates after) f
      = totalLost (updates before) f + totalLost (c :: updates after) f := by simp [totalLost]
  rw [value_updates, updates_append, updates_cons hc, value_of_entry he (by omega), heq]

theorem value_of_never_installed
    (h : ∀ before c after, cs = before ++ c :: after →
      (bufferAfter setting before).entry f = none →
      (bufferAfter setting (before ++ [c])).entry f = none) :
    (bufferAfter setting cs).fixedFlowLossVolumeMap.value f = 0 := by
  rcases he : (bufferAfter setting cs).entry f with _ | e
  · rw [Buffer.entry] at he
    rw [HtKfsFixSize.value, he]
  · have hsome : (bufferAfter setting cs).entry f ≠ none := by simp [he]
    obtain ⟨before, c, after, hsplit, hnone, hinst⟩ := exists_first_holds
      (P := fun ds => (bufferAfter setting ds).entry f ≠ none) (fun hne => hne rfl) hsome
    exact absurd (h before c after hsplit (not_not.1 hnone)) hinst

end run

/-- The call `c`, made after `before`, gives the flow its entry in the loss map of fixed size. -/
def Installs (setting : CmExperimentSetting) (w : DataWarehouse) (before : List UpdateCall)
    (c : UpdateCall) (f : FlowSrc) : Prop :=
  (before.foldl (UpdateCall.exec setting) w).active.entry f = none
    ∧ ((before ++ [c]).foldl (UpdateCall.exec setting) w).active.entry f ≠ none

/-- Bounded memory only under-reports.  After every call, the loss map of fixed size holds what its
flow lost since the call that installed the entry, 0 with no entry, and no more than the map of
infinite size holds after the same calls; so the level is no higher either. -/
theorem fixed_under_reports (setting : CmExperimentSetting) (w : DataWarehouse)
    (hw : w.active = Buffer.create setting) (cs rest : List UpdateCall)
    (hcs : Bounded (updates (cs ++ rest))) (f : FlowSrc) :
    let fixed := (cs.foldl (UpdateCall.exec (setting.withLossMap .fixed)) w).active
    let infinite := (cs.foldl (UpdateCall.exec (setting.withLossMap .infinite)) w).active
    let installs := Installs (setting.withLossMap .fixed) w
    (∀ before c after, cs = before ++ c :: after → installs before c f →
        fixed.fixedFlowLossVolumeMap.value f = totalLost (updates (c :: after)) f)
      ∧ ((∀ before c after, cs = before ++ c :: after → ¬installs before c f) →
        fixed.fixedFlowLossVolumeMap.value f = 0)
      ∧ fixed.fixedFlowLossVolumeMap.value f ≤ infinite.lossVolume f
      ∧ htKfsViGet fixed.flowSelectedLevelMap f ≤ htKfsViGet infinite.flowSelectedLevelMap f := by
  intro fixed infinite installs
  have hcs : Bounded (updates cs) := by
    rw [updates_append] at hcs
    exact hcs.of_append
  have hmem : (setting.withLossMap .fixed).senderSetting.lossMapMemType = .fixed := rfl
  have hfixed : ∀ ds, (ds.foldl (UpdateCall.exec (setting.withLossMap .fixed)) w).active
      = bufferAfter (setting.withLossMap .fixed) ds := fun ds => active_eq_bufferAfter hw
  have hinfinite : infinite = bufferAfter (setting.withLossMap .infinite) cs :=
    active_eq_bufferAfter hw
  simp only [fixed, hinfinite, hfixed]
  refine ⟨fun before c after hsplit hinst => ?_, fun hnever => ?_, ?_, ?_⟩
  · simp only [installs, Installs, hfixed] at hinst
    subst hsplit
    exact value_of_installed hmem hcs hinst.1 hinst.2
  · simp only [installs, Installs, hfixed, not_and, not_not] at hnever
    exact value_of_never_installed hnever
  · rw [value_updates, lossVolume_updates, ← (sameVolumes_bufferAfter (setting.withLossMap .fixed)
      (setting.withLossMap .infinite) (updates cs)).lossVolume_eq]
    exact value_le_lossVolume hmem hcs f
  · rw [level_updates, level_updates (setting.withLossMap .infinite)]
    exact level_fixed_le setting hcs f

/-- The first loss is sampled, and the second is held with it. -/
theorem fixed_under_reports_example :
    let setting := { exampleSetting with senderSetting := ⟨.fixed, 1, 1 / 100⟩ }
    let w := dataWarehouseInit setting []
    let cs : List UpdateCall :=
      [.normal ⟨1, 2⟩ 100, .loss ⟨1, 2⟩ 30 (1 / 4), .loss ⟨1, 2⟩ 40 (9 / 10)]
    let fixed := (cs.foldl (UpdateCall.exec (setting.withLossMap .fixed)) w).active
    let infinite := (cs.foldl (UpdateCall.exec (setting.withLossMap .infinite)) w).active
    fixed.fixedFlowLossVolumeMap.value ⟨1, 2⟩ = 70
      ∧ fixed.fixedFlowLossVolumeMap.value ⟨1, 2⟩ ≤ infinite.lossVolume ⟨1, 2⟩
      ∧ htKfsViGet fixed.flowSelectedLevelMap ⟨1, 2⟩
        ≤ htKfsViGet infinite.flowSelectedLevelMap ⟨1, 2⟩ := by
  intro setting w cs fixed infinite
  have hcs : Bounded (updates (cs ++ [])) := by
    refine ⟨fun c hc => of_decide_eq_true (List.mem_filter.1 hc).2, fun f => ?_, fun f => ?_⟩
    · show (if f = ⟨1, 2⟩ then (100 : ℤ) else 0) + (0 + (0 + 0)) < _
      split_ifs <;> omega
    · show 0 + ((if f = ⟨1, 2⟩ then (30 : ℤ) else 0) + ((if f = ⟨1, 2⟩ then 40 else 0) + 0)) < _
      split_ifs <;> omega
  obtain ⟨hvalue, -, hle, hlevel⟩ := fixed_under_reports setting w rfl cs [] hcs ⟨1, 2⟩
  have hinstalls : Installs (setting.withLossMap .fixed) w [.normal ⟨1, 2⟩ 100]
      (.loss ⟨1, 2⟩ 30 (1 / 4)) ⟨1, 2⟩ := ⟨by decide +kernel, by decide +kernel⟩
  have htotal : totalLost (updates [.loss ⟨1, 2⟩ 30 (1 / 4), .loss ⟨1, 2⟩ 40 (9 / 10)]) ⟨1, 2⟩
      = 70 := by
    decide +kernel
  exact ⟨(hvalue _ _ _ rfl hinstalls).trans htotal, hle, hlevel⟩

end CMTestbed
