import CMTestbed.Proofs.Levels
import CMTestbed.Proofs.LossCounter
import Mathlib.Algebra.Order.BigOperators.Group.List

/-!
# The order of the updates

With the loss map of infinite size, each update leaves its flow with the maps' values of its volume
and loss volume so far, and other flows as they were.  If no loss of a flow comes before the flow's
first volume, these are its totals, in whatever order the updates came.
-/

namespace CMTestbed

namespace UpdateCall

variable {setting : CmExperimentSetting}

/-- The call on the active buffer. -/
def onBuffer (setting : CmExperimentSetting) (b : Buffer) : UpdateCall → Buffer
  | normal pFlow n => b.updateFlowNormalVolume setting pFlow n
  | loss pFlow n rand => b.updateFlowLossVolume setting pFlow n rand

/-- What the call adds to `volume_lost`. -/
def counted : UpdateCall → ℤ
  | normal _ _ => 0
  | loss _ n _ => n

theorem active_foldl_exec (cs : List UpdateCall) (w : DataWarehouse) :
    (cs.foldl (exec setting) w).active = cs.foldl (onBuffer setting) w.active := by
  induction cs generalizing w with
  | nil => rfl
  | cons c cs ih =>
    rw [List.foldl_cons, List.foldl_cons, ih]
    cases c <;> simp only [exec, updateFlowNormalVolume, updateFlowLossVolume,
      DataWarehouse.active_modifyActive, onBuffer]

theorem volumeLost_onBuffer (b : Buffer) (c : UpdateCall) :
    (c.onBuffer setting b).volumeLost = b.volumeLost + UInt64.ofInt c.counted := by
  cases c with
  | normal f n =>
    rw [onBuffer, b.volumeLost_updateFlowNormalVolume f]
    exact (UInt64.add_zero _).symm
  | loss f n rand => exact b.volumeLost_updateFlowLossVolume f n rand

/-- A call with no volume changes at most the counter. -/
theorem withVolumeLost_onBuffer {c : UpdateCall} (h : ¬0 < c.added) (b : Buffer) :
    { c.onBuffer setting b with volumeLost := 0 } = { b with volumeLost := 0 } := by
  cases c <;>
    simp only [added] at h <;>
    simp only [onBuffer, Buffer.updateFlowNormalVolume, Buffer.updateFlowLossVolume, if_neg h]

/-- What a call does to the maps does not depend on the counter. -/
theorem onBuffer_withVolumeLost (c : UpdateCall) (b : Buffer) :
    { c.onBuffer setting { b with volumeLost := 0 } with volumeLost := 0 }
      = { c.onBuffer setting b with volumeLost := 0 } := by
  cases c with
  | normal f n =>
    simp only [onBuffer, Buffer.updateFlowNormalVolume]
    split_ifs <;> rfl
  | loss f n rand =>
    simp only [onBuffer, Buffer.updateFlowLossVolume]
    split_ifs <;> rfl

end UpdateCall

/-- The calls that update the maps: the others, with no volume, are at most counted. -/
def updates (cs : List UpdateCall) : List UpdateCall := cs.filter fun c => 0 < c.added

section updates
variable (setting : CmExperimentSetting) (cs : List UpdateCall)

@[simp] theorem updates_nil : updates [] = [] := rfl

theorem updates_append (cs cs' : List UpdateCall) :
    updates (cs ++ cs') = updates cs ++ updates cs' := List.filter_append ..

variable {cs} in
theorem updates_cons {c : UpdateCall} (h : 0 < c.added) : updates (c :: cs) = c :: updates cs :=
  List.filter_cons_of_pos (by simpa using h)

variable {cs} in
theorem updates_cons_of_not {c : UpdateCall} (h : ¬0 < c.added) : updates (c :: cs) = updates cs :=
  List.filter_cons_of_neg (by simpa using h)

theorem withVolumeLost_updates (b : Buffer) :
    { cs.foldl (UpdateCall.onBuffer setting) b with volumeLost := 0 }
      = { (updates cs).foldl (UpdateCall.onBuffer setting) b with volumeLost := 0 } := by
  induction cs using List.reverseRecOn with
  | nil => rfl
  | append_singleton cs c ih =>
    rw [updates_append, List.foldl_append, List.foldl_append, List.foldl_cons, List.foldl_nil]
    by_cases hc : 0 < c.added
    · rw [updates_cons hc]
      show _ = { c.onBuffer setting _ with volumeLost := 0 }
      rw [← c.onBuffer_withVolumeLost, ih, c.onBuffer_withVolumeLost]
    · rw [updates_cons_of_not hc, UpdateCall.withVolumeLost_onBuffer hc, ih]
      rfl

/-- What is read of the maps does not depend on the other calls. -/
theorem maps_updates {A : Type*} (read : Buffer → A)
    (hread : ∀ b, read { b with volumeLost := 0 } = read b) (b : Buffer) :
    read (cs.foldl (UpdateCall.onBuffer setting) b)
      = read ((updates cs).foldl (UpdateCall.onBuffer setting) b) := by
  rw [← hread, withVolumeLost_updates, hread]

theorem volumeLost_foldl (b : Buffer) : (cs.foldl (UpdateCall.onBuffer setting) b).volumeLost
    = b.volumeLost + UInt64.ofInt (cs.map UpdateCall.counted).sum := by
  induction cs generalizing b with
  | nil => exact (UInt64.add_zero _).symm
  | cons c cs ih =>
    rw [List.foldl_cons, ih, c.volumeLost_onBuffer, List.map_cons, List.sum_cons,
      UInt64.ofInt_add, UInt64.add_assoc]

end updates

/-! ## What a flow is found with -/

/-- What the four maps give for a flow. -/
structure FlowLookups where
  volume : ℤ
  lossVolume : ℤ
  lossRate : ℚ
  selectedLevel : ℤ
  deriving DecidableEq

/-- The lookups of a flow updated last with these volumes, of which the loss may be -1 for none. -/
def FlowLookups.measured (setting : CmExperimentSetting) (volume lossVolume : ℤ) : FlowLookups where
  volume := volume
  lossVolume := lossVolume
  lossRate := setting.lossRate volume (orZero lossVolume)
  selectedLevel := levelOf setting volume (orZero lossVolume)
    (setting.lossRate volume (orZero lossVolume))

/-- The lookups of a flow with these totals. -/
def FlowLookups.ofTotals (setting : CmExperimentSetting) (sent lost : ℤ) : FlowLookups :=
  if 0 < sent then measured setting sent (if 0 < lost then lost else -1) else ⟨-1, -1, -1, -1⟩

namespace Buffer

variable {setting : CmExperimentSetting} (b : Buffer) (f : FlowSrc)

def lookups : FlowLookups where
  volume := htKfsViGet b.flowVolumeMap f
  lossVolume := htKfsViGet b.flowLossVolumeMap f
  lossRate := htKfsVfGet b.flowLossRateMap f
  selectedLevel := htKfsViGet b.flowSelectedLevelMap f

theorem lookups_create : (create setting).lookups f = FlowLookups.ofTotals setting 0 0 := by
  simp [lookups, create, FlowLookups.ofTotals]

theorem lossVolumeUsed_infinite (hmem : setting.senderSetting.lossMapMemType = .infinite)
    (lossVolume : ℤ) : b.lossVolumeUsed setting f lossVolume = lossVolume := by
  rw [lossVolumeUsed, hmem]

/-- Setting one flow's rate and level leaves what is found of the others. -/
theorem lookups_updateRateAndLevel_of_ne {g : FlowSrc} (hg : g ≠ f) (volume lossVolume : ℤ) :
    (b.updateRateAndLevel setting f volume lossVolume).lookups g = b.lookups g := by
  simp only [lookups, updateRateAndLevel, htKfsVfGet_set,
    htKfsViGet_updateFlowSelectedLevelMap, if_neg hg]

theorem lookups_updateFlowNormalVolume_of_ne {g f : FlowSrc} (n : ℤ) (hg : g ≠ f) :
    (b.updateFlowNormalVolume setting f n).lookups g = b.lookups g := by
  unfold updateFlowNormalVolume
  split_ifs
  · rw [lookups_updateRateAndLevel_of_ne _ _ hg]
    simp only [lookups, htKfsViGet_set, if_neg hg]
  · rfl

theorem lookups_updateFlowLossVolume_of_ne {g f : FlowSrc} (n : ℤ) (rand : ℚ) (hg : g ≠ f) :
    (b.updateFlowLossVolume setting f n rand).lookups g = b.lookups g := by
  unfold updateFlowLossVolume
  dsimp only
  split_ifs
  · rfl
  · rw [recordLoss, lookups_updateRateAndLevel_of_ne _ _ hg]
    simp only [lookups, htKfsViGet_set, if_neg hg]
  · rfl

theorem lookups_updateFlowNormalVolume (hmem : setting.senderSetting.lossMapMemType = .infinite)
    {n : ℤ} (hn : 0 < n) (h : b.volume f + n < 2 ^ 31) :
    (b.updateFlowNormalVolume setting f n).lookups f
      = .measured setting (b.volume f + n) (htKfsViGet b.flowLossVolumeMap f) := by
  have h₀ := b.volume_nonneg f
  have hadd := b.intAdd_volume f hn.le h
  simp only [updateFlowNormalVolume, if_pos hn, hadd, lossVolumeUsed_infinite _ _ hmem, lookups,
    updateRateAndLevel, htKfsViGet_set, htKfsVfGet_set, htKfsViGet_updateFlowSelectedLevelMap,
    toInt_toUInt (show 0 ≤ b.volume f + n by omega) h, if_true, FlowLookups.measured]

theorem lookups_updateFlowLossVolume (hmem : setting.senderSetting.lossMapMemType = .infinite)
    {n : ℤ} (hn : 0 < n) (h : b.lossVolume f + n < 2 ^ 31)
    (hvol : 0 ≤ htKfsViGet b.flowVolumeMap f) (rand : ℚ) :
    (b.updateFlowLossVolume setting f n rand).lookups f
      = .measured setting (htKfsViGet b.flowVolumeMap f) (b.lossVolume f + n) := by
  have h₀ := b.lossVolume_nonneg f
  have hadd := b.intAdd_lossVolume f hn.le h
  have hpos : 0 ≤ b.lossVolume f + n := by omega
  simp only [updateFlowLossVolume, if_pos hn, if_neg (not_lt.2 hvol), recordLoss, hadd,
    lossVolumeUsed_infinite _ _ hmem, lookups, updateRateAndLevel, htKfsViGet_set, htKfsVfGet_set,
    htKfsViGet_updateFlowSelectedLevelMap, toInt_toUInt hpos h, if_true, FlowLookups.measured,
    orZero_of_nonneg hpos]

end Buffer

/-! ## Runs -/

/-- No loss of a flow comes before the flow's first volume. -/
def VolumeFirst (cs : List UpdateCall) : Prop :=
  ∀ before after f n rand m, cs = before ++ .loss f n rand :: after → .normal f m ∈ after →
    ∃ m', .normal f m' ∈ before

section totals
variable {cs cs' : List UpdateCall} {c : UpdateCall} {f : FlowSrc}

theorem totalSent_perm (h : cs.Perm cs') (f : FlowSrc) : totalSent cs f = totalSent cs' f :=
  (h.map _).sum_eq

theorem totalLost_perm (h : cs.Perm cs') (f : FlowSrc) : totalLost cs f = totalLost cs' f :=
  (h.map _).sum_eq

theorem Bounded.perm (h : Bounded cs) (hperm : cs.Perm cs') : Bounded cs' where
  pos := fun c hc => h.pos c (hperm.mem_iff.2 hc)
  sent := fun f => totalSent_perm hperm f ▸ h.sent f
  lost := fun f => totalLost_perm hperm f ▸ h.lost f

theorem UpdateCall.sent_nonneg (h : 0 < c.added) (f : FlowSrc) : 0 ≤ c.sent f := by
  cases c with
  | normal g n =>
    simp only [sent, added] at h ⊢
    split_ifs <;> omega
  | loss g n rand => exact le_rfl

theorem UpdateCall.lost_nonneg (h : 0 < c.added) (f : FlowSrc) : 0 ≤ c.lost f := by
  cases c with
  | normal g n => exact le_rfl
  | loss g n rand =>
    simp only [lost, added] at h ⊢
    split_ifs <;> omega

theorem totalSent_nonneg (h : ∀ c ∈ cs, 0 < c.added) (f : FlowSrc) : 0 ≤ totalSent cs f :=
  List.sum_nonneg (List.forall_mem_map.2 fun c hc => c.sent_nonneg (h c hc) f)

theorem totalLost_nonneg (h : ∀ c ∈ cs, 0 < c.added) (f : FlowSrc) : 0 ≤ totalLost cs f :=
  List.sum_nonneg (List.forall_mem_map.2 fun c hc => c.lost_nonneg (h c hc) f)

theorem totalSent_pos {m : ℤ} (h : ∀ c ∈ cs, 0 < c.added) (hm : .normal f m ∈ cs) :
    0 < totalSent cs f := by
  obtain ⟨before, after, rfl⟩ := List.append_of_mem hm
  have hpos : 0 < m := h _ hm
  have hbefore : 0 ≤ totalSent before f :=
    totalSent_nonneg (fun c hc => h c (List.mem_append_left _ hc)) f
  have hafter : 0 ≤ totalSent after f :=
    totalSent_nonneg (fun c hc => h c (List.mem_append_right _ (List.mem_cons_of_mem _ hc))) f
  have hsplit : totalSent (before ++ .normal f m :: after) f
      = totalSent before f + (m + totalSent after f) := by
    simp [totalSent, UpdateCall.sent]
  omega

theorem exists_loss_of_totalLost (h : totalLost cs f ≠ 0) : ∃ n rand, .loss f n rand ∈ cs := by
  by_contra! hnone
  refine h (List.sum_eq_zero fun x hx => ?_)
  obtain ⟨c, hc, rfl⟩ := List.mem_map.1 hx
  cases c with
  | normal g n => rfl
  | loss g n rand =>
    refine if_neg fun hg => ?_
    subst hg
    exact hnone n rand hc

theorem VolumeFirst.of_concat (h : VolumeFirst (cs ++ [c])) : VolumeFirst cs := by
  intro before after f n rand m hcs hm
  exact h before (after ++ [c]) f n rand m (by simp [hcs]) (List.mem_append_left _ hm)

/-- Losses of one flow only, after a volume of it. -/
theorem volumeFirst_cons_normal (m : ℤ) (h : ∀ g n rand, .loss g n rand ∈ cs → g = f) :
    VolumeFirst (.normal f m :: cs) := by
  intro before after g n rand m' hcs hm'
  rcases before with _ | ⟨d, before⟩
  · cases hcs
  · rw [List.cons_append, List.cons.injEq] at hcs
    obtain ⟨rfl, rfl⟩ := hcs
    obtain rfl : g = f := h g n rand (by simp)
    exact ⟨m, by simp⟩

/-- Nothing of a flow is lost before its first volume. -/
theorem VolumeFirst.totalLost_eq_zero {n : ℤ} (h : VolumeFirst (cs ++ [.normal f n]))
    (hpos : ∀ c ∈ cs, 0 < c.added) (hsent : totalSent cs f = 0) : totalLost cs f = 0 := by
  by_contra hne
  obtain ⟨m, rand, hm⟩ := exists_loss_of_totalLost hne
  obtain ⟨before, after, hcs⟩ := List.append_of_mem hm
  obtain ⟨m', hm'⟩ := h before (after ++ [.normal f n]) f m rand n (by simp [hcs]) (by simp)
  have := totalSent_pos hpos (hcs ▸ List.mem_append_left _ hm')
  omega

end totals

section run
variable {setting : CmExperimentSetting} {b : Buffer} {f : FlowSrc} {sent lost : ℤ}

theorem Buffer.volume_of_lookups (h : b.lookups f = FlowLookups.ofTotals setting sent lost) :
    htKfsViGet b.flowVolumeMap f = if 0 < sent then sent else -1 := by
  have hvolume : htKfsViGet b.flowVolumeMap f = (FlowLookups.ofTotals setting sent lost).volume :=
    congrArg FlowLookups.volume h
  rw [hvolume, FlowLookups.ofTotals]
  split_ifs <;> rfl

theorem Buffer.lossVolume_of_lookups (h : b.lookups f = FlowLookups.ofTotals setting sent lost) :
    htKfsViGet b.flowLossVolumeMap f = if 0 < sent ∧ 0 < lost then lost else -1 := by
  have hloss : htKfsViGet b.flowLossVolumeMap f
      = (FlowLookups.ofTotals setting sent lost).lossVolume := congrArg FlowLookups.lossVolume h
  rw [hloss, FlowLookups.ofTotals]
  by_cases hsent : 0 < sent
  · rw [if_pos hsent]
    simp only [hsent, true_and]
    rfl
  · rw [if_neg hsent, if_neg fun h => hsent h.1]

/-- A volume is added to its flow's total. -/
theorem Buffer.lookups_normal (hmem : setting.senderSetting.lossMapMemType = .infinite)
    (h : b.lookups f = FlowLookups.ofTotals setting sent lost) (hsent : 0 ≤ sent)
    (hzero : sent = 0 → lost = 0) {n : ℤ} (hn : 0 < n) (hlt : sent + n < 2 ^ 31) :
    (b.updateFlowNormalVolume setting f n).lookups f
      = FlowLookups.ofTotals setting (sent + n) lost := by
  have hvolume : b.volume f = sent := by
    rw [Buffer.volume, volume_of_lookups h, orZero]
    split_ifs <;> omega
  have hget : htKfsViGet b.flowLossVolumeMap f = if 0 < lost then lost else -1 := by
    rw [lossVolume_of_lookups h]
    refine if_congr (and_iff_right_of_imp fun hpos => ?_) rfl rfl
    omega
  rw [b.lookups_updateFlowNormalVolume f hmem hn (by omega), hvolume, hget,
    FlowLookups.ofTotals, if_pos (show 0 < sent + n by omega)]

/-- A loss is added to its flow's total, which is not found before the flow has a volume. -/
theorem Buffer.lookups_loss (hmem : setting.senderSetting.lossMapMemType = .infinite)
    (h : b.lookups f = FlowLookups.ofTotals setting sent lost) (hlost : 0 ≤ lost) {n : ℤ}
    (hn : 0 < n) (hlt : lost + n < 2 ^ 31) (rand : ℚ) :
    (b.updateFlowLossVolume setting f n rand).lookups f
      = FlowLookups.ofTotals setting sent (lost + n) := by
  have hget := volume_of_lookups h
  have hloss : b.lossVolume f = if 0 < sent then lost else 0 := by
    rw [Buffer.lossVolume, lossVolume_of_lookups h, orZero]
    split_ifs <;> omega
  have hfits : b.lossVolume f + n < 2 ^ 31 := by
    rw [hloss]
    split_ifs <;> omega
  by_cases hsent : 0 < sent
  · rw [if_pos hsent] at hget hloss
    rw [b.lookups_updateFlowLossVolume f hmem hn hfits (by omega), hget, hloss,
      FlowLookups.ofTotals, if_pos hsent, if_pos (by omega)]
  · rw [if_neg hsent] at hget
    rw [updateFlowLossVolume_unknown hn (by omega)]
    show b.lookups f = _
    rw [h, FlowLookups.ofTotals, FlowLookups.ofTotals, if_neg hsent, if_neg hsent]

/-- A flow is found with what its totals give. -/
theorem lookups_run (hmem : setting.senderSetting.lossMapMemType = .infinite)
    (cs : List UpdateCall) (hcs : Bounded cs) (hfirst : VolumeFirst cs) (f : FlowSrc) :
    (cs.foldl (UpdateCall.onBuffer setting) (Buffer.create setting)).lookups f
      = FlowLookups.ofTotals setting (totalSent cs f) (totalLost cs f) := by
  induction cs using List.reverseRecOn with
  | nil => exact Buffer.lookups_create f
  | append_singleton cs c ih =>
    obtain ⟨hcs', hc⟩ := hcs.of_concat
    specialize ih hcs' hfirst.of_concat
    have hV := totalSent_nonneg hcs'.pos f
    have hL := totalLost_nonneg hcs'.pos f
    have hsent := hcs.sent f
    have hlost := hcs.lost f
    rw [totalSent_concat] at hsent
    rw [totalLost_concat] at hlost
    rw [List.foldl_append, List.foldl_cons, List.foldl_nil, totalSent_concat, totalLost_concat]
    generalize cs.foldl (UpdateCall.onBuffer setting) (Buffer.create setting) = b at ih
    cases c with
    | normal g n =>
      have hn : 0 < n := hc
      by_cases hf : f = g
      · subst hf
        simp only [UpdateCall.sent, UpdateCall.lost, if_true, add_zero] at hsent ⊢
        -- before its first volume, nothing of the flow is lost
        exact Buffer.lookups_normal hmem ih hV (hfirst.totalLost_eq_zero hcs'.pos) hn hsent
      · simp only [UpdateCall.sent, UpdateCall.lost, if_neg hf, add_zero]
        rw [UpdateCall.onBuffer, Buffer.lookups_updateFlowNormalVolume_of_ne b n hf, ih]
    | loss g n rand =>
      have hn : 0 < n := hc
      by_cases hf : f = g
      · subst hf
        simp only [UpdateCall.sent, UpdateCall.lost, if_true, add_zero] at hlost ⊢
        exact Buffer.lookups_loss hmem ih hL hn hlost rand
      · simp only [UpdateCall.sent, UpdateCall.lost, if_neg hf, add_zero]
        rw [UpdateCall.onBuffer, Buffer.lookups_updateFlowLossVolume_of_ne b n rand hf, ih]

end run

/-- The order of an interval's updates does not matter: any two orders of the same calls, in which
no loss of a flow comes before its first volume, end with the same lookups and the same count. -/
theorem updates_reorder (setting : CmExperimentSetting)
    (hmem : setting.senderSetting.lossMapMemType = .infinite) (w : DataWarehouse)
    (hw : w.active = Buffer.create setting) (cs cs' : List UpdateCall) (hperm : cs.Perm cs')
    (hcs : Bounded (updates cs)) (hfirst : VolumeFirst (updates cs))
    (hfirst' : VolumeFirst (updates cs')) :
    let b := (cs.foldl (UpdateCall.exec setting) w).active
    let b' := (cs'.foldl (UpdateCall.exec setting) w).active
    (∀ f, b.lookups f = b'.lookups f) ∧ b.volumeLost = b'.volumeLost := by
  intro b b'
  have hlookups : ∀ ds, Bounded (updates ds) → VolumeFirst (updates ds) → ∀ f,
      (ds.foldl (UpdateCall.exec setting) w).active.lookups f = FlowLookups.ofTotals setting
        (totalSent (updates ds) f) (totalLost (updates ds) f) := by
    intro ds hds hfirst f
    rw [UpdateCall.active_foldl_exec, hw, ← lookups_run hmem _ hds hfirst]
    exact maps_updates setting ds (Buffer.lookups · f) (fun _ => rfl) _
  have hupdates : (updates cs).Perm (updates cs') := hperm.filter _
  constructor
  · intro f
    rw [hlookups cs hcs hfirst, hlookups cs' (hcs.perm hupdates) hfirst',
      totalSent_perm hupdates, totalLost_perm hupdates]
  · simp only [b, b', UpdateCall.active_foldl_exec, volumeLost_foldl]
    rw [(hperm.map UpdateCall.counted).sum_eq]

/-- A flow of 160 bytes loses 40 between its two packets or after them. -/
theorem updates_reorder_example :
    let w := dataWarehouseInit exampleSetting []
    let cs : List UpdateCall := [.normal ⟨1, 2⟩ 100, .loss ⟨1, 2⟩ 40 0, .normal ⟨1, 2⟩ 60]
    let cs' : List UpdateCall := [.normal ⟨1, 2⟩ 60, .normal ⟨1, 2⟩ 100, .loss ⟨1, 2⟩ 40 0]
    (∀ f, (cs.foldl (UpdateCall.exec exampleSetting) w).active.lookups f
        = (cs'.foldl (UpdateCall.exec exampleSetting) w).active.lookups f)
      ∧ (cs.foldl (UpdateCall.exec exampleSetting) w).active.volumeLost
        = (cs'.foldl (UpdateCall.exec exampleSetting) w).active.volumeLost := by
  intro w cs cs'
  have hcs : Bounded (updates cs) := by
    refine ⟨fun c hc => of_decide_eq_true (List.mem_filter.1 hc).2, fun f => ?_, fun f => ?_⟩
    · show (if f = ⟨1, 2⟩ then (100 : ℤ) else 0) + (0 + ((if f = ⟨1, 2⟩ then 60 else 0) + 0)) < _
      split_ifs <;> omega
    · show 0 + ((if f = ⟨1, 2⟩ then (40 : ℤ) else 0) + (0 + 0)) < _
      split_ifs <;> omega
  have hfirst : VolumeFirst (updates cs) := volumeFirst_cons_normal 100 (by simp +contextual)
  have hfirst' : VolumeFirst (updates cs') := volumeFirst_cons_normal 60 (by simp +contextual)
  have hperm : cs.Perm cs' :=
    ((List.Perm.swap _ _ []).cons _).trans ((List.Perm.swap _ _ _))
  exact updates_reorder exampleSetting rfl w rfl cs cs' hperm hcs hfirst hfirst'

end CMTestbed
