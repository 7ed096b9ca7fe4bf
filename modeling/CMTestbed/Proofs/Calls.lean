import CMTestbed.Calls

/-!
# An update and its intervals

What a call writes, step by step, with the rotations before each step counted up.  The call is the
atomic update if there are none.  It writes to one index if the rotations between the index reads
that it writes through are even in number.
-/

namespace CMTestbed

theorem rotatedIdx_zero (i : Fin 2) : rotatedIdx i 0 = i := by
  revert i
  decide

theorem rotatedIdx_succ (i : Fin 2) (k : ℕ) : rotatedIdx i (k + 1) = rotatedIdx i k + 1 := by
  ext
  simp only [rotatedIdx, Fin.val_ofNat, Fin.val_add, Fin.val_one]
  omega

theorem rotatedIdx_eq {i : Fin 2} {k l : ℕ} :
    rotatedIdx i k = rotatedIdx i (k + l) ↔ Even l := by
  rw [Fin.ext_iff, Nat.even_iff]
  simp only [rotatedIdx, Fin.val_ofNat]
  omega

theorem rotateBuffer_iterate (w : DataWarehouse) (k : ℕ) :
    dataWareRotateBuffer^[k] w = { w with activeIdx := rotatedIdx w.activeIdx k } := by
  induction k with
  | zero => rw [Function.iterate_zero_apply, rotatedIdx_zero]
  | succ k ih => rw [Function.iterate_succ_apply', ih, dataWareRotateBuffer, rotatedIdx_succ]

namespace Call

variable (rotations : ℕ → ℕ) (w : DataWarehouse)

/-- The index that a read in step `n` finds. -/
def idxAt (n : ℕ) : Fin 2 :=
  rotatedIdx w.activeIdx (∑ k ∈ Finset.range (n + 1), rotations k)

/-- The warehouse before the rotations of step `n`, its buffers now `B`. -/
def before (n : ℕ) (B : Fin 2 → Buffer) : DataWarehouse :=
  { w with
    activeIdx := rotatedIdx w.activeIdx (∑ k ∈ Finset.range n, rotations k), buffer := B }

theorem before_zero : before rotations w 0 w.buffer = w := by
  rw [before, Finset.range_zero, Finset.sum_empty, rotatedIdx_zero]

theorem rotating_before (n : ℕ) (B : Fin 2 → Buffer) :
    rotating rotations n (before rotations w n B) = before rotations w (n + 1) B := by
  have hadd : ∀ i k l, rotatedIdx (rotatedIdx i k) l = rotatedIdx i (k + l) := fun i k l => by
    ext
    simp only [rotatedIdx, Fin.val_ofNat]
    omega
  rw [rotating, rotateBuffer_iterate, before, before, Finset.sum_range_succ, hadd]

section Exec
variable (n : ℕ) (B : Fin 2 → Buffer)

theorem exec_readIdx (k : Fin 2 → Call) :
    (readIdx k).exec (rotating rotations) n (before rotations w n B)
      = (k (idxAt rotations w n)).exec (rotating rotations) (n + 1)
        (before rotations w (n + 1) B) := by
  rw [readIdx, Lib.Prog.exec_atom, rotating_before]
  rfl

theorem exec_get {α : Type} (i : Fin 2) (read : Buffer → α) (k : α → Call) :
    (get i read k).exec (rotating rotations) n (before rotations w n B)
      = (k (read (B i))).exec (rotating rotations) (n + 1) (before rotations w (n + 1) B) := by
  rw [get, Lib.Prog.exec_atom, rotating_before]
  rfl

theorem exec_write (i : Fin 2) (m : Written) (f : Buffer → Buffer) (k : Call) :
    (write i m f k).exec (rotating rotations) n (before rotations w n B)
      = ((k.exec (rotating rotations) (n + 1)
          (before rotations w (n + 1) (Function.update B i (f (B i))))).1,
        (m, i) :: (k.exec (rotating rotations) (n + 1)
          (before rotations w (n + 1) (Function.update B i (f (B i))))).2) := by
  rw [write, Lib.Prog.exec_atom, rotating_before]
  rfl

end Exec

end Call

open Call

section Writes
variable (setting : CmExperimentSetting) (rotations : ℕ → ℕ) (w : DataWarehouse)

/-- A read of what a write does not change. -/
theorem update_frame {α : Type} (read : Buffer → α) {B : Fin 2 → Buffer} {i j : Fin 2}
    {b : Buffer} (h : read b = read (B j)) : read (Function.update B j b i) = read (B i) := by
  rw [Function.update_apply]
  split_ifs with hij
  · rw [h, hij]
  · rfl

/-- The step that reads the index of the level map, where setting the rate and the level begins with
step `n`. -/
def levelStep (n : ℕ) : ℕ :=
  match setting.senderSetting.lossMapMemType with
  | .infinite => n + 1
  | .fixed => n + 2

theorem writes_updateRateAndLevelSteps (f : FlowSrc) (n : ℕ) (B : Fin 2 → Buffer)
    (fixedIdx rateIdx : Fin 2) (volume lossVolume : ℤ) :
    ((updateRateAndLevelSteps setting f fixedIdx rateIdx volume lossVolume).exec
        (rotating rotations) n (before rotations w n B)).2
      = [(.flowLossRateMap, rateIdx),
        (.flowSelectedLevelMap, idxAt rotations w (levelStep setting n))] := by
  unfold updateRateAndLevelSteps updateFlowSelectedLevelMapSteps levelStep
  cases setting.senderSetting.lossMapMemType with
  | infinite => simp only [exec_write, exec_readIdx, Lib.Prog.exec_done]
  | fixed => simp only [exec_get, exec_write, exec_readIdx, Lib.Prog.exec_done]

theorem writes_eq (c : UpdateCall) : c.writes setting rotations w
    = ((c.steps setting).exec (rotating rotations) 0 (before rotations w 0 w.buffer)).2 := by
  rw [before_zero, UpdateCall.writes]

/-- What a packet writes: its volume, the rate and the level, each by an index read of its own. -/
theorem writes_normal (f : FlowSrc) (n : ℤ) :
    (UpdateCall.normal f n).writes setting rotations w = if 0 < n then
      [(.flowVolumeMap, idxAt rotations w 0), (.flowLossRateMap, idxAt rotations w 3),
        (.flowSelectedLevelMap, idxAt rotations w (levelStep setting 7))] else [] := by
  rw [writes_eq]
  unfold UpdateCall.steps updateFlowNormalVolumeSteps
  simp only [exec_readIdx]
  split_ifs
  · simp only [exec_get, exec_write, writes_updateRateAndLevelSteps]
  · rfl

/-- Whether a loss map of fixed size samples the loss of a flow, in the buffers `B`. -/
def lossSampled (f : FlowSrc) (n : ℤ) (rand : ℚ) (fixedIdx lossIdx : Fin 2)
    (B : Fin 2 → Buffer) : Bool :=
  samplePacketFixSizeMapSender setting f
    (intAdd (orZero (htKfsViGet (B lossIdx).flowLossVolumeMap f)) n) rand
    (B fixedIdx).fixedFlowLossVolumeMap

theorem writes_recordLossSteps (f : FlowSrc) (n : ℕ) (B : Fin 2 → Buffer)
    (fixedIdx lossIdx rateIdx : Fin 2) (added : ℤ) (rand : ℚ) (volume : ℤ) :
    ((recordLossSteps setting f fixedIdx lossIdx rateIdx added rand volume).exec
        (rotating rotations) n (before rotations w n B)).2
      = (.flowLossVolumeMap, lossIdx) :: match setting.senderSetting.lossMapMemType with
        | .infinite => [(.flowLossRateMap, rateIdx),
            (.flowSelectedLevelMap, idxAt rotations w (n + 3))]
        | .fixed => if lossSampled setting f added rand fixedIdx lossIdx B then
            [(.fixedFlowLossVolumeMap, fixedIdx), (.flowLossRateMap, rateIdx),
              (.flowSelectedLevelMap, idxAt rotations w (n + 6))]
          else [(.flowLossRateMap, rateIdx),
            (.flowSelectedLevelMap, idxAt rotations w (n + 5))] := by
  unfold recordLossSteps
  simp only [exec_get, exec_write]
  split
  · next hmem => simp only [writes_updateRateAndLevelSteps, levelStep, hmem]
  · next hmem =>
    rw [exec_get, update_frame Buffer.fixedFlowLossVolumeMap ?_]
    swap
    · rfl
    unfold lossSampled
    split_ifs
    · simp only [exec_write, writes_updateRateAndLevelSteps, levelStep, hmem]
    · simp only [writes_updateRateAndLevelSteps, levelStep, hmem]

/-- What a loss writes: the counter, and if the flow's volume is known, its loss volume, the rate
and the level. -/
theorem writes_loss (f : FlowSrc) (n : ℤ) (rand : ℚ) :
    (UpdateCall.loss f n rand).writes setting rotations w
      = (.volumeLost, idxAt rotations w 4) :: if 0 < n
          ∧ 0 ≤ htKfsViGet (w.buffer (idxAt rotations w 0)).flowVolumeMap f then
        (.flowLossVolumeMap, idxAt rotations w 2) ::
          match setting.senderSetting.lossMapMemType with
          | .infinite => [(.flowLossRateMap, idxAt rotations w 3),
              (.flowSelectedLevelMap, idxAt rotations w 10)]
          | .fixed => if lossSampled setting f n rand (idxAt rotations w 1)
                (idxAt rotations w 2) w.buffer then
              [(.fixedFlowLossVolumeMap, idxAt rotations w 1),
                (.flowLossRateMap, idxAt rotations w 3),
                (.flowSelectedLevelMap, idxAt rotations w 13)]
            else [(.flowLossRateMap, idxAt rotations w 3),
              (.flowSelectedLevelMap, idxAt rotations w 12)]
        else [] := by
  rw [writes_eq]
  unfold UpdateCall.steps updateFlowLossVolumeSteps
  simp only [exec_readIdx, exec_write]
  by_cases hn : 0 < n
  · rw [if_pos hn, exec_get, update_frame Buffer.flowVolumeMap ?_]
    swap
    · rfl
    by_cases hvol : htKfsViGet (w.buffer (idxAt rotations w 0)).flowVolumeMap f < 0
    · rw [if_pos hvol, if_neg (by omega)]
      rfl
    · rw [if_neg hvol, if_pos ⟨hn, by omega⟩, writes_recordLossSteps]
      unfold lossSampled
      rw [update_frame Buffer.flowLossVolumeMap ?_, update_frame Buffer.fixedFlowLossVolumeMap ?_]
      all_goals rfl
  · rw [if_neg hn, if_neg fun h => hn h.1]
    rfl

/-! ## When an update is not split -/

/-- An even number of rotations comes after step `m` and before step `n`. -/
def EvenBetween (m n : ℕ) : Prop := Even (∑ k ∈ Finset.Ico (m + 1) (n + 1), rotations k)

theorem idxAt_eq {m n : ℕ} (hmn : m ≤ n) :
    idxAt rotations w m = idxAt rotations w n ↔ EvenBetween rotations m n := by
  unfold idxAt EvenBetween
  rw [← Finset.sum_range_add_sum_Ico rotations (Nat.succ_le_succ hmn)]
  exact rotatedIdx_eq

/-- Between the index reads for each write and the next one, the rotations are even in number. -/
def UpdateCall.Unsplit : UpdateCall → Prop
  | normal _ n => 0 < n →
    EvenBetween rotations 0 3 ∧ EvenBetween rotations 3 (levelStep setting 7)
  | loss f n rand => 0 < n →
    0 ≤ htKfsViGet (w.buffer (idxAt rotations w 0)).flowVolumeMap f →
      EvenBetween rotations 2 4 ∧ match setting.senderSetting.lossMapMemType with
        | .infinite => EvenBetween rotations 2 3 ∧ EvenBetween rotations 3 10
        | .fixed =>
          if lossSampled setting f n rand (idxAt rotations w 1) (idxAt rotations w 2) w.buffer then
            EvenBetween rotations 1 2 ∧ EvenBetween rotations 1 3 ∧ EvenBetween rotations 3 13
          else EvenBetween rotations 2 3 ∧ EvenBetween rotations 3 12

theorem oneIndex_nil : OneIndex [] := ⟨0, fun _ he => absurd he List.not_mem_nil⟩

theorem oneIndex_singleton (e : Written × Fin 2) : OneIndex [e] :=
  ⟨e.2, fun _ he => congrArg Prod.snd (List.mem_singleton.1 he)⟩

theorem oneIndex_cons_cons {m m' : Written} {i j : Fin 2} {l : List (Written × Fin 2)} :
    OneIndex ((m, i) :: (m', j) :: l) ↔ i = j ∧ OneIndex ((m', j) :: l) := by
  constructor
  · rintro ⟨k, hk⟩
    have hi : i = k := hk (m, i) List.mem_cons_self
    have hj : j = k := hk (m', j) (by simp)
    exact ⟨hi.trans hj.symm, k, fun e he => hk e (List.mem_cons_of_mem _ he)⟩
  · rintro ⟨rfl, k, hk⟩
    refine ⟨k, fun e he => ?_⟩
    rcases List.mem_cons.1 he with rfl | he
    · exact hk (m', i) List.mem_cons_self
    · exact hk e he

/-- An update lands in one interval exactly if the rotations between its index reads are even in
number. -/
theorem update_in_one_interval (c : UpdateCall) :
    OneIndex (c.writes setting rotations w) ↔ c.Unsplit setting rotations w := by
  have heq := fun m n hmn => idxAt_eq rotations w (m := m) (n := n) hmn
  cases c with
  | normal f n =>
    have hlevel : 3 ≤ levelStep setting 7 := by
      unfold levelStep
      split <;> omega
    rw [writes_normal]
    unfold UpdateCall.Unsplit
    by_cases hn : 0 < n
    · rw [if_pos hn, oneIndex_cons_cons, oneIndex_cons_cons, heq 0 3 (by omega), heq _ _ hlevel]
      simp only [hn, oneIndex_singleton, and_true, true_imp_iff]
    · rw [if_neg hn]
      exact ⟨fun _ h => absurd h hn, fun _ => oneIndex_nil⟩
  | loss f n rand =>
    rw [writes_loss]
    unfold UpdateCall.Unsplit
    by_cases hn : 0 < n ∧ 0 ≤ htKfsViGet (w.buffer (idxAt rotations w 0)).flowVolumeMap f
    · rw [if_pos hn, oneIndex_cons_cons, eq_comm, heq 2 4 (by omega)]
      simp only [hn, true_imp_iff]
      split
      · rw [oneIndex_cons_cons, oneIndex_cons_cons, heq 2 3 (by omega), heq 3 10 (by omega)]
        simp only [oneIndex_singleton, and_true]
      split_ifs
      · rw [oneIndex_cons_cons, oneIndex_cons_cons, oneIndex_cons_cons, eq_comm,
          heq 1 2 (by omega), heq 1 3 (by omega), heq 3 13 (by omega)]
        simp only [oneIndex_singleton, and_true]
      · rw [oneIndex_cons_cons, oneIndex_cons_cons, heq 2 3 (by omega), heq 3 12 (by omega)]
        simp only [oneIndex_singleton, and_true]
    · rw [if_neg hn]
      exact ⟨fun _ h h' => absurd ⟨h, h'⟩ hn, fun _ => oneIndex_singleton _⟩

end Writes

/-- One rotation after the first index read: the volume goes to one interval, the loss rate and the
level to the other. -/
theorem update_split : ¬ OneIndex ((UpdateCall.normal ⟨1, 2⟩ 100).writes exampleSetting
    (fun n => if n = 1 then 1 else 0) (dataWarehouseInit exampleSetting [])) := by
  have hwrites : (UpdateCall.normal ⟨1, 2⟩ 100).writes exampleSetting
      (fun n => if n = 1 then 1 else 0) (dataWarehouseInit exampleSetting [])
        = [(.flowVolumeMap, 0), (.flowLossRateMap, 1), (.flowSelectedLevelMap, 1)] := by
    decide +kernel
  rw [hwrites, oneIndex_cons_cons]
  exact fun h => absurd h.1 (by decide)

/-! ## Calls alone -/

section Alone
variable (setting : CmExperimentSetting) (w : DataWarehouse)

/-- Where a call that runs alone ends, with `b` as the active buffer before step `n`. -/
def alone (n : ℕ) (b : Buffer) (k : Call) : DataWarehouse :=
  (k.exec (rotating fun _ => 0) n (w.modifyActive fun _ => b)).1

variable (n : ℕ) (b : Buffer)

theorem alone_done : alone w n b .done = w.modifyActive fun _ => b := rfl

theorem alone_readIdx (k : Fin 2 → Call) :
    alone w n b (readIdx k) = alone w (n + 1) b (k w.activeIdx) := rfl

theorem alone_get {α : Type} (read : Buffer → α) (k : α → Call) :
    alone w n b (Call.get w.activeIdx read k) = alone w (n + 1) b (k (read b)) := by
  have hactive : (w.modifyActive fun _ => b).buffer w.activeIdx = b := Function.update_self _ _ _
  change alone w (n + 1) b (k (read ((w.modifyActive fun _ => b).buffer w.activeIdx))) = _
  rw [hactive]

theorem alone_write (m : Written) (f : Buffer → Buffer) (k : Call) :
    alone w n b (write w.activeIdx m f k) = alone w (n + 1) (f b) k := by
  have hmodify : (w.modifyActive fun _ => b).modifyAt w.activeIdx f
      = w.modifyActive fun _ => f b := by
    simp only [DataWarehouse.modifyAt, DataWarehouse.modifyActive, Function.update_self,
      Function.update_idem]
  unfold alone
  rw [← hmodify]
  rfl

theorem alone_updateRateAndLevelSteps (f : FlowSrc) (volume lossVolume : ℤ) :
    alone w n b (updateRateAndLevelSteps setting f w.activeIdx w.activeIdx volume lossVolume)
      = w.modifyActive fun _ =>
        b.updateRateAndLevel setting f volume (b.lossVolumeUsed setting f lossVolume) := by
  unfold updateRateAndLevelSteps updateFlowSelectedLevelMapSteps Buffer.lossVolumeUsed
  cases setting.senderSetting.lossMapMemType with
  | infinite =>
    simp only [alone_write, alone_readIdx, alone_done]
    rfl
  | fixed =>
    simp only [alone_get, alone_write, alone_readIdx, alone_done]
    rfl

theorem alone_recordLossSteps (f : FlowSrc) (added : ℤ) (rand : ℚ) (volume : ℤ) :
    alone w n b
        (recordLossSteps setting f w.activeIdx w.activeIdx w.activeIdx added rand volume)
      = w.modifyActive fun _ => b.recordLoss setting f added rand volume := by
  unfold recordLossSteps Buffer.recordLoss
  simp only [alone_get, alone_write]
  split
  · next hmem => simp only [alone_updateRateAndLevelSteps, hmem, reduceCtorEq, false_and, if_false]
  · next hmem =>
    rw [alone_get]
    simp only [hmem, true_and]
    split_ifs with hs
    · rw [alone_write, alone_updateRateAndLevelSteps]
    · rw [alone_updateRateAndLevelSteps]

/-- A call that no rotation comes into is the atomic update. -/
theorem exec_alone (c : UpdateCall) :
    ((c.steps setting).exec (rotating fun _ => 0) 0 w).1 = c.exec setting w := by
  have hstart : (w.modifyActive fun _ => w.active) = w :=
    congrArg (fun B => { w with buffer := B }) (Function.update_eq_self _ _)
  have halone : ((c.steps setting).exec (rotating fun _ => 0) 0 w).1
      = alone w 0 w.active (c.steps setting) := by
    rw [alone, hstart]
  rw [halone]
  cases c with
  | normal f added =>
    have hexec : UpdateCall.exec setting w (.normal f added)
        = w.modifyActive fun _ => w.active.updateFlowNormalVolume setting f added := rfl
    rw [hexec]
    unfold UpdateCall.steps updateFlowNormalVolumeSteps Buffer.updateFlowNormalVolume
    simp only [alone_readIdx]
    split_ifs
    · simp only [alone_get, alone_write, alone_updateRateAndLevelSteps]
    · rw [alone_done]
  | loss f added rand =>
    have hexec : UpdateCall.exec setting w (.loss f added rand)
        = w.modifyActive fun _ => w.active.updateFlowLossVolume setting f added rand := rfl
    rw [hexec]
    unfold UpdateCall.steps updateFlowLossVolumeSteps Buffer.updateFlowLossVolume
    simp only [alone_readIdx, alone_write]
    split_ifs with hn hvol
    · rw [alone_get, if_pos hvol, alone_done]
    · rw [alone_get, if_neg hvol, alone_recordLossSteps]
    · rw [alone_done]

end Alone

end CMTestbed
