import CMTestbed.Clock

/-!
# The next interval and the sleep before it

The first polling loop leaves the start of an interval, the second ends at the next start.  With
intervals of a millisecond every reading is a start, and the first never ends: only then does
`get_next_interval_start` fail, and `check_value_correct` accepts that length
(`waitsForNextInterval_iff`).

The sleep before the next rotation is what is left of the interval, unless nothing is: it is taken
without a sign, and wraps around (`sleepsOnTime_iff`).
-/

namespace CMTestbed

/-! ## Polling for an interval -/

section Polling

variable {T i j k : ℕ} {clock : ℕ → ℕ}

theorem inInterval_iff {msec : ℕ} : inInterval T msec = true ↔ msec % T ≠ 0 := decide_eq_true_iff

theorem inInterval_eq_false {msec : ℕ} : inInterval T msec = false ↔ msec % T = 0 := by
  rw [← Bool.not_eq_true, inInterval_iff, not_not]

theorem atNextInterval_iff {pre msec : ℕ} :
    atNextInterval T pre msec = true ↔ msec % T = 0 ∨ (pre + 1) * T < msec := decide_eq_true_iff

/-- The 64-bit product of the second test is exact on a clock that a signed 64-bit number holds. -/
theorem toNat_nextBoundary {timeIntervalMsecs : UInt32} {msec : UInt64} (h : msec.toNat < 2 ^ 63) :
    ((msec / timeIntervalMsecs.toUInt64 + 1) * timeIntervalMsecs.toUInt64).toNat
      = (msec.toNat / timeIntervalMsecs.toNat + 1) * timeIntervalMsecs.toNat := by
  have hT := timeIntervalMsecs.toNat_lt
  have hdiv := Nat.div_mul_le_self msec.toNat timeIntervalMsecs.toNat
  have hle := Nat.div_le_self msec.toNat timeIntervalMsecs.toNat
  have hadd : (msec / timeIntervalMsecs.toUInt64 + 1).toNat
      = msec.toNat / timeIntervalMsecs.toNat + 1 := by
    rw [UInt64.toNat_add, UInt64.toNat_div, UInt32.toNat_toUInt64]
    exact Nat.mod_eq_of_lt (by simp only [UInt64.toNat_one]; omega)
  rw [UInt64.toNat_mul, hadd, UInt32.toNat_toUInt64]
  refine Nat.mod_eq_of_lt ?_
  rw [Nat.succ_mul]
  omega

/-- Nothing lies between a multiple of the length and the next millisecond. -/
theorem succ_mod_ne_zero (hT : 2 ≤ T) {msec : ℕ} (h : msec % T = 0) : (msec + 1) % T ≠ 0 := by
  rw [Nat.add_mod, h, zero_add, Nat.mod_mod, Nat.mod_eq_of_lt hT]
  exact one_ne_zero

theorem succ_div_of_mod_eq_zero (hT : 2 ≤ T) {msec : ℕ} (h : msec % T = 0) :
    (msec + 1) / T = msec / T := by
  have hdvd : ¬ T ∣ msec + 1 := fun hdvd => succ_mod_ne_zero hT h (Nat.mod_eq_zero_of_dvd hdvd)
  rw [Nat.succ_div, if_neg hdvd, add_zero]

/-- The first loop ends. -/
theorem exists_firstFrom_inInterval (hT : 2 ≤ T) (hclock : Lib.Ticking clock) (i : ℕ) :
    ∃ j, Lib.FirstFrom clock (inInterval T) i j := by
  refine Lib.exists_firstFrom ?_
  by_cases h : clock i % T = 0
  · obtain ⟨j, hij, hj⟩ := hclock.exists_eq i 1
    refine ⟨j, hij, inInterval_iff.2 ?_⟩
    rw [hj]
    exact succ_mod_ne_zero hT h
  · exact ⟨i, le_rfl, inInterval_iff.2 h⟩

/-- It stays in the interval it began in: until it ends, the clock shows the same millisecond. -/
theorem eq_of_firstFrom_inInterval (hT : 2 ≤ T) (hclock : Lib.Ticking clock)
    (hfirst : Lib.FirstFrom clock (inInterval T) i j) (hik : i ≤ k) (hkj : k < j) :
    clock k = clock i := by
  induction k, hik using Nat.le_induction with
  | base => rfl
  | succ k hik ih =>
    have ih := ih (by omega)
    have h₀ := inInterval_eq_false.1 (hfirst.before k hik (by omega))
    have h₁ := inInterval_eq_false.1 (hfirst.before (k + 1) (by omega) hkj)
    have hmono := hclock.mono k
    have hstep := hclock.step k
    have hne : clock (k + 1) ≠ clock k + 1 := fun h => succ_mod_ne_zero hT h₀ (h ▸ h₁)
    omega

theorem div_of_firstFrom_inInterval (hT : 2 ≤ T) (hclock : Lib.Ticking clock)
    (hfirst : Lib.FirstFrom clock (inInterval T) i j) : clock j / T = clock i / T := by
  obtain rfl | hlt := Nat.eq_or_lt_of_le hfirst.le
  · rfl
  obtain ⟨k, rfl⟩ : ∃ k, j = k + 1 := ⟨j - 1, by omega⟩
  have hk := eq_of_firstFrom_inInterval hT hclock hfirst (k := k) (by omega) (by omega)
  have h₀ := inInterval_eq_false.1 (hfirst.before k (by omega) (by omega))
  have hmono := hclock.mono k
  have hstep := hclock.step k
  obtain h | h : clock (k + 1) = clock k ∨ clock (k + 1) = clock k + 1 := by omega
  · rw [h, hk]
  · rw [h, succ_div_of_mod_eq_zero hT h₀, hk]

/-- The second loop ends. -/
theorem exists_firstFrom_atNextInterval (hclock : Lib.Ticking clock) (hT : 0 < T) (j : ℕ) :
    ∃ k, Lib.FirstFrom clock (atNextInterval T (clock j / T)) (j + 1) k := by
  refine Lib.exists_firstFrom ?_
  have hlt := Nat.lt_div_mul_add hT (a := clock j)
  obtain ⟨k, hjk, hk⟩ := hclock.exists_eq j ((clock j / T + 1) * T - clock j)
  have hmul : (clock j / T + 1) * T = clock j / T * T + T := Nat.succ_mul _ _
  have hk : clock k = (clock j / T + 1) * T := by omega
  have hne : j ≠ k := by
    rintro rfl
    omega
  exact ⟨k, by omega, atNextInterval_iff.2 (.inl (by rw [hk, Nat.mul_mod_left]))⟩

/-- Until it ends, no reading is in a later interval than the one it began in. -/
theorem div_of_lt_firstFrom_atNextInterval (hclock : Lib.Ticking clock) (hT : 0 < T) {l : ℕ}
    (hlast : Lib.FirstFrom clock (atNextInterval T (clock j / T)) (j + 1) l) (hjk : j ≤ k)
    (hkl : k < l) : clock k / T = clock j / T := by
  obtain rfl | hlt := Nat.eq_or_lt_of_le hjk
  · rfl
  have hbefore := hlast.before k hlt hkl
  rw [← Bool.not_eq_true, atNextInterval_iff, not_or, not_lt] at hbefore
  have hle : clock j / T ≤ clock k / T := Nat.div_le_div_right (hclock.monotone hjk)
  have hne : clock k ≠ (clock j / T + 1) * T := fun h => hbefore.1 (by rw [h, Nat.mul_mod_left])
  have hlt : clock k / T < clock j / T + 1 :=
    (Nat.div_lt_iff_lt_mul hT).2 (lt_of_le_of_ne hbefore.2 hne)
  omega

/-- It ends in a later interval, if it began past the start of one. -/
theorem div_lt_of_firstFrom_atNextInterval (hclock : Lib.Ticking clock) (hT : 0 < T) {l : ℕ}
    (hj : clock j % T ≠ 0)
    (hlast : Lib.FirstFrom clock (atNextInterval T (clock j / T)) (j + 1) l) :
    clock j / T < clock l / T := by
  have hle : clock j ≤ clock l := hclock.monotone (by have := hlast.le; omega)
  rw [Nat.lt_iff_add_one_le, Nat.le_div_iff_mul_le hT]
  obtain hzero | hpast := atNextInterval_iff.1 hlast.passes
  · by_contra hlt
    have hdiv : clock l / T ≤ clock j / T := by
      have := (Nat.div_lt_iff_lt_mul hT).2 (not_le.1 hlt)
      omega
    have hmul := Nat.mul_le_mul_right T hdiv
    have hl := Nat.div_add_mod' (clock l) T
    have hj' := Nat.div_add_mod' (clock j) T
    omega
  · exact hpast.le

end Polling

theorem getNextIntervalStart_eq_some {T : UInt32} {clock : ℕ → ℕ} {fuel i t last : ℕ} :
    getNextIntervalStart T clock fuel i = some (t, last) ↔ t = clock last ∧ ∃ first,
      (Lib.FirstFrom clock (inInterval T.toNat) i first ∧ first < i + fuel)
      ∧ Lib.FirstFrom clock (atNextInterval T.toNat (clock first / T.toNat)) (first + 1) last
      ∧ last < first + 1 + fuel := by
  rw [getNextIntervalStart]
  simp only [Option.bind_eq_some_iff, Option.map_eq_some_iff, Lib.pollFrom_eq_some, Prod.mk.injEq]
  constructor
  · rintro ⟨first, hfirst, last, hlast, rfl, rfl⟩
    exact ⟨rfl, first, hfirst, hlast⟩
  · rintro ⟨rfl, first, hfirst, hlast⟩
    exact ⟨first, hfirst, last, hlast, rfl, rfl⟩

/-- What a call that ends returns, for intervals of two milliseconds or more. -/
theorem laterInterval_of_eq_some {T : UInt32} (hT : 2 ≤ T.toNat) {clock : ℕ → ℕ}
    (hclock : Lib.Ticking clock) {fuel i t last : ℕ}
    (h : getNextIntervalStart T clock fuel i = some (t, last)) :
    t = clock last ∧ i < last ∧ clock i / T.toNat < clock last / T.toNat
      ∧ ∀ k, i ≤ k → k < last → clock k / T.toNat = clock i / T.toNat := by
  obtain ⟨rfl, first, ⟨hfirst, -⟩, hlast, -⟩ := getNextIntervalStart_eq_some.1 h
  have hdiv := div_of_firstFrom_inInterval hT hclock hfirst
  have h₁ := hfirst.le
  have h₂ := hlast.le
  refine ⟨rfl, by omega, ?_, fun k hik hkl => ?_⟩
  · rw [← hdiv]
    exact div_lt_of_firstFrom_atNextInterval hclock (by omega) (inInterval_iff.1 hfirst.passes)
      hlast
  · obtain hk | hk := lt_or_ge k first
    · rw [eq_of_firstFrom_inInterval hT hclock hfirst hik hk]
    · rw [div_of_lt_firstFrom_atNextInterval hclock (by omega) hlast hk hkl, hdiv]

theorem exists_getNextIntervalStart {T : UInt32} (hT : 2 ≤ T.toNat) {clock : ℕ → ℕ}
    (hclock : Lib.Ticking clock) (i : ℕ) :
    ∃ fuel t last, getNextIntervalStart T clock fuel i = some (t, last) := by
  obtain ⟨first, hfirst⟩ := exists_firstFrom_inInterval hT hclock i
  obtain ⟨last, hlast⟩ := exists_firstFrom_atNextInterval hclock (T := T.toNat) (by omega) first
  exact ⟨last + 1, clock last, last, getNextIntervalStart_eq_some.2
    ⟨rfl, first, ⟨hfirst, by have := hlast.le; omega⟩, hlast, by omega⟩⟩

theorem waitsForNextInterval_of_two_le {T : UInt32} (hT : 2 ≤ T.toNat) :
    WaitsForNextInterval T := by
  intro clock hclock i
  constructor
  · obtain ⟨fuel, t, last, h⟩ := exists_getNextIntervalStart hT hclock i
    obtain ⟨rfl, hlater⟩ := laterInterval_of_eq_some hT hclock h
    exact ⟨fuel, last, h, hlater⟩
  · intro fuel t last h i' fuel' t' last' hi' h'
    obtain ⟨rfl, -⟩ := laterInterval_of_eq_some hT hclock h
    obtain ⟨rfl, -, hlt, -⟩ := laterInterval_of_eq_some hT hclock h'
    exact lt_of_le_of_lt (Nat.div_le_div_right (hclock.monotone hi'.le)) hlt

/-- With intervals of a millisecond the first loop has no end. -/
theorem getNextIntervalStart_one (clock : ℕ → ℕ) (fuel i : ℕ) :
    getNextIntervalStart 1 clock fuel i = none := by
  rw [Option.eq_none_iff_forall_ne_some]
  rintro ⟨t, last⟩ h
  obtain ⟨-, first, ⟨hfirst, -⟩, -⟩ := getNextIntervalStart_eq_some.1 h
  exact inInterval_iff.1 hfirst.passes (Nat.mod_one _)

theorem ticking_id : Lib.Ticking id where
  mono i := Nat.le_succ i
  step _ := le_rfl
  moves i := ⟨i + 1, by omega, by simp⟩

theorem not_waitsForNextInterval_one : ¬ WaitsForNextInterval 1 := by
  intro h
  obtain ⟨fuel, last, hsome, -⟩ := (h id ticking_id 0).1
  rw [getNextIntervalStart_one] at hsome
  cases hsome

theorem toUInt_eq_one {n : ℤ} (hn : IsInt n) : (toUInt n).toNat = 1 ↔ n = 1 := by
  have h₁ := hn.1
  have h₂ := hn.2
  rw [toUInt, UInt32.ofInt, UInt32.toNat_ofNat']
  omega

theorem toUInt_eq_zero {n : ℤ} (hn : IsInt n) : (toUInt n).toNat = 0 ↔ n = 0 := by
  have h₁ := hn.1
  have h₂ := hn.2
  rw [toUInt, UInt32.ofInt, UInt32.toNat_ofNat']
  omega

theorem conditionMsecFreq_ne_zero {setting : ExperimentSetting}
    (h : checkValueCorrect setting = 0) : setting.conditionMsecFreq ≠ 0 := by
  intro hzero
  simp only [checkValueCorrect, hzero, if_true] at h
  split_ifs at h

/-- Of the lengths that are accepted, all but one millisecond are waited for. -/
theorem waitsForNextInterval_iff (setting : ExperimentSetting)
    (haccepted : checkValueCorrect setting = 0) :
    WaitsForNextInterval (toUInt setting.conditionMsecFreq) ↔ setting.conditionMsecFreq ≠ 1 := by
  have hne := conditionMsecFreq_ne_zero haccepted
  have hzero := toUInt_eq_zero setting.isInt_conditionMsecFreq
  have hone := toUInt_eq_one setting.isInt_conditionMsecFreq
  constructor
  · intro h heq
    have hT : toUInt setting.conditionMsecFreq = 1 := UInt32.toNat_inj.1 (hone.2 heq)
    rw [hT] at h
    exact not_waitsForNextInterval_one h
  · intro h
    refine waitsForNextInterval_of_two_le ?_
    omega

theorem waitsForNextInterval_example : ∃ setting,
    initCmExperimentSetting .float id (exampleLines "500" "1" "4166") = some setting
      ∧ WaitsForNextInterval (toUInt setting.conditionMsecFreq) := by
  obtain ⟨setting, hsetting, hfreq, -⟩ := exampleLines_accepted
  refine ⟨setting, hsetting, (waitsForNextInterval_iff setting ?_).2 ?_⟩
  · exact checkValueCorrect_of_init hsetting
  · omega

/-- A file with `condition_msec_freq:1` is accepted. -/
theorem not_waitsForNextInterval_example : ∃ setting,
    initCmExperimentSetting .float id (exampleLines "1" "1" "4166") = some setting
      ∧ ¬ WaitsForNextInterval (toUInt setting.conditionMsecFreq) := by
  obtain ⟨setting, hsetting, hfreq⟩ :
      ∃ setting ∈ initCmExperimentSetting .float id (exampleLines "1" "1" "4166"),
        setting.conditionMsecFreq = 1 := by decide +kernel
  refine ⟨setting, hsetting, ?_⟩
  rw [hfreq]
  exact not_waitsForNextInterval_one

/-! ## Sleeping between rotations -/

/-- Nothing of the sleep is lost between milliseconds and the `timespec`. -/
theorem toSleepTime_msec (ms : UInt32) :
    ((toSleepTime ms).1 : ℤ) * 1000 + (toSleepTime ms).2 / 1000000 = ms.toNat := by
  have hlt := ms.toNat_lt
  have hsec : (ms / 1000).toNat = ms.toNat / 1000 := UInt32.toNat_div _ _
  have hrest : (ms % 1000 * 1000000).toNat = ms.toNat % 1000 * 1000000 := by
    have h₁ : (1000 : UInt32).toNat = 1000 := rfl
    have h₂ : (1000000 : UInt32).toNat = 1000000 := rfl
    rw [UInt32.toNat_mul, UInt32.toNat_mod, h₁, h₂]
    omega
  rw [toSleepTime]
  dsimp only
  rw [hsec, hrest]
  omega

namespace RotatePass

variable {intervalMsecLen : ℤ} {pass next : RotatePass}

/-- The sleep is taken modulo `2 ^ 32`. -/
theorem requested_eq_emod (h : pass.currentMsec ≤ pass.afterRotateMsec) :
    pass.requested intervalMsecLen = (intervalMsecLen - pass.duration) % 2 ^ 32 := by
  have hle := UInt64.le_iff_toNat_le.1 h
  have hlt := pass.afterRotateMsec.toNat_lt
  have hlen : ((toUInt intervalMsecLen).toNat : ℤ) = intervalMsecLen % 2 ^ 32 := by
    rw [toUInt, UInt32.ofInt, UInt32.toNat_ofNat']
    omega
  have hduration : (rotateDurationMsec pass.currentMsec pass.afterRotateMsec).toNat
      = (pass.afterRotateMsec.toNat - pass.currentMsec.toNat) % 2 ^ 32 := by
    rw [rotateDurationMsec, UInt64.toNat_toUInt32, UInt64.toNat_sub_of_le _ _ h]
  rw [requested, toSleepTime_msec, toSleepMsec, UInt32.toNat_sub, hduration, duration]
  have hlen' := (toUInt intervalMsecLen).toNat_lt
  omega

/-- A sleep of what is left of the interval is on time. -/
theorem sleepsOnTime_iff_requested (hlen : 0 < intervalMsecLen) (hduration : 0 ≤ pass.duration) :
    pass.SleepsOnTime intervalMsecLen next
      ↔ pass.requested intervalMsecLen = max (intervalMsecLen - pass.duration) 0 := by
  refine ⟨fun h => h.requested_eq, fun h => ⟨by omega, h, ?_⟩⟩
  have hafter : pass.duration = pass.afterRotateMsec.toNat - pass.currentMsec.toNat := rfl
  rw [delay]
  omega

end RotatePass

/-- Exactly the rotations that take no longer than the interval, or too long by a multiple of
`2 ^ 32` milliseconds, are followed by the right sleep. -/
theorem sleepsOnTime_iff (intervalMsecLen : ℤ) (hpos : 0 < intervalMsecLen)
    (hint : IsInt intervalMsecLen) (clock : ℕ → UInt64) (hclock : ∀ i, clock i ≤ clock (i + 1)) :
    (∀ i, (rotatePass clock i).SleepsOnTime intervalMsecLen (rotatePass clock (i + 1)))
      ↔ ∀ i, (rotatePass clock i).duration ≤ intervalMsecLen
        ∨ ((rotatePass clock i).duration - intervalMsecLen) % 2 ^ 32 = 0 := by
  refine forall_congr' fun i => ?_
  have hle : (rotatePass clock i).currentMsec ≤ (rotatePass clock i).afterRotateMsec :=
    hclock (2 * i)
  have hduration : 0 ≤ (rotatePass clock i).duration := by
    have := UInt64.le_iff_toNat_le.1 hle
    rw [RotatePass.duration]
    omega
  have hlt := hint.2
  rw [RotatePass.sleepsOnTime_iff_requested hpos hduration, RotatePass.requested_eq_emod hle]
  omega

/-- An interval of 500 milliseconds, and a rotation that takes 20. -/
theorem sleepsOnTime_example :
    (rotatePass (fun n => if n = 0 then 1000 else 1020) 0).requested 500 = 480
      ∧ ∀ i, (rotatePass (fun n => if n = 0 then 1000 else 1020) i).SleepsOnTime 500
        (rotatePass (fun n => if n = 0 then 1000 else 1020) (i + 1)) := by
  refine ⟨by decide,
    (sleepsOnTime_iff 500 (by decide) (by decide) _ fun i => ?_).2 fun i => .inl ?_⟩
  · cases i with
    | zero => decide
    | succ i => exact UInt64.le_refl _
  · cases i with
    | zero => decide
    | succ i =>
      have h₁ : 2 * (i + 1) ≠ 0 := by omega
      have h₂ : 2 * (i + 1) + 1 ≠ 0 := by omega
      rw [RotatePass.duration, rotatePass]
      simp only [if_neg h₁, if_neg h₂]
      decide

/-- A rotation that takes a millisecond more than the interval is followed by 49 days of sleep. -/
theorem oversleeps_example :
    (rotatePass (fun n => if n = 0 then 1000 else 1501) 0).requested 500 = 2 ^ 32 - 1
      ∧ ¬ ∀ i, (rotatePass (fun n => if n = 0 then 1000 else 1501) i).SleepsOnTime 500
        (rotatePass (fun n => if n = 0 then 1000 else 1501) (i + 1)) := by
  have h : (rotatePass (fun n => if n = 0 then 1000 else 1501) 0).requested 500 = 2 ^ 32 - 1 := by
    decide
  refine ⟨h, fun hall => ?_⟩
  have hle := (hall 0).requested_le
  rw [h] at hle
  exact absurd hle (by decide)

end CMTestbed
