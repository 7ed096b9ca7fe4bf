import CMTestbed.Config
import CMTestbed.Reports

/-!
# The settings in force

`init_cm_experiment_setting` reads the file into a structure that is all 0 at first, adds the
sampling rates, and checks some of the values.  An accepted file is one with which it returns 0.
-/

namespace CMTestbed

/-- The numbers that an `int` holds. -/
def IsInt (n : ℤ) : Prop := -2 ^ 31 ≤ n ∧ n < 2 ^ 31

instance (n : ℤ) : Decidable (IsInt n) := inferInstanceAs (Decidable (_ ∧ _))

theorem isInt_toInt (value : UInt32) : IsInt (toInt value) := by
  have hint : toInt value = value.toBitVec.toInt := rfl
  have h₁ := value.toBitVec.le_toInt
  have h₂ := value.toBitVec.toInt_lt
  rw [hint]
  exact ⟨h₁, h₂⟩

/-- The settings that the sender reads, and those that are only checked. -/
structure ExperimentSetting extends ReportSetting where
  switchMemoryTimes : ℚ
  switchesIntervalVolume : Fin 12 → UInt64
  isInt_intervalMsecLen : IsInt intervalMsecLen
  isInt_conditionMsecFreq : IsInt conditionMsecFreq

namespace Config

/-- Nothing is read yet. -/
def zeroSetting : Setting ℚ := fun k => k.convert (fun _ => 0) []

namespace Setting
variable (s : Setting ℚ) (k : Key)

def int : ℤ :=
  match s k with
  | .int n => intOfLong n
  | _ => 0

def enum : UInt32 :=
  match s k with
  | .enum n => n
  | _ => 0

def uint64 : UInt64 :=
  match s k with
  | .uint64 n => n
  | _ => 0

def bool : Bool :=
  match s k with
  | .bool b => b
  | _ => false

def float : ℚ :=
  match s k with
  | .float x => x
  | _ => 0

theorem isInt_int : IsInt (s.int k) := by
  unfold int
  split
  · exact isInt_toInt _
  · decide

end Setting

end Config

/-- `OVER_SAMPLING_RATIO` -/
def overSamplingRatio : ℚ := 8

/-- `SENDER_LOSS_VOLUME_OVER_SAMPLING_RATE` -/
def senderLossVolumeOverSamplingRate : ℚ := 8

/-- A `float` passed as an `int`; out of range, what x86 makes of it. -/
def intOfFloat (x : ℚ) : ℤ :=
  let n := if 0 ≤ x then ⌊x⌋ else ⌈x⌉
  if IsInt n then n else -2 ^ 31

/-- The structure as the fields that were read and the rates got from them.  The first rate is
infinite where it divides by 0: every packet that is not empty is sampled, as it is at
`OVER_SAMPLING_RATIO`. -/
def initOtherExperimentSetting (floats : Lib.Rounding) (round : ℚ → ℚ) (s : Config.Setting ℚ) :
    ExperimentSetting where
  floats := floats
  hostOrSwitchSample := if s.enum .hostOrSwitchSample = 0 then .hostSample else .switchSample
  injectOrTagPacket :=
    if s.enum .injectOrTagPacket = 1 then .tagPktAsCondition else .injectPktAsCondition
  defaultByteSamplingRate :=
    if s.int .targetFlowVolumeInSampling = 0 then overSamplingRatio
    else round (1 / s.int .targetFlowVolumeInSampling * overSamplingRatio)
  targetFlowSetting := {
    volumeThreshold := s.int .targetFlowVolume
    lossRateThreshold := s.float .targetFlowLossRate
    lossVolumeThreshold := s.int .targetFlowLossVolume
    selectedLossVolumeThreshold := s.int .selectedLossVolumeThreshold }
  senderSetting := {
    lossMapMemType := if s.enum .senderLossMapMemType = 1 then .fixed else .infinite
    fixLossMapBucketSize := toUInt (intOfFloat (s.float .fixLossMapBucketSize))
    defaultLossByteSamplingRate :=
      if s.int .targetFlowLossVolume = 0 then 0
      else round (1 / s.int .targetFlowLossVolume * senderLossVolumeOverSamplingRate) }
  intervalMsecLen := s.int .intervalMsecLen
  conditionMsecFreq := s.int .conditionMsecFreq
  replacement := s.bool .replacement
  switchMemType := toInt (s.enum .switchMemType)
  switchDropRate := s.float .switchDropRate
  switchMemoryTimes := s.float .switchMemoryTimes
  switchesIntervalVolume i := s.uint64 (.switchIntervalVolume i)
  isInt_intervalMsecLen := s.isInt_int _
  isInt_conditionMsecFreq := s.isInt_int _

/-- The warnings are left out. -/
def checkValueCorrect (setting : ExperimentSetting) : ℤ :=
  let target := setting.targetFlowSetting
  if setting.intervalMsecLen = 0 then -1
  else if setting.conditionMsecFreq = 0 then -1
  else if setting.switchMemoryTimes = 0 then -1
  else if target.volumeThreshold = 0 ∧ target.lossRateThreshold = 0
      ∧ target.lossVolumeThreshold = 0 then -1
  else if ∃ i, setting.switchesIntervalVolume i = 0 then -1
  else 0

/-- The settings, where 0 is returned, on a machine with these floats. -/
def initCmExperimentSetting (floats : Lib.Rounding) (round : ℚ → ℚ)
    (lines : List (List UInt8)) : Option ExperimentSetting :=
  (Config.readCmExperimentSettingFromFile round Config.zeroSetting lines).bind fun s =>
    let setting := initOtherExperimentSetting floats round s
    if checkValueCorrect setting = 0 then some setting else none

theorem checkValueCorrect_of_init {floats : Lib.Rounding} {round : ℚ → ℚ}
    {lines : List (List UInt8)} {setting : ExperimentSetting}
    (h : initCmExperimentSetting floats round lines = some setting) :
    checkValueCorrect setting = 0 := by
  obtain ⟨s, -, hs⟩ := Option.bind_eq_some_iff.1 h
  dsimp only at hs
  split_ifs at hs with hcheck
  cases hs
  exact hcheck

/-- A file that is accepted, with some values of three settings. -/
def exampleLines (conditionMsecFreq lossMapMemType fixLossMapBucketSize : String) :
    List (List UInt8) :=
  ["interval_msec_len:3750000\n", "condition_msec_freq:" ++ conditionMsecFreq ++ "\n",
    "switch_memory_times:1\n", "target_flow_loss_volume:6000\n",
    "sender_loss_map_mem_type:" ++ lossMapMemType ++ "\n",
    "fix_loss_map_bucket_size:" ++ fixLossMapBucketSize ++ "\n",
    "switch1_interval_volume:21850000000\n", "switch2_interval_volume:22150000000\n",
    "switch3_interval_volume:31390000000\n", "switch4_interval_volume:37710000000\n",
    "switch5_interval_volume:34800000000\n", "switch6_interval_volume:42700000000\n",
    "switch7_interval_volume:39770000000\n", "switch8_interval_volume:42020000000\n",
    "switch9_interval_volume:19720000000\n", "switch10_interval_volume:37000000000\n",
    "switch11_interval_volume:34390000000\n", "switch12_interval_volume:20930000000\n"].map chars

theorem exampleLines_accepted : ∃ setting,
    initCmExperimentSetting .float id (exampleLines "500" "1" "4166") = some setting
      ∧ setting.conditionMsecFreq = 500 ∧ setting.senderSetting.lossMapMemType = .fixed
      ∧ setting.senderSetting.fixLossMapBucketSize = 4166 := by
  have h : ∃ setting ∈ initCmExperimentSetting .float id (exampleLines "500" "1" "4166"),
      setting.conditionMsecFreq = 500 ∧ setting.senderSetting.lossMapMemType = .fixed
        ∧ setting.senderSetting.fixLossMapBucketSize = 4166 := by decide +kernel
  exact h

end CMTestbed
