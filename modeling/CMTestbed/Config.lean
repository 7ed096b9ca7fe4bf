import CMTestbed.Lib.Pattern
import CMTestbed.TaskFiles
import Mathlib.Algebra.Order.Field.Rat

/-!
# The file of settings

The programs in C read each setting from a line `key:value`.  Between experiments a script writes
eleven of them anew: it looks for their lines by a pattern, and has `sed` replace what it found.
A file is the list of its lines, each with its newline; the last one may have none.
-/

namespace CMTestbed.Config

/-- The keys that the reader compares with. -/
inductive Key where
  | intervalMsecLen
  | conditionMsecFreq
  | replacement
  | switchMemType
  | switchMemoryTimes
  | switchDropRate
  | hostOrSwitchSample
  | injectOrTagPacket
  | targetFlowVolume
  | targetFlowLossRate
  | targetFlowLossVolume
  | selectedLossVolumeThreshold
  | targetFlowVolumeInSampling
  | senderLossMapMemType
  | fixLossMapBucketSize
  | switchIntervalVolume (i : Fin 12)
  deriving DecidableEq

namespace Key

def name : Key → List UInt8
  | intervalMsecLen => chars "interval_msec_len"
  | conditionMsecFreq => chars "condition_msec_freq"
  | replacement => chars "replacement"
  | switchMemType => chars "switch_mem_type"
  | switchMemoryTimes => chars "switch_memory_times"
  | switchDropRate => chars "switch_drop_rate"
  | hostOrSwitchSample => chars "host_or_switch_sample"
  | injectOrTagPacket => chars "inject_or_tag_packet"
  | targetFlowVolume => chars "target_flow_volume"
  | targetFlowLossRate => chars "target_flow_loss_rate"
  | targetFlowLossVolume => chars "target_flow_loss_volume"
  | selectedLossVolumeThreshold => chars "selected_loss_volume_threshold"
  | targetFlowVolumeInSampling => chars "target_flow_volume_in_sampling"
  | senderLossMapMemType => chars "sender_loss_map_mem_type"
  | fixLossMapBucketSize => chars "fix_loss_map_bucket_size"
  | switchIntervalVolume i => chars ("switch" ++ toString (i.val + 1) ++ "_interval_volume")

end Key

/-! ## The reader -/

/-- What a decimal starts a text with, and the text behind it. -/
def decimal (s : List UInt8) : ℚ × List UInt8 :=
  match s.dropWhile isdigit with
  | 46 :: rest =>
    (digits s + digits rest / 10 ^ (rest.takeWhile isdigit).length, rest.dropWhile isdigit)
  | rest => (digits s, rest)

def exponent : List UInt8 → ℤ
  | [] => 0
  | c :: s =>
    if c = 101 ∨ c = 69 then
      match s with
      | 45 :: s => -digits s
      | 43 :: s => digits s
      | s => digits s
    else 0

def magnitude (s : List UInt8) : ℚ := (decimal s).1 * 10 ^ exponent (decimal s).2

/-- `strtof`, where `round` gives the `float` next to a number.  Hexadecimal numbers, infinities
and NaN are left out. -/
def strtof {F : Type} (round : ℚ → F) (s : List UInt8) : F :=
  match s.dropWhile isspace with
  | 45 :: s => round (-magnitude s)
  | 43 :: s => round (magnitude s)
  | s => round (magnitude s)

/-- What a field holds: an `int`, an enumeration, a `uint64_t`, a `bool` or a `float`. -/
inductive Value (F : Type) where
  | int (n : ℤ)
  | enum (n : UInt32)
  | uint64 (n : UInt64)
  | bool (b : Bool)
  | float (x : F)
  deriving DecidableEq

/-- What is stored under a key for the text behind the colon. -/
def Key.convert {F : Type} (round : ℚ → F) (k : Key) (text : List UInt8) : Value F :=
  match k with
  | replacement => .bool (strtol text ≠ 0)
  | switchMemType | hostOrSwitchSample | injectOrTagPacket | senderLossMapMemType =>
    .enum (.ofInt (strtol text))
  | switchMemoryTimes | switchDropRate | targetFlowLossRate => .float (strtof round text)
  | fixLossMapBucketSize => .float (round (strtol text))
  | switchIntervalVolume _ => .uint64 (.ofInt (strtol text))
  | _ => .int (intOfLong (strtol text))

/-- The value is the number; a `float` is the next one to it. -/
def Value.Is {F : Type} (round : ℚ → F) (number : ℚ) : Value F → Prop
  | int n => n = number
  | enum n => n.toNat = number
  | uint64 n => n.toNat = number
  | bool b => (if b then 1 else 0) = number
  | float x => x = round number

abbrev Setting (F : Type) := Key → Value F

/-- A line, as `str_split` gives it; nothing where that aborts. -/
def readLine {F : Type} (round : ℚ → F) (setting : Setting F) (line : List UInt8) :
    Option (Setting F) :=
  if IsComment line then some setting
  else (strSplit (cString line) 58).map fun tokens k =>
    match tokens with
    | key :: value :: _ => if key = k.name then k.convert round value else setting k
    | _ => setting k

def readCmExperimentSettingFromFile {F : Type} (round : ℚ → F) (setting : Setting F)
    (lines : List (List UInt8)) : Option (Setting F) :=
  lines.foldlM (readLine round) setting

/-! ## The writer -/

/-- The keys that the script writes, in the order in which it tries their patterns. -/
def writtenKeys : List Key :=
  [.hostOrSwitchSample, .replacement, .switchMemType, .switchMemoryTimes, .conditionMsecFreq,
    .targetFlowVolume, .targetFlowLossVolume, .targetFlowVolumeInSampling, .switchDropRate,
    .targetFlowLossRate, .injectOrTagPacket]

namespace Key

/-- A key and its colon. -/
def label (k : Key) : List UInt8 := k.name ++ [58]

/-- `(\d+\.\d+)` for the rates, `(\d+)` for the others. -/
def form : Key → Lib.Part UInt8
  | switchDropRate | targetFlowLossRate => .group [.plus isdigit, .one (· = 46), .plus isdigit]
  | _ => .group [.plus isdigit]

def pattern (k : Key) : List (Lib.Part UInt8) := [.literal k.label, k.form]

/-- The script finds the key in the line. -/
def Found (k : Key) (line : List UInt8) : Prop := (Lib.groups k.pattern line).isSome

instance (k : Key) (line : List UInt8) : Decidable (k.Found line) :=
  inferInstanceAs (Decidable (_ = true))

end Key

/-- What `s/^old/new/` makes of a line. -/
def substitute (old new line : List UInt8) : List UInt8 :=
  if old <+: line then new ++ line.drop old.length else line

/-- `sed -i` -/
def sed (old new : List UInt8) (file : List (List UInt8)) : List (List UInt8) :=
  file.map (substitute old new)

/-- `config_experiment_setting_file` reads the lines at once, and cuts the last character of each;
the arguments are named by the keys they are for. -/
def configExperimentSettingFile (args : Key → List UInt8) (file : List (List UInt8)) :
    List (List UInt8) :=
  (file.map List.dropLast).foldl (fun file line =>
    writtenKeys.foldl (fun file k =>
      if k.Found line then sed line (k.label ++ args k) file else file) file) file

/-! ## Files with the keys -/

def IsInteger (s : List UInt8) : Prop := s ≠ [] ∧ ∀ c ∈ s, isdigit c = true

def IsFraction (s : List UInt8) : Prop :=
  ∃ whole frac, IsInteger whole ∧ IsInteger frac ∧ s = whole ++ 46 :: frac

def IsDecimal (s : List UInt8) : Prop := IsInteger s ∨ IsFraction s

/-- The line of a key, which a newline may end. -/
def lineOf (k : Key) (value : List UInt8) (newline : Bool) : List UInt8 :=
  k.label ++ value ++ if newline then [10] else []

/-- The key is on this line of the file, and on no other. -/
def OnOneLine (file : List (List UInt8)) (k : Key) (value : List UInt8) (newline : Bool) : Prop :=
  ∃ pre post, file = pre ++ lineOf k value newline :: post
    ∧ ∀ line ∈ pre ++ post, ¬ k.label <+: line

/-- The value without the last character of the line. -/
def cutValue (value : List UInt8) (newline : Bool) : List UInt8 :=
  if newline then value else value.dropLast

/-- The script finds the key in its line. -/
def Key.Recognises (k : Key) (value : List UInt8) (newline : Bool) : Prop :=
  match k with
  | switchDropRate | targetFlowLossRate => IsFraction (cutValue value newline)
  | _ => cutValue value newline ≠ []

/-- The field of a key that the script writes has room for the number. -/
def Key.Holds (k : Key) (number : ℚ) : Prop :=
  match k with
  | replacement => number = 0 ∨ number = 1
  | switchMemType | hostOrSwitchSample | injectOrTagPacket => ∃ n : ℕ, n < 2 ^ 32 ∧ n = number
  | switchMemoryTimes | switchDropRate | targetFlowLossRate => True
  | _ => ∃ n : ℕ, n < 2 ^ 31 ∧ n = number

/-- The text is read as the number. -/
def Key.Reads {F : Type} (round : ℚ → F) (k : Key) (text : List UInt8) (number : ℚ) : Prop :=
  (k.convert round text).Is round number

/-- The script finds the key and replaces its value by one that the field has room for; without a
newline the last character stays behind the argument; where the script does not find the key, the
value stays. -/
def TakesEffect {F : Type} (round : ℚ → F) (k : Key) (value : List UInt8) (newline : Bool)
    (arg : List UInt8) : Prop :=
  (k.Recognises value newline ∧ newline = true ∧ k.Holds (magnitude arg))
    ∨ (k.Recognises value newline ∧ newline = false
      ∧ k.Reads round (arg ++ value.drop (value.length - 1)) (magnitude arg))
    ∨ (¬ k.Recognises value newline ∧ k.Reads round value (magnitude arg))

end CMTestbed.Config
