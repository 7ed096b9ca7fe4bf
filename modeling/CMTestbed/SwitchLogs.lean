import CMTestbed.Lib.Lines
import CMTestbed.Lib.Pattern
import CMTestbed.Python
import CMTestbed.Text

/-!
# The logs of the switches

`read_rounds_per_switch_flow_info` of the calculators of method 2 and method 3 reads the logs of
the switches, one after the other, into one table of rounds and flows.  The logs are ASCII text.
-/

namespace CMTestbed

open Lib (groups)

/-- `in_file.readlines()`, with the universal newlines of Python 3: each line keeps its newline. -/
def readlines (text : List UInt8) : List (List UInt8) := Lib.lines 10 (Lib.universal 10 13 text)

/-- `int(s)` of a text without white space. -/
def pyInt (s : List UInt8) : Except PyError ℤ :=
  match s with
  | 45 :: s => if s ≠ [] ∧ s.all isdigit then .ok (-digits s) else .error .valueError
  | 43 :: s => if s ≠ [] ∧ s.all isdigit then .ok (digits s) else .error .valueError
  | s => if s ≠ [] ∧ s.all isdigit then .ok (digits s) else .error .valueError

/-- `(\d+)` -/
def digitsPart : Lib.Part UInt8 := .group [.plus isdigit]

/-- `([-]*\d+)` -/
def signedPart : Lib.Part UInt8 := .group [.star (· = 45), .plus isdigit]

def tabPart : Lib.Part UInt8 := .literal [9]

def roundStartPattern : List (Lib.Part UInt8) :=
  [.literal (chars "=====time-"), digitsPart, .literal (chars " milliseconds=====")]

def flowInfoPatternOld : List (Lib.Part UInt8) :=
  [digitsPart, tabPart, digitsPart, tabPart, signedPart, tabPart, signedPart]

def flowInfoPatternNew : List (Lib.Part UInt8) := flowInfoPatternOld ++ [tabPart, digitsPart]

/-- The numbers of a flow's line. -/
structure Record where
  realVolume : ℕ
  capturedVolume : ℤ
  signedTarget : ℤ
  targetSwitchReceived : ℕ
  deriving DecidableEq, Repr

inductive LogLine where
  | round (msec : ℕ)
  | flow (srcip : List UInt8) (r : Record)
  | other

/-- What a line is taken for. -/
def parseLine (line : List UInt8) : Except PyError LogLine :=
  match groups roundStartPattern line with
  | some [msec] => .ok (.round (digits msec))
  | _ =>
    match groups flowInfoPatternNew line with
    | some [srcip, realVolume, capturedVolume, signedTarget, targetSwitchReceived] => do
      let capturedVolume ← pyInt capturedVolume
      let signedTarget ← pyInt signedTarget
      .ok (.flow srcip
        ⟨digits realVolume, capturedVolume, signedTarget, digits targetSwitchReceived⟩)
    | _ =>
      match groups flowInfoPatternOld line with
      | some [srcip, realVolume, capturedVolume, signedTarget] => do
        let capturedVolume ← pyInt capturedVolume
        let signedTarget ← pyInt signedTarget
        .ok (.flow srcip ⟨digits realVolume, capturedVolume, signedTarget, 0⟩)
      | _ => .ok .other

/-- `switch_flow_info_c` -/
structure SwitchFlowInfo where
  realVolume : ℕ
  capturedVolume : ℤ
  signedTarget : ℤ
  targetSwitchReceived : ℕ
  deriving DecidableEq, Repr

/-- The calculators, which differ in what they take from a record. -/
inductive Method where
  | method2
  | method3
  deriving DecidableEq, Repr

/-- The entry of a flow, from its first record. -/
def Method.newInfo (m : Method) (r : Record) : SwitchFlowInfo :=
  match m with
  | method2 =>
    if r.signedTarget ≠ 0 ∧ r.capturedVolume > 0 then
      ⟨r.realVolume, r.capturedVolume, r.signedTarget, r.targetSwitchReceived⟩
    else ⟨r.realVolume, 0, 0, 0⟩
  | method3 => ⟨r.realVolume, r.capturedVolume, r.signedTarget, r.targetSwitchReceived⟩

/-- A record more of a flow that has an entry. -/
def Method.addTo (m : Method) (flowInfo : SwitchFlowInfo) (r : Record) : SwitchFlowInfo :=
  let flowInfo := { flowInfo with realVolume := flowInfo.realVolume + r.realVolume }
  let merged : SwitchFlowInfo :=
    { flowInfo with
      capturedVolume := flowInfo.capturedVolume + r.capturedVolume
      signedTarget := max r.signedTarget flowInfo.signedTarget
      targetSwitchReceived := max r.targetSwitchReceived flowInfo.targetSwitchReceived }
  match m with
  | method2 => if r.signedTarget ≠ 0 ∧ r.capturedVolume > 0 then merged else flowInfo
  | method3 => merged

/-- `one_switch_rounds_info` -/
abbrev Rounds := Dict ℕ (Dict (List UInt8) SwitchFlowInfo)

/-- What a line does to the current round and the table.  The quotient of the milliseconds is a
float, which gives the second for every time below 2^52. -/
def readLogLine (m : Method) (s : ℕ × Rounds) : LogLine → ℕ × Rounds
  | .round msec =>
    let curRoundSec := msec / 1000
    (curRoundSec, if curRoundSec ∈ s.2 then s.2 else AList.insert curRoundSec ∅ s.2)
  | .flow srcip r =>
    match s.2.lookup s.1 with
    | none => s
    | some oneRound =>
      match oneRound.lookup srcip with
      | some flowInfo =>
        (s.1, AList.insert s.1 (AList.insert srcip (m.addTo flowInfo r) oneRound) s.2)
      | none =>
        if r.realVolume ≤ 0 then s
        else (s.1, AList.insert s.1 (AList.insert srcip (m.newInfo r) oneRound) s.2)
  | .other => s

def readSwitch (m : Method) (rounds : Rounds) (text : List UInt8) : Except PyError Rounds := do
  let s ← (readlines text).foldlM (fun s line => readLogLine m s <$> parseLine line) (0, rounds)
  .ok s.2

/-- The table after the logs of the switches, in the order in which they are read. -/
def readRoundsPerSwitchFlowInfo (m : Method) (logs : List (List UInt8)) : Except PyError Rounds :=
  logs.foldlM (readSwitch m) ∅

/-- The entry of a flow in a round. -/
def Rounds.entry (rounds : Rounds) (sec : ℕ) (srcip : List UInt8) : Option SwitchFlowInfo :=
  (rounds.lookup sec).bind fun oneRound => oneRound.lookup srcip

example : groups flowInfoPatternNew (chars "167772161\t0\t-1\t1\t1\n")
    = some [chars "167772161", chars "0", chars "-1", chars "1", chars "1"] := by decide +kernel

end CMTestbed
