import CMTestbed.SwitchLogs
import Mathlib.Algebra.Order.Field.Rat

/-!
# The files of the senders

`read_hosts_rounds_target_flows` reads the file of each sender into a table of rounds and target
flows, and adds up what the flows' sampling missed.  The sums are floats, read as exact.
-/

namespace CMTestbed

open Lib (groups)

/-- `CONSTANTS.NUM_SENDER` -/
def numSender : ℕ := 12

/-- `host_target_flow_info_c`; what is not converted stays text. -/
structure HostTargetFlowInfo where
  srcip : ℕ
  dstip : ℕ
  volume : List UInt8
  lossVolume : List UInt8
  lossRate : List UInt8
  deriving DecidableEq, Repr

/-- `host_target_flow_info_c.__init__` -/
def HostTargetFlowInfo.init (srcip dstip volume _lossVolume lossRate : List UInt8) :
    HostTargetFlowInfo where
  srcip := digits srcip
  dstip := digits dstip
  volume := volume
  lossVolume := volume
  lossRate := lossRate

def srcipDstipKey (srcip dstip : List UInt8) : List UInt8 := srcip ++ [95] ++ dstip

/-- `(\d+.\d+)`, its point any character of a line. -/
def pointPart : Lib.Part UInt8 := .group [.plus isdigit, .one (· ≠ 10), .plus isdigit]

def targetFlowPattern : List (Lib.Part UInt8) :=
  [digitsPart, tabPart, digitsPart, tabPart, digitsPart, tabPart, pointPart, tabPart, signedPart,
    tabPart, signedPart, tabPart, signedPart]

/-- The groups of a target flow's line that are used. -/
structure TargetFlowRow where
  srcip : List UInt8
  dstip : List UInt8
  volume : List UInt8
  lossRate : List UInt8
  lossVolume : List UInt8
  notSampledVolume : List UInt8
  deriving DecidableEq, Repr

inductive HostLine where
  | round (msec : ℕ)
  | flow (row : TargetFlowRow)
  | other
  deriving DecidableEq, Repr

/-- What a line is taken for. -/
def parseHostLine (line : List UInt8) : HostLine :=
  match groups roundStartPattern line with
  | some [msec] => .round (digits msec)
  | _ =>
    match groups targetFlowPattern line with
    | some [srcip, dstip, volume, lossRate, lossVolume, notSampledVolume, _] =>
      .flow ⟨srcip, dstip, volume, lossRate, lossVolume, notSampledVolume⟩
    | _ => .other

/-- `rounds_target_flows_map` -/
abbrev HostRounds := Dict ℕ (Dict (List UInt8) HostTargetFlowInfo)

/-- What is added up over the files. -/
structure HostTotals where
  rawHostSampleSwitchHoldAccuracy : ℚ
  rawHostSampleSwitchHoldAccuracyCnt : ℕ
  notSampleFlowNum : ℕ
  deriving DecidableEq

def HostTotals.zero : HostTotals := ⟨0, 0, 0⟩

/-- A row more. -/
def HostTotals.add (totals : HostTotals) (volume notSampledVolume : List UInt8) :
    Except PyError HostTotals := do
  let notSampled ← pyInt notSampledVolume
  let volumeInt ← pyInt volume
  if volumeInt = 0 then .error .zeroDivisionError
  else .ok {
    rawHostSampleSwitchHoldAccuracy :=
      totals.rawHostSampleSwitchHoldAccuracy + (1 - notSampled / volumeInt)
    rawHostSampleSwitchHoldAccuracyCnt := totals.rawHostSampleSwitchHoldAccuracyCnt + 1
    notSampleFlowNum := totals.notSampleFlowNum + if notSampledVolume = volume then 1 else 0 }

/-- Where the reading of a file is. -/
structure HostReading where
  curRoundSec : ℕ
  roundsTargetFlowsMap : HostRounds
  totals : HostTotals

/-- What a line does.  The quotient of the milliseconds is a float, which gives the second for every
time below 2^52. -/
def readHostLine (s : HostReading) : HostLine → Except PyError HostReading
  | .round msec =>
    let curRoundSec := msec / 1000
    .ok { s with
      curRoundSec := curRoundSec
      roundsTargetFlowsMap :=
        if curRoundSec ∈ s.roundsTargetFlowsMap then s.roundsTargetFlowsMap
        else AList.insert curRoundSec ∅ s.roundsTargetFlowsMap }
  | .flow row => do
    let hostTargetFlow :=
      HostTargetFlowInfo.init row.srcip row.dstip row.volume row.lossVolume row.lossRate
    let oneRound ← s.roundsTargetFlowsMap.getItem s.curRoundSec
    let totals ← s.totals.add row.volume row.notSampledVolume
    .ok { s with
      roundsTargetFlowsMap := AList.insert s.curRoundSec
        (AList.insert (srcipDstipKey row.srcip row.dstip) hostTargetFlow oneRound)
        s.roundsTargetFlowsMap
      totals := totals }
  | .other => .ok s

/-- The loop over the lines. -/
def readHostLines (s : HostReading) (text : List UInt8) : Except PyError HostReading :=
  (readlines text).foldlM (fun s line => readHostLine s (parseHostLine line)) s

/-- What is read of the files. -/
structure HostResult where
  hostsRoundsTargetFlowsMap : Dict ℕ HostRounds
  rawHostSampleSwitchHoldAccuracy : ℚ
  notSampleFlowNum : ℕ

/-- `host_texts` are the files of the senders, by number. -/
def readHostsRoundsTargetFlows (hostTexts : ℕ → List UInt8) : Except PyError HostResult := do
  let (hosts, totals) ← (List.range' 1 numSender).foldlM (fun (r : Dict ℕ HostRounds × HostTotals)
      hostIdx => do
    let s ← readHostLines ⟨0, ∅, r.2⟩ (hostTexts hostIdx)
    .ok (AList.insert hostIdx s.roundsTargetFlowsMap r.1, s.totals)) (∅, HostTotals.zero)
  -- the ratio of the flows not sampled is printed
  if totals.rawHostSampleSwitchHoldAccuracyCnt = 0 then .error .zeroDivisionError
  else .ok {
    hostsRoundsTargetFlowsMap := hosts
    rawHostSampleSwitchHoldAccuracy :=
      totals.rawHostSampleSwitchHoldAccuracy / totals.rawHostSampleSwitchHoldAccuracyCnt
    notSampleFlowNum := totals.notSampleFlowNum }

end CMTestbed
