import CMTestbed.Lib.Polling
import CMTestbed.Settings

/-!
# Waiting by the clock

`get_next_interval_start` polls the clock until an interval begins, and `rotate_interval` sleeps for
what its work has left of an interval.  The readings are in milliseconds.  Those that
`get_next_interval_start` polls are plain numbers: its sums do not wrap around on a clock that a
signed 64-bit number holds (`toNat_nextBoundary`).
-/

namespace CMTestbed

/-! ## Polling for an interval -/

/-- Not at the start of an interval. -/
def inInterval (timeIntervalMsecs msec : ℕ) : Bool := msec % timeIntervalMsecs ≠ 0

/-- At the start of an interval, or past the one that follows the interval `preIntervalTag`. -/
def atNextInterval (timeIntervalMsecs preIntervalTag msec : ℕ) : Bool :=
  msec % timeIntervalMsecs = 0 ∨ (preIntervalTag + 1) * timeIntervalMsecs < msec

/-- From reading `i` on, what is returned and which reading it is; nothing where a loop of it takes
more than `fuel` readings. -/
def getNextIntervalStart (timeIntervalMsecs : UInt32) (clock : ℕ → ℕ) (fuel i : ℕ) :
    Option (ℕ × ℕ) :=
  let T := timeIntervalMsecs.toNat
  (Lib.pollFrom clock (inInterval T) fuel i).bind fun first =>
    let preIntervalTag := clock first / T
    (Lib.pollFrom clock (atNextInterval T preIntervalTag) fuel (first + 1)).map fun last =>
      (clock last, last)

/-- A call that starts with reading `i` ends, at the first reading in a later interval than that
one's. -/
def EndsInLaterInterval (timeIntervalMsecs : UInt32) (clock : ℕ → ℕ) (i : ℕ) : Prop :=
  let T := timeIntervalMsecs.toNat
  ∃ fuel last, getNextIntervalStart timeIntervalMsecs clock fuel i = some (clock last, last)
    ∧ i < last ∧ clock i / T < clock last / T ∧ ∀ k, i ≤ k → k < last → clock k / T = clock i / T

/-- On every clock, each call ends in a later interval, and the next call in a still later one. -/
def WaitsForNextInterval (timeIntervalMsecs : UInt32) : Prop :=
  ∀ clock, Lib.Ticking clock → ∀ i, EndsInLaterInterval timeIntervalMsecs clock i
    ∧ ∀ fuel t last, getNextIntervalStart timeIntervalMsecs clock fuel i = some (t, last) →
      ∀ i' fuel' t' last', last < i' →
        getNextIntervalStart timeIntervalMsecs clock fuel' i' = some (t', last') →
        t / timeIntervalMsecs.toNat < t' / timeIntervalMsecs.toNat

/-! ## Sleeping between rotations -/

def rotateDurationMsec (currentMsec afterRotateMsec : UInt64) : UInt32 :=
  (afterRotateMsec - currentMsec).toUInt32

/-- The sleep that is requested after a rotation. -/
def toSleepMsec (intervalMsecLen : ℤ) (currentMsec afterRotateMsec : UInt64) : UInt32 :=
  toUInt intervalMsecLen - rotateDurationMsec currentMsec afterRotateMsec

/-- `to_sleep_time`: seconds and nanoseconds. -/
def toSleepTime (toSleepMsec : UInt32) : ℕ × ℕ :=
  ((toSleepMsec / 1000).toNat, ((toSleepMsec % 1000) * 1000000).toNat)

/-- Pass `i` of the loop starts with reading `2 * i`, and reads the clock again after the rotation;
the reading that is only printed is left out. -/
structure RotatePass where
  currentMsec : UInt64
  afterRotateMsec : UInt64

def rotatePass (clock : ℕ → UInt64) (i : ℕ) : RotatePass := ⟨clock (2 * i), clock (2 * i + 1)⟩

namespace RotatePass
variable (intervalMsecLen : ℤ) (pass : RotatePass)

/-- How long the rotation takes. -/
def duration : ℤ := pass.afterRotateMsec.toNat - pass.currentMsec.toNat

/-- The sleep, in milliseconds. -/
def requested : ℤ :=
  let toSleepTime := toSleepTime
    (toSleepMsec intervalMsecLen pass.currentMsec pass.afterRotateMsec)
  toSleepTime.1 * 1000 + toSleepTime.2 / 1000000

/-- By how much the next pass starts after the sleep requested. -/
def delay (next : RotatePass) : ℤ :=
  next.currentMsec.toNat - (pass.afterRotateMsec.toNat + pass.requested intervalMsecLen)

/-- The sleep is what is left of the interval, and the next pass starts in time. -/
structure SleepsOnTime (next : RotatePass) : Prop where
  requested_le : pass.requested intervalMsecLen ≤ intervalMsecLen
  requested_eq : pass.requested intervalMsecLen = max (intervalMsecLen - pass.duration) 0
  next_le : (next.currentMsec.toNat : ℤ) ≤ pass.currentMsec.toNat
    + max intervalMsecLen pass.duration + pass.delay intervalMsecLen next

end RotatePass

end CMTestbed
