import CMTestbed.Text
import CMTestbed.Lib.Tokens

/-!
# The array of `str_split`

`str_split` counts the delimiters to size its array, stores what `strtok` finds, and asserts that
the two agree.  Allocation is taken to succeed; what a cell holds before it is written is arbitrary.
-/

namespace CMTestbed

/-- A cell of the array: a string, or NULL. -/
abbrev Cell := Option (List UInt8)

inductive SplitFailure where
  /-- `assert(idx < count)` -/
  | moreThanCount
  /-- A cell past the end of the array is written. -/
  | outside
  /-- `assert(idx == count - 1)` -/
  | notCount
  deriving DecidableEq, Repr

/-- The loop over the string: `count`, and the place of `last_comma` or nothing for its 0. -/
def countDelims (aDelim : UInt8) : List UInt8 → ℕ → ℕ × Option ℕ → ℕ × Option ℕ
  | [], _, r => r
  | c :: s, tmp, r =>
    countDelims aDelim s (tmp + 1) (if aDelim = c then (r.1 + 1, some tmp) else r)

def store (result : List Cell) (idx : ℕ) (cell : Cell) : Except SplitFailure (List Cell) :=
  if idx < result.length then .ok (result.set idx cell) else .error .outside

/-- The loop over the tokens; `rest` is what `strtok` has not read. -/
def storeTokens (aDelim : UInt8) (count : ℕ) (rest : List UInt8) (idx : ℕ) (result : List Cell) :
    Except SplitFailure (ℕ × List Cell) :=
  match h : Lib.nextToken aDelim rest with
  | none => .ok (idx, result)
  | some (token, rest') =>
    if idx < count then do
      let result ← store result idx (some token)
      storeTokens aDelim count rest' (idx + 1) result
    else .error .moreThanCount
  termination_by rest.length
  decreasing_by exact (Lib.tokens_of_nextToken_some h).2

/-- `str_split`, from its array's first contents on. -/
def strSplitArray (aStr : List UInt8) (aDelim : UInt8) (fresh : ℕ → Cell) :
    Except SplitFailure (List Cell) :=
  let (count, lastComma) := countDelims aDelim aStr 0 (0, none)
  -- `last_comma < a_str + strlen(a_str) - 1`; a 0 is below every address
  let count := count + if lastComma.all fun last => last + 1 < aStr.length then 1 else 0
  let count := count + 1
  let result := (List.range count).map fresh
  do
    let (idx, result) ← storeTokens aDelim count aStr 0 result
    if idx = count - 1 then store result idx none else .error .notCount

end CMTestbed
