import CMTestbed.Lib.Lines
import CMTestbed.Python

/-!
# Text in Python 3

A file that is opened for reading is decoded as a whole, and each carriage return in it is read as a
newline.  White space and digits are those of Unicode.
-/

namespace CMTestbed

/-- What depends on the installation: the decoder of the locale, which may refuse the bytes; the
values of the decimal digits of its version of Unicode; and the number of digits that `int` converts
at most, where 0 stands for no limit. -/
structure Python3 where
  decode : List UInt8 → Option (List Char)
  decimal : Char → Option ℕ
  intMaxStrDigits : ℕ

namespace Python3

variable (py : Python3)

/-- `in_file.readlines()`: each line keeps its newline.  `UnicodeDecodeError` is a `ValueError`. -/
def readlines (content : List UInt8) : Except PyError (List (List Char)) :=
  match py.decode content with
  | some text => .ok (Lib.lines '\n' (Lib.universal '\n' '\r' text))
  | none => .error .valueError

/-- `str.isspace` of one character -/
def isspace (c : Char) : Bool :=
  let n := c.toNat
  9 ≤ n ∧ n ≤ 13 ∨ 28 ≤ n ∧ n ≤ 32 ∨ n = 0x85 ∨ n = 0xA0 ∨ n = 0x1680
    ∨ 0x2000 ≤ n ∧ n ≤ 0x200A ∨ n = 0x2028 ∨ n = 0x2029 ∨ n = 0x202F ∨ n = 0x205F ∨ n = 0x3000

/-- `s.split()` -/
def split (s : List Char) : List (List Char) :=
  (s.splitOnP isspace).filter fun item => !item.isEmpty

/-- The number that digits spell, of which two may have one underscore between them. -/
def decimals (s : List Char) : Except PyError ℕ :=
  let parts := s.splitOn '_'
  let digits := parts.flatten
  if parts.all (fun part => !part.isEmpty && part.all fun c => (py.decimal c).isSome)
      ∧ (py.intMaxStrDigits = 0 ∨ digits.length ≤ py.intMaxStrDigits) then
    .ok ((digits.filterMap py.decimal).foldl (fun n d => n * 10 + d) 0)
  else .error .valueError

/-- `int(s)` of a text without white space. -/
def int (s : List Char) : Except PyError ℤ :=
  match s with
  | '-' :: s => do
    let n ← py.decimals s
    .ok (-n)
  | '+' :: s => do
    let n ← py.decimals s
    .ok n
  | s => do
    let n ← py.decimals s
    .ok n

/-- The zeros of the decimal digits of Unicode 14; the other nine digits follow each. -/
def zeros : List ℕ :=
  [0x30, 0x660, 0x6F0, 0x7C0, 0x966, 0x9E6, 0xA66, 0xAE6, 0xB66, 0xBE6, 0xC66, 0xCE6, 0xD66, 0xDE6,
    0xE50, 0xED0, 0xF20, 0x1040, 0x1090, 0x17E0, 0x1810, 0x1946, 0x19D0, 0x1A80, 0x1A90, 0x1B50,
    0x1BB0, 0x1C40, 0x1C50, 0xA620, 0xA8D0, 0xA900, 0xA9D0, 0xA9F0, 0xAA50, 0xABF0, 0xFF10, 0x104A0,
    0x10D30, 0x11066, 0x110F0, 0x11136, 0x111D0, 0x112F0, 0x11450, 0x114D0, 0x11650, 0x116C0,
    0x11730, 0x118E0, 0x11950, 0x11C50, 0x11D50, 0x11DA0, 0x16A60, 0x16AC0, 0x16B50, 0x1D7CE,
    0x1D7D8, 0x1D7E2, 0x1D7EC, 0x1D7F6, 0x1E140, 0x1E2F0, 0x1E950, 0x1FBF0]

/-- Python 3.11 where the locale's encoding is UTF-8. -/
def utf8 : Python3 where
  decode bytes := (String.fromUTF8? ⟨bytes.toArray⟩).map String.toList
  decimal c := (zeros.find? fun z => z ≤ c.toNat ∧ c.toNat < z + 10).map (c.toNat - ·)
  intMaxStrDigits := 4300

example : utf8.readlines [49, 13, 0xC3, 0xA4, 13, 10, 50] = .ok [['1', '\n'], ['ä', '\n'], ['2']]
    ∧ utf8.readlines [49, 0xC3] = .error .valueError ∧ utf8.int ['1', '_', '٣'] = .ok 13 := by
  decide +kernel

end Python3

end CMTestbed
