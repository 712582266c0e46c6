import Jetty.Core.Python.Json
import Jetty.Core.Python.Unicode

/-!
# Conversion to an integer

`int` of a text and of the other values of JSON.
-/

namespace Python

/-- What Python counts as a space around digits, once the text is ASCII. -/
def isAsciiSpace (c : CodePoint) : Bool :=
  c.val == 0x20 || (decide (0x9 ≤ c.val) && decide (c.val ≤ 0xD))

/-- The value of a decimal digit. -/
def decimalOf (c : CodePoint) : Option ℕ :=
  (decimalBlocks.find? fun b => decide (b ≤ c.val) && decide (c.val < b + 10)).map (c.val - ·)

/-- Spaces and digits beyond ASCII become those of ASCII, and everything else a `?`. -/
def toAscii (s : Text) : Text :=
  if s.all fun c => decide (c.val < 0x80) then s
  else
    s.map fun c =>
      if c.val < 0x7F then c
      else if Text.isSpace c then 0x20
      else
        match decimalOf c with
        | some d => Fin.ofNat _ (0x30 + d)
        | none => 0x3F

/-- Digits with single underscores between them. -/
def digits : Bool → Text → Option (List ℕ)
  | afterDigit, [] => if afterDigit then some [] else none
  | afterDigit, c :: cs =>
    if c.val = 0x5F then
      if afterDigit then digits false cs else none
    else if 0x30 ≤ c.val ∧ c.val ≤ 0x39 then (digits true cs).map ((c.val - 0x30) :: ·)
    else none

/-- `int` of a text of digits without a sign; at most 4300 digits are converted. -/
def natOfText (s : Text) : Option ℕ :=
  match digits false s with
  | some ds => if 4300 < ds.length then none else some (ds.foldl (fun n d => n * 10 + d) 0)
  | none => none

/-- `int` of a text; nothing where it raises `ValueError`. -/
def intOfText (s : Text) : Option ℤ :=
  let s := ((toAscii s).dropWhile isAsciiSpace).reverse.dropWhile isAsciiSpace |>.reverse
  match s with
  | c :: cs =>
    if c.val = 0x2D then (natOfText cs).map fun n => -(n : ℤ)
    else if c.val = 0x2B then (natOfText cs).map fun n => (n : ℤ)
    else (natOfText s).map fun n => (n : ℤ)
  | [] => none

/-- `int` of a value; nothing where it raises `TypeError`, `ValueError` or `OverflowError`. -/
def Json.toInt : Json → Option ℤ
  | .null | .list _ | .dict _ => none
  | .bool b => some (if b then 1 else 0)
  | .int n => some n
  | .float (.finite q) => some (q.num.tdiv q.den)
  | .float _ => none
  | .str s => intOfText s

example : intOfText (text " -1_024\n") = some (-1024) := by decide +kernel

end Python
