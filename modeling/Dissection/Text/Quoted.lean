import Dissection.Text
import Dissection.Text.Printable

/-!
# Quoted texts

A text is shown between two marks, with everything that could not be read back
written as an escape.  The mark is the apostrophe, unless the text holds an
apostrophe and no quotation mark.

## Main definitions

* `Text.quoted` — a text between its marks.
* `Text.quotedBytes` — a sequence of bytes between its marks, bytes beyond the
  printable part of ASCII as escapes.
-/

namespace Dissection.Text

namespace Quoted

/-- The apostrophe. -/
def apostrophe : Char := '\x27'

/-- The quotation mark. -/
def quotation : Char := '\x22'

/-- The mark around a text: the quotation mark where it spares an escape. -/
def mark (text : Text) : Char :=
  if apostrophe ∈ text ∧ quotation ∉ text then quotation else apostrophe

/-- A digit below sixteen. -/
def hexDigit (d : Nat) : Char :=
  if d < 10 then Char.ofNat ('0'.toNat + d) else Char.ofNat ('a'.toNat + (d - 10))

/-- The last `width` hexadecimal digits of a number. -/
def hex : (width n : Nat) → Text
  | 0, _ => []
  | width + 1, n => hex width (n / 16) ++ [hexDigit (n % 16)]

/-- The escape of a character that must not stand for itself between marks. -/
def escape? (mark c : Char) : Option Text :=
  if c = mark ∨ c = '\\' then some ['\\', c]
  else if c = '\n' then some ['\\', 'n']
  else if c = '\r' then some ['\\', 'r']
  else if c = '\t' then some ['\\', 't']
  else none

/-- A character between marks. -/
def character (mark c : Char) : Text :=
  match escape? mark c with
  | some escape => escape
  | none =>
    if Printable.isPrintable c then [c]
    else if c.toNat < 0x100 then '\\' :: 'x' :: hex 2 c.toNat
    else if c.toNat < 0x10000 then '\\' :: 'u' :: hex 4 c.toNat
    else '\\' :: 'U' :: hex 8 c.toNat

/-- A byte between marks. -/
def byte (mark : Char) (b : UInt8) : Text :=
  let c := Char.ofNat b.toNat
  match escape? mark c with
  | some escape => escape
  | none => if 0x20 ≤ b ∧ b < 0x7F then [c] else '\\' :: 'x' :: hex 2 b.toNat

end Quoted

/-- A text between its marks. -/
def quoted (text : Text) : Text :=
  let mark := Quoted.mark text
  mark :: text.flatMap (Quoted.character mark) ++ [mark]

/-- A sequence of bytes between its marks. -/
def quotedBytes (bytes : List UInt8) : Text :=
  let mark := Quoted.mark (bytes.map fun b => Char.ofNat b.toNat)
  'b' :: mark :: bytes.flatMap (Quoted.byte mark) ++ [mark]

end Dissection.Text
