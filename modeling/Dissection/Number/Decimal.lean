import Dissection.Number.Binary64
import Dissection.Number.Numeral

/-!
# Reading decimals as binary64 numbers

A decimal has digits before or after its point, or both, and may carry a sign
and an exponent; blanks may surround it, and its digits are those of a numeral:
of any script, with single underscores between them.  The names of the infinities
and of NaN are read in either case.  The number nearest to the decimal is the
result, and a decimal beyond the format is an infinity.

## Main definitions

* `Binary64.ofDecimal` — the number nearest to `coefficient · 10 ^ exponent`.
* `Binary64.read?` — the number that a text spells.
-/

namespace Dissection.Binary64

open Text Numeral

/-- The number nearest to the decimal `0.d₁d₂… · 10 ^ point`, for digits that may
start with zeros. -/
def ofDecimal (negative : Bool) (digits : List Nat) (point : Int) : Binary64 :=
  let coefficient := ofDigits digits
  let leading := point - (digits.takeWhile (· = 0)).length
  if coefficient = 0 then zero negative
  else if 310 < leading then .infinite negative
  else if leading < -330 then zero negative
  else
    let exponent := point - digits.length
    if 0 ≤ exponent then ofRatio negative (coefficient * Nat.pow 10 exponent.toNat) 1
    else ofRatio negative coefficient (Nat.pow 10 (-exponent).toNat)

/-- The digits of the fraction that a point opens, and the rest of the text.  A point
without digits after it ends the number. -/
def fraction : Text → List Nat × Text
  | '.' :: rest => digits rest
  | rest => ([], rest)

/-- The exponent that ends a decimal.  Nothing may follow it. -/
def exponent? : Text → Option Int
  | [] => some 0
  | e :: rest =>
    if e = 'e' ∨ e = 'E' then
      let (negative, rest) := sign rest
      match digits rest with
      | ([], _) => none
      | (_, _ :: _) => none
      | (found, []) => some (signed negative (ofDigits found))
    else none

/-- The number that a name stands for. -/
def named? (negative : Bool) (name : Text) : Option Binary64 :=
  let name := name.map Char.toLower
  if name = "inf" ∨ name = "infinity" then some (.infinite negative)
  else if name = "nan" then some .nan
  else none

/-- The number that a text spells. -/
def read? (text : Text) : Option Binary64 :=
  let (negative, rest) := sign (trimmed text)
  match named? negative rest with
  | some x => some x
  | none =>
    let (whole, rest) := digits rest
    let (part, rest) := fraction rest
    if whole = [] ∧ part = [] then none
    else
      (exponent? rest).map fun e => ofDecimal negative (whole ++ part) (whole.length + e)

end Dissection.Binary64
