import Dissection.Text.Blank
import Dissection.Text.Digit

/-!
# Numerals of integers

An integer is written in the decimal digits of ASCII.  It is read more freely:
blanks may surround it, a sign may lead it, its digits may come from any
script, and a single underscore may stand between two digits.

Reading takes at most `Numeral.limit` digits, leading zeros among them, and an integer with
more digits than that is not shown.

## Main definitions

* `Numeral.ofNat`, `Numeral.ofInt` — the digits of a number.
* `Numeral.isShown` — whether a number has few enough digits to be shown.
* `Numeral.digits` — the digits at the front of a text, and what follows them.
* `Numeral.read?` — the integer that a text spells.
-/

namespace Dissection.Numeral

open Text

/-! ## Writing -/

/-- The decimal digits of a number. -/
def ofNat (n : Nat) : Text := Nat.toDigits 10 n

/-- The decimal digits of an integer, after a minus where it is negative. -/
def ofInt : Int → Text
  | .ofNat n => ofNat n
  | .negSucc n => '-' :: ofNat (n + 1)

/-- The greatest number of digits of an integer that is read or shown. -/
def limit : Nat := 4300

/-- Whether a number has few enough digits to be shown. -/
def isShown (n : Nat) : Bool := (ofNat n).length ≤ limit

/-- What is said of an integer that is not shown. -/
def notShown : Text :=
  "Exceeds the limit (" ++ ofNat limit ++ " digits) for integer string conversion; " ++
    "use sys.set_int_max_str_digits() to increase the limit"

/-! ## Reading -/

/-- What is said of a numeral with more digits than are read. -/
def tooLong (count : Nat) : Text :=
  "Exceeds the limit (" ++ ofNat limit ++ " digits) for integer string conversion: value has " ++
    ofNat count ++ " digits; use sys.set_int_max_str_digits() to increase the limit"

/-- The number that a list of decimal digits spells. -/
def ofDigits (digits : List Nat) : Nat := digits.foldl (fun n d => 10 * n + d) 0

/-- The digits that follow a digit, and the rest of the text.  An underscore
counts as part of the numeral only where a digit follows it. -/
def moreDigits : Text → List Nat × Text
  | [] => ([], [])
  | c :: rest =>
    match Digit.value? c with
    | some d => let (digits, after) := moreDigits rest; (d :: digits, after)
    | none =>
      if c = '_' then
        match rest with
        | [] => ([], [c])
        | c' :: rest' =>
          match Digit.value? c' with
          | some d => let (digits, after) := moreDigits rest'; (d :: digits, after)
          | none => ([], c :: rest)
      else ([], c :: rest)

/-- The digits at the front of a text, and the rest of the text. -/
def digits : Text → List Nat × Text
  | [] => ([], [])
  | c :: rest =>
    match Digit.value? c with
    | some d => let (digits, after) := moreDigits rest; (d :: digits, after)
    | none => ([], c :: rest)

/-- Whether a minus leads a text, and what follows its sign. -/
def sign : Text → Bool × Text
  | [] => (false, [])
  | c :: rest =>
    if c = '-' then (true, rest) else if c = '+' then (false, rest) else (false, c :: rest)

/-- An integer from its sign and its magnitude. -/
def signed (negative : Bool) (magnitude : Nat) : Int :=
  if negative then -(magnitude : Int) else magnitude

/-- The integer that a text spells. -/
def read? (text : Text) : Option Int :=
  let (negative, rest) := sign (trimmed text)
  match digits rest with
  | ([], _) => none
  | (_, _ :: _) => none
  | (found, []) => if found.length ≤ limit then some (signed negative (ofDigits found)) else none

end Dissection.Numeral
