import Dissection.Number.Binary64
import Dissection.Number.Numeral

/-!
# The shortest decimal of a binary64 number

A finite number is written with the fewest decimal digits that read back as the
same number; of the decimals with that many digits the nearest one is taken, and
of two equally near ones the one whose last digit is even.  It is written without
an exponent when its first digit stands for a power of ten from 10 ^ (-4) to 10 ^ 15,
and always shows a point or an exponent.

The reals that read back as one number form an interval whose ends lie halfway
to its neighbours and belong to it when the rank is even.  If a point of a
decimal grid lies in the interval, so does one of the two grid points next to
the number itself, so it is enough to try those two.

## Main definitions

* `Shortest.Decimal` — decimal digits and the place of the point among them.
* `Shortest.ofRank` — the shortest decimal of a magnitude.
* `Binary64.text` — a number as text.
-/

namespace Dissection

namespace Shortest

/-- The number `0.d₁d₂… · 10 ^ point` for the digits `d₁d₂…`. -/
structure Decimal where
  digits : Text
  point : Int
  deriving DecidableEq, Repr

/-- A power of ten on either side of a comparison: `(10 ^ p, 1)` or `(1, 10 ^ (-p))`. -/
def powerOfTen (p : Int) : Nat × Nat :=
  if 0 ≤ p then (Nat.pow 10 p.toNat, 1) else (1, Nat.pow 10 (-p).toNat)

/-- Whether the grid point `c · 10 ^ p` reads back as the magnitude of a
positive rank. -/
def readsBack (rank c : Nat) (p : Int) : Bool :=
  let (up, down) := powerOfTen p
  let doubled := c * up * Nat.pow 2 1075
  let low := (unitsBelow + here) * down
  let high := (here + unitsAbove) * down
  if rank % 2 = 0 then low ≤ doubled && doubled ≤ high else low < doubled && doubled < high
where
  here := Binary64.unitsOfRank rank
  unitsBelow := Binary64.unitsOfRank (rank - 1)
  unitsAbove := Binary64.unitsOfRank (rank + 1)

/-- The grid point next to a magnitude that reads back as it, if there is one
on the grid of `10 ^ p`. -/
def onGrid? (rank : Nat) (p : Int) : Option Nat :=
  let (up, down) := powerOfTen p
  let num := Binary64.unitsOfRank rank * down
  let den := Nat.pow 2 1074 * up
  let nearest := Binary64.roundRatio num den
  let below := num / den
  if readsBack rank nearest p then some nearest
  else if readsBack rank below p then some below
  else if readsBack rank (below + 1) p then some (below + 1)
  else none

/-- The power of ten of the first digit of a positive magnitude. -/
def leadingPower (rank : Nat) : Int :=
  ((Numeral.ofNat (Binary64.unitsOfRank rank * Nat.pow 10 350 / Nat.pow 2 1074)).length : Int) - 351

/-- Decimal digits without the zeros at their end. -/
def withoutZeros (digits : Text) : Text := (digits.reverse.dropWhile (· = '0')).reverse

/-- The first grid with a point that reads back, from `count` digits on. -/
def search (rank : Nat) (leading : Int) : (more count : Nat) → Option Decimal
  | 0, _ => none
  | more + 1, count =>
    let p := leading - count + 1
    match onGrid? rank p with
    | some c =>
      let digits := Numeral.ofNat c
      some ⟨withoutZeros digits, digits.length + p⟩
    | none => search rank leading more (count + 1)

/-- The shortest decimal of a magnitude.  Seventeen digits are always enough. -/
def ofRank (rank : Nat) : Decimal :=
  if rank = 0 then ⟨['0'], 1⟩
  else (search rank (leadingPower rank) 17 1).getD ⟨['0'], 1⟩

/-- An exponent with its sign and at least two digits. -/
def exponent (e : Int) : Text :=
  let digits := Numeral.ofNat e.natAbs
  (if e < 0 then '-' else '+') :: List.replicate (2 - digits.length) '0' ++ digits

/-- A decimal as text. -/
def Decimal.text (d : Decimal) : Text :=
  if -4 < d.point ∧ d.point ≤ 16 then
    if d.point ≤ 0 then
      '0' :: '.' :: List.replicate (-d.point).toNat '0' ++ d.digits
    else
      let whole := d.point.toNat
      let fraction := d.digits.drop whole
      d.digits.take whole ++ List.replicate (whole - d.digits.length) '0' ++
        '.' :: (if fraction = [] then ['0'] else fraction)
  else
    let fraction := d.digits.drop 1
    d.digits.take 1 ++ (if fraction = [] then [] else '.' :: fraction) ++
      'e' :: exponent (d.point - 1)

end Shortest

namespace Binary64

/-- A number as text. -/
def text : Binary64 → Text
  | .finite negative rank =>
    (if negative then ['-'] else []) ++ (Shortest.ofRank rank.val).text
  | .infinite negative => if negative then "-inf" else "inf"
  | .nan => "nan"

end Binary64

end Dissection
