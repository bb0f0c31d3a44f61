/-!
# Binary64 numbers

A finite number of the binary64 format is a sign and a *rank*: how many numbers
of the format lie between zero and its magnitude, zero counted and the magnitude
not.  Neighbouring numbers have neighbouring ranks, every rank is a number, and
two numbers are equal exactly when sign and rank are.  All arithmetic is exact: a
magnitude is a whole number of units of 2 ^ (-1074).  Powers are those of the natural
numbers and are written so, since the sign `^` also stands for powers in a monoid.

## Main definitions

* `Binary64` — a number of the format, an infinity, or the one NaN.
* `Binary64.unitsOfRank` — the magnitude of a rank, in units of 2 ^ (-1074).
* `Binary64.ofRatio` — the number nearest to a ratio, a tie going to the even
  neighbour.
* `Binary64.toInt?` — the integer that a number equals, if it is one.
-/

namespace Dissection

/-- A number of the binary64 format. -/
inductive Binary64 where
  | finite (negative : Bool) (rank : Fin (2047 * Nat.pow 2 52))
  | infinite (negative : Bool)
  | nan
  deriving DecidableEq, Repr

namespace Binary64

/-- The number of units of 2 ^ (-1074) in the magnitude of a rank. -/
def unitsOfRank (rank : Nat) : Nat :=
  let binade := rank / Nat.pow 2 52
  if binade = 0 then rank
  else (Nat.pow 2 52 + rank % Nat.pow 2 52) * Nat.pow 2 (binade - 1)

/-- The integer nearest to `num / den`, a tie going to the even one. -/
def roundRatio (num den : Nat) : Nat :=
  let whole := num / den
  let rest := num % den
  if 2 * rest < den then whole
  else if den < 2 * rest then whole + 1
  else whole + whole % 2

/-- The rank of the magnitude nearest to `num / den`, a tie going to the even
rank.  The rank after the last one stands for everything beyond the format. -/
def rankOfRatio (num den : Nat) : Nat :=
  let units := num * Nat.pow 2 1074
  let shift := (units / den).log2 - 52
  shift * Nat.pow 2 52 + roundRatio units (den * Nat.pow 2 shift)

/-- The number nearest to `num / den` with the given sign. -/
def ofRatio (negative : Bool) (num den : Nat) : Binary64 :=
  let rank := rankOfRatio num den
  if h : rank < 2047 * Nat.pow 2 52 then .finite negative ⟨rank, h⟩ else .infinite negative

/-- The number nearest to an integer. -/
def ofInt (n : Int) : Binary64 := ofRatio (decide (n < 0)) n.natAbs 1

/-- Zero with the given sign. -/
def zero (negative : Bool) : Binary64 := .finite negative ⟨0, by decide⟩

/-- Whether a number is neither infinite nor NaN. -/
def isFinite : Binary64 → Bool
  | .finite _ _ => true
  | _ => false

/-- The signed number of units of 2 ^ (-1074) in a finite number. -/
def units? : Binary64 → Option Int
  | .finite negative rank =>
    some (if negative then -(unitsOfRank rank : Int) else unitsOfRank rank)
  | _ => none

/-- The integer that a number equals, if it equals one. -/
def toInt? (x : Binary64) : Option Int :=
  x.units?.bind fun units =>
    if units % Nat.pow 2 1074 = 0 then some (units / Nat.pow 2 1074) else none

/-- Whether two numbers are equal as numbers: the zeros are, and NaN is equal
to nothing. -/
def equals : Binary64 → Binary64 → Bool
  | .finite n a, .finite m b => a = b && (n = m || a.val = 0)
  | .infinite n, .infinite m => n = m
  | _, _ => false

/-- Whether a number equals an integer. -/
def equalsInt (x : Binary64) (n : Int) : Bool := x.toInt? = some n

end Binary64

end Dissection
