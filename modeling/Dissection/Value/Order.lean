import Dissection.Text.Quoted
import Dissection.Value

/-!
# The order of values

Numbers are ordered by what they amount to, whatever their kinds; texts and bytes are
ordered letter by letter, tuples at the first place where they differ, and moments by
the instants they name.  Values of other kinds, and values of two kinds that are not
both numbers, have no order, and neither have two moments of which only one says how
far it is from universal time.

## Main definitions

* `Value.less?` — whether a value comes before another.
* `Value.sorted?` — values in their order.
* `Value.Clash` — why two values have no order.
-/

namespace Dissection.Value

/-! ## Numbers -/

/-- What a number amounts to. -/
inductive Amount where
  /-- So many units of 2 ^ (-1074). -/
  | units (n : Int)
  | infinite (negative : Bool)
  | nan
  deriving DecidableEq, Repr

/-- Whether an amount is less than another; NaN is neither less nor greater than
anything. -/
def Amount.less : Amount → Amount → Bool
  | .units a, .units b => a < b
  | .units _, .infinite negative => !negative
  | .infinite negative, .units _ => negative
  | .infinite negative, .infinite negative' => negative && !negative'
  | _, _ => false

/-- What a value amounts to, if it is a number; a truth value counts as 0 or 1. -/
def amount? : Value → Option Amount
  | .bool b => some (.units (b.toInt * Nat.pow 2 1074))
  | .int n => some (.units (n * Nat.pow 2 1074))
  | .float (.infinite negative) => some (.infinite negative)
  | .float x => some ((x.units?.map Amount.units).getD .nan)
  | _ => none

/-! ## Comparing -/

/-- Why two values have no order. -/
inductive Clash where
  /-- They are of these kinds. -/
  | kinds (kind other : Text)
  /-- They are moments, and only one has an offset. -/
  | offsets
  deriving DecidableEq, Repr

/-- What is said of values that have no order. -/
def Clash.message : Clash → Text
  | .kinds kind other =>
    "'<' not supported between instances of " ++ Text.quoted kind ++ " and " ++ Text.quoted other
  | .offsets => "can't compare offset-naive and offset-aware datetimes"

mutual

/-- Whether a value comes before another. -/
def less? : Value → Value → Except Clash Bool
  | .text a, .text b => .ok (a < b)
  | .bytes a, .bytes b => .ok (a < b)
  | .moment a, .moment b =>
    if a.offset.isSome = b.offset.isSome then .ok (a.instant < b.instant) else .error .offsets
  | .tuple xs, .tuple ys => lessItems? xs ys
  | a, b =>
    match a.amount?, b.amount? with
    | some x, some y => .ok (x.less y)
    | _, _ => .error (.kinds a.fullKind b.fullKind)

/-- Whether a sequence comes before another: the first items that differ decide, and of
two sequences that differ nowhere the shorter one is first. -/
def lessItems? : List Value → List Value → Except Clash Bool
  | _, [] => .ok false
  | [], _ :: _ => .ok true
  | x :: xs, y :: ys => if alike x y then lessItems? xs ys else less? x y

end

/-! ## Sorting -/

/-- A value put in its place among values in their order, behind those it is not less
than. -/
def insertSorted? (v : Value) : List Value → Except Clash (List Value)
  | [] => .ok [v]
  | other :: rest => do
    if ← less? v other then return v :: other :: rest
    return other :: (← insertSorted? v rest)

/-- Values in their order. -/
def sorted? (vs : List Value) : Except Clash (List Value) :=
  vs.foldlM (fun sorted v => insertSorted? v sorted) []

end Dissection.Value
