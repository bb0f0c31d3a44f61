import Dissection.Moment
import Dissection.Number.Binary64
import Dissection.Placeholder
import Dissection.Table

/-!
# Values

The values that a record, a configuration or a file can hold: the data of JSON,
and the further kinds that a caller may put into a record.

A value is a finite tree, and is known by what it holds, not by where it is kept: two
fields that hold one value are like two fields that hold equal ones.  Where it matters
which list is held, as in an event, lists are given labels.  A tree may be of any
depth, and whatever goes through its parts comes to their end.

## Main definitions

* `Value` — a value.
* `Value.kind` — the name of a value's kind.
* `Value.alike` — whether two values are equal, numbers being compared across
  their kinds; `==` on values stands for it.
* `Value.ofEntries` — the map that a sequence of writes leaves.
-/

namespace Dissection

/-- A value. -/
inductive Value where
  | null
  | bool (b : Bool)
  | int (n : Int)
  | float (x : Binary64)
  | text (t : Text)
  | bytes (bytes : List UInt8)
  | moment (m : Moment)
  /-- A member of an enumeration, with the value that it stands for. -/
  | member (value : Value)
  | placeholder (p : Placeholder)
  | list (items : List Value)
  | tuple (items : List Value)
  | set (items : List Value)
  /-- Keys with their values, in the order in which the keys were first written. -/
  | map (entries : List (Value × Value))
  deriving Repr

namespace Value

instance : Inhabited Value := ⟨.null⟩

/-- The name of a value's kind. -/
def kind : Value → Text
  | .null => "NoneType"
  | .bool _ => "bool"
  | .int _ => "int"
  | .float _ => "float"
  | .text _ => "str"
  | .bytes _ => "bytes"
  | .moment _ => "datetime"
  | .member _ => "Member"
  | .placeholder _ => "FieldSpec"
  | .list _ => "list"
  | .tuple _ => "tuple"
  | .set _ => "set"
  | .map _ => "dict"

/-- The name of a value's kind with the library that defines it. -/
def fullKind : Value → Text
  | .moment _ => "datetime.datetime"
  | v => v.kind

/-- The text that a value is, if it is one. -/
def text? : Value → Option Text
  | .text t => some t
  | _ => none

/-! ## Equality -/

/-- Whether two numbers are equal; a truth value counts as 0 or 1, and what is no
number is equal to nothing. -/
def sameNumber : Value → Value → Bool
  | .bool a, .bool b => a == b
  | .bool a, .int b => (a.toInt : Int) == b
  | .bool a, .float b => b.equalsInt a.toInt
  | .int a, .bool b => a == (b.toInt : Int)
  | .int a, .int b => a == b
  | .int a, .float b => b.equalsInt a
  | .float a, .bool b => a.equalsInt b.toInt
  | .float a, .int b => a.equalsInt b
  | .float a, .float b => a.equals b
  | _, _ => false

mutual

/-- Whether two values are equal.  Numbers are compared by what they amount to,
sequences item by item, maps without regard to order; a member of an enumeration
is equal to no other value. -/
def alike : Value → Value → Bool
  | .null, .null => true
  | .text a, .text b => a == b
  | .bytes a, .bytes b => a == b
  | .moment a, .moment b => a.same b
  | .placeholder a, .placeholder b => a = b
  | .list xs, .list ys => allAlike xs ys
  | .tuple xs, .tuple ys => allAlike xs ys
  | .set xs, .set ys => xs.length == ys.length && allAmong xs ys
  | .map xs, .map ys => xs.length == ys.length && entriesAmong xs ys
  | a, b => sameNumber a b

/-- Whether two sequences are equal item by item. -/
def allAlike : List Value → List Value → Bool
  | [], [] => true
  | x :: xs, y :: ys => alike x y && allAlike xs ys
  | _, _ => false

/-- Whether every item has an equal among others. -/
def allAmong : List Value → List Value → Bool
  | [], _ => true
  | x :: xs, ys => ys.any (alike x ·) && allAmong xs ys

/-- Whether every entry has an equal among others. -/
def entriesAmong : List (Value × Value) → List (Value × Value) → Bool
  | [], _ => true
  | (k, v) :: xs, ys => ys.any (fun (k', v') => alike k k' && alike v v') && entriesAmong xs ys

end

instance : BEq Value := ⟨alike⟩

theorem beq_eq_alike (a b : Value) : (a == b) = alike a b := rfl

@[simp] theorem text_beq_text (a b : Text) : (text a == text b) = (a == b) := by
  simp [beq_eq_alike, alike]

/-- Only a text is equal to a text. -/
theorem beq_text_iff {v : Value} {t : Text} : (v == text t) = true ↔ v = text t := by
  cases v <;> simp [beq_eq_alike, alike, sameNumber]

/-! ## Maps -/

/-- The map that a sequence of writes leaves. -/
def ofEntries (entries : List (Value × Value)) : Value := .map (Table.ofList entries).entries

end Value

end Dissection
