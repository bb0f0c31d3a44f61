import Dissection.Value

/-!
# Values that are the same

Two values may be equal without being the same: `1` and `1.0` are equal numbers of two
kinds, and maps are equal whatever their order.  Values are the same if they have the
same kind and the same parts in the same order, and whether they are is decidable.

## Main definitions

* `Value.same` — whether two values are the same.
-/

namespace Dissection.Value

mutual

/-- Whether two values are the same. -/
def same : Value → Value → Bool
  | .null, .null => true
  | .bool a, .bool b => a = b
  | .int a, .int b => a = b
  | .float a, .float b => a = b
  | .text a, .text b => a = b
  | .bytes a, .bytes b => a = b
  | .moment a, .moment b => a = b
  | .member a, .member b => same a b
  | .placeholder a, .placeholder b => a = b
  | .list xs, .list ys => sameItems xs ys
  | .tuple xs, .tuple ys => sameItems xs ys
  | .set xs, .set ys => sameItems xs ys
  | .map xs, .map ys => sameEntries xs ys
  | _, _ => false

/-- Whether two sequences hold the same items. -/
def sameItems : List Value → List Value → Bool
  | [], [] => true
  | x :: xs, y :: ys => same x y && sameItems xs ys
  | _, _ => false

/-- Whether two sequences hold the same entries. -/
def sameEntries : List (Value × Value) → List (Value × Value) → Bool
  | [], [] => true
  | (k, v) :: xs, (k', v') :: ys => same k k' && same v v' && sameEntries xs ys
  | _, _ => false

end

mutual

theorem same_iff : (a b : Value) → (same a b = true ↔ a = b)
  | .null, b => by cases b <;> simp [same]
  | .bool _, b => by cases b <;> simp [same]
  | .int _, b => by cases b <;> simp [same]
  | .float _, b => by cases b <;> simp [same]
  | .text _, b => by cases b <;> simp [same]
  | .bytes _, b => by cases b <;> simp [same]
  | .moment _, b => by cases b <;> simp [same]
  | .member a, b => by cases b <;> simp [same, same_iff a]
  | .placeholder _, b => by cases b <;> simp [same]
  | .list xs, b => by cases b <;> simp [same, sameItems_iff xs]
  | .tuple xs, b => by cases b <;> simp [same, sameItems_iff xs]
  | .set xs, b => by cases b <;> simp [same, sameItems_iff xs]
  | .map xs, b => by cases b <;> simp [same, sameEntries_iff xs]

theorem sameItems_iff : (xs ys : List Value) → (sameItems xs ys = true ↔ xs = ys)
  | [], ys => by cases ys <;> simp [sameItems]
  | x :: xs, ys => by cases ys <;> simp [sameItems, same_iff x, sameItems_iff xs]

theorem sameEntries_iff :
    (xs ys : List (Value × Value)) → (sameEntries xs ys = true ↔ xs = ys)
  | [], ys => by cases ys <;> simp [sameEntries]
  | (k, v) :: xs, ys => by
    cases ys <;>
      simp [sameEntries, same_iff k, same_iff v, sameEntries_iff xs, Prod.ext_iff]

end

instance : DecidableEq Value := fun a b => decidable_of_iff (same a b = true) (same_iff a b)

end Dissection.Value
