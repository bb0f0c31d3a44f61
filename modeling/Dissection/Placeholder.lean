import Dissection.Number.Numeral

/-!
# Placeholders

A placeholder says where a capture goes.  Its text is a name with at most one mark in
front, and an append placeholder may end in a slash and a slot:

* `name` — the capture is the value of the field `name`;
* `+name`, `+name/2` — the capture is a piece of the field `name`, at any slot or
  at the given one;
* `?tag` — the capture is the name of a field;
* `&tag` — the capture is the value of the field named under the same tag;
* nothing, or a mark with no name — the capture is dropped.

## Main definitions

* `Modifier` — what a capture is used for, and `Modifier.ofKind` to make one.
* `Placeholder` — a name with its modifier and the text it was read from.
* `Placeholder.parse` — reads the text of a placeholder.
* `Placeholder.Error` — why a text is no placeholder.
-/

namespace Dissection

open Text

/-! ## What a capture is used for -/

/-- What a capture is used for.  Only an ordered append has a slot. -/
inductive Modifier where
  | normal
  | skip
  | append
  | appendAt (slot : Nat)
  | key
  | value
  deriving DecidableEq, Repr

namespace Modifier

/-- A modifier without its slot. -/
inductive Kind where
  | normal
  | skip
  | append
  | appendAt
  | key
  | value
  deriving DecidableEq, Repr

/-- Every kind. -/
def Kind.all : List Kind := [.normal, .skip, .append, .appendAt, .key, .value]

/-- The word for a kind. -/
def Kind.label : Kind → Text
  | .normal => "normal"
  | .skip => "skip"
  | .append => "append"
  | .appendAt => "append_ordered"
  | .key => "indirect_key"
  | .value => "indirect_value"

/-- The kind of a modifier. -/
def kind : Modifier → Kind
  | .normal => .normal
  | .skip => .skip
  | .append => .append
  | .appendAt _ => .appendAt
  | .key => .key
  | .value => .value

/-- The word for a modifier. -/
def label (m : Modifier) : Text := m.kind.label

/-- The slot of an ordered append. -/
def slot? : Modifier → Option Nat
  | .appendAt slot => some slot
  | _ => none

/-- Why a kind and a slot make no modifier. -/
inductive SlotError where
  | required
  | misplaced
  deriving DecidableEq, Repr

/-- What is said of a slot error. -/
def SlotError.message : SlotError → Text
  | .required => "order must be a non-negative integer for ordered append"
  | .misplaced => "order is only valid for ordered append"

/-- The modifier of a kind with a slot.  An ordered append needs a slot that is
not negative, and nothing else may have one. -/
def ofKind (kind : Kind) (slot : Option Int) : Except SlotError Modifier :=
  match kind, slot with
  | .appendAt, some (.ofNat slot) => .ok (.appendAt slot)
  | .appendAt, _ => .error .required
  | _, some _ => .error .misplaced
  | .normal, none => .ok .normal
  | .skip, none => .ok .skip
  | .append, none => .ok .append
  | .key, none => .ok .key
  | .value, none => .ok .value

/-- Whether captures become pieces of a field. -/
def isAppend : Modifier → Bool
  | .append | .appendAt _ => true
  | _ => false

/-- Whether the name is the tag of a pair and not the name of a field. -/
def isIndirect : Modifier → Bool
  | .key | .value => true
  | _ => false

/-- Whether a capture can reach the result. -/
def isSaved (m : Modifier) : Bool := m ≠ .skip

end Modifier

/-! ## Placeholders -/

/-- A placeholder: where a capture goes. -/
structure Placeholder where
  name : Text
  modifier : Modifier
  /-- The text that the placeholder was read from. -/
  raw : Text
  deriving DecidableEq, Repr

namespace Placeholder

/-- Why a text is no placeholder. -/
inductive Error where
  /-- The append mark and an indirect mark stand together. -/
  | appendWithIndirect (marks raw : Text)
  /-- Several marks stand together. -/
  | severalMarks (marks raw : Text)
  /-- What follows the last slash is not a slot. -/
  | badSlot (raw : Text)
  /-- The slot has more digits than are read. -/
  | slotTooLong (digits : Nat)
  deriving DecidableEq, Repr

/-- What is said of an error. -/
def Error.message : Error → Text
  | .appendWithIndirect marks raw =>
    "Field cannot prefix with both Append and Indirect Prefix (" ++ marks ++ "): " ++ raw
  | .severalMarks marks raw =>
    "Field cannot have more than one prefix (" ++ marks ++ "): " ++ raw
  | .badSlot raw => "Field append order must be a non-negative integer: " ++ raw
  | .slotTooLong digits => Numeral.tooLong digits

/-- Whether a character is a mark. -/
def isMark (c : Char) : Bool := c = '+' || c = '?' || c = '&'

/-- The placeholder that drops its capture. -/
def dropped (raw : Text) : Placeholder := ⟨[], .skip, raw⟩

/-- A placeholder under a name; without a name there is nothing to write to. -/
def named (name : Text) (modifier : Modifier) (raw : Text) : Placeholder :=
  if name = [] then dropped raw else ⟨name, modifier, raw⟩

/-- The slot that the text after the last slash spells, in the digits of ASCII
alone. -/
def readSlot (raw order : Text) : Except Error Nat :=
  match order.mapM Digit.ascii? with
  | none | some [] => .error (.badSlot raw)
  | some digits =>
    if digits.length ≤ Numeral.limit then .ok (Numeral.ofDigits digits)
    else .error (.slotTooLong digits.length)

/-- Reads an append placeholder from what follows its mark. -/
def parseAppend (raw body : Text) : Except Error Placeholder :=
  match cutLast? '/' body with
  | none => .ok (named body .append raw)
  | some (name, order) => (readSlot raw order).map fun slot => named name (.appendAt slot) raw

/-- Reads the text of a placeholder. -/
def parse (raw : Text) : Except Error Placeholder :=
  let body := raw.dropWhile isMark
  match raw.takeWhile isMark with
  | [] => .ok (named body .normal raw)
  | ['+'] => parseAppend raw body
  | ['?'] => .ok (named body .key raw)
  | [_] => .ok (named body .value raw)
  | marks =>
    if '+' ∈ marks ∧ ('?' ∈ marks ∨ '&' ∈ marks) then .error (.appendWithIndirect marks raw)
    else .error (.severalMarks marks raw)

end Placeholder

end Dissection
