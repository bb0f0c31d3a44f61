import Dissection.Number.Shortest
import Dissection.Text.Quoted
import Dissection.Text.Uppercase
import Dissection.Value

/-!
# The text of a value

A value is shown in two ways.  Its *literal* is an expression that makes it:
texts stand between marks, sequences and maps in brackets with their items shown
as literals.  Its *text* is the same, except that a text stands for itself and a
moment is shown as a date and a time.

Neither shows an integer that has too many digits, wherever it stands in the value.  Both are
defined for every value, so whoever shows a value asks first whether it can be shown.

## Main definitions

* `Value.literal` — a value as an expression.
* `Value.display` — the text of a value.
* `Value.isShown` — whether a value can be shown as an expression.
* `Value.hasText` — whether a value has a text.
-/

namespace Dissection

namespace Placeholder

/-- A modifier as a named member of its enumeration. -/
def modifierLiteral (m : Modifier) : Text :=
  "<FieldModifier." ++ m.label.upper ++ ": " ++ Text.quoted m.label ++ ">"

/-- The slot of a modifier as an expression. -/
def slotLiteral (m : Modifier) : Text := (m.slot?.map Numeral.ofNat).getD "None"

/-- A placeholder as an expression that makes it. -/
def literal (p : Placeholder) : Text :=
  "FieldSpec(name=" ++ Text.quoted p.name ++ ", modifier=" ++ modifierLiteral p.modifier ++
    ", order=" ++ slotLiteral p.modifier ++ ", raw=" ++ Text.quoted p.raw ++ ")"

/-- The map of a placeholder's parts as an expression. -/
def partsLiteral (p : Placeholder) : Text :=
  "\x7b'name': " ++ Text.quoted p.name ++ ", 'modifier': " ++ modifierLiteral p.modifier ++
    ", 'order': " ++ slotLiteral p.modifier ++ ", 'raw': " ++ Text.quoted p.raw ++ "\x7d"

end Placeholder

namespace Value

/-- Items with a comma and a blank between neighbours. -/
def commaSeparated (items : List Text) : Text := (", " : Text).intercalate items

mutual

/-- A value as an expression that makes it. -/
def literal : Value → Text
  | .null => "None"
  | .bool b => if b then "True" else "False"
  | .int n => Numeral.ofInt n
  | .float x => x.text
  | .text t => Text.quoted t
  | .bytes b => Text.quotedBytes b
  | .moment m => m.literal
  | .member v => "<Member.VALUE: " ++ literal v ++ ">"
  | .placeholder p => p.literal
  | .list items => '[' :: commaSeparated (literals items) ++ [']']
  | .tuple [item] => '(' :: literal item ++ [',', ')']
  | .tuple items => '(' :: commaSeparated (literals items) ++ [')']
  | .set [] => "set()"
  | .set items => '{' :: commaSeparated (literals items) ++ ['}']
  | .map entries => '{' :: commaSeparated (entryLiterals entries) ++ ['}']

/-- Items as expressions. -/
def literals : List Value → List Text
  | [] => []
  | v :: rest => literal v :: literals rest

/-- Entries as keys and values with a colon between them. -/
def entryLiterals : List (Value × Value) → List Text
  | [] => []
  | (k, v) :: rest => (literal k ++ [':', ' '] ++ literal v) :: entryLiterals rest

end

/-- The text of a value. -/
def display : Value → Text
  | .text t => t
  | .moment m => m.iso ' '
  | .member _ => "Member.VALUE"
  | v => v.literal

/-! ## Integers in a value -/

mutual

/-- Whether every integer in a value has few enough digits to be shown. -/
def isShown : Value → Bool
  | .int n => Numeral.isShown n.natAbs
  | .member v => isShown v
  | .placeholder p => p.modifier.slot?.all Numeral.isShown
  | .list items => areShown items
  | .tuple items => areShown items
  | .set items => areShown items
  | .map entries => entriesShown entries
  | _ => true

/-- Whether every integer in items can be shown. -/
def areShown : List Value → Bool
  | [] => true
  | v :: rest => isShown v && areShown rest

/-- Whether every integer in entries can be shown. -/
def entriesShown : List (Value × Value) → Bool
  | [] => true
  | (k, v) :: rest => isShown k && isShown v && entriesShown rest

end

/-- Whether a value has a text.  A member of an enumeration is named by it, whatever it stands
for. -/
def hasText : Value → Bool
  | .member _ => true
  | v => v.isShown

@[simp] theorem hasText_text (t : Text) : hasText (.text t) = true := rfl

end Value

end Dissection
