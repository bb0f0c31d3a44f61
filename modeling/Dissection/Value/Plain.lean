import Dissection.Value.Display

/-!
# Plain values

A value is made plain by turning everything that JSON has no notation for into
something it has one for: an infinity or NaN into null, a moment into its ISO
text, a member of an enumeration into the value it stands for, a placeholder into
the map of its parts, tuples and sets into lists, and anything else into its text.
Keys become texts: each is replaced by the text of its plain form.  A key in which an
integer has too many digits to be shown has none.

## Main definitions

* `Value.plain` — a value made plain.
* `Value.hasPlainKeys` — whether every key of a value has a plain form.
* `Value.plain?` — a value made plain, if its keys have plain forms.
-/

namespace Dissection.Value

/-- The parts of a placeholder as a map. -/
def ofPlaceholder (p : Placeholder) : Value :=
  .map [
    (.text "name", .text p.name),
    (.text "modifier", .text p.modifier.label),
    (.text "order", (p.modifier.slot?.map fun slot => .int (slot : Int)).getD .null),
    (.text "raw", .text p.raw)]

/-! ## Keys -/

mutual

/-- The plain form of a key as an expression.  The modifier of a placeholder is shown as
a member of its enumeration. -/
def plainLiteral : Value → Text
  | .float x => if x.isFinite then x.text else "None"
  | .bytes b => Text.quoted (Text.quotedBytes b)
  | .moment m => Text.quoted (m.iso 'T')
  | .member v => v.literal
  | .placeholder p => p.partsLiteral
  | .list items | .tuple items | .set items => '[' :: commaSeparated (plainLiterals items) ++ [']']
  | v => v.literal

/-- The plain forms of items of a key as expressions. -/
def plainLiterals : List Value → List Text
  | [] => []
  | v :: rest => plainLiteral v :: plainLiterals rest

end

/-- The text of the plain form of a key. -/
def plainKey : Value → Text
  | .text t => t
  | .bytes b => Text.quotedBytes b
  | .moment m => m.iso 'T'
  | .member v => v.display
  | v => v.plainLiteral

/-- Whether a key has a plain form.  A member of an enumeration is shown by the value it
stands for, unless that is a member itself. -/
def isPlainKey : Value → Bool
  | .member (.member _) => true
  | .member v => v.isShown
  | v => v.isShown

/-! ## Values -/

mutual

/-- A value made plain. -/
def plain : Value → Value
  | .null => .null
  | .bool b => .bool b
  | .int n => .int n
  | .float x => if x.isFinite then .float x else .null
  | .text t => .text t
  | .bytes b => .text (Text.quotedBytes b)
  | .moment m => .text (m.iso 'T')
  | .member v => v
  | .placeholder p => ofPlaceholder p
  | .list items => .list (plainItems items)
  | .tuple items => .list (plainItems items)
  | .set items => .list (plainItems items)
  | .map entries => ofEntries (plainEntries entries)

/-- Items made plain. -/
def plainItems : List Value → List Value
  | [] => []
  | v :: rest => plain v :: plainItems rest

/-- Entries made plain. -/
def plainEntries : List (Value × Value) → List (Value × Value)
  | [] => []
  | (k, v) :: rest => (.text k.plainKey, plain v) :: plainEntries rest

end

mutual

/-- Whether every key of a value has a plain form. -/
def hasPlainKeys : Value → Bool
  | .list items => havePlainKeys items
  | .tuple items => havePlainKeys items
  | .set items => havePlainKeys items
  | .map entries => entriesHavePlainKeys entries
  | _ => true

/-- Whether every key of items has a plain form. -/
def havePlainKeys : List Value → Bool
  | [] => true
  | v :: rest => hasPlainKeys v && havePlainKeys rest

/-- Whether every key of entries, and of their values, has a plain form. -/
def entriesHavePlainKeys : List (Value × Value) → Bool
  | [] => true
  | (k, v) :: rest => isPlainKey k && hasPlainKeys v && entriesHavePlainKeys rest

end

/-- A value made plain, if its keys have plain forms. -/
def plain? (v : Value) : Option Value := if v.hasPlainKeys then some v.plain else none

end Dissection.Value
