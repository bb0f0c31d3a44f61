import Dissection.Number.Shortest
import Dissection.Text.Quoted
import Dissection.Value

/-!
# Writing JSON

A value is written on one line, with a blank after every comma and colon.  Texts
keep all their characters; only quotation marks, backslashes and the control
characters below U+0020 are escaped, so what is written holds no line break.

Only the kinds that JSON knows have a notation of their own: tuples are written
as arrays, and the infinities and NaN by their names, which JSON itself lacks.
For every other kind the caller says what text stands for it, or that none does.

## Main definitions

* `Json.quoted` — a text as a JSON string.
* `Json.write` — a value as JSON.
* `Json.Unwritable` — why a value cannot be written.
-/

namespace Dissection.Json

/-! ## Strings and numbers -/

/-- A character inside a string. -/
def character (c : Char) : Text :=
  if c = '\x22' then ['\\', '\x22']
  else if c = '\\' then ['\\', '\\']
  else if c = '\n' then ['\\', 'n']
  else if c = '\r' then ['\\', 'r']
  else if c = '\t' then ['\\', 't']
  else if c = '\x08' then ['\\', 'b']
  else if c = '\x0c' then ['\\', 'f']
  else if c.toNat < 0x20 then '\\' :: 'u' :: Text.Quoted.hex 4 c.toNat
  else [c]

/-- A text as a string. -/
def quoted (text : Text) : Text := '\x22' :: text.flatMap character ++ ['\x22']

/-- A number, or the name of what is none. -/
def number (x : Binary64) : Text :=
  match x with
  | .finite .. => x.text
  | .infinite negative => if negative then "-Infinity" else "Infinity"
  | .nan => "NaN"

/-- A truth value. -/
def truth (b : Bool) : Text := if b then "true" else "false"

/-! ## Values -/

/-- Why a value cannot be written. -/
inductive Unwritable where
  /-- A value of this kind has no notation. -/
  | value (kind : Text)
  /-- A value of this kind is no key. -/
  | key (kind : Text)
  /-- An integer has too many digits. -/
  | tooLong
  deriving DecidableEq, Repr

/-- What is said of a value that cannot be written. -/
def Unwritable.message : Unwritable → Text
  | .value kind => "Object of type " ++ kind ++ " is not JSON serializable"
  | .key kind => "keys must be str, int, float, bool or None, not " ++ kind
  | .tooLong => Numeral.notShown

/-- What stands for a value of a kind that JSON has no notation for. -/
abbrev Fallback := Value → Except Unwritable Text

/-- No text stands for such a value. -/
def strict : Fallback := fun v => .error (.value v.kind)

/-- An integer, if it can be shown. -/
def integer (n : Int) : Except Unwritable Text :=
  if Numeral.isShown n.natAbs then .ok (Numeral.ofInt n) else .error .tooLong

/-- The text of a key. -/
def key : Value → Except Unwritable Text
  | .text t => .ok t
  | .null => .ok "null"
  | .bool b => .ok (truth b)
  | .int n => integer n
  | .float x => .ok (number x)
  | v => .error (.key v.fullKind)

/-- Items with a comma and a blank between neighbours. -/
def commaSeparated (items : List Text) : Text := (", " : Text).intercalate items

mutual

/-- A value as JSON. -/
def write (fallback : Fallback) : Value → Except Unwritable Text
  | .null => .ok "null"
  | .bool b => .ok (truth b)
  | .int n => integer n
  | .float x => .ok (number x)
  | .text t => .ok (quoted t)
  | .list items => (writeItems fallback items).map fun texts =>
      '[' :: commaSeparated texts ++ [']']
  | .tuple items => (writeItems fallback items).map fun texts =>
      '[' :: commaSeparated texts ++ [']']
  | .map entries => (writeEntries fallback entries).map fun texts =>
      '{' :: commaSeparated texts ++ ['}']
  | v => (fallback v).map quoted

/-- Items as JSON. -/
def writeItems (fallback : Fallback) : List Value → Except Unwritable (List Text)
  | [] => .ok []
  | v :: rest => do
    let text ← write fallback v
    let texts ← writeItems fallback rest
    return text :: texts

/-- Entries as JSON. -/
def writeEntries (fallback : Fallback) : List (Value × Value) → Except Unwritable (List Text)
  | [] => .ok []
  | (k, v) :: rest => do
    let name ← key k
    let text ← write fallback v
    let texts ← writeEntries fallback rest
    return (quoted name ++ ':' :: ' ' :: text) :: texts

end

end Dissection.Json
