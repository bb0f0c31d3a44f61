import Dissection.Pieces
import Dissection.Table

/-!
# What a line yields

While a line is dissected its captures are gathered into fields.  A field holds
a text or is put together from pieces.  The name of an indirect field and its
value are captured apart and meet under a tag: a value whose name is not known
yet waits for it, and the last value that waits is the one that is kept.

## Main definitions

* `Extraction` — the fields, the known names and the waiting values.
* `Extraction.set`, `Extraction.append`, `Extraction.setKey`,
  `Extraction.setValue` — what a capture does.
* `Extraction.finalize` — the fields with their final texts.
-/

namespace Dissection

/-- What is held under a field's name. -/
inductive Capture where
  | whole (text : Text)
  | parts (pieces : List Piece)
  deriving DecidableEq, Repr

namespace Capture

/-- The text of a field. -/
def render : Capture → Text
  | .whole text => text
  | .parts pieces => Pieces.render pieces

/-- The pieces of a field; a text that is already there is a piece without a
slot. -/
def toPieces : Capture → List Piece
  | .whole text => [⟨none, text⟩]
  | .parts pieces => pieces

end Capture

/-- What has been gathered from a line. -/
structure Extraction where
  fields : Table Text Capture := {}
  /-- The names captured under each tag. -/
  keys : Table Text Text := {}
  /-- The values that wait for the name under their tag. -/
  pending : Table Text Text := {}
  deriving DecidableEq, Repr

namespace Extraction

/-- Nothing gathered. -/
def empty : Extraction := {}

/-- Writes a field.  The last write wins. -/
def set (e : Extraction) (name value : Text) : Extraction :=
  { e with fields := e.fields.put name (.whole value) }

/-- Adds a piece to a field. -/
def append (e : Extraction) (name value : Text) (slot : Option Int) : Extraction :=
  let before := ((e.fields.get? name).map Capture.toPieces).getD []
  { e with fields := e.fields.put name (.parts (before ++ [⟨slot, value⟩])) }

/-- Learns the name under a tag, and writes the value that waits for it. -/
def setKey (e : Extraction) (tag key : Text) : Extraction :=
  let e := { e with keys := e.keys.put tag key }
  match e.pending.get? tag with
  | none => e
  | some value => { e with pending := e.pending.erase tag }.set key value

/-- Writes a value to the field named under a tag, or lets it wait. -/
def setValue (e : Extraction) (tag value : Text) : Extraction :=
  match e.keys.get? tag with
  | none => { e with pending := e.pending.put tag value }
  | some key => e.set key value

/-- The values whose name was never captured. -/
def unpaired (e : Extraction) : Table Text Text := e.pending

/-- The fields with their final texts. -/
def finalize (e : Extraction) : Table Text Text := e.fields.map Capture.render

/-- Whether a field is present. -/
def contains (e : Extraction) (name : Text) : Bool := e.fields.contains name

/-- The number of fields. -/
def size (e : Extraction) : Nat := e.fields.size

end Extraction

end Dissection
