import Dissection.Value.Display
import Dissection.Value.Shape

/-!
# Records

A record is a table of values under the names of fields.  A name is usually a text, but
any value that can be a key may be one.  The tags of a record are a list under one of
its fields; they are kept in the order in which they were appended, and none is dropped.

## Main definitions

* `Record` — fields with their values.
* `Record.appendTag` — a record with one more tag.
* `Record.toValue` — a record as a map.
-/

namespace Dissection

/-- Fields with their values, in the order in which the fields were first written. -/
abbrev Record := Table Value Value

namespace Record

/-- The field that holds the tags. -/
def tagsField : Text := "tags"

/-- The value of a field, null where there is none. -/
def value (r : Record) (name : Value) : Value := (r.get? name).getD .null

/-- The tags, if they are a list. -/
def tagList? (r : Record) : Option (List Value) :=
  match r.get? (.text tagsField) with
  | some (.list tags) => some tags
  | _ => none

/-- A record with one more tag, at the end of its tags or in a field of its own.  To
anything but a list no tag can be appended. -/
def appendTag (r : Record) (tag : Value) : Except Value.Misfit Record :=
  match r.get? (.text tagsField) with
  | none => .ok (r.put (.text tagsField) (.list [tag]))
  | some (.list tags) => .ok (r.put (.text tagsField) (.list (tags ++ [tag])))
  | some v => .error (.lacks v.fullKind .append)

/-- A record as a map. -/
def toValue (r : Record) : Value := .map r.entries

end Record

end Dissection
