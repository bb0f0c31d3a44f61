import Dissection.Pattern
import Dissection.Record

/-!
# Templates

A template is a text with references to fields, written like the placeholders of a
pattern.  A reference is replaced by the text of the field's value; where the field
is absent or null the reference stays as it is written, and where its value has no text the
template cannot be filled in.  What is put in is not searched for references again, and a
reference without an end is plain text.

## Main definitions

* `Template.substitute` — the text that stands for a reference.
* `Template.interpolate` — a template with its references replaced.
-/

namespace Dissection.Template

open Text Pattern

/-- The text that stands for the reference to a field. -/
def substitute (r : Record) (name : Text) : Except Value.Misfit Text :=
  match r.get? (.text name) with
  | none | some .null => .ok (opening ++ name ++ closing)
  | some v => v.shown

/-- A template with its references replaced. -/
def interpolate (r : Record) (template : Text) : Except Value.Misfit Text :=
  match _ho : cut? opening template with
  | none => .ok template
  | some (before, rest) =>
    match _hc : cut? closing rest with
    | none => .ok template
    | some (name, after) => do
      let substituted ← substitute r name
      let filled ← interpolate r after
      return before ++ substituted ++ filled
termination_by template.length
decreasing_by
  have := length_of_cut? _ho
  have := length_of_cut? _hc
  simp [opening, closing] at *
  omega

end Dissection.Template
