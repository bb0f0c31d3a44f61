import Dissection.Action
import Dissection.Number.Decimal
import Dissection.Value.Identity
import Dissection.Value.Plain

/-!
# Converting fields

A table of datatypes says which fields are to become integers or binary64 numbers.
The fields are converted one by one in the table's order, whatever became of the
ones before.  A field that cannot be converted stays as it is; a log line and a
tag say why.  Any value may stand for a datatype, but only two texts are supported.

## Main definitions

* `Value.rendered` — a value as it is shown in a log line.
* `Value.within` — a text in which a value is shown.
* `Conversion.toInt`, `Conversion.toFloat` — the conversions of a value.
* `Conversion.Failure` — a field that was not converted, with its tag and messages.
* `Conversion.convert` — converts the fields of a record.
-/

namespace Dissection

/-- A value as it is shown in a log line: a text as it stands, and anything else as
plain JSON. -/
def Value.rendered : Value → Except Json.Unwritable Text
  | .text t => .ok t
  | v => if v.hasPlainKeys then Json.write Json.strict v.plain else .error .tooLong

/-- A text in which a value is shown, if the value has a text. -/
def Value.within (v : Value) (text : Text) : Except Json.Unwritable Text :=
  if v.hasText then .ok text else .error .tooLong

@[simp] theorem Value.within_text (t text : Text) : Value.within (.text t) text = .ok text := rfl

namespace Conversion

/-! ## Converting a value -/

/-- Why a value is not converted. -/
inductive Obstacle where
  /-- The value has no counterpart in the datatype. -/
  | uncoercible (v : Value)
  /-- The integer is beyond the range of binary64. -/
  | beyondRange

/-- What is said of an obstacle. -/
def Obstacle.message : Obstacle → Text
  | .uncoercible v => v.display
  | .beyondRange => Fault.message .beyondRange

/-- An integer from an integer, from a binary64 number that equals one, or from a
numeral.  A truth value is no integer. -/
def toInt : Value → Except Obstacle Int
  | .int n => .ok n
  | .float x => match x.toInt? with
    | some n => .ok n
    | none => .error (.uncoercible (.float x))
  | .text t => match Numeral.read? t with
    | some n => .ok n
    | none => .error (.uncoercible (.text t))
  | v => .error (.uncoercible v)

/-- A rounded number, which is infinite where the format ends. -/
def rounded : Binary64 → Except Obstacle Binary64
  | .infinite _ => .error .beyondRange
  | x => .ok x

/-- A binary64 number from a number or from a decimal.  A truth value is no number. -/
def toFloat : Value → Except Obstacle Binary64
  | .int n => rounded (Binary64.ofInt n)
  | .float x => .ok x
  | .text t => match Binary64.read? t with
    | some x => .ok x
    | none => .error (.uncoercible (.text t))
  | v => .error (.uncoercible v)

/-- The datatypes that a field can be converted to. -/
inductive Datatype where
  | int
  | float
  deriving DecidableEq, Repr

/-- The datatype of a name. -/
def Datatype.ofName? (name : Text) : Option Datatype :=
  if name = "int" then some .int else if name = "float" then some .float else none

/-- The datatype that a value names, if it names one.  It is looked up like a key, except
that a set is none. -/
def Datatype.ofValue : Value → Except Value.Misfit (Option Datatype)
  | .text name => .ok (ofName? name)
  | .set _ => .ok none
  | v => v.key.map fun _ => none

/-- A value of a datatype from any value. -/
def coerce (datatype : Datatype) (v : Value) : Except Obstacle Value :=
  match datatype with
  | .int => (toInt v).map .int
  | .float => (toFloat v).map .float

/-! ## Failures -/

/-- Why a field was not converted. -/
inductive Cause where
  | unsupportedType
  | nullValue
  | uncoercible (v : Value)
  deriving DecidableEq, Repr

/-- A field that was not converted. -/
structure Failure where
  field : Value
  datatype : Value
  cause : Cause
  deriving DecidableEq, Repr

namespace Failure

/-- The value that stood in the way. -/
def value (f : Failure) : Value :=
  match f.cause with
  | .uncoercible v => v
  | _ => .null

/-- The front part of a failure's tag. -/
def tagStem (f : Failure) : Text :=
  match f.cause with
  | .unsupportedType => "_dataconversionmissing"
  | .nullValue => "_dataconversionnullvalue"
  | .uncoercible _ => "_dataconversionuncoercible"

/-- The tag of a failure. -/
def tag (f : Failure) : Text :=
  f.tagStem ++ '_' :: f.field.display ++ '_' :: f.datatype.display

/-- Whether what a failure names has a text. -/
def isNamed (f : Failure) : Bool := f.field.hasText && f.datatype.hasText

/-- The tag of a failure, if what it names has a text. -/
def tag? (f : Failure) : Except Value.Misfit Text :=
  if f.isNamed then .ok f.tag else .error .notShown

/-- What is said of a value that cannot be converted. -/
def valueMessage (field : Value) (shown : Text) : Text :=
  "Dissector datatype conversion, value cannot be coerced, key: " ++ field.display ++
    ", value: " ++ shown

/-- What is said of a datatype that is not supported. -/
def unsupportedMessage (datatype : Value) : Text :=
  "Dissector datatype conversion, datatype not supported: " ++ datatype.display

/-- What is said of a failure when it occurs. -/
def warning (f : Failure) : Except Json.Unwritable Text :=
  match f.cause with
  | .unsupportedType => f.datatype.within (unsupportedMessage f.datatype)
  | .nullValue => f.field.within (valueMessage f.field "null")
  | .uncoercible v => v.rendered.bind fun shown => f.field.within (valueMessage f.field shown)

/-- What a failure says of itself. -/
def message (f : Failure) : Except Json.Unwritable Text :=
  match f.cause with
  | .unsupportedType => f.datatype.within (unsupportedMessage f.datatype)
  | .nullValue | .uncoercible _ =>
    f.value.rendered.bind fun shown => f.field.within (valueMessage f.field shown)

/-- A failure as it is seen later.  The list of tags is shown as it has become. -/
def seenWith (tags : Option (List Value)) (f : Failure) : Failure :=
  match f.cause, tags with
  | .uncoercible (.list _), some tags =>
    if f.field.text? = some Record.tagsField then { f with cause := .uncoercible (.list tags) }
    else f
  | _, _ => f

end Failure

/-! ## Converting a record -/

/-- What becomes of a field's value: the converted value, the cause for leaving it, or
a fault. -/
def judge (datatype v : Value) : Except Fault (Value ⊕ Cause) :=
  match Datatype.ofValue datatype, v with
  | .error m, _ => .error (.misfit m)
  | .ok none, _ => .ok (.inr .unsupportedType)
  | .ok (some _), .null => .ok (.inr .nullValue)
  | .ok (some target), v =>
    match coerce target v with
    | .ok converted => .ok (.inl converted)
    | .error (.uncoercible v) => .ok (.inr (.uncoercible v))
    | .error .beyondRange => .error .beyondRange

/-- Reports a failure: a log line, and a tag on the record. -/
def report (f : Failure) : Action Unit :=
  match f.warning with
  | .error u => .stop (.unwritable u)
  | .ok warning => do
    Action.log [.warning warning]
    let tag ← Action.use f.tag?
    Action.appendTag (.text tag)

/-- Converts a field, or reports why not. -/
def convertField (field datatype : Value) : Action (Option Failure) := do
  let record ← Action.get
  match judge datatype (Record.value record field) with
  | .error fault => .stop fault
  | .ok (.inl converted) =>
    Action.set field converted
    return none
  | .ok (.inr cause) =>
    let failure : Failure := ⟨field, datatype, cause⟩
    report failure
    return some failure

/-- Converts fields one after another. -/
def convertAll : List (Value × Value) → Action (List Failure)
  | [] => return []
  | (field, datatype) :: rest => do
    let failure ← convertField field datatype
    let failures ← convertAll rest
    return failure.toList ++ failures

/-- The datatypes of fields from a value, which need not count as something. -/
def datatypes (v : Value) : Except Value.Misfit (Table Value Value) :=
  if v.counts then v.table else .ok {}

/-- Converts the fields of a table of datatypes. -/
def convert (datatypes : Table Value Value) : Action (List Failure) := do
  let failures ← convertAll datatypes.entries
  let record ← Action.get
  return failures.map (.seenWith (Record.tagList? record))

end Conversion

end Dissection
