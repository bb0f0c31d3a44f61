import Dissection.Value.Display
import Dissection.Value.Shape

/-!
# Error reports

A fault in a pattern or a configuration is reported with a code, a message for whoever
looks into it, a message for users, and the context it arose in.

## Main definitions

* `Report` — a report of an error.
* `Report.ofField`, `Report.ofConfiguration` — reports with the usual settings.
* `Report.formatted` — a report as it is shown to users.
-/

namespace Dissection

namespace Report

/-- What a report is about. -/
inductive Kind where
  | general
  | field
  | configuration
  deriving DecidableEq, Repr

/-- What kind of fault is reported. -/
inductive Code where
  | invalidField
  | unterminatedPlaceholder
  | invalidOrder
  | invalidConfig
  | missingConfig
  | configValidation
  deriving DecidableEq, Repr

/-- Every code. -/
def Code.all : List Code :=
  [.invalidField, .unterminatedPlaceholder, .invalidOrder, .invalidConfig, .missingConfig,
    .configValidation]

/-- The number of a code. -/
def Code.number : Code → Nat
  | .invalidField => 1001
  | .unterminatedPlaceholder => 1002
  | .invalidOrder => 1003
  | .invalidConfig => 2001
  | .missingConfig => 2002
  | .configValidation => 2003

/-- How grave a fault is. -/
inductive Severity where
  | low
  | medium
  | high
  | critical
  deriving DecidableEq, Repr

/-- Every severity, from the least to the greatest. -/
def Severity.all : List Severity := [.low, .medium, .high, .critical]

/-- The word for a severity. -/
def Severity.label : Severity → Text
  | .low => "low"
  | .medium => "medium"
  | .high => "high"
  | .critical => "critical"

/-- What a fault arose in. -/
structure Context where
  operation : Option Text := none
  pattern : Option Text := none
  /-- The name of the field that the fault is about, null for none. -/
  sourceField : Value := .null
  details : Value := .map []

end Report

open Report in
/-- A report of an error. -/
structure Report where
  kind : Kind
  code : Code
  message : Text
  userMessage : Text
  severity : Severity
  context : Context := {}
  /-- What the error behind this one says. -/
  cause : Option Text := none

namespace Report

/-- What users are told unless there is something better; an empty message is not. -/
def userMessageOr (given : Option Text) (usual : Text) : Text :=
  match given with
  | none | some [] => usual
  | some message => message

/-- A report of a placeholder that cannot be compiled. -/
def ofField (code : Code) (message : Text) (userMessage : Option Text) (context : Context)
    (cause : Option Text) : Report :=
  { kind := .field, code, message, context, cause, severity := .high
    userMessage := userMessageOr userMessage "Invalid field format in dissect pattern." }

/-- A report of a configuration that cannot be used. -/
def ofConfiguration (code : Code) (message : Text) (userMessage : Option Text)
    (context : Context) (cause : Option Text) : Report :=
  { kind := .configuration, code, message, context, cause, severity := .high
    userMessage := userMessageOr userMessage "Configuration error occurred." }

/-- A line of a shown report, unless it has nothing to say. -/
def contextLine (label : Text) : Option Text → List Text
  | none | some [] => []
  | some text => ["   " ++ label ++ ": " ++ text]

/-- The text of a value that counts as something.  The context of a report holds values that can
be shown. -/
def shown? (v : Value) : Option Text := if v.counts then some v.display else none

/-- A report as it is shown to users. -/
def formatted (r : Report) : Text :=
  ['\n'].intercalate <|
    ["[Error] " ++ r.userMessage,
      "   Code: " ++ Numeral.ofNat r.code.number,
      "   Detail: " ++ r.message] ++
    contextLine "Operation" r.context.operation ++
    contextLine "Source field" (shown? r.context.sourceField) ++
    contextLine "Pattern" r.context.pattern

end Report

end Dissection
