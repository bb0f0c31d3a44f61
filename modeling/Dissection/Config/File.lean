import Dissection.Config
import Dissection.Json.Reader
import Dissection.Text.Lines

/-!
# Configuration files

A configuration is kept in a file as JSON in UTF-8.  Lines may end as they do on any
system, and columns and characters are counted after the ends are unified.

## Main definitions

* `File` — what is found at a path.
* `Config.load` — the configuration in a file.
* `Config.LoadError` — why a file holds none.
* `Config.holdsHalf` — whether a file holds more than texts can.
-/

namespace Dissection

/-- What is found at a path. -/
inductive File where
  | missing
  | directory
  | content (bytes : List UInt8)
  deriving DecidableEq, Repr

namespace Config

/-- Why a file holds no configuration. -/
inductive LoadError where
  | missing
  | unreadable
  | undecodable (e : Utf8.Error)
  | notJson (e : Json.SyntaxError)
  | numeralTooLong (digits : Nat)
  | invalid (e : Config.Error)
  deriving DecidableEq, Repr

/-- What the system says of a path that leads nowhere. -/
def missingCause (path : Text) : Text :=
  "[Errno 2] No such file or directory: " ++ Text.quoted path

/-- What the system says of a directory that is read like a file. -/
def directoryCause (path : Text) : Text := "[Errno 21] Is a directory: " ++ Text.quoted path

/-- What is said of an error. -/
def LoadError.message (path : Text) : LoadError → Text
  | .missing => "Configuration file not found: " ++ path
  | .unreadable => directoryCause path
  | .undecodable e => e.message
  | .notJson e => "Configuration file is not valid JSON: " ++ path ++ ": " ++ e.message
  | .numeralTooLong digits => Numeral.tooLong digits
  | .invalid e => e.message

/-- The report of an error.  A file that is no text, and an integer that is too long, are
not reported. -/
def LoadError.report? (path : Text) (e : LoadError) : Option Report :=
  match e with
  | .missing =>
    some (.ofConfiguration .missingConfig (e.message path) none {} (some (missingCause path)))
  | .notJson cause =>
    some (.ofConfiguration .invalidConfig (e.message path) none {} (some cause.message))
  | .invalid e => e.report?
  | .unreadable | .undecodable _ | .numeralTooLong _ => none

/-- The configuration in a file. -/
def load (file : File) : Except LoadError Config :=
  match file with
  | .missing => .error .missing
  | .directory => .error .unreadable
  | .content bytes =>
    match Utf8.decode bytes with
    | .error e => .error (.undecodable e)
    | .ok text =>
      match Json.read (Lines.unify text) with
      | .error (.syntactic e) => .error (.notJson e)
      | .error (.numeralTooLong digits) => .error (.numeralTooLong digits)
      | .ok v =>
        match ofValue v with
        | .error e => .error (.invalid e)
        | .ok config => .ok config

/-- Whether what is in a file escapes a half of a surrogate pair without the other.  What is
loaded from such a file is more than a configuration here can hold. -/
def holdsHalf : File → Bool
  | .content bytes => (Utf8.decode bytes).toOption.any Json.holdsHalf
  | _ => false

end Config

end Dissection
