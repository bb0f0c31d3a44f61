import Dissection.Config
import Dissection.Value.Identity
import Dissection.Value.Shape

/-!
# Settings

A filter holds its settings as they were given, and any of them may be replaced while
the filter is in use.  So any value may stand in the place of any setting; whether it
can be used is found out when it is used.

## Main definitions

* `Settings` — a value for every setting.
* `Config.settings` — the settings of a configuration.
* `Settings.ofArguments` — settings from arguments by name.
* `Settings.toValue` — settings as a map, with copies of the values.
-/

namespace Dissection

/-- A value for every setting. -/
structure Settings where
  mapping : Value
  conversions : Value
  failureTags : Value
  addedFields : Value
  addedTags : Value
  deriving DecidableEq, Repr, Inhabited

/-- The settings of a configuration. -/
def Config.settings (c : Config) : Settings where
  mapping := tableValue c.mapping
  conversions := tableValue c.conversions
  failureTags := textsValue c.failureTags
  addedFields := tableValue c.addedFields
  addedTags := textsValue c.addedTags

namespace Settings

/-! ## Replacing settings -/

/-- Settings with another value for one of them. -/
def set (s : Settings) (key : Config.Key) (v : Value) : Settings :=
  match key with
  | .mapping => { s with mapping := v }
  | .conversions => { s with conversions := v }
  | .failureTags => { s with failureTags := v }
  | .addedFields => { s with addedFields := v }
  | .addedTags => { s with addedTags := v }

/-- Settings with another value under a name; a name that no setting has changes
nothing. -/
def assign (s : Settings) (name : Text) (v : Value) : Settings :=
  match Config.Key.ofLabel? name with
  | some key => s.set key v
  | none => s

/-! ## Arguments -/

/-- Why arguments are no settings. -/
inductive ArgumentError where
  /-- A name is not a text. -/
  | nameNotText
  /-- No setting has this name. -/
  | unknown (name : Text)
  deriving DecidableEq, Repr

/-- What is said of an error. -/
def ArgumentError.message : ArgumentError → Text
  | .nameNotText => "keywords must be strings"
  | .unknown name => "DissectConfig.__init__() got an unexpected keyword argument '" ++ name ++ "'"

/-- Settings with arguments put into them, one after another. -/
def withArguments (s : Settings) : List (Value × Value) → Except ArgumentError Settings
  | [] => .ok s
  | (.text name, v) :: rest =>
    match Config.Key.ofLabel? name with
    | some key => withArguments (s.set key v) rest
    | none => .error (.unknown name)
  | _ :: _ => .error .nameNotText

/-- Settings from arguments by name, those left out having their usual values.  That all
names are texts is seen before any of them is looked up. -/
def ofArguments (arguments : List (Value × Value)) : Except ArgumentError Settings :=
  if arguments.all (·.1.text?.isSome) then withArguments (Config.settings {}) arguments
  else .error .nameNotText

/-! ## Writing -/

/-- Settings as a map.  Each is copied, as a map or as a list, and the first that cannot
be is reported. -/
def toValue (s : Settings) : Except Value.Misfit Value := do
  let mapping ← s.mapping.table
  let conversions ← s.conversions.table
  let failureTags ← s.failureTags.items
  let addedFields ← s.addedFields.table
  let addedTags ← s.addedTags.items
  return .map [
    (.text Config.Key.mapping.label, .map mapping.entries),
    (.text Config.Key.conversions.label, .map conversions.entries),
    (.text Config.Key.failureTags.label, .list failureTags),
    (.text Config.Key.addedFields.label, .map addedFields.entries),
    (.text Config.Key.addedTags.label, .list addedTags)]

end Settings

end Dissection
