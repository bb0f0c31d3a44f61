import Dissection.Report
import Dissection.Value.Order

/-!
# Configurations

A configuration has five settings: a pattern for every source field, the datatypes of
fields, the tags of a record that a pattern does not fit, and the fields and tags
that are added to a record that all patterns fit.

It is read from a map with a key for each setting.  A setting that is left out has its
usual value, and a single tag may stand for a list of one.  Keys that no setting has are
reported before settings of the wrong shape, and those in a fixed order.

## Main definitions

* `Config` — the settings.
* `Config.ofValue`, `Config.toValue` — a configuration from a value, and back.
* `Config.Error` — why a value is no configuration.
-/

namespace Dissection

/-- The settings of a filter. -/
structure Config where
  /-- The pattern of every source field. -/
  mapping : Table Text Text := {}
  /-- The datatype of every field that is converted. -/
  conversions : Table Text Text := {}
  /-- The tags of a record that a pattern does not fit. -/
  failureTags : List Text := ["_dissectfailure"]
  /-- The fields that are added on success, as templates. -/
  addedFields : Table Text Text := {}
  /-- The tags that are added on success, as templates. -/
  addedTags : List Text := []
  deriving DecidableEq, Repr, Inhabited

namespace Config

/-! ## Keys -/

/-- A setting of a configuration. -/
inductive Key where
  | mapping
  | conversions
  | failureTags
  | addedFields
  | addedTags
  deriving DecidableEq, Repr

/-- Every setting. -/
def Key.all : List Key := [.mapping, .conversions, .failureTags, .addedFields, .addedTags]

/-- The key of a setting. -/
def Key.label : Key → Text
  | .mapping => "mapping"
  | .conversions => "convert_datatype"
  | .failureTags => "tag_on_failure"
  | .addedFields => "add_field"
  | .addedTags => "add_tag"

/-- The setting that a key belongs to. -/
def Key.ofLabel? (label : Text) : Option Key := Key.all.find? (·.label = label)

/-! ## Errors -/

/-- Why a value is no configuration. -/
inductive Error where
  /-- The value is of this kind and not a map. -/
  | notAMap (kind : Text)
  /-- These keys belong to no setting. -/
  | unknownKeys (keys : List Text)
  /-- A key that belongs to no setting is of this kind and not a text. -/
  | keyNotText (kind : Text)
  /-- Keys that belong to no setting have no order. -/
  | keysNotOrdered (c : Value.Clash)
  /-- The setting is not a map. -/
  | notATable (key : Key)
  /-- The setting has an entry that is not a text under a text; its key is shown as a
  literal. -/
  | badEntry (key : Key) (entry : Text)
  /-- The setting has such an entry, and its key cannot be shown. -/
  | unshownEntry (key : Key)
  /-- The setting is not a list of texts. -/
  | notTexts (key : Key)
  deriving DecidableEq, Repr

/-- Names with a comma and a blank between neighbours. -/
def listed (names : List Text) : Text := (", " : Text).intercalate names

/-- What is said of an error. -/
def Error.message : Error → Text
  | .notAMap kind => "Dissect configuration must be an object, got " ++ kind
  | .unknownKeys keys => "Unknown dissect configuration keys: " ++ listed keys
  | .keyNotText kind => "sequence item 0: expected str instance, " ++ kind ++ " found"
  | .keysNotOrdered c => c.message
  | .notATable key => key.label ++ " must be a mapping of strings to strings"
  | .badEntry key entry =>
    key.label ++ " must be a mapping of strings to strings, bad entry: " ++ entry
  | .unshownEntry _ => Numeral.notShown
  | .notTexts key => key.label ++ " must be a list of strings"

/-- The context of an error about a setting. -/
def keyContext (key : Key) : Report.Context :=
  { operation := some "from_dict", details := .map [(.text "key", .text key.label)] }

/-- The context of an error. -/
def Error.context : Error → Report.Context
  | .unknownKeys keys =>
    { operation := some "from_dict"
      details := .map [(.text "keys", .list (keys.map .text))] }
  | .notATable key | .badEntry key _ | .notTexts key => keyContext key
  | .notAMap _ | .keyNotText _ | .keysNotOrdered _ | .unshownEntry _ => {}

/-- The report of an error.  Keys of settings that are no texts are not reported, nor is an entry
that would be shown with too long an integer. -/
def Error.report? (e : Error) : Option Report :=
  match e with
  | .keyNotText _ | .keysNotOrdered _ | .unshownEntry _ => none
  | _ => some (.ofConfiguration .configValidation e.message none e.context none)

/-! ## Reading -/

/-- A table of texts from a map. -/
def entriesOf (key : Key) : List (Value × Value) → Except Error (List (Text × Text))
  | [] => .ok []
  | (.text name, .text text) :: rest => (entriesOf key rest).map ((name, text) :: ·)
  | (name, _) :: _ =>
    .error (if name.isShown then .badEntry key name.literal else .unshownEntry key)

/-- A table of texts from the value of a setting. -/
def tableOf (key : Key) : Value → Except Error (Table Text Text)
  | .map entries => (entriesOf key entries).map Table.ofList
  | _ => .error (.notATable key)

/-- Texts from a list of values. -/
def textsOf (items : List Value) : Option (List Text) := items.mapM Value.text?

/-- Tags from the value of a setting. -/
def tagsOf (key : Key) : Value → Except Error (List Text)
  | .text tag => .ok [tag]
  | .list items =>
    match textsOf items with
    | some tags => .ok tags
    | none => .error (.notTexts key)
  | _ => .error (.notTexts key)

/-- Whether a key belongs to a setting. -/
def isKnown : Value → Bool
  | .text name => (Key.ofLabel? name).isSome
  | _ => false

/-- The error that keys belonging to no setting are.  They are reported in their order,
and of keys that are not all texts only the least one is. -/
def unknownError (keys : List Value) : Error :=
  match textsOf keys with
  | some names => .unknownKeys (names.mergeSort fun a b => ¬ b < a)
  | none =>
    match Value.sorted? keys with
    | .ok sorted => .keyNotText ((sorted.head?.map Value.fullKind).getD [])
    | .error c => .keysNotOrdered c

/-- The value of a setting in a map. -/
def setting? (entries : List (Value × Value)) (key : Key) : Option Value :=
  (entries.find? fun (k, _) => k.text? = some key.label).map Prod.snd

/-- A setting, or its usual value where it is left out. -/
def settingOr {α : Type} (entries : List (Value × Value)) (key : Key)
    (read : Key → Value → Except Error α) (usual : α) : Except Error α :=
  match setting? entries key with
  | some v => read key v
  | none => .ok usual

/-- A configuration from a value. -/
def ofValue : Value → Except Error Config
  | .map entries =>
    match (entries.map Prod.fst).filter (!isKnown ·) with
    | [] => do
      let usual : Config := {}
      let mapping ← settingOr entries .mapping tableOf usual.mapping
      let conversions ← settingOr entries .conversions tableOf usual.conversions
      let failureTags ← settingOr entries .failureTags tagsOf usual.failureTags
      let addedFields ← settingOr entries .addedFields tableOf usual.addedFields
      let addedTags ← settingOr entries .addedTags tagsOf usual.addedTags
      return { mapping, conversions, failureTags, addedFields, addedTags }
    | unknown => .error (unknownError unknown)
  | v => .error (.notAMap v.kind)

/-! ## Writing -/

/-- A table of texts as a table of values. -/
def valueTable (t : Table Text Text) : Table Value Value :=
  (t.mapKeys .text Value.text_beq_text).map .text

/-- A table of texts as a map. -/
def tableValue (t : Table Text Text) : Value := .map (valueTable t).entries

/-- Texts as a list. -/
def textsValue (texts : List Text) : Value := .list (texts.map .text)

/-- A configuration as a value. -/
def toValue (c : Config) : Value :=
  .map [
    (.text Key.mapping.label, tableValue c.mapping),
    (.text Key.conversions.label, tableValue c.conversions),
    (.text Key.failureTags.label, textsValue c.failureTags),
    (.text Key.addedFields.label, tableValue c.addedFields),
    (.text Key.addedTags.label, textsValue c.addedTags)]

end Config

end Dissection
