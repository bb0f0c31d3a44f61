import Dissection.Config.Settings
import Dissection.Conversion
import Dissection.Outcome
import Dissection.Template

/-!
# Filters

A filter applies settings to records.  Registering it compiles all of its patterns; a
pattern that cannot be compiled leaves the filter as it was.  The datatypes are those of
the settings that the filter was made with, the patterns those of the settings at the
last registration, and tags and added fields those of the settings as they are now.

A record is dissected source by source: captures become fields, and a source that is
missing or does not fit is logged.  Then fields are converted, and a record that fits
every pattern gets the added fields and tags.  A setting that cannot be used as it is
meant to be stops the filter where it is used.

## Main definitions

* `Filter`, `Filter.ofConfig`, `Filter.ofSettings` — a filter, and the one that a
  configuration or settings make.
* `Filter.register` — compiles the patterns.
* `Filter.process` — what a registered filter does to a record.
* `Filter.processNothing` — what it does where there is no record.
-/

namespace Dissection

/-! ## Dissecting a field -/

/-- Dissects a field of a record.  A field that is absent or null is not found, and
what is no text is dissected as its text, if it has one. -/
def Pattern.dissectField (p : Pattern) (r : Record) (source : Value) :
    Except Value.Misfit Outcome :=
  match r.get? source with
  | none | some .null => .ok .keyNotFound
  | some v => v.shown.map p.dissect

/-- The log lines of an outcome: one for every tag with a value and no name. -/
def Outcome.log (o : Outcome) : List Log.Line :=
  o.orphans.map fun tag =>
    .debug ("Dissector indirect value has no matching key, tag: " ++ tag)

/-! ## The report of a pattern -/

/-- The report of an error in a pattern, under the source that it is for.  A slot with
too many digits is not reported. -/
def Pattern.Error.report? (pattern : Option Text) (source : Value) :
    Pattern.Error → Option Report
  | .unterminated u =>
    some (.ofField .unterminatedPlaceholder (Pattern.Error.message (.unterminated u)) none
      { operation := some "compile_pattern", pattern, sourceField := source } none)
  | .placeholder (.slotTooLong _) => none
  | .placeholder e =>
    let (code, raw) :=
      match e with
      | .badSlot raw => (Report.Code.invalidOrder, raw)
      | .appendWithIndirect _ raw | .severalMarks _ raw => (.invalidField, raw)
      | .slotTooLong _ => (.invalidOrder, [])
    some (.ofField code e.message none
      { operation := some "parse_field", pattern, sourceField := source
        details := .map [(.text "raw", .text raw)] } none)

/-! ## Filters -/

/-- A filter. -/
structure Filter where
  settings : Settings
  /-- The datatypes that the filter was made with. -/
  conversions : Table Value Value
  /-- The patterns as they were compiled last. -/
  rules : Table Value Pattern := {}
  registered : Bool := false
  deriving DecidableEq, Inhabited

namespace Filter

/-- The filter that a configuration makes. -/
def ofConfig (c : Config) : Filter where
  settings := c.settings
  conversions := Config.valueTable c.conversions

/-- The filter that settings make. -/
def ofSettings (s : Settings) : Except Value.Misfit Filter :=
  (Conversion.datatypes s.conversions).map fun conversions => { settings := s, conversions }

/-! ### Registering -/

/-- Why the patterns of settings cannot be compiled. -/
inductive RuleError where
  /-- The setting is no map, or holds what is no text. -/
  | misfit (m : Value.Misfit)
  /-- The pattern for a source is none. -/
  | badPattern (source : Value) (pattern : Text) (e : Pattern.Error)
  deriving DecidableEq, Repr

/-- What is said of an error. -/
def RuleError.message : RuleError → Text
  | .misfit m => m.message
  | .badPattern _ _ e => e.message

/-- The report of an error.  Misfits are not reported. -/
def RuleError.report? : RuleError → Option Report
  | .misfit _ => none
  | .badPattern source pattern e => e.report? (some pattern) source

/-- The pattern of a rule. -/
def compileRule (source v : Value) : Except RuleError Pattern :=
  match v.wording with
  | .error m => .error (.misfit m)
  | .ok text => (Pattern.compile text).mapError (.badPattern source text)

/-- The patterns of rules, up to the first that cannot be compiled. -/
def compileRules : List (Value × Value) → Except RuleError (List (Value × Pattern))
  | [] => .ok []
  | (source, v) :: rest =>
    match compileRule source v with
    | .error e => .error e
    | .ok pattern => (compileRules rest).map ((source, pattern) :: ·)

/-- Compiles the patterns of the settings. -/
def register (f : Filter) : Except RuleError Filter :=
  match f.settings.mapping.entries with
  | .error m => .error (.misfit m)
  | .ok entries =>
    (compileRules entries).map fun rules =>
      { f with rules := Table.ofList rules, registered := true }

/-- The filter, registered if it was not. -/
def ready (f : Filter) : Except RuleError Filter := if f.registered then .ok f else f.register

/-! ### Processing a record -/

/-- What became of a record. -/
structure Summary where
  outcomes : Table Value Outcome
  failures : List Conversion.Failure
  deriving DecidableEq, Repr

/-- Whether there was a rule and every source was matched. -/
def isSuccess (outcomes : List (Value × Outcome)) : Bool :=
  !outcomes.isEmpty && outcomes.all (·.2.isMatched)

/-- Whether a record was matched by every rule. -/
def Summary.success (s : Summary) : Bool := isSuccess s.outcomes.entries

/-- The log line before a record is processed. -/
def before : Log.Line := .debug "Event before dissection"

/-- The log line after a record was processed. -/
def after : Log.Line := .debug "Event after dissection"

/-- Applies a rule. -/
def applyRule (failureTags source : Value) (pattern : Pattern) : Action Outcome := do
  let record ← Action.get
  let outcome ← Action.use (pattern.dissectField record source)
  Action.log outcome.log
  Action.setAll outcome.values.entries
  match outcome with
  | .matched .. => return outcome
  | .keyNotFound =>
    Action.log [.warningFrom source "Dissector mapping, key not found in event"]
    return outcome
  | .patternNotFound .. =>
    Action.log [.warningFrom source "Dissector mapping, pattern not found"]
    let tags ← Action.use failureTags.items
    Action.appendTags tags
    return outcome

/-- Applies rules one after another. -/
def applyRules (failureTags : Value) :
    List (Value × Pattern) → Action (List (Value × Outcome))
  | [] => return []
  | (source, pattern) :: rest => do
    let outcome ← applyRule failureTags source pattern
    let outcomes ← applyRules failureTags rest
    return (source, outcome) :: outcomes

/-- The text that a template yields for a record. -/
def yield (r : Record) (template : Value) : Except Value.Misfit Text :=
  template.wording >>= Template.interpolate r

/-- The text of a template with its references to the record's fields replaced. -/
def filledIn (template : Value) : Action Text := do
  let record ← Action.get
  Action.use (yield record template)

/-- Adds a field; name and value are templates. -/
def addField (entry : Value × Value) : Action Unit := do
  let name ← filledIn entry.1
  let text ← filledIn entry.2
  Action.set (.text name) (.text text)

/-- Adds fields one after another. -/
def addFields : List (Value × Value) → Action Unit
  | [] => return ()
  | entry :: rest => do
    addField entry
    addFields rest

/-- Adds a tag, which is a template. -/
def addTag (template : Value) : Action Unit := do
  let tag ← filledIn template
  Action.appendTag (.text tag)

/-- Adds tags one after another. -/
def addTags : List Value → Action Unit
  | [] => return ()
  | template :: rest => do
    addTag template
    addTags rest

/-- Adds the fields and tags that settings have for success. -/
def decorate (s : Settings) : Action Unit := do
  let fields ← Action.use s.addedFields.entries
  addFields fields
  let tags ← Action.use s.addedTags.items
  addTags tags

/-- What follows the conversion: the decoration where every rule matched, and the summary. -/
def finish (f : Filter) (outcomes : List (Value × Outcome))
    (failures : List Conversion.Failure) : Action Summary := do
  let converted ← Action.get
  if isSuccess outcomes then decorate f.settings
  let final ← Action.get
  Action.log [after]
  let tags := (Record.tagList? final).or (Record.tagList? converted)
  return { outcomes := Table.ofList outcomes, failures := failures.map (.seenWith tags) }

/-- What a registered filter does to a record. -/
def process (f : Filter) : Action Summary := do
  Action.log [before]
  let outcomes ← applyRules f.settings.failureTags f.rules.entries
  let failures ← Conversion.convertAll f.conversions.entries
  f.finish outcomes failures

/-- The record that holds a line under a field. -/
def lineRecord (line source : Value) : Record := Table.put {} source line

/-- Processes records one after another, until one stops with a fault. -/
def processAll (f : Filter) : List Record → List Log.Line × Except Fault (List Record)
  | [] => ([], .ok [])
  | r :: rest =>
    let run := f.process.run r
    match run.result with
    | .error fault => (run.log, .error fault)
    | .ok _ =>
      let (log, records) := processAll f rest
      (run.log ++ log, records.map (run.record :: ·))

/-! ### Without a record -/

/-- The fault of asking something of a record that is not there. -/
def noRecord (ability : Value.Ability) : Fault := .misfit (.lacks (Value.kind .null) ability)

/-- What a registered filter does where there is no record: its log lines, and the fault
of the first thing that it asks of the record.  A filter with nothing to do asks
nothing. -/
def processNothing (f : Filter) : List Log.Line × Except Fault Summary :=
  match f.rules.entries, f.conversions.entries with
  | _ :: _, _ => ([before], .error (noRecord .presence))
  | [], (_, datatype) :: _ =>
    match Conversion.Datatype.ofValue datatype with
    | .error m => ([before], .error (.misfit m))
    | .ok (some _) => ([before], .error (noRecord .read))
    | .ok none =>
      match datatype.within (Conversion.Failure.unsupportedMessage datatype) with
      | .error u => ([before], .error (.unwritable u))
      | .ok warning => ([before, .warning warning], .error (noRecord .appendTag))
  | [], [] => ([before, after], .ok ⟨{}, []⟩)

end Filter

end Dissection
