import Dissection.CommandLine.Arguments
import Dissection.CommandLine.Page
import Dissection.CommandLine.Shell
import Dissection.Path
import Dissection.Text.Escapes

/-!
# The customary shell

The options that the program and its commands declare, and a shell that reads them in the
customary way: the last of several values counts, help is given as soon as it is asked for,
the first operand of a stream names its source, and a dash is the standard input.  What it
writes is not meant for terminals, so control sequences are left out.

This is the shell that the program is run with.  Nothing is proved for it alone but what
becomes of single invocations.

## Main definitions

* `options`, `Check.options`, `Stream.options` — the options that are declared.
* `Customary.front`, `Customary.check`, `Customary.run` — what is made of arguments.
* `Shell.customary` — the shell.
-/

namespace Dissection.CommandLine

/-! ## In front of a command -/

/-- What an option in front of a command stands for. -/
inductive Choice where
  | version
  | logLevel
  | help
  deriving DecidableEq, Repr

/-- The options in front of a command. -/
def options : List (Declared Choice) := [
  { option := .version, long := "--version" },
  { option := .logLevel, long := "--log-level", takesValue := true },
  { option := .help, long := "--help" }]

/-- The levels that may be asked for. -/
def logLevels : List Text :=
  ["TRACE", "DEBUG", "INFO", "SUCCESS", "WARNING", "ERROR", "CRITICAL"]

/-- What the program says of its version. -/
def version : Text := "Linedissect v0.1.0"

namespace Customary

/-- A letter of a level's name without its case.  Two letters that are not ASCII stand
for an `s` or two when case does not count, and no others stand for letters of a
level. -/
def foldedLetter (c : Char) : Text :=
  if c = 'ſ' then ['s']
  else if c = 'ß' || c = 'ẞ' then ['s', 's']
  else [c.toLower]

/-- The level of a name in any case. -/
def levelOfName? (name : Text) : Option Text :=
  logLevels.find? (·.asciiLower = name.flatMap foldedLetter)

/-- What is said of a name that no level has. -/
def unknownLevel (name : Text) : Text :=
  invalidValue "'--log-level'" (name.quoted ++ " is not one of " ++
    (", " : Text).intercalate (logLevels.map (·.asciiLower.quoted)) ++ ".")

/-- What is said of a name that no command has. -/
def unknownCommand (name : Text) : Text :=
  "No such command " ++ name.quoted ++ "." ++
    suggestion (Text.nearest name (Command.all.map Command.name))

/-- What the options in front of a command come to. -/
inductive Start where
  | answer (text : Text)
  | refusal (message : Text)
  /-- The level that the log is to have, and the command with its arguments. -/
  | proceed (level : Option Text) (rest : List Text)

/-- The option that is answered whatever else is given: the first one about the version
or the help. -/
def answered? (given : Given Choice) : Option Choice :=
  (given.options.find? fun (choice, _) => choice ≠ .logLevel).map Prod.fst

/-- Reads the options in front of a command. -/
def start (program : Text) (arguments : List Text) : Start :=
  match Given.ofArguments options false arguments with
  | .error misuse => .refusal misuse.message
  | .ok given =>
    match answered? given, given.value? .logLevel with
    | some .version, _ => .answer version
    | some _, _ => .answer (Page.main.help program)
    | none, none => .proceed none given.operands
    | none, some name =>
      match levelOfName? name with
      | none => .refusal (unknownLevel name)
      | some level => .proceed (some level) given.operands

/-- The session of a command that does not exist.  What was taken for its name may be an
option that stood behind two dashes. -/
def withoutCommand (program name : Text) (arguments : List Text) : Session :=
  match start program (name :: arguments) with
  | .answer text => .answer text
  | .refusal message => Page.main.refusal program message
  | .proceed .. => Page.main.refusal program (unknownCommand name)

/-- Reads the options in front of a command, and finds the command. -/
def front (program : Text) (arguments : List Text) : Parsed Preface :=
  match start program arguments with
  | .answer text => .ended (.answer text)
  | .refusal message => .ended (Page.main.refusal program message)
  | .proceed level [] => .given ⟨level, none⟩
  | .proceed level (name :: arguments) =>
    match Command.ofName? name with
    | none => .ended (withoutCommand program name arguments)
    | some command => .given ⟨level, some (command, arguments)⟩

end Customary

/-! ## Checking patterns -/

namespace Check

/-- What an option stands for. -/
inductive Choice where
  | json
  | help
  deriving DecidableEq, Repr

/-- The options. -/
def options : List (Declared Choice) := [
  { option := .json, long := "--json" },
  { option := .help, long := "--help" }]

end Check

/-- Reads the arguments of the command that checks patterns. -/
def Customary.check (program : Text) (arguments : List Text) : Parsed Check.Request :=
  match Given.ofArguments Check.options true arguments with
  | .error misuse => .ended (Page.check.refusal program misuse.message)
  | .ok given =>
    if given.has .help then .ended (.answer (Page.check.help program))
    else if given.operands = [] then
      .ended (Page.check.refusal program "Missing argument 'PATTERNS...'.")
    else .given ⟨given.operands, given.has .json⟩

/-! ## Dissecting a stream -/

namespace Stream

/-- What an option stands for. -/
inductive Choice where
  | pattern
  | config
  | field
  | convert
  | skipBlank
  | keepBlank
  | help
  deriving DecidableEq, Repr

/-- The options. -/
def options : List (Declared Choice) := [
  { option := .pattern, long := "--pattern", letter := some 'p', takesValue := true },
  { option := .config, long := "--config", letter := some 'c', takesValue := true },
  { option := .field, long := "--field", letter := some 'f', takesValue := true },
  { option := .convert, long := "--convert", takesValue := true },
  { option := .skipBlank, long := "--skip-blank" },
  { option := .keepBlank, long := "--keep-blank" },
  { option := .help, long := "--help" }]

end Stream

namespace Customary

/-- Whether blank lines are kept; of two options about them the last one counts. -/
def keepsBlank (given : Given Stream.Choice) : Bool :=
  (given.options.filter fun (choice, _) => choice = .skipBlank || choice = .keepBlank).getLast?.any
    (·.1 = .keepBlank)

/-- The name of the source. -/
def sourceName (given : Given Stream.Choice) : Text := given.operands.head?.getD ['-']

/-- The source of a name, or what is said if there is none. -/
def opened (places : Places) (name : Text) : Except Text Source :=
  let problem (cause : Text) : Text := invalidValue "'[SOURCE]'" ("'" ++ name ++ "': " ++ cause)
  if name = ['-'] then .ok ⟨places.input, places.inputEnds⟩
  else
    match places.files name with
    | .missing => .error (problem "No such file or directory")
    | .directory => .error (problem "Is a directory")
    | .content bytes => .ok ⟨bytes, .any⟩

/-- What is said of the path of a configuration that leads to a directory. -/
def directoryProblem? (files : Text → File) (config : Option Text) : Option Text :=
  match config.filter (· ≠ []) with
  | none => none
  | some path =>
    if files path = .directory then
      some (invalidValue "'--config' / '-c'" ("File " ++ Text.quoted path ++ " is a directory."))
    else none

/-- What is said of operands after the first one. -/
def surplus? (operands : List Text) : Option Text :=
  match operands.drop 1 with
  | [] => none
  | [operand] => some ("Got unexpected extra argument (" ++ operand ++ ")")
  | operands =>
    some ("Got unexpected extra arguments (" ++ [' '].intercalate operands ++ ")")

/-- Reads the arguments of the command that dissects a stream, and opens the stream. -/
def run (program : Text) (places : Places) (arguments : List Text) : Parsed Stream.Request :=
  match Given.ofArguments Stream.options true arguments with
  | .error misuse => .ended (Page.run.refusal program misuse.message)
  | .ok given =>
    if given.has .help then .ended (.answer (Page.run.help program))
    else
      match directoryProblem? places.files (given.value? .config),
        opened places (sourceName given), surplus? given.operands with
      | some problem, _, _ | none, .error problem, _ | none, .ok _, some problem =>
        .ended (Page.run.refusal program problem)
      | none, .ok source, none =>
        .given {
          pattern := given.value? .pattern
          config := given.value? .config
          field := (given.value? .field).getD "message"
          conversions := given.values .convert
          keepsBlank := keepsBlank given
          source := source }

/-- The session of a stream whose parameters are objected to. -/
def refuse (program : Text) : Objection → Session
  | .usage message => Page.run.refusal program message
  | .badParameter name message => Page.run.refusal program (invalidValue name message)

/-! ## What is looked up -/

/-- The options and operands of a stream that is to be dissected, if that is asked for. -/
def streamOptions? (arguments : List Text) : Option (Given Stream.Choice) :=
  match front [] arguments with
  | .given ⟨_, some (.run, rest)⟩ => (Given.ofArguments Stream.options true rest).toOption
  | _ => none

/-- The paths that are looked up for arguments. -/
def paths (arguments : List Text) : List Text :=
  (streamOptions? arguments).elim [] fun given =>
    sourceName given :: (given.value? .config).elim [] fun path => [path, Path.plain path]

/-- Whether arguments ask for the standard input to be read. -/
def readsInput (arguments : List Text) : Bool :=
  (streamOptions? arguments).any fun given => sourceName given = ['-']

end Customary

/-- The customary shell. -/
def Shell.customary : Shell where
  front := Customary.front
  check := Customary.check
  run := Customary.run
  help := Page.main.help
  refuse := Customary.refuse
  echo := Text.withoutSequences

end Dissection.CommandLine
