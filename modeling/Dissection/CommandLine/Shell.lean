import Dissection.CommandLine.Session
import Dissection.Text.Escapes
import Dissection.Text.Lines

/-!
# Between the program and its arguments

A shell stands between the program and those who use it.  It reads the arguments, opens
what they name, and hands each command its parameters; it ends the session itself where
arguments ask for help or cannot be read; and it puts lines on their channels.  The
program is written for a library that does all this.  What that library does is not
settled here: it is a parameter, and who needs to know something of it says so.

Arguments are texts.  Bytes that are no UTF-8 are no arguments here.

## Main definitions

* `Command` — the commands.
* `Places` — where a shell finds what arguments name.
* `Source` — a stream of lines that has been opened.
* `Check.Request`, `Stream.Request` — the parameters of the commands.
* `Objection` — what a command says of parameters that it does not take.
* `Shell` — what a shell does.
* `Shell.Verbatim` — what is relied on when lines are written.
-/

namespace Dissection.CommandLine

/-! ## Commands -/

/-- A command. -/
inductive Command where
  | check
  | run
  deriving DecidableEq, Repr

namespace Command

/-- Every command. -/
def all : List Command := [.check, .run]

/-- The name of a command. -/
def name : Command → Text
  | .check => "check"
  | .run => "run"

/-- The command of a name. -/
def ofName? (name : Text) : Option Command := all.find? (·.name = name)

end Command

/-! ## Parameters -/

/-- Where a shell finds what arguments name. -/
structure Places where
  /-- What is found at a path. -/
  files : Text → File := fun _ => .missing
  /-- The bytes of the standard input. -/
  input : List UInt8 := []
  /-- What ends the lines of the standard input. -/
  inputEnds : Lines.Ends := .any

/-- A stream of lines that has been opened. -/
structure Source where
  bytes : List UInt8
  /-- What ends its lines. -/
  ends : Lines.Ends := .any
  deriving DecidableEq, Repr

/-- The lines of a stream, and the error that ends it. -/
def Source.lines (source : Source) : List Text × Option Utf8.Error :=
  Lines.ofBytes source.ends source.bytes

/-- Which patterns are checked, and how. -/
structure Check.Request where
  patterns : List Text
  /-- Whether tokens are given as JSON. -/
  asJson : Bool := false
  deriving DecidableEq, Repr

/-- Which stream is dissected, and how. -/
structure Stream.Request where
  pattern : Option Text := none
  /-- The path of a configuration. -/
  config : Option Text := none
  /-- The field that holds the line. -/
  field : Text := "message"
  /-- The conversions as they are given, a field and a datatype each. -/
  conversions : List Text := []
  keepsBlank : Bool := false
  source : Source
  deriving DecidableEq, Repr

/-- The level that the log is to have, and the command with its arguments, if there is one. -/
structure Preface where
  level : Option Text := none
  command : Option (Command × List Text) := none
  deriving DecidableEq, Repr

/-- What a command says of parameters that it does not take: how it is to be used, or what is
wrong with one of them. -/
inductive Objection where
  | usage (message : Text)
  | badParameter (name message : Text)
  deriving DecidableEq, Repr

/-! ## Shells -/

/-- What a shell makes of arguments: it ends the session itself, or hands over parameters. -/
inductive Parsed (α : Type) where
  | ended (s : Session)
  | given (parameters : α)

/-- What a shell does, for a program that goes by some name. -/
structure Shell where
  /-- Reads the options in front of a command, and finds the command. -/
  front : (program : Text) → (arguments : List Text) → Parsed Preface
  /-- Reads the arguments of the command that checks patterns. -/
  check : (program : Text) → (arguments : List Text) → Parsed Check.Request
  /-- Reads the arguments of the command that dissects a stream, and opens the stream. -/
  run : (program : Text) → Places → (arguments : List Text) → Parsed Stream.Request
  /-- The program's page of help. -/
  help : (program : Text) → Text
  /-- The session of a stream whose parameters are objected to. -/
  refuse : (program : Text) → Objection → Session
  /-- What is written of a line. -/
  echo : Text → Text

/-- A shell that writes lines as they are, unless there are control sequences in them. -/
def Shell.Verbatim (shell : Shell) : Prop := ∀ text, Text.escape ∉ text → shell.echo text = text

end Dissection.CommandLine
