import Dissection.CommandLine.Check
import Dissection.CommandLine.Customary
import Dissection.CommandLine.Stream

/-!
# The command line

Options for every command stand in front of the command.  The log is configured before
the command looks at its own arguments, and a command that does not exist is refused
before that.

## Main definitions

* `CommandLine.Surroundings` — what a program finds around it.
* `CommandLine.session` — the session that arguments ask for.
-/

namespace Dissection.CommandLine

/-- What a program finds around it, the libraries that it is written for among them. -/
structure Surroundings extends Places where
  environment : Log.Environment := {}
  /-- The library that keeps the sinks of the log. -/
  log : Log.Library := .numbered {}
  shell : Shell := .customary

/-- The session of a command. -/
def Command.session (program : Text) (around : Surroundings) (log : Log.State around.log)
    (arguments : List Text) : Command → Session
  | .check => Check.session around.shell program arguments
  | .run => Stream.session around.shell program log around.toPlaces arguments

/-- The session in which the log is configured first. -/
def withLog (around : Surroundings) (level : Option Text)
    (session : Log.State around.log → Session) : Session :=
  match (Log.State.initial around.log).configure around.environment level with
  | (_, .error e) => .broken (.log e)
  | (log, .ok _) => session log

/-- The session that arguments ask for. -/
def session (program : Text) (around : Surroundings) (arguments : List Text) : Session :=
  match around.shell.front program arguments with
  | .ended s => s
  | .given ⟨level, none⟩ =>
    withLog around level fun _ => .answer (around.shell.help program)
  | .given ⟨level, some (command, arguments)⟩ =>
    withLog around level fun log => command.session program around log arguments

end Dissection.CommandLine
