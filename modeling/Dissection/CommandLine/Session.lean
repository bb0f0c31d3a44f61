import Dissection.Action
import Dissection.Config.File
import Dissection.Log
import Dissection.Pattern

/-!
# Sessions

What a command does is seen in the lines that it writes, on either channel and in their
order, and in how it ends.  Lines are kept as the command gives them; how a line is put on
its channel is up to what writes it there.

## Main definitions

* `Output` — something that is written.
* `Ending` — how a session ends.
* `Session` — what is written, and the ending.
* `Session.onOutput`, `Session.onErrors` — the text on either channel.
-/

namespace Dissection.CommandLine

/-! ## Writing -/

/-- Where a line is written. -/
inductive Channel where
  | output
  | errors
  deriving DecidableEq, Repr

/-- Something that is written. -/
inductive Output where
  | line (channel : Channel) (text : Text)
  /-- What a sink of the log writes once it is told the time, on the channel for errors. -/
  | log (written : Text → Text)

namespace Output

/-- Where something is written. -/
def channel : Output → Channel
  | .line channel _ => channel
  | .log _ => .errors

/-- What is written at a time, where `echo` puts a line on its channel. -/
def written (echo : Text → Text) (time : Text) : Output → Text
  | .line _ text => echo text ++ "\n"
  | .log written => written time

end Output

/-! ## Ending -/

/-- Why a session breaks off. -/
inductive Breakdown where
  | log (e : Log.Error)
  | pattern (e : Pattern.Error)
  | config (path : Text) (e : Config.LoadError)
  | record (f : Fault)
  | input (e : Utf8.Error)
  /-- A configuration holds more than texts can, and what comes of it is left open. -/
  | beyondTexts (path : Text)
  deriving DecidableEq, Repr

/-- What is said of a breakdown. -/
def Breakdown.message : Breakdown → Text
  | .log e => e.message
  | .pattern e => e.message
  | .config path e => e.message path
  | .record f => f.message
  | .input e => e.message
  | .beyondTexts path => "half of a surrogate pair in " ++ path

/-- How a session ends. -/
inductive Ending where
  | exit (code : Nat)
  | breakdown (b : Breakdown)
  deriving DecidableEq, Repr

namespace Ending

/-- The code that a session ends with; a breakdown counts as a failure. -/
def code : Ending → Nat
  | .exit code => code
  | .breakdown _ => 1

/-- An ending that is no success. -/
def failing : Ending → Ending
  | .exit 0 => .exit 1
  | ending => ending

end Ending

/-! ## Sessions -/

/-- What a command writes, and how it ends. -/
structure Session where
  outputs : List Output := []
  ending : Ending := .exit 0

namespace Session

/-- A session with something written before it. -/
def after (outputs : List Output) (s : Session) : Session :=
  { s with outputs := outputs ++ s.outputs }

@[simp] theorem outputs_after (outputs : List Output) (s : Session) :
    (s.after outputs).outputs = outputs ++ s.outputs := rfl

@[simp] theorem ending_after (outputs : List Output) (s : Session) :
    (s.after outputs).ending = s.ending := rfl

/-- What is written on a channel at a time. -/
def on (echo : Text → Text) (channel : Channel) (time : Text) (s : Session) : Text :=
  (s.outputs.filter (·.channel = channel)).flatMap (·.written echo time)

/-- What is written on the channel for output, where no time is written. -/
def onOutput (echo : Text → Text) (s : Session) : Text := s.on echo .output []

/-- What is written on the channel for errors, with a time in the log lines. -/
def onErrors (echo : Text → Text) (time : Text) (s : Session) : Text := s.on echo .errors time

/-- A session that answers with a text. -/
def answer (text : Text) : Session := { outputs := [.line .output text] }

/-- A session that only breaks off. -/
def broken (b : Breakdown) : Session := { ending := .breakdown b }

/-- A session that reports an error. -/
def reported (r : Report) : Session :=
  { outputs := [.line .errors r.formatted], ending := .exit 2 }

end Session

end Dissection.CommandLine
