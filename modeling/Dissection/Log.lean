import Dissection.Value.Display
import Dissection.Value.Identity

/-!
# Log lines and their sinks

A message is logged at a level, which goes by its name, and may be bound to the source it
speaks of.  The sinks that messages go to are kept by a library of their own: it numbers
them, installs and removes them, and hands a message to every sink that takes messages
of its level.  What that library does is not settled here.  It is a parameter, and
`Library.Lawful` says what is relied on.

Configuring the log replaces the sink that it is known by, or every sink if it is
known by none, among them the one that a library may start out with.  What is replaced is
removed before the new sink's level is looked up, so after a level that does not exist
no sink is left; a sink that was remembered and is gone cannot be removed again.

## Main definitions

* `Log.Line` — a message at a level.
* `Log.resolve` — the name of the level that a request and the environment ask for.
* `Log.Library`, `Log.Library.Lawful` — what keeps the sinks, and what is relied on.
* `Log.Library.numbered` — a library that keeps its sinks in a list.
* `Log.State` — what has become of the sinks, and the sink that is remembered.
* `Log.State.configure`, `Log.State.write` — replacing the sink, and logging a message.
-/

namespace Dissection.Log

/-! ## Lines -/

/-- A message at a level. -/
structure Line where
  /-- The name of the level. -/
  level : Text
  message : Text
  /-- The source that the message is bound to. -/
  source : Option Value := none
  deriving DecidableEq, Repr

namespace Line

/-- A message for whoever looks for a fault. -/
def debug (message : Text) : Line := ⟨"DEBUG", message, none⟩

/-- A message that something went wrong. -/
def warning (message : Text) : Line := ⟨"WARNING", message, none⟩

/-- A message about a source that something went wrong. -/
def warningFrom (source : Value) (message : Text) : Line := ⟨"WARNING", message, some source⟩

/-- A line as it is written at a time.  Its source is one that can be shown. -/
def written (line : Line) (time : Text) : Text :=
  time ++ " | " ++ line.level.padRight 8 ++ " | " ++
    (line.source.map Value.display).getD "-" ++ " | " ++ line.message ++ "\n"

end Line

/-! ## The level that is asked for -/

/-- What the environment says about logging. -/
structure Environment where
  /-- The level that the environment names. -/
  level : Option Text := none
  /-- The switch for debugging. -/
  debug : Option Text := none
  deriving DecidableEq, Repr

/-- Whether the environment switches debugging on. -/
def Environment.isDebug (env : Environment) : Bool :=
  (env.debug.getD []).asciiLower = ("true" : Text)

/-- The name of the level to log at: the one asked for, or else the environment's; an
empty name counts as none. -/
def resolve (env : Environment) (level : Option Text) : Text :=
  if level.getD [] ≠ [] then (level.getD []).upper
  else if env.level.getD [] ≠ [] then (env.level.getD []).upper
  else if env.isDebug then "DEBUG"
  else "WARNING"

/-! ## Libraries -/

/-- Why the log cannot be configured or written to. -/
inductive Error where
  | unknownLevel (name : Text)
  | unknownSink (id : Nat)
  deriving DecidableEq, Repr

/-- What is said of an error. -/
def Error.message : Error → Text
  | .unknownLevel name => "Level '" ++ name ++ "' does not exist"
  | .unknownSink id => "There is no existing handler with id " ++ Numeral.ofNat id

/-- How a sink writes a message, once it is told the time. -/
abbrev Format := Line → Text → Text

/-- A sink. -/
structure Sink where
  id : Nat
  /-- The severity of the least messages that it takes. -/
  least : Nat
  format : Format

/-- What a sink takes, and what it writes of it. -/
def Sink.manner (sink : Sink) : Nat × Format := (sink.least, sink.format)

/-- A library that keeps sinks. -/
structure Library where
  /-- What it keeps. -/
  State : Type
  /-- What it starts out with. -/
  start : State
  /-- The sinks that are installed. -/
  sinks : State → List Sink
  /-- The severity of the level of a name, if there is such a level. -/
  severity? : Text → Option Nat
  removeAll : State → State
  remove : State → Nat → Except Error State
  /-- Installs a sink for a level by name, and says how it is numbered. -/
  add : State → Format → Text → State × Except Error Nat
  /-- What is written of a message, by one sink after another. -/
  log : State → Line → Except Error (List (Text → Text))

/-- What is relied on in a library: sinks are removed on request, all of them or one, but
not one that is not there; a sink is installed for a level that exists, and for no other;
and a message goes once to each sink that takes its level.  A message at a level that does
not exist is an error unless there is no sink for it anyway. -/
structure Library.Lawful (lib : Library) : Prop where
  removeAll : ∀ s, lib.sinks (lib.removeAll s) = []
  remove : ∀ s id, id ∈ (lib.sinks s).map (·.id) →
    ∃ left, lib.remove s id = .ok left ∧ lib.sinks left = (lib.sinks s).filter (·.id ≠ id)
  remove_unknown : ∀ s id, id ∉ (lib.sinks s).map (·.id) →
    lib.remove s id = .error (.unknownSink id)
  add : ∀ s format name least, lib.severity? name = some least →
    ∃ left id, lib.add s format name = (left, .ok id) ∧
      lib.sinks left = lib.sinks s ++ [⟨id, least, format⟩]
  add_unknown : ∀ s format name, lib.severity? name = none →
    ∃ left, lib.add s format name = (left, .error (.unknownLevel name)) ∧
      lib.sinks left = lib.sinks s
  log : ∀ s line severity, lib.severity? line.level = some severity →
    lib.log s line = .ok (((lib.sinks s).filter (·.least ≤ severity)).map (·.format line))
  log_unknown : ∀ s line, lib.severity? line.level = none →
    lib.log s line = if (lib.sinks s).isEmpty then .ok [] else .error (.unknownLevel line.level)

/-! ### Sinks in a list -/

/-- Sinks in a list, in the order in which they were installed. -/
structure Register where
  sinks : List Sink := []
  /-- The number of the next sink. -/
  next : Nat := 1

namespace Register

/-- The levels, with their severities. -/
def levels : List (Text × Nat) :=
  [("TRACE", 5), ("DEBUG", 10), ("INFO", 20), ("SUCCESS", 25), ("WARNING", 30), ("ERROR", 40),
    ("CRITICAL", 50)]

/-- The severity of the level of a name. -/
def severity? (name : Text) : Option Nat := levels.lookup name

/-- Removes a sink. -/
def remove (r : Register) (id : Nat) : Except Error Register :=
  if id ∈ r.sinks.map (·.id) then .ok { r with sinks := r.sinks.filter (·.id ≠ id) }
  else .error (.unknownSink id)

/-- Installs a sink.  Its number is used up even where there is no such level. -/
def add (r : Register) (format : Format) (name : Text) : Register × Except Error Nat :=
  match severity? name with
  | none => ({ r with next := r.next + 1 }, .error (.unknownLevel name))
  | some least => (⟨r.sinks ++ [⟨r.next, least, format⟩], r.next + 1⟩, .ok r.next)

/-- What is written of a message.  Without a sink no level is looked up. -/
def log (r : Register) (line : Line) : Except Error (List (Text → Text)) :=
  match severity? line.level with
  | some severity => .ok ((r.sinks.filter (·.least ≤ severity)).map (·.format line))
  | none => if r.sinks.isEmpty then .ok [] else .error (.unknownLevel line.level)

end Register

/-- The library that keeps its sinks in a list and starts out with some. -/
def Library.numbered (start : Register) : Library where
  State := Register
  start := start
  sinks := Register.sinks
  severity? := Register.severity?
  removeAll r := { r with sinks := [] }
  remove := Register.remove
  add := Register.add
  log := Register.log

/-! ## The log -/

/-- What has become of the log. -/
structure State (lib : Library) where
  kept : lib.State
  /-- The sink that was installed last. -/
  remembered : Option Nat := none

namespace State

variable {lib : Library}

/-- The log before it is configured. -/
def initial (lib : Library) : State lib := ⟨lib.start, none⟩

/-- The sinks that messages go to. -/
def sinks (s : State lib) : List Sink := lib.sinks s.kept

/-- What is kept once the remembered sink is removed, or whatever is installed if none is
remembered. -/
def cleared (s : State lib) : Except Error lib.State :=
  match s.remembered with
  | none => .ok (lib.removeAll s.kept)
  | some id => lib.remove s.kept id

/-- Replaces the sink, and says how the new one is numbered. -/
def configure (s : State lib) (env : Environment) (level : Option Text) :
    State lib × Except Error Nat :=
  match s.cleared with
  | .error e => (s, .error e)
  | .ok kept =>
    match lib.add kept Line.written (resolve env level) with
    | (kept, .error e) => ({ s with kept }, .error e)
    | (kept, .ok id) => (⟨kept, some id⟩, .ok id)

/-- What the sinks write of a message at a time. -/
def write (s : State lib) (time : Text) (line : Line) : Except Error (List Text) :=
  (lib.log s.kept line).map fun written => written.map (· time)

end State

end Dissection.Log
