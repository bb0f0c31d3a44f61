import Dissection.CommandLine

/-!
# Invocations

Arguments get through to a command if the shell reads what stands in front of it and the log can be
configured.  They ask for a stream to be dissected, or for patterns to be checked, if the shell
then hands the command its parameters.  All that is left to go wrong is in the patterns, the
configuration and the lines.

Nothing is said here of how a shell reads arguments, and nothing is relied on.

## Main definitions

* `CommandLine.Passage` — arguments that get through to a command.
* `CommandLine.Invocation` — arguments that ask for a stream to be dissected.
* `CommandLine.Check.Call` — arguments that ask for patterns to be checked.

## Main statements

* `Text.withoutSequences_append` — what stands in front of the first escape character stays.
* `CommandLine.Invocation.session_eq`, `CommandLine.Check.Call.session_eq_checkAll` — what becomes
  of the session.
-/

namespace Dissection

/-! ## Control sequences -/

namespace Text

variable {front rest text : Text} {c : Char}

theorem withoutSequences_cons (hc : c ≠ escape) (rest : Text) :
    withoutSequences (c :: rest) = c :: withoutSequences rest := by
  have hnone : afterSequence? (c :: rest) = none := by
    simp [afterSequence?, strip?, Ne.symm hc]
  rw [withoutSequences]
  split
  · next h => rw [hnone] at h; cases h
  · rfl

/-- What stands in front of the first escape character stays. -/
theorem withoutSequences_append (h : escape ∉ front) (rest : Text) :
    withoutSequences (front ++ rest) = front ++ withoutSequences rest := by
  induction front with
  | nil => rfl
  | cons c front ih =>
    rw [List.mem_cons, not_or] at h
    rw [List.cons_append, withoutSequences_cons (Ne.symm h.1), ih h.2, List.cons_append]

/-- Without an escape character nothing is left out. -/
theorem withoutSequences_eq_self (h : escape ∉ text) : withoutSequences text = text := by
  have hnil : withoutSequences [] = [] := by decide +kernel
  have happend := withoutSequences_append h []
  rwa [List.append_nil, hnil, List.append_nil] at happend

end Text

namespace CommandLine

/-! ## Getting through to a command -/

variable {program : Text} {around : Surroundings} {arguments : List Text}

/-- Arguments that get through to a command, with what is found on the way. -/
structure Passage (command : Command) (program : Text) (around : Surroundings)
    (arguments : List Text) where
  /-- The level that the log is asked to have. -/
  level : Option Text
  /-- The arguments of the command. -/
  rest : List Text
  log : Log.State around.log
  /-- The sink that is installed. -/
  sink : Nat
  finds : around.shell.front program arguments = .given ⟨level, some (command, rest)⟩
  configured : (Log.State.initial around.log).configure around.environment level =
    (log, .ok sink)

/-- The session is that of the command. -/
theorem Passage.session_eq {command : Command} (call : Passage command program around arguments) :
    session program around arguments = command.session program around call.log call.rest := by
  simp only [session, call.finds, withLog, call.configured]

/-- Arguments that ask for a stream to be dissected. -/
structure Invocation (program : Text) (around : Surroundings) (arguments : List Text) extends
    Passage .run program around arguments where
  given : Stream.Request
  reads : around.shell.run program around.toPlaces rest = .given given

/-- The request that is made. -/
def Invocation.request (call : Invocation program around arguments) : Stream.Request :=
  call.given.normal

/-- The session is the response to the request. -/
theorem Invocation.session_eq (call : Invocation program around arguments) :
    session program around arguments =
      Stream.respond (around.shell.refuse program) call.log around.files call.request := by
  rw [call.toPassage.session_eq]
  simp only [Command.session, Stream.session, call.reads]
  rfl

/-- Arguments that ask for patterns to be checked. -/
structure Check.Call (program : Text) (around : Surroundings) (arguments : List Text) extends
    Passage .check program around arguments where
  request : Check.Request
  reads : around.shell.check program rest = .given request

namespace Check.Call

/-- The patterns to be checked. -/
def patterns (call : Call program around arguments) : List Text := call.request.patterns

/-- Whether tokens are given as JSON. -/
def asJson (call : Call program around arguments) : Bool := call.request.asJson

/-- The session checks the patterns. -/
theorem session_eq_checkAll (call : Call program around arguments) :
    CommandLine.session program around arguments = checkAll call.asJson call.patterns := by
  rw [call.toPassage.session_eq]
  simp only [Command.session, Check.session, call.reads]
  rfl

end Check.Call

/-! ### The customary shell -/

/-- The customary shell writes lines as they are, unless there are control sequences in them. -/
theorem Shell.verbatim_customary : Shell.customary.Verbatim :=
  fun _ h => Text.withoutSequences_eq_self h

/-- The log for warnings, with one sink. -/
def warningLog : Log.State (.numbered {}) :=
  ⟨⟨[⟨1, 30, Log.Line.written⟩], 2⟩, some 1⟩

/-- Without a level the log writes warnings and what is above them. -/
theorem configure_none :
    (Log.State.initial (.numbered {})).configure {} none = (warningLog, .ok 1) :=
  rfl

end CommandLine

end Dissection
