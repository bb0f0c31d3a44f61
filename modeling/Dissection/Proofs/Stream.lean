import Dissection.Proofs.Invocation
import Dissection.Proofs.Lines
import Dissection.Proofs.Printing

/-!
# Dissecting a stream line by line

One filter dissects all lines of a stream, but it is registered once and no line changes it.  So
what is printed of a line is what a filter of its own would make of that line, and what is
printed of a stream is that, line by line.  A record takes one line of output, since no line
break is left in it, and the lines of the output are the records in the order of their lines.

## Main definitions

* `CommandLine.Stream.Request.Configures` — the configuration that a request asks for.
* `CommandLine.Stream.Prints` — what is printed of a line.

## Main statements

* `CommandLine.Stream.exists_prints` — of a line that is processed to the end a record is
  printed.
* `CommandLine.Stream.dissectAll_of_prints` — what is printed of the lines of a stream.
* `CommandLine.session_of_lines` — what is printed of a stream.
-/

namespace Dissection

namespace CommandLine

open Text Traversal Dissection.Action

namespace Stream

variable {field line text : Text} {files : Text → File} {request : Request} {f : Filter}
  {c : Config} {lines texts : List Text} {refuse : Objection → Session} {lib : Log.Library}
  {log : Log.State lib} {echo : Text → Text}

/-! ## Configurations -/

/-- A request asks for a configuration: the one in its file, or the one with its pattern, with the
conversions that are given put into it. -/
def Request.Configures (files : Text → File) (request : Request) (c : Config) : Prop :=
  ∃ base given, request.base files = .ok base ∧
    request.conversions.mapM Request.readConversion = .ok given ∧
    c = { base with conversions := base.conversions.merge (Table.ofList given) }

/-- The filter that a request asks for is registered with the configuration that it asks for. -/
theorem exists_configures_of_filter (h : request.filter refuse files = .ok f) :
    ∃ c, request.Configures files c ∧ (Filter.ofConfig c).register = .ok f := by
  unfold Request.filter at h
  split at h
  · cases h
  · obtain ⟨-, -, h⟩ := bind_eq_ok_iff.1 h
    obtain ⟨base, hbase, h⟩ := bind_eq_ok_iff.1 h
    obtain ⟨given, hgiven, h⟩ := bind_eq_ok_iff.1 h
    exact ⟨_, ⟨base, given, hbase, mapError_eq_ok_iff.1 hgiven, rfl⟩, mapError_eq_ok_iff.1 h⟩

/-! ## Lines -/

/-- A line is processed to the end, and this is printed of its record. -/
def Prints (f : Filter) (field line text : Text) : Prop :=
  ∃ s final, f.process.Gives (Filter.lineRecord (.text line) (.text field)) s final ∧
    recordText final = .ok text

theorem printable_lineRecord (line field : Text) :
    (Filter.lineRecord (.text line) (.text field)).Printable where
  named := by
    intro entry he
    obtain rfl := List.mem_singleton.1 he
    exact ⟨field, rfl⟩
  shown := by
    intro entry he
    obtain rfl := List.mem_singleton.1 he
    exact .text line

/-- Of a line that is processed to the end a record is printed. -/
theorem exists_prints (hf : (Filter.ofConfig c).register = .ok f)
    (h : f.process.Returns (Filter.lineRecord (.text line) (.text field))) :
    ∃ text, Prints f field line text := by
  obtain ⟨s, final, h⟩ := h
  have hfinal := Filter.printable_of_gives_process hf (printable_lineRecord line field) h
  obtain ⟨text, htext⟩ := exists_recordText hfinal
  exact ⟨text, s, final, h, htext⟩

theorem Prints.unbroken (h : Prints f field line text) : text.Unbroken := by
  obtain ⟨_, _, -, htext⟩ := h
  exact Json.unbroken_of_write _ htext

/-- The session of a line that is processed to the end writes its record behind its log lines. -/
theorem dissectLine_of_prints (log : Log.State lib) (h : Prints f field line text) :
    dissectLine log f field line =
      { outputs := logged log (f.process.run (Filter.lineRecord (.text line) (.text field))).log ++
          [.line .output text] } := by
  obtain ⟨s, final, ⟨hresult, rfl⟩, htext⟩ := h
  simp only [dissectLine, hresult, htext]
  rfl

theorem on_after (channel : Channel) (time : Text) (outputs : List Output) (s : Session) :
    (s.after outputs).on echo channel time =
      (outputs.filter (·.channel = channel)).flatMap (·.written echo time) ++
        s.on echo channel time := by
  simp [Session.on]

/-- Log lines are not written on the channel for output. -/
theorem filter_logged (log : Log.State lib) (lines : List Log.Line) :
    (logged log lines).filter (·.channel = .output) = [] := by
  rw [List.filter_eq_nil_iff]
  intro output houtput
  obtain ⟨line, -, hwritten⟩ := List.mem_flatMap.1 houtput
  obtain ⟨written, -, rfl⟩ := List.mem_map.1 hwritten
  simp [Output.channel]

/-- A record is written as it is, since no escape character is left in it. -/
theorem Prints.echo_eq (hecho : ∀ text, escape ∉ text → echo text = text)
    (h : Prints f field line text) : echo text = text :=
  hecho text fun hmem => absurd (h.unbroken escape hmem) (by decide)

/-- The record of a line is printed in front of those of the lines behind it. -/
theorem dissectAll_cons_of_prints (hecho : ∀ text, escape ∉ text → echo text = text)
    (log : Log.State lib) (last : Session) (h : Prints f field line text) (rest : List Text) :
    (dissectAll log f field last (line :: rest)).onOutput echo =
        text ++ ['\n'] ++ (dissectAll log f field last rest).onOutput echo ∧
      (dissectAll log f field last (line :: rest)).ending =
        (dissectAll log f field last rest).ending := by
  rw [dissectAll, dissectLine_of_prints log h]
  refine ⟨?_, rfl⟩
  rw [Session.onOutput, on_after, List.filter_append, filter_logged]
  simp [Output.channel, Output.written, Session.onOutput, h.echo_eq hecho]

/-- A line that is not processed to the end ends the session, and no record is printed of it. -/
theorem dissectLine_of_not_returns (log : Log.State lib) (echo : Text → Text)
    (h : ¬ f.process.Returns (Filter.lineRecord (.text line) (.text field))) :
    ∃ b, (dissectLine log f field line).ending = .breakdown b ∧
      (dissectLine log f field line).onOutput echo = [] := by
  cases hresult : (f.process.run (Filter.lineRecord (.text line) (.text field))).result with
  | ok s => exact absurd (returns_iff_result.2 ⟨s, hresult⟩) h
  | error fault =>
    simp only [dissectLine, hresult]
    refine ⟨_, rfl, ?_⟩
    rw [Session.onOutput, on_after, filter_logged]
    rfl

/-- Records are printed of the lines in front of the first that is not processed to the end, and
of no others. -/
theorem exists_prints_dissectAll (hecho : ∀ text, escape ∉ text → echo text = text)
    (hf : (Filter.ofConfig c).register = .ok f) (log : Log.State lib) {last : Session}
    (hlast : last.onOutput echo = []) (lines : List Text) :
    ∃ texts, List.Forall₂ (Prints f field)
        (lines.takeWhile fun line =>
          f.process.Returns (Filter.lineRecord (.text line) (.text field))) texts ∧
      (dissectAll log f field last lines).onOutput echo = texts.flatMap (· ++ ['\n']) := by
  induction lines with
  | nil => exact ⟨[], .nil, hlast⟩
  | cons line rest ih =>
    by_cases hline : f.process.Returns (Filter.lineRecord (.text line) (.text field))
    · obtain ⟨text, htext⟩ := exists_prints hf hline
      obtain ⟨texts, htexts, hrest⟩ := ih
      refine ⟨text :: texts, ?_, ?_⟩
      · rw [List.takeWhile_cons_of_pos (by simpa using hline)]
        exact .cons htext htexts
      · rw [(dissectAll_cons_of_prints hecho log last htext rest).1, hrest, List.flatMap_cons]
    · obtain ⟨b, hending, hnothing⟩ := dissectLine_of_not_returns log echo hline
      refine ⟨[], ?_, ?_⟩
      · rw [List.takeWhile_cons_of_neg (by simpa using hline)]
        exact .nil
      · simp only [dissectAll, hending]
        exact hnothing

end Stream

/-- With a filter the session of a request is that of the lines that are kept. -/
theorem Invocation.session_of_filter {program : Text} {around : Surroundings}
    {arguments : List Text} (call : Invocation program around arguments) {f : Filter}
    (hfilter : call.request.filter (around.shell.refuse program) around.files = .ok f) :
    session program around arguments =
      Stream.dissectAll call.log f call.request.field
        (Stream.lastOf call.request.source.lines.2)
        (call.request.keptLines call.request.source.lines.1) := by
  simp only [call.session_eq, Stream.respond, hfilter]

/-- A standard input, and nothing else. -/
def inputOf (bytes : List UInt8) : Surroundings where
  input := bytes

/-- Arguments that take a line in two and its second part for a binary64 number. -/
def twoPartArguments : List Text :=
  ["run", "--pattern", "%\x7ba\x7d %\x7bb\x7d", "--convert", "b=float"]

/-- The standard input is dissected, and log lines below a warning are not written. -/
def twoPartCall (bytes : List UInt8) :
    Invocation "linedissect" (inputOf bytes) twoPartArguments where
  level := none
  rest := ["--pattern", "%\x7ba\x7d %\x7bb\x7d", "--convert", "b=float"]
  log := warningLog
  sink := 1
  finds := rfl
  configured := configure_none
  given := {
    pattern := some "%\x7ba\x7d %\x7bb\x7d"
    conversions := ["b=float"]
    source := ⟨bytes, .any⟩ }
  reads := rfl

/-- The filter of these arguments. -/
def twoPartFilter : Filter where
  settings := Config.settings
    { mapping := Table.ofList [("message", "%\x7ba\x7d %\x7bb\x7d")]
      conversions := Table.ofList [("b", "float")] }
  conversions := Table.ofList [(.text "b", .text "float")]
  rules := Table.ofList [(.text "message",
    { leading := [], tokens := [⟨⟨"a", .normal, "a"⟩, " "⟩, ⟨⟨"b", .normal, "b"⟩, []⟩] })]
  registered := true

/-- Nothing is objected to in these arguments. -/
theorem filter_twoPartCall (bytes : List UInt8) (refuse : Objection → Session) :
    (twoPartCall bytes).request.filter refuse (inputOf bytes).files = .ok twoPartFilter := by
  have hone : ¬ ((twoPartCall bytes).request.pattern.isSome =
      (twoPartCall bytes).request.config.isSome) := Bool.noConfusion
  have hbase : (twoPartCall bytes).request.base (inputOf bytes).files =
      .ok { mapping := Table.ofList [("message", "%\x7ba\x7d %\x7bb\x7d")] } := rfl
  have hgiven : (twoPartCall bytes).request.conversions.mapM Stream.Request.readConversion =
      .ok [("b".toList, "float".toList)] := by
    change ["b=float".toList].mapM Stream.Request.readConversion = _
    decide +kernel
  have hregister : (Filter.ofConfig
      { mapping := Table.ofList [("message", "%\x7ba\x7d %\x7bb\x7d")]
        conversions := (Table.ofList []).merge (Table.ofList [("b", "float")]) }).register =
      .ok twoPartFilter := by decide +kernel
  rw [Stream.Request.filter, if_neg hone, hbase, hgiven]
  exact congrArg (Except.mapError Stream.Request.withoutRules) hregister

end CommandLine

end Dissection
