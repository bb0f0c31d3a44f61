import Dissection.CommandLine.Shell
import Dissection.Filter
import Dissection.Path

/-!
# Dissecting a stream of lines

Each line of a stream becomes a record with one field, which a filter processes and
which is then written as JSON on a line of its own.

## Main definitions

* `Stream.dissectLine`, `Stream.dissectAll` — the sessions of a line and of a stream.
* `Stream.Request.filter` — the filter that a request asks for.
* `Stream.respond` — the session of a request.
* `Stream.session` — the session that arguments ask for.
-/

namespace Dissection.CommandLine.Stream

/-! ## Lines -/

/-- A record as JSON.  A value that JSON has no notation for is written as its text. -/
def recordText (r : Record) : Except Json.Unwritable Text :=
  Json.write (fun v => v.within v.display) r.toValue

/-- What the sinks write of log lines. -/
def logged {lib : Log.Library} (log : Log.State lib) (lines : List Log.Line) : List Output :=
  lines.flatMap fun line => ((lib.log log.kept line).toOption.getD []).map .log

/-- The session of a line. -/
def dissectLine {lib : Log.Library} (log : Log.State lib) (f : Filter) (field line : Text) :
    Session :=
  let run := f.process.run (Filter.lineRecord (.text line) (.text field))
  Session.after (logged log run.log) <|
    match run.result with
    | .error fault => .broken (.record fault)
    | .ok _ =>
      match recordText run.record with
      | .error u => .broken (.record (.unwritable u))
      | .ok text => { outputs := [.line .output text] }

/-- The session of a stream.  It ends like `last` unless it breaks off before. -/
def dissectAll {lib : Log.Library} (log : Log.State lib) (f : Filter) (field : Text)
    (last : Session) : List Text → Session
  | [] => last
  | line :: rest =>
    let first := dissectLine log f field line
    match first.ending with
    | .breakdown _ => first
    | .exit _ => (dissectAll log f field last rest).after first.outputs

/-! ## Requests -/

namespace Request

/-- The request in which a text that is empty counts as none. -/
def normal (r : Request) : Request :=
  { r with pattern := r.pattern.filter (· ≠ []), config := r.config.filter (· ≠ []) }

/-- The field and the datatype of a conversion as it is given. -/
def readConversion (given : Text) : Except Objection (Text × Text) :=
  match Text.cut? ['='] given with
  | some (field@(_ :: _), datatype@(_ :: _)) => .ok (field, datatype)
  | _ => .error (.badParameter "--convert" ("expected FIELD=TYPE, got " ++ given.quoted))

/-- The configuration that is asked for, but for the conversions that are given, or the
session that ends without it. -/
def base (files : Text → File) (r : Request) : Except Session Config :=
  match r.config, r.pattern with
  | none, some pattern => .ok { mapping := Table.ofList [(r.field, pattern)] }
  | some path, _ =>
    let path := Path.plain path
    match Config.load (files path) with
    | .ok config =>
      if Config.holdsHalf (files path) then .error (.broken (.beyondTexts path)) else .ok config
    | .error e =>
      .error (match e.report? path with
        | some report => .reported report
        | none => .broken (.config path e))
  | none, none => .ok {}

/-- The session that ends because the patterns cannot be compiled. -/
def withoutRules (e : Filter.RuleError) : Session :=
  match e.report?, e with
  | some report, _ => .reported report
  | none, .badPattern _ _ e => .broken (.pattern e)
  | none, .misfit m => .broken (.record (.misfit m))

/-- The filter that is asked for, or the session that ends without it, where `refuse` ends the
session of parameters that are objected to. -/
def filter (refuse : Objection → Session) (files : Text → File) (r : Request) :
    Except Session Filter := do
  if r.pattern.isSome = r.config.isSome then
    throw (refuse (.usage "Provide exactly one of --pattern or --config."))
  let config ← r.base files
  let given ← (r.conversions.mapM readConversion).mapError refuse
  let conversions := config.conversions.merge (Table.ofList given)
  (Filter.ofConfig { config with conversions }).register.mapError withoutRules

/-- The lines of a stream that are dissected. -/
def keptLines (r : Request) (lines : List Text) : List Text :=
  if r.keepsBlank then lines else lines.filter (· ≠ [])

end Request

/-! ## Sessions -/

/-- The session of a stream that is not UTF-8 to its end, after its lines. -/
def lastOf (e : Option Utf8.Error) : Session := e.elim {} fun e => .broken (.input e)

/-- The session of a request. -/
def respond {lib : Log.Library} (refuse : Objection → Session) (log : Log.State lib)
    (files : Text → File) (r : Request) : Session :=
  match r.filter refuse files with
  | .error s => s
  | .ok f =>
    let (lines, error) := r.source.lines
    dissectAll log f r.field (lastOf error) (r.keptLines lines)

/-- The session that arguments ask for. -/
def session {lib : Log.Library} (shell : Shell) (program : Text) (log : Log.State lib)
    (places : Places) (arguments : List Text) : Session :=
  match shell.run program places arguments with
  | .ended s => s
  | .given request => respond (shell.refuse program) log places.files request.normal

end Dissection.CommandLine.Stream
